import IocpChatting.Content.Room

/-!
# The packet handlers (Content/packet_manager.cpp) and the Redis handler (redis_manager.cpp)

* the seven handlers of `PacketManager`, in the order of the source; each takes `session_idx`, the
  memory behind `p_data` and the state;
* `packetHandlers`     the table that `BindHandler` fills;
* `redisLogin`         `RedisManager::LoginHandler`, run by a Redis worker; the store is a parameter
                       `redisGet`: the reply of `GET` for a key, if there is one.
-/

set_option linter.unusedSectionVars false
set_option autoImplicit false

namespace Iocp
open UserManager (getUserByIndex)

namespace Chat

def reply (mem : Mem) (id : PacketId) (body : Body) : Packet := ⟨setPacketIdAndLen mem id, body⟩

/-! ## handlers -/

def connectHandler (c : Chat) (sessionIdx : Nat) : Chat :=
  match getUserByIndex (int32 sessionIdx) with
  | none => c
  | some p => c.setUser p (c.users.pool p).clear

def disconnectHandler (c : Chat) (mem : Mem) (sessionIdx : Nat) : Chat :=
  match getUserByIndex (int32 sessionIdx) with
  | none => c
  | some p =>
    if (c.users.pool p).domainState = .room then
      match getRoomByIdx (c.users.pool p).roomIdx with
      | none => c
      | some r =>
        -- `domain_state_`, `room_idx_` and `packet_buf_` of the user stay
        let c := c.leaveUser mem r p
        { c with users := c.users.deleteUserInfo (c.users.pool p).userId }
    else { c with users := c.users.deleteUserInfo (c.users.pool p).userId }

/-- the id `LoginHandler` works with: `user_id_` read as a C string -/
def loginId (mem : Mem) (data : Nat → UInt8) : CStr :=
  CStr.ofBytes ((LoginRequest.read data).userId ++ (LoginRequest.read data).userPw ++ mem.pastRequest)

def loginTask (sessionIdx : Nat) (data : Nat → UInt8) : RedisTask where
  userIdx := sessionIdx
  id := .requestLogin
  data := (LoginRequest.read data).userId ++ (LoginRequest.read data).userPw

def loginHandler (c : Chat) (mem : Mem) (sessionIdx : Nat) (data : Nat → UInt8) : Chat :=
  let userId := loginId mem data
  if c.users.getCurrentUserCnt ≥ c.users.getMaxUserCnt then
    c.send sessionIdx (reply mem .loginResponse (.loginResponse ErrorCode.loginUserUsedAllObj.val))
  else if c.users.findUserIndexByID userId = -1 then
    -- the user has the id from here on, whatever Redis will say
    let c := { c with users := c.users.setUserID (int32 sessionIdx) userId }
    { c with taskReqQueue := c.taskReqQueue ++ [loginTask sessionIdx data] }
  else
    c.send sessionIdx (reply mem .loginResponse (.loginResponse ErrorCode.loginUserAlready.val))

def loginDBResHandler (c : Chat) (mem : Mem) (sessionIdx : Nat) (data : Nat → UInt8) : Chat :=
  let result := readResult data
  let users :=
    if result = ErrorCode.none.val then c.users.setUserLogin (int32 sessionIdx)
    else c.users.setUserID (int32 sessionIdx) CStr.empty
  { c with users := users }.send sessionIdx (reply mem .loginResponse (.loginResponse result))

def enterRoomHandler (c : Chat) (mem : Mem) (sessionIdx : Nat) (data : Nat → UInt8) : Chat :=
  match getUserByIndex (int32 sessionIdx) with
  | none => c
  | some p =>
    if (c.users.pool p).domainState ≠ .login then
      c.send sessionIdx
        (reply mem .roomEnterResponse (.roomEnterResponse ErrorCode.enterRoomNotUsedStatus.val))
    else
      let (c, enterResult) := c.enterRoom mem p (readRoomNumber data)
      c.send sessionIdx (reply mem .roomEnterResponse (.roomEnterResponse enterResult.val))

def leaveRoomHandler (c : Chat) (mem : Mem) (sessionIdx : Nat) : Chat :=
  match getUserByIndex (int32 sessionIdx) with
  | none => c
  | some p =>
    if (c.users.pool p).domainState ≠ .room then
      c.send sessionIdx
        (reply mem .roomLeaveResponse (.roomLeaveResponse ErrorCode.userNotInRoom.val))
    else
      let (c, leaveResult) := c.leaveRoom mem p
      c.send sessionIdx (reply mem .roomLeaveResponse (.roomLeaveResponse leaveResult.val))

def roomChatHandler (c : Chat) (mem : Mem) (sessionIdx : Nat) (data : Nat → UInt8) : Chat :=
  match getUserByIndex (int32 sessionIdx) with
  | none =>
    c.send sessionIdx (reply mem .roomChatResponse (.roomChatResponse ErrorCode.userInLobby.val))
  | some p =>
    if (c.users.pool p).domainState ≠ .room then
      c.send sessionIdx (reply mem .roomChatResponse (.roomChatResponse ErrorCode.userInLobby.val))
    else
      match getRoomByIdx (c.users.pool p).roomIdx with
      | none =>
        c.send sessionIdx
          (reply mem .roomChatResponse (.roomChatResponse ErrorCode.chatRoomInvalidRoomNumber.val))
      | some r =>
        let c := c.send sessionIdx
          (reply mem .roomChatResponse (.roomChatResponse ErrorCode.none.val))
        c.notifyChat mem r (c.users.pool p).sessionIdx (c.users.pool p).userId (readMsg data)

end Chat

/-! ## the handler table -/

inductive Handler where
  | connect | disconnect | login | loginDBRes | enterRoom | leaveRoom | roomChat
deriving DecidableEq, Repr

def bindHandler : List (Nat × Handler) :=
  [(PacketId.sysUserConnect.val, .connect), (PacketId.sysUserDisconnect.val, .disconnect),
   (PacketId.loginRequest.val, .login), (RedisTaskId.responseLogin.val, .loginDBRes),
   (PacketId.roomEnterRequest.val, .enterRoom), (PacketId.roomLeaveRequest.val, .leaveRoom),
   (PacketId.roomChatRequest.val, .roomChat)]

/-- `packet_handlers_` -/
def packetHandlers (id : Nat) : Option Handler := bindHandler.lookup id

def Handler.run (hd : Handler) (c : Chat) (mem : Mem) (sessionIdx : Nat) (data : Nat → UInt8) :
    Chat :=
  match hd with
  | .connect => c.connectHandler sessionIdx
  | .disconnect => c.disconnectHandler mem sessionIdx
  | .login => c.loginHandler mem sessionIdx data
  | .loginDBRes => c.loginDBResHandler mem sessionIdx data
  | .enterRoom => c.enterRoomHandler mem sessionIdx data
  | .leaveRoom => c.leaveRoomHandler mem sessionIdx
  | .roomChat => c.roomChatHandler mem sessionIdx data

/-! ## redis_manager.cpp -/

/-- `p_login_pkt->user_id_` as the key of `Get` -/
def redisKey (mem : Mem) (task : RedisTask) : CStr := CStr.ofBytes (task.data ++ mem.pastTask)

/-- `p_login_pkt->user_pw_` as a C string -/
def redisPw (mem : Mem) (task : RedisTask) : CStr :=
  CStr.ofBytes (task.data.drop (kMaxUserIdLen + 1) ++ mem.pastTask)

/-- the verdict of `LoginHandler`: `Get` succeeds and the stored password is the one sent -/
def redisAccepts (redisGet : CStr → Option (List UInt8)) (mem : Mem) (task : RedisTask) : Bool :=
  redisGet (redisKey mem task) == some (redisPw mem task).bytes

/-- `RedisManager::LoginHandler`: the task it pushes to `task_res_queue_` -/
def redisLogin (redisGet : CStr → Option (List UInt8)) (mem : Mem) (task : RedisTask) : RedisTask :=
  let result := if redisAccepts redisGet mem task then ErrorCode.none.val
    else ErrorCode.loginUserInvalidPw.val
  { userIdx := task.userIdx
    id := .responseLogin
    data := [UInt8.ofNat (result % 256), UInt8.ofNat (result / 256)] }

/-- `ProcessTask`: only `kREQUEST_LOGIN` has a handler -/
def processTask (redisGet : CStr → Option (List UInt8)) (mem : Mem) (task : RedisTask) :
    Option RedisTask :=
  if task.id = .requestLogin then some (redisLogin redisGet mem task) else none

end Iocp
