import IocpChatting.Content.User

/-!
# `Room` and `RoomManager` (Content/room.h, room.cpp, room_manager.h, room_manager.cpp)

`Chat` is everything the packet handlers read and write: the two managers, the request queue of
the Redis manager (`task_req_queue_`) and the log of the calls of `SendPacketFunc`.

A `Room*` is its index in `room_list_`; `user_list_` holds `User*`, so the room functions reach
the users through the pool, as the source does.  No null pointer is ever pushed to `user_list_`
and its elements are pointers into the pool, so the `nullptr` tests of the loops have no branch
here.
-/

set_option linter.unusedSectionVars false
set_option autoImplicit false

namespace Iocp

structure Room where
  roomIdx : Int
  userList : List Session
  maxUserCnt : Int
  currentUserCnt : Nat

def Room.init (roomIdx : Int) : Room := ⟨roomIdx, [], kRoomMaxUserCnt, 0⟩

structure Chat where
  users : UserManager
  roomList : RoomPtr → Room
  taskReqQueue : List RedisTask
  sent : List Sent

namespace Chat

def init (heap : Session → Fin kDefaultRingBufferSize → UInt8) : Chat where
  users := UserManager.init heap
  roomList := fun r => Room.init (r : Nat)
  taskReqQueue := []
  sent := []

/-- `SendPacketFunc` -/
def send (c : Chat) (idx : Nat) (pkt : Packet) : Chat := { c with sent := c.sent ++ [⟨idx, pkt⟩] }

/-- a write through a `User*` -/
def setUser (c : Chat) (p : Session) (u : User) : Chat := { c with users := c.users.set p u }

/-- a write through a `Room*` -/
def setRoom (c : Chat) (r : RoomPtr) (room : Room) : Chat :=
  { c with roomList := Function.update c.roomList r room }

/-! ## room.cpp -/

/-- whom the loop of `BroadcastMsg` does not skip; the index is narrowed to `int16_t` and compared
with a `uint32_t` -/
def receives (c : Chat) (passUserIdx : Nat) (exceptMe : Bool) (p : Session) : Bool :=
  !(exceptMe && uint32 (int16 (c.users.pool p).sessionIdx) == passUserIdx)

def broadcastMsg (c : Chat) (r : RoomPtr) (pkt : Packet) (passUserIdx : Nat) (exceptMe : Bool) :
    Chat :=
  let receivers := (c.roomList r).userList.filter (c.receives passUserIdx exceptMe)
  { c with sent := c.sent ++ receivers.map (fun p => ⟨uint32 (c.users.pool p).sessionIdx, pkt⟩) }

def notifyChat (c : Chat) (mem : Mem) (r : RoomPtr) (userIdx : Int) (userId : CStr)
    (msg : List UInt8) : Chat :=
  c.broadcastMsg r
    { header := setPacketIdAndLen mem .roomChatNotify
      body := .roomChatNotify (copyId mem userId) msg }
    (uint32 userIdx) false

def userInfo (mem : Mem) (u : User) : UserInfo where
  userIndex := uint64 u.sessionIdx
  idLen := int8 u.userId.bytes.length
  userId := copyId mem u.userId

def notifyNewUser (c : Chat) (mem : Mem) (r : RoomPtr) (p : Session) : Chat :=
  c.broadcastMsg r
    { header := setPacketIdAndLen mem .roomNewUserNotify
      body := .roomNewUserNotify (userInfo mem (c.users.pool p)) }
    (uint32 (c.users.pool p).sessionIdx) true

/-- entry `k` of `user_list_` of a new `ROOM_USER_LIST_NOTIFY_PACKET`: only `user_id_` has a
default initialiser -/
def blankUserInfo (mem : Mem) (k : Nat) : UserInfo where
  userIndex := (List.range 8).foldr
    (fun j acc => (mem.junk .roomUserListNotify (6 + 42 * k + j)).toNat + 256 * acc) 0
  idLen := int8 (mem.junk .roomUserListNotify (6 + 42 * k + 8)).toNat
  userId := List.replicate (kMaxUserIdLen + 1) 0

/-- the entries the loop writes, then what it leaves of the array; a list longer than the array
stands for a write past its end -/
def notifyUserList (c : Chat) (mem : Mem) (r : RoomPtr) (p : Session) : Chat :=
  let userList := (c.roomList r).userList
  c.send (uint32 (c.users.pool p).sessionIdx)
    { header := setPacketIdAndLen mem .roomUserListNotify
      body := .roomUserListNotify (int8 userList.length)
        (userList.map (fun q => userInfo mem (c.users.pool q)) ++
          ((List.range kRoomMaxUserCnt).drop userList.length).map (blankUserInfo mem)) }

def notifyLeaveUser (c : Chat) (mem : Mem) (r : RoomPtr) (p : Session) : Chat :=
  c.broadcastMsg r
    { header := setPacketIdAndLen mem .roomLeaveUserNotify
      body := .roomLeaveUserNotify (uint64 (c.users.pool p).sessionIdx) }
    (uint32 (c.users.pool p).sessionIdx) true

def enterUser (c : Chat) (mem : Mem) (r : RoomPtr) (p : Session) : Chat × ErrorCode :=
  let room := c.roomList r
  if room.userList.length ≥ room.maxUserCnt then (c, .enterRoomFullUser)
  else
    let c := c.setRoom r { room with
      userList := room.userList ++ [p], currentUserCnt := uint16 (room.currentUserCnt + 1) }
    let c := c.setUser p ((c.users.pool p).enterRoom room.roomIdx)
    let c := c.notifyNewUser mem r p
    let c := c.notifyUserList mem r p
    (c, .none)

/-- `LeaveUser`: `std::erase_if` by user id -/
def leaveUser (c : Chat) (mem : Mem) (r : RoomPtr) (p : Session) : Chat :=
  let leaveUserId := (c.users.pool p).userId
  let room := c.roomList r
  -- everybody with that id goes, and `current_user_cnt_` does not go down
  let c := c.setRoom r { room with
    userList := room.userList.filter (fun q => !(leaveUserId == (c.users.pool q).userId)) }
  c.notifyLeaveUser mem r p

/-! ## room_manager.cpp -/

def getRoomByIdx (roomIdx : Int) : Option RoomPtr :=
  if h : roomIdx < 0 ∨ roomIdx ≥ kMaxRoomCnt then none else some ⟨roomIdx.toNat, by omega⟩

def enterRoom (c : Chat) (mem : Mem) (p : Session) (roomIdx : Int) : Chat × ErrorCode :=
  match getRoomByIdx roomIdx with
  | none => (c, .roomInvalidIndex)
  | some r => c.enterUser mem r p

def leaveRoom (c : Chat) (mem : Mem) (p : Session) : Chat × ErrorCode :=
  match getRoomByIdx (c.users.pool p).roomIdx with
  | none => (c, .roomInvalidIndex)
  | some r =>
    let c := c.leaveUser mem r p
    (c.setUser p { c.users.pool p with domainState := .login }, .none)

end Chat

end Iocp
