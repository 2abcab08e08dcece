import Mathlib.Algebra.Group.Int.Defs
import Mathlib.Algebra.GroupWithZero.Nat
import Mathlib.Data.List.TakeWhile

/-!
# Packets and ids (Content/packet.h, packet_id.h, redis_task.h, error_code.h, packet_generator.h)

* the constants, the packet, task and error ids with their numeric values;
* `CStr`         what a `char*` gives a `std::string`: bytes without a NUL;
* `PacketInfo`, `RedisTask`, the request structs as they are read from raw memory;
* `Packet`       the packets the server builds, field by field;
* `Mem`          memory outside every modelled object, for the reads that leave their object.

Integers are `Nat` or `Int`; the conversions the code makes are written out (`int32`, `uint32`,
`int16`, `int8`, `uint64`).
-/

set_option autoImplicit false

namespace Iocp

/-! ## constants -/

abbrev kRoomMaxUserCnt : Nat := 10
abbrev kMaxRoomCnt : Nat := 10
abbrev kMaxUserCnt : Nat := 1000
abbrev kMaxUserIdLen : Nat := 32
abbrev kMaxUserPwLen : Nat := 32
abbrev kMaxChatMsgSize : Nat := 256

theorem kMaxUserCnt_ne_zero : kMaxUserCnt ≠ 0 := by decide
theorem kMaxRoomCnt_ne_zero : kMaxRoomCnt ≠ 0 := by decide

instance : NeZero kMaxUserCnt := ⟨kMaxUserCnt_ne_zero⟩
instance : NeZero kMaxRoomCnt := ⟨kMaxRoomCnt_ne_zero⟩

/-- an index of the session pool and of the user pool; also a `User*` into the latter -/
abbrev Session := Fin kMaxUserCnt
/-- an index of the room list; also a `Room*` into it -/
abbrev RoomPtr := Fin kMaxRoomCnt

/-! ## integer conversions -/

/-- two's complement of the low `w` bits -/
def signed (w x : Nat) : Int := if x % 2^w < 2^(w-1) then (x % 2^w : Nat) else (x % 2^w : Nat) - 2^w

def uint16 (x : Int) : Nat := (x % 2^16).toNat
def uint32 (x : Int) : Nat := (x % 2^32).toNat
def uint64 (x : Int) : Nat := (x % 2^64).toNat
def int8 (x : Int) : Int := signed 8 (x % 2^8).toNat
def int16 (x : Int) : Int := signed 16 (x % 2^16).toNat
def int32 (x : Nat) : Int := signed 32 x

def le16 (b0 b1 : UInt8) : Nat := b0.toNat + 256 * b1.toNat
def le32 (b0 b1 b2 b3 : UInt8) : Int := int32 (le16 b0 b1 + 65536 * le16 b2 b3)

/-! ## ids -/

inductive PacketId where
  | sysUserConnect | sysUserDisconnect
  | loginRequest | loginResponse
  | roomEnterRequest | roomEnterResponse | roomNewUserNotify | roomUserListNotify
  | roomLeaveRequest | roomLeaveResponse | roomLeaveUserNotify
  | roomChatRequest | roomChatResponse | roomChatNotify
deriving DecidableEq, Repr

def PacketId.val : PacketId → Nat
  | .sysUserConnect => 11
  | .sysUserDisconnect => 12
  | .loginRequest => 201
  | .loginResponse => 202
  | .roomEnterRequest => 206
  | .roomEnterResponse => 207
  | .roomNewUserNotify => 208
  | .roomUserListNotify => 209
  | .roomLeaveRequest => 215
  | .roomLeaveResponse => 216
  | .roomLeaveUserNotify => 217
  | .roomChatRequest => 221
  | .roomChatResponse => 222
  | .roomChatNotify => 223

def requestIds : List Nat :=
  [PacketId.loginRequest.val, PacketId.roomEnterRequest.val, PacketId.roomLeaveRequest.val,
    PacketId.roomChatRequest.val]

inductive RedisTaskId where
  | invalid | requestLogin | responseLogin
deriving DecidableEq, Repr

def RedisTaskId.val : RedisTaskId → Nat
  | .invalid => 0
  | .requestLogin => 1001
  | .responseLogin => 1002

/-- the error codes that the handlers and the managers below them return -/
inductive ErrorCode where
  | none | userNotInRoom | loginUserAlready | loginUserUsedAllObj | loginUserInvalidPw
  | enterRoomNotUsedStatus | enterRoomFullUser | roomInvalidIndex
  | chatRoomInvalidRoomNumber | userInLobby
deriving DecidableEq, Repr

def ErrorCode.val : ErrorCode → Nat
  | .none => 0
  | .userNotInRoom => 13
  | .loginUserAlready => 31
  | .loginUserUsedAllObj => 32
  | .loginUserInvalidPw => 33
  | .enterRoomNotUsedStatus => 53
  | .enterRoomFullUser => 54
  | .roomInvalidIndex => 61
  | .chatRoomInvalidRoomNumber => 81
  | .userInLobby => 82

/-! ## strings -/

structure CStr where
  bytes : List UInt8
  nulFree : (0 : UInt8) ∉ bytes
deriving DecidableEq, Repr

/-- the C string at the start of `bs`: up to the first NUL, or all of it -/
def CStr.ofBytes (bs : List UInt8) : CStr where
  bytes := bs.takeWhile (· != 0)
  nulFree := fun h => by simpa using List.mem_takeWhile_imp h

def CStr.empty : CStr := ⟨[], List.not_mem_nil⟩

theorem CStr.ofBytes_append {bs : List UInt8} (h : (0 : UInt8) ∈ bs) (x : List UInt8) :
    CStr.ofBytes (bs ++ x) = CStr.ofBytes bs := by
  have e : (bs ++ x).takeWhile (· != 0) = bs.takeWhile (· != 0) := by
    induction bs with
    | nil => simp at h
    | cons b bs ih =>
      by_cases hb : b = 0
      · simp [hb]
      · have h' : (0 : UInt8) ∈ bs := by
          rcases List.mem_cons.mp h with h0 | h0
          · exact absurd h0.symm hb
          · exact h0
        simp [hb, ih h']
  simp only [CStr.ofBytes, e]

/-! ## packets taken from a queue or a buffer -/

/-- a `char*`: into the ring array of a user, or to the body of a Redis task -/
inductive DataPtr where
  | null
  | ring (p : Session) (offset : Nat)
  | heap (body : List UInt8)
deriving DecidableEq, Repr

structure PacketInfo where
  sessionIndex : Nat
  id : Nat
  size : Nat
  data : DataPtr
deriving DecidableEq, Repr

structure RedisTask where
  userIdx : Nat
  id : RedisTaskId
  data : List UInt8
deriving DecidableEq, Repr

def RedisTask.size (t : RedisTask) : Nat := t.data.length

/-- `reinterpret_cast<PacketInfo&>(task)`: the two structs have the same layout -/
def RedisTask.toPacketInfo (t : RedisTask) : PacketInfo :=
  ⟨t.userIdx, t.id.val, t.size, .heap t.data⟩

structure PacketHeader where
  size : Nat
  id : Nat
  type : UInt8
deriving DecidableEq, Repr

abbrev packetHeaderLength : Nat := 5

/-- the header struct in the first bytes of a buffer -/
def PacketHeader.ofBytes (bs : List UInt8) : PacketHeader where
  size := le16 (bs.getD 0 0) (bs.getD 1 0)
  id := le16 (bs.getD 2 0) (bs.getD 3 0)
  type := bs.getD 4 0

/-! ## request structs, read through a pointer -/

/-- `len` bytes at offset `off` behind a pointer -/
def field (data : Nat → UInt8) (off len : Nat) : List UInt8 :=
  (List.range len).map (fun k => data (off + k))

@[simp] theorem field_length (data : Nat → UInt8) (off len : Nat) :
    (field data off len).length = len := by simp [field]

/-- `LOGIN_REQUEST_PACKET` behind its header -/
structure LoginRequest where
  userId : List UInt8
  userPw : List UInt8

def LoginRequest.read (data : Nat → UInt8) : LoginRequest where
  userId := field data packetHeaderLength (kMaxUserIdLen + 1)
  userPw := field data (packetHeaderLength + (kMaxUserIdLen + 1)) (kMaxUserPwLen + 1)

/-- `room_number_` of a `ROOM_ENTER_REQUEST_PACKET` -/
def readRoomNumber (data : Nat → UInt8) : Int := le32 (data 5) (data 6) (data 7) (data 8)

/-- `msg_` of a `ROOM_CHAT_REQUEST_PACKET` -/
def readMsg (data : Nat → UInt8) : List UInt8 := field data packetHeaderLength (kMaxChatMsgSize + 1)

/-- `result_` of a `RedisLoginRes` -/
def readResult (data : Nat → UInt8) : Nat := le16 (data 0) (data 1)

/-! ## packets as a client writes them -/

def clientPacket (id : Nat) (body : List UInt8) : List UInt8 :=
  let size := packetHeaderLength + body.length
  [UInt8.ofNat (size % 256), UInt8.ofNat (size / 256), UInt8.ofNat (id % 256), UInt8.ofNat (id / 256), 0]
    ++ body

theorem clientPacket_length (id : Nat) (body : List UInt8) :
    (clientPacket id body).length = packetHeaderLength + body.length := by
  simp only [clientPacket, List.length_append, List.length_cons, List.length_nil]

/-- a `char` array of `len` bytes that holds the string `s` -/
def charArray (len : Nat) (s : List UInt8) : List UInt8 := s ++ List.replicate (len - s.length) 0

def loginPacket (userId userPw : List UInt8) : List UInt8 :=
  clientPacket PacketId.loginRequest.val
    (charArray (kMaxUserIdLen + 1) userId ++ charArray (kMaxUserPwLen + 1) userPw)

def roomEnterPacket (roomNumber : UInt8) : List UInt8 :=
  clientPacket PacketId.roomEnterRequest.val [roomNumber, 0, 0, 0]

def roomLeavePacket : List UInt8 := clientPacket PacketId.roomLeaveRequest.val []

/-! ## memory that no object owns -/

/-- what a read finds when it leaves its object -/
structure Mem where
  /-- behind a ring array or a task body -/
  past : Nat → UInt8
  /-- on the stack behind the local copy of a login request, up to a NUL -/
  pastRequest : List UInt8
  /-- on the heap behind the body of a login task, up to a NUL -/
  pastTask : List UInt8
  /-- behind the terminator of a `std::string` -/
  pastId : Nat → UInt8
  /-- in a packet before its fields are set -/
  junk : PacketId → Nat → UInt8

def Mem.zero : Mem where
  past := fun _ => 0
  pastRequest := []
  pastTask := []
  pastId := fun _ => 0
  junk := fun _ _ => 0

/-! ## packets the server sends -/

structure UserInfo where
  userIndex : Nat
  idLen : Int
  userId : List UInt8
deriving DecidableEq, Repr

inductive Body where
  | loginResponse (result : Nat)
  | roomEnterResponse (result : Nat)
  | roomLeaveResponse (result : Nat)
  | roomChatResponse (result : Nat)
  | roomChatNotify (userId msg : List UInt8)
  | roomUserListNotify (userCount : Int) (userList : List UserInfo)
  | roomNewUserNotify (userInfo : UserInfo)
  | roomLeaveUserNotify (userIndex : Nat)
deriving DecidableEq, Repr

structure Packet where
  header : PacketHeader
  body : Body
deriving DecidableEq, Repr

/-- one call of `SendPacketFunc` -/
structure Sent where
  idx : Nat
  pkt : Packet
deriving DecidableEq, Repr

/-- `sizeof` of the packed struct of an outgoing packet -/
def sizeOfPacket : PacketId → Nat
  | .loginResponse | .roomEnterResponse | .roomLeaveResponse | .roomChatResponse => 7
  | .roomChatNotify => 5 + (kMaxUserIdLen + 1) + (kMaxChatMsgSize + 1)
  | .roomUserListNotify => 5 + 1 + kRoomMaxUserCnt * (8 + 1 + (kMaxUserIdLen + 1))
  | .roomNewUserNotify => 5 + (8 + 1 + (kMaxUserIdLen + 1))
  | .roomLeaveUserNotify => 5 + 8
  | _ => packetHeaderLength

/-- `SetPacketIdAndLen`: `type_` keeps what the memory held -/
def setPacketIdAndLen (mem : Mem) (id : PacketId) : PacketHeader where
  size := sizeOfPacket id
  id := id.val
  type := mem.junk id 4

/-- `CopyMemory(dest, id.c_str(), kMAX_USER_ID_LEN + 1)`, whatever the length of the id -/
def copyId (mem : Mem) (id : CStr) : List UInt8 :=
  (List.range (kMaxUserIdLen + 1)).map fun k =>
    if k < id.bytes.length then id.bytes.getD k 0
    else if k = id.bytes.length then 0
    else mem.pastId (k - id.bytes.length - 1)

/-- a packet that tells a client about somebody's room -/
def Body.isNotify : Body → Bool
  | .roomChatNotify .. | .roomUserListNotify .. | .roomNewUserNotify .. | .roomLeaveUserNotify .. => true
  | _ => false

def Body.isLoginResponse : Body → Bool
  | .loginResponse _ => true
  | _ => false

/-! ## conversions on pool indices -/

theorem session_lt (p : Session) : (p : Nat) < 1000 := p.isLt

theorem session_inj {p q : Session} (h : ((p : Nat) : Int) = ((q : Nat) : Int)) : p = q :=
  Fin.ext (Int.ofNat.inj h)

theorem int32_of_lt {x : Nat} (h : x < 2^31) : int32 x = x := by
  unfold int32 signed
  rw [Nat.mod_eq_of_lt (by omega), if_pos (by omega)]

theorem uint32_session (p : Session) : uint32 (p : Nat) = p := by
  have := session_lt p
  unfold uint32
  omega

theorem int16_session (p : Session) : int16 (p : Nat) = (p : Nat) := by
  have := session_lt p
  have e : ((p : Nat) % 2^16 : Int).toNat = p := by omega
  unfold int16 signed
  rw [e, Nat.mod_eq_of_lt (by omega), if_pos (by omega)]

theorem uint16_session (p : Session) : uint16 (p : Nat) = p := by
  have := session_lt p
  unfold uint16
  omega

end Iocp
