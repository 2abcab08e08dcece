import IocpChatting.Content.Packet
import IocpChatting.Network.RingBuffer

/-!
# `User` and `UserManager` (Content/user.h, user.cpp, user_manager.h, user_manager.cpp)

A `User*` is its index in `user_obj_pool_` (`Session`); after `UserManager::Init` the pool holds
`kMAX_USER_CNT` users, so the pool is a total function on `Session` and an index outside it is the
`nullptr` branch of `GetUserByIndex`.  `user_id_map_` is a partial function on ids.
`auth_token_` is read and written by nothing and is left out.
-/

set_option linter.unusedSectionVars false
set_option autoImplicit false

namespace Iocp

inductive DomainState where
  | none | login | room
deriving DecidableEq, Repr

structure User where
  sessionIdx : Int
  roomIdx : Int
  userId : CStr
  isConfirmed : Bool
  domainState : DomainState
  packetBuf : RingBuffer UInt8 kDefaultRingBufferSize

namespace User

/-- a new `User` after `Init(session_idx)` -/
def init (heap : Fin kDefaultRingBufferSize → UInt8) (sessionIdx : Int) : User where
  sessionIdx := sessionIdx
  roomIdx := -1
  userId := CStr.empty
  isConfirmed := false
  domainState := .none
  packetBuf := RingBuffer.init heap kDefaultRingBufferSize_pos

def clear (u : User) : User where
  sessionIdx := u.sessionIdx
  roomIdx := -1
  userId := CStr.empty
  isConfirmed := false
  domainState := .none
  packetBuf := u.packetBuf.clearBuffer

def setLogin (u : User) (userId : CStr) : User := { u with domainState := .login, userId := userId }

def completeProcess (u : User) (pktSize : Nat) : User × Bool :=
  let buf := u.packetBuf.moveFront pktSize
  ({ u with packetBuf := buf }, if buf.getSizeInUse > 0 then false else true)

def enterRoom (u : User) (roomIdx : Int) : User := { u with roomIdx := roomIdx, domainState := .room }

/-- `GetPacketData`; `p` is the place of the user in the pool, for the pointer `data_` -/
def getPacketData (u : User) (p : Session) : Option PacketInfo :=
  let bytes := u.packetBuf.peek packetHeaderLength
  if bytes.length ≠ packetHeaderLength then none
  else
    let header := PacketHeader.ofBytes bytes
    if u.packetBuf.getSizeInUse ≥ header.size then
      some {
        sessionIndex := uint32 u.sessionIdx
        id := header.id
        size := header.size
        data := .ring p u.packetBuf.getFrontBufferPtr }
    else none

def enqueuePacketData (u : User) (src : List UInt8) : User × Bool :=
  let (buf, stored) := u.packetBuf.enqueue src
  ({ u with packetBuf := buf }, stored == src.length)

def LoggedIn (u : User) : Prop := u.domainState = .login ∨ u.domainState = .room

instance (u : User) : Decidable u.LoggedIn := inferInstanceAs (Decidable (_ ∨ _))

end User

structure UserManager where
  pool : Session → User
  userIdMap : CStr → Option Int
  currentUserCnt : Int

namespace UserManager

def init (heap : Session → Fin kDefaultRingBufferSize → UInt8) : UserManager where
  pool := fun p => User.init (heap p) (p : Nat)
  userIdMap := fun _ => none
  currentUserCnt := 0

def getUserByIndex (userIndex : Int) : Option Session :=
  if h : userIndex < 0 ∨ userIndex ≥ kMaxUserCnt then none
  else some ⟨userIndex.toNat, by omega⟩

/-- a write through a `User*` -/
def set (m : UserManager) (p : Session) (u : User) : UserManager :=
  { m with pool := Function.update m.pool p u }

def deleteUserInfo (m : UserManager) (userId : CStr) : UserManager :=
  { m with userIdMap := Function.update m.userIdMap userId none }

def findUserIndexByID (m : UserManager) (userId : CStr) : Int :=
  match m.userIdMap userId with
  | some userIndex => userIndex
  | none => -1

/-- `AddUser`; `insert` keeps an entry that is there -/
def addUser (m : UserManager) (userId : CStr) (p : Session) : UserManager :=
  let m := m.set p ((m.pool p).setLogin userId)
  match m.userIdMap userId with
  | some _ => m
  | none => { m with userIdMap := Function.update m.userIdMap userId (some (p : Nat)) }

/-- `SetUserLogin`; for an index outside the pool the code would follow a null pointer, and leaves the
users alone here -/
def setUserLogin (m : UserManager) (userIndex : Int) : UserManager :=
  match getUserByIndex userIndex with
  | none => m
  | some p =>
    let m := m.addUser (m.pool p).userId p
    m.set p { m.pool p with isConfirmed := true }

def setUserID (m : UserManager) (userIndex : Int) (userId : CStr) : UserManager :=
  match getUserByIndex userIndex with
  | none => m
  | some p => m.set p { m.pool p with userId := userId }

def completeProcess (m : UserManager) (userIndex : Nat) (pktSize : Nat) : UserManager × Bool :=
  match getUserByIndex (int32 userIndex) with
  | none => (m, true)
  | some p =>
    let (u, done) := (m.pool p).completeProcess pktSize
    (m.set p u, if done = false then false else true)

def getCurrentUserCnt (m : UserManager) : Int := m.currentUserCnt
def getMaxUserCnt (_m : UserManager) : Int := kMaxUserCnt

end UserManager

end Iocp
