import IocpChatting.Network.RingBuffer
import Mathlib.Algebra.GroupWithZero.Nat

/-!
# `Session` (Network/session.h, session.cpp, overlapped_ex_define.h, network_config.h)

The fields of a session and the functions that only write them.  The functions that call Winsock
(`BindAccept`, `BindSend`, `BindRecv`) and `Activate` are not atomic: their statements are steps of the
threads in Network.lean.

A `Session*` is its index in `session_list_` (`SessionIdx`), a `SOCKET` is a number, and
`INVALID_SOCKET` is `none`.
-/

set_option linter.unusedSectionVars false
set_option autoImplicit false

namespace Iocp.Network

abbrev kMaxSessionCnt : Nat := 1000
abbrev kSessionReuseSeconds : Nat := 5
/-- `UINT64_MAX`: an accept is pending on the session, or the session is being closed -/
abbrev uint64Max : Nat := 2^64 - 1

theorem kMaxSessionCnt_ne_zero : kMaxSessionCnt ≠ 0 := by decide
instance : NeZero kMaxSessionCnt := ⟨kMaxSessionCnt_ne_zero⟩

abbrev SessionIdx := Fin kMaxSessionCnt

inductive IOOperation where
  | none | accept | recv | send
deriving DecidableEq, Repr

structure OverlappedEx where
  sessionIdx : Int
  opType : IOOperation
deriving DecidableEq, Repr

/-- `ZeroMemory` -/
def OverlappedEx.zero : OverlappedEx := ⟨0, .none⟩

/-- one of the three `OverlappedEx` of a session -/
inductive Op where
  | accept | recv | send
deriving DecidableEq, Repr

/-- a piece of the send ring: `buf` as the offset from `p_buf_`, and `len` -/
structure WsaBuf where
  buf : Nat
  len : Nat
deriving DecidableEq, Repr

structure Session where
  index : Int
  socket : Option Nat
  sendBuf : RingBuffer UInt8 kDefaultRingBufferSize
  isActivated : Bool
  isSending : Bool
  acceptOverlapped : OverlappedEx
  recvOverlapped : OverlappedEx
  sendOverlapped : OverlappedEx
  latestConnClosed : Nat

namespace Session

/-- a new session after `Init(idx)` -/
def init (heap : Fin kDefaultRingBufferSize → UInt8) (idx : Int) : Session where
  index := idx
  socket := none
  sendBuf := RingBuffer.init heap kDefaultRingBufferSize_pos
  isActivated := false
  isSending := false
  acceptOverlapped := .zero
  recvOverlapped := .zero
  sendOverlapped := .zero
  latestConnClosed := 0

def overlapped (x : Session) : Op → OverlappedEx
  | .accept => x.acceptOverlapped
  | .recv => x.recvOverlapped
  | .send => x.sendOverlapped

def setConnectionClosedTime (x : Session) (time : Nat) : Session := { x with latestConnClosed := time }

def setSocket (x : Session) (sock : Option Nat) : Session := { x with socket := sock }

def setAcceptOverlapped (x : Session) : Session := { x with acceptOverlapped := ⟨x.index, .accept⟩ }

/-- `session_idx_` keeps what it was -/
def setRecvOverlapped (x : Session) : Session :=
  { x with recvOverlapped := { x.recvOverlapped with opType := .recv } }

/-- the writes of `SetSendOverlapped`; the gather list is `setWsaBuf` -/
def setSendOverlapped (x : Session) : Session :=
  { x with sendOverlapped := { x.sendOverlapped with opType := .send } }

/-- the filled entries of `wsa_buf` -/
def setWsaBuf (x : Session) : List WsaBuf :=
  let first : WsaBuf := ⟨x.sendBuf.getFrontBufferPtr, x.sendBuf.getContinuousDequeueSize⟩
  if x.sendBuf.getSizeInUse > x.sendBuf.getContinuousDequeueSize then
    [first, ⟨x.sendBuf.getBufferPtr, x.sendBuf.getSizeInUse - x.sendBuf.getContinuousDequeueSize⟩]
  else [first]

def enqueueSendData (x : Session) (data : List UInt8) : Session × Int :=
  let (buf, stored) := x.sendBuf.enqueue data
  ({ x with sendBuf := buf }, stored)

def clearSendBuffer (x : Session) : Session := { x with sendBuf := x.sendBuf.clearBuffer }

def hasSendData (x : Session) : Bool := x.sendBuf.getSizeInUse > 0

/-! ## what a gather list stands for -/

/-- the number of bytes in a gather list -/
def wsaLen (bufs : List WsaBuf) : Nat := (bufs.map WsaBuf.len).sum

/-- the bytes that `WSASend` reads through a gather list -/
def wsaBytes (x : Session) (bufs : List WsaBuf) : List UInt8 :=
  bufs.flatMap fun b => x.sendBuf.slice b.buf b.len

/-- **The gather list of `SetWsaBuf` is the contents of the send ring.** -/
theorem wsaBytes_setWsaBuf (x : Session) : x.wsaBytes x.setWsaBuf = x.sendBuf.contents := by
  have hle := x.sendBuf.continuous_le_inUse
  rw [x.sendBuf.contents_pieces]
  unfold setWsaBuf wsaBytes
  by_cases h : x.sendBuf.getSizeInUse > x.sendBuf.getContinuousDequeueSize
  · rw [if_pos h]
    simp
  · have e : x.sendBuf.getSizeInUse - x.sendBuf.getContinuousDequeueSize = 0 := by omega
    rw [if_neg h, e]
    simp

theorem wsaLen_setWsaBuf (x : Session) : wsaLen x.setWsaBuf = x.sendBuf.getSizeInUse := by
  have hle := x.sendBuf.continuous_le_inUse
  unfold setWsaBuf wsaLen
  by_cases h : x.sendBuf.getSizeInUse > x.sendBuf.getContinuousDequeueSize
  · rw [if_pos h]
    simp only [List.map_cons, List.map_nil, List.sum_cons, List.sum_nil]
    omega
  · rw [if_neg h]
    simp only [List.map_cons, List.map_nil, List.sum_cons, List.sum_nil]
    omega

end Session

end Iocp.Network
