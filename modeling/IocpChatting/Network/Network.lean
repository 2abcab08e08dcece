import IocpChatting.Network.Session
import IocpChatting.Lib.Runs
import Mathlib.Order.Fin.Basic

/-!
# `Network` (Network/network.h, network.cpp)

The threads of the network: `W` worker threads, the accepter thread and the sender thread, one shared
access after the other, and what Winsock and the completion port do in between.

* `WorkerPc`, `AccepterPc`, `SenderPc`, `ClosePc`   where a thread stands: one constructor for each
                       statement that reads or writes something shared;
* `IoRequest`, `Completion`, `SocketState`   what Winsock knows: the operations that are pending, the
                       completions in the port, and the sockets;
* `step`               one step of one party.  It is total: a party that has to wait stays where it is.

What Winsock is free to do comes with the action: the result of a call, the order, the outcome and
the `io_size` of completions.  What it does not do is in the model: a send or a receive on a socket
that is not connected fails, an operation on a socket that has been closed completes with an error, a
socket that is associated with a port already cannot be associated again, completions of a socket that
is not associated go nowhere, and completions of an accept carry the key 0 of the listen socket.

`send_lock_` is held over several steps only in `BindSend`, so it is read off the place of the sender.
`Enqueue` and `ClearBuffer` of `send_buf_` are single steps: `Activate` clears without the lock, and an
overlap of the two is a data race, which is left out.
A handle is a number that is never used again.  `crashed` stands for an access through a null
`Session*`; nothing happens after it.
-/

set_option linter.unusedSectionVars false
set_option autoImplicit false

namespace Iocp

namespace Network

/-- seconds of `steady_clock`, a signed 64-bit count -/
abbrev Seconds := Fin (2^63)

instance secondsNeZero : NeZero (2^63) := ⟨(Nat.two_pow_pos 63).ne'⟩
/-- a network with one worker has a worker 0 -/
instance oneWorker : NeZero 1 := ⟨Nat.one_ne_zero⟩
/-- and so has one with two -/
instance twoWorkers : NeZero 2 := ⟨Nat.succ_ne_zero 1⟩

/-! ## operations and completions -/

/-- an overlapped operation: which `OverlappedEx` of which session it was given, and its socket -/
structure IoRequest where
  op : Op
  session : SessionIdx
  socket : Nat
deriving DecidableEq, Repr

/-- the completion key: 0 for the listen socket, else the `Session*` of `BindIOCompletionPort` -/
def IoRequest.key (req : IoRequest) : Option SessionIdx :=
  match req.op with
  | .accept => none
  | .recv | .send => some req.session

/-- what `GetQueuedCompletionStatus` hands out -/
inductive Completion where
  | io (req : IoRequest) (ok : Bool) (ioSize : Nat)
  /-- `PostQueuedCompletionStatus(iocp_, io_size, NULL, NULL)` -/
  | posted (ioSize : Nat)
deriving DecidableEq, Repr

namespace Completion

def key : Completion → Option SessionIdx
  | io req _ _ => req.key
  | posted _ => none

def gqcsRet : Completion → Bool
  | io _ ok _ => ok
  | posted _ => true

def ioSize : Completion → Nat
  | io _ _ n => n
  | posted n => n

/-- `p_overlapped`; `none` is `NULL` -/
def overlapped : Completion → Option (SessionIdx × Op)
  | io req _ _ => some (req.session, req.op)
  | posted _ => none

end Completion

structure SocketState where
  isConnected : Bool
  isClosed : Bool
  /-- associated with the completion port -/
  isBound : Bool
deriving DecidableEq, Repr

/-! ## where a thread stands -/

/-- the statements of `CloseSocket` and `ClearSession` -/
inductive ClosePc where
  | setClosedTime
  | compareExchange
  | closesocket
  | setSocket
  | clearSendBuffer
  | clearSending
  | readClock
  | storeTime (curTime : Seconds)
  | decrement
deriving DecidableEq, Repr

/-- `opening` says that the call comes from the accept branch, which goes on to
`++current_session_cnt_` -/
inductive WorkerPc where
  | test
  | getQueued
  | repost
  | check (c : Completion)
  | dispatch (req : IoRequest) (ioSize : Nat)
  | bindIocp (i : SessionIdx)
  | onConnect (i : SessionIdx)
  | zeroRecv (i : SessionIdx)
  | zeroSend (i : SessionIdx)
  | setActivated (i : SessionIdx)
  | clearBuffer (i : SessionIdx)
  | setRecvOverlapped (i : SessionIdx) (opening : Bool)
  | wsaRecv (i : SessionIdx) (opening : Bool)
  | close (i : SessionIdx) (pc : ClosePc) (opening : Bool)
  | increment
  | finished
deriving DecidableEq, Repr

/-- `curTime` is `cur_time` of the pass -/
inductive AccepterPc where
  | test
  | readClock
  | readActivated (curTime : Seconds) (i : SessionIdx)
  | compareClosed (curTime : Seconds) (i : SessionIdx)
  | diffClosed (curTime : Seconds) (i : SessionIdx)
  | bindAccept (curTime : Seconds) (i : SessionIdx)
  | createSocket (curTime : Seconds) (i : SessionIdx)
  | setAcceptOverlapped (curTime : Seconds) (i : SessionIdx)
  | acceptEx (curTime : Seconds) (i : SessionIdx)
  | finished
deriving DecidableEq, Repr

inductive SenderPc where
  | test
  | hasSendData (i : SessionIdx)
  | bindSend (i : SessionIdx)
  /-- about to take `send_lock_` and to fill the gather list -/
  | setSendOverlapped (i : SessionIdx)
  | wsaSend (i : SessionIdx) (bufs : List WsaBuf)
  | moveFront (i : SessionIdx) (sentBytes : Nat)
  | close (i : SessionIdx) (pc : ClosePc)
  | finished
deriving DecidableEq, Repr

end Network

/-- the sessions, the threads, and Winsock -/
structure Network (W : Nat) where
  session : Network.SessionIdx → Network.Session
  currentSessionCnt : UInt32
  isWorkerRunning : Bool
  isAccepterRunning : Bool
  isSenderRunning : Bool
  worker : Fin W → Network.WorkerPc
  accepter : Network.AccepterPc
  sender : Network.SenderPc
  clock : Network.Seconds
  sockets : Nat → Network.SocketState
  /-- the next handle -/
  socketCnt : Nat
  pending : List Network.IoRequest
  /-- the completions in the port, oldest first -/
  port : List Network.Completion
  crashed : Bool

namespace Network

variable {W : Nat}

/-- when the threads have been created -/
def start (W : Nat) (heap : SessionIdx → Fin kDefaultRingBufferSize → UInt8) (clock : Seconds) :
    Network W where
  session := fun i => Session.init (heap i) (i : Nat)
  currentSessionCnt := 0
  isWorkerRunning := true
  isAccepterRunning := true
  isSenderRunning := true
  worker := fun _ => .test
  accepter := .test
  sender := .test
  clock := clock
  sockets := fun _ => ⟨false, false, false⟩
  socketCnt := 0
  pending := []
  port := []
  crashed := false

/-- a write through a `Session*` -/
def modify (s : Network W) (i : SessionIdx) (f : Session → Session) : Network W :=
  { s with session := Function.update s.session i (f (s.session i)) }

def setWorker (s : Network W) (w : Fin W) (pc : WorkerPc) : Network W :=
  { s with worker := Function.update s.worker w pc }

def setSocketState (s : Network W) (h : Nat) (x : SocketState) : Network W :=
  { s with sockets := Function.update s.sockets h x }

/-- into the completion port -/
def post (s : Network W) (c : Completion) : Network W := { s with port := s.port ++ [c] }

/-- an operation that has been started -/
def begin (s : Network W) (req : IoRequest) : Network W := { s with pending := s.pending ++ [req] }

def crash (s : Network W) : Network W := { s with crashed := true }

def getSessionByIdx (sessionIdx : Int) : Option SessionIdx :=
  if h : sessionIdx < 0 ∨ sessionIdx ≥ kMaxSessionCnt then none
  else some ⟨sessionIdx.toNat, by omega⟩

/-- the next round of `for (auto i = 0; i < kMAX_SESSION_CNT; i++)` -/
def nextIdx (i : SessionIdx) : Option SessionIdx :=
  if h : i + 1 < kMaxSessionCnt then some ⟨i + 1, h⟩ else none

/-- the sender holds `send_lock_` of `i` -/
def sendLocked (s : Network W) (i : SessionIdx) : Bool :=
  match s.sender with
  | .wsaSend j _ | .moveFront j _ => j == i
  | _ => false

/-! ## Winsock -/

/-- a completion goes to the port that its socket is associated with; the listen socket is -/
def deliver (s : Network W) (req : IoRequest) (ok : Bool) (ioSize : Nat) : Network W :=
  if req.op = .accept ∨ (s.sockets req.socket).isBound = true then s.post (.io req ok ioSize) else s

/-- the pending operation `k` completes -/
def complete (s : Network W) (k : Nat) (ok : Bool) (ioSize : Nat) : Network W :=
  match s.pending[k]? with
  | none => s
  | some req =>
    let s := { s with pending := s.pending.eraseIdx k }
    match req.op with
    | .accept =>
      let x := s.sockets req.socket
      let s := s.setSocketState req.socket { x with isConnected := x.isConnected || ok }
      s.deliver req ok ioSize
    | .recv | .send => s.deliver req (ok && !(s.sockets req.socket).isClosed) ioSize

/-- the socket on which a send or a receive can be started -/
def connectedSocket (s : Network W) (i : SessionIdx) : Option Nat :=
  match (s.session i).socket with
  | none => none
  | some h => if (s.sockets h).isConnected && !(s.sockets h).isClosed then some h else none

inductive SendResult where
  | error
  | pending
  /-- done at once; never more than it was given -/
  | sent (n : Nat)
deriving DecidableEq, Repr

/-- `WSASend` of `len` bytes: what it leads to and `sent_bytes`, unless it fails -/
def wsaSend (s : Network W) (i : SessionIdx) (len : Nat) (result : SendResult) :
    Option (Network W × Nat) :=
  match s.connectedSocket i with
  | none => none
  | some h =>
    match result with
    | .error => none
    | .pending => some (s.begin ⟨.send, i, h⟩, 0)
    | .sent n => some (s.deliver ⟨.send, i, h⟩ true (min n len), min n len)

/-- `WSARecv`, unless it fails -/
def wsaRecv (s : Network W) (i : SessionIdx) (ok : Bool) : Option (Network W) :=
  match s.connectedSocket i with
  | none => none
  | some h => if ok then some (s.begin ⟨.recv, i, h⟩) else none

/-- `AcceptEx` on the socket of the session -/
def acceptEx (s : Network W) (i : SessionIdx) (ok : Bool) : Network W :=
  match (s.session i).socket with
  | none => s
  | some h => if ok then s.begin ⟨.accept, i, h⟩ else s

/-- `WSASocket` -/
def createSocket (s : Network W) (i : SessionIdx) (ok : Bool) : Network W :=
  if ok then
    { s.modify i (·.setSocket (some s.socketCnt)) with socketCnt := s.socketCnt + 1 }
  else s.modify i (·.setSocket none)

def closesocket (s : Network W) (sock : Option Nat) : Network W :=
  match sock with
  | none => s
  | some h => s.setSocketState h { s.sockets h with isClosed := true }

/-- `BindIOCompletionPort`, unless it fails -/
def bindIOCompletionPort (s : Network W) (i : SessionIdx) (ok : Bool) : Option (Network W) :=
  match (s.session i).socket with
  | none => none
  | some h =>
    if ok && !(s.sockets h).isClosed && !(s.sockets h).isBound then
      some (s.setSocketState h { s.sockets h with isBound := true })
    else none

/-! ## `CloseSocket` -/

/-- a statement of `CloseSocket(p_session)`; a `compare_exchange` that fails finds `false` -/
def closeStep (s : Network W) (i : SessionIdx) : ClosePc → Network W
  | .setClosedTime => s.modify i (·.setConnectionClosedTime uint64Max)
  | .compareExchange => s.modify i fun x => { x with isActivated := false }
  | .closesocket => s.closesocket (s.session i).socket
  | .setSocket => s.modify i (·.setSocket none)
  | .clearSendBuffer => if s.sendLocked i then s else s.modify i (·.clearSendBuffer)
  | .clearSending => s.modify i fun x => { x with isSending := false }
  | .readClock => s
  | .storeTime curTime => s.modify i (·.setConnectionClosedTime curTime)
  | .decrement => { s with currentSessionCnt := s.currentSessionCnt - 1 }

/-- the statement after it; a thread that wants `send_lock_` waits for it -/
def closeNext (s : Network W) (i : SessionIdx) : ClosePc → Option ClosePc
  | .setClosedTime => some .compareExchange
  | .compareExchange => if (s.session i).isActivated then some .closesocket else none
  | .closesocket => some .setSocket
  | .setSocket => some .clearSendBuffer
  | .clearSendBuffer => if s.sendLocked i then some .clearSendBuffer else some .clearSending
  | .clearSending => some .readClock
  | .readClock => some (.storeTime s.clock)
  | .storeTime _ => some .decrement
  | .decrement => none

/-! ## worker threads -/

def terminateMsg (gqcsRet : Bool) (ioSize : Nat) (overlapped : Option (SessionIdx × Op)) : Bool :=
  gqcsRet && ioSize == 0 && overlapped.isNone

def sessionExited (s : Network W) (gqcsRet : Bool) (ioSize : Nat)
    (overlapped : Option (SessionIdx × Op)) : Bool :=
  !gqcsRet ||
    match overlapped with
    | none => false
    | some (i, op) => ioSize == 0 && ((s.session i).overlapped op).opType != .accept

def afterCall (opening : Bool) : WorkerPc := if opening then .increment else .test

/-- on in `CloseSocket`, or out of it -/
def WorkerPc.inClose (i : SessionIdx) (opening : Bool) : Option ClosePc → WorkerPc
  | some pc => .close i pc opening
  | none => afterCall opening

/-- `TerminateMsg` and `CheckGQCSResult`, up to `OnDisconnect` -/
def checkStep (s : Network W) (w : Fin W) (c : Completion) : Network W :=
  if terminateMsg c.gqcsRet c.ioSize c.overlapped then s.setWorker w .repost
  else if s.sessionExited c.gqcsRet c.ioSize c.overlapped then
    match c.key with
    | none => s.crash
    | some i => s.setWorker w (.close i .setClosedTime false)
  else
    match c with
    | .posted _ => s.setWorker w .test
    | .io req _ ioSize => s.setWorker w (.dispatch req ioSize)

/-- `DispatchOverlapped`, up to the first call that changes something -/
def dispatchStep (s : Network W) (w : Fin W) (req : IoRequest) : Network W :=
  match ((s.session req.session).overlapped req.op).opType with
  | .recv =>
    match req.key with
    | none => s.crash
    | some i => s.setWorker w (.setRecvOverlapped i false)
  | .send =>
    match req.key with
    | none => s.crash
    | some i => (s.modify i fun x => { x with isSending := false }).setWorker w .test
  | .accept =>
    match getSessionByIdx ((s.session req.session).overlapped req.op).sessionIdx with
    | none => s.crash
    | some i => s.setWorker w (.bindIocp i)
  | .none => s.setWorker w .test

def workerStep (s : Network W) (w : Fin W) (ok : Bool) : Network W :=
  match s.worker w with
  | .test => s.setWorker w (if s.isWorkerRunning then .getQueued else .finished)
  | .getQueued =>
    match s.port with
    | [] => s
    | c :: rest => { s with port := rest }.setWorker w (.check c)
  | .repost => (s.post (.posted 0)).setWorker w .finished
  | .check c => s.checkStep w c
  | .dispatch req _ => s.dispatchStep w req
  | .bindIocp i =>
    match s.bindIOCompletionPort i ok with
    | some s => s.setWorker w (.onConnect i)
    | none => s.setWorker w (.close i .setClosedTime false)
  | .onConnect i => s.setWorker w (.zeroRecv i)
  | .zeroRecv i => (s.modify i fun x => { x with recvOverlapped := .zero }).setWorker w (.zeroSend i)
  | .zeroSend i =>
    (s.modify i fun x => { x with sendOverlapped := .zero }).setWorker w (.setActivated i)
  | .setActivated i => (s.modify i fun x => { x with isActivated := true }).setWorker w (.clearBuffer i)
  -- not under `send_lock_`
  | .clearBuffer i => (s.modify i (·.clearSendBuffer)).setWorker w (.setRecvOverlapped i true)
  | .setRecvOverlapped i opening =>
    (s.modify i (·.setRecvOverlapped)).setWorker w (.wsaRecv i opening)
  | .wsaRecv i opening =>
    match s.wsaRecv i ok with
    | some s => s.setWorker w (afterCall opening)
    | none => s.setWorker w (.close i .setClosedTime opening)
  | .close i pc opening =>
    (s.closeStep i pc).setWorker w (.inClose i opening (s.closeNext i pc))
  | .increment =>
    { s with currentSessionCnt := s.currentSessionCnt + 1 }.setWorker w .test
  | .finished => s

/-! ## the accepter thread -/

def nextAccept (curTime : Seconds) (i : SessionIdx) : AccepterPc :=
  match nextIdx i with
  | none => .test
  | some j => .readActivated curTime j

/-- `cur_time - session.latest_conn_closed_`, unsigned -/
def closedDiff (curTime : Seconds) (closedTime : Nat) : Nat := (curTime + (2^64 - closedTime)) % 2^64

def accepterStep (s : Network W) (ok : Bool) : Network W :=
  match s.accepter with
  | .test => { s with accepter := if s.isAccepterRunning then .readClock else .finished }
  | .readClock => { s with accepter := .readActivated s.clock 0 }
  | .readActivated t i =>
    { s with accepter := if (s.session i).isActivated then nextAccept t i else .compareClosed t i }
  | .compareClosed t i =>
    { s with accepter :=
        if (t : Nat) < (s.session i).latestConnClosed then nextAccept t i else .diffClosed t i }
  | .diffClosed t i =>
    { s with accepter :=
        if closedDiff t (s.session i).latestConnClosed ≤ kSessionReuseSeconds then nextAccept t i
        else .bindAccept t i }
  | .bindAccept t i =>
    { s.modify i (·.setConnectionClosedTime uint64Max) with accepter := .createSocket t i }
  | .createSocket t i =>
    { s.createSocket i ok with
      accepter := if ok then .setAcceptOverlapped t i else nextAccept t i }
  | .setAcceptOverlapped t i =>
    { s.modify i (·.setAcceptOverlapped) with accepter := .acceptEx t i }
  | .acceptEx t i => { s.acceptEx i ok with accepter := nextAccept t i }
  | .finished => s

/-! ## the sender thread -/

def nextSend (i : SessionIdx) : SenderPc :=
  match nextIdx i with
  | none => .test
  | some j => .hasSendData j

def SenderPc.inClose (i : SessionIdx) : Option ClosePc → SenderPc
  | some pc => .close i pc
  | none => nextSend i

def senderStep (s : Network W) (result : SendResult) : Network W :=
  match s.sender with
  | .test => { s with sender := if s.isSenderRunning then .hasSendData 0 else .finished }
  | .hasSendData i =>
    { s with sender := if (s.session i).hasSendData then .bindSend i else nextSend i }
  | .bindSend i =>
    if (s.session i).isSending then { s with sender := nextSend i }
    else
      { s.modify i fun x => { x with isSending := true } with sender := .setSendOverlapped i }
  | .setSendOverlapped i =>
    { s.modify i (·.setSendOverlapped) with sender := .wsaSend i (s.session i).setWsaBuf }
  | .wsaSend i bufs =>
    match s.wsaSend i (Session.wsaLen bufs) result with
    | some (s, sentBytes) => { s with sender := .moveFront i sentBytes }
    | none => { s with sender := .close i .setClosedTime }
  | .moveFront i sentBytes =>
    { s.modify i fun x => { x with sendBuf := x.sendBuf.moveFront sentBytes } with
      sender := nextSend i }
  | .close i pc =>
    { s.closeStep i pc with sender := .inClose i (s.closeNext i pc) }
  | .finished => s

/-! ## `SendPacket` -/

/-- by a thread of the server; it waits while the sender holds the lock -/
def sendPacket (s : Network W) (sessionIdx : Int) (data : List UInt8) : Network W :=
  match getSessionByIdx sessionIdx with
  | none => s
  | some i => if s.sendLocked i then s else s.modify i fun x => (x.enqueueSendData data).1

/-! ## all parties -/

inductive Action (W : Nat) where
  | worker (w : Fin W) (ok : Bool)
  | accepter (ok : Bool)
  | sender (result : SendResult)
  | sendPacket (sessionIdx : Int) (data : List UInt8)
  | complete (k : Nat) (ok : Bool) (ioSize : Nat)
  /-- time passes, until `t` -/
  | tick (t : Seconds)
  /-- `PostTerminateMsg` posts 0 -/
  | post (ioSize : Nat)
  | stopWorkers
  | stopAccepter
  | stopSender
deriving DecidableEq, Repr

def step (s : Network W) (a : Action W) : Network W :=
  if s.crashed then s
  else
    match a with
    | .worker w ok => s.workerStep w ok
    | .accepter ok => s.accepterStep ok
    | .sender result => s.senderStep result
    | .sendPacket sessionIdx data => s.sendPacket sessionIdx data
    | .complete k ok ioSize => s.complete k ok ioSize
    | .tick t => { s with clock := max s.clock t }
    | .post ioSize => s.post (.posted ioSize)
    | .stopWorkers => { s with isWorkerRunning := false }
    | .stopAccepter => { s with isAccepterRunning := false }
    | .stopSender => { s with isSenderRunning := false }

abbrev History (W : Nat) := List (Network W × Action W)

end Network

end Iocp
