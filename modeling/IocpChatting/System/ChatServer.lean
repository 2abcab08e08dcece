import IocpChatting.Content.Shutdown
import IocpChatting.Network.Backpressure
import IocpChatting.Network.Receiving

/-!
# `ChatServer` (Content/chat_server.h, chat_server.cpp)

The network, and the content that its worker threads call: `OnConnect`, `OnRecv` and `OnDisconnect` go
from a worker to the packet manager, and `SendPacket` from the packet loop to the network.

* `ChatServer`, `step`     the two of them with the calls that are under way;
* `networkCall`, `serverCall`   what a step is to each of them;
* `run_network`, `run_server`   a run of the whole is a run of each of them.

A worker that is in `OnRecv` does not go on in the network before it has pushed the index; the packet loop
goes on when the calls of `SendPacket` of its handler have been made, and waits with each while the
sender has the lock.  `index_` of a session is its place in the list.
-/

set_option linter.unusedSectionVars false
set_option autoImplicit false

namespace Iocp
open Runs Census
open Network (SessionIdx Completion)

structure ChatServer (W : Nat) where
  network : Network W
  server : Server
  /-- the session for which a worker is in `OnRecv`, with the bytes stored and the index to push -/
  pushing : Fin W → Option SessionIdx
  /-- the calls of `SendPacket` that the packet loop has still to make -/
  calls : List Sent

namespace ChatServer

variable {W : Nat}

def start (W : Nat) (heap : SessionIdx → Fin kDefaultRingBufferSize → UInt8)
    (userHeap : Session → Fin kDefaultRingBufferSize → UInt8) (clock : Network.Seconds) : ChatServer W where
  network := Network.start W heap clock
  server := Server.start userHeap
  pushing := fun _ => none
  calls := []

/-! ## calls between the two -/

/-- what a worker calls through the `std::function`s of `SetDelegate` -/
inductive Callback where
  | onConnect (i : SessionIdx)
  | onDisconnect (i : SessionIdx)
  | onRecv (i : SessionIdx) (ioSize : Nat)
deriving DecidableEq, Repr

/-- the call in the next statement of a worker -/
def callback (s : Network W) (w : Fin W) : Option Callback :=
  match s.worker w with
  | .onConnect i => some (.onConnect i)
  | .check (.io req ok ioSize) =>
    if s.sessionExited ok ioSize (some (req.session, req.op)) then req.key.map .onDisconnect else none
  | .dispatch req ioSize =>
    match ((s.session req.session).overlapped req.op).opType with
    | .recv => req.key.map fun i => .onRecv i ioSize
    | _ => none
  | _ => none

/-- the bytes of `recv_buf_` that `OnRecv` is given -/
def received (recvBuf : Nat → UInt8) (ioSize : Nat) : List UInt8 := (List.range ioSize).map recvBuf

def Callback.action (recvBuf : Nat → UInt8) : Callback → Server.Action
  | .onConnect i => .onConnect i
  | .onDisconnect i => .onDisconnect i
  | .onRecv i ioSize => .onRecv i (received recvBuf ioSize)

/-- `SendPacket` would wait for `send_lock_` -/
def sendWaits (s : Network W) (x : Sent) : Bool :=
  match Network.getSessionByIdx (int32 x.idx) with
  | none => false
  | some i => s.sendLocked i

/-! ## steps -/

/-- `recvBuf` is what `recv_buf_` holds -/
inductive Action (W : Nat) where
  | worker (w : Fin W) (ok : Bool) (recvBuf : Nat → UInt8)
  | loop (mem : Mem)
  | redisTake
  | redisPut (k : Nat) (mem : Mem)
  | accepter (ok : Bool)
  | sender (result : Network.SendResult)
  | complete (k : Nat) (ok : Bool) (ioSize : Nat)
  | tick (t : Network.Seconds)
  | post (ioSize : Nat)
  | stopWorkers
  | stopAccepter
  | stopSender

/-- a step of the network alone -/
def onNetwork (s : ChatServer W) (a : Network.Action W) : ChatServer W :=
  { s with network := s.network.step a }

section
variable (redisGet : CStr → Option (List UInt8))

def onServer (s : ChatServer W) (a : Server.Action) : ChatServer W :=
  { s with server := s.server.step redisGet a }

def workerStep (s : ChatServer W) (w : Fin W) (ok : Bool) (recvBuf : Nat → UInt8) : ChatServer W :=
  match s.pushing w with
  | some i => { s.onServer redisGet (.pushIndex i) with pushing := Function.update s.pushing w none }
  | none =>
    match callback s.network w with
    | none => s.onNetwork (.worker w ok)
    | some k =>
      let s' := (s.onNetwork (.worker w ok)).onServer redisGet (k.action recvBuf)
      match k with
      | .onConnect _ | .onDisconnect _ => s'
      | .onRecv i _ => { s' with pushing := Function.update s.pushing w (some i) }

def loopStep (s : ChatServer W) (mem : Mem) : ChatServer W :=
  match s.calls with
  | [] =>
    let s' := s.onServer redisGet (.loop mem)
    { s' with calls := s'.server.chat.sent.drop s.server.chat.sent.length }
  | x :: rest =>
    if sendWaits s.network x then s
    else { s.onNetwork (.sendPacket (int32 x.idx) x.pkt.bytes) with calls := rest }

def step (s : ChatServer W) (a : Action W) : ChatServer W :=
  if s.network.crashed then s
  else
    match a with
    | .worker w ok recvBuf => s.workerStep redisGet w ok recvBuf
    | .loop mem => s.loopStep redisGet mem
    | .redisTake => s.onServer redisGet .redisTake
    | .redisPut k mem => s.onServer redisGet (.redisPut k mem)
    | .accepter ok => s.onNetwork (.accepter ok)
    | .sender result => s.onNetwork (.sender result)
    | .complete k ok ioSize => s.onNetwork (.complete k ok ioSize)
    | .tick t => s.onNetwork (.tick t)
    | .post ioSize => s.onNetwork (.post ioSize)
    | .stopWorkers => s.onNetwork .stopWorkers
    | .stopAccepter => s.onNetwork .stopAccepter
    | .stopSender => s.onNetwork .stopSender

end

abbrev History (W : Nat) := List (ChatServer W × Action W)

/-! ## what a step is to the two -/

/-- the call of `SendPacket` that a step makes -/
def sendCall (s : ChatServer W) : Action W → Option Sent
  | .loop _ =>
    match s.calls with
    | [] => none
    | x :: _ => if s.network.crashed || sendWaits s.network x then none else some x
  | _ => none

def networkCall (s : ChatServer W) (a : Action W) : Option (Network.Action W) :=
  if s.network.crashed then none
  else
    match a with
    | .worker w ok _ => if (s.pushing w).isSome then none else some (.worker w ok)
    | .loop mem => (s.sendCall (.loop mem)).map fun x => .sendPacket (int32 x.idx) x.pkt.bytes
    | .redisTake | .redisPut .. => none
    | .accepter ok => some (.accepter ok)
    | .sender result => some (.sender result)
    | .complete k ok ioSize => some (.complete k ok ioSize)
    | .tick t => some (.tick t)
    | .post ioSize => some (.post ioSize)
    | .stopWorkers => some .stopWorkers
    | .stopAccepter => some .stopAccepter
    | .stopSender => some .stopSender

def serverCall (s : ChatServer W) (a : Action W) : Option Server.Action :=
  if s.network.crashed then none
  else
    match a with
    | .worker w _ recvBuf =>
      match s.pushing w with
      | some i => some (.pushIndex i)
      | none => (callback s.network w).map (·.action recvBuf)
    | .loop mem =>
      match s.calls with
      | [] => some (.loop mem)
      | _ => none
    | .redisTake => some .redisTake
    | .redisPut k mem => some (.redisPut k mem)
    | _ => none

variable {s : ChatServer W}
variable (redisGet : CStr → Option (List UInt8))

@[simp] theorem onNetwork_network (a : Network.Action W) :
    (s.onNetwork a).network = s.network.step a := rfl
@[simp] theorem onNetwork_server (a : Network.Action W) : (s.onNetwork a).server = s.server := rfl
@[simp] theorem onServer_network (a : Server.Action) :
    (s.onServer redisGet a).network = s.network := rfl
@[simp] theorem onServer_server (a : Server.Action) :
    (s.onServer redisGet a).server = s.server.step redisGet a := rfl

theorem step_network (s : ChatServer W) (a : Action W) :
    (step redisGet s a).network = (s.networkCall a).elim s.network (Network.step s.network) := by
  unfold step networkCall
  split
  · rfl
  · next hc =>
    cases a with
    | worker w ok recvBuf =>
      simp only [workerStep]
      cases hp : s.pushing w with
      | some i => rfl
      | none =>
        cases callback s.network w with
        | none => rfl
        | some k => cases k <;> rfl
    | loop mem =>
      simp only [loopStep, sendCall]
      cases s.calls with
      | nil => rfl
      | cons x rest =>
        have hc' : s.network.crashed = false := by simpa using hc
        simp only [hc', Bool.false_or]
        split <;> rfl
    | _ => rfl

theorem step_server (s : ChatServer W) (a : Action W) :
    (step redisGet s a).server = (s.serverCall a).elim s.server (Server.step redisGet s.server) := by
  unfold step serverCall
  split
  · rfl
  · cases a with
    | worker w ok recvBuf =>
      simp only [workerStep]
      cases hp : s.pushing w with
      | some i => rfl
      | none =>
        cases callback s.network w with
        | none => rfl
        | some k => cases k <;> rfl
    | loop mem =>
      simp only [loopStep]
      cases s.calls with
      | nil => rfl
      | cons x rest =>
        simp only
        split <;> rfl
    | _ => rfl

/-! ## runs -/

/-- the history of the network in a run of the whole -/
def networkHistory (H : History W) : Network.History W :=
  H.filterMap fun x => (x.1.networkCall x.2).map fun b => (x.1.network, b)

/-- what the network does in it -/
def networkActions (H : History W) : List (Network.Action W) := H.filterMap fun x => x.1.networkCall x.2

def serverActions (H : History W) : List Server.Action := H.filterMap fun x => x.1.serverCall x.2

/-- **A run of the chat server is a run of its network.** -/
theorem run_network (s : ChatServer W) (as : List (Action W)) :
    (run (step redisGet) s as).network
        = run Network.step s.network (networkActions (hist (step redisGet) s as)) ∧
      hist Network.step s.network (networkActions (hist (step redisGet) s as))
        = networkHistory (hist (step redisGet) s as) :=
  run_projects (step redisGet) Network.step network networkCall (step_network redisGet) s as

/-- **And one of its packet manager.** -/
theorem run_server (s : ChatServer W) (as : List (Action W)) :
    (run (step redisGet) s as).server
      = run (Server.step redisGet) s.server (serverActions (hist (step redisGet) s as)) :=
  (run_projects (step redisGet) (Server.step redisGet) server serverCall (step_server redisGet) s as).1

section
variable (heap : SessionIdx → Fin kDefaultRingBufferSize → UInt8)
  (userHeap : Session → Fin kDefaultRingBufferSize → UInt8) (clock : Network.Seconds)

theorem run_network_sound (as : List (Action W)) :
    (run (step redisGet) (start W heap userHeap clock) as).network.Sound := by
  rw [(run_network redisGet _ as).1]
  exact Network.run_sound heap clock _

theorem run_server_sound (as : List (Action W)) :
    (run (step redisGet) (start W heap userHeap clock) as).server.Sound := by
  rw [run_server redisGet _ as]
  exact Server.run_sound redisGet userHeap _

end

end ChatServer

end Iocp
