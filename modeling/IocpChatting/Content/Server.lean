import IocpChatting.Content.PacketManager
import IocpChatting.Lib.Runs

/-!
# The server: worker threads, Redis workers and the packet loop

The parties that run at the same time, and what each of them does in one step (`Action`):

* `onConnect`, `onDisconnect`    a worker thread of the network pushes a system packet
                                 (chat_server.cpp);
* `onRecv`, `pushIndex`          the two halves of `PacketManager::EnqueuePacket`: the received bytes
                                 are stored, later the session index is pushed;
* `redisTake`, `redisPut`        a Redis worker pops a task, later it pushes the response;
* `loop`                         the next statement of `PacketProcessThread`, at the place `pc`.

A packet of a user is processed in four statements (dequeue, handler, `CompleteProcess`, push
of the index), and every other party may act between them.  `step` is total: an action that finds
nothing to do (an empty queue, no such worker) leaves the server alone.  Each action that reads
outside its objects carries the memory it finds there.

An operation on a ring is one step.  `User::Clear` takes no lock, so in the program its `ClearBuffer` can
overlap with the `Enqueue` of a worker thread; that is a data race, and is left out.
-/

set_option linter.unusedSectionVars false
set_option autoImplicit false

namespace Iocp
open UserManager (getUserByIndex)

/-- where `PacketProcessThread` stands -/
inductive LoopPc where
  | dequeuePacket
  | processPacket (pkt : PacketInfo)
  | completeProcess (pkt : PacketInfo)
  | pushIndex (sessionIndex : Nat)
  | dequeueSystemPacket
  | processSystemPacket (pkt : PacketInfo)
  | getTaskRes
  | processTaskRes (task : RedisTask)
deriving DecidableEq, Repr

structure Server where
  chat : Chat
  incomingQueue : List Int
  systemQueue : List PacketInfo
  taskResQueue : List RedisTask
  /-- tasks that Redis workers hold -/
  workers : List RedisTask
  /-- calls of `EnqueuePacket` that have stored their bytes and not yet pushed the index -/
  storing : List Session
  pc : LoopPc

namespace Server

/-- after `ChatServer::Start`; `heap` is what `new char[]` found -/
def start (heap : Session → Fin kDefaultRingBufferSize → UInt8) : Server where
  chat := Chat.init heap
  incomingQueue := []
  systemQueue := []
  taskResQueue := []
  workers := []
  storing := []
  pc := .dequeuePacket

/-- the memory behind a `char*` -/
def view (c : Chat) (mem : Mem) : DataPtr → Nat → UInt8
  | .null, k => mem.past k
  | .ring p off, k => (c.users.pool p).packetBuf.byteAt mem.past (off + k)
  | .heap body, k => if k < body.length then body.getD k 0 else mem.past (k - body.length)

/-! ## the network side -/

/-- the `PacketInfo` of `OnConnect` and `OnDisconnect` -/
def systemPacket (i : Session) (id : PacketId) : PacketInfo := ⟨uint16 (i : Nat), id.val, 0, .null⟩

def enqueueSystemPacket (s : Server) (pkt : PacketInfo) : Server :=
  { s with systemQueue := s.systemQueue ++ [pkt] }

/-- first half of `EnqueuePacket` -/
def storePacket (s : Server) (p : Session) (data : List UInt8) : Server :=
  { s with chat := s.chat.setUser p ((s.chat.users.pool p).enqueuePacketData data).1 }

/-- second half of `EnqueuePacket` -/
def pushIncoming (s : Server) (sessionIndex : Int) : Server :=
  { s with incomingQueue := s.incomingQueue ++ [sessionIndex] }

/-- `EnqueuePacket`; the result of `EnqueuePacketData` is dropped -/
def enqueuePacket (s : Server) (sessionIndex : Int) (data : List UInt8) : Server × Bool :=
  match getUserByIndex sessionIndex with
  | none => (s, false)
  | some p => ((s.storePacket p data).pushIncoming sessionIndex, true)

/-! ## the packet loop -/

def dequeuePacket (s : Server) : Server × Option PacketInfo :=
  match s.incomingQueue with
  | [] => (s, none)
  | userIdx :: rest =>
    let s := { s with incomingQueue := rest }
    match getUserByIndex userIdx with
    | none => (s, none)
    | some p => (s, (s.chat.users.pool p).getPacketData p)

def dequeueSystemPacket (s : Server) : Server × Option PacketInfo :=
  match s.systemQueue with
  | [] => (s, none)
  | pkt :: rest => ({ s with systemQueue := rest }, some pkt)

def getTaskRes (s : Server) : Server × Option RedisTask :=
  match s.taskResQueue with
  | [] => (s, none)
  | task :: rest => ({ s with taskResQueue := rest }, some task)

/-- the handler call of `ProcessPacket`, if the id is registered -/
def handle (s : Server) (mem : Mem) (pkt : PacketInfo) : Option Server :=
  (packetHandlers pkt.id).map fun hd =>
    { s with chat := hd.run s.chat mem pkt.sessionIndex (view s.chat mem pkt.data) }

/-- `ProcessPacket(pkt, true)` without interruption -/
def processUserPacket (s : Server) (mem : Mem) (pkt : PacketInfo) : Server × Bool :=
  match s.handle mem pkt with
  | none => (s, false)
  | some s =>
    let (users, done) := s.chat.users.completeProcess pkt.sessionIndex pkt.size
    let s := { s with chat := { s.chat with users := users } }
    if done = false then (s.pushIncoming (int32 pkt.sessionIndex), true) else (s, true)

/-- the next statement of `PacketProcessThread` -/
def loopStep (s : Server) (mem : Mem) : Server :=
  match s.pc with
  | .dequeuePacket =>
    match s.dequeuePacket with
    | (s, some pkt) => { s with pc := .processPacket pkt }
    | (s, none) => { s with pc := .dequeueSystemPacket }
  | .processPacket pkt =>
    match s.handle mem pkt with
    | some s => { s with pc := .completeProcess pkt }
    -- `CompleteProcess` is not reached: the bytes stay in the ring, and no index is pushed
    | none => { s with pc := .dequeueSystemPacket }
  | .completeProcess pkt =>
    let (users, done) := s.chat.users.completeProcess pkt.sessionIndex pkt.size
    { s with
      chat := { s.chat with users := users }
      pc := if done = false then .pushIndex pkt.sessionIndex else .dequeueSystemPacket }
  | .pushIndex sessionIndex =>
    { s.pushIncoming (int32 sessionIndex) with pc := .dequeueSystemPacket }
  | .dequeueSystemPacket =>
    match s.dequeueSystemPacket with
    | (s, some pkt) => { s with pc := .processSystemPacket pkt }
    | (s, none) => { s with pc := .getTaskRes }
  | .processSystemPacket pkt => { (s.handle mem pkt).getD s with pc := .getTaskRes }
  | .getTaskRes =>
    match s.getTaskRes with
    | (s, some task) => { s with pc := .processTaskRes task }
    | (s, none) => { s with pc := .dequeuePacket }
  | .processTaskRes task => { (s.handle mem task.toPacketInfo).getD s with pc := .dequeuePacket }

/-! ## all parties -/

inductive Action where
  | onConnect (i : Session)
  | onDisconnect (i : Session)
  | onRecv (i : Session) (data : List UInt8)
  | pushIndex (i : Session)
  | loop (mem : Mem)
  | redisTake
  | redisPut (k : Nat) (mem : Mem)

section
variable (redisGet : CStr → Option (List UInt8))

def step (s : Server) : Action → Server
  | .onConnect i => s.enqueueSystemPacket (systemPacket i .sysUserConnect)
  | .onDisconnect i => s.enqueueSystemPacket (systemPacket i .sysUserDisconnect)
  | .onRecv i data => { s.storePacket i data with storing := i :: s.storing }
  | .pushIndex i =>
    if i ∈ s.storing then { s.pushIncoming (i : Nat) with storing := s.storing.erase i } else s
  | .loop mem => s.loopStep mem
  | .redisTake =>
    match s.chat.taskReqQueue with
    | [] => s
    | task :: rest =>
      { s with chat := { s.chat with taskReqQueue := rest }, workers := s.workers ++ [task] }
  | .redisPut k mem =>
    match s.workers[k]? with
    | none => s
    | some task =>
      { s with
        workers := s.workers.eraseIdx k
        taskResQueue := s.taskResQueue ++ (processTask redisGet mem task).toList }

end

abbrev History := List (Server × Action)

/-! ## pieces of runs -/

namespace Action

def receive (i : Session) (data : List UInt8) : List Action := [.onRecv i data, .pushIndex i]

def loops (n : Nat) : List Action := List.replicate n (.loop Mem.zero)

def redis : List Action := [.redisTake, .redisPut 0 Mem.zero]

def enterLobby (i : Session) (userId userPw : List UInt8) : List Action :=
  [.onConnect i] ++ loops 4 ++ receive i (loginPacket userId userPw) ++ loops 5 ++ redis ++ loops 4

end Action

end Server

end Iocp
