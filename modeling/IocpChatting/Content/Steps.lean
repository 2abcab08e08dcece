import IocpChatting.Content.Server
import IocpChatting.Content.Notifies

/-!
# What one step can do

`Effect` has one constructor for each thing that can happen in a step, and `step_effect` says that
there is nothing else; the facts about single steps below are case analyses of it.

* `Server.call`      the handler call of a step, with the queue its packet came from;
* `step_call`        a step with a call: the handler runs, nothing else changes;
* `step_quiet`       a step without: users change in their `packet_buf_` only, rooms and messages
                     stay;
* `roster_step`      on the roster every step is one deed;
* `Notices`, `Tasks` what holds of every waiting system packet and of every login task in flight.
-/

set_option linter.unusedSectionVars false
set_option autoImplicit false

namespace Iocp
open UserManager (getUserByIndex)

/-! ## handler calls -/

inductive Source where
  | user | system | redis
deriving DecidableEq

structure Call where
  source : Source
  pkt : PacketInfo
  handler : Handler
  mem : Mem

namespace LoopPc

/-- the argument of `ProcessPacket`, where the thread is about to call it -/
def packet : LoopPc → Option (Source × PacketInfo)
  | .processPacket pkt => some (.user, pkt)
  | .processSystemPacket pkt => some (.system, pkt)
  | .processTaskRes task => some (.redis, task.toPacketInfo)
  | _ => none

/-- where the thread goes on after a handler has run -/
def ran : LoopPc → LoopPc
  | .processPacket pkt => .completeProcess pkt
  | .processSystemPacket _ => .getTaskRes
  | .processTaskRes _ => .dequeuePacket
  | pc => pc

/-- where it goes on if no handler has the id -/
def skipped : LoopPc → LoopPc
  | .processPacket _ => .dequeueSystemPacket
  | .processSystemPacket _ => .getTaskRes
  | .processTaskRes _ => .dequeuePacket
  | pc => pc

theorem ran_packet {pc : LoopPc} {x : Source × PacketInfo} (h : pc.packet = some x) :
    pc.ran.packet = none := by
  cases pc with
  | processPacket | processSystemPacket | processTaskRes => rfl
  | _ => cases h

theorem skipped_packet {pc : LoopPc} {x : Source × PacketInfo} (h : pc.packet = some x) :
    pc.skipped.packet = none := by
  cases pc with
  | processPacket | processSystemPacket | processTaskRes => rfl
  | _ => cases h

end LoopPc

namespace Call

def data (k : Call) (c : Chat) : Nat → UInt8 := Server.view c k.mem k.pkt.data

def run (k : Call) (c : Chat) : Chat := k.handler.run c k.mem k.pkt.sessionIndex (k.data c)

def deed (k : Call) (c : Chat) : Deed Session RoomPtr CStr :=
  k.handler.deed c k.mem k.pkt.sessionIndex (k.data c)

def request (k : Call) (c : Chat) : List RedisTask :=
  k.handler.request c k.mem k.pkt.sessionIndex (k.data c)

def session (k : Call) : Option Session := getUserByIndex (int32 k.pkt.sessionIndex)

end Call

namespace Server

def call (s : Server) : Action → Option Call
  | .loop mem =>
    match s.pc.packet with
    | none => none
    | some (source, pkt) => (packetHandlers pkt.id).map fun handler => ⟨source, pkt, handler, mem⟩
  | _ => none

def deed (s : Server) (a : Action) : Deed Session RoomPtr CStr :=
  match s.call a with
  | none => .idle
  | some k => k.deed s.chat

def afterComplete (s : Server) (pkt : PacketInfo) : Server :=
  { s with chat := { s.chat with users := (s.chat.users.completeProcess pkt.sessionIndex pkt.size).1 } }

section
variable (redisGet : CStr → Option (List UInt8))

/-- everything that can happen in a step from `s` -/
inductive Effect (s : Server) : Action → Server → Prop
  | noPush {i : Session} (h : i ∉ s.storing) : Effect s (.pushIndex i) s
  | noRequest (hq : s.chat.taskReqQueue = []) : Effect s .redisTake s
  | noWorker {k : Nat} {mem : Mem} (hk : s.workers[k]? = none) : Effect s (.redisPut k mem) s
  | onConnect (i : Session) :
      Effect s (.onConnect i) (s.enqueueSystemPacket (systemPacket i .sysUserConnect))
  | onDisconnect (i : Session) :
      Effect s (.onDisconnect i) (s.enqueueSystemPacket (systemPacket i .sysUserDisconnect))
  | onRecv (i : Session) (data : List UInt8) :
      Effect s (.onRecv i data) { s.storePacket i data with storing := i :: s.storing }
  | pushIndex {i : Session} (h : i ∈ s.storing) :
      Effect s (.pushIndex i) { s.pushIncoming (i : Nat) with storing := s.storing.erase i }
  | noIndex {mem : Mem} (hpc : s.pc = .dequeuePacket) (hq : s.incomingQueue = []) :
      Effect s (.loop mem) { s with pc := .dequeueSystemPacket }
  | noPacket {mem : Mem} {i : Int} {rest : List Int} (hpc : s.pc = .dequeuePacket)
      (hq : s.incomingQueue = i :: rest)
      (hi : ∀ p, getUserByIndex i = some p → (s.chat.users.pool p).getPacketData p = none) :
      Effect s (.loop mem) { s with incomingQueue := rest, pc := .dequeueSystemPacket }
  | dequeue {mem : Mem} {i : Int} {rest : List Int} {p : Session} {pkt : PacketInfo}
      (hpc : s.pc = .dequeuePacket) (hq : s.incomingQueue = i :: rest)
      (hi : getUserByIndex i = some p) (hp : (s.chat.users.pool p).getPacketData p = some pkt) :
      Effect s (.loop mem) { s with incomingQueue := rest, pc := .processPacket pkt }
  | call {mem : Mem} {k : Call} (hk : s.call (.loop mem) = some k) :
      Effect s (.loop mem) { s with chat := k.run s.chat, pc := s.pc.ran }
  | skip {mem : Mem} {source : Source} {pkt : PacketInfo} (hpc : s.pc.packet = some (source, pkt))
      (hid : packetHandlers pkt.id = none) : Effect s (.loop mem) { s with pc := s.pc.skipped }
  | complete {mem : Mem} {pkt : PacketInfo} (hpc : s.pc = .completeProcess pkt) :
      Effect s (.loop mem)
        { s.afterComplete pkt with
          pc := if (s.chat.users.completeProcess pkt.sessionIndex pkt.size).2 = false
            then .pushIndex pkt.sessionIndex else .dequeueSystemPacket }
  | repush {mem : Mem} {i : Nat} (hpc : s.pc = .pushIndex i) :
      Effect s (.loop mem) { s.pushIncoming (int32 i) with pc := .dequeueSystemPacket }
  | noSystem {mem : Mem} (hpc : s.pc = .dequeueSystemPacket) (hq : s.systemQueue = []) :
      Effect s (.loop mem) { s with pc := .getTaskRes }
  | system {mem : Mem} {pkt : PacketInfo} {rest : List PacketInfo}
      (hpc : s.pc = .dequeueSystemPacket) (hq : s.systemQueue = pkt :: rest) :
      Effect s (.loop mem) { s with systemQueue := rest, pc := .processSystemPacket pkt }
  | noTask {mem : Mem} (hpc : s.pc = .getTaskRes) (hq : s.taskResQueue = []) :
      Effect s (.loop mem) { s with pc := .dequeuePacket }
  | task {mem : Mem} {task : RedisTask} {rest : List RedisTask}
      (hpc : s.pc = .getTaskRes) (hq : s.taskResQueue = task :: rest) :
      Effect s (.loop mem) { s with taskResQueue := rest, pc := .processTaskRes task }
  | take {task : RedisTask} {rest : List RedisTask} (hq : s.chat.taskReqQueue = task :: rest) :
      Effect s .redisTake
        { s with chat := { s.chat with taskReqQueue := rest }, workers := s.workers ++ [task] }
  | put {k : Nat} {mem : Mem} {task : RedisTask} (hk : s.workers[k]? = some task) :
      Effect s (.redisPut k mem)
        { s with
          workers := s.workers.eraseIdx k
          taskResQueue := s.taskResQueue ++ (processTask redisGet mem task).toList }

theorem effect_ran {s : Server} {mem : Mem} {source : Source} {pkt : PacketInfo} {hd : Handler}
    {pc : LoopPc} (hpc : s.pc.packet = some (source, pkt)) (hid : packetHandlers pkt.id = some hd)
    (hr : s.pc.ran = pc) :
    Effect redisGet s (.loop mem)
      { s with chat := hd.run s.chat mem pkt.sessionIndex (view s.chat mem pkt.data), pc := pc } := by
  subst hr
  have hk : s.call (.loop mem) = some ⟨source, pkt, hd, mem⟩ := by simp [Server.call, hpc, hid]
  exact .call hk

theorem effect_skipped {s : Server} {mem : Mem} {source : Source} {pkt : PacketInfo} {pc : LoopPc}
    (hpc : s.pc.packet = some (source, pkt)) (hid : packetHandlers pkt.id = none)
    (hr : s.pc.skipped = pc) : Effect redisGet s (.loop mem) { s with pc := pc } := by
  subst hr
  exact .skip hpc hid

theorem loop_effect (s : Server) (mem : Mem) : Effect redisGet s (.loop mem) (s.loopStep mem) := by
  unfold loopStep
  cases hpc : s.pc with
  | dequeuePacket =>
    simp only [dequeuePacket]
    cases hq : s.incomingQueue with
    | nil => exact .noIndex hpc hq
    | cons i rest =>
      simp only
      cases hi : getUserByIndex i with
      | none => exact .noPacket hpc hq (fun p hp => by rw [hi] at hp; cases hp)
      | some p =>
        simp only
        cases hp : (s.chat.users.pool p).getPacketData p with
        | none => exact .noPacket hpc hq (fun q hq => by rw [hi] at hq; cases hq; exact hp)
        | some pkt => exact .dequeue hpc hq hi hp
  | processPacket pkt =>
    have hp : s.pc.packet = some (.user, pkt) := by rw [hpc]; rfl
    simp only [handle]
    cases hid : packetHandlers pkt.id with
    | none => exact effect_skipped redisGet hp hid (by rw [hpc, LoopPc.skipped])
    | some hd => exact effect_ran redisGet hp hid (by rw [hpc, LoopPc.ran])
  | completeProcess pkt => exact .complete hpc
  | pushIndex i => exact .repush hpc
  | dequeueSystemPacket =>
    simp only [dequeueSystemPacket]
    cases hq : s.systemQueue with
    | nil => exact .noSystem hpc hq
    | cons pkt rest => exact .system hpc hq
  | processSystemPacket pkt =>
    have hp : s.pc.packet = some (.system, pkt) := by rw [hpc]; rfl
    simp only [handle]
    cases hid : packetHandlers pkt.id with
    | none => exact effect_skipped redisGet hp hid (by rw [hpc, LoopPc.skipped])
    | some hd => exact effect_ran redisGet hp hid (by rw [hpc, LoopPc.ran])
  | getTaskRes =>
    simp only [getTaskRes]
    cases hq : s.taskResQueue with
    | nil => exact .noTask hpc hq
    | cons task rest => exact .task hpc hq
  | processTaskRes task =>
    have hp : s.pc.packet = some (.redis, task.toPacketInfo) := by rw [hpc]; rfl
    simp only [handle]
    cases hid : packetHandlers task.toPacketInfo.id with
    | none => exact effect_skipped redisGet hp hid (by rw [hpc, LoopPc.skipped])
    | some hd => exact effect_ran redisGet hp hid (by rw [hpc, LoopPc.ran])

theorem step_effect (s : Server) (a : Action) : Effect redisGet s a (step redisGet s a) := by
  cases a with
  | onConnect i => exact .onConnect i
  | onDisconnect i => exact .onDisconnect i
  | onRecv i data => exact .onRecv i data
  | pushIndex i =>
    show Effect redisGet s _ (if i ∈ s.storing then _ else s)
    by_cases h : i ∈ s.storing
    · rw [if_pos h]
      exact .pushIndex h
    · rw [if_neg h]
      exact .noPush h
  | loop mem => exact loop_effect redisGet s mem
  | redisTake =>
    unfold step
    cases hq : s.chat.taskReqQueue with
    | nil => exact .noRequest hq
    | cons task rest => exact .take hq
  | redisPut k mem =>
    simp only [step]
    cases hk : s.workers[k]? with
    | none => exact .noWorker hk
    | some task => exact .put hk

/-! ## steps with a call and steps without -/

theorem call_spec {s : Server} {a : Action} {k : Call} (h : s.call a = some k) :
    a = .loop k.mem ∧ s.pc.packet = some (k.source, k.pkt) ∧
      packetHandlers k.pkt.id = some k.handler := by
  unfold Server.call at h
  split at h
  · split at h
    · cases h
    · next mem source pkt hp =>
      obtain ⟨hd, hid, rfl⟩ := Option.map_eq_some_iff.mp h
      exact ⟨rfl, hp, hid⟩
  · cases h

theorem call_eq_none {s : Server} {mem : Mem} (h : s.pc.packet = none) :
    s.call (.loop mem) = none := by
  simp only [Server.call, h]

theorem step_call {s : Server} {a : Action} {k : Call} (h : s.call a = some k) :
    step redisGet s a = { s with chat := k.run s.chat, pc := s.pc.ran } := by
  have he := step_effect redisGet s a
  generalize step redisGet s a = s' at he
  -- `h` leaves the case of the call only
  cases he with
  | call hk => rw [hk] at h; cases h; rfl
  | skip hpc hid =>
    simp only [Server.call, hpc, hid] at h
    cases h
  | noIndex hpc | noPacket hpc | dequeue hpc | complete hpc | repush hpc | noSystem hpc
  | system hpc | noTask hpc | task hpc =>
    rw [call_eq_none (by rw [hpc]; rfl)] at h
    cases h
  | _ => cases h

/-- what a step without a call leaves alone -/
structure Quiet (c c' : Chat) : Prop where
  user : ∀ p, ∃ buf, c'.users.pool p = { c.users.pool p with packetBuf := buf }
  userIdMap : c'.users.userIdMap = c.users.userIdMap
  roomList : c'.roomList = c.roomList
  sent : c'.sent = c.sent

namespace Quiet
variable {c c' : Chat}

theorem of_users (h : c'.users = c.users) (hr : c'.roomList = c.roomList) (hs : c'.sent = c.sent) :
    Quiet c c' := by
  refine ⟨fun p => ⟨(c.users.pool p).packetBuf, ?_⟩, ?_, hr, hs⟩
  · rw [h]
  · rw [h]

theorem setBuf (c : Chat) (p : Session) (buf : RingBuffer UInt8 kDefaultRingBufferSize) :
    Quiet c (c.setUser p { c.users.pool p with packetBuf := buf }) := by
  refine ⟨fun q => ?_, rfl, rfl, rfl⟩
  show ∃ b, Function.update c.users.pool p _ q = _
  by_cases hq : q = p
  · subst hq
    exact ⟨buf, Function.update_self ..⟩
  · exact ⟨(c.users.pool q).packetBuf, Function.update_of_ne hq ..⟩

theorem completeProcess (c : Chat) (i size : Nat) :
    Quiet c { c with users := (c.users.completeProcess i size).1 } := by
  unfold UserManager.completeProcess
  cases getUserByIndex (int32 i) with
  | none => exact of_users rfl rfl rfl
  | some p => exact setBuf c p _

theorem fixed (h : Quiet c c') (hc : c.Fixed) : c'.Fixed where
  sessionIdx p := by
    obtain ⟨buf, e⟩ := h.user p
    rw [e]
    exact hc.sessionIdx p
  roomIdx r := by rw [h.roomList]; exact hc.roomIdx r
  maxUserCnt r := by rw [h.roomList]; exact hc.maxUserCnt r
  owners v := by rw [h.userIdMap]; exact hc.owners v

theorem roster (h : Quiet c c') : c'.roster = c.roster := by
  show Roster.mk _ _ _ _ _ = Roster.mk _ _ _ _ _
  have e1 : (fun p => (c'.users.pool p).domainState) = fun p => (c.users.pool p).domainState := by
    funext p
    obtain ⟨buf, e⟩ := h.user p
    rw [e]
  have e2 : (fun p => (c'.users.pool p).userId) = fun p => (c.users.pool p).userId := by
    funext p
    obtain ⟨buf, e⟩ := h.user p
    rw [e]
  have e3 : (fun p => Chat.getRoomByIdx (c'.users.pool p).roomIdx)
      = fun p => Chat.getRoomByIdx (c.users.pool p).roomIdx := by
    funext p
    obtain ⟨buf, e⟩ := h.user p
    rw [e]
  rw [e1, e2, e3, h.userIdMap, h.roomList]

end Quiet

theorem step_quiet {s : Server} {a : Action} (h : s.call a = none) :
    Quiet s.chat (step redisGet s a).chat := by
  have he := step_effect redisGet s a
  generalize step redisGet s a = s' at he
  cases he with
  | onRecv i data => exact Quiet.setBuf s.chat i _
  | call hk => rw [hk] at h; cases h
  | complete hpc => exact Quiet.completeProcess s.chat _ _
  | take hq => exact Quiet.of_users rfl rfl rfl
  | _ => exact Quiet.of_users rfl rfl rfl

theorem step_fixed {s : Server} (h : s.chat.Fixed) (a : Action) : (step redisGet s a).chat.Fixed := by
  cases hk : s.call a with
  | none => exact (step_quiet redisGet hk).fixed h
  | some k =>
    rw [step_call redisGet hk]
    exact Chat.run_fixed k.handler h

/-! ## the roster of the server -/

/-- **On the roster every step is one deed.** -/
theorem roster_step {s : Server} (h : s.chat.Fixed) (a : Action) :
    (step redisGet s a).chat.roster = s.chat.roster.apply (s.deed a) := by
  unfold Server.deed
  cases hk : s.call a with
  | none => exact (step_quiet redisGet hk).roster
  | some k =>
    rw [step_call redisGet hk]
    exact Chat.run_roster k.handler h

theorem step_fits {s : Server} (h : s.chat.Fixed) (a : Action) : s.chat.roster.Fits (s.deed a) := by
  unfold Server.deed
  cases s.call a with
  | none => trivial
  | some k => exact Chat.deed_fits k.handler h

theorem complete_packet (s : Server) (pkt : PacketInfo) :
    (if (s.chat.users.completeProcess pkt.sessionIndex pkt.size).2 = false
      then LoopPc.pushIndex pkt.sessionIndex else .dequeueSystemPacket).packet = none := by
  split <;> rfl

/-! ## system packets on their way -/

/-- `Q` holds of every system packet that waits or is about to be processed -/
structure Notices (Q : PacketInfo → Prop) (s : Server) : Prop where
  queued : ∀ pkt ∈ s.systemQueue, Q pkt
  held : ∀ pkt, s.pc.packet = some (.system, pkt) → Q pkt

theorem notices_step {Q : PacketInfo → Prop} {s : Server} (h : Notices Q s) (a : Action)
    (hQ : ∀ i, Q (systemPacket i .sysUserConnect) ∧ Q (systemPacket i .sysUserDisconnect)) :
    Notices Q (step redisGet s a) := by
  have he := step_effect redisGet s a
  generalize step redisGet s a = s' at he
  cases he with
  | onConnect i =>
    refine ⟨fun pkt hp => ?_, h.held⟩
    rcases List.mem_append.mp hp with hp | hp
    · exact h.queued pkt hp
    · rw [List.mem_singleton.mp hp]
      exact (hQ i).1
  | onDisconnect i =>
    refine ⟨fun pkt hp => ?_, h.held⟩
    rcases List.mem_append.mp hp with hp | hp
    · exact h.queued pkt hp
    · rw [List.mem_singleton.mp hp]
      exact (hQ i).2
  | call hk =>
    refine ⟨h.queued, fun pkt hp => ?_⟩
    rw [LoopPc.ran_packet (call_spec hk).2.1] at hp
    cases hp
  | skip hpc hid =>
    refine ⟨h.queued, fun pkt hp => ?_⟩
    rw [LoopPc.skipped_packet hpc] at hp
    cases hp
  | complete hpc =>
    refine ⟨h.queued, fun pkt hp => ?_⟩
    rw [complete_packet] at hp
    cases hp
  | @system mem pkt rest hpc hq =>
    have hpkt : pkt ∈ s.systemQueue := by rw [hq]; exact List.mem_cons_self
    refine ⟨fun pkt' hp => h.queued pkt' ?_, fun pkt' hp => ?_⟩
    · rw [hq]
      exact List.mem_cons_of_mem _ hp
    · cases hp
      exact h.queued pkt hpkt
  | onRecv => exact ⟨h.queued, h.held⟩
  | pushIndex => exact ⟨h.queued, h.held⟩
  | noPush | noRequest | noWorker => exact h
  | take => exact ⟨h.queued, h.held⟩
  | put => exact ⟨h.queued, h.held⟩
  | _ => exact ⟨h.queued, fun pkt hp => by cases hp⟩

/-! ## login tasks on their way -/

/-- `Q` holds of every request on its way to Redis, `R` of every response on its way back -/
structure Tasks (Q R : RedisTask → Prop) (s : Server) : Prop where
  requests : ∀ t ∈ s.chat.taskReqQueue, Q t
  workers : ∀ t ∈ s.workers, Q t
  responses : ∀ t ∈ s.taskResQueue, R t
  held : ∀ t, s.pc = .processTaskRes t → R t

theorem call_bufs (k : Call) (c : Chat) (p : Session) :
    (k.run c).bufs p =
      if k.handler = .connect ∧ k.session = some p then (c.bufs p).clearBuffer else c.bufs p :=
  Chat.run_bufs k.handler p

theorem call_taskReqQueue (k : Call) (c : Chat) :
    (k.run c).taskReqQueue = c.taskReqQueue ++ k.request c := Chat.run_taskReqQueue k.handler

theorem taskReqQueue_call {s : Server} {a : Action} {k : Call} (h : s.call a = some k) :
    (step redisGet s a).chat.taskReqQueue = s.chat.taskReqQueue ++ k.request s.chat := by
  rw [step_call redisGet h]
  exact call_taskReqQueue k s.chat

/-- a step keeps `Q` and `R` if every new request has `Q` and every answer to a `Q` has `R` -/
theorem tasks_step {Q R : RedisTask → Prop} {s : Server} (h : Tasks Q R s) (a : Action)
    (hreq : ∀ k, s.call a = some k → ∀ t ∈ k.request s.chat, Q t)
    (hput : ∀ k mem t r, a = .redisPut k mem → s.workers[k]? = some t → Q t →
      processTask redisGet mem t = some r → R r) :
    Tasks Q R (step redisGet s a) := by
  have hcall := fun k => @taskReqQueue_call redisGet s a k
  have he := step_effect redisGet s a
  generalize step redisGet s a = s' at he hcall
  cases he with
  | call hk =>
    refine ⟨?_, h.workers, h.responses, fun t ht => ?_⟩
    · rw [hcall _ hk]
      intro t ht
      rcases List.mem_append.mp ht with ht | ht
      · exact h.requests t ht
      · exact hreq _ hk t ht
    · have := LoopPc.ran_packet (call_spec hk).2.1
      rw [show s.pc.ran = _ from ht] at this
      cases this
  | skip hpc hid =>
    refine ⟨h.requests, h.workers, h.responses, fun t ht => ?_⟩
    have := LoopPc.skipped_packet hpc
    rw [show s.pc.skipped = _ from ht] at this
    cases this
  | @complete mem pkt hpc =>
    refine ⟨h.requests, h.workers, h.responses, fun t ht => ?_⟩
    have := complete_packet s pkt
    rw [show ite _ _ _ = _ from ht] at this
    cases this
  | @task mem t rest hpc hq =>
    have ht : t ∈ s.taskResQueue := by rw [hq]; exact List.mem_cons_self
    refine ⟨h.requests, h.workers, fun t' ht' => h.responses t' ?_, fun t' ht' => ?_⟩
    · rw [hq]
      exact List.mem_cons_of_mem _ ht'
    · cases ht'
      exact h.responses t ht
  | @take t rest hq =>
    refine ⟨fun t' ht' => h.requests t' ?_, fun t' ht' => ?_, h.responses, h.held⟩
    · rw [hq]
      exact List.mem_cons_of_mem _ ht'
    · rcases List.mem_append.mp ht' with ht' | ht'
      · exact h.workers t' ht'
      · rw [List.mem_singleton.mp ht']
        exact h.requests t (by rw [hq]; exact List.mem_cons_self)
  | @put k mem t hk =>
    refine ⟨h.requests, fun t' ht' => h.workers t' (List.mem_of_mem_eraseIdx ht'),
      fun t' ht' => ?_, h.held⟩
    rcases List.mem_append.mp ht' with ht' | ht'
    · exact h.responses t' ht'
    · have hQ := h.workers t (List.mem_of_getElem? hk)
      exact hput k mem t t' rfl hk hQ (by simpa using ht')
  | onConnect => exact ⟨h.requests, h.workers, h.responses, h.held⟩
  | onDisconnect => exact ⟨h.requests, h.workers, h.responses, h.held⟩
  | onRecv => exact ⟨h.requests, h.workers, h.responses, h.held⟩
  | pushIndex => exact ⟨h.requests, h.workers, h.responses, h.held⟩
  | noPush | noRequest | noWorker => exact h
  | _ => exact ⟨h.requests, h.workers, h.responses, fun t ht => by cases ht⟩

/-- the same for a handler call, where `Q` and `R` may speak about the state after it -/
theorem tasks_call {Q R : RedisTask → Prop} {s : Server} {a : Action} {k : Call}
    (hk : s.call a = some k) (hq : ∀ t ∈ s.chat.taskReqQueue, Q t)
    (hreq : ∀ t ∈ k.request s.chat, Q t) (hw : ∀ t ∈ s.workers, Q t)
    (hr : ∀ t ∈ s.taskResQueue, R t) : Tasks Q R (step redisGet s a) := by
  have hcall := taskReqQueue_call redisGet hk
  have hran := LoopPc.ran_packet (call_spec hk).2.1
  rw [step_call redisGet hk] at hcall ⊢
  refine ⟨fun t ht => ?_, hw, hr, fun t ht => ?_⟩
  · rw [hcall] at ht
    rcases List.mem_append.mp ht with ht | ht
    · exact hq t ht
    · exact hreq t ht
  · rw [show s.pc.ran = _ from ht] at hran
    cases hran

/-! ## what holds in every reachable state -/

def IsNotice (pkt : PacketInfo) : Prop :=
  ∃ i, pkt = systemPacket i .sysUserConnect ∨ pkt = systemPacket i .sysUserDisconnect

structure Sound (s : Server) : Prop where
  fixed : s.chat.Fixed
  placed : s.chat.roster.Placed
  notices : Notices IsNotice s
  tasks : Tasks (·.id = .requestLogin) (·.id = .responseLogin) s

theorem start_sound (heap : Session → Fin kDefaultRingBufferSize → UInt8) : (start heap).Sound where
  fixed := Chat.init_fixed heap
  placed p h := by cases h
  notices := ⟨fun _ h => (by cases h), fun _ h => (by cases h)⟩
  tasks := ⟨fun _ h => (by cases h), fun _ h => (by cases h), fun _ h => (by cases h),
    fun _ h => (by cases h)⟩

theorem request_id {k : Call} {c : Chat} {t : RedisTask} (h : t ∈ k.request c) :
    k.handler = .login ∧ t = Chat.loginTask k.pkt.sessionIndex (k.data c) := by
  unfold Call.request Handler.request at h
  split at h
  · next hd =>
    split at h
    · cases h
    · split at h
      · exact ⟨hd, List.mem_singleton.mp h⟩
      · cases h
  · cases h

theorem processTask_eq {mem : Mem} {t r : RedisTask} (h : processTask redisGet mem t = some r) :
    r = redisLogin redisGet mem t := by
  unfold processTask at h
  split at h
  · exact (Option.some.inj h).symm
  · cases h

theorem step_sound {s : Server} (h : s.Sound) (a : Action) : (step redisGet s a).Sound where
  fixed := step_fixed redisGet h.fixed a
  placed := by
    rw [roster_step redisGet h.fixed]
    exact Roster.placed_apply h.placed
  notices := notices_step redisGet h.notices a fun i => ⟨⟨i, .inl rfl⟩, ⟨i, .inr rfl⟩⟩
  tasks := by
    refine tasks_step redisGet h.tasks a (fun k _ t ht => ?_) (fun k mem t r _ _ _ hr => ?_)
    · rw [(request_id ht).2]
      rfl
    · rw [processTask_eq redisGet hr]
      rfl

theorem run_sound (heap : Session → Fin kDefaultRingBufferSize → UInt8) (as : List Action) :
    (Runs.run (step redisGet) (start heap) as).Sound :=
  Runs.run_keeps_all (I := Sound) _ (fun _ a h => step_sound redisGet h a) (start_sound heap) as

theorem hist_sound (heap : Session → Fin kDefaultRingBufferSize → UInt8) (as : List Action) :
    ∀ x ∈ Runs.hist (step redisGet) (start heap) as, x.1.Sound :=
  Runs.hist_keeps_all (I := Sound) _ (fun _ a h => step_sound redisGet h a) (start_sound heap) as

end

/-! ## which handler does which deed -/

/-- how a call comes to a deed -/
def Does (k : Call) (c : Chat) : Deed Session RoomPtr CStr → Prop
  | .idle => True
  | .clear p => k.session = some p ∧ k.handler = .connect
  | .disconnect p _ => k.session = some p ∧ k.handler = .disconnect
  | .request p v =>
    k.session = some p ∧ k.handler = .login ∧ v = Chat.loginId k.mem (k.data c) ∧
      k.request c = [Chat.loginTask k.pkt.sessionIndex (k.data c)]
  | .accept p =>
    k.session = some p ∧ k.handler = .loginDBRes ∧ readResult (k.data c) = ErrorCode.none.val
  | .reject p =>
    k.session = some p ∧ k.handler = .loginDBRes ∧ readResult (k.data c) ≠ ErrorCode.none.val
  | .enter p _ => k.session = some p ∧ k.handler = .enterRoom
  | .leave p _ => k.session = some p ∧ k.handler = .leaveRoom
  | .chat p _ => k.session = some p ∧ k.handler = .roomChat

theorem does_deed (k : Call) (c : Chat) : Does k c (k.deed c) := by
  unfold Call.deed Handler.deed
  cases hp : getUserByIndex (int32 k.pkt.sessionIndex) with
  | none => trivial
  | some p =>
    cases hd : k.handler with
    | connect => exact ⟨hp, hd⟩
    | disconnect =>
      simp only
      split
      · split
        · trivial
        · exact ⟨hp, hd⟩
      · exact ⟨hp, hd⟩
    | login =>
      simp only
      split
      · trivial
      · next hc =>
        split
        · next hf =>
          refine ⟨hp, hd, rfl, ?_⟩
          unfold Call.request Handler.request
          simp only [hd]
          rw [if_neg hc, if_pos hf]
        · trivial
    | loginDBRes =>
      simp only
      split
      · next hr => exact ⟨hp, hd, hr⟩
      · next hr => exact ⟨hp, hd, hr⟩
    | enterRoom =>
      simp only
      split
      · trivial
      · split
        · trivial
        · split
          · trivial
          · exact ⟨hp, hd⟩
    | leaveRoom | roomChat =>
      simp only
      split
      · trivial
      · split
        · trivial
        · exact ⟨hp, hd⟩

theorem connect_deed {k : Call} {c : Chat} {p : Session} (hk : k.handler = .connect)
    (hp : k.session = some p) : k.deed c = .clear p := by
  unfold Call.session at hp
  unfold Call.deed Handler.deed
  rw [hk, hp]

theorem request_deed {k : Call} {c : Chat} {t : RedisTask} {p : Session} (ht : t ∈ k.request c)
    (hp : k.session = some p) : k.deed c = .request p (Chat.loginId k.mem (k.data c)) := by
  unfold Call.session at hp
  unfold Call.request Handler.request at ht
  unfold Call.deed Handler.deed
  rw [hp]
  cases hd : k.handler with
  | login =>
    rw [hd] at ht
    simp only at ht ⊢
    split at ht
    · cases ht
    · next hc =>
      split at ht
      · next hf => rw [if_neg hc, if_pos hf]
      · cases ht
  | _ => rw [hd] at ht; cases ht

theorem deed_who (k : Call) (c : Chat) : (k.deed c).who = k.session ∨ k.deed c = .idle := by
  have h := does_deed k c
  cases hd : k.deed c with
  | idle => exact .inr rfl
  | clear p | disconnect p left | request p v | accept p | reject p | enter p r | leave p r
  | chat p r =>
    rw [hd] at h
    exact .inl h.1.symm

/-! ## which handlers a queue leads to -/

theorem mem_bindHandler {id : Nat} {hd : Handler} (h : packetHandlers id = some hd) :
    (id, hd) ∈ bindHandler := by
  obtain ⟨l₁, l₂, e, _⟩ := List.lookup_eq_some_iff.mp h
  rw [e]
  exact List.mem_append_right _ List.mem_cons_self

theorem system_handler {s : Server} (hs : s.Sound) {a : Action} {k : Call} (hk : s.call a = some k)
    (h : k.source = .system) : k.handler = .connect ∨ k.handler = .disconnect := by
  obtain ⟨_, hp, hid⟩ := call_spec hk
  rw [h] at hp
  obtain ⟨i, e | e⟩ := hs.notices.held _ hp
  · rw [e] at hid
    exact .inl (Option.some.inj hid).symm
  · rw [e] at hid
    exact .inr (Option.some.inj hid).symm

theorem redis_handler {s : Server} (hs : s.Sound) {a : Action} {k : Call} (hk : s.call a = some k)
    (h : k.source = .redis) :
    k.handler = .loginDBRes ∧ ∃ t, s.pc = .processTaskRes t ∧ k.pkt = t.toPacketInfo := by
  obtain ⟨_, hp, hid⟩ := call_spec hk
  rw [h] at hp
  cases hpc : s.pc with
  | processTaskRes t =>
    rw [hpc] at hp
    simp only [LoopPc.packet, Option.some.injEq, Prod.mk.injEq, true_and] at hp
    have ht := hs.tasks.held t hpc
    rw [← hp] at hid
    refine ⟨?_, t, rfl, hp.symm⟩
    simp only [RedisTask.toPacketInfo, ht] at hid
    exact (Option.some.inj hid).symm
  | _ => rw [hpc] at hp; simp [LoopPc.packet] at hp

end Server

end Iocp
