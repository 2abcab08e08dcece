import IocpChatting.Content.Answers
import IocpChatting.Network.Network

/-!
# `ChatServer::Terminate` (Content/chat_server.cpp)

The main thread stops the threads of the network and deletes the sessions; the Redis workers and the packet
loop are stopped after that.

* `Shutdown`           the server with the main thread in `Terminate` and with the packet loop, which makes
                       the `SendPacket` calls of a handler one after the other;
* `run_server`, `reach_server`   to the server it is a run like any other, and `Terminate` can find the
                       server in any state;
* `Silent`             the handler calls that do not send;
* `safe_run_iff`       no `SendPacket` gets to a deleted session exactly if the packet loop calls silent
                       handlers only after the sessions are gone, and is in no other while they go;
* `answered_too_late`  a run in which it does.
-/

set_option linter.unusedSectionVars false
set_option autoImplicit false

namespace Iocp
open Runs
open UserManager (getUserByIndex)

/-- `SendPacket` gets past its test of `session_idx`, to `session_list_` -/
def Sent.accesses (x : Sent) : Bool := (Network.getSessionByIdx (int32 x.idx)).isSome

namespace Shutdown

/-- the statements of `Terminate`, with those of the functions that it calls; `postTerminateMsg` is the
first one, so it stands for any time before the call as well -/
inductive MainPc where
  | postTerminateMsg
  | stopWorkers
  | joinWorkers
  | joinAccepter
  | joinSender
  | deleteSessions
  | closeHandle
  | stopRedis
  | joinRedis
  | stopThread
  | joinThread
  | stopServer
  | returned
deriving DecidableEq, Repr

namespace MainPc

/-- the worker threads of the network have not been joined -/
def workersRun : MainPc → Bool
  | .postTerminateMsg | .stopWorkers | .joinWorkers => true
  | _ => false

/-- `session_list_` has not been deleted -/
def sessionsLive : MainPc → Bool
  | .postTerminateMsg | .stopWorkers | .joinWorkers | .joinAccepter | .joinSender | .deleteSessions => true
  | _ => false

/-- the Redis workers have not been joined -/
def redisRuns : MainPc → Bool
  | .stopThread | .joinThread | .stopServer | .returned => false
  | _ => true

end MainPc

/-- where `PacketProcessThread` stands: `body` is the statement `Server.pc`, and `sendPacket` a handler with
the calls that it has still to make -/
inductive ThreadPc where
  | test
  | body
  | sendPacket (calls : List Sent)
  | finished

/-- the calls of `SendPacket` to come -/
def ThreadPc.calls : ThreadPc → List Sent
  | .sendPacket calls => calls
  | _ => []

end Shutdown

structure Shutdown where
  server : Server
  main : Shutdown.MainPc
  isThreadRunning : Bool
  thread : Shutdown.ThreadPc

namespace Shutdown

/-- before `Terminate` is called -/
def start (heap : Session → Fin kDefaultRingBufferSize → UInt8) : Shutdown where
  server := Server.start heap
  main := .postTerminateMsg
  isThreadRunning := true
  thread := .test

inductive Action where
  | main
  | server (a : Server.Action)

/-- the next statement of the main thread; a `join` waits -/
def mainStep (t : Shutdown) : Shutdown :=
  match t.main with
  | .postTerminateMsg => { t with main := .stopWorkers }
  | .stopWorkers => { t with main := .joinWorkers }
  | .joinWorkers => if t.server.storing.isEmpty then { t with main := .joinAccepter } else t
  | .joinAccepter => { t with main := .joinSender }
  | .joinSender => { t with main := .deleteSessions }
  | .deleteSessions => { t with main := .closeHandle }
  | .closeHandle => { t with main := .stopRedis }
  | .stopRedis => { t with main := .joinRedis }
  | .joinRedis => if t.server.workers.isEmpty then { t with main := .stopThread } else t
  | .stopThread => { t with isThreadRunning := false, main := .joinThread }
  | .joinThread =>
    match t.thread with
    | .finished => { t with main := .stopServer }
    | _ => t
  | .stopServer => { t with main := .returned }
  | .returned => t

/-- where the packet loop goes on with `calls` to make -/
def goOn (s : Server) (calls : List Sent) : ThreadPc :=
  match calls with
  | [] => if s.pc = .dequeuePacket then .test else .body
  | _ => .sendPacket calls

/-- the next statement of `PacketProcessThread` -/
def threadStep (t : Shutdown) (mem : Mem) : Shutdown :=
  match t.thread with
  | .test => { t with thread := if t.isThreadRunning then .body else .finished }
  | .body =>
    let s := t.server.loopStep mem
    { t with server := s, thread := goOn s (s.chat.sent.drop t.server.chat.sent.length) }
  | .sendPacket calls => { t with thread := goOn t.server calls.tail }
  | .finished => t

section
variable (redisGet : CStr → Option (List UInt8))

def step (t : Shutdown) : Action → Shutdown
  | .main => t.mainStep
  | .server a =>
    match a with
    | .loop mem => t.threadStep mem
    | .redisTake | .redisPut .. =>
      if t.main.redisRuns then { t with server := t.server.step redisGet a } else t
    | .onConnect _ | .onDisconnect _ | .onRecv .. | .pushIndex _ =>
      if t.main.workersRun then { t with server := t.server.step redisGet a } else t

end

/-- a thread calls `SendPacket` and gets to `session_list_` -/
def accesses (t : Shutdown) : Action → Bool
  | .server (.loop _) => (t.thread.calls.head?).any Sent.accesses
  | _ => false

end Shutdown

/-! ## handler calls that do not send -/

/-- The handler call sends nothing to a session: it has no user, or it is a connect, or the disconnect of a
user whom nobody shares a room with, or a login request that goes to Redis. -/
def Handler.Silent (hd : Handler) (c : Chat) (mem : Mem) (sessionIdx : Nat) (data : Nat → UInt8) : Prop :=
  match getUserByIndex (int32 sessionIdx) with
  | none => True
  | some p =>
    match hd with
    | .connect => True
    | .disconnect => (c.users.pool p).domainState = .room →
        ∀ r, Chat.getRoomByIdx (c.users.pool p).roomIdx = some r →
          ∀ q ∈ (c.roomList r).userList, q ≠ p → (c.users.pool q).userId = (c.users.pool p).userId
    | .login => c.users.getCurrentUserCnt < c.users.getMaxUserCnt ∧
        c.users.findUserIndexByID (Chat.loginId mem data) = -1
    | .loginDBRes | .enterRoom | .leaveRoom | .roomChat => False

/-- the two bounds checks are the same -/
theorem accesses_eq (i : Nat) (pkt : Packet) :
    (⟨i, pkt⟩ : Sent).accesses = (getUserByIndex (int32 i)).isSome := by
  show (Network.getSessionByIdx (int32 i)).isSome = _
  unfold Network.getSessionByIdx getUserByIndex
  by_cases h : int32 i < 0 ∨ int32 i ≥ kMaxUserCnt
  · rw [dif_pos h]
  · rw [dif_neg h]

theorem accesses_session (p : Session) (pkt : Packet) : (⟨(p : Nat), pkt⟩ : Sent).accesses = true := by
  rw [accesses_eq, getUserByIndex_int32]
  rfl

namespace Chat

variable {c : Chat} {mem : Mem} {i : Nat} {data : Nat → UInt8}

theorem toEach_silent {l : List Session} {pkt : Packet} :
    (∀ x ∈ toEach l pkt, x.accesses = false) ↔ l = [] := by
  constructor
  · intro h
    refine List.eq_nil_iff_forall_not_mem.mpr fun p hp => ?_
    have hx := h ⟨(p : Nat), pkt⟩ (List.mem_map.mpr ⟨p, hp, rfl⟩)
    rw [accesses_session] at hx
    cases hx
  · rintro rfl x hx
    cases hx

theorem leaveSends_silent {r : RoomPtr} {p : Session} :
    (∀ x ∈ c.leaveSends mem r p, x.accesses = false) ↔
      ∀ q ∈ (c.roomList r).userList, q ≠ p → (c.users.pool q).userId = (c.users.pool p).userId := by
  unfold leaveSends staying
  rw [toEach_silent, List.filter_eq_nil_iff]
  constructor
  · intro h q hq hne
    by_contra hid
    refine h q (List.mem_filter.mpr ⟨hq, ?_⟩) (by simpa using hne)
    simpa using fun e => hid e.symm
  · intro h q hq hne
    obtain ⟨hmem, hid⟩ := List.mem_filter.mp hq
    have e := h q hmem (by simpa using hne)
    rw [e] at hid
    simp at hid

/-- without a user nothing gets to a session -/
theorem silent_nobody (hd : Handler) (h : getUserByIndex (int32 i) = none) :
    ∀ x ∈ hd.sends c mem i data, x.accesses = false := by
  have hidx : ∀ pkt, ∀ x ∈ [(⟨i, pkt⟩ : Sent)], x.accesses = false := by
    intro pkt x hx
    rw [List.mem_singleton.mp hx, accesses_eq, h]
    rfl
  intro x hx
  cases hd with
  | connect => cases hx
  | disconnect | enterRoom | leaveRoom =>
    simp only [Handler.sends, h] at hx
    cases hx
  | login =>
    simp only [Handler.sends] at hx
    split at hx
    · exact hidx _ x hx
    · split at hx
      · cases hx
      · exact hidx _ x hx
  | loginDBRes => exact hidx _ x hx
  | roomChat =>
    simp only [Handler.sends, h] at hx
    exact hidx _ x hx

/-- a handler that answers its user is not silent -/
theorem answer_not_silent {l : List Sent} {pkt : Packet} (h : (getUserByIndex (int32 i)).isSome = true)
    (hmem : ⟨i, pkt⟩ ∈ l) : ¬ ∀ x ∈ l, x.accesses = false := by
  intro hall
  have hx := hall _ hmem
  rw [accesses_eq, h] at hx
  cases hx

/-- **`Silent` says which handler calls send nothing to a session.** -/
theorem silent_iff (hd : Handler) (c : Chat) (mem : Mem) (i : Nat) (data : Nat → UInt8) :
    (∀ x ∈ hd.sends c mem i data, x.accesses = false) ↔ hd.Silent c mem i data := by
  unfold Handler.Silent
  cases hp : getUserByIndex (int32 i) with
  | none => exact iff_of_true (silent_nobody hd hp) trivial
  | some p =>
    have hsome : (getUserByIndex (int32 i)).isSome = true := by
      rw [hp]
      rfl
    cases hd with
    | connect => exact iff_of_true (fun _ hx => by cases hx) trivial
    | disconnect =>
      simp only [Handler.sends, hp]
      by_cases hs : (c.users.pool p).domainState = .room
      · rw [if_pos hs]
        cases hr : getRoomByIdx (c.users.pool p).roomIdx with
        | none => exact iff_of_true (fun _ hx => by cases hx) fun _ _ e => by cases e
        | some r =>
          simp only
          rw [leaveSends_silent]
          constructor
          · rintro h _ r' e
            obtain rfl := Option.some.inj e
            exact h
          · exact fun h => h hs r rfl
      · rw [if_neg hs]
        exact iff_of_true (fun _ hx => by cases hx) fun e => absurd e hs
    | login =>
      simp only [Handler.sends]
      by_cases hfull : c.users.getCurrentUserCnt ≥ c.users.getMaxUserCnt
      · rw [if_pos hfull]
        exact iff_of_false (answer_not_silent hsome List.mem_cons_self) fun h => by
          have := h.1
          omega
      · rw [if_neg hfull]
        by_cases hfree : c.users.findUserIndexByID (loginId mem data) = -1
        · rw [if_pos hfree]
          exact iff_of_true (fun _ hx => by cases hx) ⟨by omega, hfree⟩
        · rw [if_neg hfree]
          exact iff_of_false (answer_not_silent hsome List.mem_cons_self) fun h => hfree h.2
    | loginDBRes => exact iff_of_false (answer_not_silent hsome List.mem_cons_self) id
    | enterRoom =>
      simp only [Handler.sends, hp]
      refine iff_of_false ?_ id
      split
      · exact answer_not_silent hsome List.mem_cons_self
      · split
        · exact answer_not_silent hsome List.mem_cons_self
        · split
          · exact answer_not_silent hsome List.mem_cons_self
          · exact answer_not_silent hsome (List.mem_append_right _ List.mem_cons_self)
    | leaveRoom =>
      simp only [Handler.sends, hp]
      refine iff_of_false ?_ id
      split
      · exact answer_not_silent hsome List.mem_cons_self
      · split
        · exact answer_not_silent hsome List.mem_cons_self
        · exact answer_not_silent hsome (List.mem_append_right _ List.mem_cons_self)
    | roomChat =>
      simp only [Handler.sends, hp]
      refine iff_of_false ?_ id
      split
      · exact answer_not_silent hsome List.mem_cons_self
      · split
        · exact answer_not_silent hsome List.mem_cons_self
        · exact answer_not_silent hsome List.mem_cons_self

end Chat

/-- a step sends nothing to a session exactly if the handler call it makes is silent -/
theorem Server.sends_silent_iff (s : Server) (a : Server.Action) :
    (∀ x ∈ s.sends a, x.accesses = false) ↔
      ∀ k, s.call a = some k → k.handler.Silent s.chat k.mem k.pkt.sessionIndex (k.data s.chat) := by
  unfold Server.sends
  cases s.call a with
  | none => exact iff_of_true (fun _ hx => by cases hx) fun _ e => by cases e
  | some k =>
    refine (Chat.silent_iff k.handler s.chat k.mem k.pkt.sessionIndex (k.data s.chat)).trans ?_
    constructor
    · intro h k' e
      obtain rfl := Option.some.inj e
      exact h
    · exact fun h => h k rfl

namespace Shutdown

/-! ## the server in a shutdown -/

section
variable (redisGet : CStr → Option (List UInt8))

/-- a step of a shutdown is a step of the server, or none -/
theorem step_server (t : Shutdown) (a : Action) :
    (step redisGet t a).server = t.server ∨
      ∃ b, a = .server b ∧ (step redisGet t a).server = t.server.step redisGet b := by
  cases a with
  | main =>
    left
    show t.mainStep.server = t.server
    unfold mainStep
    split
    case h_3 | h_9 => split <;> rfl
    case h_11 => split <;> rfl
    all_goals rfl
  | server b =>
    cases b with
    | loop mem =>
      show (t.threadStep mem).server = _ ∨ _
      cases hpc : t.thread with
      | body =>
        refine .inr ⟨_, rfl, ?_⟩
        show (t.threadStep mem).server = _
        simp only [threadStep, hpc]
        rfl
      | test | sendPacket calls | finished =>
        left
        simp only [threadStep, hpc]
    | redisTake | redisPut k mem =>
      simp only [step]
      split
      · exact .inr ⟨_, rfl, rfl⟩
      · exact .inl rfl
    | onConnect j | onDisconnect j | onRecv j data | pushIndex j =>
      simp only [step]
      split
      · exact .inr ⟨_, rfl, rfl⟩
      · exact .inl rfl

/-- **A shutdown is a run of the server.** -/
theorem run_server (t : Shutdown) (as : List Action) :
    ∃ bs, (run (step redisGet) t as).server = run (Server.step redisGet) t.server bs := by
  induction as generalizing t with
  | nil => exact ⟨[], rfl⟩
  | cons a as ih =>
    obtain ⟨bs, hbs⟩ := ih (step redisGet t a)
    rcases step_server redisGet t a with e | ⟨b, _, e⟩
    · exact ⟨bs, by rw [run_cons, hbs, e]⟩
    · exact ⟨b :: bs, by rw [run_cons, hbs, e, run_cons]⟩

theorem run_fixed (heap : Session → Fin kDefaultRingBufferSize → UInt8) (as : List Action) :
    (run (step redisGet) (start heap) as).server.chat.Fixed := by
  obtain ⟨bs, hbs⟩ := run_server redisGet (start heap) as
  rw [hbs]
  exact (Server.run_sound redisGet heap bs).fixed

end

/-! ## any state of the server, before `Terminate` is called -/

section
variable (redisGet : CStr → Option (List UInt8))

theorem test_body {t : Shutdown} (hrun : t.isThreadRunning = true) (hpc : t.thread = .test) :
    step redisGet t (.server (.loop Mem.zero)) = { t with thread := .body } := by
  show t.threadStep Mem.zero = _
  simp only [threadStep, hpc, hrun, if_true]

/-- the calls are made one by one, and the packet loop comes to its next statement -/
theorem reach_goOn {t : Shutdown} (hrun : t.isThreadRunning = true) (calls : List Sent) :
    ∃ as, run (step redisGet) { t with thread := goOn t.server calls } as = { t with thread := .body } := by
  induction calls with
  | nil =>
    by_cases hd : t.server.pc = .dequeuePacket
    · refine ⟨[.server (.loop Mem.zero)], ?_⟩
      exact test_body redisGet (t := { t with thread := goOn t.server [] }) hrun (if_pos hd)
    · refine ⟨[], ?_⟩
      simp only [goOn, if_neg hd, run_nil]
  | cons x calls ih =>
    obtain ⟨as, has⟩ := ih
    exact ⟨.server (.loop Mem.zero) :: as, has⟩

theorem reach_body {t : Shutdown} (hrun : t.isThreadRunning = true) (hfin : t.thread ≠ .finished) :
    ∃ as, run (step redisGet) t as = { t with thread := .body } := by
  cases hpc : t.thread with
  | finished => exact absurd hpc hfin
  | test => exact ⟨[.server (.loop Mem.zero)], test_body redisGet hrun hpc⟩
  | body => exact ⟨[], by rw [run_nil, ← hpc]⟩
  | sendPacket calls =>
    obtain ⟨as, has⟩ := reach_goOn redisGet hrun calls.tail
    refine ⟨.server (.loop Mem.zero) :: as, ?_⟩
    have e : step redisGet t (.server (.loop Mem.zero)) = { t with thread := goOn t.server calls.tail } := by
      show t.threadStep Mem.zero = _
      simp only [threadStep, hpc]
    rw [run_cons, e, has]

theorem goOn_ne_finished (s : Server) (calls : List Sent) : goOn s calls ≠ .finished := by
  unfold goOn
  split
  · split <;> exact fun e => by cases e
  · exact fun e => by cases e

/-- **`Terminate` can find the server in any state that it can be in.** -/
theorem reach_server (heap : Session → Fin kDefaultRingBufferSize → UInt8) (bs : List Server.Action) :
    ∃ as, (run (step redisGet) (start heap) as).server = run (Server.step redisGet) (Server.start heap) bs ∧
      (run (step redisGet) (start heap) as).main = .postTerminateMsg ∧
      (run (step redisGet) (start heap) as).isThreadRunning = true ∧
      (run (step redisGet) (start heap) as).thread ≠ .finished := by
  induction bs using List.reverseRecOn with
  | nil => exact ⟨[], rfl, rfl, rfl, fun e => by cases e⟩
  | append_singleton bs b ih =>
    obtain ⟨as, hserver, hmain, hrun, hfin⟩ := ih
    rw [run_snoc, ← hserver]
    generalize ht : run (step redisGet) (start heap) as = t at *
    -- nobody has been stopped, so the step is made
    have hmade : step redisGet t (.server b) = { t with server := t.server.step redisGet b } →
        ∃ as, (run (step redisGet) (start heap) as).server = t.server.step redisGet b ∧
          (run (step redisGet) (start heap) as).main = .postTerminateMsg ∧
          (run (step redisGet) (start heap) as).isThreadRunning = true ∧
          (run (step redisGet) (start heap) as).thread ≠ .finished := by
      intro e
      refine ⟨as ++ [.server b], ?_⟩
      rw [run_snoc, ht, e]
      exact ⟨rfl, hmain, hrun, hfin⟩
    cases b with
    | loop mem =>
      obtain ⟨cs, hcs⟩ := reach_body redisGet hrun hfin
      refine ⟨as ++ cs ++ [.server (.loop mem)], ?_⟩
      rw [run_snoc, run_append, ht, hcs]
      exact ⟨rfl, hmain, hrun, goOn_ne_finished _ _⟩
    | redisTake | redisPut k mem | onConnect j | onDisconnect j | onRecv j data | pushIndex j =>
      refine hmade ?_
      simp only [step, hmain, MainPc.redisRuns, MainPc.workersRun, if_true]

end

/-! ## safety -/

/-- once the sessions are deleted, no call of `SendPacket` to come gets to one -/
def Safe (t : Shutdown) : Prop :=
  t.main.sessionsLive = false → ∀ x ∈ t.thread.calls, x.accesses = false

/-- **The condition.**  The sessions are deleted while the packet loop has no call to make that would get to
one, and from then on it calls silent handlers only. -/
def Permits (t : Shutdown) : Action → Prop
  | .main => t.main = .deleteSessions → ∀ x ∈ t.thread.calls, x.accesses = false
  | .server (.loop mem) => t.main.sessionsLive = false → t.thread = .body →
      ∀ k, t.server.call (.loop mem) = some k →
        k.handler.Silent t.server.chat k.mem k.pkt.sessionIndex (k.data t.server.chat)
  | .server _ => True

theorem Safe.congr {t t' : Shutdown} (hmain : t'.main.sessionsLive = t.main.sessionsLive)
    (hcalls : ∀ x ∈ t'.thread.calls, x ∈ t.thread.calls) (h : t.Safe) : t'.Safe := by
  intro hl x hx
  rw [hmain] at hl
  exact h hl x (hcalls x hx)

theorem goOn_calls (s : Server) (calls : List Sent) : (goOn s calls).calls = calls := by
  cases calls with
  | nil =>
    simp only [goOn]
    split <;> rfl
  | cons x calls => rfl

/-- the main thread stays on its side of `delete[]`, or is there -/
theorem mainStep_live (t : Shutdown) (h : t.main ≠ .deleteSessions) :
    t.mainStep.main.sessionsLive = t.main.sessionsLive ∧ t.mainStep.thread = t.thread := by
  unfold mainStep
  cases hm : t.main with
  | deleteSessions => exact absurd hm h
  | joinWorkers | joinRedis | joinThread =>
    simp only
    split
    · exact ⟨rfl, rfl⟩
    · rw [hm]
      exact ⟨rfl, rfl⟩
  | returned =>
    show t.main.sessionsLive = _ ∧ t.thread = _
    rw [hm]
    exact ⟨rfl, rfl⟩
  | _ => exact ⟨rfl, rfl⟩

theorem mainStep_delete (t : Shutdown) (h : t.main = .deleteSessions) :
    t.mainStep.main.sessionsLive = false ∧ t.mainStep.thread = t.thread := by
  unfold mainStep
  rw [h]
  exact ⟨rfl, rfl⟩

/-- a handler call leaves the packet loop with what it sends -/
theorem body_calls {t : Shutdown} (hs : t.server.chat.Fixed) (hpc : t.thread = .body) (mem : Mem) :
    (t.threadStep mem).thread.calls = t.server.sends (.loop mem) := by
  have hsent : (t.server.loopStep mem).chat.sent = t.server.chat.sent ++ t.server.sends (.loop mem) :=
    Server.step_sent (fun _ => none) hs (.loop mem)
  simp only [threadStep, hpc, goOn_calls]
  rw [hsent, List.drop_left]

theorem threadStep_main (t : Shutdown) (mem : Mem) : (t.threadStep mem).main = t.main := by
  unfold threadStep
  split <;> rfl

/-- **A step out of a safe state is safe exactly if it is permitted.** -/
theorem safe_step (redisGet : CStr → Option (List UInt8)) {t : Shutdown} (hs : t.server.chat.Fixed)
    (h : t.Safe) (a : Action) : (step redisGet t a).Safe ↔ t.Permits a := by
  cases a with
  | main =>
    show t.mainStep.Safe ↔ (t.main = .deleteSessions → _)
    by_cases hm : t.main = .deleteSessions
    · obtain ⟨hl, hth⟩ := t.mainStep_delete hm
      unfold Safe
      rw [hl, hth]
      exact ⟨fun hsafe _ => hsafe rfl, fun hp _ => hp hm⟩
    · obtain ⟨hl, hth⟩ := t.mainStep_live hm
      exact iff_of_true (h.congr hl fun x hx => by rwa [hth] at hx) fun e => absurd e hm
  | server b =>
    cases b with
    | loop mem =>
      show (t.threadStep mem).Safe ↔ (t.main.sessionsLive = false → t.thread = .body → _)
      have hm := congrArg MainPc.sessionsLive (t.threadStep_main mem)
      cases hpc : t.thread with
      | body =>
        unfold Safe
        rw [hm, body_calls hs hpc, Server.sends_silent_iff]
        exact ⟨fun hsafe hl _ => hsafe hl, fun hp hl => hp hl rfl⟩
      | test =>
        refine iff_of_true (h.congr hm fun x hx => ?_) fun _ e => by cases e
        simp only [threadStep, hpc] at hx
        split at hx <;> cases hx
      | sendPacket calls =>
        refine iff_of_true (h.congr hm fun x hx => ?_) fun _ e => by cases e
        simp only [threadStep, hpc, goOn_calls] at hx
        rw [hpc]
        exact List.mem_of_mem_tail hx
      | finished =>
        refine iff_of_true (h.congr hm fun x hx => ?_) fun _ e => by cases e
        simp only [threadStep, hpc] at hx
        cases hx
    | redisTake | redisPut k mem | onConnect j | onDisconnect j | onRecv j data | pushIndex j =>
      refine iff_of_true ?_ trivial
      simp only [step]
      split
      · exact h.congr rfl fun x hx => hx
      · exact h

section
variable (redisGet : CStr → Option (List UInt8)) (heap : Session → Fin kDefaultRingBufferSize → UInt8)

/-- **No call of `SendPacket` gets to a deleted session, or is going to, exactly if every step of the shutdown
is permitted.** -/
theorem safe_run_iff (as : List Action) :
    ((∀ x ∈ hist (step redisGet) (start heap) as, x.1.Safe) ∧ (run (step redisGet) (start heap) as).Safe
      ↔ ∀ x ∈ hist (step redisGet) (start heap) as, x.1.Permits x.2) ∧
    ((∀ x ∈ hist (step redisGet) (start heap) as, x.1.Permits x.2) →
      ∀ x ∈ hist (step redisGet) (start heap) as, x.1.accesses x.2 = true → x.1.main.sessionsLive = true) := by
  have key := run_keeps_iff (step redisGet) (I := Safe) (F := fun t _ => t.server.chat.Fixed)
    (C := fun t a => t.Permits a) (fun t a hs h => safe_step redisGet hs h a) (s := start heap)
    (fun hl => by cases hl) as ?_
  · refine ⟨key, fun hC x hx hacc => ?_⟩
    have hsafe := (key.mpr hC).1 x hx
    by_contra hl
    have hl' := Bool.eq_false_iff.mpr hl
    unfold accesses at hacc
    split at hacc
    · obtain ⟨y, hy, hyacc⟩ := (Option.any_eq_true _ _).mp hacc
      rw [hsafe hl' y (List.mem_of_head? hy)] at hyacc
      cases hyacc
    · cases hacc
  · intro x hx
    obtain ⟨bs, cs, _, e⟩ := mem_hist (step redisGet) hx
    rw [e]
    exact run_fixed redisGet heap bs

end

/-- A state that is not safe is a defect already: the packet loop goes on to a deleted session. -/
theorem unsafe_accesses (redisGet : CStr → Option (List UInt8)) {t : Shutdown} (h : ¬ t.Safe) :
    ∃ n, ∃ x ∈ hist (step redisGet) t (List.replicate n (.server (.loop Mem.zero))),
      x.1.accesses x.2 = true ∧ x.1.main.sessionsLive = false := by
  unfold Safe at h
  push Not at h
  obtain ⟨hl, x, hx, hacc⟩ := h
  generalize hcalls : t.thread.calls = calls at hx
  induction calls generalizing t with
  | nil => cases hx
  | cons y calls ih =>
    have hpc : t.thread = .sendPacket (y :: calls) := by
      cases hth : t.thread with
      | sendPacket l =>
        rw [hth] at hcalls
        exact congrArg ThreadPc.sendPacket hcalls
      | _ =>
        rw [hth] at hcalls
        cases hcalls
    cases hy : y.accesses with
    | true =>
      refine ⟨1, (t, _), List.mem_cons_self, ?_, hl⟩
      show (t.thread.calls.head?).any Sent.accesses = true
      rw [hcalls]
      exact hy
    | false =>
      -- the head is skipped
      have hmem : x ∈ calls := by
        rcases List.mem_cons.mp hx with rfl | hx
        · exact absurd hy hacc
        · exact hx
      have hmain := t.threadStep_main Mem.zero
      have hnext : (t.threadStep Mem.zero).thread.calls = calls := by
        simp only [threadStep, hpc, goOn_calls, List.tail_cons]
      obtain ⟨n, z, hz, hrest⟩ := ih (t := t.threadStep Mem.zero) (by rw [hmain]; exact hl) hnext hmem
      exact ⟨n + 1, z, List.mem_cons_of_mem _ hz, hrest⟩

/-- Redis is asked about a login, and answers when the sessions have been deleted -/
def answersLate : List Action :=
  (Server.Action.receive 0 (loginPacket [97] [98]) ++ Server.Action.loops 6).map .server
    ++ List.replicate 6 .main
    ++ (Server.Action.redis ++ Server.Action.loops 5).map .server

theorem answered_too_late :
    ¬ ∀ x ∈ hist (step fun _ => none) (start fun _ _ => 0) (answersLate ++ [.server (.loop Mem.zero)]),
      x.1.accesses x.2 = true → x.1.main.sessionsLive = true := by
  intro h
  have hmem := split_mem_hist (step fun _ => none) (s := start fun _ _ => 0)
    (rfl : answersLate ++ [.server (.loop Mem.zero)] = answersLate ++ .server (.loop Mem.zero) :: [])
  have hacc : (run (step fun _ => none) (start fun _ _ => 0) answersLate).accesses (.server (.loop Mem.zero))
      = true := by
    decide +kernel
  have hdel : (run (step fun _ => none) (start fun _ _ => 0) answersLate).main.sessionsLive = false := by
    decide +kernel
  generalize run (step fun _ => none) (start fun _ _ => 0) answersLate = t at hmem hacc hdel
  have hlive := h (t, _) hmem hacc
  rw [hdel] at hlive
  cases hlive

end Shutdown

end Iocp
