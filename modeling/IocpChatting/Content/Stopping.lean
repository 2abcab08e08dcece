import IocpChatting.Content.Steps

/-!
# `PacketManager::Start` and `Terminate` (Content/packet_manager.cpp)

`Terminate` clears `is_thread_running_` and joins the packet thread.  The flag is raised by the packet thread,
in its first statement, and not by `Run`, which starts it.

* `Stopping`           the server with a caller of `Start`, a caller of `Terminate` and the packet thread;
* `Begun`              the packet thread has made its first statement;
* `Kept`               the flag stays down, the loop ends at its next test, and the join returns;
* `kept_run_iff`       a stop request is kept exactly if the packet thread has begun when it is made;
* `Lost`, `lost_run`   a flag raised after the last store stays up, and the join waits for ever.
-/

set_option linter.unusedSectionVars false
set_option autoImplicit false

namespace Iocp
open Runs

namespace LoopPc

/-- the statements of the body from here to the test of the loop, at most -/
def left : LoopPc → Nat
  | .dequeuePacket => 8
  | .processPacket _ => 7
  | .completeProcess _ => 6
  | .pushIndex _ => 5
  | .dequeueSystemPacket => 4
  | .processSystemPacket _ => 3
  | .getTaskRes => 2
  | .processTaskRes _ => 1

theorem left_pos (pc : LoopPc) : 0 < pc.left := by
  cases pc <;> exact Nat.succ_pos _

theorem left_le (pc : LoopPc) : pc.left ≤ 8 := by
  cases pc <;> exact Nat.le_of_ble_eq_true rfl

end LoopPc

namespace Stopping

/-- the statement of `Start` that starts the thread; what `Init` writes is there from the start -/
inductive StartPc where
  | run
  | returned
deriving DecidableEq, Repr

/-- the statements of `Terminate`, with those of the functions that it calls -/
inductive TerminatePc where
  | stopRedis
  | joinRedis
  | stopThread
  /-- the first statement of `DestroyPacketProcessThread` stores the flag once more -/
  | stopAgain
  | joinThread
  | returned
deriving DecidableEq, Repr

/-- where `PacketProcessThread` stands: `body` is the statement `Server.pc` -/
inductive ThreadPc where
  | notStarted
  | raiseFlag
  | test
  | body
  | finished
deriving DecidableEq, Repr

end Stopping

structure Stopping where
  server : Server
  isThreadRunning : Bool
  starter : Stopping.StartPc
  terminator : Stopping.TerminatePc
  thread : Stopping.ThreadPc

namespace Stopping

def start (heap : Session → Fin kDefaultRingBufferSize → UInt8) : Stopping where
  server := Server.start heap
  isThreadRunning := false
  starter := .run
  terminator := .stopRedis
  thread := .notStarted

inductive Action where
  | starter
  | terminator
  | server (a : Server.Action)

def starterStep (t : Stopping) : Stopping :=
  match t.starter with
  | .run => { t with thread := .raiseFlag, starter := .returned }
  | .returned => t

/-- the next statement of `Terminate`; a `join` waits -/
def terminatorStep (t : Stopping) : Stopping :=
  match t.terminator with
  | .stopRedis => { t with terminator := .joinRedis }
  | .joinRedis => if t.server.workers.isEmpty then { t with terminator := .stopThread } else t
  | .stopThread => { t with isThreadRunning := false, terminator := .stopAgain }
  | .stopAgain => { t with isThreadRunning := false, terminator := .joinThread }
  | .joinThread =>
    match t.thread with
    -- a thread that has not been started is not `joinable`
    | .notStarted | .finished => { t with terminator := .returned }
    | .raiseFlag | .test | .body => t
  | .returned => t

/-- the next statement of `PacketProcessThread` -/
def threadStep (t : Stopping) (mem : Mem) : Stopping :=
  match t.thread with
  | .notStarted => t
  | .raiseFlag => { t with isThreadRunning := true, thread := .test }
  | .test => { t with thread := if t.isThreadRunning then .body else .finished }
  | .body =>
    let s := t.server.loopStep mem
    { t with server := s, thread := if s.pc = .dequeuePacket then .test else .body }
  | .finished => t

/-- the Redis workers have not been joined -/
def redisRuns (t : Stopping) : Bool := t.terminator = .stopRedis ∨ t.terminator = .joinRedis

section
variable (redisGet : CStr → Option (List UInt8))

def step (t : Stopping) : Action → Stopping
  | .starter => t.starterStep
  | .terminator => t.terminatorStep
  | .server a =>
    match a with
    | .loop mem => t.threadStep mem
    | .redisTake | .redisPut .. =>
      if t.redisRuns then { t with server := t.server.step redisGet a } else t
    | .onConnect _ | .onDisconnect _ | .onRecv .. | .pushIndex _ =>
      { t with server := t.server.step redisGet a }

end

/-! ## what is asked of a stop request -/

/-- a step of the packet thread -/
def Action.ofThread : Action → Bool
  | .server (.loop _) => true
  | _ => false

/-- the step stores false, the first time `Terminate` does -/
def Stops (t : Stopping) (a : Action) : Prop := a = .terminator ∧ t.terminator = .stopThread

instance (t : Stopping) : (a : Action) → Decidable (t.Stops a)
  | .starter => .isFalse fun h => by cases h.1
  | .terminator => decidable_of_iff (t.terminator = .stopThread) ⟨fun h => ⟨rfl, h⟩, And.right⟩
  | .server _ => .isFalse fun h => by cases h.1

/-- **The condition.**  The packet thread has made its first statement. -/
def Begun (t : Stopping) : Prop := t.thread = .test ∨ t.thread = .body ∨ t.thread = .finished

instance (t : Stopping) : Decidable t.Begun := inferInstanceAs (Decidable (_ ∨ _ ∨ _))

/-- the packet thread makes at most nine statements before it ends -/
abbrev turnLength : Nat := 9

section
variable (redisGet : CStr → Option (List UInt8))

/-- what holds of every state `u` that may come after a stop request, `as` being the steps up to it -/
structure Stopped (as : List Action) (u : Stopping) : Prop where
  flag : u.isThreadRunning = false
  next_test : ∀ mem, u.thread = .test → (u.threadStep mem).thread = .finished
  ends : turnLength ≤ as.countP Action.ofThread → u.thread = .finished
  join : u.thread = .finished → u.terminator = .joinThread → u.terminatorStep.terminator = .returned

/-- no step to come raises the flag, and the join does not wait for ever -/
def Kept (t : Stopping) : Prop := ∀ as, Stopped as (run (step redisGet) t as)

end

/-! ## steps -/

/-- how many statements the packet thread has still to make, with the flag down -/
def rank (t : Stopping) : Nat :=
  match t.thread with
  | .notStarted | .raiseFlag | .finished => 0
  | .test => 1
  | .body => t.server.pc.left + 1

theorem LoopPc.ran_left {pc : LoopPc} {x : Source × PacketInfo} (h : pc.packet = some x) :
    pc.ran = .dequeuePacket ∨ pc.ran.left < pc.left := by
  cases pc with
  | processPacket | processSystemPacket => exact .inr (Nat.lt_succ_self _)
  | processTaskRes => exact .inl rfl
  | _ => cases h

theorem LoopPc.skipped_left {pc : LoopPc} {x : Source × PacketInfo} (h : pc.packet = some x) :
    pc.skipped = .dequeuePacket ∨ pc.skipped.left < pc.left := by
  cases pc with
  | processPacket => exact .inr (Nat.le_of_ble_eq_true rfl)
  | processSystemPacket => exact .inr (Nat.lt_succ_self _)
  | processTaskRes => exact .inl rfl
  | _ => cases h

/-- the body goes down, statement by statement, to the test -/
theorem loopStep_left (s : Server) (mem : Mem) :
    (s.loopStep mem).pc = .dequeuePacket ∨ (s.loopStep mem).pc.left < s.pc.left := by
  have h := Server.loop_effect (fun _ => none) s mem
  generalize s.loopStep mem = s' at h
  cases h with
  | noIndex hpc hq => exact .inr (by rw [hpc]; exact Nat.le_of_ble_eq_true rfl)
  | noPacket hpc hq hi => exact .inr (by rw [hpc]; exact Nat.le_of_ble_eq_true rfl)
  | dequeue hpc hq hi hp => exact .inr (by rw [hpc]; exact Nat.lt_succ_self _)
  | call hk => exact LoopPc.ran_left (Server.call_spec hk).2.1
  | skip hpc hid => exact LoopPc.skipped_left hpc
  | complete hpc =>
    right
    rw [hpc]
    split
    · exact Nat.lt_succ_self _
    · exact Nat.le_of_ble_eq_true rfl
  | repush hpc => exact .inr (by rw [hpc]; exact Nat.lt_succ_self _)
  | noSystem hpc hq => exact .inr (by rw [hpc]; exact Nat.le_of_ble_eq_true rfl)
  | system hpc hq => exact .inr (by rw [hpc]; exact Nat.lt_succ_self _)
  | noTask hpc hq => exact .inl rfl
  | task hpc hq => exact .inr (by rw [hpc]; exact Nat.lt_succ_self _)

section
variable (redisGet : CStr → Option (List UInt8))

/-- nobody else moves the packet thread -/
theorem server_step_pc (s : Server) {a : Server.Action} (h : (Action.server a).ofThread = false) :
    (s.step redisGet a).pc = s.pc := by
  have heff := Server.step_effect redisGet s a
  generalize s.step redisGet a = s' at heff
  cases a with
  | loop mem => cases h
  | _ => cases heff <;> rfl

/-- everything that can happen in a step from `t` -/
inductive Moves (t : Stopping) : Action → Stopping → Prop
  | idle {a : Action} (h : a.ofThread = false) : Moves t a t
  | started (h : t.starter = .run) :
      Moves t .starter { t with thread := .raiseFlag, starter := .returned }
  | others {b : Server.Action} {s : Server} (hb : (Action.server b).ofThread = false)
      (hpc : s.pc = t.server.pc) : Moves t (.server b) { t with server := s }
  | redisStopped (h : t.terminator = .stopRedis) : Moves t .terminator { t with terminator := .joinRedis }
  | redisJoined (h : t.terminator = .joinRedis) : Moves t .terminator { t with terminator := .stopThread }
  | stop (h : t.terminator = .stopThread) :
      Moves t .terminator { t with isThreadRunning := false, terminator := .stopAgain }
  | stopAgain (h : t.terminator = .stopAgain) :
      Moves t .terminator { t with isThreadRunning := false, terminator := .joinThread }
  | joined (h : t.terminator = .joinThread) (hd : t.thread = .notStarted ∨ t.thread = .finished) :
      Moves t .terminator { t with terminator := .returned }
  | noThread {mem : Mem} (h : t.thread = .notStarted ∨ t.thread = .finished) :
      Moves t (.server (.loop mem)) t
  | raised {mem : Mem} (h : t.thread = .raiseFlag) :
      Moves t (.server (.loop mem)) { t with isThreadRunning := true, thread := .test }
  | goOn {mem : Mem} (h : t.thread = .test) (hf : t.isThreadRunning = true) :
      Moves t (.server (.loop mem)) { t with thread := .body }
  | exit {mem : Mem} (h : t.thread = .test) (hf : t.isThreadRunning = false) :
      Moves t (.server (.loop mem)) { t with thread := .finished }
  | body {mem : Mem} (h : t.thread = .body) :
      Moves t (.server (.loop mem)) { t with
        server := t.server.loopStep mem
        thread := if (t.server.loopStep mem).pc = .dequeuePacket then .test else .body }

theorem starter_moves (t : Stopping) : Moves t .starter t.starterStep := by
  unfold starterStep
  cases h : t.starter with
  | run => exact .started h
  | returned => exact .idle rfl

theorem terminator_moves (t : Stopping) : Moves t .terminator t.terminatorStep := by
  unfold terminatorStep
  cases h : t.terminator with
  | stopRedis => exact .redisStopped h
  | joinRedis =>
    simp only
    split
    · exact .redisJoined h
    · exact .idle rfl
  | stopThread => exact .stop h
  | stopAgain => exact .stopAgain h
  | joinThread =>
    simp only
    split
    · next ht => exact .joined h (.inl ht)
    · next ht => exact .joined h (.inr ht)
    all_goals exact .idle rfl
  | returned => exact .idle rfl

theorem thread_moves (t : Stopping) (mem : Mem) : Moves t (.server (.loop mem)) (t.threadStep mem) := by
  unfold threadStep
  cases h : t.thread with
  | notStarted => exact .noThread (.inl h)
  | raiseFlag => exact .raised h
  | test =>
    simp only
    split
    · next hf => exact .goOn h hf
    · next hf => exact .exit h (Bool.eq_false_iff.mpr hf)
  | body => exact .body h
  | finished => exact .noThread (.inr h)

theorem step_moves (t : Stopping) (a : Action) : Moves t a (step redisGet t a) := by
  cases a with
  | starter => exact t.starter_moves
  | terminator => exact t.terminator_moves
  | server b =>
    have hothers (hb : (Action.server b).ofThread = false) :
        Moves t (.server b) { t with server := t.server.step redisGet b } :=
      .others hb (server_step_pc redisGet t.server hb)
    cases b with
    | loop mem => exact t.thread_moves mem
    | redisTake | redisPut k mem =>
      simp only [step]
      split
      · exact hothers rfl
      · exact .idle rfl
    | onConnect j | onDisconnect j | onRecv j data | pushIndex j => exact hothers rfl

/-! ## after a stop request -/

/-- the flag is down, and the packet thread is past the statement that raises it -/
structure Halting (t : Stopping) : Prop where
  flag : t.isThreadRunning = false
  begun : t.Begun
  started : t.starter = .returned

theorem step_halting {t : Stopping} (h : t.Halting) (a : Action) : (step redisGet t a).Halting := by
  have hm := step_moves redisGet t a
  generalize step redisGet t a = u at hm
  cases hm with
  | started hs => exact absurd (h.started.symm.trans hs) StartPc.noConfusion
  | raised ht => exact absurd h.begun (by simp [Begun, ht])
  | goOn ht hf => exact absurd (h.flag.symm.trans hf) Bool.noConfusion
  | stop | stopAgain => exact ⟨rfl, h.begun, h.started⟩
  | exit ht hf => exact ⟨h.flag, .inr (.inr rfl), h.started⟩
  | body ht =>
    refine ⟨h.flag, ?_, h.started⟩
    unfold Begun
    split
    · exact .inl rfl
    · exact .inr (.inl rfl)
  | idle | others | redisStopped | redisJoined | joined | noThread =>
    exact ⟨h.flag, h.begun, h.started⟩

theorem run_halting {t : Stopping} (h : t.Halting) (as : List Action) :
    (run (step redisGet) t as).Halting :=
  run_keeps_all (I := Halting) _ (fun _ a ht => step_halting redisGet ht a) h as

theorem rank_le (t : Stopping) : t.rank ≤ turnLength := by
  have hleft := t.server.pc.left_le
  show t.rank ≤ 9
  unfold rank
  split <;> omega

theorem rank_eq_zero {t : Stopping} (h : t.Halting) (h0 : t.rank = 0) : t.thread = .finished := by
  rcases h.begun with ht | ht | ht
  · simp [rank, ht] at h0
  · simp [rank, ht] at h0
  · exact ht

theorem rank_body {t : Stopping} (h : t.thread = .body) : t.rank = t.server.pc.left + 1 := by
  simp only [rank, h]

/-- the statements of the packet thread bring it to its end -/
theorem thread_rank {t : Stopping} (h : t.Halting) (mem : Mem) : (t.threadStep mem).rank ≤ t.rank - 1 := by
  have hm := t.thread_moves mem
  generalize t.threadStep mem = u at hm
  cases hm with
  | idle ha => cases ha
  | others hb => cases hb
  | noThread ht =>
    rcases ht with ht | ht
    · exact absurd h.begun (by simp [Begun, ht])
    · simp [rank, ht]
  | raised ht => exact absurd h.begun (by simp [Begun, ht])
  | goOn ht hf => exact absurd (h.flag.symm.trans hf) Bool.noConfusion
  | exit ht hf => exact Nat.zero_le _
  | body ht =>
    have hpos := t.server.pc.left_pos
    rw [rank_body ht, Nat.add_sub_cancel]
    rcases loopStep_left t.server mem with hpc | hlt
    · rw [if_pos hpc]
      exact hpos
    · split
      · exact hpos
      · exact hlt

theorem others_rank {t : Stopping} (h : t.Halting) {a : Action} (ha : a.ofThread = false) :
    (step redisGet t a).rank = t.rank := by
  have hm := step_moves redisGet t a
  generalize step redisGet t a = u at hm
  cases hm with
  | started hs => exact absurd (h.started.symm.trans hs) StartPc.noConfusion
  | others hb hpc =>
    unfold rank
    simp only [hpc]
  | idle | redisStopped | redisJoined | stop | stopAgain | joined => rfl
  | noThread | raised | goOn | exit | body => cases ha

/-- the packet thread ends, however the others come in between -/
theorem halting_ends {t : Stopping} (h : t.Halting) (as : List Action)
    (hlong : turnLength ≤ as.countP Action.ofThread) : (run (step redisGet) t as).thread = .finished := by
  have hrank := run_rank (I := Halting) (step redisGet) Action.ofThread rank
    (fun _ a ht => step_halting redisGet ht a)
    (fun t a ht ha => by
      cases a with
      | server b =>
        cases b with
        | loop mem => exact thread_rank ht mem
        | _ => cases ha
      | _ => cases ha)
    (fun t a ht ha => Nat.le_of_eq (others_rank redisGet ht ha)) h as
  have hle := t.rank_le
  exact rank_eq_zero (run_halting redisGet h as) (by omega)

theorem halting_kept {t : Stopping} (h : t.Halting) : Kept redisGet t := by
  intro as
  have hu := run_halting redisGet h as
  constructor
  · exact hu.flag
  · intro mem ht
    simp [threadStep, ht, hu.flag]
  · exact halting_ends redisGet h as
  · intro ht hj
    simp [terminatorStep, hj, ht]

/-! ## before the first statement of the packet thread -/

/-- the packet thread, or its start, is still to come -/
theorem not_kept {t : Stopping} (h : t.thread = .raiseFlag ∨ t.thread = .notStarted ∧ t.starter = .run) :
    ¬ Kept redisGet t := by
  intro hk
  rcases h with ht | ⟨_, hs⟩
  · have hflag := (hk [.server (.loop Mem.zero)]).flag
    simp [step, threadStep, ht] at hflag
  · have hflag := (hk [.starter, .server (.loop Mem.zero)]).flag
    simp [step, starterStep, threadStep, hs] at hflag

/-- the packet thread is there exactly if `Start` has started it -/
def Started (t : Stopping) : Prop := t.thread = .notStarted ↔ t.starter = .run

theorem Started.returned {t : Stopping} (h : t.Started) (hne : t.thread ≠ .notStarted) :
    t.starter = .returned := by
  cases hs : t.starter with
  | run => exact absurd (h.mpr hs) hne
  | returned => rfl

theorem step_started {t : Stopping} (h : t.Started) (a : Action) : (step redisGet t a).Started := by
  have hm := step_moves redisGet t a
  generalize step redisGet t a = u at hm
  have hthere (hne : t.thread ≠ .notStarted) {u : Stopping} (hu : u.thread ≠ .notStarted)
      (hs : u.starter = t.starter) : u.Started := by
    refine iff_of_false hu ?_
    rw [hs, h.returned hne]
    exact StartPc.noConfusion
  cases hm with
  | started hs => exact iff_of_false ThreadPc.noConfusion StartPc.noConfusion
  | idle | others | redisStopped | redisJoined | stop | stopAgain | joined | noThread => exact h
  | raised ht | goOn ht hf | exit ht hf =>
    exact hthere (by rw [ht]; exact ThreadPc.noConfusion) ThreadPc.noConfusion rfl
  | body ht =>
    refine hthere (by rw [ht]; exact ThreadPc.noConfusion) ?_ rfl
    simp only
    split
    · exact ThreadPc.noConfusion
    · exact ThreadPc.noConfusion

theorem stop_kept_iff {t : Stopping} {a : Action} (h : t.Started) (hs : t.Stops a) :
    Kept redisGet (step redisGet t a) ↔ t.Begun := by
  obtain ⟨rfl, hpc⟩ := hs
  have e : step redisGet t .terminator
      = { t with isThreadRunning := false, terminator := .stopAgain } := by
    show t.terminatorStep = _
    simp only [terminatorStep, hpc]
  rw [e]
  constructor
  · intro hk
    by_contra hno
    refine not_kept redisGet ?_ hk
    cases ht : t.thread with
    | notStarted => exact .inr ⟨rfl, h.mp ht⟩
    | raiseFlag => exact .inl rfl
    | test => exact absurd (.inl ht) hno
    | body => exact absurd (.inr (.inl ht)) hno
    | finished => exact absurd (.inr (.inr ht)) hno
  · intro hb
    refine halting_kept redisGet ⟨rfl, hb, h.returned ?_⟩
    rintro ht
    simp [Begun, ht] at hb

/-- **Stop requests.**  A request is kept exactly if the packet thread has made its first statement when the
flag is cleared. -/
theorem kept_run_iff (heap : Session → Fin kDefaultRingBufferSize → UInt8) (as : List Action) :
    (∀ x ∈ hist (step redisGet) (start heap) as, x.1.Stops x.2 → Kept redisGet (step redisGet x.1 x.2)) ↔
      ∀ x ∈ hist (step redisGet) (start heap) as, x.1.Stops x.2 → x.1.Begun := by
  have hstart : (start heap).Started := iff_of_true rfl rfl
  have hall := hist_keeps_all (I := Started) (step redisGet)
    (fun _ a ht => step_started redisGet ht a) hstart as
  exact forall₂_congr fun x hx => forall_congr' fun hs => stop_kept_iff redisGet (hall x hx) hs

/-! ## a stop request that is lost -/

/-- the flag is up again, and `Terminate` has stored false for the last time -/
structure Lost (t : Stopping) : Prop where
  flag : t.isThreadRunning = true
  running : t.thread = .test ∨ t.thread = .body
  joining : t.terminator = .joinThread
  started : t.starter = .returned

theorem step_lost {t : Stopping} (h : t.Lost) (a : Action) : (step redisGet t a).Lost := by
  have hm := step_moves redisGet t a
  generalize step redisGet t a = u at hm
  cases hm with
  | idle | others => exact ⟨h.flag, h.running, h.joining, h.started⟩
  | started hs => exact absurd (h.started.symm.trans hs) StartPc.noConfusion
  | redisStopped hpc | redisJoined hpc | stop hpc | stopAgain hpc =>
    exact absurd (h.joining.symm.trans hpc) TerminatePc.noConfusion
  | joined hpc hd =>
    rcases h.running with ht | ht <;> simp [ht] at hd
  | noThread hd =>
    rcases h.running with ht | ht <;> simp [ht] at hd
  | raised hd =>
    rcases h.running with ht | ht <;> simp [ht] at hd
  | goOn ht hf => exact ⟨h.flag, .inr rfl, h.joining, h.started⟩
  | exit ht hf => exact absurd (h.flag.symm.trans hf) Bool.noConfusion
  | body ht =>
    refine ⟨h.flag, ?_, h.joining, h.started⟩
    simp only
    split
    · exact .inl rfl
    · exact .inr rfl

/-- the loop goes on, and `Terminate` waits for it for ever -/
theorem lost_run {t : Stopping} (h : t.Lost) (as : List Action) : (run (step redisGet) t as).Lost :=
  run_keeps_all (I := Lost) _ (fun _ a ht => step_lost redisGet ht a) h as

end

/-- `Start` and `Terminate` one after the other, before the packet thread gets to run -/
def lateThread : List Action :=
  [.starter, .terminator, .terminator, .terminator, .terminator, .server (.loop Mem.zero)]

/-- the flag is down after the store of `Terminate`; the first statement of the packet thread raises it, and the
join never returns -/
theorem stop_request_lost :
    (run (step fun _ => none) (start fun _ _ => 0) (lateThread.take 4)).terminator = .stopAgain ∧
      (run (step fun _ => none) (start fun _ _ => 0) (lateThread.take 4)).isThreadRunning = false ∧
      (run (step fun _ => none) (start fun _ _ => 0) lateThread).isThreadRunning = true ∧
      ∀ as, (run (step fun _ => none) (run (step fun _ => none) (start fun _ _ => 0) lateThread) as).terminator
        = .joinThread :=
  ⟨rfl, rfl, rfl, fun as => (lost_run _ ⟨rfl, .inl rfl, rfl, rfl⟩ as).joining⟩

end Stopping

end Iocp
