import IocpChatting.Network.Faults
import IocpChatting.Lib.Census

/-!
# The terminate message

`Terminate` posts one message, and a worker that takes it posts it again before it returns.  A worker that
finds `is_worker_running_` cleared returns without one.

* `queued`, `holders`   the terminate messages in the port, and the workers that have one in hand;
* `step_messages`       a step keeps their number, unless it is the call of `PostTerminateMsg` itself;
* `one_terminator`      so after that call there is always one.  A worker that waits on an empty port waits
                        for another one that is about to post it, and the last worker leaves it in the port.
-/

set_option linter.unusedSectionVars false
set_option autoImplicit false

namespace Iocp
open Runs Census

namespace Network

variable {W : Nat} {s : Network W}

def Completion.isTerminate (c : Completion) : Bool := terminateMsg c.gqcsRet c.ioSize c.overlapped

/-- the worker has taken a terminate message and has not posted it again -/
def WorkerPc.holding : WorkerPc → Bool
  | .check c => c.isTerminate
  | .repost => true
  | _ => false

def queued (s : Network W) : Nat := s.port.countP Completion.isTerminate
def holders (s : Network W) : Nat := (Finset.univ.filter fun w => (s.worker w).holding = true).card

/-- all terminate messages -/
def messages (s : Network W) : ℤ :=
  waiting (fun c => mark (Completion.isTerminate c)) s.port ()
    + parties (fun pc => mark (WorkerPc.holding pc)) s.worker ()

theorem messages_eq (s : Network W) : s.messages = s.queued + s.holders := by
  unfold messages queued holders
  rw [waiting_mark, parties_mark]

theorem messages_congr {s' : Network W} (hp : s'.port = s.port) (hw : s'.worker = s.worker) :
    s'.messages = s.messages := by
  unfold messages
  rw [hp, hw]

theorem io_isTerminate (req : IoRequest) (ok : Bool) (n : Nat) :
    (Completion.io req ok n).isTerminate = false := by
  show terminateMsg ok n (some _) = false
  simp [terminateMsg]

theorem posted_isTerminate (n : Nat) : (Completion.posted n).isTerminate = (n == 0) := by
  show terminateMsg true n none = _
  simp [terminateMsg]

/-! ## steps -/

theorem messages_post (c : Completion) :
    (s.post c).messages = s.messages + if c.isTerminate then 1 else 0 := by
  have h := waiting_append (fun c => mark (Completion.isTerminate c)) s.port [c] ()
  rw [waiting_cons, waiting_nil, hit_mark] at h
  unfold messages
  show waiting _ (s.port ++ [c]) () + parties _ s.worker () = _
  rw [h]
  omega

theorem messages_deliver (req : IoRequest) (ok : Bool) (n : Nat) :
    (s.deliver req ok n).messages = s.messages := by
  unfold deliver
  split
  · rw [messages_post, io_isTerminate]
    show s.messages + 0 = _
    omega
  · rfl

theorem messages_complete (k : Nat) (ok : Bool) (n : Nat) : (s.complete k ok n).messages = s.messages := by
  unfold complete
  split
  · rfl
  · simp only
    split <;> exact messages_deliver _ _ _

/-- a worker moves -/
theorem messages_setWorker (w : Fin W) (pc : WorkerPc) :
    (s.setWorker w pc).messages = s.messages - (if (s.worker w).holding then 1 else 0)
      + if pc.holding then 1 else 0 := by
  have h := parties_update (fun pc => mark (WorkerPc.holding pc)) s.worker w pc ()
  rw [hit_mark, hit_mark] at h
  unfold messages
  show waiting _ s.port () + parties _ (Function.update s.worker w pc) () = _
  rw [h]
  omega

/-- from one place where it has no message to another -/
theorem messages_go {s' : Network W} {w : Fin W} {pc₀ pc : WorkerPc} (hpc : s.worker w = pc₀)
    (hp : s'.port = s.port) (hw : s'.worker = s.worker) (h₀ : pc₀.holding = false)
    (h : pc.holding = false) : (s'.setWorker w pc).messages = s.messages := by
  rw [messages_setWorker, hw, hpc, h₀, h, messages_congr hp hw]
  show s.messages - 0 + 0 = _
  omega

/-- `GetQueuedCompletionStatus`: what was in the port is in hand -/
theorem messages_take {w : Fin W} {c : Completion} {rest : List Completion} (hpc : s.worker w = .getQueued)
    (hport : s.port = c :: rest) :
    ({ s with port := rest }.setWorker w (.check c)).messages = s.messages := by
  have h : { s with port := rest }.messages = s.messages - if c.isTerminate then 1 else 0 := by
    unfold messages
    rw [hport, waiting_cons, hit_mark]
    show waiting _ rest () + parties _ s.worker () = _
    omega
  rw [messages_setWorker, h]
  show _ - (if (s.worker w).holding then 1 else 0) + (if c.isTerminate then 1 else 0) = _
  rw [hpc]
  show _ - 0 + _ = _
  omega

/-- and the other way round -/
theorem messages_repost {w : Fin W} (hpc : s.worker w = .repost) :
    ((s.post (.posted 0)).setWorker w .finished).messages = s.messages := by
  rw [messages_setWorker, messages_post]
  show s.messages + 1 - (if (s.worker w).holding then 1 else 0) + 0 = _
  rw [hpc]
  show s.messages + 1 - 1 + 0 = _
  omega

theorem messages_checkStep {w : Fin W} {c : Completion} (hpc : s.worker w = .check c) :
    (s.checkStep w c).messages = s.messages := by
  unfold checkStep
  by_cases h : terminateMsg c.gqcsRet c.ioSize c.overlapped = true
  · -- the worker keeps the message in hand
    rw [if_pos h, messages_setWorker, hpc]
    have e : (WorkerPc.check c).holding = true := h
    rw [e]
    show s.messages - 1 + 1 = _
    omega
  · have e : (WorkerPc.check c).holding = false := Bool.eq_false_iff.mpr h
    rw [if_neg h]
    split
    · split
      · rfl
      · exact messages_go hpc rfl rfl e rfl
    · split
      · exact messages_go hpc rfl rfl e rfl
      · exact messages_go hpc rfl rfl e rfl

theorem messages_dispatchStep {w : Fin W} {req : IoRequest} {n : Nat} (hpc : s.worker w = .dispatch req n) :
    (s.dispatchStep w req).messages = s.messages := by
  unfold dispatchStep
  split
  · split
    · rfl
    · exact messages_go hpc rfl rfl rfl rfl
  · split
    · rfl
    · exact messages_go hpc rfl rfl rfl rfl
  · split
    · rfl
    · exact messages_go hpc rfl rfl rfl rfl
  · exact messages_go hpc rfl rfl rfl rfl

theorem afterCall_holding (opening : Bool) : (afterCall opening).holding = false := by
  cases opening <;> rfl

theorem inClose_holding (i : SessionIdx) (opening : Bool) (pc : Option ClosePc) :
    (WorkerPc.inClose i opening pc).holding = false := by
  cases pc with
  | none => exact afterCall_holding opening
  | some pc => rfl

theorem messages_workerStep (w : Fin W) (ok : Bool) : (s.workerStep w ok).messages = s.messages := by
  cases hpc : s.worker w with
  | test =>
    simp only [workerStep, hpc]
    refine messages_go hpc rfl rfl rfl ?_
    split <;> rfl
  | getQueued =>
    simp only [workerStep, hpc]
    split
    · rfl
    · next hport => exact messages_take hpc hport
  | repost =>
    simp only [workerStep, hpc]
    exact messages_repost hpc
  | check c => rw [workerStep_check hpc, messages_checkStep hpc]
  | dispatch req n => rw [workerStep_dispatch hpc, messages_dispatchStep hpc]
  | bindIocp i =>
    simp only [workerStep, hpc]
    split
    · next e =>
      obtain ⟨sock, _, _, _, rfl⟩ := bindIOCompletionPort_eq_some e
      exact messages_go hpc rfl rfl rfl rfl
    · exact messages_go hpc rfl rfl rfl rfl
  | onConnect i | zeroRecv i | zeroSend i | setActivated i | clearBuffer i | setRecvOverlapped i opening
  | increment =>
    simp only [workerStep, hpc]
    exact messages_go hpc rfl rfl rfl rfl
  | wsaRecv i opening =>
    simp only [workerStep, hpc]
    split
    · next e =>
      obtain ⟨sock, _, _, rfl⟩ := wsaRecv_eq_some e
      exact messages_go hpc rfl rfl rfl (afterCall_holding opening)
    · exact messages_go hpc rfl rfl rfl rfl
  | close i pc opening =>
    simp only [workerStep, hpc]
    exact messages_go hpc (closeStep_port i pc) (closeStep_same i pc).2.worker rfl
      (inClose_holding i opening _)
  | finished => simp only [workerStep, hpc]

theorem messages_senderStep (result : SendResult) : (s.senderStep result).messages = s.messages := by
  cases hpc : s.sender with
  | test | hasSendData | setSendOverlapped | moveFront =>
    simp only [senderStep, hpc]
    rfl
  | bindSend i =>
    simp only [senderStep, hpc]
    split <;> rfl
  | wsaSend i bufs =>
    simp only [senderStep, hpc]
    split
    · next e =>
      obtain ⟨sock, _, ⟨_, rfl, _⟩ | ⟨m, _, _, rfl⟩⟩ := wsaSend_eq_some e
      · rfl
      · exact messages_deliver _ _ _
    · rfl
  | close i pc =>
    simp only [senderStep, hpc]
    exact messages_congr (closeStep_port i pc) (closeStep_same i pc).2.worker
  | finished => simp only [senderStep, hpc]

theorem messages_sendPacket (idx : Int) (data : List UInt8) :
    (s.sendPacket idx data).messages = s.messages := by
  unfold sendPacket
  split
  · rfl
  · split <;> rfl

/-- **Only `PostTerminateMsg` of `Terminate` makes a message.** -/
theorem step_messages {a : Action W} (ha : a ≠ .post 0) : (step s a).messages = s.messages := by
  unfold step
  split
  · rfl
  · cases a with
    | worker w ok => exact messages_workerStep w ok
    | accepter ok => exact messages_congr (accepterStep_port ok) (accepterStep_same ok).worker
    | sender result => exact messages_senderStep result
    | sendPacket idx data => exact messages_sendPacket idx data
    | complete k ok n => exact messages_complete k ok n
    | post n =>
      have hn : (n == 0) = false := by
        rw [beq_eq_false_iff_ne]
        rintro rfl
        exact ha rfl
      show (s.post (.posted n)).messages = _
      rw [messages_post, posted_isTerminate, hn]
      show s.messages + 0 = _
      omega
    | tick | stopWorkers | stopAccepter | stopSender => rfl

/-! ## runs -/

theorem run_messages {as : List (Action W)} (has : ∀ a ∈ as, a ≠ .post 0) :
    (run step s as).messages = s.messages := by
  induction as generalizing s with
  | nil => rfl
  | cons a as ih =>
    rw [run_cons, ih fun b hb => has b (List.mem_cons_of_mem _ hb)]
    exact step_messages (has a List.mem_cons_self)

theorem start_messages (heap : SessionIdx → Fin kDefaultRingBufferSize → UInt8) (clock : Seconds) :
    (start W heap clock).messages = 0 := by
  have h : parties (fun pc => mark (WorkerPc.holding pc)) (start W heap clock).worker () = 0 :=
    parties_eq_zero _ fun _ h => nomatch h
  unfold messages
  rw [h]
  rfl

theorem workerStep_repost {w : Fin W} (hpc : s.worker w = .repost) (ok : Bool) :
    s.workerStep w ok = (s.post (.posted 0)).setWorker w .finished := by simp only [workerStep, hpc]

/-- a worker that has the message posts it within two steps -/
theorem holding_posts {w : Fin W} (hw : (s.worker w).holding = true) (hc : s.crashed = false)
    (ok ok' : Bool) :
    .posted 0 ∈ (step (step s (.worker w ok)) (.worker w ok')).port := by
  cases hpc : s.worker w with
  | check c =>
    rw [hpc] at hw
    have e : s.workerStep w ok = s.setWorker w .repost := by
      rw [workerStep_check hpc]
      exact if_pos hw
    have hc' : (s.setWorker w .repost).crashed = false := hc
    rw [step_workerStep hc, e, step_workerStep hc', workerStep_repost (Function.update_self ..)]
    exact List.mem_append_right _ List.mem_cons_self
  | repost =>
    have hc' : ((s.post (.posted 0)).setWorker w .finished).crashed = false := hc
    have hpc' : ((s.post (.posted 0)).setWorker w .finished).worker w = .finished := Function.update_self ..
    rw [step_workerStep hc, workerStep_repost hpc, step_workerStep hc']
    simp only [workerStep, hpc']
    exact List.mem_append_right _ List.mem_cons_self
  | _ =>
    rw [hpc] at hw
    cases hw

section
variable (heap : SessionIdx → Fin kDefaultRingBufferSize → UInt8) (clock : Seconds)

/-- **After `Terminate` has posted its message there is always one**: in the port, or in the hand of a
worker.  So whoever waits on an empty port waits for another worker, and the last one leaves the message
in the port. -/
theorem one_terminator (as bs : List (Action W)) (has : ∀ a ∈ as, a ≠ .post 0) (hbs : ∀ a ∈ bs, a ≠ .post 0)
    (hc : (run step (start W heap clock) (as ++ .post 0 :: bs)).crashed = false) :
    (run step (start W heap clock) (as ++ .post 0 :: bs)).queued
        + (run step (start W heap clock) (as ++ .post 0 :: bs)).holders = 1 ∧
      (∀ w, (run step (start W heap clock) (as ++ .post 0 :: bs)).worker w = .getQueued →
        (run step (start W heap clock) (as ++ .post 0 :: bs)).port = [] →
          ∃ w', w' ≠ w ∧ ((run step (start W heap clock) (as ++ .post 0 :: bs)).worker w').holding = true ∧
            ∀ ok ok', .posted 0 ∈
              (step (step (run step (start W heap clock) (as ++ .post 0 :: bs)) (.worker w' ok))
                (.worker w' ok')).port) ∧
      ((∀ w, (run step (start W heap clock) (as ++ .post 0 :: bs)).worker w = .finished) →
        (run step (start W heap clock) (as ++ .post 0 :: bs)).queued = 1) := by
  have hone : (run step (start W heap clock) (as ++ .post 0 :: bs)).messages = 1 := by
    have hc' : (run step (start W heap clock) as).crashed = false := by
      by_contra h
      rw [run_append, crashed_run ((Bool.not_eq_false _).mp h)] at hc
      cases hc
    rw [run_append, run_cons, run_messages hbs]
    generalize hs : run step (start W heap clock) as = s at hc' ⊢
    have e : step s (.post 0) = s.post (.posted 0) := by
      simp only [step, hc', Bool.false_eq_true, if_false]
    rw [e, messages_post, posted_isTerminate, ← hs, run_messages has, start_messages]
    rfl
  generalize run step (start W heap clock) (as ++ .post 0 :: bs) = s at hone hc ⊢
  rw [messages_eq] at hone
  refine ⟨by omega, fun w hw hport => ?_, fun hall => ?_⟩
  · have hq : s.queued = 0 := by
      unfold queued
      rw [hport]
      rfl
    have hpos : 0 < s.holders := by omega
    obtain ⟨w', hw'⟩ := Finset.card_pos.mp hpos
    have hhold : (s.worker w').holding = true := (Finset.mem_filter.mp hw').2
    refine ⟨w', ?_, hhold, holding_posts hhold hc⟩
    rintro rfl
    rw [hw] at hhold
    cases hhold
  · have hnone : s.holders = 0 := by
      refine Finset.card_eq_zero.mpr (Finset.filter_eq_empty_iff.mpr fun w _ => ?_)
      rw [hall w]
      exact Bool.false_ne_true
    omega

end

/-- two workers, and the first one has just taken the message -/
def oneTakes : List (Action 2) :=
  [.worker 0 true, .worker 1 true] ++ .post 0 :: [.stopWorkers, .worker 0 true]

theorem one_terminator_oneTakes :
    (run step (start 2 (fun _ _ => 0) 0) oneTakes).queued
      + (run step (start 2 (fun _ _ => 0) 0) oneTakes).holders = 1 :=
  (one_terminator (fun _ _ => 0) 0 [.worker 0 true, .worker 1 true] [.stopWorkers, .worker 0 true]
    (by decide) (by decide) (by decide +kernel)).1

/-- and the second one waits on an empty port -/
theorem waits_on_empty_port :
    ¬ ∀ w, ¬ ((run step (start 2 (fun _ _ => 0) 0) oneTakes).worker w = .getQueued ∧
      (run step (start 2 (fun _ _ => 0) 0) oneTakes).port = []) := by
  intro h
  exact h 1 (by decide +kernel)

end Network

end Iocp
