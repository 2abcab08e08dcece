import IocpChatting.Network.Steps

/-!
# Null pointers

The `Session*` of a completion is its key, and the key of the listen socket is 0.

* `Sound`               what is always so: every accept that is under way has its `OverlappedEx` filled
                        in, and the other two never say `kACCEPT`;
* `no_crash_run_iff`    exactly when no worker follows a null `Session*`.
-/

set_option linter.unusedSectionVars false
set_option autoImplicit false

namespace Iocp
open Runs

namespace Network

variable {W : Nat} {s : Network W} {req : IoRequest}

/-! ## what is always so -/

/-- the `OverlappedEx` of the accept of `i` is filled in -/
def AcceptReady (s : Network W) (i : SessionIdx) : Prop :=
  (s.session i).acceptOverlapped = ⟨(i : Nat), .accept⟩

structure Sound (s : Network W) : Prop where
  index : ∀ i, (s.session i).index = (i : Nat)
  recvType : ∀ i, (s.session i).recvOverlapped.opType ≠ .send ∧
    (s.session i).recvOverlapped.opType ≠ .accept
  sendType : ∀ i, (s.session i).sendOverlapped.opType ≠ .recv ∧
    (s.session i).sendOverlapped.opType ≠ .accept
  acceptEx : ∀ t i, s.accepter = .acceptEx t i → s.AcceptReady i
  accepts : ∀ req, s.Holds req → req.op = .accept → s.AcceptReady req.session

theorem start_sound (W : Nat) (heap : SessionIdx → Fin kDefaultRingBufferSize → UInt8)
    (clock : Seconds) : (start W heap clock).Sound where
  index _ := rfl
  recvType _ := ⟨by simp [start, Session.init, OverlappedEx.zero],
    by simp [start, Session.init, OverlappedEx.zero]⟩
  sendType _ := ⟨by simp [start, Session.init, OverlappedEx.zero],
    by simp [start, Session.init, OverlappedEx.zero]⟩
  acceptEx t i h := by cases h
  accepts req h := by
    rcases h with h | ⟨c, h, _⟩ | ⟨w, h⟩
    · cases h
    · cases h
    · cases h

theorem Writes.index {a : Action W} {i : SessionIdx} {y : Session} (h : s.Writes a i y) :
    y.index = (s.session i).index := by
  cases h <;> rfl

theorem Writes.acceptOverlapped {a : Action W} {i : SessionIdx} {y : Session} (h : s.Writes a i y) :
    y.acceptOverlapped = (s.session i).acceptOverlapped ∨
      y.acceptOverlapped = ⟨(s.session i).index, .accept⟩ := by
  cases h with
  | accept => exact .inr rfl
  | _ => exact .inl rfl

theorem acceptReady_step (hs : s.Sound) {i : SessionIdx} (h : s.AcceptReady i) (a : Action W) :
    (step s a).AcceptReady i := by
  rcases (step_writes (s := s) a i).acceptOverlapped with e | e
  · exact e.trans h
  · rw [hs.index] at e
    exact e

theorem acceptReady_set (hs : s.Sound) (i : SessionIdx) :
    (s.modify i (·.setAcceptOverlapped)).AcceptReady i := by
  unfold AcceptReady
  rw [modify_self, Session.setAcceptOverlapped, hs.index]

theorem nextAccept_eq (t : Seconds) (i : SessionIdx) :
    nextAccept t i = .test ∨ ∃ j, nextAccept t i = .readActivated t j := by
  unfold nextAccept
  cases nextIdx i with
  | none => exact .inl rfl
  | some j => exact .inr ⟨j, rfl⟩

theorem nextAccept_ne_acceptEx {t t' : Seconds} {i j : SessionIdx} :
    nextAccept t i ≠ .acceptEx t' j := by
  rcases nextAccept_eq t i with e | ⟨k, e⟩
  · rw [e]
    simp
  · rw [e]
    simp

/-- the accepter comes to `AcceptEx` from `SetAcceptOverlapped` only -/
theorem accepterStep_acceptEx {ok : Bool} {t : Seconds} {i : SessionIdx}
    (h : (s.accepterStep ok).accepter = .acceptEx t i) : s.accepter = .setAcceptOverlapped t i := by
  cases hpc : s.accepter with
  | setAcceptOverlapped t' j =>
    simp only [accepterStep, hpc] at h
    cases h
    rfl
  | test =>
    simp only [accepterStep, hpc] at h
    split at h <;> cases h
  | readClock | bindAccept =>
    simp only [accepterStep, hpc] at h
    cases h
  | finished =>
    simp only [accepterStep, hpc] at h
    cases h
  | readActivated | compareClosed | diffClosed =>
    simp only [accepterStep, hpc] at h
    split at h
    · exact absurd h nextAccept_ne_acceptEx
    · cases h
  | createSocket =>
    simp only [accepterStep, hpc] at h
    split at h
    · cases h
    · exact absurd h nextAccept_ne_acceptEx
  | acceptEx t' j =>
    simp only [accepterStep, hpc] at h
    exact absurd h nextAccept_ne_acceptEx

theorem issued_accept {a : Action W} (h : s.issued a = some req) (hop : req.op = .accept) :
    ∃ t, s.accepter = .acceptEx t req.session := by
  unfold issued at h
  cases a with
  | worker w ok =>
    simp only at h
    split at h
    · split at h
      · obtain ⟨sock, _, rfl⟩ := Option.map_eq_some_iff.mp h
        cases hop
      · cases h
    · cases h
  | accepter ok =>
    simp only at h
    split at h
    · next t i hpc =>
      split at h
      · obtain ⟨sock, _, rfl⟩ := Option.map_eq_some_iff.mp h
        exact ⟨t, hpc⟩
      · cases h
    · cases h
  | sender result =>
    simp only at h
    split at h
    · split at h
      · cases h
      · obtain ⟨sock, _, rfl⟩ := Option.map_eq_some_iff.mp h
        cases hop
    · cases h
  | _ => cases h

theorem step_sound (hs : s.Sound) (a : Action W) : (step s a).Sound where
  index i := by rw [(step_writes a i).index, hs.index]
  recvType i := by
    have h := hs.recvType i
    generalize (step s a).session i = y, step_writes (s := s) a i = hw
    cases hw with
    | recv => simp [Session.setRecvOverlapped]
    | zeroRecv => simp [OverlappedEx.zero]
    | _ => exact h
  sendType i := by
    have h := hs.sendType i
    generalize (step s a).session i = y, step_writes (s := s) a i = hw
    cases hw with
    | send => simp [Session.setSendOverlapped]
    | zeroSend => simp [OverlappedEx.zero]
    | _ => exact h
  acceptEx t i h := by
    by_cases ha : ∃ ok, a = .accepter ok
    · obtain ⟨ok, rfl⟩ := ha
      cases hc : s.crashed with
      | true =>
        rw [step_crashed hc] at h ⊢
        exact hs.acceptEx t i h
      | false =>
        rw [step_accepterStep hc] at h ⊢
        have hpc := accepterStep_acceptEx h
        simp only [accepterStep, hpc]
        exact acceptReady_set hs i
    · rw [step_accepter (fun ok e => ha ⟨ok, e⟩)] at h
      exact acceptReady_step hs (hs.acceptEx t i h) a
  accepts req h hop := by
    refine acceptReady_step hs ?_ a
    rcases holds_step h with h | h
    · exact hs.accepts req h hop
    · obtain ⟨t, hpc⟩ := issued_accept h hop
      exact hs.acceptEx t req.session hpc

/-! ## null pointers -/

/-- a worker is about to check an accept that has failed: its key is 0 -/
def ChecksFailedAccept (s : Network W) (a : Action W) : Prop :=
  ∃ w ok req n, a = .worker w ok ∧ s.worker w = .check (.io req false n) ∧ req.op = .accept

theorem getSessionByIdx_session (i : SessionIdx) : getSessionByIdx (i : Nat) = some i := by
  have := i.isLt
  unfold getSessionByIdx
  rw [dif_neg (by omega)]
  rfl

theorem holds_worker {w : Fin W} (h : (s.worker w).request = some req) : s.Holds req :=
  .inr (.inr ⟨w, h⟩)

theorem crash_checkStep (hs : s.Sound) {w : Fin W} {c : Completion} (hpc : s.worker w = .check c) :
    (s.checkStep w c).crashed = true ↔
      s.crashed = true ∨ ∃ req n, c = .io req false n ∧ req.op = .accept := by
  cases c with
  | posted n =>
    have hno : (s.checkStep w (.posted n)).crashed = s.crashed := by
      rw [checkStep_posted]
      rfl
    simp [hno]
  | io req ok n =>
    rw [checkStep_io]
    by_cases hop : req.op = .accept
    · -- the filled-in `OverlappedEx` says `kACCEPT`, so only a failure counts as an exit
      have hready := hs.accepts req (holds_worker (by rw [hpc]; rfl)) hop
      have htype : ((s.session req.session).overlapped req.op).opType = .accept := by
        rw [hop]
        show (s.session req.session).acceptOverlapped.opType = _
        rw [hready]
      have hkey : req.key = none := by simp only [IoRequest.key, hop]
      simp only [sessionExited, htype, bne_self_eq_false, Bool.and_false, Bool.or_false, hkey]
      cases ok with
      | false =>
        simp only [Bool.not_false, if_true]
        exact ⟨fun _ => .inr ⟨req, n, rfl, hop⟩, fun _ => rfl⟩
      | true =>
        simp only [Bool.not_true, Bool.false_eq_true, if_false]
        refine ⟨.inl, fun h => h.resolve_right ?_⟩
        rintro ⟨r, m, e, _⟩
        cases e
    · have hkey : req.key = some req.session := by
        cases hr : req.op with
        | accept => exact absurd hr hop
        | recv | send => simp only [IoRequest.key, hr]
      have hright : ¬ ∃ r m, Completion.io req ok n = .io r false m ∧ r.op = .accept := by
        rintro ⟨r, m, e, h⟩
        cases e
        exact hop h
      simp only [hkey, hright, or_false]
      split <;> exact Iff.rfl

/-- after `CheckGQCSResult` every `Session*` is there -/
theorem crash_dispatchStep (hs : s.Sound) {w : Fin W} {n : Nat} (hpc : s.worker w = .dispatch req n) :
    (s.dispatchStep w req).crashed = s.crashed := by
  cases hop : req.op with
  | accept =>
    have hready := hs.accepts req (holds_worker (by rw [hpc]; rfl)) hop
    have e : (s.session req.session).overlapped .accept = ⟨(req.session : Nat), .accept⟩ := hready
    simp only [dispatchStep, hop, e, getSessionByIdx_session]
    rfl
  | recv =>
    have hkey : req.key = some req.session := by simp only [IoRequest.key, hop]
    obtain ⟨_, hno⟩ := hs.recvType req.session
    have hno' : ((s.session req.session).overlapped .recv).opType ≠ .accept := hno
    simp only [dispatchStep, hop, hkey]
    split
    · rfl
    · rfl
    · next e => exact absurd e hno'
    · rfl
  | send =>
    have hkey : req.key = some req.session := by simp only [IoRequest.key, hop]
    obtain ⟨_, hno⟩ := hs.sendType req.session
    have hno' : ((s.session req.session).overlapped .send).opType ≠ .accept := hno
    simp only [dispatchStep, hop, hkey]
    split
    · rfl
    · rfl
    · next e => exact absurd e hno'
    · rfl

theorem crash_workerStep (hs : s.Sound) (w : Fin W) (ok : Bool) :
    (s.workerStep w ok).crashed = true ↔
      s.crashed = true ∨ ∃ req n, s.worker w = .check (.io req false n) ∧ req.op = .accept := by
  have hno : (∀ c, s.worker w ≠ .check c) → (s.workerStep w ok).crashed = s.crashed →
      ((s.workerStep w ok).crashed = true ↔
        s.crashed = true ∨ ∃ req n, s.worker w = .check (.io req false n) ∧ req.op = .accept) := by
    intro hne e
    rw [e, or_iff_left]
    rintro ⟨r, n, h, _⟩
    exact hne _ h
  cases hpc : s.worker w with
  | check c =>
    rw [workerStep_check hpc, crash_checkStep hs hpc]
    simp only [WorkerPc.check.injEq]
  | dispatch r n =>
    rw [← hpc]
    refine hno (by simp [hpc]) ?_
    rw [workerStep_dispatch hpc, crash_dispatchStep hs hpc]
  | getQueued =>
    rw [← hpc]
    refine hno (by simp [hpc]) ?_
    simp only [workerStep, hpc]
    split <;> rfl
  | bindIocp i =>
    rw [← hpc]
    refine hno (by simp [hpc]) ?_
    simp only [workerStep, hpc]
    split
    · next e =>
      obtain ⟨sock, _, _, _, rfl⟩ := bindIOCompletionPort_eq_some e
      rfl
    · rfl
  | wsaRecv i opening =>
    rw [← hpc]
    refine hno (by simp [hpc]) ?_
    simp only [workerStep, hpc]
    split
    · next e =>
      obtain ⟨sock, _, _, rfl⟩ := wsaRecv_eq_some e
      rfl
    · rfl
  | close i pc opening =>
    rw [← hpc]
    refine hno (by simp [hpc]) ?_
    simp only [workerStep, hpc]
    exact (closeStep_same i pc).2.crashed
  | test | repost | onConnect | zeroRecv | zeroSend | setActivated | clearBuffer | setRecvOverlapped
  | increment =>
    rw [← hpc]
    refine hno (by simp [hpc]) ?_
    simp only [workerStep, hpc]
    rfl
  | finished =>
    rw [← hpc]
    refine hno (by simp [hpc]) ?_
    simp only [workerStep, hpc]

/-- **A step leads to an access through a null pointer exactly if a worker checks a failed accept.** -/
theorem crash_step (hs : s.Sound) (a : Action W) :
    (step s a).crashed = true ↔ s.crashed = true ∨ s.ChecksFailedAccept a := by
  unfold step
  by_cases hc : s.crashed = true
  · rw [if_pos hc]
    simp [hc]
  · rw [if_neg hc]
    cases a with
    | worker w ok =>
      simp only
      rw [crash_workerStep hs]
      refine or_congr_right ⟨?_, ?_⟩
      · rintro ⟨r, n, h, hop⟩
        exact ⟨w, ok, r, n, rfl, h, hop⟩
      · rintro ⟨w', ok', r, n, e, h, hop⟩
        cases e
        exact ⟨r, n, h, hop⟩
    | accepter ok => simp [ChecksFailedAccept, (accepterStep_same (s := s) ok).crashed]
    | sender result => simp [ChecksFailedAccept, (senderStep_same (s := s) result).crashed]
    | sendPacket idx data => simp [ChecksFailedAccept, (sendPacket_same (s := s) idx data).2.crashed]
    | complete k ok n => simp [ChecksFailedAccept, (complete_same (s := s) k ok n).2.crashed]
    | post n => simp [ChecksFailedAccept, Network.post]
    | _ => simp [ChecksFailedAccept]

theorem crashed_run (h : s.crashed = true) (as : List (Action W)) :
    (run step s as).crashed = true := by
  refine run_keeps_all (I := fun s : Network W => s.crashed = true) _ (fun s a hc => ?_) h as
  show (step s a).crashed = true
  rw [step_crashed hc]
  exact hc

section
variable (heap : SessionIdx → Fin kDefaultRingBufferSize → UInt8) (clock : Seconds)

theorem run_sound (as : List (Action W)) : (run step (start W heap clock) as).Sound :=
  run_keeps_all (I := Sound) _ (fun _ a h => step_sound h a) (start_sound W heap clock) as

theorem hist_sound (as : List (Action W)) : ∀ x ∈ hist step (start W heap clock) as, x.1.Sound :=
  hist_keeps_all (I := Sound) _ (fun _ a h => step_sound h a) (start_sound W heap clock) as

/-- **No worker ever follows a null `Session*` exactly if no worker ever checks a failed accept.** -/
theorem no_crash_run_iff (as : List (Action W)) :
    (run step (start W heap clock) as).crashed = false
      ↔ ∀ x ∈ hist step (start W heap clock) as, ¬ x.1.ChecksFailedAccept x.2 := by
  have hstep : ∀ (s : Network W) (a : Action W), s.Sound → s.crashed = false →
      ((step s a).crashed = false ↔ ¬ s.ChecksFailedAccept a) := by
    intro s a hs hc
    have h := crash_step hs a
    rw [hc] at h
    simp only [Bool.false_eq_true, false_or] at h
    rw [← h, Bool.not_eq_true]
  rw [← run_keeps_iff step (I := fun s : Network W => s.crashed = false) (F := fun s _ => s.Sound)
    (C := fun s a => ¬ s.ChecksFailedAccept a) hstep rfl as (hist_sound heap clock as)]
  refine ⟨fun hend => ⟨fun x hx => ?_, hend⟩, fun h => h.2⟩
  -- a crash would last to the end of the run
  obtain ⟨bs, cs, rfl, e⟩ := mem_hist step hx
  by_contra hc
  rw [Bool.not_eq_false, e] at hc
  rw [run_append] at hend
  rw [crashed_run hc] at hend
  cases hend

end

/-- the first accept fails before a client has come -/
def acceptFails : List (Action 1) :=
  [.tick 6] ++ List.replicate 9 (.accepter true) ++ [.complete 0 false 0]
    ++ List.replicate 3 (.worker 0 true)

/-- `CheckGQCSResult` takes the key of the listen socket for a session -/
theorem failed_accept_crashes :
    (run step (start 1 (fun _ _ => 0) 0) acceptFails).crashed = true := by
  decide +kernel

end Network

end Iocp
