import IocpChatting.Network.Recycling

/-!
# The time between two connections of a session

The accepter leaves a closed session alone for `kSESSION_REUSE_SECONDS`.  It looks at the close time twice:
once to see that it is not in the future, and again to subtract it.

* `lastClosed`          the time that the last `ClearSession` of a session has recorded;
* `Slot.Recorded`       the close time is that time, unless it is `UINT64_MAX`;
* `quarantined_run_iff` exactly when a run never binds a session too early;
* `reused_at_once`      and a run that does.
-/

set_option linter.unusedSectionVars false
set_option autoImplicit false

namespace Iocp
open Runs Census

namespace Network

variable {W : Nat} {s : Network W}

/-! ## the recorded time -/

/-- the time that an event records -/
def Slot.Event.time : Slot.Event → Option Nat
  | .storeTime t => some t
  | _ => none

/-- the time that the last `ClearSession` of `i` has recorded -/
def lastClosed (i : SessionIdx) (h : History W) : Option Nat :=
  h.foldl (fun c x => (x.1.event x.2 i).time <|> c) none

theorem lastClosed_snoc (i : SessionIdx) (h : History W) (a : Action W) :
    lastClosed i (h ++ [(s, a)]) = ((s.event a i).time <|> lastClosed i h) := by
  rw [lastClosed, List.foldl_append]
  rfl

theorem lastClosed_quiet {i : SessionIdx} {h : History W} {a : Action W} (he : (s.event a i).time = none) :
    lastClosed i (h ++ [(s, a)]) = lastClosed i h := by
  rw [lastClosed_snoc, he]
  rfl

namespace Slot

/-- the close time is the one on record, or `UINT64_MAX`; before the first close it is 0 -/
def Recorded (σ : Slot) (c : Option Nat) : Prop := σ.closedTime = uint64Max ∨ σ.closedTime = c.getD 0

theorem Recorded.apply {σ : Slot} {c : Option Nat} (h : σ.Recorded c) (e : Event) :
    (σ.apply e).Recorded (e.time <|> c) := by
  cases e with
  | storeTime t => exact .inr rfl
  | storeMax | storeAccept => exact .inl rfl
  | _ => exact h

/-- nobody records a time while the accepter is beyond the first look -/
theorem no_time {σ : Slot} (h0 : ∀ p, 0 ≤ σ.count p) (ho : σ.Owned) (hacc : σ.accepter ≠ .away) {e : Event}
    (hf : σ.Fits e) : e.time = none := by
  cases e with
  | storeTime t =>
    have h1 : 1 ≤ σ.count .cleared := hf.1
    have h2 := le_owners h0 (p := .cleared) rfl
    have h3 := ho.free (.inr hacc)
    have h4 := σ.active_nonneg
    omega
  | _ => rfl

end Slot

/-! ## the accepter -/

/-- the accepter is about to call `BindAccept`, and the session has been closed for long enough -/
def Quarantined (h : History W) (s : Network W) : Prop :=
  ∀ t i, s.accepter = .bindAccept t i → ∀ c, lastClosed i h = some c → c + kSessionReuseSeconds < t

/-- **The condition.**  Where the accepter looks at the close time of a session for the second time, and
the time on record is not past by more than `kSESSION_REUSE_SECONDS`, the close time is not
`UINT64_MAX`, or the clock has not yet come to `kSESSION_REUSE_SECONDS`. -/
def SecondLook (h : History W) (s : Network W) (a : Action W) : Prop :=
  s.crashed = false → ∀ ok t i, a = .accepter ok → s.accepter = .diffClosed t i →
    ∀ c, lastClosed i h = some c → (t : Nat) ≤ c + kSessionReuseSeconds →
      (s.session i).latestConnClosed ≠ uint64Max ∨ (t : Nat) < kSessionReuseSeconds

theorem accepter_event_time (i : SessionIdx) (ok : Bool) : (s.event (.accepter ok) i).time = none := by
  unfold event
  split
  · rfl
  · show (s.accepterEvent i ok).time = none
    unfold accepterEvent
    split
    · split <;> rfl
    · split
      · split <;> rfl
      · rfl
    · split <;> rfl
    · split <;> rfl
    · split
      · split <;> rfl
      · rfl
    · rfl

theorem nextAccept_ne_bindAccept (t t' : Seconds) (i j : SessionIdx) : nextAccept t i ≠ .bindAccept t' j := by
  rcases nextAccept_eq t i with e | ⟨k, e⟩
  · rw [e]
    simp
  · rw [e]
    simp

theorem nextAccept_ne_diffClosed (t t' : Seconds) (i j : SessionIdx) : nextAccept t i ≠ .diffClosed t' j := by
  rcases nextAccept_eq t i with e | ⟨k, e⟩
  · rw [e]
    simp
  · rw [e]
    simp

/-- the accepter comes to `BindAccept` from its second look only -/
theorem accepterStep_bindAccept {ok : Bool} {t : Seconds} {i : SessionIdx} :
    (s.accepterStep ok).accepter = .bindAccept t i ↔
      s.accepter = .diffClosed t i ∧
        ¬ closedDiff t (s.session i).latestConnClosed ≤ kSessionReuseSeconds := by
  cases hpc : s.accepter with
  | diffClosed t' j =>
    simp only [accepterStep, hpc]
    by_cases hd : closedDiff t' (s.session j).latestConnClosed ≤ kSessionReuseSeconds
    · rw [if_pos hd]
      refine ⟨fun e => absurd e (nextAccept_ne_bindAccept _ _ _ _), ?_⟩
      rintro ⟨e, hn⟩
      cases e
      exact absurd hd hn
    · rw [if_neg hd]
      constructor
      · intro e
        cases e
        exact ⟨rfl, hd⟩
      · rintro ⟨e, _⟩
        cases e
        rfl
  | test =>
    simp only [accepterStep, hpc]
    split <;> simp
  | readActivated t' j | compareClosed t' j =>
    simp only [accepterStep, hpc]
    split
    · simp [nextAccept_ne_bindAccept]
    · simp
  | createSocket t' j =>
    simp only [accepterStep, hpc]
    split
    · simp
    · simp [nextAccept_ne_bindAccept]
  | acceptEx t' j =>
    simp only [accepterStep, hpc]
    simp [nextAccept_ne_bindAccept]
  | readClock | bindAccept | setAcceptOverlapped | finished => simp [accepterStep, hpc]

/-- and to its second look from the first one -/
theorem accepterStep_diffClosed {ok : Bool} {t : Seconds} {i : SessionIdx}
    (h : (s.accepterStep ok).accepter = .diffClosed t i) :
    s.accepter = .compareClosed t i ∧ (s.session i).latestConnClosed ≤ t := by
  cases hpc : s.accepter with
  | compareClosed t' j =>
    simp only [accepterStep, hpc] at h
    by_cases hlt : (t' : Nat) < (s.session j).latestConnClosed
    · rw [if_pos hlt] at h
      exact absurd h (nextAccept_ne_diffClosed _ _ _ _)
    · rw [if_neg hlt] at h
      cases h
      exact ⟨rfl, by omega⟩
  | test | readActivated t' j | createSocket t' j =>
    simp only [accepterStep, hpc] at h
    split at h
    · first | cases h | exact absurd h (nextAccept_ne_diffClosed _ _ _ _)
    · first | cases h | exact absurd h (nextAccept_ne_diffClosed _ _ _ _)
  | diffClosed t' j =>
    simp only [accepterStep, hpc] at h
    split at h
    · exact absurd h (nextAccept_ne_diffClosed _ _ _ _)
    · cases h
  | acceptEx t' j =>
    simp only [accepterStep, hpc] at h
    exact absurd h (nextAccept_ne_diffClosed _ _ _ _)
  | readClock | bindAccept | setAcceptOverlapped | finished => simp [accepterStep, hpc] at h

/-! ## a step -/

theorem isAt_accepter {i : SessionIdx} {pc : AccepterPc} (h : s.accepter = pc) :
    (s.slot i).accepter = pc.isAt i := by
  rw [← h]
  rfl

structure Looked (h : History W) (s : Network W) : Prop where
  recorded : ∀ i, (s.slot i).Recorded (lastClosed i h)
  /-- at the second look the time on record is still the one of the first look -/
  passed : ∀ t i, s.accepter = .diffClosed t i → (lastClosed i h).getD 0 ≤ t

/-- beyond the first look the time on record stays -/
theorem lastClosed_kept (hs : s.Sound) {i : SessionIdx} (ho : (s.slot i).Owned) {pc : AccepterPc}
    (hpc : s.accepter = pc) (haway : pc.isAt i ≠ .away) (h : History W) (a : Action W) :
    lastClosed i (h ++ [(s, a)]) = lastClosed i h := by
  refine lastClosed_quiet (Slot.no_time (count_nonneg s i) ho ?_ (slot_fits hs a i))
  rw [isAt_accepter hpc]
  exact haway

theorem looked_step (hs : s.Sound) (ho : ∀ i, (s.slot i).Owned) {h : History W} (hI : Looked h s)
    (a : Action W) : Looked (h ++ [(s, a)]) (step s a) where
  recorded i := by
    rw [slot_step hs, lastClosed_snoc]
    exact (hI.recorded i).apply _
  passed t i hpc := by
    by_cases ha : ∃ ok, a = .accepter ok
    · obtain ⟨ok, rfl⟩ := ha
      rw [lastClosed_quiet (accepter_event_time i ok)]
      by_cases hc : s.crashed = true
      · rw [step_crashed hc] at hpc
        exact hI.passed t i hpc
      · rw [step_accepterStep (by simpa using hc)] at hpc
        obtain ⟨_, hle⟩ := accepterStep_diffClosed hpc
        have hlt := seconds_lt t
        rcases hI.recorded i with hmax | hrec
        · have : (s.session i).latestConnClosed = uint64Max := hmax
          omega
        · have : (s.session i).latestConnClosed = (lastClosed i h).getD 0 := hrec
          omega
    · rw [step_accepter fun ok e => ha ⟨ok, e⟩] at hpc
      rw [lastClosed_kept hs (ho i) hpc (by simp [AccepterPc.isAt])]
      exact hI.passed t i hpc

/-- `cur_time - latest_conn_closed_` for a time that is not in the future -/
theorem closedDiff_eq {t : Seconds} {c : Nat} (h : c ≤ t) : closedDiff t c = t - c := by
  have := t.isLt
  unfold closedDiff
  omega

/-- and for `UINT64_MAX` -/
theorem closedDiff_max (t : Seconds) : closedDiff t uint64Max = t + 1 := by
  have := t.isLt
  have e : uint64Max = 2^64 - 1 := rfl
  unfold closedDiff
  omega

/-- **From a state in which no session is bound too early, a step keeps it so exactly if its second look
is in order.** -/
theorem quarantined_step (hs : s.Sound) (ho : ∀ i, (s.slot i).Owned) {h : History W} (hI : Looked h s)
    (hq : Quarantined h s) (a : Action W) :
    Quarantined (h ++ [(s, a)]) (step s a) ↔ SecondLook h s a := by
  by_cases hc : s.crashed = true
  · refine iff_of_true (fun t i hpc c hlast => ?_) fun hnc => ?_
    · rw [step_crashed hc] at hpc
      rw [lastClosed_kept hs (ho i) hpc (by simp [AccepterPc.isAt])] at hlast
      exact hq t i hpc c hlast
    · rw [hc] at hnc
      cases hnc
  · have hc' : s.crashed = false := by simpa using hc
    constructor
    · rintro hnext - ok t i rfl hpc c hlast hle
      by_contra hno
      have hmax : (s.session i).latestConnClosed = uint64Max := by
        by_contra hne
        exact hno (.inl hne)
      have hbind : (step s (.accepter ok)).accepter = .bindAccept t i := by
        rw [step_accepterStep hc']
        refine accepterStep_bindAccept.mpr ⟨hpc, ?_⟩
        rw [hmax, closedDiff_max]
        omega
      have hlast' : lastClosed i (h ++ [(s, .accepter ok)]) = some c := by
        rw [lastClosed_quiet (accepter_event_time i ok), hlast]
      have := hnext t i hbind c hlast'
      omega
    · intro hC t i hbind c hlast
      by_cases ha : ∃ ok, a = .accepter ok
      · obtain ⟨ok, rfl⟩ := ha
        rw [step_accepterStep hc'] at hbind
        rw [lastClosed_quiet (accepter_event_time i ok)] at hlast
        obtain ⟨hpc, hdiff⟩ := accepterStep_bindAccept.mp hbind
        by_contra hno
        have hle : (t : Nat) ≤ c + kSessionReuseSeconds := by omega
        have hpast := hI.passed t i hpc
        rw [hlast, Option.getD_some] at hpast
        rcases hI.recorded i with hmax | hrec
        · -- the difference is `t + 1`
          have e : (s.session i).latestConnClosed = uint64Max := hmax
          rw [e, closedDiff_max] at hdiff
          rcases hC hc' ok t i rfl hpc c hlast hle with hne | hlt
          · exact hne e
          · omega
        · have e : (s.session i).latestConnClosed = c := by
            rw [hlast] at hrec
            exact hrec
          rw [e, closedDiff_eq hpast] at hdiff
          omega
      · rw [step_accepter fun ok e => ha ⟨ok, e⟩] at hbind
        rw [lastClosed_kept hs (ho i) hbind (by simp [AccepterPc.isAt])] at hlast
        exact hq t i hbind c hlast

/-! ## runs -/

section
variable (heap : SessionIdx → Fin kDefaultRingBufferSize → UInt8) (clock : Seconds)

theorem run_looked (as : List (Action W)) :
    Looked (hist step (start W heap clock) as) (run step (start W heap clock) as) := by
  refine hist_keeps step (I := Looked) (C := fun _ s _ => s.Sound ∧ ∀ i, (s.slot i).Owned)
    ⟨fun i => .inr rfl, fun t i hpc => by cases hpc⟩ (fun h s a hI hC => looked_step hC.1 hC.2 hI a) as
    (fun bs a cs _ => ⟨run_sound heap clock bs, run_owned heap clock bs⟩)

/-- **No session is bound within `kSESSION_REUSE_SECONDS` of its last close, in any state of a run,
exactly if every second look of the run is in order.** -/
theorem quarantined_run_iff (as : List (Action W)) :
    (∀ bs cs, as = bs ++ cs →
        Quarantined (hist step (start W heap clock) bs) (run step (start W heap clock) bs))
      ↔ ∀ bs a cs, as = bs ++ a :: cs →
        SecondLook (hist step (start W heap clock) bs) (run step (start W heap clock) bs) a := by
  have h0 : Quarantined [] (start W heap clock) := fun t i hpc => by cases hpc
  have key := hist_keeps_iff step (I := Quarantined) (P := fun _ _ _ => True) (C := SecondLook) h0
    (fun bs a hq => ?_) as
  · rw [← key]
    exact ⟨fun h => ⟨h, fun _ _ _ _ => trivial⟩, fun h => h.1⟩
  · rw [true_and]
    exact quarantined_step (run_sound heap clock bs) (run_owned heap clock bs)
      (run_looked heap clock bs) hq a

end

/-! ## a session that is bound again at once -/

/-- `WSASocket` fails for `j`, which has never been connected -/
theorem accepter_fails (hc : s.crashed = false) {t : Seconds} {j : SessionIdx}
    (hact : (s.session j).isActivated = false) (hzero : (s.session j).latestConnClosed = 0)
    (ht : kSessionReuseSeconds < (t : Nat)) :
    run step { s with accepter := .readActivated t j } (List.replicate 5 (.accepter false)) =
      { (s.modify j (·.setConnectionClosedTime uint64Max)).modify j (·.setSocket none) with
        accepter := nextAccept t j } := by
  have hdiff : ¬ closedDiff t (s.session j).latestConnClosed ≤ kSessionReuseSeconds := by
    rw [hzero, closedDiff_eq (Nat.zero_le _)]
    omega
  have hge : ¬ (t : Nat) < (s.session j).latestConnClosed := by omega
  simp [List.replicate, step, accepterStep, hc, hact, hge, hdiff, modify, createSocket]

/-- and so it goes on to the end of the pass -/
theorem failing_pass {t : Seconds} (ht : kSessionReuseSeconds < (t : Nat)) (n : Nat) :
    ∀ (s : Network W) (j : SessionIdx), (j : Nat) + n + 1 = kMaxSessionCnt → s.crashed = false →
      (∀ l, j ≤ l → (s.session l).isActivated = false ∧ (s.session l).latestConnClosed = 0) →
      ∃ f, run step { s with accepter := .readActivated t j }
          (List.replicate (5 * (n + 1)) (.accepter false)) = { s with session := f, accepter := .test } ∧
        ∀ l, l < j → f l = s.session l := by
  induction n with
  | zero =>
    intro s j hj hc hfresh
    obtain ⟨hact, hzero⟩ := hfresh j (le_refl j)
    have hlast : nextAccept t j = .test := by
      unfold nextAccept nextIdx
      rw [dif_neg (by omega)]
    refine ⟨((s.modify j (·.setConnectionClosedTime uint64Max)).modify j (·.setSocket none)).session, ?_, ?_⟩
    · rw [accepter_fails hc hact hzero ht, hlast]
      rfl
    · intro l hl
      rw [modify_other _ _ hl.ne, modify_other _ _ hl.ne]
  | succ n ih =>
    intro s j hj hc hfresh
    obtain ⟨hact, hzero⟩ := hfresh j (le_refl j)
    have hj' : (j : Nat) + 1 < kMaxSessionCnt := by omega
    have hnext : nextAccept t j = .readActivated t ⟨j + 1, hj'⟩ := by
      unfold nextAccept nextIdx
      rw [dif_pos hj']
    have hother : ∀ l, l ≠ j → ((s.modify j (·.setConnectionClosedTime uint64Max)).modify j
        (·.setSocket none)).session l = s.session l := by
      intro l hl
      rw [modify_other _ _ hl, modify_other _ _ hl]
    obtain ⟨f, hrun, hf⟩ := ih ((s.modify j (·.setConnectionClosedTime uint64Max)).modify j
      (·.setSocket none)) ⟨j + 1, hj'⟩ (by show (j : Nat) + 1 + n + 1 = _; omega) hc (fun l hl => by
        have hlt : (j : Nat) + 1 ≤ l := hl
        rw [hother l (Fin.ne_of_gt (show (j : Nat) < l by omega))]
        exact hfresh l (show (j : Nat) ≤ l by omega))
    refine ⟨f, ?_, fun l hl => ?_⟩
    · have hsplit : List.replicate (5 * (n + 1 + 1)) (.accepter false)
          = List.replicate 5 (.accepter false)
            ++ List.replicate (5 * (n + 1)) (Action.accepter false : Action W) := by
        rw [List.replicate_append_replicate]
        congr 1
        omega
      rw [hsplit, run_append, accepter_fails hc hact hzero ht, hnext]
      exact hrun
    · have hlt : (l : Nat) < j := hl
      rw [hf l (show (l : Nat) < j + 1 by omega), hother l hl.ne]

theorem lastClosed_accepter (i : SessionIdx) (n : Nat) :
    ∀ (s : Network W) (h : History W),
      lastClosed i (h ++ hist step s (List.replicate n (.accepter false))) = lastClosed i h := by
  induction n with
  | zero =>
    intro s h
    rw [List.replicate_zero, hist_nil, List.append_nil]
  | succ n ih =>
    intro s h
    have e : h ++ hist step s (List.replicate (n + 1) (.accepter false))
        = (h ++ [(s, .accepter false)])
          ++ hist step (step s (.accepter false)) (List.replicate n (.accepter false)) := by
      rw [List.replicate_succ, hist_cons, List.append_assoc]
      rfl
    rw [e, ih, lastClosed_quiet (accepter_event_time i false)]

/-- the accepter starts a pass, and finds that session 0 has been closed -/
theorem first_look (hc : s.crashed = false) (hrun : s.isAccepterRunning = true)
    (hact : (s.session 0).isActivated = false) (hle : (s.session 0).latestConnClosed ≤ s.clock) :
    run step { s with accepter := .test } (List.replicate 4 (.accepter false)) =
      { s with accepter := .diffClosed s.clock 0 } := by
  have hge : ¬ (s.clock : Nat) < (s.session 0).latestConnClosed := by omega
  simp [List.replicate, step, accepterStep, hc, hrun, hact, hge]

/-- a worker that closes the session once more gets between the two looks -/
theorem second_look {w : Fin W} {t : Seconds} {i : SessionIdx} {opening : Bool} (hc : s.crashed = false)
    (hw : s.worker w = .close i .setClosedTime opening) (ht : kSessionReuseSeconds ≤ (t : Nat)) :
    (run step { s with accepter := .diffClosed t i } [.worker w true, .accepter false]).accepter
      = .bindAccept t i := by
  have hdiff : ¬ closedDiff t uint64Max ≤ kSessionReuseSeconds := by
    rw [closedDiff_max]
    omega
  simp [step, workerStep, accepterStep, closeStep, closeNext, hc, hw, modify, setWorker,
    Session.setConnectionClosedTime, hdiff]

/-- a receive and a send of session 0 fail; the worker has closed the session for one of them, and is in
`CloseSocket` again for the other -/
def secondClose : List (Action 1) :=
  opened ++ [.sendPacket 0 [1]] ++ List.replicate 6 (.sender .pending)
    ++ [.complete 0 false 0, .complete 0 false 0] ++ List.replicate 15 (.worker 0 true)

/-- the accepter finishes its pass, and looks at session 0 in the next one; between the two looks the
worker stores `UINT64_MAX`

`WSASocket` fails for the other 999 slots only to keep the run short: with sockets the accepter would bind
them one after the other, and come back to session 0 just the same. -/
def twoLooks : List (Action 1) :=
  secondClose ++ List.replicate (5 * 999) (.accepter false) ++ List.replicate 4 (.accepter false)
    ++ [.worker 0 true, .accepter false]

/-- session 0 was closed at 10, and is bound at 10 -/
theorem reused_at_once :
    ¬ ∀ bs cs, twoLooks = bs ++ cs →
      Quarantined (hist step (start 1 (fun _ _ => 0) 0) bs) (run step (start 1 (fun _ _ => 0) 0) bs) := by
  intro hq
  have hlast : lastClosed 0 (hist step (start 1 (fun _ _ => 0) 0) secondClose) = some 10 := by
    decide +kernel
  have hpc : (run step (start 1 (fun _ _ => 0) 0) secondClose).accepter = .readActivated 10 1 := by
    decide +kernel
  have hclock : (run step (start 1 (fun _ _ => 0) 0) secondClose).clock = 10 := by decide +kernel
  have hc : (run step (start 1 (fun _ _ => 0) 0) secondClose).crashed = false := by decide +kernel
  have hrun : (run step (start 1 (fun _ _ => 0) 0) secondClose).isAccepterRunning = true := by
    decide +kernel
  have hw : (run step (start 1 (fun _ _ => 0) 0) secondClose).worker 0 = .close 0 .setClosedTime false := by
    decide +kernel
  have hclosed : ((run step (start 1 (fun _ _ => 0) 0) secondClose).session 0).isActivated = false ∧
      ((run step (start 1 (fun _ _ => 0) 0) secondClose).session 0).latestConnClosed = 10 := by
    decide +kernel
  have hfresh : ∀ l, 1 ≤ l →
      ((run step (start 1 (fun _ _ => 0) 0) secondClose).session l).isActivated = false ∧
        ((run step (start 1 (fun _ _ => 0) 0) secondClose).session l).latestConnClosed = 0 := by
    decide +kernel
  have hall := hq twoLooks [] (List.append_nil _).symm
  unfold twoLooks at hall
  rw [List.append_assoc, List.append_assoc, run_append, hist_append] at hall
  generalize run step (start 1 (fun _ _ => 0) 0) secondClose = s at *
  generalize hist step (start 1 (fun _ _ => 0) 0) secondClose = h at *
  obtain ⟨f, hpass, hf⟩ := @failing_pass 1 10 (by decide) 998 s 1 (by decide) hc hfresh
  have e : { s with accepter := .readActivated 10 1 } = s := by rw [← hpc]
  rw [e] at hpass
  have hf0 : f 0 = s.session 0 := hf 0 (by decide)
  rw [← hf0] at hclosed
  have hle : (f 0).latestConnClosed ≤ s.clock := by rw [hclosed.2, hclock]; decide
  have hlook := @first_look 1 { s with session := f } hc hrun hclosed.1 hle
  have hbind : (run step s (List.replicate (5 * 999) (.accepter false)
      ++ (List.replicate 4 (.accepter false) ++ [.worker 0 true, .accepter false]))).accepter
        = .bindAccept 10 0 := by
    rw [run_append, hpass, run_append, hlook, show s.clock = 10 from hclock]
    exact second_look hc hw (by decide)
  have hclosed' : lastClosed 0 (h ++ hist step s (List.replicate (5 * 999) (.accepter false)
      ++ (List.replicate 4 (.accepter false) ++ [.worker 0 true, .accepter false]))) = some 10 := by
    rw [hist_append, hist_append, ← List.append_assoc, ← List.append_assoc]
    rw [show hist step _ [.worker 0 true, .accepter false] = [_] ++ [_] from rfl, ← List.append_assoc]
    rw [lastClosed_quiet (accepter_event_time 0 false), lastClosed_quiet, lastClosed_accepter,
      lastClosed_accepter, hlast]
    rw [hpass, hlook]
    simp [event, hc, workerEvent, hw, closeEvent, Slot.Event.time]
  have := hall 10 0 hbind 10 hclosed'
  exact absurd this (by decide)

end Network

end Iocp
