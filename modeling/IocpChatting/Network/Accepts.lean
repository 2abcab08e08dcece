import IocpChatting.Network.Events

/-!
# One accept at a time

* `Slot.Owned`          a slot has one owner at most: an accept that is under way, a worker that opens the
                        connection, the connection itself, or a thread that closes it; and none while its
                        close time lets the accepter in;
* `one_accept_run`      so there is never more than one accept for a session.
-/

set_option linter.unusedSectionVars false
set_option autoImplicit false

namespace Iocp
open Runs Census

namespace Network

variable {W : Nat} {s : Network W}

/-! ## owners -/

namespace Slot

/-- the parties that a slot can have only one of: whoever is between `AcceptEx` and the store of
`is_activated_`, and whoever has cleared it and has not stored the time -/
def owners (σ : Slot) : ℤ :=
  σ.count .accepting + σ.count .opening + σ.count .closing + σ.count .cleared

/-- how much a party in phase `p` counts -/
def weight : Option Phase → ℤ
  | some .accepting | some .opening | some .closing | some .cleared => 1
  | _ => 0

theorem owners_move (σ : Slot) (p q : Option Phase) :
    (σ.move p q).owners = σ.owners - weight p + weight q := by
  have h : ∀ p : Option Phase,
      hit p .accepting + hit p .opening + hit p .closing + hit p .cleared = weight p := by
    intro p
    cases p with
    | none => rfl
    | some p => cases p <;> rfl
  have hp := h p
  have hq := h q
  simp only [owners, move]
  omega

def active (σ : Slot) : ℤ := if σ.isActivated then 1 else 0

/-- One owner: a party, or the connection itself.  There is none while the close time is set and
while the accepter is beyond the first look at it. -/
structure Owned (σ : Slot) : Prop where
  one : σ.owners + σ.active ≤ 1
  free : σ.closedTime < uint64Max ∨ σ.accepter ≠ .away → σ.owners + σ.active = 0
  inside : σ.accepter = .inside → σ.closedTime = uint64Max

/-- a party in an owner's phase is one of the owners -/
theorem le_owners {σ : Slot} (h0 : ∀ p, 0 ≤ σ.count p) {p : Phase} (hw : weight (some p) = 1) :
    σ.count p ≤ σ.owners := by
  have h1 := h0 .accepting
  have h2 := h0 .opening
  have h3 := h0 .closing
  have h4 := h0 .cleared
  unfold owners
  cases p with
  | accepting | opening | closing | cleared => omega
  | finishing | binding | starting | leaving => cases hw

/-- a party moves, or stops, and the accepter and the close time stay as they are -/
theorem Owned.keep {σ τ : Slot} (h : σ.Owned) (hn : τ.owners + τ.active ≤ σ.owners + σ.active)
    (h0 : 0 ≤ τ.owners + τ.active) (hc : τ.closedTime = σ.closedTime)
    (ha : τ.accepter = σ.accepter) : τ.Owned where
  one := by
    have := h.one
    omega
  free hfree := by
    rw [hc, ha] at hfree
    have := h.free hfree
    omega
  inside := by
    rw [hc, ha]
    exact h.inside

theorem Owned.vacant {σ : Slot} (h : σ.owners + σ.active = 0)
    (hin : σ.accepter = .inside → σ.closedTime = uint64Max) : σ.Owned :=
  ⟨by omega, fun _ => h, hin⟩

theorem active_nonneg (σ : Slot) : 0 ≤ σ.active := by
  unfold active
  split <;> omega

theorem owners_nonneg {σ : Slot} (h0 : ∀ p, 0 ≤ σ.count p) : 0 ≤ σ.owners := by
  have h1 := h0 .accepting
  have h2 := h0 .opening
  have h3 := h0 .closing
  have h4 := h0 .cleared
  unfold owners
  omega

theorem weight_nonneg (p : Option Phase) : 0 ≤ weight p := by
  unfold weight
  split <;> omega

/-- a party goes from `p` to `q` -/
theorem owners_shift {σ τ : Slot} {p q : Option Phase} (hcount : τ.count = (σ.move p q).count)
    (hact : τ.isActivated = σ.isActivated) :
    τ.owners + τ.active = σ.owners + σ.active - weight p + weight q := by
  have e1 : τ.owners = σ.owners - weight p + weight q := by
    rw [← owners_move σ p q]
    simp only [owners, hcount]
  have e2 : τ.active = σ.active := by simp only [active, hact]
  omega

/-- and `q` weighs no more -/
theorem Owned.shift {σ τ : Slot} (h : σ.Owned) (p q : Option Phase)
    (hcount : τ.count = (σ.move p q).count) (hact : τ.isActivated = σ.isActivated)
    (hw : weight q ≤ weight p) (hp : weight p ≤ σ.owners) (hc : τ.closedTime = σ.closedTime)
    (ha : τ.accepter = σ.accepter) : τ.Owned := by
  have e := owners_shift hcount hact
  have hq := weight_nonneg q
  have hact := σ.active_nonneg
  exact h.keep (by omega) (by omega) hc ha

theorem Owned.apply {σ : Slot} (h0 : ∀ p, 0 ≤ σ.count p) (h : σ.Owned) {e : Event}
    (hf : σ.Fits e) : (σ.apply e).Owned := by
  have hact := σ.active_nonneg
  have hown := owners_nonneg h0
  have hone := h.one
  -- a party of an owner's phase is there
  have hle : ∀ p : Phase, weight (some p) = 1 → 1 ≤ σ.count p → weight (some p) ≤ σ.owners := by
    intro p hw h1
    have := le_owners h0 hw
    omega
  cases e with
  | quiet | sendDone => exact h.keep (le_refl _) (by show 0 ≤ σ.owners + σ.active; omega) rfl rfl
  | takeUp => exact h.shift (some .accepting) (some .opening) rfl rfl (le_refl _) (hle _ rfl hf) rfl rfl
  | bindFails => exact h.shift (some .opening) (some .starting) rfl rfl (by decide) (hle _ rfl hf) rfl rfl
  | activated => exact h.shift (some .finishing) none rfl rfl (le_refl _) hown rfl rfl
  | exit => exact h.shift none (some .starting) rfl rfl (le_refl _) hown rfl rfl
  | lose => exact h.shift (some .starting) none rfl rfl (le_refl _) hown rfl rfl
  | clear => exact h.shift (some .closing) (some .cleared) rfl rfl (le_refl _) (hle _ rfl hf) rfl rfl
  | leave => exact h.shift (some .leaving) none rfl rfl (le_refl _) hown rfl rfl
  | bindSend => exact h.shift none (some .binding) rfl rfl (le_refl _) hown rfl rfl
  | sendReturns => exact h.shift (some .binding) none rfl rfl (le_refl _) hown rfl rfl
  | sendFails => exact h.shift (some .binding) (some .starting) rfl rfl (le_refl _) hown rfl rfl
  | activate =>
    -- the party becomes the connection
    have h1 : 1 ≤ σ.owners := hle .opening rfl hf
    have hn : (σ.apply .activate).owners = σ.owners - 1 + 0 := owners_move σ (some .opening) (some .finishing)
    have ha : (σ.apply .activate).active = 1 := rfl
    exact h.keep (by omega) (by omega) rfl rfl
  | win =>
    -- and the connection a party
    have h1 : σ.active = 1 := by
      unfold active
      rw [hf.2]
      rfl
    have hn : (σ.apply .win).owners = σ.owners - 0 + 1 := owners_move σ (some .starting) (some .closing)
    have ha : (σ.apply .win).active = 0 := rfl
    exact h.keep (by omega) (by omega) rfl rfl
  | issue =>
    have hin : σ.accepter = .inside := hf
    have hzero := h.free (.inr (by rw [hin]; simp))
    have hmax := h.inside hin
    have hn : (σ.apply .issue).owners = σ.owners - 0 + 1 := owners_move σ none (some .accepting)
    have ha : (σ.apply .issue).active = σ.active := rfl
    refine ⟨by omega, ?_, fun hi => by cases hi⟩
    rintro (hlt | hne)
    · exact absurd hlt (by show ¬ σ.closedTime < _; omega)
    · exact absurd rfl hne
  | abandon =>
    refine ⟨h.one, ?_, fun hi => by cases hi⟩
    rintro (hlt | hne)
    · exact h.free (.inl hlt)
    · exact absurd rfl hne
  | storeMax =>
    refine ⟨h.one, ?_, fun _ => rfl⟩
    rintro (hlt | hne)
    · exact absurd hlt (lt_irrefl _)
    · exact h.free (.inr hne)
  | storeTime t =>
    have h1 : 1 ≤ σ.owners := hle .cleared rfl hf.1
    have hn : (σ.apply (.storeTime t)).owners = σ.owners - 1 + 0 :=
      owners_move σ (some .cleared) (some .leaving)
    have ha : (σ.apply (.storeTime t)).active = σ.active := rfl
    refine Owned.vacant (by omega) fun hin => ?_
    have hin' : σ.accepter = .inside := hin
    have := h.free (.inr (by rw [hin']; simp))
    omega
  | pass =>
    have hzero := h.free (.inl hf)
    exact Owned.vacant hzero fun hin => by cases hin
  | giveUp | choose =>
    have hp : σ.accepter = .passed := hf
    have hzero := h.free (.inr (by rw [hp]; simp))
    exact Owned.vacant hzero fun hin => by cases hin
  | storeAccept =>
    have hp : σ.accepter = .chosen := hf
    have hzero := h.free (.inr (by rw [hp]; simp))
    exact Owned.vacant hzero fun _ => rfl

end Slot

/-! ## what an accept uses -/

/-- the socket and the `OverlappedEx` of the accept are as they were -/
structure Session.SameAccept (x y : Session) : Prop where
  socket : y.socket = x.socket
  overlapped : y.acceptOverlapped = x.acceptOverlapped

/-- who writes the socket or the `OverlappedEx` -/
theorem Writes.sameAccept {a : Action W} {i : SessionIdx} {y : Session} (h : s.Writes a i y)
    (hcreate : ∀ t, s.accepter ≠ .createSocket t i) (hset : ∀ t, s.accepter ≠ .setAcceptOverlapped t i)
    (hclose : ¬ s.InClose i .setSocket) : (s.session i).SameAccept y := by
  cases h with
  | socket sock hw =>
    rcases hw with ⟨t, hw⟩ | hw
    · exact absurd hw (hcreate t)
    · exact absurd hw hclose
  | accept hw =>
    obtain ⟨t, hw⟩ := hw
    exact absurd hw (hset t)
  | _ => exact ⟨rfl, rfl⟩

theorem inClose_count {i : SessionIdx} {pc : ClosePc} {p : Phase} (h : s.InClose i pc)
    (hp : pc.phase = p) : 1 ≤ (s.slot i).count p := by
  subst hp
  rcases h with ⟨w, opening, hpc⟩ | hpc
  · refine count_worker (w := w) ?_
    rw [hpc]
    exact phaseAt_self i _
  · refine count_sender ?_
    rw [hpc]
    exact phaseAt_self i _

/-- **Only the accepter in `BindAccept` and a thread that has won the `compare_exchange` touch what an
accept uses.** -/
theorem step_sameAccept {i : SessionIdx} (hin : (s.slot i).accepter ≠ .inside)
    (hclosing : (s.slot i).count .closing = 0) (a : Action W) :
    (s.session i).SameAccept ((step s a).session i) := by
  have hat : ∀ {pc : AccepterPc}, s.accepter = pc → pc.isAt i ≠ .inside := by
    intro pc e
    rw [← e]
    exact hin
  have hcreate : ∀ t, s.accepter ≠ .createSocket t i := fun t e => hat e (by simp [AccepterPc.isAt])
  have hset : ∀ t, s.accepter ≠ .setAcceptOverlapped t i := fun t e => hat e (by simp [AccepterPc.isAt])
  have hclose : ¬ s.InClose i .setSocket := by
    intro hc
    have h1 := inClose_count hc (p := .closing) rfl
    omega
  exact (step_writes a i).sameAccept hcreate hset hclose

/-! ## runs -/

/-- the accepts of `i` that `AcceptEx` has started and `DispatchOverlapped` has not taken up -/
def accepts (s : Network W) (i : SessionIdx) : ℤ := (s.slot i).count .accepting

theorem start_slot (heap : SessionIdx → Fin kDefaultRingBufferSize → UInt8) (clock : Seconds)
    (i : SessionIdx) : (start W heap clock).slot i = ⟨fun _ => 0, false, false, 0, .away⟩ := by
  have e : ∀ p, parties (WorkerPc.phase i) (fun _ : Fin W => WorkerPc.test) p = 0 := by
    intro p
    exact Finset.sum_eq_zero fun w _ => rfl
  have hcount : (fun p => parties (WorkerPc.phase i) (fun _ : Fin W => WorkerPc.test) p
      + hit (SenderPc.phase i .test) p + waiting (IoRequest.phase i) [] p
      + waiting (Completion.phase i) [] p) = fun _ => 0 := by
    funext p
    rw [e]
    rfl
  show Slot.mk _ _ _ _ _ = _
  exact congrArg (Slot.mk · false false 0 .away) hcount

theorem start_owned (heap : SessionIdx → Fin kDefaultRingBufferSize → UInt8) (clock : Seconds)
    (i : SessionIdx) : ((start W heap clock).slot i).Owned := by
  rw [start_slot]
  exact Slot.Owned.vacant rfl fun h => by cases h

theorem step_owned (hs : s.Sound) {i : SessionIdx} (h : (s.slot i).Owned) (a : Action W) :
    ((step s a).slot i).Owned := by
  rw [slot_step hs]
  exact h.apply (count_nonneg s i) (slot_fits hs a i)

section
variable (heap : SessionIdx → Fin kDefaultRingBufferSize → UInt8) (clock : Seconds)

theorem run_owned (as : List (Action W)) (i : SessionIdx) :
    ((run step (start W heap clock) as).slot i).Owned :=
  (run_keeps_all (I := fun s : Network W => s.Sound ∧ (s.slot i).Owned) _
    (fun _ a h => ⟨step_sound h.1 a, step_owned h.1 h.2 a⟩)
    ⟨start_sound W heap clock, start_owned heap clock i⟩ as).2

/-- **There is never more than one accept for a session, there is none while it is activated, and what
the accept uses stays as it is until the completion has been taken up.** -/
theorem one_accept_run (as : List (Action W)) (i : SessionIdx) :
    (run step (start W heap clock) as).accepts i ≤ 1 ∧
      (((run step (start W heap clock) as).session i).isActivated = true →
        (run step (start W heap clock) as).accepts i = 0) ∧
      ((run step (start W heap clock) as).accepts i ≠ 0 →
        (run step (start W heap clock) as).accepter.isAt i ≠ .inside ∧
          ∀ a, ((run step (start W heap clock) as).session i).SameAccept
            ((step (run step (start W heap clock) as) a).session i)) := by
  have h := run_owned heap clock as i
  generalize run step (start W heap clock) as = s at h ⊢
  have h0 := count_nonneg s i
  have hone := h.one
  have hle : s.accepts i ≤ (s.slot i).owners := Slot.le_owners h0 rfl
  have hact := (s.slot i).active_nonneg
  have hnon : 0 ≤ s.accepts i := h0 .accepting
  refine ⟨by omega, fun ha => ?_, fun hne => ?_⟩
  · have e : (s.slot i).active = 1 := if_pos ha
    omega
  · -- the accept is the one owner
    have hclosing : (s.slot i).count .closing = 0 := by
      have h1 := h0 .opening
      have h2 := h0 .closing
      have h3 := h0 .cleared
      have hsum : s.accepts i + (s.slot i).count .opening + (s.slot i).count .closing
          + (s.slot i).count .cleared = (s.slot i).owners := rfl
      omega
    have hin : (s.slot i).accepter ≠ .inside := by
      intro e
      have := h.free (.inr (by rw [e]; simp))
      omega
    exact ⟨hin, step_sameAccept hin hclosing⟩

end

end Network

end Iocp
