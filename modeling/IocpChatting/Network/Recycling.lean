import IocpChatting.Network.Accepts

/-!
# Closed sessions

`CloseSocket` stores `UINT64_MAX` before it finds out that the session has been closed already, and then
nobody stores a time again.

* `Slot.Recyclable`     what keeps a slot in use: an owner, a close time, or the accepter on its way;
* `recycled_run`        a session that has been connected is bound again, as long as `Recycles` holds of
                        every step;
* `closed_twice`        and a run in which it does not.
-/

set_option linter.unusedSectionVars false
set_option autoImplicit false

namespace Iocp
open Runs Census

namespace Network

variable {W : Nat} {s : Network W}

/-! ## slots that are used again -/

namespace Slot

/-- no connection, and nobody is about to make one or to close one -/
def Idle (σ : Slot) : Prop :=
  σ.isActivated = false ∧ σ.count .accepting = 0 ∧ σ.count .opening = 0 ∧ σ.count .starting = 0 ∧
    σ.count .closing = 0 ∧ σ.count .cleared = 0 ∧ σ.count .leaving = 0 ∧
    σ.accepter ≠ .chosen ∧ σ.accepter ≠ .inside

instance (σ : Slot) : Decidable σ.Idle := inferInstanceAs (Decidable (_ ∧ _))

def Recyclable (σ : Slot) : Prop :=
  1 ≤ σ.owners + σ.active ∨ σ.closedTime ≠ uint64Max ∨ σ.accepter = .chosen ∨ σ.accepter = .inside

/-- an event that does not lose the slot -/
def Spares (σ : Slot) (e : Event) : Prop :=
  e ≠ .abandon ∧ e ≠ .bindFails ∧
    (e = .storeMax → σ.closedTime = uint64Max ∨ σ.accepter = .chosen ∨ σ.accepter = .inside)

instance (σ : Slot) (e : Event) : Decidable (σ.Spares e) := inferInstanceAs (Decidable (_ ∧ _))

theorem Recyclable.keep {σ τ : Slot} (h : σ.Recyclable) (hn : σ.owners + σ.active ≤ τ.owners + τ.active)
    (hc : τ.closedTime = σ.closedTime) (ha : τ.accepter = σ.accepter) : τ.Recyclable := by
  rcases h with h | h
  · exact .inl (by omega)
  · rw [← hc, ← ha] at h
    exact .inr h

/-- a party goes from `p` to `q`, which weighs as much -/
theorem Recyclable.shift {σ τ : Slot} (h : σ.Recyclable) (p q : Option Phase)
    (hcount : τ.count = (σ.move p q).count) (hact : τ.isActivated = σ.isActivated)
    (hw : weight q = weight p) (hc : τ.closedTime = σ.closedTime) (ha : τ.accepter = σ.accepter) :
    τ.Recyclable := by
  have e := owners_shift hcount hact
  exact h.keep (by omega) hc ha

theorem Recyclable.apply {σ : Slot} (h0 : ∀ p, 0 ≤ σ.count p) (ho : σ.Owned) (h : σ.Recyclable)
    {e : Event} (hf : σ.Fits e) (hs : σ.Spares e) : (σ.apply e).Recyclable := by
  cases e with
  | quiet | sendDone => exact h
  | abandon => exact absurd rfl hs.1
  | bindFails => exact absurd rfl hs.2.1
  | takeUp => exact h.shift (some .accepting) (some .opening) rfl rfl rfl rfl rfl
  | activated => exact h.shift (some .finishing) none rfl rfl rfl rfl rfl
  | exit => exact h.shift none (some .starting) rfl rfl rfl rfl rfl
  | lose => exact h.shift (some .starting) none rfl rfl rfl rfl rfl
  | clear => exact h.shift (some .closing) (some .cleared) rfl rfl rfl rfl rfl
  | leave => exact h.shift (some .leaving) none rfl rfl rfl rfl rfl
  | bindSend => exact h.shift none (some .binding) rfl rfl rfl rfl rfl
  | sendReturns => exact h.shift (some .binding) none rfl rfl rfl rfl rfl
  | sendFails => exact h.shift (some .binding) (some .starting) rfl rfl rfl rfl rfl
  | activate =>
    have hn : (σ.apply .activate).owners = σ.owners - 1 + 0 :=
      owners_move σ (some .opening) (some .finishing)
    have ha : (σ.apply .activate).active = 1 := rfl
    have h1 : 1 ≤ σ.count .opening := hf
    have h2 := le_owners h0 (p := .opening) rfl
    exact .inl (by omega)
  | win =>
    have h1 : σ.active = 1 := if_pos hf.2
    have hn : (σ.apply .win).owners = σ.owners - 0 + 1 := owners_move σ (some .starting) (some .closing)
    have ha : (σ.apply .win).active = 0 := rfl
    exact h.keep (by omega) rfl rfl
  | issue =>
    have hin : σ.accepter = .inside := hf
    have hzero := ho.free (.inr (by rw [hin]; simp))
    have hn : (σ.apply .issue).owners = σ.owners - 0 + 1 := owners_move σ none (some .accepting)
    have ha : (σ.apply .issue).active = σ.active := rfl
    exact .inl (by omega)
  | storeMax =>
    have hacc : σ.closedTime ≠ uint64Max ∨ σ.accepter = .chosen ∨ σ.accepter = .inside →
        σ.accepter = .chosen ∨ σ.accepter = .inside := by
      rintro (hne | hacc)
      · exact (hs.2.2 rfl).resolve_left hne
      · exact hacc
    rcases h with h | h
    · exact .inl h
    · exact .inr (.inr (hacc h))
  | storeTime t =>
    refine .inr (.inl ?_)
    show t ≠ uint64Max
    have := hf.2
    omega
  | pass =>
    refine .inr (.inl ?_)
    show σ.closedTime ≠ uint64Max
    have h1 : σ.closedTime < uint64Max := hf
    omega
  | giveUp =>
    have hp : σ.accepter = .passed := hf
    rcases h with h | h | h | h
    · exact .inl h
    · exact .inr (.inl h)
    · rw [hp] at h
      cases h
    · rw [hp] at h
      cases h
  | choose => exact .inr (.inr (.inl rfl))
  | storeAccept => exact .inr (.inr (.inr rfl))

/-- a slot that is in use has its time when nothing is going on -/
theorem Recyclable.closedTime {σ : Slot} (h : σ.Recyclable) (hidle : σ.Idle) :
    σ.closedTime ≠ uint64Max := by
  obtain ⟨hact, h1, h2, _, h3, h4, _, hchosen, hinside⟩ := hidle
  have ho : σ.owners = 0 := by
    unfold owners
    omega
  have ha : σ.active = 0 := by
    unfold active
    rw [hact]
    rfl
  rcases h with h | h | h | h
  · omega
  · exact h
  · exact absurd h hchosen
  · exact absurd h hinside

end Slot

/-! ## runs -/

/-- the call of `OnConnect` that a step makes -/
def connectCall (s : Network W) : Action W → Option SessionIdx
  | .worker w _ =>
    match s.worker w with
    | .onConnect i => if s.crashed then none else some i
    | _ => none
  | _ => none

/-- `OnConnect` has been called for `i` -/
def wasConnected (i : SessionIdx) (h : History W) : Bool :=
  h.any fun x => x.1.connectCall x.2 == some i

theorem wasConnected_snoc (i : SessionIdx) (h : History W) (a : Action W) :
    wasConnected i (h ++ [(s, a)]) = (wasConnected i h || s.connectCall a == some i) := by
  simp [wasConnected]

theorem connectCall_eq_some {a : Action W} {i : SessionIdx} (h : s.connectCall a = some i) :
    s.crashed = false ∧ ∃ w ok, a = .worker w ok ∧ s.worker w = .onConnect i := by
  cases a with
  | worker w ok =>
    simp only [connectCall] at h
    split at h
    · next j hpc =>
      split at h
      · cases h
      · next hc =>
        cases h
        exact ⟨by simpa using hc, w, ok, rfl, hpc⟩
    · cases h
  | _ => cases h

/-- **The condition.**  Once `i` has been connected, `WSASocket`, `AcceptEx` and `CreateIoCompletionPort`
succeed for it, and `CloseSocket` stores `UINT64_MAX` only where it is stored already or the accepter
stores it next. -/
def Recycles (i : SessionIdx) (h : History W) (s : Network W) (a : Action W) : Prop :=
  wasConnected i h = true → (s.slot i).Spares (s.event a i)

instance (i : SessionIdx) (h : History W) (s : Network W) (a : Action W) :
    Decidable (Recycles i h s a) := inferInstanceAs (Decidable (_ → _))

theorem recyclable_step (hs : s.Sound) {i : SessionIdx} (ho : (s.slot i).Owned) {h : History W}
    {a : Action W} (hI : wasConnected i h = true → (s.slot i).Recyclable) (hC : Recycles i h s a)
    (hconn : wasConnected i (h ++ [(s, a)]) = true) : ((step s a).slot i).Recyclable := by
  rw [wasConnected_snoc, Bool.or_eq_true] at hconn
  rw [slot_step hs]
  rcases hconn with hconn | hconn
  · exact (hI hconn).apply (count_nonneg s i) ho (slot_fits hs a i) (hC hconn)
  · -- the worker that calls `OnConnect` is an owner
    obtain ⟨hc, w, ok, rfl, hpc⟩ := connectCall_eq_some (by simpa using hconn)
    have hquiet : s.event (.worker w ok) i = .quiet := by
      simp [event, hc, workerEvent, hpc]
    have h1 : 1 ≤ (s.slot i).count .opening := count_worker (by
      rw [hpc]
      exact phaseAt_self i _)
    have h2 := Slot.le_owners (count_nonneg s i) (p := .opening) rfl
    have h3 := (s.slot i).active_nonneg
    rw [hquiet]
    exact .inl (by show 1 ≤ (s.slot i).owners + (s.slot i).active; omega)

/-- the accepter that comes to a session whose close time is long past binds it -/
theorem accepter_binds {i : SessionIdx} {t : Seconds} (hc : s.crashed = false)
    (hact : (s.session i).isActivated = false)
    (hlt : (s.session i).latestConnClosed + kSessionReuseSeconds < t) (ok ok' ok'' : Bool) :
    (run step { s with accepter := .readActivated t i }
      [.accepter ok, .accepter ok', .accepter ok'']).accepter = .bindAccept t i := by
  have hge : ¬ (t : Nat) < (s.session i).latestConnClosed := by omega
  have hdiff : ¬ closedDiff t (s.session i).latestConnClosed ≤ kSessionReuseSeconds := by
    have := t.isLt
    have e : (t + (2^64 - (s.session i).latestConnClosed)) % 2^64
        = t - (s.session i).latestConnClosed := by omega
    unfold closedDiff
    omega
  simp [step, accepterStep, hc, hact, hge, hdiff]

section
variable (heap : SessionIdx → Fin kDefaultRingBufferSize → UInt8) (clock : Seconds)

/-- **A session that has been connected and on which nothing is going on has its close time, and the
accepter binds it once that is long past, as long as `Recycles` holds of every step.** -/
theorem recycled_run (as : List (Action W)) (i : SessionIdx)
    (hC : ∀ bs a cs, as = bs ++ a :: cs →
      Recycles i (hist step (start W heap clock) bs) (run step (start W heap clock) bs) a)
    (hconn : wasConnected i (hist step (start W heap clock) as) = true)
    (hidle : ((run step (start W heap clock) as).slot i).Idle) :
    ((run step (start W heap clock) as).session i).latestConnClosed ≠ uint64Max ∧
      ((run step (start W heap clock) as).crashed = false →
        ∀ t : Seconds,
          ((run step (start W heap clock) as).session i).latestConnClosed + kSessionReuseSeconds < t →
          ∀ ok ok' ok'', (run step { run step (start W heap clock) as with
              accepter := .readActivated t i }
            [.accepter ok, .accepter ok', .accepter ok'']).accepter = .bindAccept t i) := by
  have h := @hist_keeps _ _ step
    (fun h s => s.Sound ∧ (s.slot i).Owned ∧ (wasConnected i h = true → (s.slot i).Recyclable))
    (Recycles i) (start W heap clock) ⟨start_sound W heap clock, start_owned heap clock i, fun e => by cases e⟩
    (fun h s a hI hC => ⟨step_sound hI.1 a, step_owned hI.1 hI.2.1 a,
      recyclable_step hI.1 hI.2.1 hI.2.2 hC⟩) as hC
  exact ⟨(h.2.2 hconn).closedTime hidle,
    fun hc t hlt ok ok' ok'' => accepter_binds hc hidle.1 hlt ok ok' ok''⟩

end

/-- session 0 is accepted, and its first receive is pending -/
def opened : List (Action 1) :=
  [.tick 10] ++ List.replicate 9 (.accepter true) ++ [.complete 0 true 0]
    ++ List.replicate 13 (.worker 0 true)

/-- the client closes its end -/
def clientLeaves : List (Action 1) :=
  opened ++ [.complete 0 true 0] ++ List.replicate 12 (.worker 0 true)

theorem recycled_clientLeaves :
    ((run step (start 1 (fun _ _ => 0) 0) clientLeaves).session 0).latestConnClosed ≠ uint64Max :=
  (recycled_run (fun _ _ => 0) 0 clientLeaves 0
    (along_split step (h := []) (s := start 1 (fun _ _ => 0) 0) (by decide +kernel))
    (by decide +kernel) (by decide +kernel)).1

/-- a receive and a send are pending, and both fail -/
def bothFail : List (Action 1) :=
  opened ++ [.sendPacket 0 [1]] ++ List.replicate 6 (.sender .pending)
    ++ [.complete 0 false 0, .complete 0 false 0] ++ List.replicate 17 (.worker 0 true)

/-- The second completion stores `UINT64_MAX` over the time of the first one, and nothing is going on
any more. -/
theorem closed_twice :
    wasConnected 0 (hist step (start 1 (fun _ _ => 0) 0) bothFail) = true ∧
      ((run step (start 1 (fun _ _ => 0) 0) bothFail).slot 0).Idle ∧
      ((run step (start 1 (fun _ _ => 0) 0) bothFail).session 0).latestConnClosed = uint64Max := by
  decide +kernel

end Network

end Iocp
