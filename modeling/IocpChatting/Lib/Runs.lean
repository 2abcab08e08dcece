import Mathlib.Data.List.Induction

/-!
# Runs of a machine with a total step function

A machine is a function `step : σ → α → σ`; an action that finds nothing to do leaves the state
alone, so every list of actions is a run.

* `run step s as`    the state after the actions `as`;
* `hist step s as`   the steps of that run, in order, each with the state BEFORE it.

`run_keeps`, `run_keeps_iff` and `hist_keeps` are the induction rules for facts about whole runs:
an invariant kept by every allowed step, the same with the exact condition of a step, and an
invariant that also speaks about the history.  `run_refines` carries a step-by-step refinement
to runs, `run_projects` one that does not see every step, `run_rank` a number that the steps of
one party bring down, and `hist_budget` one that pays for some of the steps of a stretch.
-/

set_option linter.unusedSectionVars false
set_option autoImplicit false

namespace Runs

variable {σ α : Type*} (step : σ → α → σ)

def run (s : σ) (as : List α) : σ := as.foldl step s

def hist : σ → List α → List (σ × α)
  | _, [] => []
  | s, a :: as => (s, a) :: hist (step s a) as

@[simp] theorem run_nil (s : σ) : run step s [] = s := rfl
@[simp] theorem run_cons (s : σ) (a : α) (as : List α) :
    run step s (a :: as) = run step (step s a) as := rfl

theorem run_append (s : σ) (as bs : List α) :
    run step s (as ++ bs) = run step (run step s as) bs := List.foldl_append

theorem run_snoc (s : σ) (as : List α) (a : α) :
    run step s (as ++ [a]) = step (run step s as) a := by
  rw [run_append]; rfl

@[simp] theorem hist_nil (s : σ) : hist step s [] = [] := rfl
@[simp] theorem hist_cons (s : σ) (a : α) (as : List α) :
    hist step s (a :: as) = (s, a) :: hist step (step s a) as := rfl

theorem hist_append (s : σ) (as bs : List α) :
    hist step s (as ++ bs) = hist step s as ++ hist step (run step s as) bs := by
  induction as generalizing s with
  | nil => rfl
  | cons a as ih => simp only [List.cons_append, hist_cons, run_cons, ih]

theorem hist_snoc (s : σ) (as : List α) (a : α) :
    hist step s (as ++ [a]) = hist step s as ++ [(run step s as, a)] := by
  rw [hist_append]; rfl

theorem hist_labels {β : Type*} (f : α → β) (s : σ) (as : List α) :
    (hist step s as).map (fun x => f x.2) = as.map f := by
  induction as generalizing s with
  | nil => rfl
  | cons a as ih => rw [hist_cons, List.map_cons, List.map_cons, ih]

/-- every step of a history starts in a state that an initial part of the run reaches -/
theorem mem_hist {s : σ} {as : List α} {x : σ × α} (h : x ∈ hist step s as) :
    ∃ bs cs, as = bs ++ x.2 :: cs ∧ x.1 = run step s bs := by
  induction as generalizing s with
  | nil => simp at h
  | cons a as ih =>
    rcases List.mem_cons.mp h with rfl | h
    · exact ⟨[], as, rfl, rfl⟩
    · obtain ⟨bs, cs, rfl, hx⟩ := ih h
      exact ⟨a :: bs, cs, rfl, hx⟩

/-- and conversely -/
theorem split_mem_hist {s : σ} {as bs cs : List α} {a : α} (h : as = bs ++ a :: cs) :
    (run step s bs, a) ∈ hist step s as := by
  rw [h, hist_append, hist_cons]
  exact List.mem_append_right _ List.mem_cons_self

/-- **Invariant rule.**  An invariant kept by every step that meets `C` holds after every run
whose steps all meet `C`. -/
theorem run_keeps {I : σ → Prop} {C : σ → α → Prop}
    (hstep : ∀ s a, I s → C s a → I (step s a)) {s : σ} (h0 : I s) (as : List α)
    (hC : ∀ x ∈ hist step s as, C x.1 x.2) : I (run step s as) := by
  induction as generalizing s with
  | nil => exact h0
  | cons a as ih =>
    have ha : C s a := hC (s, a) List.mem_cons_self
    exact ih (hstep s a h0 ha) (fun x hx => hC x (List.mem_cons_of_mem _ hx))

/-- and before every step of it -/
theorem hist_run_keeps {I : σ → Prop} {C : σ → α → Prop}
    (hstep : ∀ s a, I s → C s a → I (step s a)) {s : σ} (h0 : I s) (as : List α)
    (hC : ∀ x ∈ hist step s as, C x.1 x.2) : ∀ x ∈ hist step s as, I x.1 := by
  intro x hx
  obtain ⟨bs, cs, e, hx1⟩ := mem_hist step hx
  rw [hx1]
  refine run_keeps step hstep h0 bs fun y hy => hC y ?_
  rw [e, hist_append]
  exact List.mem_append_left _ hy

theorem run_keeps_all {I : σ → Prop} (hstep : ∀ s a, I s → I (step s a)) {s : σ} (h0 : I s)
    (as : List α) : I (run step s as) :=
  @run_keeps σ α step I (fun _ _ => True) (fun s a h _ => hstep s a h) s h0 as (fun _ _ => trivial)

theorem hist_keeps_all {I : σ → Prop} (hstep : ∀ s a, I s → I (step s a)) {s : σ} (h0 : I s)
    (as : List α) : ∀ x ∈ hist step s as, I x.1 := by
  intro x hx
  obtain ⟨bs, cs, _, e⟩ := mem_hist step hx
  rw [e]
  exact run_keeps_all step hstep h0 bs

/-- **Progress rule.**  Each step of one party takes something off a number that nobody raises. -/
theorem run_rank {I : σ → Prop} (mine : α → Bool) (rank : σ → Nat)
    (hI : ∀ s a, I s → I (step s a))
    (hmine : ∀ s a, I s → mine a = true → rank (step s a) ≤ rank s - 1)
    (hother : ∀ s a, I s → mine a = false → rank (step s a) ≤ rank s) {s : σ} (h0 : I s)
    (as : List α) : rank (run step s as) ≤ rank s - as.countP mine := by
  induction as generalizing s with
  | nil => exact Nat.le_refl _
  | cons a as ih =>
    have hrest := ih (hI s a h0)
    rw [run_cons]
    cases ha : mine a with
    | true =>
      have hstep := hmine s a h0 ha
      rw [List.countP_cons_of_pos ha]
      omega
    | false =>
      have hstep := hother s a h0 ha
      rw [List.countP_cons_of_neg (by rw [ha]; exact Bool.false_ne_true)]
      omega

/-- **Budget rule.**  A step that spends takes one off a number that no step with `C` raises. -/
theorem hist_budget (spends : σ × α → Bool) (rank : σ → Nat) {C : σ → α → Prop}
    (hstep : ∀ s a, C s a → rank (step s a) + (if spends (s, a) then 1 else 0) ≤ rank s) (s : σ) (as : List α)
    (hC : ∀ x ∈ hist step s as, C x.1 x.2) :
    rank (run step s as) + (hist step s as).countP spends ≤ rank s := by
  induction as generalizing s with
  | nil => exact Nat.le_refl _
  | cons a as ih =>
    have ha := hstep s a (hC (s, a) List.mem_cons_self)
    have hrest := ih (step s a) fun x hx => hC x (List.mem_cons_of_mem _ hx)
    rw [run_cons, hist_cons, List.countP_cons]
    omega

/-- **Exact invariant rule.**  Where the side condition `F` holds, a step out of `I` keeps `I`
exactly if it meets `C`.  Then `I` holds all along a run exactly if every step of it meets
`C`. -/
theorem run_keeps_iff {I : σ → Prop} {F C : σ → α → Prop}
    (hstep : ∀ s a, F s a → I s → (I (step s a) ↔ C s a)) {s : σ} (h0 : I s) (as : List α)
    (hF : ∀ x ∈ hist step s as, F x.1 x.2) :
    ((∀ x ∈ hist step s as, I x.1) ∧ I (run step s as)) ↔ ∀ x ∈ hist step s as, C x.1 x.2 := by
  induction as generalizing s with
  | nil => simpa using h0
  | cons a as ih =>
    simp only [hist_cons, run_cons, List.forall_mem_cons] at hF ⊢
    obtain ⟨ha, hF⟩ := hF
    have key := hstep s a ha h0
    constructor
    · rintro ⟨⟨_, hall⟩, hend⟩
      have h1 : I (step s a) := by
        cases as with
        | nil => exact hend
        | cons b bs => exact hall _ List.mem_cons_self
      exact ⟨key.mp h1, (ih h1 hF).mp ⟨hall, hend⟩⟩
    · rintro ⟨hc, hC⟩
      have h1 : I (step s a) := key.mpr hc
      have h2 := (ih h1 hF).mpr hC
      exact ⟨⟨h0, h2.1⟩, h2.2⟩

/-- **Refinement rule.**  `view` maps every step that starts in `J` and meets `C` to the step `label`
of the machine `apply`; then it maps whole runs to runs. -/
theorem run_refines {τ β : Type*} (apply : τ → β → τ) (view : σ → τ) (label : σ → α → β)
    {J : σ → Prop} {C : σ → α → Prop} (hJ : ∀ s a, J s → C s a → J (step s a))
    (hstep : ∀ s a, J s → C s a → view (step s a) = apply (view s) (label s a)) {s : σ} (j0 : J s)
    (as : List α) (hC : ∀ x ∈ hist step s as, C x.1 x.2) :
    view (run step s as) = run apply (view s) ((hist step s as).map fun x => label x.1 x.2) ∧
      hist apply (view s) ((hist step s as).map fun x => label x.1 x.2)
        = (hist step s as).map fun x => (view x.1, label x.1 x.2) := by
  induction as generalizing s with
  | nil => exact ⟨rfl, rfl⟩
  | cons a as ih =>
    have ha : C s a := hC (s, a) List.mem_cons_self
    have e := hstep s a j0 ha
    obtain ⟨h1, h2⟩ := ih (hJ s a j0 ha) (fun x hx => hC x (List.mem_cons_of_mem _ hx))
    rw [e] at h1 h2
    simp only [hist_cons, run_cons, List.map_cons]
    exact ⟨h1, by rw [h2]⟩

/-- **Projection rule.**  `view` maps every step to the step `label` of the machine `apply`, or to
nothing where there is none; then it maps whole runs to runs of that machine. -/
theorem run_projects {τ β : Type*} (apply : τ → β → τ) (view : σ → τ) (label : σ → α → Option β)
    (hstep : ∀ s a, view (step s a) = (label s a).elim (view s) (apply (view s))) (s : σ) (as : List α) :
    view (run step s as) = run apply (view s) ((hist step s as).filterMap fun x => label x.1 x.2) ∧
      hist apply (view s) ((hist step s as).filterMap fun x => label x.1 x.2)
        = (hist step s as).filterMap fun x => (label x.1 x.2).map fun b => (view x.1, b) := by
  induction as generalizing s with
  | nil => exact ⟨rfl, rfl⟩
  | cons a as ih =>
    have e := hstep s a
    obtain ⟨h1, h2⟩ := ih (step s a)
    cases hl : label s a with
    | none =>
      rw [hl, Option.elim_none] at e
      rw [e] at h1 h2
      simp only [hist_cons, run_cons, List.filterMap_cons, hl, Option.map_none]
      exact ⟨h1, h2⟩
    | some b =>
      rw [hl, Option.elim_some] at e
      rw [e] at h1 h2
      simp only [hist_cons, run_cons, List.filterMap_cons, hl, Option.map_some]
      exact ⟨h1, by rw [h2]⟩

/-- **History rule.**  An invariant about the history so far and the state reached, kept by
every step that meets `C` (which may look at the history as well). -/
theorem hist_keeps {I : List (σ × α) → σ → Prop} {C : List (σ × α) → σ → α → Prop} {s₀ : σ}
    (h0 : I [] s₀)
    (hstep : ∀ h s a, I h s → C h s a → I (h ++ [(s, a)]) (step s a)) (as : List α)
    (hC : ∀ bs a cs, as = bs ++ a :: cs → C (hist step s₀ bs) (run step s₀ bs) a) :
    I (hist step s₀ as) (run step s₀ as) := by
  induction as using List.reverseRecOn with
  | nil => exact h0
  | append_singleton as a ih =>
    rw [hist_snoc, run_snoc]
    refine hstep _ _ _ (ih ?_) (hC as a [] rfl)
    intro bs b cs hb
    exact hC bs b (cs ++ [a]) (by rw [hb]; simp)

/-- **Exact history rule.**  From a history with `I`, a step does `P` and keeps `I` exactly if it
meets `C`.  Then `I` and `P` hold all along a run exactly if every step of it meets `C`. -/
theorem hist_keeps_iff {I : List (σ × α) → σ → Prop} {P C : List (σ × α) → σ → α → Prop} {s₀ : σ}
    (h0 : I [] s₀)
    (hstep : ∀ bs a, I (hist step s₀ bs) (run step s₀ bs) →
      (P (hist step s₀ bs) (run step s₀ bs) a ∧
          I (hist step s₀ bs ++ [(run step s₀ bs, a)]) (step (run step s₀ bs) a)
        ↔ C (hist step s₀ bs) (run step s₀ bs) a))
    (as : List α) :
    ((∀ bs cs, as = bs ++ cs → I (hist step s₀ bs) (run step s₀ bs)) ∧
        ∀ bs a cs, as = bs ++ a :: cs → P (hist step s₀ bs) (run step s₀ bs) a)
      ↔ ∀ bs a cs, as = bs ++ a :: cs → C (hist step s₀ bs) (run step s₀ bs) a := by
  constructor
  · rintro ⟨hI, hP⟩ bs a cs e
    refine (hstep bs a (hI bs (a :: cs) e)).mp ⟨hP bs a cs e, ?_⟩
    rw [← hist_snoc, ← run_snoc step]
    exact hI (bs ++ [a]) cs (by rw [e]; simp)
  · intro hC
    have hI : ∀ bs cs, as = bs ++ cs → I (hist step s₀ bs) (run step s₀ bs) := by
      intro bs
      induction bs using List.reverseRecOn with
      | nil => exact fun _ _ => h0
      | append_singleton bs a ih =>
        intro cs e
        have e' : as = bs ++ a :: cs := by rw [e]; simp
        rw [hist_snoc, run_snoc]
        exact ((hstep bs a (ih (a :: cs) e')).mpr (hC bs a cs e')).2
    exact ⟨hI, fun bs a cs e => ((hstep bs a (hI bs (a :: cs) e)).mpr (hC bs a cs e)).1⟩

/-! ## checking a run step by step -/

/-- `C` holds of every step of the run `as` from `s`, where `h` is the history before -/
def Along (C : List (σ × α) → σ → α → Prop) : List (σ × α) → σ → List α → Prop
  | _, _, [] => True
  | h, s, a :: as => C h s a ∧ Along C (h ++ [(s, a)]) (step s a) as

instance decidableAlong (C : List (σ × α) → σ → α → Prop) [∀ h s a, Decidable (C h s a)] :
    ∀ h s as, Decidable (Along step C h s as)
  | _, _, [] => .isTrue trivial
  | h, s, a :: as =>
    have := decidableAlong C (h ++ [(s, a)]) (step s a) as
    inferInstanceAs (Decidable (C h s a ∧ _))

theorem along_split {C : List (σ × α) → σ → α → Prop} {h : List (σ × α)} {s : σ} {as : List α}
    (hC : Along step C h s as) :
    ∀ bs a cs, as = bs ++ a :: cs → C (h ++ hist step s bs) (run step s bs) a := by
  induction as generalizing h s with
  | nil => intro bs a cs e; simp at e
  | cons b as ih =>
    intro bs a cs e
    cases bs with
    | nil =>
      obtain ⟨rfl, rfl⟩ := List.cons.inj e
      rw [hist_nil, List.append_nil]
      exact hC.1
    | cons b' bs =>
      obtain ⟨rfl, rfl⟩ := List.cons.inj e
      have := ih hC.2 bs a cs rfl
      rw [List.append_assoc] at this
      exact this

end Runs
