import Mathlib.Data.List.Infix

/-!
# A queue whose entries are served in turn

In one turn the first entry leaves the queue, and it may come back at the end (`Turn`); nothing else
enters.  `q n` is the queue after `n` turns.

* `absent_stays`      an entry that is out stays out;
* `turn_comes`        an entry that is in comes to the front;
* `leaves_queue`      an entry whose every turn takes something off a number that no other turn
                      raises is out one day.
-/

set_option linter.unusedSectionVars false
set_option autoImplicit false

namespace Turns

variable {κ : Type*}

/-- one turn of the queue -/
inductive Turn : List κ → List κ → Prop
  | idle : Turn [] []
  | leave (k : κ) (l : List κ) : Turn (k :: l) l
  | again (k : κ) (l : List κ) : Turn (k :: l) (l ++ [k])

theorem Turn.mem {l l' : List κ} (h : Turn l l') {k : κ} (hk : k ∈ l') : k ∈ l := by
  cases h with
  | idle => exact hk
  | leave k' => exact List.mem_cons_of_mem _ hk
  | again k' =>
    rcases List.mem_append.mp hk with hk | hk
    · exact List.mem_cons_of_mem _ hk
    · rw [List.mem_singleton.mp hk]
      exact List.mem_cons_self

/-- the turn of another entry moves `k` one place up -/
theorem Turn.moves_up {k k' : κ} {l₁ l₂ l' : List κ} (h : Turn (k' :: l₁ ++ k :: l₂) l') :
    ∃ l₂', l' = l₁ ++ k :: l₂' := by
  cases h with
  | leave => exact ⟨l₂, rfl⟩
  | again => exact ⟨l₂ ++ [k'], by simp⟩

/-- as often as before, if it is the turn of another entry -/
theorem Turn.count_eq [DecidableEq κ] {l l' : List κ} (h : Turn l l') {k : κ}
    (hk : l.head? ≠ some k) : l'.count k = l.count k := by
  cases h with
  | idle => rfl
  | leave k' => rw [List.count_cons_of_ne (fun e => hk (congrArg some e))]
  | again k' =>
    have hne : k' ≠ k := fun e => hk (congrArg some e)
    rw [List.count_cons_of_ne hne, List.count_append, List.count_singleton,
      if_neg (by simpa using hne), Nat.add_zero]

variable {q : ℕ → List κ} {k : κ} {n : ℕ}

theorem absent_stays (hq : ∀ n, Turn (q n) (q (n + 1))) (hk : k ∉ q n) {m : ℕ} (hm : n ≤ m) :
    k ∉ q m := by
  induction m, hm using Nat.le_induction with
  | base => exact hk
  | succ m hm ih => exact fun h => ih ((hq m).mem h)

/-- **Everybody's turn comes.** -/
theorem turn_comes (hq : ∀ n, Turn (q n) (q (n + 1))) (hk : k ∈ q n) :
    ∃ m, n ≤ m ∧ (q m).head? = some k := by
  obtain ⟨l₁, l₂, e⟩ := List.append_of_mem hk
  -- the entries before `k` get fewer with every turn
  induction l₁ generalizing n l₂ with
  | nil => exact ⟨n, Nat.le_refl n, by rw [e]; rfl⟩
  | cons k' l₁ ih =>
    have hturn := hq n
    rw [e] at hturn
    obtain ⟨l₂', e'⟩ := hturn.moves_up
    have hk' : k ∈ q (n + 1) := by
      rw [e']
      exact List.mem_append_right _ List.mem_cons_self
    obtain ⟨m, hm, hhead⟩ := ih hk' l₂' e'
    exact ⟨m, by omega, hhead⟩

/-- **The last turn.**  From `n` on, `work` goes down in every turn of `k` and up in no turn. -/
theorem leaves_queue (hq : ∀ n, Turn (q n) (q (n + 1))) (work : ℕ → ℕ)
    (hown : ∀ m, n ≤ m → (q m).head? = some k → work (m + 1) < work m)
    (hother : ∀ m, n ≤ m → (q m).head? ≠ some k → work (m + 1) ≤ work m) :
    ∃ m, n ≤ m ∧ k ∉ q m := by
  generalize hw : work n = w
  induction w using Nat.strong_induction_on generalizing n with
  | _ w ih =>
    by_cases hk : k ∈ q n
    · obtain ⟨m, hm, hhead⟩ := turn_comes hq hk
      have hdown : work m ≤ work n := by
        clear hhead
        induction m, hm using Nat.le_induction with
        | base => exact Nat.le_refl _
        | succ m hm ihm =>
          by_cases hh : (q m).head? = some k
          · exact (hown m hm hh).le.trans ihm
          · exact (hother m hm hh).trans ihm
      have hlt : work (m + 1) < w := by
        rw [← hw]
        exact (hown m hm hhead).trans_le hdown
      obtain ⟨m', hm', hout⟩ := ih _ hlt (fun j hj => hown j (by omega))
        (fun j hj => hother j (by omega)) rfl
      exact ⟨m', by omega, hout⟩
    · exact ⟨n, Nat.le_refl n, hk⟩

end Turns
