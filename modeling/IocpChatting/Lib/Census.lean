import Mathlib.Algebra.BigOperators.Group.Finset.Piecewise
import Mathlib.Algebra.BigOperators.Ring.Finset
import Mathlib.Algebra.Order.BigOperators.Group.Finset
import Mathlib.Algebra.Order.BigOperators.Group.List
import Mathlib.Algebra.Ring.Int.Defs
import Mathlib.Data.Fintype.Basic

/-!
# A census of parties by phase

Parties stand somewhere (a family `ι → β`), and tasks wait in lists (`List β`); `phase` says which phase
of one common protocol a place belongs to, if it does.

* `parties phase f p`   how many parties of the family are in phase `p`;
* `waiting phase l p`   how many entries of the list are.

One party that moves changes the census at its old and at its new phase (`parties_update`); an entry
that is appended or erased changes it at its phase (`waiting_append`, `waiting_eraseIdx`).  The counts
are integers, so that these are equations.  Where there is one phase only, `mark` makes it of a test, and the
census is a cardinality (`parties_mark`, `waiting_mark`).
-/

set_option linter.unusedSectionVars false
set_option autoImplicit false

namespace Census

variable {ι β κ : Type*} [DecidableEq κ]

/-- 1 at `q`, 0 elsewhere -/
def hit (q : Option κ) (p : κ) : ℤ := if q = some p then 1 else 0

@[simp] theorem hit_none (p : κ) : hit none p = 0 := if_neg (fun h => by cases h)

@[simp] theorem hit_self (p : κ) : hit (some p) p = 1 := if_pos rfl

theorem hit_of_ne {q : Option κ} {p : κ} (h : q ≠ some p) : hit q p = 0 := if_neg h

theorem hit_nonneg (q : Option κ) (p : κ) : 0 ≤ hit q p := by
  unfold hit
  split <;> omega

section
variable [Fintype ι] [DecidableEq ι] (phase : β → Option κ)

def parties (f : ι → β) (p : κ) : ℤ := ∑ i, hit (phase (f i)) p

theorem parties_update (f : ι → β) (i : ι) (b : β) (p : κ) :
    parties phase (Function.update f i b) p
      = parties phase f p - hit (phase (f i)) p + hit (phase b) p := by
  have e : (fun j => hit (phase (Function.update f i b j)) p)
      = Function.update (fun j => hit (phase (f j)) p) i (hit (phase b) p) := by
    funext j
    by_cases hj : j = i
    · subst hj
      rw [Function.update_self, Function.update_self]
    · rw [Function.update_of_ne hj, Function.update_of_ne hj]
  have hsplit := Finset.add_sum_erase Finset.univ (fun j => hit (phase (f j)) p) (Finset.mem_univ i)
  unfold parties
  rw [e, Finset.sum_update_of_mem (Finset.mem_univ i), Finset.sdiff_singleton_eq_erase]
  omega

theorem parties_nonneg (f : ι → β) (p : κ) : 0 ≤ parties phase f p :=
  Finset.sum_nonneg fun _ _ => hit_nonneg _ _

theorem parties_eq_zero {f : ι → β} {p : κ} (h : ∀ i, phase (f i) ≠ some p) : parties phase f p = 0 :=
  Finset.sum_eq_zero fun i _ => hit_of_ne (h i)

theorem hit_le_parties (f : ι → β) (i : ι) (p : κ) : hit (phase (f i)) p ≤ parties phase f p :=
  Finset.single_le_sum (f := fun j => hit (phase (f j)) p) (fun _ _ => hit_nonneg _ _)
    (Finset.mem_univ i)

end

section
variable (phase : β → Option κ)

def waiting (l : List β) (p : κ) : ℤ := (l.map fun b => hit (phase b) p).sum

@[simp] theorem waiting_nil (p : κ) : waiting phase [] p = 0 := rfl

@[simp] theorem waiting_cons (b : β) (l : List β) (p : κ) :
    waiting phase (b :: l) p = hit (phase b) p + waiting phase l p := rfl

theorem waiting_append (l l' : List β) (p : κ) :
    waiting phase (l ++ l') p = waiting phase l p + waiting phase l' p := by
  induction l with
  | nil => simp
  | cons b l ih =>
    rw [List.cons_append, waiting_cons, waiting_cons, ih]
    omega

theorem waiting_eraseIdx {l : List β} {k : Nat} {b : β} (h : l[k]? = some b) (p : κ) :
    waiting phase (l.eraseIdx k) p = waiting phase l p - hit (phase b) p := by
  induction l generalizing k with
  | nil => cases h
  | cons b' l ih =>
    cases k with
    | zero =>
      obtain rfl := Option.some.inj h
      rw [List.eraseIdx_cons_zero, waiting_cons]
      omega
    | succ k =>
      rw [List.eraseIdx_cons_succ, waiting_cons, waiting_cons, ih h]
      omega

theorem waiting_eq_zero {l : List β} {p : κ} (h : ∀ b ∈ l, phase b ≠ some p) : waiting phase l p = 0 := by
  induction l with
  | nil => rfl
  | cons b l ih =>
    rw [waiting_cons, hit_of_ne (h b List.mem_cons_self),
      ih fun b' hb' => h b' (List.mem_cons_of_mem _ hb')]
    omega

theorem waiting_nonneg (l : List β) (p : κ) : 0 ≤ waiting phase l p := by
  induction l with
  | nil => exact le_refl 0
  | cons b l ih =>
    have := hit_nonneg (phase b) p
    rw [waiting_cons]
    omega

end

/-! ## one phase -/

/-- the phase of those that pass a test -/
def mark (b : Bool) : Option Unit := if b then some () else none

theorem hit_mark (b : Bool) : hit (mark b) () = if b then 1 else 0 := by
  cases b <;> rfl

theorem parties_mark [Fintype ι] [DecidableEq ι] (test : β → Bool) (f : ι → β) :
    parties (fun b => mark (test b)) f () = (Finset.univ.filter fun i => test (f i) = true).card := by
  unfold parties
  rw [Finset.natCast_card_filter]
  exact Finset.sum_congr rfl fun i _ => hit_mark _

theorem waiting_mark (test : β → Bool) (l : List β) :
    waiting (fun b => mark (test b)) l () = l.countP test := by
  induction l with
  | nil => rfl
  | cons b l ih =>
    rw [waiting_cons, hit_mark, ih, List.countP_cons]
    split <;> omega

end Census
