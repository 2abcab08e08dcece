import Mathlib.Data.List.Pairwise
import Mathlib.Data.List.TakeWhile

/-!
# Equal ranges

`std::equal_range` on a range that is partitioned: the elements below the value come first, those
above it last, and the range is what stands between.

* `equalRange below above xs v`   the two ends of the range;
* `equalRange_found`, `equalRange_none`   in a list where everything before an element is below the
  values it is not above (`Apart`): the range of a value starts at the element that matches it, and is
  empty if there is none.
-/

set_option linter.unusedSectionVars false
set_option autoImplicit false

namespace EqualRange

variable {α β : Type*} (below above : α → β → Bool)

/-- `lower_bound` and `upper_bound` -/
def equalRange (xs : List α) (v : β) : Nat × Nat :=
  ((xs.takeWhile fun x => below x v).length, (xs.takeWhile fun x => !above x v).length)

/-- neither below nor above the value -/
def Matches (x : α) (v : β) : Prop := below x v = false ∧ above x v = false

/-- `x` stands before `y`: what `x` is not below is below `y` -/
def Apart (x y : α) : Prop := ∀ v, below x v = false → above y v = true

variable {below above}

theorem takeWhile_of_split {p : α → Bool} {xs ys : List α} {x : α} (hxs : ∀ y ∈ xs, p y = true)
    (hx : p x = false) : (xs ++ x :: ys).takeWhile p = xs := by
  rw [List.takeWhile_append_of_pos hxs, List.takeWhile_cons_of_neg (Bool.eq_false_iff.mp hx), List.append_nil]

/-- the elements before one that matches are below the value, and those after it above -/
theorem equalRange_found {xs ys : List α} {x : α} {v : β}
    (hs : ∀ y ∈ xs, below y v = true → above y v = false)
    (h : (xs ++ x :: ys).Pairwise (Apart below above)) (hx : Matches below above x v) :
    equalRange below above (xs ++ x :: ys) v = (xs.length, xs.length + 1) := by
  obtain ⟨_, hcons, hcross⟩ := List.pairwise_append.mp h
  have hbefore : ∀ y ∈ xs, below y v = true := by
    intro y hy
    by_contra hb
    have := hcross y hy x List.mem_cons_self v (Bool.eq_false_iff.mpr hb)
    rw [hx.2] at this
    exact Bool.false_ne_true this
  have hafter : ∀ y ∈ ys, above y v = true := fun y hy => (List.pairwise_cons.mp hcons).1 y hy v hx.1
  unfold equalRange
  rw [takeWhile_of_split hbefore hx.1]
  refine Prod.ext rfl ?_
  show ((xs ++ x :: ys).takeWhile fun y => !above y v).length = xs.length + 1
  rw [List.append_cons]
  have hpre : ∀ y ∈ xs ++ [x], (!above y v) = true := by
    intro y hy
    rcases List.mem_append.mp hy with hy | hy
    · rw [hs y hy (hbefore y hy)]
      rfl
    · rw [List.mem_singleton.mp hy, hx.2]
      rfl
  cases ys with
  | nil => rw [List.append_nil, List.takeWhile_eq_self_iff.mpr hpre, List.length_append, List.length_singleton]
  | cons y ys =>
    rw [takeWhile_of_split hpre (by rw [hafter y List.mem_cons_self]; rfl), List.length_append,
      List.length_singleton]

/-- where nothing matches, the range is empty -/
theorem equalRange_none {xs : List α} {v : β} (hs : ∀ x ∈ xs, below x v = true → above x v = false)
    (hn : ∀ x ∈ xs, ¬ Matches below above x v) :
    (equalRange below above xs v).1 = (equalRange below above xs v).2 := by
  unfold equalRange
  induction xs with
  | nil => rfl
  | cons a xs ih =>
    have ih := ih (fun x hx => hs x (List.mem_cons_of_mem _ hx)) fun x hx => hn x (List.mem_cons_of_mem _ hx)
    cases hb : below a v with
    | true =>
      have ha := hs a List.mem_cons_self hb
      simp only [List.takeWhile_cons, hb, ha, Bool.not_false, if_true, List.length_cons]
      exact congrArg (· + 1) ih
    | false =>
      cases ha : above a v with
      | true => simp [hb, ha]
      | false => exact absurd ⟨hb, ha⟩ (hn a List.mem_cons_self)

end EqualRange
