import Mathlib.Logic.Function.Basic
import Mathlib.Data.List.Basic

/-!
# Cyclic windows of an array

An array `f : Fin n → α` read around its end.

* `shift i k`      the place `k` steps after `i`;
* `dist i j`       how many steps lead from `i` forward to `j` (less than a full turn);
* `window f i k`   the `k` values from place `i` on.

A ring buffer with front `i` and rear `j` holds `window f i (dist i j)`.  The lemmas say how a
window grows at its end (`window_add`, `window_update`) and shrinks at its front (`window_drop`).
-/

set_option autoImplicit false

namespace Cyclic

variable {n : Nat} {α : Type*}

/-- `k` places after `i`, around the end -/
def shift (i : Fin n) (k : Nat) : Fin n := ⟨(i + k) % n, Nat.mod_lt _ i.pos⟩

/-- steps from `i` forward to `j` -/
def dist (i j : Fin n) : Nat := if (j : Nat) < i then n - (i - j) else j - i

/-- the `k` values from place `i` on -/
def window (f : Fin n → α) : Fin n → Nat → List α
  | _, 0 => []
  | i, k+1 => f i :: window f (shift i 1) k

/-! ## places -/

theorem shift_val (i : Fin n) (k : Nat) : (shift i k : Nat) = (i + k) % n := rfl

@[simp] theorem shift_zero (i : Fin n) : shift i 0 = i :=
  Fin.ext (by rw [shift_val, Nat.add_zero, Nat.mod_eq_of_lt i.isLt])

theorem shift_shift (i : Fin n) (a b : Nat) : shift (shift i a) b = shift i (a + b) :=
  Fin.ext (by rw [shift_val, shift_val, shift_val, Nat.mod_add_mod, Nat.add_assoc])

theorem mod_two_turns {x : Nat} (h : x < 2 * n) : x % n = if x < n then x else x - n := by
  split
  · next hx => exact Nat.mod_eq_of_lt hx
  · next hx => rw [Nat.mod_eq_sub_mod (by omega), Nat.mod_eq_of_lt (by omega)]

theorem dist_lt (i j : Fin n) : dist i j < n := by
  have hi := i.isLt
  have hj := j.isLt
  unfold dist
  split <;> omega

@[simp] theorem dist_self (i : Fin n) : dist i i = 0 := by simp [dist]

theorem dist_eq_zero {i j : Fin n} : dist i j = 0 ↔ i = j := by
  have hi := i.isLt
  have hj := j.isLt
  rw [Fin.ext_iff]
  unfold dist
  split <;> omega

theorem shift_dist (i j : Fin n) : shift i (dist i j) = j := by
  have hi := i.isLt
  have hj := j.isLt
  have hd := dist_lt i j
  apply Fin.ext
  rw [shift_val, mod_two_turns (by omega)]
  unfold dist
  split <;> split <;> omega

theorem dist_shift (i : Fin n) {k : Nat} (hk : k < n) : dist i (shift i k) = k := by
  have hi := i.isLt
  unfold dist
  rw [shift_val, mod_two_turns (by omega)]
  split <;> split <;> omega

theorem shift_inj (i : Fin n) {a b : Nat} (ha : a < n) (hb : b < n) (h : shift i a = shift i b) :
    a = b := by
  rw [← dist_shift i ha, h, dist_shift i hb]

theorem dist_shift_right (i j : Fin n) {k : Nat} (h : dist i j + k < n) :
    dist i (shift j k) = dist i j + k := by
  have e : shift j k = shift i (dist i j + k) := by rw [← shift_shift, shift_dist]
  rw [e, dist_shift i h]

theorem dist_shift_left (i j : Fin n) {k : Nat} (h : k ≤ dist i j) :
    dist (shift i k) j = dist i j - k := by
  have hd := dist_lt i j
  have e : j = shift (shift i k) (dist i j - k) := by
    rw [shift_shift, Nat.add_sub_cancel' h, shift_dist]
  conv_lhs => rw [e]
  exact dist_shift _ (by omega)

/-- one step from `j` comes back to `i` exactly when the turn is full -/
theorem shift_one_eq (i j : Fin n) : shift j 1 = i ↔ dist i j + 1 = n := by
  have hd := dist_lt i j
  constructor
  · intro h
    by_contra hne
    have h1 := dist_shift_right i j (k := 1) (by omega)
    rw [h, dist_self] at h1
    omega
  · intro h
    have e : shift j 1 = shift i (dist i j + 1) := by rw [← shift_shift, shift_dist]
    rw [e, h]
    exact Fin.ext (by rw [shift_val, Nat.add_mod_right, Nat.mod_eq_of_lt i.isLt])

/-! ## windows -/

@[simp] theorem window_zero (f : Fin n → α) (i : Fin n) : window f i 0 = [] := rfl

theorem window_succ (f : Fin n → α) (i : Fin n) (k : Nat) :
    window f i (k+1) = f i :: window f (shift i 1) k := rfl

@[simp] theorem window_length (f : Fin n → α) (i : Fin n) (k : Nat) : (window f i k).length = k := by
  induction k generalizing i with
  | zero => rfl
  | succ k ih => rw [window_succ, List.length_cons, ih]

theorem mem_window {f : Fin n → α} {i : Fin n} {k : Nat} {x : α} (h : x ∈ window f i k) :
    ∃ j, f j = x := by
  induction k generalizing i with
  | zero => cases h
  | succ k ih =>
    rcases List.mem_cons.mp h with rfl | h
    · exact ⟨i, rfl⟩
    · exact ih h

theorem window_add (f : Fin n → α) (i : Fin n) (a b : Nat) :
    window f i (a + b) = window f i a ++ window f (shift i a) b := by
  induction a generalizing i with
  | zero => rw [Nat.zero_add, window_zero, shift_zero, List.nil_append]
  | succ a ih =>
    rw [Nat.succ_add, window_succ, ih, shift_shift, Nat.add_comm 1 a, window_succ, List.cons_append]

theorem window_take (f : Fin n → α) (i : Fin n) {a k : Nat} (h : a ≤ k) :
    (window f i k).take a = window f i a := by
  obtain ⟨b, rfl⟩ := Nat.exists_eq_add_of_le h
  rw [window_add, List.take_left' (window_length f i a)]

theorem window_drop (f : Fin n → α) (i : Fin n) {a k : Nat} (h : a ≤ k) :
    (window f i k).drop a = window f (shift i a) (k - a) := by
  obtain ⟨b, rfl⟩ := Nat.exists_eq_add_of_le h
  rw [window_add, List.drop_left' (window_length f i a), Nat.add_sub_cancel_left]

theorem window_getElem? (f : Fin n → α) (i : Fin n) {k m : Nat} (h : m < k) :
    (window f i k)[m]? = some (f (shift i m)) := by
  induction k generalizing i m with
  | zero => omega
  | succ k ih =>
    cases m with
    | zero => rw [window_succ, shift_zero]; rfl
    | succ m =>
      rw [window_succ, List.getElem?_cons_succ, ih _ (by omega), shift_shift, Nat.add_comm 1 m]

theorem window_congr {f g : Fin n → α} {i : Fin n} {k : Nat}
    (h : ∀ m < k, f (shift i m) = g (shift i m)) : window f i k = window g i k := by
  apply List.ext_getElem?
  intro m
  by_cases hm : m < k
  · rw [window_getElem? f i hm, window_getElem? g i hm, h m hm]
  · rw [List.getElem?_eq_none (by simpa using hm), List.getElem?_eq_none (by simpa using hm)]

/-- a write outside the window is not seen in it -/
theorem window_update (f : Fin n → α) (i : Fin n) {k m : Nat} (x : α) (hk : k ≤ m) (hm : m < n) :
    window (Function.update f (shift i m) x) i k = window f i k := by
  apply window_congr
  intro l hl
  apply Function.update_of_ne
  intro e
  have := shift_inj i (by omega) hm e
  omega

end Cyclic
