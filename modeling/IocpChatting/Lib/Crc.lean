import Mathlib

/-!
# Cyclic redundancy checks

A register of `w` bits is a polynomial over the field of two elements, bit `i` the coefficient of `X^i`;
the generator is `X^w` plus the polynomial of `taps`.

* `toPoly`             the polynomial of a register, with its coefficients;
* `shift`, `shiftN`    the register times `X`, reduced;
* `tableStep`, `crc`   the algorithm with a table of the reduced bytes, one byte after the other;
* `tableOk`            the table holds what eight shifts of each byte leave: a finite check;
* `toPoly_crc`         such an algorithm leaves the remainder of the message times `X^w`.
-/

set_option linter.unusedSectionVars false
set_option autoImplicit false

namespace Crc
open Polynomial

variable {w : Nat}

/-! ## registers as polynomials -/

noncomputable def toPoly (r : BitVec w) : (ZMod 2)[X] :=
  ∑ i ∈ Finset.range w, if r.getLsbD i then X^i else 0

/-- a bit as an element of the field -/
def bit (b : Bool) : ZMod 2 := if b then 1 else 0

theorem bit_xor (a b : Bool) : bit (a ^^ b) = bit a + bit b := by
  cases a <;> cases b <;> decide

theorem coeff_toPoly (r : BitVec w) (i : Nat) : (toPoly r).coeff i = bit (r.getLsbD i) := by
  have hterm : ∀ k, (if r.getLsbD k then (X : (ZMod 2)[X])^k else 0).coeff i
      = if k = i then bit (r.getLsbD i) else 0 := by
    intro k
    by_cases hk : k = i
    · subst hk
      cases hb : r.getLsbD k with
      | true => simp [bit]
      | false => simp [bit]
    · rw [if_neg hk]
      split
      · rw [coeff_X_pow, if_neg (Ne.symm hk)]
      · rfl
  unfold toPoly
  rw [finsetSum_coeff, Finset.sum_congr rfl fun k _ => hterm k, Finset.sum_ite_eq']
  split
  · rfl
  · next hi =>
    have hle : w ≤ i := by simpa using hi
    rw [BitVec.getLsbD_of_ge _ _ hle]
    rfl

theorem toPoly_ext {r : BitVec w} {p : (ZMod 2)[X]} (h : ∀ i, bit (r.getLsbD i) = p.coeff i) :
    toPoly r = p := by
  ext i
  rw [coeff_toPoly, h]

theorem toPoly_xor (r s : BitVec w) : toPoly (r ^^^ s) = toPoly r + toPoly s := by
  refine toPoly_ext fun i => ?_
  rw [coeff_add, coeff_toPoly, coeff_toPoly, BitVec.getLsbD_xor, bit_xor]

theorem toPoly_zero : toPoly (0 : BitVec w) = 0 := by
  refine toPoly_ext fun i => ?_
  rw [coeff_zero]
  simp [bit]

theorem degree_toPoly_lt (r : BitVec w) : (toPoly r).degree < w := by
  rw [degree_lt_iff_coeff_zero]
  intro m hm
  rw [coeff_toPoly, BitVec.getLsbD_of_ge _ _ hm]
  rfl

/-- a register that moves up by `k` bits, with the `k` bits that fall out -/
theorem toPoly_shiftLeft (r : BitVec w) {k : Nat} (hk : k ≤ w) :
    X^k * toPoly r = toPoly (r <<< k) + X^w * toPoly ((r >>> (w - k)).setWidth k) := by
  ext i
  rw [coeff_add, coeff_X_pow_mul', coeff_X_pow_mul', coeff_toPoly, coeff_toPoly, coeff_toPoly,
    BitVec.getLsbD_shiftLeft, BitVec.getLsbD_setWidth, BitVec.getLsbD_ushiftRight]
  by_cases hi : w ≤ i
  · -- a bit that has fallen out
    have e : w - k + (i - w) = i - k := by omega
    rw [if_pos hi, if_pos (Nat.le_trans hk hi), decide_eq_false (Nat.not_lt.mpr hi), e]
    by_cases hik : i - w < k
    · simp [hik, bit]
    · have hge : w ≤ i - k := by omega
      rw [BitVec.getLsbD_of_ge _ _ hge]
      simp [bit]
  · have hlt : i < w := by omega
    rw [if_neg hi, add_zero, decide_eq_true hlt, Bool.true_and]
    by_cases hik : k ≤ i
    · rw [if_pos hik, decide_eq_false (Nat.not_lt.mpr hik)]
      rfl
    · rw [if_neg hik, decide_eq_true (Nat.lt_of_not_le hik)]
      rfl

/-! ## the remainder -/

section
variable (taps : BitVec w)

/-- `X^w`, with `taps` below -/
noncomputable def generator : (ZMod 2)[X] := X^w + toPoly taps

theorem generator_monic : (generator taps).Monic := monic_X_pow_add (degree_toPoly_lt taps)

theorem degree_generator : (generator taps).degree = w := by
  have hlt : (toPoly taps).degree < ((X : (ZMod 2)[X])^w).degree := by
    rw [degree_X_pow]
    exact degree_toPoly_lt taps
  rw [generator, degree_add_eq_left_of_degree_lt hlt, degree_X_pow]

/-- a register that differs from `p` by a multiple of the generator is the remainder of `p` -/
theorem modByMonic_eq {r : BitVec w} {p : (ZMod 2)[X]} (h : generator taps ∣ p - toPoly r) :
    p %ₘ generator taps = toPoly r := by
  obtain ⟨q, hq⟩ := h
  refine (div_modByMonic_unique q (toPoly r) (generator_monic taps) ⟨?_, ?_⟩).2
  · linear_combination -hq
  · rw [degree_generator]
    exact degree_toPoly_lt r

/-! ## shifts -/

/-- one bit up; a bit that falls out turns over the `taps` -/
def shift (r : BitVec w) : BitVec w := if r.msb then (r <<< 1) ^^^ taps else r <<< 1

def shiftN : Nat → BitVec w → BitVec w
  | 0, r => r
  | k + 1, r => shiftN k (shift taps r)

theorem toPoly_bit (b : Bool) : toPoly (BitVec.ofBool b) = if b then 1 else 0 := by
  refine toPoly_ext fun i => ?_
  cases b with
  | true =>
    rw [if_pos rfl, coeff_one]
    by_cases hi : i = 0
    · rw [hi]
      rfl
    · have hge : 1 ≤ i := by omega
      rw [if_neg hi, BitVec.getLsbD_of_ge _ _ hge]
      rfl
  | false => simp [bit]

/-- **A shift multiplies by `X`, up to the generator.** -/
theorem shift_dvd (hw : 0 < w) (r : BitVec w) :
    generator taps ∣ X * toPoly r - toPoly (shift taps r) := by
  have hout : (r >>> (w - 1)).setWidth 1 = BitVec.ofBool r.msb := by
    apply BitVec.eq_of_getLsbD_eq
    intro i hi
    obtain rfl : i = 0 := by omega
    rw [BitVec.getLsbD_setWidth, BitVec.getLsbD_ushiftRight, BitVec.msb_eq_getLsbD_last]
    simp
  have hsplit := toPoly_shiftLeft r (k := 1) hw
  rw [pow_one, hout, toPoly_bit] at hsplit
  unfold shift
  cases hb : r.msb with
  | true =>
    rw [hb, if_pos rfl, mul_one] at hsplit
    refine ⟨1, ?_⟩
    have htwo : (2 : (ZMod 2)[X]) = 0 := CharTwo.two_eq_zero
    rw [if_pos rfl, toPoly_xor, hsplit, generator]
    linear_combination -toPoly taps * htwo
  | false =>
    rw [hb, if_neg Bool.false_ne_true, mul_zero, add_zero] at hsplit
    rw [if_neg Bool.false_ne_true, hsplit, sub_self]
    exact dvd_zero _

theorem shiftN_dvd (hw : 0 < w) (k : Nat) (r : BitVec w) :
    generator taps ∣ X^k * toPoly r - toPoly (shiftN taps k r) := by
  induction k generalizing r with
  | zero =>
    rw [pow_zero, one_mul]
    exact (sub_self (toPoly r)).symm ▸ dvd_zero _
  | succ k ih =>
    have hone := dvd_mul_of_dvd_right (shift_dvd taps hw r) (X^k)
    have hrest := ih (shift taps r)
    have e : X^(k + 1) * toPoly r - toPoly (shiftN taps (k + 1) r)
        = X^k * (X * toPoly r - toPoly (shift taps r))
          + (X^k * toPoly (shift taps r) - toPoly (shiftN taps k (shift taps r))) := by
      rw [shiftN]
      ring
    rw [e]
    exact dvd_add hone hrest

/-! ## bytes and a table -/

/-- a byte in the highest bits of a register -/
def atTop (b : BitVec 8) : BitVec w := b.setWidth w <<< (w - 8)

theorem toPoly_atTop (h8 : 8 ≤ w) (b : BitVec 8) :
    X^8 * toPoly (atTop b : BitVec w) = X^w * toPoly b := by
  ext i
  rw [coeff_X_pow_mul', coeff_X_pow_mul', coeff_toPoly, coeff_toPoly, atTop, BitVec.getLsbD_shiftLeft,
    BitVec.getLsbD_setWidth]
  by_cases hi : w ≤ i
  · have e : i - 8 - (w - 8) = i - w := by omega
    rw [if_pos hi, if_pos (Nat.le_trans h8 hi), e]
    by_cases hb : i - w < 8
    · have h1 : i - 8 < w := by omega
      have h2 : ¬ i - 8 < w - 8 := by omega
      have h3 : i - w < w := by omega
      simp [h1, h2, h3]
    · have hge : 8 ≤ i - w := by omega
      rw [BitVec.getLsbD_of_ge b _ hge]
      simp
  · rw [if_neg hi]
    split
    · have h2 : i - 8 < w - 8 := by omega
      simp [h2, bit]
    · rfl

/-- the table holds what is left of each byte that has fallen out -/
def tableOk (table : BitVec 8 → BitVec w) : Prop := ∀ b, table b = shiftN taps 8 (atTop b)

instance (table : BitVec 8 → BitVec w) : Decidable (tableOk taps table) :=
  decidable_of_iff (∀ k : Fin 256, table (BitVec.ofFin k) = shiftN taps 8 (atTop (BitVec.ofFin k)))
    ⟨fun h b => h b.toFin, fun h k => h (BitVec.ofFin k)⟩

variable {taps} {table : BitVec 8 → BitVec w}

theorem table_dvd (h8 : 8 ≤ w) (htab : tableOk taps table) (b : BitVec 8) :
    generator taps ∣ X^w * toPoly b - toPoly (table b) := by
  have h := shiftN_dvd taps (Nat.lt_of_lt_of_le (by decide) h8) 8 (atTop b)
  rw [toPoly_atTop h8] at h
  rw [htab b]
  exact h

variable (table) in
/-- a byte enters at the top; the eight bits that fall out are looked up -/
def tableStep (r : BitVec w) (b : BitVec 8) : BitVec w :=
  (r <<< 8) ^^^ table ((r >>> (w - 8)).setWidth 8 ^^^ b)

variable (table) in
def crc (bs : List (BitVec 8)) : BitVec w := bs.foldl (tableStep table) 0

/-- bytes as one polynomial, the first byte highest -/
noncomputable def message (bs : List (BitVec 8)) : (ZMod 2)[X] :=
  bs.foldl (fun p b => X^8 * p + toPoly b) 0

theorem message_snoc (bs : List (BitVec 8)) (b : BitVec 8) :
    message (bs ++ [b]) = X^8 * message bs + toPoly b := by
  unfold message
  rw [List.foldl_append]
  rfl

theorem tableStep_dvd (h8 : 8 ≤ w) (htab : tableOk taps table) (r : BitVec w) (b : BitVec 8) :
    generator taps ∣ X^8 * toPoly r + X^w * toPoly b - toPoly (tableStep table r b) := by
  have hsplit := toPoly_shiftLeft r h8
  have htop := table_dvd h8 htab ((r >>> (w - 8)).setWidth 8 ^^^ b)
  rw [toPoly_xor] at htop
  have e : X^8 * toPoly r + X^w * toPoly b - toPoly (tableStep table r b)
      = X^w * (toPoly ((r >>> (w - 8)).setWidth 8) + toPoly b)
        - toPoly (table ((r >>> (w - 8)).setWidth 8 ^^^ b)) := by
    rw [tableStep, toPoly_xor, hsplit]
    ring
  rw [e]
  exact htop

/-- **The algorithm with the table leaves the remainder of the message times `X^w`.** -/
theorem toPoly_crc (h8 : 8 ≤ w) (htab : tableOk taps table) (bs : List (BitVec 8)) :
    toPoly (crc table bs) = (X^w * message bs) %ₘ generator taps := by
  refine (modByMonic_eq taps ?_).symm
  induction bs using List.reverseRecOn with
  | nil =>
    have e : X^w * message [] - toPoly (crc table []) = 0 := by
      show X^w * (0 : (ZMod 2)[X]) - toPoly (0 : BitVec w) = 0
      rw [toPoly_zero, mul_zero, sub_zero]
    rw [e]
    exact dvd_zero _
  | append_singleton bs b ih =>
    have hstep := tableStep_dvd h8 htab (crc table bs) b
    have hprev := dvd_mul_of_dvd_right ih (X^8)
    have e : X^w * message (bs ++ [b]) - toPoly (crc table (bs ++ [b]))
        = X^8 * (X^w * message bs - toPoly (crc table bs))
          + (X^8 * toPoly (crc table bs) + X^w * toPoly b - toPoly (tableStep table (crc table bs) b)) := by
      have hsnoc : crc table (bs ++ [b]) = tableStep table (crc table bs) b := by
        unfold crc
        rw [List.foldl_append]
        rfl
      rw [message_snoc, hsnoc]
      ring
    rw [e]
    exact dvd_add hprev hstep

end

end Crc
