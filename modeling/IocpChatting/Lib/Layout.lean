import Mathlib.Data.Nat.Digits.Defs
import Mathlib.Data.List.Range

/-!
# Packed structs

A `Layout` is a struct without padding: how wide it is, which values it can hold, how one is written and how
it is read back.  `uint`, `byte` and `chars` are the fields; `pair`, `array` and `via` put them together.

What is read does not depend on what lies behind: `read_write` is part of the structure, so whatever is
built here reads back what it has written.
-/

set_option autoImplicit false

structure Layout (α : Type*) where
  width : Nat
  /-- the values that there is room for -/
  Fits : α → Prop
  write : α → List UInt8
  read : List UInt8 → α
  write_length : ∀ x, Fits x → (write x).length = width
  read_write : ∀ x, Fits x → ∀ t, read (write x ++ t) = x

namespace Layout

variable {α β : Type*}

/-! ## fields -/

/-- the `n` low bytes of `x`, the lowest first -/
def digits (n x : Nat) : List UInt8 := (List.range n).map fun k => UInt8.ofNat (x / 256^k)

@[simp] theorem digits_length (n x : Nat) : (digits n x).length = n := by simp [digits]

theorem digits_succ (n x : Nat) : digits (n + 1) x = UInt8.ofNat x :: digits n (x / 256) := by
  unfold digits
  rw [List.range_succ_eq_map, List.map_cons, List.map_map, Nat.pow_zero, Nat.div_one]
  congr 1
  refine List.map_congr_left fun k _ => ?_
  show UInt8.ofNat (x / 256^(k + 1)) = _
  rw [Nat.pow_succ', Nat.div_div_eq_div_mul]

theorem ofDigits_digits {n x : Nat} (h : x < 256^n) :
    Nat.ofDigits 256 ((digits n x).map UInt8.toNat) = x := by
  induction n generalizing x with
  | zero =>
    have hx : x = 0 := by rw [Nat.pow_zero] at h; omega
    subst hx
    rfl
  | succ n ih =>
    have hlt : x / 256 < 256^n := Nat.div_lt_of_lt_mul (by rw [← Nat.pow_succ']; exact h)
    rw [digits_succ, List.map_cons, Nat.ofDigits_cons, ih hlt, UInt8.toNat_ofNat']
    show x % 256 + 256 * (x / 256) = x
    omega

theorem digits_ofDigits (l : List UInt8) : digits l.length (Nat.ofDigits 256 (l.map UInt8.toNat)) = l := by
  induction l with
  | nil => rfl
  | cons b l ih =>
    rw [List.map_cons, Nat.ofDigits_cons, List.length_cons, digits_succ]
    generalize Nat.ofDigits 256 (l.map UInt8.toNat) = x at ih ⊢
    have hb : b.toNat < 256 := b.toNat_lt
    have hdiv : (b.toNat + 256 * x) / 256 = x := by omega
    have hbyte : UInt8.ofNat (b.toNat + 256 * x) = b := by
      apply UInt8.toNat_inj.mp
      rw [UInt8.toNat_ofNat']
      omega
    rw [hdiv, ih, hbyte]

/-- an unsigned number of `n` bytes -/
def uint (n : Nat) : Layout Nat where
  width := n
  Fits x := x < 256^n
  write := digits n
  read l := Nat.ofDigits 256 ((l.take n).map UInt8.toNat)
  write_length x _ := digits_length n x
  read_write x h t := by rw [List.take_left' (digits_length n x), ofDigits_digits h]

def byte : Layout UInt8 where
  width := 1
  Fits _ := True
  write b := [b]
  read l := l.headD 0
  write_length _ _ := rfl
  read_write _ _ _ := rfl

/-- an array of `n` characters -/
def chars (n : Nat) : Layout (List UInt8) where
  width := n
  Fits l := l.length = n
  write l := l
  read l := l.take n
  write_length _ h := h
  read_write _ h _ := List.take_left' h

/-! ## structs -/

def pair (A : Layout α) (B : Layout β) : Layout (α × β) where
  width := A.width + B.width
  Fits x := A.Fits x.1 ∧ B.Fits x.2
  write x := A.write x.1 ++ B.write x.2
  read l := (A.read l, B.read (l.drop A.width))
  write_length x h := by rw [List.length_append, A.write_length _ h.1, B.write_length _ h.2]
  read_write x h t := by
    rw [List.append_assoc, A.read_write _ h.1, List.drop_left' (A.write_length _ h.1), B.read_write _ h.2]

/-- the same struct for values of another type; it holds those that come back -/
def via (A : Layout α) (f : β → α) (g : α → β) : Layout β where
  width := A.width
  Fits y := A.Fits (f y) ∧ g (f y) = y
  write y := A.write (f y)
  read l := g (A.read l)
  write_length y h := A.write_length _ h.1
  read_write y h t := by rw [A.read_write _ h.1, h.2]

def readMany (A : Layout α) : Nat → List UInt8 → List α
  | 0, _ => []
  | n + 1, l => A.read l :: A.readMany n (l.drop A.width)

theorem readMany_write (A : Layout α) {l : List α} (h : ∀ x ∈ l, A.Fits x) (t : List UInt8) :
    A.readMany l.length (l.flatMap A.write ++ t) = l := by
  induction l with
  | nil => rfl
  | cons x l ih =>
    have hx := h x List.mem_cons_self
    have hl := ih fun y hy => h y (List.mem_cons_of_mem _ hy)
    rw [List.flatMap_cons, List.length_cons, List.append_assoc, readMany, A.read_write x hx,
      List.drop_left' (A.write_length x hx), hl]

theorem write_many_length (A : Layout α) {l : List α} (h : ∀ x ∈ l, A.Fits x) :
    (l.flatMap A.write).length = l.length * A.width := by
  induction l with
  | nil => rw [List.length_nil, Nat.zero_mul]; rfl
  | cons x l ih =>
    rw [List.flatMap_cons, List.length_append, A.write_length x (h x List.mem_cons_self),
      ih fun y hy => h y (List.mem_cons_of_mem _ hy), List.length_cons, Nat.succ_mul, Nat.add_comm]

/-- `n` of the same struct, one behind the other -/
def array (A : Layout α) (n : Nat) : Layout (List α) where
  width := n * A.width
  Fits l := l.length = n ∧ ∀ x ∈ l, A.Fits x
  write l := l.flatMap A.write
  read := A.readMany n
  write_length l h := by rw [A.write_many_length h.2, h.1]
  read_write l h t := by
    obtain ⟨rfl, hl⟩ := h
    exact A.readMany_write hl t

end Layout
