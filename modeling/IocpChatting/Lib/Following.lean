import IocpChatting.Lib.Runs
import Mathlib.Data.List.Basic
import Mathlib.Data.List.Infix
import Mathlib.Data.List.Induction

/-!
# Following a list from afar

A source keeps lists and sends messages about them; whoever is on a list keeps a copy of it.

* `Notice`, `follow`   what a message says, and what its receiver makes of its copy;
* `entries`            a list as its followers see it: of each one on it a name and a label;
* `inbox`              what a party has been sent since it last began anew;
* `inbox_prefix`       the rule for whatever part of an inbox may have arrived.
-/

set_option linter.unusedSectionVars false
set_option autoImplicit false

namespace Following
open Runs

variable {N J S : Type*} [DecidableEq N] [DecidableEq S]

/-! ## notices -/

inductive Notice (N J : Type*) where
  /-- the whole list -/
  | listed (l : List (N × J))
  | joined (e : N × J)
  | left (n : N)

def follow (copy : List (N × J)) : Notice N J → List (N × J)
  | .listed l => l
  | .joined e => copy ++ [e]
  | .left n => copy.filter fun e => e.1 ≠ n

section
variable (name : S → N) (label : S → J)

def entries (l : List S) : List (N × J) := l.map fun p => (name p, label p)

theorem follow_joined (l : List S) (p : S) :
    follow (entries name label l) (.joined (name p, label p)) = entries name label (l ++ [p]) := by
  unfold entries
  rw [List.map_append]
  rfl

variable {name label}

theorem follow_left (hname : Function.Injective name) (l : List S) (p : S) :
    follow (entries name label l) (.left (name p)) = entries name label (l.filter (· ≠ p)) := by
  show List.filter _ (List.map _ l) = List.map _ _
  rw [List.filter_map]
  congr 1
  refine List.filter_congr fun q _ => ?_
  simp [hname.eq_iff]

theorem entries_inj (hname : Function.Injective name) {l l' : List S} :
    entries name label l = entries name label l' ↔ l = l' := by
  have hinj : Function.Injective fun p => (name p, label p) := fun _ _ h => hname (Prod.mk.inj h).1
  exact (List.map_injective_iff.mpr hinj).eq_iff

/-- a label that changes is seen -/
theorem entries_relabel {label' : S → J} {l : List S} :
    entries name label l = entries name label' l ↔ ∀ p ∈ l, label p = label' p := by
  unfold entries
  rw [List.map_inj_left]
  simp

end

/-! ## inboxes -/

section
variable {X M : Type*} (anew : X → Bool) (told : X → List M)

/-- `told x` is sent to the party in the step `x`, and it begins anew before the steps with `anew x` -/
def inbox (h : List X) : List M := h.foldl (fun l x => (if anew x then [] else l) ++ told x) []

theorem inbox_snoc (h : List X) (x : X) :
    inbox anew told (h ++ [x]) = (if anew x then [] else inbox anew told h) ++ told x :=
  List.foldl_concat ..

/-- **Prefix rule.**  `Q` holds of every initial part of an inbox if, in every step of the run, it goes from
what was there before to that with any initial part of what the step sends. -/
theorem inbox_prefix {σ α : Type*} (step : σ → α → σ) (s : σ) (anew : σ × α → Bool) (told : σ × α → List M)
    {Q : List M → Prop} (h0 : Q []) (as : List α)
    (hstep : ∀ bs a cs, as = bs ++ a :: cs → ∀ base,
      base = (if anew (run step s bs, a) then [] else inbox anew told (hist step s bs)) →
      Q base → ∀ l, l <+: told (run step s bs, a) → Q (base ++ l)) :
    ∀ l, l <+: inbox anew told (hist step s as) → Q l := by
  induction as using List.reverseRecOn with
  | nil => exact fun l hl => (List.prefix_nil.mp hl) ▸ h0
  | append_singleton as a ih =>
    have hold : ∀ l, l <+: inbox anew told (hist step s as) → Q l :=
      ih fun bs b cs e => hstep bs b (cs ++ [a]) (by rw [e]; simp)
    have hbase : ∀ l, l <+: (if anew (run step s as, a) then [] else inbox anew told (hist step s as)) → Q l := by
      intro l hl
      split at hl
      · exact (List.prefix_nil.mp hl) ▸ h0
      · exact hold l hl
    intro l hl
    rw [hist_snoc, inbox_snoc] at hl
    rcases List.prefix_or_prefix_of_prefix hl (List.prefix_append _ _) with hl' | ⟨l', rfl⟩
    · exact hbase l hl'
    · refine hstep as a [] rfl _ rfl (hbase _ (List.prefix_refl _)) l' ?_
      exact (List.prefix_append_right_inj _).mp hl

end

/-- a list of at most one has two initial parts -/
theorem prefix_of_le_one {α : Type*} {l m : List α} (h : l <+: m) (hm : m.length ≤ 1) : l = [] ∨ l = m := by
  by_cases hl : l.length = 0
  · exact Or.inl (List.length_eq_zero_iff.mp hl)
  · have := h.length_le
    exact Or.inr (h.eq_of_length (by omega))

end Following
