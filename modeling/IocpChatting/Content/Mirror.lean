import IocpChatting.Content.Roster
import IocpChatting.Lib.Following
import Mathlib.Data.List.Nodup

/-!
# What the members of a room can know of it

A member hears of its room by notices: the list when it enters, then who else enters and leaves.  `told`
says which notices a deed sends to whom.

* `Mirrored`             nobody is listed twice, and everybody who is listed has a copy of the list;
* `mirrored_apply_iff`   the exact condition under which a deed and its notices keep that.

A copy shows a name and a label for everybody on the list; the label goes by the id.
-/

set_option linter.unusedSectionVars false
set_option autoImplicit false

namespace Iocp
namespace Roster
open Following

variable {S R I N J : Type*} [DecidableEq S] [DecidableEq R] [DecidableEq I] [Inhabited I] [DecidableEq N]

section
variable (name : S → N) (label : I → J)

/-- the list of `r` as its members see it -/
def shown (ρ : Roster S R I) (r : R) : List (N × J) := entries name (label ∘ ρ.id) (ρ.members r)

/-- the notices that `q` gets of a deed -/
def told (ρ : Roster S R I) (q : S) : Deed S R I → List (Notice N J)
  | .enter p r =>
    if q = p then [.listed (entries name (label ∘ ρ.id) (ρ.members r ++ [p]))]
    else List.replicate ((ρ.members r).count q) (.joined (name p, label (ρ.id p)))
  | .leave p r => List.replicate ((ρ.without p r r).count q) (.left (name p))
  | .disconnect p (some r) => List.replicate ((ρ.without p r r).count q) (.left (name p))
  | _ => []

structure Mirrored (ρ : Roster S R I) (copy : S → List (N × J)) : Prop where
  nodup : ∀ r, (ρ.members r).Nodup
  apart : ∀ p r r', p ∈ ρ.members r → p ∈ ρ.members r' → r = r'
  copy : ∀ p r, p ∈ ρ.members r → copy p = ρ.shown name label r

end

/-- nobody else in `r` goes by the id of `p`, or everybody does -/
def LeavesCopies (ρ : Roster S R I) (p : S) (r : R) : Prop :=
  (∀ q ∈ ρ.members r, ρ.id q = ρ.id p → q = p) ∨ ∀ q ∈ ρ.members r, ρ.id q = ρ.id p

/-- the deeds of which those on the lists hear enough -/
def KeepsMirrored (label : I → J) (ρ : Roster S R I) : Deed S R I → Prop
  | .clear p => ρ.Absent p ∨ label default = label (ρ.id p)
  | .request p v => ρ.Absent p ∨ label v = label (ρ.id p)
  | .reject p => ρ.Absent p ∨ label default = label (ρ.id p)
  | .enter p _ => ρ.Absent p
  | .leave p r => ρ.LeavesCopies p r
  | .disconnect p (some r) => ρ.LeavesCopies p r
  | _ => True

/-! ## one deed -/

variable {name : S → N} {label : I → J}

/-- a new id for `p`, of which nobody is told -/
theorem mirrored_rename_iff {ρ : Roster S R I} {copy : S → List (N × J)}
    (h : ρ.Mirrored name label copy) (ρ' : Roster S R I) (p : S) (v : I) (hm : ρ'.members = ρ.members)
    (hid : ρ'.id = Function.update ρ.id p v) :
    ρ'.Mirrored name label copy ↔ ρ.Absent p ∨ label v = label (ρ.id p) := by
  constructor
  · intro h'
    by_contra hcon
    rw [not_or] at hcon
    obtain ⟨r, hr⟩ := not_forall_not.mp hcon.1
    have hcopy := (h'.copy p r (hm ▸ hr)).symm.trans (h.copy p r hr)
    unfold shown at hcopy
    rw [hm] at hcopy
    have hlabel := (entries_relabel.mp hcopy) p hr
    simp only [Function.comp, hid, Function.update_self] at hlabel
    exact hcon.2 hlabel
  · intro hkeep
    refine ⟨fun r => hm ▸ h.nodup r, fun q r r' hr hr' => h.apart q r r' (hm ▸ hr) (hm ▸ hr'),
      fun q r hr => ?_⟩
    rw [hm] at hr
    rw [h.copy q r hr]
    unfold shown
    rw [hm]
    refine entries_relabel.mpr fun q' hq' => ?_
    simp only [Function.comp, hid]
    by_cases e : q' = p
    · subst e
      rw [Function.update_self]
      exact hkeep.elim (fun ha => absurd hq' (ha r)) Eq.symm
    · rw [Function.update_of_ne e]

/-- everybody with the id of `p` is taken out of `r`, and those who stay are told of `p` -/
theorem mirrored_without_iff (hname : Function.Injective name) {ρ : Roster S R I} {copy : S → List (N × J)}
    (h : ρ.Mirrored name label copy) (ρ' : Roster S R I) (p : S) (r : R) (hm : ρ'.members = ρ.without p r)
    (hid : ρ'.id = ρ.id) :
    ρ'.Mirrored name label (fun q =>
        (List.replicate ((ρ.without p r r).count q) (Notice.left (name p))).foldl follow (copy q))
      ↔ ρ.LeavesCopies p r := by
  have hstay : ρ.without p r r = (ρ.members r).filter fun q => ρ.id p ≠ ρ.id q := Function.update_self ..
  have hother : ∀ r', r' ≠ r → ρ.without p r r' = ρ.members r' := fun r' e => Function.update_of_ne e _ _
  have hsub : ∀ q r', q ∈ ρ.without p r r' → q ∈ ρ.members r' := fun q r' hq => (mem_without.mp hq).1
  -- who stays is told once, and nobody else is
  have hone : ∀ q ∈ ρ.without p r r, (ρ.without p r r).count q = 1 := fun q hq =>
    List.count_eq_one_of_mem (hstay ▸ (h.nodup r).filter _) hq
  have hnone : ∀ q r', r' ≠ r → q ∈ ρ.members r' → (ρ.without p r r).count q = 0 := fun q r' e hq =>
    List.count_eq_zero_of_not_mem fun hq' => e (h.apart q r' r hq (hsub q r hq'))
  have htold : ∀ q ∈ ρ.without p r r,
      (List.replicate ((ρ.without p r r).count q) (Notice.left (name p))).foldl follow (copy q)
        = entries name (label ∘ ρ.id) ((ρ.members r).filter (· ≠ p)) := by
    intro q hq
    rw [hone q hq, h.copy q r (hsub q r hq)]
    exact follow_left hname _ _
  have hshown : ρ'.shown name label r = entries name (label ∘ ρ.id) (ρ.without p r r) := by
    unfold shown
    rw [hm, hid]
  constructor
  · intro h'
    by_cases hgone : ∀ q ∈ ρ.members r, ρ.id q = ρ.id p
    · exact Or.inr hgone
    · obtain ⟨q, hq, hne⟩ : ∃ q ∈ ρ.members r, ρ.id q ≠ ρ.id p := by
        by_contra hcon
        exact hgone fun q hq => by_contra fun hne => hcon ⟨q, hq, hne⟩
      have hin : q ∈ ρ.without p r r := mem_without.mpr ⟨hq, fun _ e => hne e.symm⟩
      have hcopy := h'.copy q r (hm ▸ hin)
      rw [htold q hin, hshown, entries_inj hname, hstay] at hcopy
      -- the two ways to take `p` off the list agree on everybody
      refine Or.inl fun x hx hidx => by_contra fun hxp => ?_
      have hmem : x ∈ (ρ.members r).filter (· ≠ p) := List.mem_filter.mpr ⟨hx, by simpa using hxp⟩
      rw [hcopy, List.mem_filter] at hmem
      simp [hidx] at hmem
  · intro hkeep
    refine ⟨fun r' => ?_, fun q r₁ r₂ h₁ h₂ => h.apart q r₁ r₂ (hsub q r₁ (hm ▸ h₁)) (hsub q r₂ (hm ▸ h₂)),
      fun q r' hq => ?_⟩
    · rw [hm]
      by_cases e : r' = r
      · rw [e, hstay]
        exact (h.nodup r).filter _
      · rw [hother r' e]
        exact h.nodup r'
    · rw [hm] at hq
      by_cases e : r' = r
      · subst e
        rw [htold q hq, hshown, hstay]
        congr 1
        refine List.filter_congr fun x hx => ?_
        rcases hkeep with hkeep | hkeep
        · by_cases hxp : x = p
          · simp [hxp]
          · have hne : ρ.id p ≠ ρ.id x := fun e => hxp (hkeep x hx e.symm)
            simp [hxp, hne]
        · -- nobody stays
          have hq' := mem_without.mp hq
          exact absurd (hkeep q hq'.1).symm (hq'.2 rfl)
      · rw [hother r' e] at hq
        show (List.replicate ((ρ.without p r r).count q) (Notice.left (name p))).foldl follow (copy q) = _
        rw [hnone q r' e hq, h.copy q r' hq]
        unfold shown
        rw [hm, hid, hother r' e]
        rfl

theorem mirrored_enter_iff {ρ : Roster S R I} {copy : S → List (N × J)} (h : ρ.Mirrored name label copy)
    (p : S) (r : R) :
    (ρ.apply (.enter p r)).Mirrored name label (fun q => (ρ.told name label q (.enter p r)).foldl follow (copy q))
      ↔ ρ.Absent p := by
  have hself : (ρ.apply (.enter p r)).members r = ρ.members r ++ [p] := Function.update_self ..
  have hother : ∀ r', r' ≠ r → (ρ.apply (.enter p r)).members r' = ρ.members r' := fun r' e =>
    Function.update_of_ne e _ _
  constructor
  · intro h' r' hr'
    have hp : p ∈ (ρ.apply (.enter p r)).members r := by rw [hself]; simp
    by_cases e : r' = r
    · -- `p` would be on the list twice
      subst e
      have hnd := h'.nodup r'
      rw [hself, List.nodup_append] at hnd
      exact hnd.2.2 p hr' p (List.mem_singleton_self p) rfl
    · exact e (h'.apart p r' r (hother r' e ▸ hr') hp)
  · intro habs
    have hne : ∀ q r', q ∈ ρ.members r' → q ≠ p := fun q r' hq e => habs r' (e ▸ hq)
    have hsplit : ∀ q r', q ∈ (ρ.apply (.enter p r)).members r' → q ∈ ρ.members r' ∨ q = p ∧ r' = r := by
      intro q r' hq
      by_cases e : r' = r
      · rw [e, hself, List.mem_append, List.mem_singleton] at hq
        exact hq.imp (fun h => e ▸ h) fun h => ⟨h, e⟩
      · exact Or.inl (hother r' e ▸ hq)
    refine ⟨fun r' => ?_, fun q r₁ r₂ h₁ h₂ => ?_, fun q r' hq => ?_⟩
    · by_cases e : r' = r
      · subst e
        rw [hself]
        refine List.Nodup.append (h.nodup r') (List.nodup_singleton p) fun q hq hq' => ?_
        exact hne q r' hq (List.mem_singleton.mp hq')
      · rw [hother r' e]
        exact h.nodup r'
    · rcases hsplit q r₁ h₁ with k₁ | ⟨e₁, e₁'⟩
      · rcases hsplit q r₂ h₂ with k₂ | ⟨e₂, _⟩
        · exact h.apart q r₁ r₂ k₁ k₂
        · exact absurd e₂ (hne q r₁ k₁)
      · rcases hsplit q r₂ h₂ with k₂ | ⟨_, e₂'⟩
        · exact absurd e₁ (hne q r₂ k₂)
        · rw [e₁', e₂']
    · simp only [told]
      rcases hsplit q r' hq with hq' | ⟨rfl, rfl⟩
      · rw [if_neg (hne q r' hq')]
        by_cases e : r' = r
        · subst e
          rw [List.count_eq_one_of_mem (h.nodup r') hq', h.copy q r' hq']
          rw [List.replicate_one, List.foldl_cons, List.foldl_nil]
          unfold shown
          rw [hself]
          exact follow_joined name (label ∘ ρ.id) _ _
        · have hout : q ∉ ρ.members r := fun hr => e (h.apart q r' r hq' hr)
          rw [List.count_eq_zero_of_not_mem hout, h.copy q r' hq']
          unfold shown
          rw [hother r' e]
          rfl
      · rw [if_pos rfl]
        unfold shown
        rw [hself]
        rfl

/-- **A deed and its notices keep the copies exactly if it meets `KeepsMirrored`.** -/
theorem mirrored_apply_iff (hname : Function.Injective name) {ρ : Roster S R I} {copy : S → List (N × J)}
    (h : ρ.Mirrored name label copy) (d : Deed S R I) :
    (ρ.apply d).Mirrored name label (fun q => (ρ.told name label q d).foldl follow (copy q))
      ↔ ρ.KeepsMirrored label d := by
  cases d with
  | idle | accept | chat => exact ⟨fun _ => trivial, fun _ => ⟨h.nodup, h.apart, h.copy⟩⟩
  | clear p => exact mirrored_rename_iff h _ p default rfl rfl
  | request p v => exact mirrored_rename_iff h _ p v rfl rfl
  | reject p => exact mirrored_rename_iff h _ p default rfl rfl
  | disconnect p left =>
    cases left with
    | none => exact ⟨fun _ => trivial, fun _ => ⟨h.nodup, h.apart, h.copy⟩⟩
    | some r => exact mirrored_without_iff hname h _ p r rfl rfl
  | enter p r => exact mirrored_enter_iff h p r
  | leave p r => exact mirrored_without_iff hname h _ p r rfl rfl

/-- a party that begins anew has an empty copy, so it must be on no list -/
theorem mirrored_anew_iff {ρ : Roster S R I} {copy : S → List (N × J)} (h : ρ.Mirrored name label copy) (p : S) :
    ρ.Mirrored name label (Function.update copy p []) ↔ ρ.Absent p := by
  constructor
  · intro h' r hr
    have hcopy := h'.copy p r hr
    rw [Function.update_self] at hcopy
    have hnil : ρ.members r = [] := List.map_eq_nil_iff.mp hcopy.symm
    rw [hnil] at hr
    cases hr
  · intro habs
    refine ⟨h.nodup, h.apart, fun q r hq => ?_⟩
    have hne : q ≠ p := fun e => habs r (e ▸ hq)
    rw [Function.update_of_ne hne]
    exact h.copy q r hq

/-! ## what one deed tells one session -/

/-- one thing at most -/
theorem Mirrored.told_le_one {ρ : Roster S R I} {copy : S → List (N × J)} (h : ρ.Mirrored name label copy)
    (q : S) (d : Deed S R I) : (ρ.told name label q d).length ≤ 1 := by
  have hone : ∀ r, (ρ.members r).count q ≤ 1 := fun r => List.nodup_iff_count_le_one.mp (h.nodup r) q
  have hleave : ∀ p r, (List.replicate ((ρ.without p r r).count q) (Notice.left (name p) : Notice N J)).length ≤ 1 :=
    fun p r => (List.length_replicate ..).trans_le ((count_without p q r r).trans (hone r))
  cases d with
  | enter p r =>
    simp only [told]
    split
    · exact le_rfl
    · exact (List.length_replicate ..).trans_le (hone r)
  | leave p r => exact hleave p r
  | disconnect p left =>
    cases left with
    | none => exact Nat.zero_le 1
    | some r => exact hleave p r
  | _ => exact Nat.zero_le 1

/-- and whoever is told something is on a list afterwards -/
theorem told_listed {ρ : Roster S R I} {q : S} {d : Deed S R I} (h : ρ.told name label q d ≠ []) :
    ∃ r, q ∈ (ρ.apply d).members r := by
  have hmem : ∀ (n : Notice N J) l, List.replicate (List.count q l) n ≠ [] → q ∈ l := by
    intro n l hl
    by_contra hout
    rw [List.count_eq_zero_of_not_mem hout] at hl
    exact hl rfl
  cases d with
  | enter p r =>
    refine ⟨r, ?_⟩
    show q ∈ Function.update ρ.members r (ρ.members r ++ [p]) r
    rw [Function.update_self]
    simp only [told] at h
    split at h
    · next e => exact List.mem_append_right _ (e ▸ List.mem_singleton_self q)
    · exact List.mem_append_left _ (hmem _ _ h)
  | leave p r => exact ⟨r, hmem _ _ h⟩
  | disconnect p left =>
    cases left with
    | none => exact absurd rfl h
    | some r => exact ⟨r, hmem _ _ h⟩
  | _ => exact absurd rfl h

end Roster

end Iocp
