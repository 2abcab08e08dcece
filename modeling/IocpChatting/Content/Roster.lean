import IocpChatting.Content.User
import Mathlib.Data.List.Count

/-!
# The roster: who is logged in as whom, and who is in which room

The part of the server that its clients can tell apart, without buffers, bytes or queues: for
every session its domain state, its id and the room it says it is in; for every id the session
registered for it; for every room its member list.  A handler call changes it by one `Deed`.

* `Agree`       the member lists say the same as the user fields;
* `OneSession`  no two sessions are logged in with one id;
* `agree_apply_iff`, `oneSession_apply_iff`   the exact condition under which a deed keeps each of
                them;
* `Unregistered`, `KeepsIdentity`   what becomes of the register, and of who is logged in.

The types of sessions, rooms and ids are arbitrary; `default` is the blank id.
-/

set_option linter.unusedSectionVars false
set_option autoImplicit false

namespace Iocp

structure Roster (S R I : Type*) where
  state : S → DomainState
  id : S → I
  place : S → Option R
  owner : I → Option S
  members : R → List S

/-- what one handler call does to the roster -/
inductive Deed (S R I : Type*) where
  | idle
  | clear (p : S)
  | disconnect (p : S) (left : Option R)
  | request (p : S) (id : I)
  | accept (p : S)
  | reject (p : S)
  | enter (p : S) (r : R)
  | leave (p : S) (r : R)
  | chat (p : S) (r : R)

def Deed.who {S R I : Type*} : Deed S R I → Option S
  | .idle => none
  | .clear p | .disconnect p _ | .request p _ | .accept p | .reject p | .enter p _ | .leave p _
  | .chat p _ => some p

namespace Roster

variable {S R I : Type*} [DecidableEq S] [DecidableEq R] [DecidableEq I] [Inhabited I]

def LoggedIn (ρ : Roster S R I) (p : S) : Prop := ρ.state p = .login ∨ ρ.state p = .room

/-- the member lists after everybody with the id of `p` is taken out of `r` -/
def without (ρ : Roster S R I) (p : S) (r : R) : R → List S :=
  Function.update ρ.members r ((ρ.members r).filter fun q => ρ.id p ≠ ρ.id q)

def apply (ρ : Roster S R I) : Deed S R I → Roster S R I
  | .idle => ρ
  | .clear p =>
    { ρ with
      state := Function.update ρ.state p .none
      id := Function.update ρ.id p default
      place := Function.update ρ.place p none }
  | .disconnect p left =>
    { ρ with
      members := match left with | none => ρ.members | some r => ρ.without p r
      owner := Function.update ρ.owner (ρ.id p) none }
  | .request p v => { ρ with id := Function.update ρ.id p v }
  | .accept p =>
    { ρ with
      state := Function.update ρ.state p .login
      owner := match ρ.owner (ρ.id p) with
        | none => Function.update ρ.owner (ρ.id p) (some p)
        | some _ => ρ.owner }
  | .reject p => { ρ with id := Function.update ρ.id p default }
  | .enter p r =>
    { ρ with
      members := Function.update ρ.members r (ρ.members r ++ [p])
      state := Function.update ρ.state p .room
      place := Function.update ρ.place p (some r) }
  | .leave p r =>
    { ρ with members := ρ.without p r, state := Function.update ρ.state p .login }
  | .chat _ _ => ρ

/-- what the handlers have checked before they do a deed -/
def Fits (ρ : Roster S R I) : Deed S R I → Prop
  | .disconnect p left => if ρ.state p = .room then left.isSome ∧ ρ.place p = left else left = none
  | .request _ v => ρ.owner v = none
  | .enter p _ => ρ.state p = .login
  | .leave p r => ρ.state p = .room ∧ ρ.place p = some r
  | .chat p r => ρ.state p = .room ∧ ρ.place p = some r
  | _ => True

/-! ## who changes whom -/

/-- the state and the id of everybody but the doer stay -/
theorem apply_other {ρ : Roster S R I} {d : Deed S R I} {q : S} (h : d.who ≠ some q) :
    (ρ.apply d).state q = ρ.state q ∧ (ρ.apply d).id q = ρ.id q := by
  cases d with
  | idle | chat | disconnect => exact ⟨rfl, rfl⟩
  | clear p | request p v | accept p | reject p | enter p r | leave p r =>
    have e : q ≠ p := fun e => h (by rw [e]; rfl)
    simp [apply, e]

theorem place_other {ρ : Roster S R I} {d : Deed S R I} {q : S} (h : d.who ≠ some q) :
    (ρ.apply d).place q = ρ.place q := by
  cases d with
  | idle | chat | disconnect | request | accept | reject | leave => rfl
  | clear p | enter p r =>
    have e : q ≠ p := fun e => h (by rw [e]; rfl)
    simp [apply, e]

/-! ## membership is stored twice -/

/-- `p` is listed in `r`, once, if and only if the fields of `p` say so -/
def Agree (ρ : Roster S R I) : Prop :=
  ∀ p r, (p ∈ ρ.members r ↔ ρ.state p = .room ∧ ρ.place p = some r) ∧ (ρ.members r).count p ≤ 1

def Placed (ρ : Roster S R I) : Prop := ∀ p, ρ.state p = .room → ρ.place p ≠ none

/-- the deeds that change both records alike -/
def KeepsAgree (ρ : Roster S R I) : Deed S R I → Prop
  | .clear p => ρ.state p ≠ .room
  | .disconnect p _ => ρ.state p ≠ .room
  | .accept p => ρ.state p ≠ .room
  | .leave p r => ∀ q ∈ ρ.members r, ρ.id q = ρ.id p → q = p
  | _ => True

theorem placed_apply {ρ : Roster S R I} {d : Deed S R I} (h : ρ.Placed) : (ρ.apply d).Placed := by
  intro p hp
  by_cases hwho : d.who = some p
  · cases d with
    | idle => cases hwho
    | disconnect | request | reject | chat => exact h p hp
    | clear q | accept q | leave q r =>
      obtain rfl : q = p := Option.some.inj hwho
      simp [apply] at hp
    | enter q r =>
      obtain rfl : q = p := Option.some.inj hwho
      simp [apply]
  · rw [(apply_other hwho).1] at hp
    rw [place_other hwho]
    exact h p hp

theorem mem_without {ρ : Roster S R I} {p q : S} {r r' : R} :
    q ∈ ρ.without p r r' ↔ q ∈ ρ.members r' ∧ (r' = r → ρ.id p ≠ ρ.id q) := by
  unfold without
  by_cases e : r' = r
  · subst e
    rw [Function.update_self, List.mem_filter]
    simp
  · rw [Function.update_of_ne e]
    simp [e]

theorem count_without {ρ : Roster S R I} (p q : S) (r r' : R) :
    (ρ.without p r r').count q ≤ (ρ.members r').count q := by
  unfold without
  by_cases e : r' = r
  · subst e
    rw [Function.update_self]
    exact List.filter_sublist.count_le q
  · rw [Function.update_of_ne e]

/-- a change of the fields of `p` alone, where `p` is in no room before and after -/
theorem Agree.of_fields {ρ ρ' : Roster S R I} (h : ρ.Agree) (p : S) (hm : ρ'.members = ρ.members)
    (ho : ∀ q, q ≠ p → ρ'.state q = ρ.state q ∧ ρ'.place q = ρ.place q)
    (hp : ρ.state p ≠ .room) (hp' : ρ'.state p ≠ .room) : ρ'.Agree := by
  intro q r
  obtain ⟨hiff, hc⟩ := h q r
  rw [hm]
  refine ⟨?_, hc⟩
  by_cases e : q = p
  · subst e
    rw [hiff]
    simp [hp, hp']
  · rw [hiff, (ho q e).1, (ho q e).2]

/-- a user listed in a room whose fields no longer say so breaks the agreement -/
theorem not_agree_of_listed {ρ ρ' : Roster S R I} (h : ρ.Agree) (hpl : ρ.Placed) {p : S}
    (hm : ρ'.members = ρ.members) (hp : ρ.state p = .room) (hp' : ρ'.state p ≠ .room) :
    ¬ ρ'.Agree := by
  intro h'
  obtain ⟨r, hr⟩ := Option.ne_none_iff_exists'.mp (hpl p hp)
  have hin : p ∈ ρ'.members r := by rw [hm]; exact (h p r).1.mpr ⟨hp, hr⟩
  exact hp' ((h' p r).1.mp hin).1

theorem agree_enter {ρ : Roster S R I} {p : S} {r : R} (h : ρ.Agree) (hp : ρ.state p = .login) :
    (ρ.apply (.enter p r)).Agree := by
  have hout : ∀ r', p ∉ ρ.members r' := fun r' hin => by
    have := ((h p r').1.mp hin).1
    rw [hp] at this
    cases this
  intro q r'
  obtain ⟨hiff, hc⟩ := h q r'
  show (q ∈ Function.update ρ.members r (ρ.members r ++ [p]) r' ↔ _) ∧ _
  by_cases e : q = p
  · subst e
    simp only [apply, Function.update_self]
    by_cases er : r' = r
    · subst er
      rw [Function.update_self, List.count_append, List.count_eq_zero_of_not_mem (hout _)]
      simp
    · rw [Function.update_of_ne er, List.count_eq_zero_of_not_mem (hout _)]
      have : r ≠ r' := fun e => er e.symm
      simp [hout r', this]
  · simp only [apply, Function.update_of_ne e]
    by_cases er : r' = r
    · subst er
      rw [Function.update_self, List.mem_append, List.count_append, List.mem_singleton, hiff]
      have h1 : [p].count q = 0 := List.count_eq_zero_of_not_mem (by simpa using e)
      simp only [e, or_false, h1, Nat.add_zero, true_and]
      exact hc
    · rw [Function.update_of_ne er]
      exact ⟨hiff, hc⟩

theorem agree_leave_iff {ρ : Roster S R I} {p : S} {r : R} (h : ρ.Agree)
    (hp : ρ.state p = .room ∧ ρ.place p = some r) :
    (ρ.apply (.leave p r)).Agree ↔ ∀ q ∈ ρ.members r, ρ.id q = ρ.id p → q = p := by
  constructor
  · -- a namesake of `p` is struck off the list while its fields stay
    intro h' q hq hid
    by_contra hne
    have hf := (h q r).1.mp hq
    have hin : q ∈ (ρ.apply (.leave p r)).members r := by
      refine (h' q r).1.mpr ?_
      simpa only [apply, Function.update_of_ne hne] using hf
    exact (mem_without.mp hin).2 rfl hid.symm
  · intro hok q r'
    obtain ⟨hiff, hc⟩ := h q r'
    refine ⟨?_, Nat.le_trans (count_without p q r r') hc⟩
    show q ∈ ρ.without p r r' ↔ _
    rw [mem_without, hiff]
    by_cases e : q = p
    · subst e
      simp only [apply, Function.update_self]
      simp only [hp.2, Option.some.injEq, hp.1, true_and]
      constructor
      · rintro ⟨e1, e2⟩
        exact absurd rfl (e2 e1.symm)
      · intro hc
        cases hc.1
    · simp only [apply, Function.update_of_ne e, and_iff_left_iff_imp]
      rintro ⟨h1, h2⟩ er hid
      subst er
      exact e (hok q (hiff.mpr ⟨h1, h2⟩) hid.symm)

/-- **A deed keeps the two records of the rooms in agreement exactly when `KeepsAgree`.** -/
theorem agree_apply_iff {ρ : Roster S R I} {d : Deed S R I} (hf : ρ.Fits d) (hpl : ρ.Placed)
    (h : ρ.Agree) : (ρ.apply d).Agree ↔ ρ.KeepsAgree d := by
  cases d with
  | idle => exact ⟨fun _ => trivial, fun _ => h⟩
  | clear p =>
    have hp' : (ρ.apply (.clear p)).state p ≠ .room := by simp [apply]
    constructor
    · intro h' hp
      have hm : (ρ.apply (.clear p)).members = ρ.members := rfl
      exact not_agree_of_listed h hpl hm hp hp' h'
    · intro hp
      refine h.of_fields p rfl (fun q hq => ?_) hp hp'
      simp only [apply, Function.update_of_ne hq, and_self]
  | disconnect p left =>
    simp only [Fits] at hf
    constructor
    · -- struck off the list of its own room, `p` still says that it is there
      intro h' hp
      rw [if_pos hp] at hf
      obtain ⟨r, hr⟩ := Option.isSome_iff_exists.mp hf.1
      subst hr
      have hin : p ∈ (ρ.apply (.disconnect p (some r))).members r := (h' p r).1.mpr ⟨hp, hf.2⟩
      exact (mem_without.mp hin).2 rfl rfl
    · intro hp
      rw [if_neg hp] at hf
      subst hf
      exact h
  | request p v => exact ⟨fun _ => trivial, fun _ => h⟩
  | accept p =>
    have hp' : (ρ.apply (.accept p)).state p ≠ .room := by simp [apply]
    constructor
    · intro h' hp
      have hm : (ρ.apply (.accept p)).members = ρ.members := rfl
      exact not_agree_of_listed h hpl hm hp hp' h'
    · intro hp
      refine h.of_fields p rfl (fun q hq => ?_) hp hp'
      simp only [apply, Function.update_of_ne hq, and_self]
  | reject p => exact ⟨fun _ => trivial, fun _ => h⟩
  | enter p r => exact ⟨fun _ => trivial, fun _ => agree_enter h hf⟩
  | leave p r => exact agree_leave_iff h hf
  | chat p r => exact ⟨fun _ => trivial, fun _ => h⟩

/-! ## one session per id -/

def OneSession (ρ : Roster S R I) : Prop :=
  ∀ p q, p ≠ q → ρ.LoggedIn p → ρ.LoggedIn q → ρ.id p ≠ ρ.id q

/-- nobody but `p` is logged in as `v` -/
def Free (ρ : Roster S R I) (p : S) (v : I) : Prop := ∀ q, q ≠ p → ρ.LoggedIn q → ρ.id q ≠ v

/-- the deeds that give no session an id under which another one is logged in -/
def KeepsOne (ρ : Roster S R I) : Deed S R I → Prop
  | .request p v => ρ.LoggedIn p → ρ.Free p v
  | .accept p => ρ.Free p (ρ.id p)
  | .reject p => ρ.LoggedIn p → ρ.Free p default
  | _ => True

/-- only the session `p` changes: the others stay apart, so `p` against the others decides -/
theorem oneSession_iff {ρ ρ' : Roster S R I} (h : ρ.OneSession) (p : S)
    (ho : ∀ q, q ≠ p → (ρ'.LoggedIn q ↔ ρ.LoggedIn q) ∧ ρ'.id q = ρ.id q) :
    ρ'.OneSession ↔ (ρ'.LoggedIn p → ρ.Free p (ρ'.id p)) := by
  constructor
  · intro h' hp q hq hl
    have := h' q p hq ((ho q hq).1.mpr hl) hp
    rwa [(ho q hq).2] at this
  · intro hok q q' hne hq hq'
    by_cases e : q = p
    · subst e
      have hne' : q' ≠ q := fun e => hne e.symm
      have := hok hq q' hne' ((ho q' hne').1.mp hq')
      rw [(ho q' hne').2]
      exact fun e => this e.symm
    · by_cases e' : q' = p
      · subst e'
        have := hok hq' q e ((ho q e).1.mp hq)
        rwa [(ho q e).2]
      · rw [(ho q e).2, (ho q' e').2]
        exact h q q' hne ((ho q e).1.mp hq) ((ho q' e').1.mp hq')

/-- a logged-in session that keeps its id keeps everybody apart -/
theorem OneSession.free {ρ : Roster S R I} (h : ρ.OneSession) {p : S} (hp : ρ.LoggedIn p) :
    ρ.Free p (ρ.id p) := fun q hq hl => h q p hq hl hp

/-- **A deed keeps one session per id exactly when `KeepsOne`.** -/
theorem oneSession_apply_iff {ρ : Roster S R I} {d : Deed S R I} (hf : ρ.Fits d)
    (h : ρ.OneSession) : (ρ.apply d).OneSession ↔ ρ.KeepsOne d := by
  cases d with
  | idle => exact ⟨fun _ => trivial, fun _ => h⟩
  | clear p =>
    rw [oneSession_iff h p (fun q hq => by simp [LoggedIn, apply, hq])]
    simp [LoggedIn, apply, KeepsOne]
  | disconnect p left => exact ⟨fun _ => trivial, fun _ => h⟩
  | request p v =>
    rw [oneSession_iff h p (fun q hq => by simp [LoggedIn, apply, hq])]
    simp [LoggedIn, apply, KeepsOne]
  | accept p =>
    rw [oneSession_iff h p (fun q hq => by simp [LoggedIn, apply, hq])]
    simp [LoggedIn, apply, KeepsOne]
  | reject p =>
    rw [oneSession_iff h p (fun q hq => by simp [LoggedIn, apply, hq])]
    simp [LoggedIn, apply, KeepsOne]
  | enter p r =>
    rw [oneSession_iff h p (fun q hq => by simp [LoggedIn, apply, hq])]
    exact ⟨fun _ => trivial, fun _ _ => h.free (.inl hf)⟩
  | leave p r =>
    rw [oneSession_iff h p (fun q hq => by simp [LoggedIn, apply, hq])]
    exact ⟨fun _ => trivial, fun _ _ => h.free (.inr hf.1)⟩
  | chat p r => exact ⟨fun _ => trivial, fun _ => h⟩

/-! ## logging in -/

/-- only a success response takes somebody from `none` to `login` -/
theorem login_apply {ρ : Roster S R I} {d : Deed S R I} {p : S} (hf : ρ.Fits d)
    (h0 : ρ.state p = .none) (h1 : (ρ.apply d).state p = .login) : d = .accept p := by
  by_cases hwho : d.who = some p
  · cases d with
    | idle => cases hwho
    | accept q => rw [Option.some.inj hwho]
    | clear q | enter q r =>
      obtain rfl : q = p := Option.some.inj hwho
      simp [apply] at h1
    | leave q r =>
      obtain rfl : q = p := Option.some.inj hwho
      exact absurd (h0.symm.trans hf.1) (by decide)
    | disconnect | request | reject | chat =>
      simp only [apply, h0] at h1
      cases h1
  · rw [(apply_other hwho).1, h0] at h1
    cases h1

/-! ## who is registered -/

def Unregistered (ρ : Roster S R I) (p : S) : Prop := ∀ v, ρ.owner v ≠ some p

/-- after its disconnect a session is registered for nothing exactly if it was registered at most for
the id that it had then -/
theorem unregistered_disconnect_iff {ρ : Roster S R I} {p : S} {left : Option R} :
    (ρ.apply (.disconnect p left)).Unregistered p ↔ ∀ v, ρ.owner v = some p → v = ρ.id p := by
  refine forall_congr' fun v => ?_
  by_cases e : v = ρ.id p
  · subst e
    simp [apply]
  · simp only [apply, Function.update_of_ne e]
    exact ⟨fun h hv => absurd hv h, fun h hv => e (h hv)⟩

/-- only a success response registers a session, and only for an id that nobody is registered for -/
theorem unregistered_apply_iff {ρ : Roster S R I} {d : Deed S R I} {p : S} (h : ρ.Unregistered p) :
    (ρ.apply d).Unregistered p ↔ (d = .accept p → ρ.owner (ρ.id p) ≠ none) := by
  cases d with
  | accept q =>
    unfold Unregistered
    cases ho : ρ.owner (ρ.id q) with
    | some q' =>
      simp only [apply, ho]
      refine ⟨fun _ hq => ?_, fun _ => h⟩
      cases hq
      rw [ho]
      exact Option.some_ne_none q'
    | none =>
      simp only [apply, ho]
      constructor
      · rintro h' ⟨⟩
        exact absurd (Function.update_self ..) (h' (ρ.id p))
      · intro hq v
        by_cases hv : v = ρ.id q
        · subst hv
          rw [Function.update_self]
          rintro ⟨⟩
          exact hq rfl ho
        · rw [Function.update_of_ne hv]
          exact h v
  | disconnect q left =>
    refine ⟨fun _ => by simp, fun _ v => ?_⟩
    by_cases e : v = ρ.id q
    · subst e
      simp [apply]
    · simp only [apply, Function.update_of_ne e]
      exact h v
  | _ => exact ⟨fun _ => by simp, fun _ => h⟩

/-- a disconnect takes nobody else off the register exactly if the id of the leaver is registered for
nobody else -/
theorem disconnect_spares_iff {ρ : Roster S R I} {p : S} {left : Option R} :
    (∀ v q, q ≠ p → ρ.owner v = some q → (ρ.apply (.disconnect p left)).owner v = some q)
      ↔ ∀ q, q ≠ p → ρ.owner (ρ.id p) ≠ some q := by
  constructor
  · intro h q hq ho
    have := h _ q hq ho
    simp [apply] at this
  · intro h v q hq ho
    have e : v ≠ ρ.id p := fun e => h q hq (e ▸ ho)
    simp only [apply, Function.update_of_ne e]
    exact ho

/-! ## who keeps its identity -/

/-- the login deeds that leave a logged-in session as it is -/
def KeepsIdentity (ρ : Roster S R I) : Deed S R I → Prop
  | .request p v => ρ.LoggedIn p → v = ρ.id p
  | .accept p => ρ.state p ≠ .room
  | .reject p => ρ.LoggedIn p → ρ.id p = default
  | _ => True

theorem request_keeps_iff {ρ : Roster S R I} {p : S} {v : I} :
    (ρ.LoggedIn p → (ρ.apply (.request p v)).state p = ρ.state p ∧
        (ρ.apply (.request p v)).id p = ρ.id p) ↔ ρ.KeepsIdentity (.request p v) := by
  simp [apply, KeepsIdentity]

theorem accept_keeps_iff {ρ : Roster S R I} {p : S} :
    (ρ.LoggedIn p → (ρ.apply (.accept p)).state p = ρ.state p ∧
        (ρ.apply (.accept p)).id p = ρ.id p) ↔ ρ.KeepsIdentity (.accept p) := by
  simp only [apply, Function.update_self, and_true, KeepsIdentity, LoggedIn]
  cases ρ.state p with
  | none | login | room => simp

theorem reject_keeps_iff {ρ : Roster S R I} {p : S} :
    (ρ.LoggedIn p → (ρ.apply (.reject p)).state p = ρ.state p ∧
        (ρ.apply (.reject p)).id p = ρ.id p) ↔ ρ.KeepsIdentity (.reject p) := by
  simp only [apply, Function.update_self, true_and, KeepsIdentity]
  exact forall_congr' fun _ => eq_comm

/-! ## a session outside every room -/

def Absent (ρ : Roster S R I) (p : S) : Prop := ∀ r, p ∉ ρ.members r

/-- only its own entering brings a session into a room -/
theorem absent_apply {ρ : Roster S R I} {d : Deed S R I} {p : S} (h : ρ.Absent p)
    (hd : ∀ r, d ≠ .enter p r) : (ρ.apply d).Absent p := by
  intro r hin
  cases d with
  | idle => exact h r hin
  | clear q => exact h r hin
  | disconnect q left =>
    cases left with
    | none => exact h r hin
    | some r' => exact h r (mem_without.mp hin).1
  | request q v => exact h r hin
  | accept q => exact h r hin
  | reject q => exact h r hin
  | enter q r' =>
    have hne : p ≠ q := fun e => hd r' (by rw [e])
    by_cases e : r = r'
    · subst e
      simp only [apply, Function.update_self, List.mem_append, List.mem_singleton] at hin
      exact hin.elim (h r) hne
    · simp only [apply, Function.update_of_ne e] at hin
      exact h r hin
  | leave q r' => exact h r (mem_without.mp hin).1
  | chat q r' => exact h r hin

/-- after its disconnect a session is absent exactly if it was listed nowhere but in the room that
its own fields name -/
theorem absent_disconnect_iff {ρ : Roster S R I} {p : S} {left : Option R}
    (hf : ρ.Fits (.disconnect p left)) :
    (ρ.apply (.disconnect p left)).Absent p
      ↔ ∀ r, p ∈ ρ.members r → ρ.state p = .room ∧ ρ.place p = some r := by
  simp only [Fits] at hf
  by_cases hp : ρ.state p = .room
  · rw [if_pos hp] at hf
    obtain ⟨r, hr⟩ := Option.isSome_iff_exists.mp hf.1
    subst hr
    rw [hf.2]
    constructor
    · intro h r' hin
      by_contra hne
      refine h r' (mem_without.mpr ⟨hin, fun e => ?_⟩)
      subst e
      exact absurd ⟨hp, rfl⟩ hne
    · intro h r' hin
      obtain ⟨hin, hid⟩ := mem_without.mp hin
      have e := (h r' hin).2
      exact hid (Option.some.inj e).symm rfl
  · rw [if_neg hp] at hf
    subst hf
    simp only [hp, false_and]
    rfl

/-! ## who hears of a deed -/

/-- the sessions that get a notify packet -/
def notified (ρ : Roster S R I) : Deed S R I → List S
  | .disconnect p (some r) => (ρ.without p r r).filter (· ≠ p)
  | .enter p r => (ρ.members r ++ [p]).filter (· ≠ p) ++ [p]
  | .leave p r => (ρ.without p r r).filter (· ≠ p)
  | .chat _ r => ρ.members r
  | _ => []

/-- the deeds of an absent session that nobody notices -/
def Unnoticed (ρ : Roster S R I) : Deed S R I → Prop
  | .enter _ _ => False
  | .leave _ r => ρ.members r = []
  | .chat _ r => ρ.members r = []
  | .disconnect _ (some r) => ρ.members r = []
  | _ => True

theorem without_eq_nil {ρ : Roster S R I} {p : S} {r : R} (h : ρ.members r = []) :
    ρ.without p r = ρ.members := by
  unfold without
  rw [h, List.filter_nil, ← h, Function.update_eq_self]

/-- taking an absent session out of a room is noticed by whoever is in that room: it is struck
off the list, or it is told -/
theorem without_unnoticed_iff {ρ : Roster S R I} {p : S} {r : R} (h : ρ.Absent p) :
    (ρ.without p r = ρ.members ∧ ∀ q ∈ (ρ.without p r r).filter (· ≠ p), q = p)
      ↔ ρ.members r = [] := by
  constructor
  · rintro ⟨hm, hn⟩
    cases hl : ρ.members r with
    | nil => rfl
    | cons q l =>
      have hq : q ∈ ρ.members r := by rw [hl]; exact List.mem_cons_self
      have hne : q ≠ p := fun e => h r (e ▸ hq)
      refine absurd (hn q ?_) hne
      rw [hm, List.mem_filter]
      exact ⟨hq, by simpa using hne⟩
  · intro hl
    rw [without_eq_nil hl, hl]
    exact ⟨rfl, fun q hq => by cases hq⟩

/-- **A deed of an absent session changes no member list and reaches nobody else exactly if it is
`Unnoticed`.** -/
theorem unnoticed_iff {ρ : Roster S R I} {p : S} {d : Deed S R I} (h : ρ.Absent p)
    (hd : d.who = some p ∨ d = .idle) :
    ((ρ.apply d).members = ρ.members ∧ ∀ q ∈ ρ.notified d, q = p) ↔ ρ.Unnoticed d := by
  cases d with
  | disconnect q left =>
    cases left with
    | none => simp [apply, notified, Unnoticed]
    | some r =>
      obtain rfl : q = p := by simpa [Deed.who] using hd
      exact without_unnoticed_iff h
  | enter q r =>
    obtain rfl : q = p := by simpa [Deed.who] using hd
    refine ⟨fun ⟨hm, _⟩ => h r ?_, False.elim⟩
    rw [← hm]
    simp [apply]
  | leave q r =>
    obtain rfl : q = p := by simpa [Deed.who] using hd
    exact without_unnoticed_iff h
  | chat q r =>
    obtain rfl : q = p := by simpa [Deed.who] using hd
    refine ⟨fun ⟨_, hn⟩ => List.eq_nil_iff_forall_not_mem.mpr fun q' hq => ?_, fun hl => ⟨rfl, ?_⟩⟩
    · exact h r (hn q' hq ▸ hq)
    · intro q' hq
      rw [notified, hl] at hq
      cases hq
  | _ => simp [apply, notified, Unnoticed]

end Roster

end Iocp
