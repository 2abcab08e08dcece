import IocpChatting.Content.Deliveries
import IocpChatting.Content.Logins

/-!
# Leaving removes only the leaver

`Room::LeaveUser` strikes everybody off the list who has the id of the leaver.

* `Roster.Distinct`         no two sessions that share a room have one id;
* `distinct_apply_iff`      the exact condition under which a deed keeps that;
* `leaving_run_iff`         exactly when a run never comes to a state in which `LeaveUser` would strike
                            off anybody but the leaver.
-/

set_option linter.unusedSectionVars false
set_option autoImplicit false

namespace Iocp
open Runs
open UserManager (getUserByIndex)

namespace Roster

variable {S R I : Type*} [DecidableEq S] [DecidableEq R] [DecidableEq I] [Inhabited I]

/-! ## sessions that share a room -/

/-- `p` is on the list of `r`, or its fields say that it is in `r` -/
def In (ρ : Roster S R I) (p : S) (r : R) : Prop :=
  p ∈ ρ.members r ∨ (ρ.state p = .room ∧ ρ.place p = some r)

/-- one of the two is on the list of a room, and the other in that room -/
def Shares (ρ : Roster S R I) (p q : S) : Prop :=
  ∃ r, (ρ.In p r ∧ q ∈ ρ.members r) ∨ (p ∈ ρ.members r ∧ ρ.In q r)

def Distinct (ρ : Roster S R I) : Prop := ∀ p q, q ≠ p → ρ.Shares p q → ρ.id q ≠ ρ.id p

/-- the deeds after which nobody has the id of somebody it shares a room with -/
def KeepsDistinct (ρ : Roster S R I) : Deed S R I → Prop
  | .clear p => ∀ q, q ≠ p → (∃ r, p ∈ ρ.members r ∧ ρ.In q r) → ρ.id q ≠ default
  | .request p v => ∀ q, q ≠ p → ρ.Shares p q → ρ.id q ≠ v
  | .reject p => ∀ q, q ≠ p → ρ.Shares p q → ρ.id q ≠ default
  | .enter p r => ∀ q, q ≠ p → ρ.In q r → ρ.id q ≠ ρ.id p
  | _ => True

theorem Shares.symm {ρ : Roster S R I} {p q : S} (h : ρ.Shares p q) : ρ.Shares q p := by
  obtain ⟨r, h | h⟩ := h
  · exact ⟨r, .inr ⟨h.2, h.1⟩⟩
  · exact ⟨r, .inl ⟨h.2, h.1⟩⟩

/-- with the ids as they were, fewer neighbours stay distinct -/
theorem Distinct.mono {ρ ρ' : Roster S R I} (h : ρ.Distinct) (hid : ρ'.id = ρ.id)
    (hm : ∀ p r, p ∈ ρ'.members r → p ∈ ρ.members r) (hin : ∀ p r, ρ'.In p r → ρ.In p r) :
    ρ'.Distinct := by
  intro p q hne hs
  rw [hid]
  refine h p q hne ?_
  obtain ⟨r, hr | hr⟩ := hs
  · exact ⟨r, .inl ⟨hin p r hr.1, hm q r hr.2⟩⟩
  · exact ⟨r, .inr ⟨hm p r hr.1, hin q r hr.2⟩⟩

/-- where only `p` changes, `p` against its neighbours decides -/
theorem distinct_iff {ρ : Roster S R I} (ρ' : Roster S R I) (h : ρ.Distinct) (p : S)
    (hid : ∀ q, q ≠ p → ρ'.id q = ρ.id q)
    (hs : ∀ q q', q ≠ p → q' ≠ p → ρ'.Shares q q' → ρ.Shares q q') :
    ρ'.Distinct ↔ ∀ q, q ≠ p → ρ'.Shares p q → ρ.id q ≠ ρ'.id p := by
  constructor
  · intro h' q hq hsh
    rw [← hid q hq]
    exact h' p q hq hsh
  · intro hp q q' hne hsh
    by_cases e : q = p
    · subst e
      rw [hid q' hne]
      exact hp q' hne hsh
    · by_cases e' : q' = p
      · subst e'
        rw [hid q e]
        exact fun e => hp q hne.symm hsh.symm e.symm
      · rw [hid q e, hid q' e']
        exact h q q' hne (hs q q' e e' hsh)

theorem distinct_clear_iff {ρ : Roster S R I} (h : ρ.Distinct) (p : S) :
    (ρ.apply (.clear p)).Distinct ↔ ρ.KeepsDistinct (.clear p) := by
  have hother : ∀ q r, q ≠ p → ((ρ.apply (.clear p)).In q r ↔ ρ.In q r) := by
    intro q r hq
    simp only [In, apply, Function.update_of_ne hq]
  have hown : ∀ r, (ρ.apply (.clear p)).In p r ↔ p ∈ ρ.members r := by
    intro r
    simp [In, apply]
  refine (distinct_iff (ρ.apply (.clear p)) h p (fun q hq => Function.update_of_ne hq _ _)
    fun q q' hq hq' hs => ?_).trans ?_
  · obtain ⟨r, hr | hr⟩ := hs
    · exact ⟨r, .inl ⟨(hother q r hq).mp hr.1, hr.2⟩⟩
    · exact ⟨r, .inr ⟨hr.1, (hother q' r hq').mp hr.2⟩⟩
  refine forall_congr' fun q => forall_congr' fun hq => ?_
  have hblank : (ρ.apply (.clear p)).id p = default := Function.update_self ..
  rw [hblank]
  refine imp_congr_left ⟨?_, ?_⟩
  · rintro ⟨r, hr | hr⟩
    · exact ⟨r, (hown r).mp hr.1, .inl hr.2⟩
    · exact ⟨r, hr.1, (hother q r hq).mp hr.2⟩
  · rintro ⟨r, hp, hr⟩
    exact ⟨r, .inr ⟨hp, (hother q r hq).mpr hr⟩⟩

/-- a new id for `p` -/
theorem distinct_rename_iff {ρ : Roster S R I} (ρ' : Roster S R I) (h : ρ.Distinct) (p : S)
    (hid : ∀ q, q ≠ p → ρ'.id q = ρ.id q) (hstate : ρ'.state = ρ.state)
    (hplace : ρ'.place = ρ.place) (hm : ρ'.members = ρ.members) :
    ρ'.Distinct ↔ ∀ q, q ≠ p → ρ.Shares p q → ρ.id q ≠ ρ'.id p := by
  have hs : ∀ q q', ρ'.Shares q q' ↔ ρ.Shares q q' := by
    intro q q'
    unfold Shares In
    rw [hstate, hplace, hm]
  rw [distinct_iff ρ' h p hid (fun q q' _ _ => (hs q q').mp)]
  simp only [hs]

theorem distinct_enter_iff {ρ : Roster S R I} (h : ρ.Distinct) (p : S) (r : R) :
    (ρ.apply (.enter p r)).Distinct ↔ ρ.KeepsDistinct (.enter p r) := by
  have hlist : ∀ q r', q ∈ (ρ.apply (.enter p r)).members r' ↔
      q ∈ ρ.members r' ∨ (r' = r ∧ q = p) := by
    intro q r'
    show q ∈ Function.update ρ.members r (ρ.members r ++ [p]) r' ↔ _
    by_cases e : r' = r
    · subst e
      simp
    · simp [e]
  have hother : ∀ q r', q ≠ p → ((ρ.apply (.enter p r)).In q r' ↔ ρ.In q r') := by
    intro q r' hq
    unfold In
    rw [hlist]
    simp only [apply, Function.update_of_ne hq, hq, and_false, or_false]
  have hown : ∀ r', (ρ.apply (.enter p r)).In p r' ↔ p ∈ ρ.members r' ∨ r' = r := by
    intro r'
    unfold In
    rw [hlist]
    simp [apply, eq_comm]
  refine (distinct_iff (ρ.apply (.enter p r)) h p (fun _ _ => rfl)
    fun q q' hq hq' hs => ?_).trans ?_
  · obtain ⟨r', hr | hr⟩ := hs
    · refine ⟨r', .inl ⟨(hother q r' hq).mp hr.1, ?_⟩⟩
      exact ((hlist q' r').mp hr.2).resolve_right fun e => hq' e.2
    · refine ⟨r', .inr ⟨?_, (hother q' r' hq').mp hr.2⟩⟩
      exact ((hlist q r').mp hr.1).resolve_right fun e => hq e.2
  show (∀ q, q ≠ p → _ → ρ.id q ≠ ρ.id p) ↔ ∀ q, q ≠ p → _ → ρ.id q ≠ ρ.id p
  refine forall_congr' fun q => forall_congr' fun hq => ⟨fun hkeep hin => ?_, fun hkeep hs => ?_⟩
  · exact hkeep ⟨r, .inr ⟨(hlist p r).mpr (.inr ⟨rfl, rfl⟩), (hother q r hq).mpr hin⟩⟩
  · -- a neighbour in another room was one before
    obtain ⟨r', hr | hr⟩ := hs
    · have hq' := ((hlist q r').mp hr.2).resolve_right fun e => hq e.2
      rcases (hown r').mp hr.1 with hp | rfl
      · exact h p q hq ⟨r', .inl ⟨.inl hp, hq'⟩⟩
      · exact hkeep (.inl hq')
    · have hq' := (hother q r' hq).mp hr.2
      rcases (hlist p r').mp hr.1 with hp | ⟨rfl, _⟩
      · exact h p q hq ⟨r', .inr ⟨hp, hq'⟩⟩
      · exact hkeep hq'

/-- **A deed keeps the ids of neighbours distinct exactly when `KeepsDistinct`.** -/
theorem distinct_apply_iff {ρ : Roster S R I} {d : Deed S R I} (h : ρ.Distinct) :
    (ρ.apply d).Distinct ↔ ρ.KeepsDistinct d := by
  cases d with
  | idle | chat => exact ⟨fun _ => trivial, fun _ => h⟩
  | clear p => exact distinct_clear_iff h p
  | disconnect p left =>
    have hm : ∀ q r, q ∈ (ρ.apply (.disconnect p left)).members r → q ∈ ρ.members r := by
      intro q r hq
      cases left with
      | none => exact hq
      | some r' => exact (mem_without.mp hq).1
    exact ⟨fun _ => trivial, fun _ => h.mono rfl hm fun q r hr => hr.imp_left (hm q r)⟩
  | request p v =>
    refine (distinct_rename_iff (ρ.apply (.request p v)) h p (fun q hq => Function.update_of_ne hq _ _)
      rfl rfl rfl).trans ?_
    simp only [apply, Function.update_self, KeepsDistinct]
  | accept p =>
    refine ⟨fun _ => trivial, fun _ => h.mono rfl (fun q r hq => hq) fun q r hr => ?_⟩
    refine hr.imp_right fun hf => ?_
    by_cases e : q = p
    · subst e
      simp [apply] at hf
    · simpa only [apply, Function.update_of_ne e] using hf
  | reject p =>
    refine (distinct_rename_iff (ρ.apply (.reject p)) h p (fun q hq => Function.update_of_ne hq _ _)
      rfl rfl rfl).trans ?_
    simp only [apply, Function.update_self, KeepsDistinct]
  | enter p r => exact distinct_enter_iff h p r
  | leave p r =>
    have hm : ∀ q r', q ∈ (ρ.apply (.leave p r)).members r' → q ∈ ρ.members r' :=
      fun q r' hq => (mem_without.mp hq).1
    refine ⟨fun _ => trivial, fun _ => h.mono rfl hm fun q r' hr => ?_⟩
    refine hr.imp (hm q r') fun hf => ?_
    by_cases e : q = p
    · subst e
      simp [apply] at hf
    · simpa only [apply, Function.update_of_ne e] using hf

end Roster

namespace Chat

/-! ## `LeaveUser` -/

/-- `u` is on the list of `r`, or its fields say that it is in `r` -/
def InRoom (c : Chat) (u : Session) (r : RoomPtr) : Prop :=
  u ∈ (c.roomList r).userList ∨
    ((c.users.pool u).domainState = .room ∧ (c.users.pool u).roomIdx = (r : Nat))

/-- whoever leaves, everybody else keeps its entry, in the order of the list -/
def LeavesOthers (c : Chat) : Prop :=
  ∀ mem u r, c.InRoom u r → ((c.leaveUser mem r u).roomList r).userList
    = (c.roomList r).userList.filter (· ≠ u)

theorem inRoom_iff (c : Chat) (u : Session) (r : RoomPtr) : c.InRoom u r ↔ c.roster.In u r := by
  unfold InRoom Roster.In
  show _ ∨ _ ∧ _ ↔ _ ∨ _ ∧ getRoomByIdx _ = some r
  rw [getRoomByIdx_eq_some]
  rfl

/-- striking off by the id is striking off the leaver exactly if nobody else on the list has its id -/
theorem staying_eq_iff (c : Chat) (r : RoomPtr) (u : Session) :
    c.staying r u = (c.roomList r).userList.filter (· ≠ u) ↔
      ∀ q ∈ (c.roomList r).userList, q ≠ u → (c.users.pool q).userId ≠ (c.users.pool u).userId := by
  unfold staying
  constructor
  · intro h q hq hne hid
    have hin : q ∈ (c.roomList r).userList.filter (· ≠ u) :=
      List.mem_filter.mpr ⟨hq, by simpa using hne⟩
    rw [← h, List.mem_filter, hid] at hin
    simp at hin
  · intro h
    refine List.filter_congr fun q hq => ?_
    by_cases e : q = u
    · subst e
      simp
    · have hid : ¬ (c.users.pool u).userId = (c.users.pool q).userId := fun e' => h q hq e e'.symm
      simp [e, hid]

theorem leavesOthers_iff (c : Chat) : c.LeavesOthers ↔ c.roster.Distinct := by
  constructor
  · intro h p q hne hs
    have hleave : ∀ u v r, c.InRoom u r → v ∈ (c.roomList r).userList → v ≠ u →
        (c.users.pool v).userId ≠ (c.users.pool u).userId := by
      intro u v r hu hv hvu
      have e := h Mem.zero u r hu
      rw [leaveUser_userList] at e
      exact (c.staying_eq_iff r u).mp e v hv hvu
    obtain ⟨r, hr | hr⟩ := hs
    · exact hleave p q r ((c.inRoom_iff p r).mpr hr.1) hr.2 hne
    · exact (hleave q p r ((c.inRoom_iff q r).mpr hr.2) hr.1 hne.symm).symm
  · intro h mem u r hu
    rw [leaveUser_userList, staying_eq_iff]
    intro q hq hne
    exact h u q hne ⟨r, .inl ⟨(c.inRoom_iff u r).mp hu, hq⟩⟩

end Chat

namespace Server

section
variable (redisGet : CStr → Option (List UInt8))
  (heap : Session → Fin kDefaultRingBufferSize → UInt8)

/-- **`LeaveUser` strikes off the leaver alone, all along a run, exactly if no step gives a session the
id of another one in its room.** -/
theorem leaving_run_iff (as : List Action) :
    ((∀ x ∈ hist (step redisGet) (start heap) as, x.1.chat.LeavesOthers) ∧
        (run (step redisGet) (start heap) as).chat.LeavesOthers)
      ↔ ∀ x ∈ hist (step redisGet) (start heap) as,
          x.1.chat.roster.KeepsDistinct (x.1.deed x.2) := by
  simp only [Chat.leavesOthers_iff]
  have h0 : (start heap).chat.roster.Distinct := by
    rintro p q _ ⟨r, hr | hr⟩
    · cases hr.2
    · cases hr.1
  refine run_keeps_iff (step redisGet) (I := fun s => s.chat.roster.Distinct)
    (F := fun s _ => s.Sound) (C := fun s a => s.chat.roster.KeepsDistinct (s.deed a))
    (fun s a hs h => ?_) h0 as (hist_sound redisGet heap as)
  rw [roster_step redisGet hs.fixed]
  exact Roster.distinct_apply_iff h

end

/-- two clients log in to one account at the same time, and both enter room 3 -/
def twinsEnter : List Action :=
  loginTwice ++ Action.receive 0 (roomEnterPacket 3) ++ Action.receive 1 (roomEnterPacket 3)
    ++ Action.loops 10

/-- the first one leaves, and the list is empty -/
theorem twin_struck_off :
    ¬ (run (step fun _ => some [112]) (start fun _ _ => 0) twinsEnter).chat.LeavesOthers := by
  intro h
  have hlist : ((run (step fun _ => some [112]) (start fun _ _ => 0)
      twinsEnter).chat.roomList 3).userList = [0, 1] := by decide +kernel
  have hid : ((run (step fun _ => some [112]) (start fun _ _ => 0) twinsEnter).chat.users.pool 1).userId
      = ((run (step fun _ => some [112]) (start fun _ _ => 0)
        twinsEnter).chat.users.pool 0).userId := by decide +kernel
  generalize (run (step fun _ => some [112]) (start fun _ _ => 0) twinsEnter).chat = c at *
  have e := h Mem.zero 0 3 (.inl (by rw [hlist]; decide))
  rw [Chat.leaveUser_userList] at e
  exact (c.staying_eq_iff 3 0).mp e 1 (by rw [hlist]; decide) (by decide) hid

end Server

end Iocp
