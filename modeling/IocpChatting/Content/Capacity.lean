import IocpChatting.Content.Deliveries

/-!
# Rooms do not overflow

`NotifyUserList` writes one entry for each user of the room, and the array of the packet has
`kROOM_MAX_USER_CNT` of them; the loop itself compares the index with nothing.

* `Roster.Within`             a bound on the member lists, kept by every deed but an entry into a
                              full room;
* `fillUserList`              the loop, with the array it writes to;
* `list_packets_in_bounds`    no room is over full, and no list packet is written past its array.
-/

set_option linter.unusedSectionVars false
set_option autoImplicit false

namespace Iocp
open Runs
open UserManager (getUserByIndex)

namespace Roster

variable {S R I : Type*} [DecidableEq S] [DecidableEq R] [DecidableEq I] [Inhabited I]

/-- no room has more than `n` members -/
def Within (ρ : Roster S R I) (n : Nat) : Prop := ∀ r, (ρ.members r).length ≤ n

/-- an entry needs a room that is not full -/
def HasRoom (ρ : Roster S R I) (n : Nat) : Deed S R I → Prop
  | .enter _ r => (ρ.members r).length < n
  | _ => True

theorem within_without {ρ : Roster S R I} {n : Nat} (h : ρ.Within n) (p : S) (r r' : R) :
    (ρ.without p r r').length ≤ n := by
  unfold without
  by_cases e : r' = r
  · subst e
    rw [Function.update_self]
    exact (List.length_filter_le _ _).trans (h r')
  · rw [Function.update_of_ne e]
    exact h r'

theorem within_apply {ρ : Roster S R I} {n : Nat} {d : Deed S R I} (h : ρ.Within n)
    (hd : ρ.HasRoom n d) : (ρ.apply d).Within n := by
  intro r'
  cases d with
  | enter p r =>
    show (Function.update ρ.members r (ρ.members r ++ [p]) r').length ≤ n
    by_cases e : r' = r
    · subst e
      rw [Function.update_self, List.length_append, List.length_singleton]
      exact hd
    · rw [Function.update_of_ne e]
      exact h r'
  | leave p r => exact within_without h p r r'
  | disconnect p left =>
    cases left with
    | none => exact h r'
    | some r => exact within_without h p r r'
  | idle | clear | request | accept | reject | chat => exact h r'

end Roster

namespace Chat

variable {c : Chat} {mem : Mem} {i : Nat} {data : Nat → UInt8}

/-! ## the loop of NotifyUserList -/

/-- the array of a new list packet -/
def blankUserList (mem : Mem) : List UserInfo := (List.range kRoomMaxUserCnt).map (blankUserInfo mem)

/-- the loop from index `idx` on; `none` is a write past the end of the array -/
def fillUserList (c : Chat) (mem : Mem) : List Session → Nat → List UserInfo → Option (List UserInfo)
  | [], _, entries => some entries
  | q :: l, idx, entries =>
    if idx < entries.length then
      c.fillUserList mem l (idx + 1) (entries.set idx (userInfo mem (c.users.pool q)))
    else none

/-- what is written goes in front of what is left of the array -/
theorem fillUserList_eq (l : List Session) (written left : List UserInfo) (h : l.length ≤ left.length) :
    c.fillUserList mem l written.length (written ++ left) =
      some (written ++ l.map (fun q => userInfo mem (c.users.pool q)) ++ left.drop l.length) := by
  induction l generalizing written left with
  | nil => simp [fillUserList]
  | cons q l ih =>
    cases left with
    | nil => simp at h
    | cons e left =>
      have hidx : written.length < (written ++ e :: left).length := by
        rw [List.length_append, List.length_cons]
        omega
      have hset : (written ++ e :: left).set written.length (userInfo mem (c.users.pool q))
          = (written ++ [userInfo mem (c.users.pool q)]) ++ left := by
        rw [List.set_append_right _ _ (Nat.le_refl _), Nat.sub_self, List.set_cons_zero,
          List.append_assoc]
        rfl
      have hlen : written.length + 1 = (written ++ [userInfo mem (c.users.pool q)]).length := by
        rw [List.length_append, List.length_singleton]
      have hleft : l.length ≤ left.length := by
        rw [List.length_cons, List.length_cons] at h
        omega
      rw [fillUserList, if_pos hidx, hset, hlen, ih _ _ hleft]
      simp only [List.map_cons, List.length_cons, List.drop_succ_cons, List.append_assoc,
        List.singleton_append]

theorem fillUserList_blank {l : List Session} (h : l.length ≤ kRoomMaxUserCnt) :
    c.fillUserList mem l 0 (blankUserList mem) = some (c.userListEntries mem l) := by
  have hb : l.length ≤ (blankUserList mem).length := by
    rw [blankUserList, List.length_map, List.length_range]
    exact h
  rw [show blankUserList mem = [] ++ blankUserList mem from rfl]
  rw [show 0 = ([] : List UserInfo).length from rfl, fillUserList_eq l [] _ hb]
  unfold userListEntries blankUserList
  rw [List.nil_append, List.map_drop]

theorem fillUserList_congr {d : Chat}
    (h : ∀ q, userInfo mem (d.users.pool q) = userInfo mem (c.users.pool q)) (l : List Session) :
    ∀ (idx : Nat) (entries : List UserInfo),
      d.fillUserList mem l idx entries = c.fillUserList mem l idx entries := by
  induction l with
  | nil => exact fun _ _ => rfl
  | cons q l ih =>
    intro idx entries
    rw [fillUserList, fillUserList, h, ih]

/-- the entries behind those in use are as the packet was made -/
theorem userListEntries_rest (l : List Session) :
    (c.userListEntries mem l).drop l.length = (blankUserList mem).drop l.length := by
  have hlen : (l.map fun q => userInfo mem (c.users.pool q)).length = l.length := List.length_map _
  unfold userListEntries blankUserList
  rw [List.drop_left' hlen, List.map_drop]

/-! ## who sends list packets -/

/-- between `c` and `c'` every list packet was written inside its array, over the first entries,
one for each user of some room -/
def ListPackets (c c' : Chat) (mem : Mem) : Prop :=
  ∀ x ∈ c.news c', ∀ cnt entries, x.pkt.body = .roomUserListNotify cnt entries →
    ∃ r : RoomPtr,
      let k := (c'.roomList r).userList.length
      cnt = k ∧ k ≤ kRoomMaxUserCnt ∧
        c'.fillUserList mem (c'.roomList r).userList 0 (blankUserList mem) = some entries ∧
        entries.drop k = (blankUserList mem).drop k

/-- a list packet comes from somebody's entry into a room -/
theorem sends_userList {hd : Handler} {x : Sent} (hx : x ∈ hd.sends c mem i data) {cnt : Int}
    {entries : List UserInfo} (hb : x.pkt.body = .roomUserListNotify cnt entries) :
    ∃ p r, hd.deed c mem i data = .enter p r ∧
      x.pkt = c.userListPacket mem ((c.roomList r).userList ++ [p]) := by
  have hsays := sends_says hx
  rw [hb] at hsays
  cases hd with
  | enterRoom =>
    simp only [Handler.sends] at hx
    cases hp : getUserByIndex (int32 i) with
    | none =>
      rw [hp] at hx
      cases hx
    | some p =>
      rw [hp] at hx
      simp only at hx
      by_cases hs : (c.users.pool p).domainState ≠ .login
      · rw [if_pos hs, List.mem_singleton] at hx
        rw [hx] at hb
        cases hb
      · rw [if_neg hs] at hx
        cases hr : getRoomByIdx (readRoomNumber data) with
        | none =>
          rw [hr] at hx
          rw [List.mem_singleton.mp hx] at hb
          cases hb
        | some r =>
          rw [hr] at hx
          simp only at hx
          by_cases hf : ((c.roomList r).userList.length : Int) ≥ (c.roomList r).maxUserCnt
          · rw [if_pos hf, List.mem_singleton] at hx
            rw [hx] at hb
            cases hb
          · rw [if_neg hf] at hx
            refine ⟨p, r, ?_, ?_⟩
            · simp only [Handler.deed, hp, if_neg hs, hr, if_neg hf]
            · rcases List.mem_append.mp hx with hx | hx
              · rcases List.mem_append.mp hx with hx | hx
                · rw [mem_toEach hx] at hb
                  cases hb
                · rw [List.mem_singleton.mp hx]
              · rw [List.mem_singleton.mp hx] at hb
                cases hb
  | _ => cases hsays

/-- `EnterUser` has compared the length of the list -/
theorem deed_hasRoom (hd : Handler) (hc : c.Fixed) :
    c.roster.HasRoom kRoomMaxUserCnt (hd.deed c mem i data) := by
  cases hp : hd.deed c mem i data with
  | enter p r =>
    unfold Handler.deed at hp
    split at hp
    · cases hp
    · cases hd with
      | enterRoom =>
        simp only at hp
        split at hp
        · cases hp
        · split at hp
          · cases hp
          · split at hp
            · cases hp
            · next hf =>
              cases hp
              rw [hc.maxUserCnt] at hf
              show (c.roomList r).userList.length < kRoomMaxUserCnt
              omega
      | disconnect => simp only at hp; split at hp <;> (try split at hp) <;> cases hp
      | login => simp only at hp; split at hp <;> (try split at hp) <;> cases hp
      | loginDBRes => simp only at hp; split at hp <;> cases hp
      | leaveRoom | roomChat => simp only at hp; split at hp <;> (try split at hp) <;> cases hp
      | connect => cases hp
  | _ => trivial

theorem sends_list_packets {hd : Handler} (hc : c.Fixed)
    (hw : (hd.run c mem i data).roster.Within kRoomMaxUserCnt) :
    c.ListPackets (hd.run c mem i data) mem := by
  intro x hx cnt entries hb
  rw [news_run hd hc] at hx
  obtain ⟨p, r, hd', hpkt⟩ := sends_userList hx hb
  have hrun := @run_roster c mem i data hd hc
  rw [hd'] at hrun
  have hlist : ((hd.run c mem i data).roomList r).userList = (c.roomList r).userList ++ [p] :=
    (congrArg (fun ρ => ρ.members r) hrun).trans (Function.update_self ..)
  have hk : ((c.roomList r).userList ++ [p]).length ≤ kRoomMaxUserCnt := hlist ▸ hw r
  have hfix : (hd.run c mem i data).Fixed := run_fixed hd hc
  have hinfo : ∀ q, userInfo mem ((hd.run c mem i data).users.pool q) = userInfo mem (c.users.pool q) := by
    intro q
    have hid : ((hd.run c mem i data).users.pool q).userId = (c.users.pool q).userId :=
      congrArg (fun ρ => ρ.id q) hrun
    unfold userInfo
    rw [hfix.sessionIdx, hc.sessionIdx, hid]
  rw [hpkt] at hb
  obtain ⟨hcnt, hentries⟩ := Body.roomUserListNotify.inj hb
  refine ⟨r, ?_⟩
  rw [hlist]
  refine ⟨?_, hk, ?_, ?_⟩
  · rw [← hcnt, int8_of_le hk]
  · rw [fillUserList_congr hinfo, fillUserList_blank hk, hentries]
  · rw [← hentries]
    exact userListEntries_rest _

end Chat

namespace Server

/-- the memory that an action finds -/
def Action.mem : Action → Mem
  | .loop mem | .redisPut _ mem => mem
  | _ => Mem.zero

section
variable (redisGet : CStr → Option (List UInt8))
  (heap : Session → Fin kDefaultRingBufferSize → UInt8)

theorem step_within {s : Server} (hs : s.Sound) (h : s.chat.roster.Within kRoomMaxUserCnt) (a : Action) :
    (step redisGet s a).chat.roster.Within kRoomMaxUserCnt := by
  rw [roster_step redisGet hs.fixed]
  refine Roster.within_apply h ?_
  unfold Server.deed
  cases s.call a with
  | none => trivial
  | some k => exact Chat.deed_hasRoom k.handler hs.fixed

theorem run_within (as : List Action) :
    (run (step redisGet) (start heap) as).chat.roster.Within kRoomMaxUserCnt := by
  have h := run_keeps_all (step redisGet)
    (I := fun s => s.Sound ∧ s.chat.roster.Within kRoomMaxUserCnt)
    (fun s a h => ⟨step_sound redisGet h.1 a, step_within redisGet h.1 h.2 a⟩)
    ⟨start_sound heap, fun _ => Nat.zero_le _⟩ as
  exact h.2

/-- **No room is over full, and every list packet stays inside its array**: in every state of a run, and
for whatever the next step sends. -/
theorem list_packets_in_bounds (as : List Action) (a : Action) :
    (∀ r : RoomPtr, ((run (step redisGet) (start heap) as).chat.roomList r).userList.length
      ≤ kRoomMaxUserCnt) ∧
    (run (step redisGet) (start heap) as).chat.ListPackets
      (step redisGet (run (step redisGet) (start heap) as) a).chat a.mem := by
  have hs := run_sound redisGet heap as
  have hw := run_within redisGet heap as
  refine ⟨hw, ?_⟩
  generalize run (step redisGet) (start heap) as = s at *
  cases hk : s.call a with
  | none =>
    -- nothing is sent without a call
    intro x hx
    unfold Chat.news at hx
    rw [(step_quiet redisGet hk).sent, List.drop_length] at hx
    cases hx
  | some k =>
    have hw' := step_within redisGet hs hw a
    obtain ⟨ha, _, _⟩ := call_spec hk
    rw [step_call redisGet hk] at hw' ⊢
    subst ha
    exact Chat.sends_list_packets hs.fixed hw'

end

end Server

end Iocp
