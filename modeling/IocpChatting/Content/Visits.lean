import IocpChatting.Content.Deliveries

/-!
# A visit to a room

`RoomManager::EnterRoom` and then `RoomManager::LeaveRoom` of the same user.

* `enterRoom_spec`, `leaveRoom_spec`   what the two write;
* `visit_drifts`                       a visit restores the state of the user and the list of the
                                       room, and never `room_idx_` and `current_user_cnt_`;
* `visits_count`                       `current_user_cnt_` counts visits, modulo `2^16`.
-/

set_option linter.unusedSectionVars false
set_option autoImplicit false

namespace Iocp
open UserManager (getUserByIndex)

namespace Chat

variable {c : Chat} {mem : Mem} {p : Session} {r : RoomPtr}

/-- `p` may enter `r`, and nobody there has its id -/
structure MayVisit (c : Chat) (p : Session) (r : RoomPtr) : Prop where
  state : (c.users.pool p).domainState = .login
  space : ((c.roomList r).userList.length : Int) < (c.roomList r).maxUserCnt
  ids : ∀ q ∈ (c.roomList r).userList, (c.users.pool q).userId ≠ (c.users.pool p).userId

def visit (c : Chat) (mem mem' : Mem) (p : Session) (r : RoomPtr) : Chat :=
  ((c.enterRoom mem p (r : Nat)).1.leaveRoom mem' p).1

theorem enterRoom_spec (hspace : ((c.roomList r).userList.length : Int) < (c.roomList r).maxUserCnt) :
    (c.enterRoom mem p (r : Nat)).2 = .none ∧
      (c.enterRoom mem p (r : Nat)).1.users.pool
        = Function.update c.users.pool p ((c.users.pool p).enterRoom (c.roomList r).roomIdx) ∧
      (c.enterRoom mem p (r : Nat)).1.roomList = Function.update c.roomList r
        { c.roomList r with
          userList := (c.roomList r).userList ++ [p]
          currentUserCnt := uint16 ((c.roomList r).currentUserCnt + 1) } := by
  have hfull : ¬ ((c.roomList r).userList.length : Int) ≥ (c.roomList r).maxUserCnt := by omega
  unfold enterRoom enterUser
  rw [getRoomByIdx_room]
  simp only [if_neg hfull]
  exact ⟨trivial, rfl, rfl⟩

theorem leaveRoom_spec (hr : (c.users.pool p).roomIdx = (r : Nat)) :
    (c.leaveRoom mem p).2 = .none ∧
      (c.leaveRoom mem p).1.users.pool
        = Function.update c.users.pool p { c.users.pool p with domainState := .login } ∧
      (c.leaveRoom mem p).1.roomList
        = Function.update c.roomList r { c.roomList r with userList := c.staying r p } := by
  unfold leaveRoom
  rw [hr, getRoomByIdx_room]
  exact ⟨rfl, rfl, rfl⟩

/-- what a visit writes: two fields that it does not write back -/
theorem visit_spec (hc : c.Fixed) (h : c.MayVisit p r) (mem mem' : Mem) :
    (c.enterRoom mem p (r : Nat)).2 = .none ∧
      ((c.enterRoom mem p (r : Nat)).1.leaveRoom mem' p).2 = .none ∧
      (c.visit mem mem' p r).users.pool
        = Function.update c.users.pool p { c.users.pool p with roomIdx := (r : Nat) } ∧
      (c.visit mem mem' p r).roomList = Function.update c.roomList r
        { c.roomList r with currentUserCnt := uint16 ((c.roomList r).currentUserCnt + 1) } := by
  obtain ⟨hin, hpool, hrooms⟩ := @enterRoom_spec c mem p r h.space
  unfold visit
  generalize (c.enterRoom mem p (r : Nat)).1 = c₁ at hpool hrooms ⊢
  rw [hc.roomIdx] at hpool
  have hidx : (c₁.users.pool p).roomIdx = (r : Nat) := by
    rw [hpool, Function.update_self]
    rfl
  obtain ⟨hout, hpool', hrooms'⟩ := @leaveRoom_spec c₁ mem' p r hidx
  have hstaying : c₁.staying r p = (c.roomList r).userList := by
    have hid : ∀ q, (c₁.users.pool q).userId = (c.users.pool q).userId := by
      intro q
      rw [hpool]
      by_cases hq : q = p
      · subst hq
        rw [Function.update_self]
        rfl
      · rw [Function.update_of_ne hq]
    unfold staying
    simp only [hid]
    rw [hrooms, Function.update_self, List.filter_append, List.filter_cons_of_neg (by simp),
      List.filter_nil, List.append_nil]
    refine List.filter_eq_self.mpr fun q hq => ?_
    simpa using fun e => h.ids q hq e.symm
  refine ⟨hin, hout, ?_, ?_⟩
  · rw [hpool', hpool, Function.update_self, Function.update_idem, ← h.state]
    rfl
  · rw [hrooms', hrooms, Function.update_self, Function.update_idem, hstaying]

/-! ## the inverse -/

/-- the fields of the user and of the room are as they were -/
structure Restored (c c' : Chat) (p : Session) (r : RoomPtr) : Prop where
  domainState : (c'.users.pool p).domainState = (c.users.pool p).domainState
  roomIdx : (c'.users.pool p).roomIdx = (c.users.pool p).roomIdx
  userList : (c'.roomList r).userList = (c.roomList r).userList
  currentUserCnt : (c'.roomList r).currentUserCnt = (c.roomList r).currentUserCnt

theorem uint16_succ_ne (n : Nat) : uint16 ((n : Int) + 1) ≠ n := by
  unfold uint16
  omega

theorem visit_fixed (hc : c.Fixed) (mem mem' : Mem) (p : Session) (r : RoomPtr) :
    (c.visit mem mem' p r).Fixed :=
  Fixed.writes ((Writes.enterRoom c p _).trans (Writes.leaveRoom _ p)) hc

/-- the room after a visit -/
theorem visit_room (hc : c.Fixed) (h : c.MayVisit p r) (mem mem' : Mem) :
    (c.visit mem mem' p r).roomList r
      = { c.roomList r with currentUserCnt := uint16 ((c.roomList r).currentUserCnt + 1) } := by
  rw [(visit_spec hc h mem mem').2.2.2, Function.update_self]

theorem visit_cnt (hc : c.Fixed) (h : c.MayVisit p r) (mem mem' : Mem) :
    ((c.visit mem mem' p r).roomList r).currentUserCnt
      = uint16 ((c.roomList r).currentUserCnt + 1) := by
  rw [visit_room hc h]

/-- the visitor after a visit -/
theorem visit_user (hc : c.Fixed) (h : c.MayVisit p r) (mem mem' : Mem) :
    (c.visit mem mem' p r).users.pool p = { c.users.pool p with roomIdx := (r : Nat) } := by
  rw [(visit_spec hc h mem mem').2.2.1, Function.update_self]

theorem visit_not_restored (hc : c.Fixed) (h : c.MayVisit p r) (mem mem' : Mem) :
    ¬ c.Restored (c.visit mem mem' p r) p r := by
  intro hres
  have hcnt := hres.currentUserCnt
  rw [visit_cnt hc h] at hcnt
  exact uint16_succ_ne _ hcnt

/-! ## visit after visit -/

def visits (c : Chat) (mem mem' : Mem) (p : Session) (r : RoomPtr) : Nat → Chat
  | 0 => c
  | n + 1 => (visits c mem mem' p r n).visit mem mem' p r

theorem mayVisit_visit (hc : c.Fixed) (h : c.MayVisit p r) (mem mem' : Mem) :
    (c.visit mem mem' p r).MayVisit p r := by
  have hroom := visit_room hc h mem mem'
  have hid : ∀ q, ((c.visit mem mem' p r).users.pool q).userId = (c.users.pool q).userId := by
    intro q
    rw [(visit_spec hc h mem mem').2.2.1]
    by_cases hq : q = p
    · subst hq
      rw [Function.update_self]
    · rw [Function.update_of_ne hq]
  refine ⟨?_, ?_, fun q hq => ?_⟩
  · rw [visit_user hc h]
    exact h.state
  · rw [hroom]
    exact h.space
  · rw [hroom] at hq
    rw [hid, hid]
    exact h.ids q hq

/-- **`current_user_cnt_` counts visits**, modulo `2^16`. -/
theorem visits_count (hc : c.Fixed) (h : c.MayVisit p r) (mem mem' : Mem)
    (hcnt : (c.roomList r).currentUserCnt < 65536) (n : Nat) :
    ((c.visits mem mem' p r n).roomList r).currentUserCnt
      = ((c.roomList r).currentUserCnt + n) % 65536 := by
  have key : (c.visits mem mem' p r n).Fixed ∧ (c.visits mem mem' p r n).MayVisit p r ∧
      ((c.visits mem mem' p r n).roomList r).currentUserCnt
        = ((c.roomList r).currentUserCnt + n) % 65536 := by
    induction n with
    | zero => exact ⟨hc, h, (Nat.mod_eq_of_lt hcnt).symm⟩
    | succ n ih =>
      obtain ⟨hfix, hmay, hn⟩ := ih
      refine ⟨visit_fixed hfix _ _ _ _, mayVisit_visit hfix hmay _ _, ?_⟩
      show (((c.visits mem mem' p r n).visit mem mem' p r).roomList r).currentUserCnt = _
      rw [visit_cnt hfix hmay, hn]
      unfold uint16
      omega
  exact key.2.2

end Chat

namespace Server
open Runs

/-- **Enter and leave are not the identity.**  In every reachable state and for every visit that both
functions allow, the state of the user and the list of the room come back, `room_idx_` stays at the
room and `current_user_cnt_` is one more. -/
theorem visit_drifts (redisGet : CStr → Option (List UInt8))
    (heap : Session → Fin kDefaultRingBufferSize → UInt8) (as : List Action) (mem mem' : Mem)
    (p : Session) (r : RoomPtr)
    (hmay : (run (step redisGet) (start heap) as).chat.MayVisit p r)
    (hidx : ((run (step redisGet) (start heap) as).chat.users.pool p).roomIdx = -1) :
    let c := (run (step redisGet) (start heap) as).chat
    (c.enterRoom mem p (r : Nat)).2 = .none ∧
      ((c.enterRoom mem p (r : Nat)).1.leaveRoom mem' p).2 = .none ∧
      ¬ c.Restored (c.visit mem mem' p r) p r ∧
      ((c.visit mem mem' p r).users.pool p).domainState = (c.users.pool p).domainState ∧
      ((c.visit mem mem' p r).roomList r).userList = (c.roomList r).userList ∧
      ((c.visit mem mem' p r).users.pool p).roomIdx = (r : Nat) ∧
      ((c.visit mem mem' p r).users.pool p).roomIdx ≠ (c.users.pool p).roomIdx ∧
      ((c.visit mem mem' p r).roomList r).currentUserCnt
        = uint16 ((c.roomList r).currentUserCnt + 1) := by
  have hc := (run_sound redisGet heap as).fixed
  intro c
  obtain ⟨hin, hout, _⟩ := Chat.visit_spec hc hmay mem mem'
  have huser := Chat.visit_user hc hmay mem mem'
  have hroom := Chat.visit_room hc hmay mem mem'
  refine ⟨hin, hout, Chat.visit_not_restored hc hmay mem mem', ?_, ?_, ?_, ?_,
    Chat.visit_cnt hc hmay mem mem'⟩
  · rw [huser]
  · rw [hroom]
  · rw [huser]
  · rw [huser, hidx]
    show ((r : Nat) : Int) ≠ -1
    omega

theorem visit_drifts_first :
    let c := (run (step fun _ => some [112]) (start fun _ _ => 0)
      (Action.enterLobby 0 [97] [112])).chat
    (c.enterRoom Mem.zero 0 ((3 : RoomPtr) : Nat)).2 = .none ∧
      ((c.enterRoom Mem.zero 0 ((3 : RoomPtr) : Nat)).1.leaveRoom Mem.zero 0).2 = .none ∧
      ¬ c.Restored (c.visit Mem.zero Mem.zero 0 3) 0 3 ∧
      ((c.visit Mem.zero Mem.zero 0 3).users.pool 0).domainState = (c.users.pool 0).domainState ∧
      ((c.visit Mem.zero Mem.zero 0 3).roomList 3).userList = (c.roomList 3).userList ∧
      ((c.visit Mem.zero Mem.zero 0 3).users.pool 0).roomIdx = ((3 : RoomPtr) : Nat) ∧
      ((c.visit Mem.zero Mem.zero 0 3).users.pool 0).roomIdx ≠ (c.users.pool 0).roomIdx ∧
      ((c.visit Mem.zero Mem.zero 0 3).roomList 3).currentUserCnt
        = uint16 ((c.roomList 3).currentUserCnt + 1) := by
  refine visit_drifts (fun _ => some [112]) (fun _ _ => 0) (Action.enterLobby 0 [97] [112])
    Mem.zero Mem.zero 0 3 ⟨by decide +kernel, by decide +kernel, ?_⟩ (by decide +kernel)
  decide +kernel

/-- user 0 visits room 3 once: one user more than there are is counted, and `room_idx_` is 3 -/
theorem visit_leaves_traces :
    ¬ (run (step fun _ => some [112]) (start fun _ _ => 0) (Action.enterLobby 0 [97] [112])).chat.Restored
      ((run (step fun _ => some [112]) (start fun _ _ => 0)
        (Action.enterLobby 0 [97] [112])).chat.visit Mem.zero Mem.zero 0 3) 0 3 :=
  fun h => absurd h.roomIdx (by decide +kernel)

end Server

end Iocp
