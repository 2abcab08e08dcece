import IocpChatting.Content.Roster
import IocpChatting.Content.Writes

/-!
# Every handler call is one deed

`Chat.roster` reads the roster off the managers; `Handler.deed` says, from the state before the
call, which deed the handler does.  `run_roster` is the refinement: the roster after the call is
the deed applied to the roster before it.  `deed_fits` lists what the handler has checked.
-/

set_option linter.unusedSectionVars false
set_option autoImplicit false

namespace Iocp
open UserManager (getUserByIndex)

instance : Inhabited CStr := ⟨CStr.empty⟩

namespace Chat

def roster (c : Chat) : Roster Session RoomPtr CStr where
  state p := (c.users.pool p).domainState
  id p := (c.users.pool p).userId
  place p := getRoomByIdx (c.users.pool p).roomIdx
  owner v := (c.users.userIdMap v).bind getUserByIndex
  members r := (c.roomList r).userList

end Chat

/-! ## the deed of a handler call -/

open Chat in
def Handler.deed (hd : Handler) (c : Chat) (mem : Mem) (sessionIdx : Nat) (data : Nat → UInt8) :
    Deed Session RoomPtr CStr :=
  match getUserByIndex (int32 sessionIdx) with
  | none => .idle
  | some p =>
    match hd with
    | .connect => .clear p
    | .disconnect =>
      if (c.users.pool p).domainState = .room then
        match getRoomByIdx (c.users.pool p).roomIdx with
        | none => .idle
        | some r => .disconnect p (some r)
      else .disconnect p none
    | .login =>
      if c.users.getCurrentUserCnt ≥ c.users.getMaxUserCnt then .idle
      else if c.users.findUserIndexByID (loginId mem data) = -1 then .request p (loginId mem data)
      else .idle
    | .loginDBRes => if readResult data = ErrorCode.none.val then .accept p else .reject p
    | .enterRoom =>
      if (c.users.pool p).domainState ≠ .login then .idle
      else
        match getRoomByIdx (readRoomNumber data) with
        | none => .idle
        | some r =>
          if (c.roomList r).userList.length ≥ (c.roomList r).maxUserCnt then .idle else .enter p r
    | .leaveRoom =>
      if (c.users.pool p).domainState ≠ .room then .idle
      else
        match getRoomByIdx (c.users.pool p).roomIdx with
        | none => .idle
        | some r => .leave p r
    | .roomChat =>
      if (c.users.pool p).domainState ≠ .room then .idle
      else
        match getRoomByIdx (c.users.pool p).roomIdx with
        | none => .idle
        | some r => .chat p r

namespace Chat

theorem find_eq_neg_one {c : Chat} (hc : c.Fixed) (v : CStr) :
    c.users.findUserIndexByID v = -1 ↔ c.users.userIdMap v = none := by
  unfold UserManager.findUserIndexByID
  cases h : c.users.userIdMap v with
  | none => simp
  | some i =>
    obtain ⟨p, hp⟩ := hc.owners v i h
    simp only [hp]
    constructor
    · intro e
      omega
    · intro e
      cases e

theorem owner_eq_none {c : Chat} (hc : c.Fixed) (v : CStr) :
    c.roster.owner v = none ↔ c.users.userIdMap v = none := by
  show (c.users.userIdMap v).bind getUserByIndex = none ↔ _
  cases h : c.users.userIdMap v with
  | none => simp
  | some i =>
    obtain ⟨p, hp⟩ := hc.owners v i h
    rw [hp, Option.bind_some, getUserByIndex_session]
    simp

/-! ## writes, seen in the roster -/

@[simp] theorem roster_send (c : Chat) (idx : Nat) (pkt : Packet) : (c.send idx pkt).roster = c.roster :=
  rfl

theorem roster_setUser (c : Chat) (p : Session) (u : User) :
    (c.setUser p u).roster =
      { c.roster with
        state := Function.update c.roster.state p u.domainState
        id := Function.update c.roster.id p u.userId
        place := Function.update c.roster.place p (getRoomByIdx u.roomIdx) } := by
  have e : ∀ {β : Type} (f : User → β), (fun q => f (Function.update c.users.pool p u q))
      = Function.update (fun q => f (c.users.pool q)) p (f u) := by
    intro β f
    funext q
    by_cases hq : q = p
    · subst hq; simp
    · simp [Function.update_of_ne hq]
  show Roster.mk _ _ _ _ _ = Roster.mk _ _ _ _ _
  congr 1
  · exact e User.domainState
  · exact e User.userId
  · exact e (fun u => getRoomByIdx u.roomIdx)

theorem roster_setRoom (c : Chat) (r : RoomPtr) (room : Room) :
    (c.setRoom r room).roster =
      { c.roster with members := Function.update c.roster.members r room.userList } := by
  show Roster.mk _ _ _ _ _ = Roster.mk _ _ _ _ _
  congr 1
  funext r'
  show (Function.update c.roomList r room r').userList = _
  by_cases hr : r' = r
  · subst hr; simp
  · simp only [Function.update_of_ne hr]
    rfl

theorem roster_leaveUser (c : Chat) (mem : Mem) (r : RoomPtr) (p : Session) :
    (c.leaveUser mem r p).roster = { c.roster with members := c.roster.without p r } := by
  have e : (c.roomList r).userList.filter (fun q => !(c.users.pool p).userId == (c.users.pool q).userId)
      = (c.roster.members r).filter fun q => c.roster.id p ≠ c.roster.id q := by
    apply List.filter_congr
    intro q _
    show (!(c.users.pool p).userId == (c.users.pool q).userId) = decide (¬ _ = _)
    rw [decide_not]
    rfl
  show (c.setRoom r _).roster = _
  rw [roster_setRoom]
  show Roster.mk _ _ _ _ (Function.update _ r _) = Roster.mk _ _ _ _ (Function.update _ r _)
  rw [e]

/-! ## the refinement, handler by handler -/

variable {c : Chat} {mem : Mem} {i : Nat} {data : Nat → UInt8}

theorem connect_roster :
    (c.connectHandler i).roster = c.roster.apply (Handler.connect.deed c mem i data) := by
  unfold connectHandler Handler.deed
  cases getUserByIndex (int32 i) with
  | none => rfl
  | some p =>
    show (c.setUser p _).roster = _
    rw [roster_setUser]
    show Roster.mk _ _ _ _ _ = Roster.mk _ _ _ _ _
    rw [show getRoomByIdx (c.users.pool p).clear.roomIdx = none from getRoomByIdx_none]
    rfl

theorem roster_deleteUserInfo (c : Chat) (v : CStr) :
    { c with users := c.users.deleteUserInfo v }.roster =
      { c.roster with owner := Function.update c.roster.owner v none } := by
  show Roster.mk _ _ _ _ _ = Roster.mk _ _ _ _ _
  congr 1
  funext w
  show (Function.update c.users.userIdMap v none w).bind getUserByIndex = _
  by_cases hw : w = v
  · subst hw; simp
  · simp only [Function.update_of_ne hw]
    rfl

theorem roster_register (c : Chat) (v : CStr) (p : Session) :
    { c with users := { c.users with
        userIdMap := Function.update c.users.userIdMap v (some (p : Nat)) } }.roster =
      { c.roster with owner := Function.update c.roster.owner v (some p) } := by
  show Roster.mk _ _ _ _ _ = Roster.mk _ _ _ _ _
  congr 1
  funext w
  show (Function.update c.users.userIdMap v (some ((p : Nat) : Int)) w).bind getUserByIndex = _
  by_cases hw : w = v
  · subst hw
    rw [Function.update_self, Function.update_self]
    exact getUserByIndex_session p
  · rw [Function.update_of_ne hw, Function.update_of_ne hw]
    rfl

theorem disconnect_roster :
    (c.disconnectHandler mem i).roster = c.roster.apply (Handler.disconnect.deed c mem i data) := by
  unfold disconnectHandler Handler.deed
  cases getUserByIndex (int32 i) with
  | none => rfl
  | some p =>
    by_cases hp : (c.users.pool p).domainState = .room
    · simp only [if_pos hp]
      cases getRoomByIdx (c.users.pool p).roomIdx with
      | none => rfl
      | some r =>
        simp only
        rw [roster_deleteUserInfo, roster_leaveUser]
        rfl
    · simp only [if_neg hp]
      rw [roster_deleteUserInfo]
      rfl

theorem login_roster :
    (c.loginHandler mem i data).roster = c.roster.apply (Handler.login.deed c mem i data) := by
  unfold loginHandler Handler.deed
  cases hu : getUserByIndex (int32 i) with
  | none =>
    simp only [UserManager.setUserID, hu]
    split
    · rfl
    · split <;> rfl
  | some p =>
    simp only [UserManager.setUserID, hu]
    split
    · rfl
    · split
      · show (c.setUser p _).roster = _
        rw [roster_setUser]
        show Roster.mk (Function.update c.roster.state p (c.roster.state p)) _
          (Function.update c.roster.place p (c.roster.place p)) _ _ = Roster.mk _ _ _ _ _
        rw [Function.update_eq_self, Function.update_eq_self]
      · rfl

theorem addUser_roster (hc : c.Fixed) (p : Session) :
    { c with users := c.users.addUser (c.users.pool p).userId p }.roster
      = c.roster.apply (.accept p) := by
  have hset : (c.setUser p ((c.users.pool p).setLogin (c.users.pool p).userId)).roster
      = { c.roster with state := Function.update c.roster.state p .login } := by
    rw [roster_setUser]
    show Roster.mk _ (Function.update c.roster.id p (c.roster.id p))
      (Function.update c.roster.place p (c.roster.place p)) _ _ = Roster.mk _ _ _ _ _
    rw [Function.update_eq_self, Function.update_eq_self]
    rfl
  have hown : c.roster.owner (c.roster.id p)
      = (c.users.userIdMap (c.users.pool p).userId).bind getUserByIndex := rfl
  have hmap : (c.users.set p ((c.users.pool p).setLogin (c.users.pool p).userId)).userIdMap
      (c.users.pool p).userId = c.users.userIdMap (c.users.pool p).userId := rfl
  unfold UserManager.addUser Roster.apply
  simp only [hmap]
  cases hm : c.users.userIdMap (c.users.pool p).userId with
  | some k =>
    obtain ⟨q, hq⟩ := hc.owners _ _ hm
    rw [hm, hq, Option.bind_some, getUserByIndex_session] at hown
    simp only [hown]
    exact hset
  | none =>
    rw [hm, Option.bind_none] at hown
    simp only [hown]
    have hreg := roster_register (c.setUser p ((c.users.pool p).setLogin (c.users.pool p).userId))
      (c.users.pool p).userId p
    rw [hset] at hreg
    exact hreg

/-- a write to fields that the roster does not see -/
theorem roster_setUser_same (c : Chat) (p : Session) (u : User)
    (hs : u.domainState = (c.users.pool p).domainState) (hi : u.userId = (c.users.pool p).userId)
    (hr : u.roomIdx = (c.users.pool p).roomIdx) : (c.setUser p u).roster = c.roster := by
  rw [roster_setUser, hs, hi, hr]
  show Roster.mk (Function.update c.roster.state p (c.roster.state p))
    (Function.update c.roster.id p (c.roster.id p))
    (Function.update c.roster.place p (c.roster.place p)) _ _ = _
  rw [Function.update_eq_self, Function.update_eq_self, Function.update_eq_self]

theorem loginDBRes_roster (hc : c.Fixed) :
    (c.loginDBResHandler mem i data).roster
      = c.roster.apply (Handler.loginDBRes.deed c mem i data) := by
  unfold loginDBResHandler Handler.deed
  rw [roster_send]
  cases hu : getUserByIndex (int32 i) with
  | none => simp only [UserManager.setUserLogin, UserManager.setUserID, hu, ite_self, Roster.apply]
  | some p =>
    by_cases hr : readResult data = ErrorCode.none.val
    · simp only [if_pos hr, UserManager.setUserLogin, hu]
      rw [← addUser_roster hc p]
      exact roster_setUser_same { c with users := c.users.addUser (c.users.pool p).userId p } p _
        rfl rfl rfl
    · simp only [if_neg hr, UserManager.setUserID, hu]
      show (c.setUser p _).roster = _
      rw [roster_setUser]
      show Roster.mk (Function.update c.roster.state p (c.roster.state p)) _
        (Function.update c.roster.place p (c.roster.place p)) _ _ = _
      rw [Function.update_eq_self, Function.update_eq_self]
      rfl

theorem enterRoom_roster (hc : c.Fixed) :
    (c.enterRoomHandler mem i data).roster
      = c.roster.apply (Handler.enterRoom.deed c mem i data) := by
  unfold enterRoomHandler Handler.deed
  cases hu : getUserByIndex (int32 i) with
  | none => rfl
  | some p =>
    simp only
    by_cases hp : (c.users.pool p).domainState ≠ .login
    · rw [if_pos hp, if_pos hp]
      rfl
    · rw [if_neg hp, if_neg hp, roster_send]
      unfold enterRoom
      cases getRoomByIdx (readRoomNumber data) with
      | none => rfl
      | some r =>
        simp only
        unfold enterUser
        by_cases hf : ((c.roomList r).userList.length : Int) ≥ (c.roomList r).maxUserCnt
        · rw [if_pos hf, if_pos hf]
          rfl
        · rw [if_neg hf, if_neg hf]
          show ((c.setRoom r _).setUser p _).roster = _
          rw [roster_setUser, roster_setRoom]
          show Roster.mk _ (Function.update c.roster.id p (c.roster.id p))
            (Function.update c.roster.place p (getRoomByIdx (c.roomList r).roomIdx)) _ _ = _
          rw [Function.update_eq_self, hc.roomIdx r, getRoomByIdx_room]
          rfl

theorem leaveRoom_roster :
    (c.leaveRoomHandler mem i).roster = c.roster.apply (Handler.leaveRoom.deed c mem i data) := by
  unfold leaveRoomHandler Handler.deed
  cases hu : getUserByIndex (int32 i) with
  | none => rfl
  | some p =>
    simp only
    by_cases hp : (c.users.pool p).domainState ≠ .room
    · rw [if_pos hp, if_pos hp]
      rfl
    · rw [if_neg hp, if_neg hp, roster_send]
      unfold leaveRoom
      cases getRoomByIdx (c.users.pool p).roomIdx with
      | none => rfl
      | some r =>
        show ((c.leaveUser mem r p).setUser p _).roster = _
        rw [roster_setUser, roster_leaveUser]
        show Roster.mk _ (Function.update c.roster.id p (c.roster.id p))
          (Function.update c.roster.place p (c.roster.place p)) _ _ = _
        rw [Function.update_eq_self, Function.update_eq_self]
        rfl

theorem roomChat_roster :
    (c.roomChatHandler mem i data).roster
      = c.roster.apply (Handler.roomChat.deed c mem i data) := by
  unfold roomChatHandler Handler.deed
  cases hu : getUserByIndex (int32 i) with
  | none => rfl
  | some p =>
    simp only
    by_cases hp : (c.users.pool p).domainState ≠ .room
    · rw [if_pos hp, if_pos hp]
      rfl
    · rw [if_neg hp, if_neg hp]
      cases getRoomByIdx (c.users.pool p).roomIdx with
      | none => rfl
      | some r => rfl

/-- **Every handler call does its deed.** -/
theorem run_roster (hd : Handler) (hc : c.Fixed) :
    (hd.run c mem i data).roster = c.roster.apply (hd.deed c mem i data) := by
  cases hd with
  | connect => exact connect_roster
  | disconnect => exact disconnect_roster
  | login => exact login_roster
  | loginDBRes => exact loginDBRes_roster hc
  | enterRoom => exact enterRoom_roster hc
  | leaveRoom => exact leaveRoom_roster
  | roomChat => exact roomChat_roster

theorem deed_fits (hd : Handler) (hc : c.Fixed) : c.roster.Fits (hd.deed c mem i data) := by
  unfold Handler.deed
  cases hu : getUserByIndex (int32 i) with
  | none => trivial
  | some p =>
    cases hd with
    | connect => trivial
    | disconnect =>
      simp only
      by_cases hp : (c.users.pool p).domainState = .room
      · rw [if_pos hp]
        cases hr : getRoomByIdx (c.users.pool p).roomIdx with
        | none => trivial
        | some r =>
          show if (c.users.pool p).domainState = .room then _ else _
          rw [if_pos hp]
          exact ⟨rfl, hr⟩
      · rw [if_neg hp]
        show if (c.users.pool p).domainState = .room then _ else _
        rw [if_neg hp]
    | login =>
      simp only
      split
      · trivial
      · split
        · rename_i h
          exact (owner_eq_none hc _).mpr ((find_eq_neg_one hc _).mp h)
        · trivial
    | loginDBRes =>
      simp only
      split <;> trivial
    | enterRoom =>
      simp only
      by_cases hp : (c.users.pool p).domainState ≠ .login
      · rw [if_pos hp]
        trivial
      · rw [if_neg hp]
        cases getRoomByIdx (readRoomNumber data) with
        | none => trivial
        | some r =>
          simp only
          split
          · trivial
          · exact not_not.mp hp
    | leaveRoom | roomChat =>
      simp only
      by_cases hp : (c.users.pool p).domainState ≠ .room
      · rw [if_pos hp]
        trivial
      · rw [if_neg hp]
        cases hr : getRoomByIdx (c.users.pool p).roomIdx with
        | none => trivial
        | some r => exact ⟨not_not.mp hp, hr⟩

end Chat

end Iocp
