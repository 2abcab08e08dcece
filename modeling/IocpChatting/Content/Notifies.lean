import IocpChatting.Content.Deeds

/-!
# Who gets a notify packet

`notifies` reads the addressees of the notify packets off the log of `SendPacketFunc`.
`run_notifies` is the second half of the refinement: a handler call sends them to those that its deed
notifies (`Roster.notified`), in that order.
-/

set_option linter.unusedSectionVars false
set_option autoImplicit false

namespace Iocp
open UserManager (getUserByIndex)

namespace Chat

variable {c : Chat} {mem : Mem} {i : Nat} {data : Nat → UInt8}

/-- the addressees of the notify packets in a log, in order -/
def notifies (l : List Sent) : List Nat := (l.filter (·.pkt.body.isNotify)).map (·.idx)

theorem notifies_append (l l' : List Sent) : notifies (l ++ l') = notifies l ++ notifies l' := by
  simp [notifies]

theorem notifies_response (c : Chat) (idx : Nat) {pkt : Packet} (h : pkt.body.isNotify = false) :
    notifies (c.send idx pkt).sent = notifies c.sent := by
  show notifies (c.sent ++ [_]) = _
  rw [notifies_append]
  simp [notifies, h]

theorem notifies_notify (c : Chat) (idx : Nat) {pkt : Packet} (h : pkt.body.isNotify = true) :
    notifies (c.send idx pkt).sent = notifies c.sent ++ [idx] := by
  show notifies (c.sent ++ [_]) = _
  rw [notifies_append]
  simp [notifies, h]

theorem notifies_broadcast (hc : c.Fixed) (r : RoomPtr) (idx : Nat) (me : Bool) {pkt : Packet}
    (h : pkt.body.isNotify = true) :
    notifies (c.broadcastMsg r pkt idx me).sent =
      notifies c.sent ++ ((c.roster.members r).filter (c.receives idx me)).map Fin.val := by
  show notifies (c.sent ++ List.map _ _) = _
  rw [notifies_append]
  congr 1
  show (List.filter _ _).map Sent.idx = _
  rw [List.filter_map, List.map_map, List.filter_eq_self.mpr]
  · apply List.map_congr_left
    intro p _
    show uint32 (c.users.pool p).sessionIdx = p
    rw [hc.sessionIdx, uint32_session]
  · intro p _
    exact h

/-- `except_me` with the index of a user skips that user -/
theorem receives_others (hc : c.Fixed) (p : Session) :
    c.receives (uint32 (c.users.pool p).sessionIdx) true = fun q => decide (q ≠ p) := by
  funext q
  unfold receives
  rw [hc.sessionIdx, hc.sessionIdx, int16_session, uint32_session, uint32_session, Bool.true_and]
  by_cases h : q = p
  · subst h; simp
  · have hne : (q : Nat) ≠ p := fun e => h (Fin.ext e)
    simp [h, hne]

theorem notifies_others (hc : c.Fixed) (r : RoomPtr) (p : Session) {pkt : Packet}
    (h : pkt.body.isNotify = true) :
    notifies (c.broadcastMsg r pkt (uint32 (c.users.pool p).sessionIdx) true).sent =
      notifies c.sent ++ ((c.roster.members r).filter (· ≠ p)).map Fin.val := by
  rw [notifies_broadcast hc r _ _ h, receives_others hc p]

theorem notifies_all (hc : c.Fixed) (r : RoomPtr) (idx : Nat) {pkt : Packet}
    (h : pkt.body.isNotify = true) :
    notifies (c.broadcastMsg r pkt idx false).sent =
      notifies c.sent ++ (c.roster.members r).map Fin.val := by
  rw [notifies_broadcast hc r _ _ h, List.filter_eq_self.mpr]
  intro q _
  rfl

theorem notifies_leaveUser (hc : c.Fixed) (r : RoomPtr) (p : Session) :
    notifies (c.leaveUser mem r p).sent = notifies c.sent ++
      ((c.roster.without p r r).filter (· ≠ p)).map Fin.val := by
  have hm : (c.leaveUser mem r p).roster.members r = c.roster.without p r r := by
    rw [roster_leaveUser]
  unfold leaveUser notifyLeaveUser
  rw [← hm, notifies_others]
  · rfl
  · exact hc.setRoom r rfl rfl
  · rfl

theorem notifies_welcome (hc : c.Fixed) (r : RoomPtr) (p : Session) :
    notifies ((c.notifyNewUser mem r p).notifyUserList mem r p).sent =
      notifies c.sent ++ ((c.roster.members r).filter (· ≠ p) ++ [p]).map Fin.val := by
  unfold notifyUserList
  rw [notifies_notify _ _ rfl]
  unfold notifyNewUser
  rw [notifies_others hc r p rfl, List.map_append, ← List.append_assoc]
  show _ ++ [uint32 (c.users.pool p).sessionIdx] = _
  rw [hc.sessionIdx, uint32_session]
  rfl

theorem notifies_enterUser (hc : c.Fixed) (r : RoomPtr) (p : Session)
    (hf : ¬ ((c.roomList r).userList.length : Int) ≥ (c.roomList r).maxUserCnt) :
    notifies (c.enterUser mem r p).1.sent = notifies c.sent ++
      ((c.roster.members r ++ [p]).filter (· ≠ p) ++ [p]).map Fin.val := by
  unfold enterUser
  simp only [if_neg hf]
  rw [notifies_welcome]
  · rw [roster_setUser, roster_setRoom]
    simp only [Function.update_self]
    rfl
  · refine Fixed.setUser ?_ p ?_
    · exact hc.setRoom r rfl rfl
    · rfl

theorem connect_sent : (c.connectHandler i).sent = c.sent := by
  unfold connectHandler
  split <;> rfl

theorem login_deed_notified :
    c.roster.notified (Handler.login.deed c mem i data) = [] := by
  unfold Handler.deed
  cases getUserByIndex (int32 i) with
  | none => rfl
  | some p =>
    simp only
    split
    · rfl
    · split <;> rfl

theorem loginDBRes_deed_notified :
    c.roster.notified (Handler.loginDBRes.deed c mem i data) = [] := by
  unfold Handler.deed
  cases getUserByIndex (int32 i) with
  | none => rfl
  | some p =>
    simp only
    split <;> rfl

theorem login_notifies : notifies (c.loginHandler mem i data).sent = notifies c.sent := by
  unfold loginHandler
  simp only
  split
  · exact notifies_response c _ rfl
  · split
    · rfl
    · exact notifies_response c _ rfl

theorem disconnect_notifies (hc : c.Fixed) :
    notifies (c.disconnectHandler mem i).sent =
      notifies c.sent
        ++ (c.roster.notified (Handler.disconnect.deed c mem i data)).map Fin.val := by
  unfold disconnectHandler Handler.deed
  cases hu : getUserByIndex (int32 i) with
  | none => exact (List.append_nil _).symm
  | some p =>
    simp only
    by_cases hp : (c.users.pool p).domainState = .room
    · rw [if_pos hp, if_pos hp]
      cases getRoomByIdx (c.users.pool p).roomIdx with
      | none => exact (List.append_nil _).symm
      | some r => exact notifies_leaveUser hc r p
    · rw [if_neg hp, if_neg hp]
      exact (List.append_nil _).symm

theorem enterRoom_notifies (hc : c.Fixed) :
    notifies (c.enterRoomHandler mem i data).sent =
      notifies c.sent
        ++ (c.roster.notified (Handler.enterRoom.deed c mem i data)).map Fin.val := by
  unfold enterRoomHandler Handler.deed
  cases hu : getUserByIndex (int32 i) with
  | none => exact (List.append_nil _).symm
  | some p =>
    simp only
    by_cases hp : (c.users.pool p).domainState ≠ .login
    · rw [if_pos hp, if_pos hp, notifies_response _ _ rfl]
      exact (List.append_nil _).symm
    · rw [if_neg hp, if_neg hp, notifies_response _ _ rfl]
      unfold enterRoom
      cases getRoomByIdx (readRoomNumber data) with
      | none => exact (List.append_nil _).symm
      | some r =>
        simp only
        by_cases hf : ((c.roomList r).userList.length : Int) ≥ (c.roomList r).maxUserCnt
        · rw [if_pos hf]
          unfold enterUser
          simp only [if_pos hf]
          exact (List.append_nil _).symm
        · rw [if_neg hf]
          exact notifies_enterUser hc r p hf

theorem leaveRoom_notifies (hc : c.Fixed) :
    notifies (c.leaveRoomHandler mem i).sent =
      notifies c.sent
        ++ (c.roster.notified (Handler.leaveRoom.deed c mem i data)).map Fin.val := by
  unfold leaveRoomHandler Handler.deed
  cases hu : getUserByIndex (int32 i) with
  | none => exact (List.append_nil _).symm
  | some p =>
    simp only
    by_cases hp : (c.users.pool p).domainState ≠ .room
    · rw [if_pos hp, if_pos hp, notifies_response _ _ rfl]
      exact (List.append_nil _).symm
    · rw [if_neg hp, if_neg hp, notifies_response _ _ rfl]
      unfold leaveRoom
      cases getRoomByIdx (c.users.pool p).roomIdx with
      | none => exact (List.append_nil _).symm
      | some r => exact notifies_leaveUser hc r p

theorem roomChat_notifies (hc : c.Fixed) :
    notifies (c.roomChatHandler mem i data).sent =
      notifies c.sent
        ++ (c.roster.notified (Handler.roomChat.deed c mem i data)).map Fin.val := by
  unfold roomChatHandler Handler.deed
  cases hu : getUserByIndex (int32 i) with
  | none => exact (notifies_response c _ rfl).trans (List.append_nil _).symm
  | some p =>
    simp only
    by_cases hp : (c.users.pool p).domainState ≠ .room
    · rw [if_pos hp, if_pos hp, notifies_response _ _ rfl]
      exact (List.append_nil _).symm
    · rw [if_neg hp, if_neg hp]
      cases getRoomByIdx (c.users.pool p).roomIdx with
      | none => exact (notifies_response c _ rfl).trans (List.append_nil _).symm
      | some r =>
        simp only
        unfold notifyChat
        have hs : (c.send i (reply mem .roomChatResponse (.roomChatResponse ErrorCode.none.val))).Fixed :=
          hc.congr rfl rfl
        rw [notifies_all hs r _ rfl, notifies_response _ _ rfl]
        rfl

/-- **The notify packets of a handler call go to whom its deed notifies.** -/
theorem run_notifies (hd : Handler) (hc : c.Fixed) :
    notifies (hd.run c mem i data).sent =
      notifies c.sent ++ (c.roster.notified (hd.deed c mem i data)).map Fin.val := by
  cases hd with
  | connect =>
    show notifies (c.connectHandler i).sent = _
    rw [connect_sent]
    unfold Handler.deed
    cases getUserByIndex (int32 i) with
    | none => exact (List.append_nil _).symm
    | some p => exact (List.append_nil _).symm
  | disconnect => exact disconnect_notifies hc
  | login =>
    show notifies (c.loginHandler mem i data).sent = _
    rw [login_notifies, login_deed_notified]
    exact (List.append_nil _).symm
  | loginDBRes =>
    show notifies (c.loginDBResHandler mem i data).sent = _
    unfold loginDBResHandler
    rw [notifies_response _ _ rfl, loginDBRes_deed_notified]
    exact (List.append_nil _).symm
  | enterRoom => exact enterRoom_notifies hc
  | leaveRoom => exact leaveRoom_notifies hc
  | roomChat => exact roomChat_notifies hc

end Chat

end Iocp
