import IocpChatting.Content.Membership

/-!
# What a handler call sends

`Handler.sends` lists the calls of `SendPacketFunc` that a handler makes, read off the state before the
call.

* `run_sent`               the log grows by exactly that list;
* `room_events_delivered`  who gets what when somebody enters a room, leaves it or talks in it.
-/

set_option linter.unusedSectionVars false
set_option autoImplicit false

namespace Iocp
open Runs
open UserManager (getUserByIndex)

/-! ## packets of the room functions -/

/-- one packet to each session of a list, in order -/
def toEach (l : List Session) (pkt : Packet) : List Sent := l.map fun p : Session => ⟨p, pkt⟩

theorem mem_toEach {l : List Session} {pkt : Packet} {x : Sent} (h : x ∈ toEach l pkt) : x.pkt = pkt := by
  obtain ⟨p, _, rfl⟩ := List.mem_map.mp h
  rfl

namespace Chat

variable {c : Chat} {mem : Mem} {i : Nat} {data : Nat → UInt8}

def newUserPacket (c : Chat) (mem : Mem) (p : Session) : Packet :=
  reply mem .roomNewUserNotify (.roomNewUserNotify (userInfo mem (c.users.pool p)))

/-- the array of a list packet, where `l` is `user_list_` -/
def userListEntries (c : Chat) (mem : Mem) (l : List Session) : List UserInfo :=
  l.map (fun q => userInfo mem (c.users.pool q)) ++
    ((List.range kRoomMaxUserCnt).drop l.length).map (blankUserInfo mem)

def userListPacket (c : Chat) (mem : Mem) (l : List Session) : Packet :=
  reply mem .roomUserListNotify (.roomUserListNotify (int8 l.length) (c.userListEntries mem l))

def leaveUserPacket (mem : Mem) (p : Session) : Packet :=
  reply mem .roomLeaveUserNotify (.roomLeaveUserNotify (p : Nat))

def chatPacket (c : Chat) (mem : Mem) (p : Session) (data : Nat → UInt8) : Packet :=
  reply mem .roomChatNotify (.roomChatNotify (copyId mem (c.users.pool p).userId) (readMsg data))

/-- whoever stays in the room when `p` leaves it -/
def staying (c : Chat) (r : RoomPtr) (p : Session) : List Session :=
  (c.roomList r).userList.filter fun q => !((c.users.pool p).userId == (c.users.pool q).userId)

def leaveSends (c : Chat) (mem : Mem) (r : RoomPtr) (p : Session) : List Sent :=
  toEach ((c.staying r p).filter (· ≠ p)) (leaveUserPacket mem p)

def enterSends (c : Chat) (mem : Mem) (r : RoomPtr) (p : Session) : List Sent :=
  toEach ((c.roomList r).userList.filter (· ≠ p)) (c.newUserPacket mem p)
    ++ [⟨(p : Nat), c.userListPacket mem ((c.roomList r).userList ++ [p])⟩]

end Chat

open Chat in
/-- the calls of `SendPacketFunc` of a handler call -/
def Handler.sends (hd : Handler) (c : Chat) (mem : Mem) (sessionIdx : Nat) (data : Nat → UInt8) :
    List Sent :=
  match hd with
  | .connect => []
  | .disconnect =>
    match getUserByIndex (int32 sessionIdx) with
    | none => []
    | some p =>
      if (c.users.pool p).domainState = .room then
        match getRoomByIdx (c.users.pool p).roomIdx with
        | none => []
        | some r => c.leaveSends mem r p
      else []
  | .login =>
    if c.users.getCurrentUserCnt ≥ c.users.getMaxUserCnt then
      [⟨sessionIdx, reply mem .loginResponse (.loginResponse ErrorCode.loginUserUsedAllObj.val)⟩]
    else if c.users.findUserIndexByID (loginId mem data) = -1 then []
    else [⟨sessionIdx, reply mem .loginResponse (.loginResponse ErrorCode.loginUserAlready.val)⟩]
  | .loginDBRes => [⟨sessionIdx, reply mem .loginResponse (.loginResponse (readResult data))⟩]
  | .enterRoom =>
    match getUserByIndex (int32 sessionIdx) with
    | none => []
    | some p =>
      let answer (result : ErrorCode) : Sent :=
        ⟨sessionIdx, reply mem .roomEnterResponse (.roomEnterResponse result.val)⟩
      if (c.users.pool p).domainState ≠ .login then [answer .enterRoomNotUsedStatus]
      else
        match getRoomByIdx (readRoomNumber data) with
        | none => [answer .roomInvalidIndex]
        | some r =>
          if (c.roomList r).userList.length ≥ (c.roomList r).maxUserCnt then
            [answer .enterRoomFullUser]
          else c.enterSends mem r p ++ [answer .none]
  | .leaveRoom =>
    match getUserByIndex (int32 sessionIdx) with
    | none => []
    | some p =>
      let answer (result : ErrorCode) : Sent :=
        ⟨sessionIdx, reply mem .roomLeaveResponse (.roomLeaveResponse result.val)⟩
      if (c.users.pool p).domainState ≠ .room then [answer .userNotInRoom]
      else
        match getRoomByIdx (c.users.pool p).roomIdx with
        | none => [answer .roomInvalidIndex]
        | some r => c.leaveSends mem r p ++ [answer .none]
  | .roomChat =>
    let answer (result : ErrorCode) : Sent :=
      ⟨sessionIdx, reply mem .roomChatResponse (.roomChatResponse result.val)⟩
    match getUserByIndex (int32 sessionIdx) with
    | none => [answer .userInLobby]
    | some p =>
      if (c.users.pool p).domainState ≠ .room then [answer .userInLobby]
      else
        match getRoomByIdx (c.users.pool p).roomIdx with
        | none => [answer .chatRoomInvalidRoomNumber]
        | some r => answer .none :: toEach (c.roomList r).userList (c.chatPacket mem p data)

/-- the kinds of packets that a handler can send -/
def Handler.says : Handler → Body → Bool
  | .login, .loginResponse _ | .loginDBRes, .loginResponse _ => true
  | .enterRoom, .roomEnterResponse _ | .enterRoom, .roomNewUserNotify _
  | .enterRoom, .roomUserListNotify .. => true
  | .leaveRoom, .roomLeaveResponse _ | .leaveRoom, .roomLeaveUserNotify _
  | .disconnect, .roomLeaveUserNotify _ => true
  | .roomChat, .roomChatResponse _ | .roomChat, .roomChatNotify .. => true
  | _, _ => false

namespace Chat

variable {c : Chat} {mem : Mem} {i : Nat} {data : Nat → UInt8}

/-! ## the room functions -/

theorem broadcast_sent (hc : c.Fixed) (r : RoomPtr) (pkt : Packet) (idx : Nat) (me : Bool) :
    (c.broadcastMsg r pkt idx me).sent =
      c.sent ++ toEach ((c.roomList r).userList.filter (c.receives idx me)) pkt := by
  have e : (fun p : Session => (⟨uint32 (c.users.pool p).sessionIdx, pkt⟩ : Sent))
      = fun p => ⟨(p : Nat), pkt⟩ := by
    funext p
    rw [hc.sessionIdx, uint32_session]
  show c.sent ++ List.map (fun p : Session => (⟨uint32 (c.users.pool p).sessionIdx, pkt⟩ : Sent)) _ = _
  rw [e]
  rfl

theorem broadcast_others_sent (hc : c.Fixed) (r : RoomPtr) (pkt : Packet) (p : Session) :
    (c.broadcastMsg r pkt (uint32 (c.users.pool p).sessionIdx) true).sent =
      c.sent ++ toEach ((c.roomList r).userList.filter (· ≠ p)) pkt := by
  rw [broadcast_sent hc, receives_others hc p]

theorem broadcast_all_sent (hc : c.Fixed) (r : RoomPtr) (pkt : Packet) (idx : Nat) :
    (c.broadcastMsg r pkt idx false).sent = c.sent ++ toEach (c.roomList r).userList pkt := by
  have hall : (c.roomList r).userList.filter (c.receives idx false) = (c.roomList r).userList :=
    List.filter_eq_self.mpr fun _ _ => rfl
  rw [broadcast_sent hc, hall]

theorem setRoom_userList (r : RoomPtr) (room : Room) :
    ((c.setRoom r room).roomList r).userList = room.userList := by
  show (Function.update c.roomList r room r).userList = _
  rw [Function.update_self]

theorem uint64_session (p : Session) : uint64 (p : Nat) = p := by
  have := session_lt p
  unfold uint64
  omega

theorem leaveUser_userList (r : RoomPtr) (p : Session) :
    ((c.leaveUser mem r p).roomList r).userList = c.staying r p := setRoom_userList r _

theorem leaveUser_sent (hc : c.Fixed) (r : RoomPtr) (p : Session) :
    (c.leaveUser mem r p).sent = c.sent ++ c.leaveSends mem r p := by
  unfold leaveUser notifyLeaveUser
  rw [broadcast_others_sent]
  · rw [setRoom_userList]
    show c.sent ++ toEach _ ⟨_, .roomLeaveUserNotify (uint64 (c.users.pool p).sessionIdx)⟩ = _
    rw [hc.sessionIdx, uint64_session]
    rfl
  · exact hc.setRoom r rfl rfl

theorem notifyNewUser_sent (hc : c.Fixed) (r : RoomPtr) (p : Session) :
    (c.notifyNewUser mem r p).sent =
      c.sent ++ toEach ((c.roomList r).userList.filter (· ≠ p)) (c.newUserPacket mem p) :=
  broadcast_others_sent hc r _ p

theorem notifyUserList_sent (hc : c.Fixed) (r : RoomPtr) (p : Session) :
    (c.notifyUserList mem r p).sent =
      c.sent ++ [⟨(p : Nat), c.userListPacket mem (c.roomList r).userList⟩] := by
  have e : uint32 (c.users.pool p).sessionIdx = p := by rw [hc.sessionIdx, uint32_session]
  show c.sent ++ [⟨uint32 (c.users.pool p).sessionIdx, _⟩] = _
  rw [e]
  rfl

/-- the notify packets show of a user its index and its id only -/
theorem userListPacket_congr {d : Chat}
    (h : ∀ q, userInfo mem (d.users.pool q) = userInfo mem (c.users.pool q)) (l : List Session) :
    d.userListPacket mem l = c.userListPacket mem l := by
  unfold userListPacket userListEntries
  simp only [h]

theorem enterUser_sent (hc : c.Fixed) (r : RoomPtr) (p : Session)
    (hf : ¬ ((c.roomList r).userList.length : Int) ≥ (c.roomList r).maxUserCnt) :
    (c.enterUser mem r p).1.sent = c.sent ++ c.enterSends mem r p := by
  unfold enterUser
  simp only [if_neg hf]
  generalize hd : (c.setRoom r _).setUser p _ = d
  have hfix : d.Fixed := by
    subst hd
    refine Fixed.setUser ?_ p ?_
    · exact hc.setRoom r rfl rfl
    · rfl
  have hlist : (d.roomList r).userList = (c.roomList r).userList ++ [p] := by
    subst hd
    exact setRoom_userList r _
  have hinfo : ∀ q, userInfo mem (d.users.pool q) = userInfo mem (c.users.pool q) := by
    intro q
    subst hd
    show userInfo mem (Function.update c.users.pool p _ q) = _
    by_cases hq : q = p
    · subst hq
      rw [Function.update_self]
      rfl
    · rw [Function.update_of_ne hq]
  have hsent : d.sent = c.sent := by
    subst hd
    rfl
  have hnew : d.newUserPacket mem p = c.newUserPacket mem p := by
    unfold newUserPacket
    rw [hinfo]
  -- `p` is on the list already, and the broadcast skips it
  have hothers : (d.roomList r).userList.filter (· ≠ p) = (c.roomList r).userList.filter (· ≠ p) := by
    rw [hlist, List.filter_append, List.filter_cons_of_neg (by simp), List.filter_nil, List.append_nil]
  have hafter : (d.notifyNewUser mem r p).Fixed := hfix.congr rfl rfl
  rw [notifyUserList_sent hafter]
  show (d.notifyNewUser mem r p).sent ++ [⟨_, d.userListPacket mem (d.roomList r).userList⟩] = _
  rw [notifyNewUser_sent hfix, hnew, hothers, hsent, userListPacket_congr hinfo, hlist, List.append_assoc]
  rfl

theorem notifyChat_sent (hc : c.Fixed) (r : RoomPtr) (p : Session) :
    (c.notifyChat mem r (c.users.pool p).sessionIdx (c.users.pool p).userId (readMsg data)).sent =
      c.sent ++ toEach (c.roomList r).userList (c.chatPacket mem p data) :=
  broadcast_all_sent hc r _ _

/-! ## the handlers -/

/-- **A handler call sends exactly `Handler.sends`.** -/
theorem run_sent (hd : Handler) (hc : c.Fixed) :
    (hd.run c mem i data).sent = c.sent ++ hd.sends c mem i data := by
  cases hd with
  | connect =>
    show (c.connectHandler i).sent = c.sent ++ []
    rw [connect_sent, List.append_nil]
  | disconnect =>
    show (c.disconnectHandler mem i).sent = _
    unfold disconnectHandler Handler.sends
    cases getUserByIndex (int32 i) with
    | none => exact (List.append_nil _).symm
    | some p =>
      simp only
      by_cases hp : (c.users.pool p).domainState = .room
      · rw [if_pos hp, if_pos hp]
        cases getRoomByIdx (c.users.pool p).roomIdx with
        | none => exact (List.append_nil _).symm
        | some r => exact leaveUser_sent hc r p
      · rw [if_neg hp, if_neg hp]
        exact (List.append_nil _).symm
  | login =>
    show (c.loginHandler mem i data).sent = _
    unfold loginHandler Handler.sends
    simp only
    split
    · rfl
    · split
      · exact (List.append_nil _).symm
      · rfl
  | loginDBRes => rfl
  | enterRoom =>
    show (c.enterRoomHandler mem i data).sent = _
    unfold enterRoomHandler Handler.sends
    cases getUserByIndex (int32 i) with
    | none => exact (List.append_nil _).symm
    | some p =>
      simp only
      by_cases hp : (c.users.pool p).domainState ≠ .login
      · rw [if_pos hp, if_pos hp]
        rfl
      · rw [if_neg hp, if_neg hp]
        unfold enterRoom
        cases getRoomByIdx (readRoomNumber data) with
        | none => rfl
        | some r =>
          simp only
          by_cases hf : ((c.roomList r).userList.length : Int) ≥ (c.roomList r).maxUserCnt
          · rw [if_pos hf]
            unfold enterUser
            simp only [if_pos hf]
            rfl
          · have hsent := @enterUser_sent c mem hc r p hf
            have hcode : (c.enterUser mem r p).2 = .none := by
              unfold enterUser
              simp only [if_neg hf]
            rw [if_neg hf, ← List.append_assoc, ← hsent, hcode]
            rfl
  | leaveRoom =>
    show (c.leaveRoomHandler mem i).sent = _
    unfold leaveRoomHandler Handler.sends
    cases getUserByIndex (int32 i) with
    | none => exact (List.append_nil _).symm
    | some p =>
      simp only
      by_cases hp : (c.users.pool p).domainState ≠ .room
      · rw [if_pos hp, if_pos hp]
        rfl
      · rw [if_neg hp, if_neg hp]
        unfold leaveRoom
        cases getRoomByIdx (c.users.pool p).roomIdx with
        | none => rfl
        | some r =>
          have hsent := @leaveUser_sent c mem hc r p
          simp only
          rw [← List.append_assoc, ← hsent]
          rfl
  | roomChat =>
    show (c.roomChatHandler mem i data).sent = _
    unfold roomChatHandler Handler.sends
    cases getUserByIndex (int32 i) with
    | none => rfl
    | some p =>
      simp only
      by_cases hp : (c.users.pool p).domainState ≠ .room
      · rw [if_pos hp, if_pos hp]
        rfl
      · rw [if_neg hp, if_neg hp]
        cases getRoomByIdx (c.users.pool p).roomIdx with
        | none => rfl
        | some r =>
          have hs : (c.send i (reply mem .roomChatResponse
              (.roomChatResponse ErrorCode.none.val))).Fixed := hc.congr rfl rfl
          simp only
          rw [notifyChat_sent hs]
          show (c.sent ++ [_]) ++ _ = c.sent ++ _ :: _
          rw [List.append_assoc]
          rfl

/-- the packets a handler sends, whatever it finds -/
theorem sends_says {hd : Handler} {x : Sent} (hx : x ∈ hd.sends c mem i data) :
    hd.says x.pkt.body = true := by
  have hleave : ∀ r p, x ∈ c.leaveSends mem r p → x.pkt = leaveUserPacket mem p := fun _ _ h => mem_toEach h
  cases hd with
  | connect => cases hx
  | loginDBRes =>
    rw [List.mem_singleton.mp hx]
    rfl
  | disconnect =>
    simp only [Handler.sends] at hx
    split at hx
    · cases hx
    · split at hx
      · split at hx
        · cases hx
        · rw [hleave _ _ hx]
          rfl
      · cases hx
  | login =>
    simp only [Handler.sends] at hx
    split at hx
    · rw [List.mem_singleton.mp hx]
      rfl
    · split at hx
      · cases hx
      · rw [List.mem_singleton.mp hx]
        rfl
  | enterRoom =>
    simp only [Handler.sends] at hx
    split at hx
    · cases hx
    · split at hx
      · rw [List.mem_singleton.mp hx]
        rfl
      · split at hx
        · rw [List.mem_singleton.mp hx]
          rfl
        · split at hx
          · rw [List.mem_singleton.mp hx]
            rfl
          · rcases List.mem_append.mp hx with hx | hx
            · rcases List.mem_append.mp hx with hx | hx
              · rw [mem_toEach hx]
                rfl
              · rw [List.mem_singleton.mp hx]
                rfl
            · rw [List.mem_singleton.mp hx]
              rfl
  | leaveRoom =>
    simp only [Handler.sends] at hx
    split at hx
    · cases hx
    · split at hx
      · rw [List.mem_singleton.mp hx]
        rfl
      · split at hx
        · rw [List.mem_singleton.mp hx]
          rfl
        · rcases List.mem_append.mp hx with hx | hx
          · rw [hleave _ _ hx]
            rfl
          · rw [List.mem_singleton.mp hx]
            rfl
  | roomChat =>
    simp only [Handler.sends] at hx
    split at hx
    · rw [List.mem_singleton.mp hx]
      rfl
    · split at hx
      · rw [List.mem_singleton.mp hx]
        rfl
      · split at hx
        · rw [List.mem_singleton.mp hx]
          rfl
        · rcases List.mem_cons.mp hx with hx | hx
          · rw [hx]
            rfl
          · rw [mem_toEach hx]
            rfl

/-! ## answers -/

/-- what has been sent between two states -/
def news (c c' : Chat) : List Sent := c'.sent.drop c.sent.length

theorem news_run (hd : Handler) (hc : c.Fixed) :
    c.news (hd.run c mem i data) = hd.sends c mem i data := by
  unfold news
  rw [run_sent hd hc, List.drop_left]

end Chat

/-- the packet that answers a client's request -/
def Handler.response (hd : Handler) (result : Nat) : Option (PacketId × Body) :=
  match hd with
  | .login => some (.loginResponse, .loginResponse result)
  | .enterRoom => some (.roomEnterResponse, .roomEnterResponse result)
  | .leaveRoom => some (.roomLeaveResponse, .roomLeaveResponse result)
  | .roomChat => some (.roomChatResponse, .roomChatResponse result)
  | .connect | .disconnect | .loginDBRes => none

namespace Chat

variable {c : Chat} {mem : Mem} {i : Nat} {data : Nat → UInt8}

/-- between `c` and `c'` a request for `hd` has been answered with `result` -/
def Answers (c c' : Chat) (hd : Handler) (result : Nat) : Prop :=
  ∃ x ∈ c.news c', (hd.response result).map Prod.snd = some x.pkt.body

instance (c c' : Chat) (hd : Handler) (result : Nat) : Decidable (c.Answers c' hd result) :=
  List.decidableBEx ..

/-! ## room events -/

/-- `i` has entered `r`: the others on the list hear of it, then `i` gets the list and its response -/
structure EnterDelivered (c c' : Chat) (mem : Mem) (i : Session) (r : RoomPtr) : Prop where
  listed : (c'.roomList r).userList = (c.roomList r).userList ++ [i]
  sent : ∃ info userList,
    c'.sent = c.sent
      ++ toEach ((c.roomList r).userList.filter (· ≠ i))
        (reply mem .roomNewUserNotify (.roomNewUserNotify info))
      ++ [⟨(i : Nat), reply mem .roomUserListNotify
          (.roomUserListNotify (c'.roomList r).userList.length userList)⟩,
        ⟨(i : Nat), reply mem .roomEnterResponse (.roomEnterResponse ErrorCode.none.val)⟩] ∧
    info.userIndex = i ∧ userList.length = kRoomMaxUserCnt ∧
    (userList.take (c'.roomList r).userList.length).map UserInfo.userIndex
      = (c'.roomList r).userList.map Fin.val

/-- `i` has left `r`: whoever is still on the list hears of it, then `i` gets its response -/
def LeaveDelivered (c c' : Chat) (mem : Mem) (i : Session) (r : RoomPtr) : Prop :=
  c'.sent = c.sent
    ++ toEach ((c'.roomList r).userList.filter (· ≠ i))
      (reply mem .roomLeaveUserNotify (.roomLeaveUserNotify (i : Nat)))
    ++ [⟨(i : Nat), reply mem .roomLeaveResponse (.roomLeaveResponse ErrorCode.none.val)⟩]

/-- `i` has said `msg` in `r`: it gets its response, then everybody on the list hears it -/
def ChatDelivered (c c' : Chat) (mem : Mem) (i : Session) (r : RoomPtr) (msg : List UInt8) : Prop :=
  ∃ userId, c'.sent = c.sent
    ++ [⟨(i : Nat), reply mem .roomChatResponse (.roomChatResponse ErrorCode.none.val)⟩]
    ++ toEach (c.roomList r).userList (reply mem .roomChatNotify (.roomChatNotify userId msg))

theorem userInfo_index (hc : c.Fixed) (p : Session) : (userInfo mem (c.users.pool p)).userIndex = p := by
  show uint64 (c.users.pool p).sessionIdx = _
  rw [hc.sessionIdx, uint64_session]

theorem int8_of_le {n : Nat} (h : n ≤ kRoomMaxUserCnt) : int8 n = n := by
  have h10 : n ≤ 10 := h
  have e : ((n : Int) % 2^8).toNat = n := by omega
  unfold int8 signed
  rw [e]
  split <;> omega

theorem userListEntries_length {l : List Session} (h : l.length ≤ kRoomMaxUserCnt) :
    (c.userListEntries mem l).length = kRoomMaxUserCnt := by
  unfold userListEntries
  rw [List.length_append, List.length_map, List.length_map, List.length_drop, List.length_range]
  omega

/-- the entries in use are the list, in order -/
theorem userListEntries_index (hc : c.Fixed) (l : List Session) :
    ((c.userListEntries mem l).take l.length).map UserInfo.userIndex = l.map Fin.val := by
  have hlen : (l.map fun q => userInfo mem (c.users.pool q)).length = l.length := List.length_map _
  unfold userListEntries
  rw [List.take_left' hlen, List.map_map]
  exact List.map_congr_left fun q _ => userInfo_index hc q

/-- only the last branch of `EnterRoomHandler` says `kNONE` -/
theorem enter_branch (hc : c.Fixed) {p : Session}
    (h : c.Answers (Handler.enterRoom.run c mem p data) .enterRoom ErrorCode.none.val) :
    (c.users.pool p).domainState = .login ∧ ∃ r : RoomPtr, readRoomNumber data = (r : Nat) ∧
      ¬ ((c.roomList r).userList.length : Int) ≥ (c.roomList r).maxUserCnt := by
  obtain ⟨x, hx, hid⟩ := h
  have hbody : x.pkt.body = .roomEnterResponse ErrorCode.none.val :=
    (Option.some.inj hid).symm
  rw [news_run _ hc] at hx
  unfold Handler.sends at hx
  rw [getUserByIndex_int32] at hx
  simp only at hx
  split at hx
  · rw [List.mem_singleton.mp hx] at hbody
    cases hbody
  · next hs =>
    split at hx
    · rw [List.mem_singleton.mp hx] at hbody
      cases hbody
    · next r hr =>
      split at hx
      · rw [List.mem_singleton.mp hx] at hbody
        cases hbody
      · next hf => exact ⟨by simpa using hs, r, getRoomByIdx_eq_some.mp hr, hf⟩

theorem enter_delivered (hc : c.Fixed) {p : Session}
    (h : c.Answers (Handler.enterRoom.run c mem p data) .enterRoom ErrorCode.none.val) :
    ∃ r : RoomPtr, readRoomNumber data = (r : Nat) ∧
      c.EnterDelivered (Handler.enterRoom.run c mem p data) mem p r := by
  obtain ⟨hs, r, hr, hf⟩ := enter_branch hc h
  have hidx := getUserByIndex_int32 p
  have hroom : getRoomByIdx (readRoomNumber data) = some r := getRoomByIdx_eq_some.mpr hr
  have hdeed : Handler.enterRoom.deed c mem p data = .enter p r := by
    simp only [Handler.deed, hidx, hs, ne_eq, not_true_eq_false, if_false, hroom, if_neg hf]
  have hlist : ((Handler.enterRoom.run c mem p data).roomList r).userList
      = (c.roomList r).userList ++ [p] := by
    have e := congrArg (fun ρ => ρ.members r)
      (@run_roster c mem p data .enterRoom hc)
    rw [hdeed] at e
    exact e.trans (Function.update_self ..)
  have hsends : Handler.enterRoom.sends c mem p data = c.enterSends mem r p ++
      [⟨(p : Nat), reply mem .roomEnterResponse (.roomEnterResponse ErrorCode.none.val)⟩] := by
    simp only [Handler.sends, hidx, hs, ne_eq, not_true_eq_false, if_false, hroom, if_neg hf]
  have hlen : ((c.roomList r).userList ++ [p]).length ≤ kRoomMaxUserCnt := by
    rw [hc.maxUserCnt] at hf
    rw [List.length_append, List.length_singleton]
    omega
  refine ⟨r, hr, hlist, userInfo mem (c.users.pool p),
    c.userListEntries mem ((c.roomList r).userList ++ [p]), ?_, userInfo_index hc p,
    userListEntries_length hlen, ?_⟩
  · rw [run_sent _ hc, hsends, hlist, enterSends, userListPacket, int8_of_le hlen,
      List.append_assoc, List.append_assoc]
    rfl
  · rw [hlist]
    exact userListEntries_index hc _

/-- a leave or a chat that succeeds finds its user in a room, and the room exists -/
theorem room_branch {hd : Handler} (hhd : hd = .leaveRoom ∨ hd = .roomChat) (hc : c.Fixed) {p : Session}
    (h : c.Answers (hd.run c mem p data) hd ErrorCode.none.val) :
    (c.users.pool p).domainState = .room ∧ ∃ r : RoomPtr, (c.users.pool p).roomIdx = (r : Nat) := by
  obtain ⟨x, hx, hid⟩ := h
  rw [news_run _ hc] at hx
  rcases hhd with rfl | rfl
  all_goals
    unfold Handler.sends at hx
    rw [getUserByIndex_int32] at hx
    simp only at hx
    split at hx
    · rw [List.mem_singleton.mp hx] at hid
      cases hid
    · next hs =>
      split at hx
      · rw [List.mem_singleton.mp hx] at hid
        cases hid
      · next r hr => exact ⟨by simpa using hs, r, getRoomByIdx_eq_some.mp hr⟩

theorem leave_delivered (hc : c.Fixed) {p : Session}
    (h : c.Answers (Handler.leaveRoom.run c mem p data) .leaveRoom ErrorCode.none.val) :
    ∃ r : RoomPtr, (c.users.pool p).roomIdx = (r : Nat) ∧
      c.LeaveDelivered (Handler.leaveRoom.run c mem p data) mem p r := by
  obtain ⟨hs, r, hr⟩ := room_branch (.inl rfl) hc h
  have hidx := getUserByIndex_int32 p
  have hroom : getRoomByIdx (c.users.pool p).roomIdx = some r := getRoomByIdx_eq_some.mpr hr
  have hrun : Handler.leaveRoom.run c mem p data = c.leaveRoomHandler mem p := rfl
  have hlist : ((Handler.leaveRoom.run c mem p data).roomList r).userList = c.staying r p := by
    simp only [hrun, leaveRoomHandler, hidx, hs, ne_eq, not_true_eq_false, if_false, leaveRoom, hroom]
    exact @leaveUser_userList c mem r p
  have hsends : Handler.leaveRoom.sends c mem p data = c.leaveSends mem r p ++
      [⟨(p : Nat), reply mem .roomLeaveResponse (.roomLeaveResponse ErrorCode.none.val)⟩] := by
    simp only [Handler.sends, hidx, hs, ne_eq, not_true_eq_false, if_false, hroom]
  refine ⟨r, hr, ?_⟩
  unfold LeaveDelivered
  rw [run_sent _ hc, hsends, hlist, List.append_assoc]
  rfl

theorem chat_delivered (hc : c.Fixed) {p : Session}
    (h : c.Answers (Handler.roomChat.run c mem p data) .roomChat ErrorCode.none.val) :
    ∃ r : RoomPtr, (c.users.pool p).roomIdx = (r : Nat) ∧
      c.ChatDelivered (Handler.roomChat.run c mem p data) mem p r (readMsg data) := by
  obtain ⟨hs, r, hr⟩ := room_branch (.inr rfl) hc h
  have hidx := getUserByIndex_int32 p
  have hroom : getRoomByIdx (c.users.pool p).roomIdx = some r := getRoomByIdx_eq_some.mpr hr
  have hsends : Handler.roomChat.sends c mem p data =
      ⟨(p : Nat), reply mem .roomChatResponse (.roomChatResponse ErrorCode.none.val)⟩
        :: toEach (c.roomList r).userList (c.chatPacket mem p data) := by
    simp only [Handler.sends, hidx, hs, ne_eq, not_true_eq_false, if_false, hroom]
  refine ⟨r, hr, copyId mem (c.users.pool p).userId, ?_⟩
  rw [run_sent _ hc, hsends, List.append_assoc]
  rfl

end Chat

namespace Server

/-- **Who gets what, in every reachable state and for every request that succeeds.** -/
theorem room_events_delivered (redisGet : CStr → Option (List UInt8))
    (heap : Session → Fin kDefaultRingBufferSize → UInt8) (as : List Action) (c : Chat)
    (hreach : (run (step redisGet) (start heap) as).chat = c) (mem : Mem) (i : Session)
    (data : Nat → UInt8) :
    (c.Answers (Handler.enterRoom.run c mem i data) .enterRoom ErrorCode.none.val →
      ∃ r : RoomPtr, readRoomNumber data = (r : Nat) ∧
        c.EnterDelivered (Handler.enterRoom.run c mem i data) mem i r) ∧
    (c.Answers (Handler.leaveRoom.run c mem i data) .leaveRoom ErrorCode.none.val →
      ∃ r : RoomPtr, (c.users.pool i).roomIdx = (r : Nat) ∧
        c.LeaveDelivered (Handler.leaveRoom.run c mem i data) mem i r) ∧
    (c.Answers (Handler.roomChat.run c mem i data) .roomChat ErrorCode.none.val →
      ∃ r : RoomPtr, (c.users.pool i).roomIdx = (r : Nat) ∧
        c.ChatDelivered (Handler.roomChat.run c mem i data) mem i r (readMsg data)) := by
  have hc : c.Fixed := hreach ▸ (run_sound redisGet heap as).fixed
  exact ⟨Chat.enter_delivered hc, Chat.leave_delivered hc, Chat.chat_delivered hc⟩

/-- user 0 logs in and enters room 3 -/
def enterRoom3 : List Action :=
  Action.enterLobby 0 [97] [112] ++ Action.receive 0 (roomEnterPacket 3) ++ Action.loops 5

/-- `room_number_` is 3 -/
def askForRoom3 (k : Nat) : UInt8 := if k = 5 then 3 else 0

/-- user 1 follows -/
def followIn : List Action :=
  Action.enterLobby 1 [98] [112] ++ Action.receive 1 (roomEnterPacket 3) ++ Action.loops 5

/-- both are in the room -/
def bothIn : Server := run (step fun _ => some [112]) (start fun _ _ => 0) (enterRoom3 ++ followIn)

/-- of the bytes of a request to enter, nothing counts but `room_number_` -/
theorem step_enterRoom (redisGet : CStr → Option (List UInt8)) {s : Server} {mem : Mem} {pkt : PacketInfo}
    (hpc : s.pc = .processPacket pkt) (hid : packetHandlers pkt.id = some .enterRoom) {data : Nat → UInt8}
    (hdata : readRoomNumber (view s.chat mem pkt.data) = readRoomNumber data) :
    step redisGet s (.loop mem) = { s with
      chat := s.chat.enterRoomHandler mem pkt.sessionIndex data
      pc := .completeProcess pkt } := by
  have hcall : s.call (.loop mem) = some ⟨.user, pkt, .enterRoom, mem⟩ := by
    simp [Server.call, hpc, LoopPc.packet, hid]
  have hrun : s.chat.enterRoomHandler mem pkt.sessionIndex (view s.chat mem pkt.data)
      = s.chat.enterRoomHandler mem pkt.sessionIndex data := by
    unfold Chat.enterRoomHandler
    rw [hdata]
  rw [step_call redisGet hcall, hpc, ← hrun]
  rfl

/-- before the handler of the request of user 0 -/
def atDoor3 : Server :=
  run (step fun _ => some [112]) (start fun _ _ => 0)
    (Action.enterLobby 0 [97] [112] ++ Action.receive 0 (roomEnterPacket 3) ++ Action.loops 1)

/-- the run with the room by its number -/
theorem enterRoom3_run :
    run (step fun _ => some [112]) (start fun _ _ => 0) enterRoom3
      = run (step fun _ => some [112]) { atDoor3 with
          chat := atDoor3.chat.enterRoomHandler Mem.zero 0 askForRoom3
          pc := .completeProcess ⟨0, PacketId.roomEnterRequest.val, 9, .ring 0 71⟩ } (Action.loops 3) := by
  have hpc : atDoor3.pc = .processPacket ⟨0, PacketId.roomEnterRequest.val, 9, .ring 0 71⟩ := by decide +kernel
  have hstep := @step_enterRoom (fun _ => some [112]) atDoor3 Mem.zero _ hpc rfl askForRoom3 (by decide +kernel)
  have hsplit : enterRoom3 = (Action.enterLobby 0 [97] [112] ++ Action.receive 0 (roomEnterPacket 3)
      ++ Action.loops 1) ++ .loop Mem.zero :: Action.loops 3 := rfl
  rw [hsplit, run_append, run_cons, ← hstep, atDoor3]

/-- user 1 asks for the room of user 0; user 0 says something there, and leaves -/
theorem room_events_delivered_room3 :
    (∃ r : RoomPtr, readRoomNumber askForRoom3 = (r : Nat) ∧
      (run (step fun _ => some [112]) (start fun _ _ => 0)
        (enterRoom3 ++ Action.enterLobby 1 [98] [112])).chat.EnterDelivered
        (Handler.enterRoom.run (run (step fun _ => some [112]) (start fun _ _ => 0)
          (enterRoom3 ++ Action.enterLobby 1 [98] [112])).chat Mem.zero 1 askForRoom3)
        Mem.zero 1 r) ∧
    (∃ r : RoomPtr, (bothIn.chat.users.pool 0).roomIdx = (r : Nat) ∧
      bothIn.chat.LeaveDelivered (Handler.leaveRoom.run bothIn.chat Mem.zero 0 askForRoom3) Mem.zero 0 r) ∧
    (∃ r : RoomPtr, (bothIn.chat.users.pool 0).roomIdx = (r : Nat) ∧
      bothIn.chat.ChatDelivered (Handler.roomChat.run bothIn.chat Mem.zero 0 askForRoom3) Mem.zero 0 r
        (readMsg askForRoom3)) := by
  refine ⟨?_, ?_, ?_⟩
  · refine (room_events_delivered (fun _ => some [112]) (fun _ _ => 0)
      (enterRoom3 ++ Action.enterLobby 1 [98] [112]) _ rfl Mem.zero 1 askForRoom3).1 ?_
    decide +kernel
  · refine (room_events_delivered (fun _ => some [112]) (fun _ _ => 0) (enterRoom3 ++ followIn) bothIn.chat rfl
      Mem.zero 0 askForRoom3).2.1 ?_
    rw [bothIn, run_append, enterRoom3_run]
    decide +kernel
  · refine (room_events_delivered (fun _ => some [112]) (fun _ _ => 0) (enterRoom3 ++ followIn) bothIn.chat rfl
      Mem.zero 0 askForRoom3).2.2 ?_
    rw [bothIn, run_append, enterRoom3_run]
    decide +kernel

example : (bothIn.chat.roomList 3).userList = [0, 1] := by
  rw [bothIn, run_append, enterRoom3_run]
  decide +kernel

end Server

end Iocp
