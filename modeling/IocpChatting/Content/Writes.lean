import IocpChatting.Content.PacketManager

/-!
# What a handler call writes

Every handler but `ConnectHandler` is made of a few writes (`Writes`): packets sent, a user with its
index and its `packet_buf_` kept, a room with its index and its capacity kept, entries of
`user_id_map_`.  `run_writes` is the one case analysis of the handlers; what no handler changes
follows from it.

* `run_fixed`           the index fields of users and rooms, the room capacity, and that
                        `user_id_map_` holds indices of the pool (`Chat.Fixed`);
* `run_bufs`            no handler but `ConnectHandler` touches an inbound buffer;
* `run_taskReqQueue`    `Handler.request` is what a call asks Redis for.
-/

set_option linter.unusedSectionVars false
set_option autoImplicit false

namespace Iocp
open UserManager (getUserByIndex)

/-! ## pool indices -/

theorem getUserByIndex_session (p : Session) : getUserByIndex (p : Nat) = some p := by
  have := session_lt p
  unfold getUserByIndex
  rw [dif_neg (by omega)]
  rfl

theorem getUserByIndex_eq_some {k : Int} {p : Session} : getUserByIndex k = some p ↔ k = (p : Nat) := by
  constructor
  · intro h
    unfold getUserByIndex at h
    split at h
    · cases h
    · next hk =>
      have e := congrArg Fin.val (Option.some.inj h)
      simp only at e
      omega
  · rintro rfl
    exact getUserByIndex_session p

/-- the index of a session, as it travels through packets and tasks -/
theorem getUserByIndex_int32 (p : Session) : getUserByIndex (int32 p) = some p := by
  have := session_lt p
  rw [int32_of_lt (by omega), getUserByIndex_session]

theorem getRoomByIdx_room (r : RoomPtr) : Chat.getRoomByIdx (r : Nat) = some r := by
  have : (r : Nat) < 10 := r.isLt
  unfold Chat.getRoomByIdx
  rw [dif_neg (by omega)]
  rfl

theorem getRoomByIdx_none : Chat.getRoomByIdx (-1) = none := by
  unfold Chat.getRoomByIdx
  rw [dif_pos (by omega)]

/-! ## the task a handler call asks Redis for -/

def Handler.request (hd : Handler) (c : Chat) (mem : Mem) (sessionIdx : Nat) (data : Nat → UInt8) :
    List RedisTask :=
  match hd with
  | .login =>
    if c.users.getCurrentUserCnt ≥ c.users.getMaxUserCnt then []
    else if c.users.findUserIndexByID (Chat.loginId mem data) = -1 then
      [Chat.loginTask sessionIdx data]
    else []
  | _ => []

namespace Chat

/-! ## the writes -/

/-- `c'` comes from `c` by writes of handlers -/
inductive Writes : Chat → Chat → Prop
  | none (c : Chat) : Writes c c
  | sent (c : Chat) (l : List Sent) : Writes c { c with sent := l }
  | user {c : Chat} (p : Session) {u : User} (hi : u.sessionIdx = (c.users.pool p).sessionIdx)
      (hb : u.packetBuf = (c.users.pool p).packetBuf) : Writes c (c.setUser p u)
  | room {c : Chat} (r : RoomPtr) {room : Room} (hi : room.roomIdx = (c.roomList r).roomIdx)
      (hm : room.maxUserCnt = (c.roomList r).maxUserCnt) : Writes c (c.setRoom r room)
  | unregister (c : Chat) (v : CStr) : Writes c { c with users := c.users.deleteUserInfo v }
  | register (c : Chat) (v : CStr) (p : Session) :
      Writes c { c with users := { c.users with
        userIdMap := Function.update c.users.userIdMap v (some (p : Nat)) } }
  | trans {c c' c'' : Chat} (h : Writes c c') (h' : Writes c' c'') : Writes c c''

namespace Writes

variable {c c' : Chat} {mem : Mem}

theorem send (h : Writes c c') (idx : Nat) (pkt : Packet) : Writes c (c'.send idx pkt) :=
  h.trans (.sent c' _)

theorem broadcastMsg (h : Writes c c') (r : RoomPtr) (pkt : Packet) (idx : Nat) (me : Bool) :
    Writes c (c'.broadcastMsg r pkt idx me) := h.trans (.sent c' _)

theorem addUser (c : Chat) (v : CStr) (p : Session) :
    Writes c { c with users := c.users.addUser v p } := by
  have hset : Writes c (c.setUser p ((c.users.pool p).setLogin v)) := .user p rfl rfl
  unfold UserManager.addUser
  simp only
  split
  · exact hset
  · exact hset.trans (.register _ v p)

theorem setUserID (c : Chat) (k : Int) (v : CStr) :
    Writes c { c with users := c.users.setUserID k v } := by
  unfold UserManager.setUserID
  cases getUserByIndex k with
  | none => exact .none c
  | some p => exact .user p rfl rfl

theorem setUserLogin (c : Chat) (k : Int) : Writes c { c with users := c.users.setUserLogin k } := by
  unfold UserManager.setUserLogin
  cases getUserByIndex k with
  | none => exact .none c
  | some p => exact (addUser c (c.users.pool p).userId p).trans (.user p rfl rfl)

theorem leaveUser (c : Chat) (r : RoomPtr) (p : Session) : Writes c (c.leaveUser mem r p) := by
  refine broadcastMsg ?_ r _ _ _
  exact .room r rfl rfl

theorem enterRoom (c : Chat) (p : Session) (k : Int) : Writes c (c.enterRoom mem p k).1 := by
  unfold Chat.enterRoom
  split
  · exact .none c
  · unfold Chat.enterUser
    simp only
    split
    · exact .none c
    · refine send (broadcastMsg ?_ _ _ _ _) _ _
      refine trans (.room _ ?_ ?_) (.user p ?_ ?_)
      · rfl
      · rfl
      · rfl
      · rfl

theorem leaveRoom (c : Chat) (p : Session) : Writes c (c.leaveRoom mem p).1 := by
  unfold Chat.leaveRoom
  split
  · exact .none c
  · exact (leaveUser c _ p).trans (.user p rfl rfl)

theorem taskReqQueue (h : Writes c c') : c'.taskReqQueue = c.taskReqQueue := by
  induction h with
  | none | sent | user | room | unregister | register => rfl
  | trans _ _ ih ih' => exact ih'.trans ih

end Writes

/-! ## the handlers -/

variable {c : Chat} {mem : Mem} {i : Nat} {data : Nat → UInt8}

/-- a handler call is a request to Redis, or none, and writes -/
theorem run_writes {hd : Handler} (hne : hd ≠ .connect) :
    Writes { c with taskReqQueue := c.taskReqQueue ++ hd.request c mem i data }
      (hd.run c mem i data) := by
  have hnil : hd ≠ .login →
      { c with taskReqQueue := c.taskReqQueue ++ hd.request c mem i data } = c := by
    intro h
    have e : hd.request c mem i data = [] := by
      cases hd with
      | login => exact absurd rfl h
      | _ => rfl
    rw [e, List.append_nil]
  cases hd with
  | connect => exact absurd rfl hne
  | disconnect =>
    rw [hnil (by simp)]
    show Writes c (c.disconnectHandler mem i)
    unfold disconnectHandler
    split
    · exact .none c
    · split
      · split
        · exact .none c
        · exact (Writes.leaveUser c _ _).trans (.unregister _ _)
      · exact .unregister c _
  | login =>
    show Writes _ (c.loginHandler mem i data)
    unfold loginHandler Handler.request
    simp only
    split
    · rw [List.append_nil]
      exact .sent c _
    · split
      · exact Writes.setUserID { c with taskReqQueue := c.taskReqQueue ++ _ } _ _
      · rw [List.append_nil]
        exact .sent c _
  | loginDBRes =>
    rw [hnil (by simp)]
    show Writes c (c.loginDBResHandler mem i data)
    unfold loginDBResHandler
    simp only
    split
    · exact (Writes.setUserLogin c _).send _ _
    · exact (Writes.setUserID c _ _).send _ _
  | enterRoom =>
    rw [hnil (by simp)]
    show Writes c (c.enterRoomHandler mem i data)
    unfold enterRoomHandler
    split
    · exact .none c
    · split
      · exact .sent c _
      · exact (Writes.enterRoom c _ _).send _ _
  | leaveRoom =>
    rw [hnil (by simp)]
    show Writes c (c.leaveRoomHandler mem i)
    unfold leaveRoomHandler
    split
    · exact .none c
    · split
      · exact .sent c _
      · exact (Writes.leaveRoom c _).send _ _
  | roomChat =>
    rw [hnil (by simp)]
    show Writes c (c.roomChatHandler mem i data)
    unfold roomChatHandler
    split
    · exact .sent c _
    · split
      · exact .sent c _
      · split
        · exact .sent c _
        · exact (Writes.sent c _).broadcastMsg _ _ _ _

theorem run_taskReqQueue (hd : Handler) :
    (hd.run c mem i data).taskReqQueue = c.taskReqQueue ++ hd.request c mem i data := by
  by_cases hne : hd = .connect
  · subst hne
    show (c.connectHandler i).taskReqQueue = c.taskReqQueue ++ []
    rw [List.append_nil, connectHandler]
    split <;> rfl
  · exact (run_writes hne).taskReqQueue

/-! ## what no handler changes -/

structure Fixed (c : Chat) : Prop where
  sessionIdx : ∀ p, (c.users.pool p).sessionIdx = (p : Nat)
  roomIdx : ∀ r, (c.roomList r).roomIdx = (r : Nat)
  maxUserCnt : ∀ r, (c.roomList r).maxUserCnt = kRoomMaxUserCnt
  owners : ∀ v i, c.users.userIdMap v = some i → ∃ p : Session, i = (p : Nat)

theorem init_fixed (heap : Session → Fin kDefaultRingBufferSize → UInt8) : (init heap).Fixed where
  sessionIdx _ := rfl
  roomIdx _ := rfl
  maxUserCnt _ := rfl
  owners v i h := by cases h

namespace Fixed

theorem congr {c' : Chat} (h : c.Fixed) (hu : c'.users = c.users) (hr : c'.roomList = c.roomList) :
    c'.Fixed where
  sessionIdx p := by rw [hu]; exact h.sessionIdx p
  roomIdx r := by rw [hr]; exact h.roomIdx r
  maxUserCnt r := by rw [hr]; exact h.maxUserCnt r
  owners v := by rw [hu]; exact h.owners v

theorem setUser (h : c.Fixed) (p : Session) {u : User}
    (hu : u.sessionIdx = (c.users.pool p).sessionIdx) : (c.setUser p u).Fixed where
  sessionIdx q := by
    show (Function.update c.users.pool p u q).sessionIdx = _
    by_cases e : q = p
    · subst e
      rw [Function.update_self, hu, h.sessionIdx]
    · rw [Function.update_of_ne e, h.sessionIdx]
  roomIdx := h.roomIdx
  maxUserCnt := h.maxUserCnt
  owners := h.owners

theorem setRoom (h : c.Fixed) (r : RoomPtr) {room : Room}
    (hi : room.roomIdx = (c.roomList r).roomIdx) (hm : room.maxUserCnt = (c.roomList r).maxUserCnt) :
    (c.setRoom r room).Fixed where
  sessionIdx := h.sessionIdx
  roomIdx r' := by
    show (Function.update c.roomList r room r').roomIdx = _
    by_cases e : r' = r
    · subst e
      rw [Function.update_self, hi, h.roomIdx]
    · rw [Function.update_of_ne e, h.roomIdx]
  maxUserCnt r' := by
    show (Function.update c.roomList r room r').maxUserCnt = _
    by_cases e : r' = r
    · subst e
      rw [Function.update_self, hm, h.maxUserCnt]
    · rw [Function.update_of_ne e, h.maxUserCnt]
  owners := h.owners

theorem writes {c' : Chat} (hw : Writes c c') (h : c.Fixed) : c'.Fixed := by
  induction hw with
  | none => exact h
  | sent => exact h.congr rfl rfl
  | user p hi hb => exact h.setUser p hi
  | room r hi hm => exact h.setRoom r hi hm
  | unregister c v =>
    refine ⟨h.sessionIdx, h.roomIdx, h.maxUserCnt, fun w k hk => ?_⟩
    by_cases e : w = v
    · subst e
      simp [UserManager.deleteUserInfo] at hk
    · simp only [UserManager.deleteUserInfo, Function.update_of_ne e] at hk
      exact h.owners w k hk
  | register c v p =>
    refine ⟨h.sessionIdx, h.roomIdx, h.maxUserCnt, fun w k hk => ?_⟩
    by_cases e : w = v
    · subst e
      simp only [Function.update_self] at hk
      exact ⟨p, (Option.some.inj hk).symm⟩
    · simp only [Function.update_of_ne e] at hk
      exact h.owners w k hk
  | trans _ _ ih ih' => exact ih' (ih h)

end Fixed

theorem run_fixed (hd : Handler) (h : c.Fixed) : (hd.run c mem i data).Fixed := by
  by_cases hne : hd = .connect
  · subst hne
    show (c.connectHandler i).Fixed
    unfold connectHandler
    split
    · exact h
    · exact h.setUser _ rfl
  · refine Fixed.writes (run_writes hne) ?_
    exact h.congr rfl rfl

/-! ## inbound buffers -/

def bufs (c : Chat) (p : Session) : RingBuffer UInt8 kDefaultRingBufferSize :=
  (c.users.pool p).packetBuf

theorem bufs_setUser (c : Chat) (p : Session) (u : User) :
    (c.setUser p u).bufs = Function.update c.bufs p u.packetBuf := by
  funext q
  show (Function.update c.users.pool p u q).packetBuf = _
  by_cases hq : q = p
  · subst hq; simp
  · rw [Function.update_of_ne hq, Function.update_of_ne hq]
    rfl

theorem Writes.bufs {c c' : Chat} (h : Writes c c') : c'.bufs = c.bufs := by
  induction h with
  | none | sent | room | unregister | register => rfl
  | @user c p u hi hb =>
    rw [bufs_setUser, hb]
    exact Function.update_eq_self p c.bufs
  | trans _ _ ih ih' => exact ih'.trans ih

/-- **No handler but `ConnectHandler` touches an inbound buffer.** -/
theorem run_bufs (hd : Handler) (p : Session) :
    (hd.run c mem i data).bufs p =
      if hd = .connect ∧ getUserByIndex (int32 i) = some p then (c.bufs p).clearBuffer
      else c.bufs p := by
  by_cases hne : hd = .connect
  · subst hne
    show (c.connectHandler i).bufs p = _
    unfold connectHandler
    cases hu : getUserByIndex (int32 i) with
    | none => simp
    | some q =>
      rw [bufs_setUser]
      by_cases hq : p = q
      · subst hq
        rw [Function.update_self, if_pos ⟨rfl, rfl⟩]
        rfl
      · rw [Function.update_of_ne hq, if_neg]
        rintro ⟨_, e⟩
        exact hq (Option.some.inj e).symm
  · rw [if_neg (fun h => hne h.1)]
    exact congrFun (run_writes hne).bufs p

/-! ## the room index -/

/-- what the users say in `room_idx_` -/
def places (c : Chat) (p : Session) : Int := (c.users.pool p).roomIdx

theorem places_setUser (c : Chat) (p : Session) (u : User) :
    (c.setUser p u).places = Function.update c.places p u.roomIdx := by
  funext q
  show (Function.update c.users.pool p u q).roomIdx = _
  by_cases hq : q = p
  · subst hq; simp
  · rw [Function.update_of_ne hq, Function.update_of_ne hq]
    rfl

theorem places_setUser_same {p : Session} {u : User} (hu : u.roomIdx = (c.users.pool p).roomIdx) :
    (c.setUser p u).places = c.places := by
  rw [places_setUser, hu]
  exact Function.update_eq_self p c.places

theorem places_setUserID (k : Int) (v : CStr) :
    { c with users := c.users.setUserID k v }.places = c.places := by
  unfold UserManager.setUserID
  cases getUserByIndex k with
  | none => rfl
  | some p => exact places_setUser_same rfl

theorem places_addUser (v : CStr) (p : Session) :
    { c with users := c.users.addUser v p }.places = c.places := by
  have hset : (c.setUser p ((c.users.pool p).setLogin v)).places = c.places := places_setUser_same rfl
  unfold UserManager.addUser
  simp only
  split <;> exact hset

theorem places_setUserLogin (k : Int) :
    { c with users := c.users.setUserLogin k }.places = c.places := by
  unfold UserManager.setUserLogin
  cases getUserByIndex k with
  | none => rfl
  | some p =>
    have hset : ∀ c' : Chat,
        (c'.setUser p { c'.users.pool p with isConfirmed := true }).places = c'.places :=
      fun c' => places_setUser_same rfl
    exact (hset _).trans (places_addUser _ p)

theorem places_enterRoom {p q : Session} (hq : p ≠ q) (k : Int) :
    (c.enterRoom mem q k).1.places p = c.places p := by
  unfold enterRoom
  cases getRoomByIdx k with
  | none => rfl
  | some r =>
    simp only [enterUser]
    split
    · rfl
    · show ((c.setRoom r _).setUser q _).places p = _
      rw [places_setUser, Function.update_of_ne hq]
      rfl

theorem places_leaveRoom (p : Session) : (c.leaveRoom mem p).1.places = c.places := by
  unfold leaveRoom
  cases getRoomByIdx (c.users.pool p).roomIdx with
  | none => rfl
  | some r =>
    have hset : ∀ c' : Chat,
        (c'.setUser p { c'.users.pool p with domainState := .login }).places = c'.places :=
      fun c' => places_setUser_same rfl
    exact hset (c.leaveUser mem r p)

/-- **`room_idx_` is written by `ConnectHandler` and `EnterRoomHandler` only, and of the user who
calls them.** -/
theorem run_places {hd : Handler} {p : Session}
    (h : getUserByIndex (int32 i) = some p → hd ≠ .connect ∧ hd ≠ .enterRoom) :
    (hd.run c mem i data).places p = c.places p := by
  cases hd with
  | connect =>
    show (c.connectHandler i).places p = _
    unfold connectHandler
    cases hu : getUserByIndex (int32 i) with
    | none => rfl
    | some q =>
      have hq : p ≠ q := fun e => (h (by rw [hu, e])).1 rfl
      rw [places_setUser, Function.update_of_ne hq]
  | disconnect =>
    show (c.disconnectHandler mem i).places p = _
    unfold disconnectHandler
    split
    · rfl
    · split
      · split <;> rfl
      · rfl
  | login =>
    show (c.loginHandler mem i data).places p = _
    unfold loginHandler
    simp only
    split
    · rfl
    · split
      · exact congrFun (places_setUserID _ _) p
      · rfl
  | loginDBRes =>
    show (c.loginDBResHandler mem i data).places p = _
    unfold loginDBResHandler
    simp only
    split
    · exact congrFun (places_setUserLogin _) p
    · exact congrFun (places_setUserID _ _) p
  | enterRoom =>
    show (c.enterRoomHandler mem i data).places p = _
    unfold enterRoomHandler
    cases hu : getUserByIndex (int32 i) with
    | none => rfl
    | some q =>
      have hq : p ≠ q := fun e => (h (by rw [hu, e])).2 rfl
      simp only
      split
      · rfl
      · exact places_enterRoom hq _
  | leaveRoom =>
    show (c.leaveRoomHandler mem i).places p = _
    unfold leaveRoomHandler
    split
    · rfl
    · split
      · rfl
      · exact congrFun (places_leaveRoom _) p
  | roomChat =>
    show (c.roomChatHandler mem i data).places p = _
    unfold roomChatHandler
    split
    · rfl
    · split
      · rfl
      · split <;> rfl

end Chat

end Iocp
