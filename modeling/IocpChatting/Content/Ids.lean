import IocpChatting.Content.Deliveries

/-!
# User ids as bytes

An id travels as a fixed array: the field of a login request, the body of a Redis task, the fields of
the notify packets.

* `login_id_iff`     the id that `LoginHandler` looks up and stores, and the key of the Redis query,
                     are the id field alone exactly if the field has a terminator;
* `id_copies_iff`    the id copies in the notify packets contain nothing but the id exactly if the id
                     fills the field.
-/

set_option linter.unusedSectionVars false
set_option autoImplicit false

namespace Iocp
open UserManager (getUserByIndex)

/-! ## strings in fields -/

namespace CStr

theorem bytes_inj {v w : CStr} (h : v.bytes = w.bytes) : v = w := by
  cases v
  cases w
  simp only at h
  subst h
  rfl

theorem ofBytes_of_nulFree {bs : List UInt8} (h : (0 : UInt8) ∉ bs) (rest : List UInt8) :
    (ofBytes (bs ++ rest)).bytes = bs ++ (ofBytes rest).bytes := by
  refine List.takeWhile_append_of_pos fun b hb => ?_
  have hne : b ≠ 0 := fun e => h (e ▸ hb)
  simpa using hne

theorem ofBytes_length_le (bs : List UInt8) : (ofBytes bs).bytes.length ≤ bs.length :=
  (List.takeWhile_prefix _).length_le

/-- a terminator in the last place cuts nothing off -/
theorem ofBytes_take {bs : List UInt8} {n : Nat} (hlen : bs.length = n + 1)
    (h : (0 : UInt8) ∈ bs) : ofBytes (bs.take n) = ofBytes bs := by
  have e : bs.take n ++ bs.drop n = bs := List.take_append_drop n bs
  by_cases h0 : (0 : UInt8) ∈ bs.take n
  · have happ := ofBytes_append h0 (bs.drop n)
    rw [e] at happ
    exact happ.symm
  · obtain ⟨b, hb⟩ := List.length_eq_one_iff.mp (show (bs.drop n).length = 1 by
      rw [List.length_drop]
      omega)
    have hzero : b = 0 := by
      rw [← e, hb] at h
      rcases List.mem_append.mp h with h | h
      · exact absurd h h0
      · exact (List.mem_singleton.mp h).symm
    have hall := ofBytes_of_nulFree h0 [0]
    have hself := ofBytes_of_nulFree h0 []
    rw [hb, hzero] at e
    rw [e] at hall
    rw [List.append_nil] at hself
    exact bytes_inj (hself.trans hall.symm)

/-- what stands behind a field belongs to its string unless the field has a terminator -/
theorem ofBytes_field_iff {bs : List UInt8} {n : Nat} (hlen : bs.length = n + 1)
    (rest : List UInt8) : ofBytes (bs ++ rest) = ofBytes (bs.take n) ↔ (0 : UInt8) ∈ bs := by
  constructor
  · intro h
    by_contra h0
    have hlong := congrArg (fun v => v.bytes.length) h
    have hshort := ofBytes_length_le (bs.take n)
    simp only [ofBytes_of_nulFree h0, List.length_append] at hlong
    rw [List.length_take] at hshort
    omega
  · intro h
    rw [ofBytes_append h, ofBytes_take hlen h]

end CStr

/-! ## the id of a login -/

/-- `user_id_` up to its first NUL, and at most `kMAX_USER_ID_LEN` characters of it -/
def idField (data : Nat → UInt8) : CStr := CStr.ofBytes ((LoginRequest.read data).userId.take kMaxUserIdLen)

/-- the id that `LoginHandler` gives the user when it asks Redis -/
def StoresId (mem : Mem) (data : Nat → UInt8) (v : CStr) : Prop :=
  ∀ (c : Chat) (p : Session), Handler.login.request c mem p data ≠ [] →
    ((c.loginHandler mem p data).users.pool p).userId = v

/-- the id whose absence from `user_id_map_` makes `LoginHandler` ask Redis -/
def LooksUpId (mem : Mem) (data : Nat → UInt8) (v : CStr) : Prop :=
  ∀ (c : Chat) (i : Nat), c.users.getCurrentUserCnt < c.users.getMaxUserCnt →
    (Handler.login.request c mem i data ≠ [] ↔ c.users.findUserIndexByID v = -1)

theorem login_request_iff (c : Chat) (mem : Mem) (i : Nat) (data : Nat → UInt8) :
    Handler.login.request c mem i data ≠ [] ↔
      c.users.getCurrentUserCnt < c.users.getMaxUserCnt ∧
        c.users.findUserIndexByID (Chat.loginId mem data) = -1 := by
  unfold Handler.request
  by_cases hfull : c.users.getCurrentUserCnt ≥ c.users.getMaxUserCnt
  · simp only [if_pos hfull]
    exact ⟨fun h => absurd rfl h, fun h => absurd hfull (by omega)⟩
  · simp only [if_neg hfull]
    by_cases hfind : c.users.findUserIndexByID (Chat.loginId mem data) = -1
    · rw [if_pos hfind]
      exact ⟨fun _ => ⟨by omega, hfind⟩, fun _ => List.cons_ne_nil _ _⟩
    · rw [if_neg hfind]
      exact ⟨fun h => absurd rfl h, fun h => absurd h.2 hfind⟩

theorem storesId_iff (mem : Mem) (data : Nat → UInt8) (v : CStr) :
    StoresId mem data v ↔ v = Chat.loginId mem data := by
  have hstored : ∀ (c : Chat) (p : Session), Handler.login.request c mem p data ≠ [] →
      ((c.loginHandler mem p data).users.pool p).userId = Chat.loginId mem data := by
    intro c p hreq
    obtain ⟨hroom, hfind⟩ := (login_request_iff c mem p data).mp hreq
    unfold Chat.loginHandler
    simp only [if_neg (Int.not_le.mpr hroom), if_pos hfind]
    unfold UserManager.setUserID
    rw [getUserByIndex_int32]
    show (Function.update c.users.pool p _ p).userId = _
    rw [Function.update_self]
  constructor
  · intro h
    have hreq : Handler.login.request (Chat.init fun _ _ => 0) mem (0 : Session) data ≠ [] :=
      (login_request_iff _ mem _ data).mpr ⟨by decide, rfl⟩
    exact (h _ 0 hreq).symm.trans (hstored _ 0 hreq)
  · rintro rfl
    exact hstored

/-- the pool of a new server, where user 0 has the id `v` in the map -/
def registeredAs (v : CStr) : Chat :=
  { Chat.init fun _ _ => 0 with users := (Chat.init fun _ _ => 0).users.addUser v 0 }

theorem looksUpId_iff (mem : Mem) (data : Nat → UInt8) (v : CStr) :
    LooksUpId mem data v ↔ v = Chat.loginId mem data := by
  constructor
  · intro h
    by_contra hne
    -- only `v` is in the map: the handler would ask Redis for the other id
    have hmap : (registeredAs v).users.userIdMap
        = Function.update (fun _ => none) v (some (((0 : Session) : Nat) : Int)) := rfl
    have hother : (registeredAs v).users.findUserIndexByID (Chat.loginId mem data) = -1 := by
      unfold UserManager.findUserIndexByID
      rw [hmap, Function.update_of_ne fun e => hne e.symm]
    have hown : (registeredAs v).users.findUserIndexByID v = 0 := by
      unfold UserManager.findUserIndexByID
      rw [hmap, Function.update_self]
      rfl
    have hroom : (registeredAs v).users.getCurrentUserCnt < (registeredAs v).users.getMaxUserCnt := by
      show (0 : Int) < kMaxUserCnt
      decide
    have hfind := (h (registeredAs v) 0 hroom).mp
      ((login_request_iff _ mem 0 data).mpr ⟨hroom, hother⟩)
    rw [hown] at hfind
    cases hfind
  · rintro rfl c i hroom
    rw [login_request_iff]
    exact ⟨fun h => h.2, fun h => ⟨hroom, h⟩⟩

theorem loginId_iff (mem : Mem) (data : Nat → UInt8) :
    idField data = Chat.loginId mem data ↔ (0 : UInt8) ∈ (LoginRequest.read data).userId := by
  have hlen : (LoginRequest.read data).userId.length = kMaxUserIdLen + 1 := field_length _ _ _
  unfold Chat.loginId idField
  rw [List.append_assoc, eq_comm]
  exact CStr.ofBytes_field_iff hlen _

theorem redisKey_iff (mem : Mem) (i : Nat) (data : Nat → UInt8) :
    redisKey mem (Chat.loginTask i data) = idField data
      ↔ (0 : UInt8) ∈ (LoginRequest.read data).userId := by
  have hlen : (LoginRequest.read data).userId.length = kMaxUserIdLen + 1 := field_length _ _ _
  unfold redisKey Chat.loginTask idField
  simp only [List.append_assoc]
  exact CStr.ofBytes_field_iff hlen _

/-- **The account id comes from the id field alone exactly if the field has a terminator.** -/
theorem login_id_iff (mem mem' : Mem) (i : Nat) (data : Nat → UInt8) :
    (StoresId mem data (idField data) ∧ LooksUpId mem data (idField data) ∧
        redisKey mem' (Chat.loginTask i data) = idField data)
      ↔ (0 : UInt8) ∈ (LoginRequest.read data).userId := by
  rw [storesId_iff, looksUpId_iff, loginId_iff, redisKey_iff, and_self, and_self]

/-- 33 letters in the id field, one letter in the password field -/
def noTerminator (k : Nat) : UInt8 := if 5 ≤ k ∧ k < 39 then 65 else 0

/-- the stored id is 34 letters long, and so is the key -/
theorem id_runs_on :
    ¬ StoresId Mem.zero noTerminator (idField noTerminator) ∧
      (Chat.loginId Mem.zero noTerminator).bytes = List.replicate 34 65 ∧
      redisKey Mem.zero (Chat.loginTask 0 noTerminator) ≠ idField noTerminator := by
  refine ⟨fun h => ?_, by decide, by decide⟩
  exact absurd ((storesId_iff _ _ _).mp h) (by decide)

/-! ## the copies of an id -/

/-- the memory with other bytes behind the terminators -/
def Mem.behindIds (mem : Mem) (past : Nat → UInt8) : Mem := { mem with pastId := past }

/-- what is built does not depend on the bytes behind the terminator of any string -/
def OwnBytes {α : Type} (build : Mem → α) : Prop :=
  ∀ mem past, build (mem.behindIds past) = build mem

/-- **33 bytes of a string are its own exactly if it has 32 characters**, or more. -/
theorem copyId_own_iff (v : CStr) :
    OwnBytes (copyId · v) ↔ kMaxUserIdLen ≤ v.bytes.length := by
  constructor
  · intro h
    by_contra hlt
    -- the last byte copied is not the string's
    have hlast : ∀ mem : Mem,
        (copyId mem v)[kMaxUserIdLen]? = some (mem.pastId (kMaxUserIdLen - v.bytes.length - 1)) := by
      intro mem
      unfold copyId
      rw [List.getElem?_map, List.getElem?_range (Nat.lt_succ_self _), Option.map_some,
        if_neg (by omega), if_neg (by omega)]
    have h01 := (h Mem.zero fun _ => 1).trans (h Mem.zero fun _ => 0).symm
    have hbyte := congrArg (fun l : List UInt8 => l[kMaxUserIdLen]?) h01
    simp only [hlast] at hbyte
    have h10 : (1 : UInt8) = 0 := Option.some.inj hbyte
    exact absurd h10 (by decide)
  · intro h mem past
    refine List.map_congr_left fun k hk => ?_
    have hk' := List.mem_range.mp hk
    by_cases hlt : k < v.bytes.length
    · rw [if_pos hlt, if_pos hlt]
    · rw [if_neg hlt, if_neg hlt, if_pos (by omega), if_pos (by omega)]

namespace Chat
variable (c : Chat)

theorem userInfo_own_iff (u : User) :
    OwnBytes (userInfo · u) ↔ kMaxUserIdLen ≤ u.userId.bytes.length := by
  rw [← copyId_own_iff]
  constructor
  · intro h mem past
    exact congrArg UserInfo.userId (h mem past)
  · intro h mem past
    exact congrArg (UserInfo.mk _ _) (h mem past)

theorem newUserPacket_own_iff (p : Session) :
    OwnBytes (c.newUserPacket · p) ↔ kMaxUserIdLen ≤ (c.users.pool p).userId.bytes.length := by
  rw [← userInfo_own_iff]
  constructor
  · intro h mem past
    have e := congrArg Packet.body (h mem past)
    exact Body.roomNewUserNotify.inj e
  · intro h mem past
    exact congrArg (fun info => Packet.mk _ (.roomNewUserNotify info)) (h mem past)

theorem chatPacket_own_iff (p : Session) (data : Nat → UInt8) :
    OwnBytes (c.chatPacket · p data) ↔ kMaxUserIdLen ≤ (c.users.pool p).userId.bytes.length := by
  rw [← copyId_own_iff]
  constructor
  · intro h mem past
    have e := congrArg Packet.body (h mem past)
    exact (Body.roomChatNotify.inj e).1
  · intro h mem past
    exact congrArg (fun userId => Packet.mk _ (.roomChatNotify userId _)) (h mem past)

theorem userListPacket_own_iff (l : List Session) :
    OwnBytes (c.userListPacket · l) ↔
      ∀ q ∈ l, kMaxUserIdLen ≤ (c.users.pool q).userId.bytes.length := by
  constructor
  · intro h q hq
    rw [← userInfo_own_iff]
    intro mem past
    have e := (Body.roomUserListNotify.inj (congrArg Packet.body (h mem past))).2
    have hmap := (List.append_inj e (by rw [List.length_map, List.length_map])).1
    exact List.map_inj_left.mp hmap q hq
  · intro h mem past
    have hmap : l.map (fun q => userInfo (mem.behindIds past) (c.users.pool q))
        = l.map fun q => userInfo mem (c.users.pool q) :=
      List.map_congr_left fun q hq => (userInfo_own_iff _).mpr (h q hq) mem past
    show Packet.mk _ (.roomUserListNotify _ (l.map _ ++ _)) = _
    rw [hmap]
    rfl

end Chat

/-- **The id copies of the three notify packets.**  For every user and every list, whatever stands
behind the terminators: nothing of it reaches the packet exactly if every id that is copied has 32
characters, or more. -/
theorem id_copies_iff (c : Chat) (p : Session) (l : List Session) (data : Nat → UInt8) :
    (OwnBytes (c.newUserPacket · p) ↔ kMaxUserIdLen ≤ (c.users.pool p).userId.bytes.length) ∧
      (OwnBytes (c.userListPacket · l) ↔
        ∀ q ∈ l, kMaxUserIdLen ≤ (c.users.pool q).userId.bytes.length) ∧
      (OwnBytes (c.chatPacket · p data) ↔
        kMaxUserIdLen ≤ (c.users.pool p).userId.bytes.length) :=
  ⟨c.newUserPacket_own_iff p, c.userListPacket_own_iff l, c.chatPacket_own_iff p data⟩

/-- the id "a": 31 bytes behind its terminator go to the client -/
theorem short_id_leaks :
    ¬ OwnBytes (copyId · ⟨[97], by decide⟩) ∧
      ((copyId (Mem.zero.behindIds fun _ => 115) ⟨[97], by decide⟩).count 115 = 31) :=
  ⟨fun h => absurd ((copyId_own_iff _).mp h) (by decide), by decide⟩

end Iocp
