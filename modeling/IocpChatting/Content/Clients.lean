import IocpChatting.Content.Answers
import IocpChatting.Content.Capacity
import IocpChatting.Content.Mirror

/-!
# What the clients see of their rooms

A client knows its room by the packets it gets: `ROOM_USER_LIST_NOTIFY` when it enters, then
`ROOM_NEW_USER_NOTIFY` and `ROOM_LEAVE_USER_NOTIFY`.  `roomView` is the list a client keeps from them.

* `Chat.heard`          the notify packets that a deed brings a session;
* `mirrored_run_iff`    exactly when every member's list is the room's;
* `seen_run`            whatever part of its packets has arrived, a client shows a list the room had;
* `heard_run`           all who stay in a room hear everything in it once, and in one order.
-/

set_option linter.unusedSectionVars false
set_option autoImplicit false

namespace Iocp
open Runs Following
open UserManager (getUserByIndex)

/-! ## the client's side -/

/-- of a user in a packet: the index, and the string in `user_id_` -/
def UserInfo.entry (info : UserInfo) : Nat × CStr := (info.userIndex, CStr.ofBytes info.userId)

def Packet.notice (pkt : Packet) : Option (Notice Nat CStr) :=
  match pkt.body with
  | .roomUserListNotify userCount userList =>
    some (.listed ((userList.take userCount.toNat).map UserInfo.entry))
  | .roomNewUserNotify userInfo => some (.joined userInfo.entry)
  | .roomLeaveUserNotify userIndex => some (.left userIndex)
  | _ => none

/-- the list a client keeps, from the packets it has got -/
def roomView (l : List Packet) : List (Nat × CStr) := (l.filterMap Packet.notice).foldl follow []

theorem roomView_append (l l' : List Packet) :
    roomView (l ++ l') = (l'.filterMap Packet.notice).foldl follow (roomView l) := by
  unfold roomView
  rw [List.filterMap_append, List.foldl_append]

/-- an id as a packet carries it: a longer one is cut off, and has no terminator -/
def wireId (v : CStr) : CStr := CStr.ofBytes (v.bytes.take (kMaxUserIdLen + 1))

theorem CStr.ofBytes_nul (bs x : List UInt8) : CStr.ofBytes (bs ++ 0 :: x) = CStr.ofBytes bs := by
  have e : (bs ++ 0 :: x).takeWhile (· != 0) = bs.takeWhile (· != 0) := by
    induction bs with
    | nil => rfl
    | cons b bs ih =>
      by_cases hb : b = 0
      · simp [hb]
      · simp [hb, ih]
  simp only [CStr.ofBytes, e]

theorem copyId_eq_take (mem : Mem) (v : CStr) :
    copyId mem v
      = (v.bytes ++ 0 :: (List.range (kMaxUserIdLen + 1)).map mem.pastId).take (kMaxUserIdLen + 1) := by
  refine List.ext_getElem (by simp [copyId]; omega) fun k hk _ => ?_
  have hk' : k < kMaxUserIdLen + 1 := by simpa [copyId] using hk
  rw [List.getElem_take]
  simp only [copyId, List.getElem_map, List.getElem_range]
  rcases Nat.lt_trichotomy k v.bytes.length with hlt | heq | hgt
  · rw [if_pos hlt, List.getElem_append_left hlt]
    simp [List.getD, hlt]
  · rw [if_neg (by omega), if_pos heq, List.getElem_append_right (by omega)]
    simp [heq]
  · rw [if_neg (by omega), if_neg (by omega), List.getElem_append_right (by omega)]
    obtain ⟨j, hj⟩ : ∃ j, k - v.bytes.length = j + 1 := ⟨k - v.bytes.length - 1, by omega⟩
    simp [hj]

/-- whatever is behind the string does not show -/
theorem ofBytes_copyId (mem : Mem) (v : CStr) : CStr.ofBytes (copyId mem v) = wireId v := by
  rw [copyId_eq_take]
  unfold wireId
  by_cases h : kMaxUserIdLen + 1 ≤ v.bytes.length
  · rw [List.take_append_of_le_length h]
  · obtain ⟨j, hj⟩ : ∃ j, kMaxUserIdLen + 1 - v.bytes.length = j + 1 :=
      ⟨kMaxUserIdLen - v.bytes.length, by omega⟩
    rw [List.take_append, hj, List.take_succ_cons, CStr.ofBytes_nul]

/-! ## the mail of a session -/

/-- the packets of a log that are for `p` -/
def mail (p : Session) (l : List Sent) : List Packet :=
  l.filterMap fun x => if x.idx = (p : Nat) then some x.pkt else none

/-- the notify packets among them -/
def notices (p : Session) (l : List Sent) : List Packet := (mail p l).filter (·.body.isNotify)

theorem notices_append (p : Session) (l l' : List Sent) :
    notices p (l ++ l') = notices p l ++ notices p l' := by
  unfold notices mail
  rw [List.filterMap_append, List.filter_append]

theorem notices_answer (p : Session) (i : Nat) {pkt : Packet} (h : pkt.body.isNotify = false) :
    notices p [⟨i, pkt⟩] = [] := by
  unfold notices mail
  by_cases hi : i = (p : Nat) <;> simp [hi, h]

theorem notices_one (p q : Session) {pkt : Packet} (h : pkt.body.isNotify = true) :
    notices p [⟨(q : Nat), pkt⟩] = if p = q then [pkt] else [] := by
  unfold notices mail
  by_cases hp : p = q
  · simp [hp, h]
  · have hne : (q : Nat) ≠ p := fun e => hp (Fin.ext e.symm)
    simp [hp, hne]

theorem notices_toEach (p : Session) (l : List Session) {pkt : Packet} (h : pkt.body.isNotify = true) :
    notices p (toEach l pkt) = List.replicate (l.count p) pkt := by
  induction l with
  | nil => rfl
  | cons q l ih =>
    show notices p ([⟨(q : Nat), pkt⟩] ++ toEach l pkt) = _
    rw [notices_append, notices_one p q h, ih, List.count_cons]
    by_cases hp : p = q
    · subst hp
      rw [if_pos rfl, beq_self_eq_true, if_pos rfl, List.replicate_succ]
      rfl
    · have hne : (q == p) = false := beq_false_of_ne fun e => hp e.symm
      rw [if_neg hp, hne]
      simp

/-- what is no notify packet says nothing of a list -/
theorem notice_notify (pkt : Packet) : pkt.notice = if pkt.body.isNotify then pkt.notice else none := by
  obtain ⟨header, body⟩ := pkt
  cases body <;> rfl

theorem filterMap_notices (p : Session) (l : List Sent) :
    (notices p l).filterMap Packet.notice = (mail p l).filterMap Packet.notice := by
  unfold notices
  rw [List.filterMap_filter]
  exact List.filterMap_congr fun pkt _ => (notice_notify pkt).symm

/-! ## what a handler call lets its members hear -/

theorem count_others {l : List Session} (p q : Session) :
    (l.filter (· ≠ p)).count q = if q = p then 0 else l.count q := by
  by_cases h : q = p
  · rw [if_pos h]
    exact List.count_eq_zero_of_not_mem fun hm => by simp [h] at hm
  · rw [if_neg h]
    exact List.count_filter (by simpa using h)

namespace Chat

variable {c : Chat} {mem : Mem} {i : Nat} {data : Nat → UInt8}

/-- `NotifyLeaveUser` skips the leaver, who is not on the list any more -/
theorem notices_leave (c : Chat) (mem : Mem) (r : RoomPtr) (p q : Session) :
    notices q (c.leaveSends mem r p) = List.replicate ((c.staying r p).count q) (leaveUserPacket mem p) := by
  unfold leaveSends
  rw [notices_toEach _ _ rfl, count_others]
  by_cases h : q = p
  · subst h
    have hout : q ∉ c.staying r q := by simp [staying]
    rw [if_pos rfl, List.count_eq_zero_of_not_mem hout]
  · rw [if_neg h]

theorem notices_enter (c : Chat) (mem : Mem) (r : RoomPtr) (p q : Session) :
    notices q (c.enterSends mem r p)
      = if q = p then [c.userListPacket mem ((c.roomList r).userList ++ [p])]
        else List.replicate ((c.roomList r).userList.count q) (c.newUserPacket mem p) := by
  unfold enterSends
  rw [notices_append, notices_toEach _ _ rfl, notices_one _ _ rfl, count_others]
  by_cases h : q = p
  · rw [if_pos h, if_pos h, if_pos h]
    rfl
  · rw [if_neg h, if_neg h, if_neg h, List.append_nil]

end Chat

namespace Chat

variable {c : Chat} {mem : Mem} {i : Nat} {data : Nat → UInt8}

/-- the notify packets that `q` gets of a deed -/
def heard (c : Chat) (mem : Mem) (data : Nat → UInt8) (q : Session) :
    Deed Session RoomPtr CStr → List Packet
  | .enter p r =>
    if q = p then [c.userListPacket mem ((c.roomList r).userList ++ [p])]
    else List.replicate ((c.roomList r).userList.count q) (c.newUserPacket mem p)
  | .leave p r => List.replicate ((c.staying r p).count q) (leaveUserPacket mem p)
  | .disconnect p (some r) => List.replicate ((c.staying r p).count q) (leaveUserPacket mem p)
  | .chat p r => List.replicate ((c.roomList r).userList.count q) (c.chatPacket mem p data)
  | _ => []

theorem notices_sends (hd : Handler) (q : Session) :
    notices q (hd.sends c mem i data) = c.heard mem data q (hd.deed c mem i data) := by
  cases hd with
  | connect =>
    simp only [Handler.deed]
    cases getUserByIndex (int32 i) <;> rfl
  | disconnect =>
    simp only [Handler.deed, Handler.sends]
    cases getUserByIndex (int32 i) with
    | none => rfl
    | some p =>
      simp only
      by_cases hp : (c.users.pool p).domainState = .room
      · rw [if_pos hp, if_pos hp]
        cases getRoomByIdx (c.users.pool p).roomIdx with
        | none => rfl
        | some r => exact notices_leave c mem r p q
      · rw [if_neg hp, if_neg hp]
        rfl
  | login =>
    have hnone : notices q (Handler.login.sends c mem i data) = [] := by
      simp only [Handler.sends]
      split
      · exact notices_answer q i rfl
      · split
        · rfl
        · exact notices_answer q i rfl
    rw [hnone]
    simp only [Handler.deed]
    cases getUserByIndex (int32 i) with
    | none => rfl
    | some p =>
      simp only
      split
      · rfl
      · split <;> rfl
  | loginDBRes =>
    have hnone : notices q (Handler.loginDBRes.sends c mem i data) = [] := notices_answer q i rfl
    rw [hnone]
    simp only [Handler.deed]
    cases getUserByIndex (int32 i) with
    | none => rfl
    | some p =>
      simp only
      split <;> rfl
  | enterRoom =>
    simp only [Handler.deed, Handler.sends]
    cases getUserByIndex (int32 i) with
    | none => rfl
    | some p =>
      simp only
      by_cases hp : (c.users.pool p).domainState ≠ .login
      · rw [if_pos hp, if_pos hp]
        exact notices_answer q i rfl
      · rw [if_neg hp, if_neg hp]
        cases getRoomByIdx (readRoomNumber data) with
        | none => exact notices_answer q i rfl
        | some r =>
          simp only
          by_cases hf : ((c.roomList r).userList.length : Int) ≥ (c.roomList r).maxUserCnt
          · rw [if_pos hf, if_pos hf]
            exact notices_answer q i rfl
          · rw [if_neg hf, if_neg hf, notices_append, notices_answer q i rfl, List.append_nil]
            exact notices_enter c mem r p q
  | leaveRoom =>
    simp only [Handler.deed, Handler.sends]
    cases getUserByIndex (int32 i) with
    | none => rfl
    | some p =>
      simp only
      by_cases hp : (c.users.pool p).domainState ≠ .room
      · rw [if_pos hp, if_pos hp]
        exact notices_answer q i rfl
      · rw [if_neg hp, if_neg hp]
        cases getRoomByIdx (c.users.pool p).roomIdx with
        | none => exact notices_answer q i rfl
        | some r =>
          simp only
          rw [notices_append, notices_answer q i rfl, List.append_nil]
          exact notices_leave c mem r p q
  | roomChat =>
    simp only [Handler.deed, Handler.sends]
    cases getUserByIndex (int32 i) with
    | none => exact notices_answer q i rfl
    | some p =>
      simp only
      by_cases hp : (c.users.pool p).domainState ≠ .room
      · rw [if_pos hp, if_pos hp]
        exact notices_answer q i rfl
      · rw [if_neg hp, if_neg hp]
        cases getRoomByIdx (c.users.pool p).roomIdx with
        | none => exact notices_answer q i rfl
        | some r =>
          show notices q ([_] ++ toEach (c.roomList r).userList (c.chatPacket mem p data)) = _
          rw [notices_append, notices_answer q i rfl, List.nil_append, notices_toEach _ _ rfl]
          rfl

/-! ## packets as notices -/

theorem entry_userInfo (hc : c.Fixed) (p : Session) :
    (userInfo mem (c.users.pool p)).entry = ((p : Nat), wireId (c.roster.id p)) := by
  unfold UserInfo.entry
  rw [userInfo_index hc]
  exact congrArg _ (ofBytes_copyId mem _)

theorem notice_newUser (hc : c.Fixed) (p : Session) :
    (c.newUserPacket mem p).notice = some (.joined ((p : Nat), wireId (c.roster.id p))) :=
  congrArg (fun e => some (Notice.joined e)) (entry_userInfo hc p)

theorem notice_userList (hc : c.Fixed) {l : List Session} (hl : l.length ≤ kRoomMaxUserCnt) :
    (c.userListPacket mem l).notice = some (.listed (entries Fin.val (wireId ∘ c.roster.id) l)) := by
  have hlen : (l.map fun q => userInfo mem (c.users.pool q)).length = l.length := List.length_map _
  have htake : (int8 l.length).toNat = l.length := by rw [int8_of_le hl, Int.toNat_natCast]
  show some (Notice.listed (((c.userListEntries mem l).take (int8 l.length).toNat).map UserInfo.entry)) = _
  rw [htake]
  unfold userListEntries entries
  rw [List.take_left' hlen, List.map_map]
  congr 2
  exact List.map_congr_left fun q _ => entry_userInfo hc q

theorem staying_eq_without (c : Chat) (r : RoomPtr) (p : Session) :
    c.staying r p = c.roster.without p r r := by
  have hupdate : c.roster.without p r r = (c.roomList r).userList.filter fun q => c.roster.id p ≠ c.roster.id q :=
    Function.update_self ..
  rw [hupdate]
  refine List.filter_congr fun q _ => ?_
  show (!((c.users.pool p).userId == (c.users.pool q).userId))
    = decide ((c.users.pool p).userId ≠ (c.users.pool q).userId)
  by_cases h : (c.users.pool p).userId = (c.users.pool q).userId <;> simp [h]

/-- **What the packets say is what the deed tells.** -/
theorem heard_told (hc : c.Fixed) (hd : Handler) (q : Session) :
    (c.heard mem data q (hd.deed c mem i data)).filterMap Packet.notice
      = c.roster.told Fin.val wireId q (hd.deed c mem i data) := by
  have hspace : c.roster.HasRoom kRoomMaxUserCnt (hd.deed c mem i data) := deed_hasRoom hd hc
  have hleave : ∀ p r, (List.replicate ((c.staying r p).count q) (leaveUserPacket mem p)).filterMap
        Packet.notice
      = List.replicate ((c.roster.without p r r).count q) (.left (p : Nat)) := by
    intro p r
    rw [staying_eq_without]
    exact List.filterMap_replicate_of_some rfl
  cases hdeed : hd.deed c mem i data with
  | enter p r =>
    rw [hdeed] at hspace
    have hlen : ((c.roomList r).userList ++ [p]).length ≤ kRoomMaxUserCnt := by
      rw [List.length_append]
      exact hspace
    simp only [Roster.told, heard]
    split
    · rw [List.filterMap_cons_some (notice_userList hc hlen)]
      rfl
    · exact List.filterMap_replicate_of_some (notice_newUser hc p)
  | leave p r => exact hleave p r
  | disconnect p left =>
    cases left with
    | none => rfl
    | some r => exact hleave p r
  | chat p r => exact List.filterMap_replicate_of_none rfl
  | _ => rfl

/-- what a deed brings all who are in `r` -/
def announced (c : Chat) (mem : Mem) (data : Nat → UInt8) (r : RoomPtr) : Deed Session RoomPtr CStr → List Packet
  | .enter p r' => if r' = r then [c.newUserPacket mem p] else []
  | .leave p r' => if r' = r then [leaveUserPacket mem p] else []
  | .disconnect p (some r') => if r' = r then [leaveUserPacket mem p] else []
  | .chat p r' => if r' = r then [c.chatPacket mem p data] else []
  | _ => []

/-- who is in `r` before and after hears just that -/
theorem heard_announced {copy : Session → List (Nat × CStr)} (h : c.roster.Mirrored Fin.val wireId copy)
    {d : Deed Session RoomPtr CStr} (hd : c.roster.KeepsMirrored wireId d) {q : Session} {r : RoomPtr}
    (hq : q ∈ c.roster.members r) (hq' : q ∈ (c.roster.apply d).members r) :
    c.heard mem data q d = c.announced mem data r d := by
  -- `q` is once on the list of its room, and on no other
  have hone : ∀ (pkt : Packet) r', List.replicate ((c.roster.members r').count q) pkt = if r' = r then [pkt] else [] := by
    intro pkt r'
    by_cases e : r' = r
    · rw [if_pos e, e, List.count_eq_one_of_mem (h.nodup r) hq, List.replicate_one]
    · have hout : q ∉ c.roster.members r' := fun hr' => e (h.apart q r' r hr' hq)
      rw [if_neg e, List.count_eq_zero_of_not_mem hout, List.replicate_zero]
  have hleave : ∀ p r', q ∈ (c.roster.without p r') r →
      List.replicate ((c.staying r' p).count q) (leaveUserPacket mem p)
        = if r' = r then [leaveUserPacket mem p] else [] := by
    intro p r' hin
    rw [← hone, staying_eq_without]
    congr 1
    by_cases e : r' = r
    · subst e
      have hle := Roster.count_without (ρ := c.roster) p q r' r'
      have hpos := List.count_pos_iff.mpr hin
      have hone' := List.nodup_iff_count_le_one.mp (h.nodup r') q
      omega
    · have hout : q ∉ c.roster.members r' := fun hr' => e (h.apart q r' r hr' hq)
      have hout' : q ∉ c.roster.without p r' r' := fun hr' => hout (Roster.mem_without.mp hr').1
      rw [List.count_eq_zero_of_not_mem hout, List.count_eq_zero_of_not_mem hout']
  cases d with
  | enter p r' =>
    have hne : q ≠ p := fun e => hd r (e ▸ hq)
    simp only [heard, announced]
    rw [if_neg hne]
    exact hone _ r'
  | leave p r' => exact hleave p r' hq'
  | disconnect p left =>
    cases left with
    | none => rfl
    | some r' => exact hleave p r' hq'
  | chat p r' => exact hone _ r'
  | _ => rfl

end Chat

namespace Server

/-! ## inboxes -/

/-- `OnConnect`: another client has the index now -/
def begins (p : Session) (x : Server × Action) : Bool :=
  match x.2 with
  | .onConnect i => i = p
  | _ => false

/-- what has been sent to the client of `p` -/
def inbox (p : Session) (h : History) : List Packet :=
  Following.inbox (begins p) (fun x => mail p (x.1.sends x.2)) h

/-- nobody is listed twice, and the client of everybody who is listed shows the list of the room -/
def Mirrors (h : History) (s : Server) : Prop :=
  s.chat.roster.Mirrored Fin.val wireId fun p => roomView (inbox p h)

def KeepsMirrors (s : Server) : Action → Prop
  | .onConnect i => s.chat.roster.Absent i
  | .loop mem => s.chat.roster.KeepsMirrored wireId (s.deed (.loop mem))
  | _ => True

instance (c : Chat) (p : Session) : Decidable (c.roster.Absent p) :=
  inferInstanceAs (Decidable (∀ r : RoomPtr, p ∉ (c.roomList r).userList))

instance (c : Chat) (p : Session) (r : RoomPtr) : Decidable (c.roster.LeavesCopies p r) :=
  inferInstanceAs (Decidable ((∀ q ∈ _, _) ∨ ∀ q ∈ _, _))

instance (c : Chat) : (d : Deed Session RoomPtr CStr) → Decidable (c.roster.KeepsMirrored wireId d)
  | .clear _ | .request _ _ | .reject _ => inferInstanceAs (Decidable (_ ∨ _))
  | .enter p _ => inferInstanceAs (Decidable (c.roster.Absent p))
  | .leave p r | .disconnect p (some r) => inferInstanceAs (Decidable (c.roster.LeavesCopies p r))
  | .idle | .accept _ | .chat _ _ | .disconnect _ none => .isTrue trivial

instance (s : Server) : (a : Action) → Decidable (s.KeepsMirrors a)
  | .onConnect i => inferInstanceAs (Decidable (s.chat.roster.Absent i))
  | .loop mem => inferInstanceAs (Decidable (s.chat.roster.KeepsMirrored wireId (s.deed (.loop mem))))
  | .onDisconnect _ | .onRecv _ _ | .pushIndex _ | .redisTake | .redisPut _ _ => .isTrue trivial

/-- the notices of a step are those of its deed -/
theorem sends_told {s : Server} (hs : s.chat.Fixed) (a : Action) (p : Session) :
    (mail p (s.sends a)).filterMap Packet.notice = s.chat.roster.told Fin.val wireId p (s.deed a) := by
  unfold Server.sends Server.deed
  cases s.call a with
  | none => rfl
  | some k =>
    show (mail p (k.handler.sends _ _ _ _)).filterMap _ = _
    rw [← filterMap_notices, Chat.notices_sends]
    exact Chat.heard_told hs k.handler p

theorem roomView_snoc {h : History} {s : Server} (hs : s.chat.Fixed) (a : Action) (p : Session) :
    roomView (inbox p (h ++ [(s, a)])) =
      (s.chat.roster.told Fin.val wireId p (s.deed a)).foldl follow
        (if begins p (s, a) then [] else roomView (inbox p h)) := by
  unfold inbox
  rw [inbox_snoc, roomView_append, sends_told hs]
  split <;> rfl

section
variable (redisGet : CStr → Option (List UInt8))
  (heap : Session → Fin kDefaultRingBufferSize → UInt8)

theorem mirrors_step_iff {h : History} {s : Server} (hs : s.Sound) (hm : Mirrors h s) (a : Action) :
    Mirrors (h ++ [(s, a)]) (step redisGet s a) ↔ s.KeepsMirrors a := by
  unfold Mirrors
  rw [roster_step redisGet hs.fixed]
  simp only [roomView_snoc hs.fixed]
  cases a with
  | onConnect i =>
    refine Iff.trans (iff_of_eq ?_) (Roster.mirrored_anew_iff hm i)
    show s.chat.roster.Mirrored Fin.val wireId _ = s.chat.roster.Mirrored Fin.val wireId _
    congr 1
    funext p
    by_cases e : p = i
    · subst e
      simp [begins, Server.deed, Server.call, Roster.told]
    · have hne : i ≠ p := fun e' => e e'.symm
      simp [begins, Server.deed, Server.call, Roster.told, e, hne]
  | _ => exact Roster.mirrored_apply_iff (fun _ _ => Fin.ext) hm _

theorem start_mirrors : Mirrors [] (start heap) :=
  ⟨fun _ => List.nodup_nil, fun _ _ _ hp => absurd hp List.not_mem_nil, fun _ _ hp => absurd hp List.not_mem_nil⟩

/-- **Every member's list is the room's, all along a run, exactly if each step meets `KeepsMirrors`.** -/
theorem mirrored_run_iff (as : List Action) :
    (∀ bs cs, as = bs ++ cs →
        Mirrors (hist (step redisGet) (start heap) bs) (run (step redisGet) (start heap) bs))
      ↔ ∀ x ∈ hist (step redisGet) (start heap) as, x.1.KeepsMirrors x.2 := by
  have hiff := hist_keeps_iff (step redisGet) (I := Mirrors) (P := fun _ _ _ => True)
    (C := fun _ s a => s.KeepsMirrors a) (start_mirrors heap)
    (fun bs a hm => (iff_of_eq (true_and _)).trans (mirrors_step_iff redisGet (run_sound redisGet heap bs) hm a)) as
  constructor
  · intro h x hx
    obtain ⟨bs, cs, e, hx1⟩ := mem_hist (step redisGet) hx
    rw [hx1]
    exact hiff.mp ⟨h, fun _ _ _ _ => trivial⟩ bs x.2 cs e
  · intro h
    refine (hiff.mpr fun bs a cs e => ?_).1
    exact h _ (split_mem_hist (step redisGet) e)

/-- one direction, for what follows -/
theorem run_mirrors (as : List Action)
    (hC : ∀ x ∈ hist (step redisGet) (start heap) as, x.1.KeepsMirrors x.2) :
    Mirrors (hist (step redisGet) (start heap) as) (run (step redisGet) (start heap) as) := by
  have h := hist_keeps (step redisGet) (I := fun h s => s.Sound ∧ Mirrors h s)
    (C := fun _ s a => s.KeepsMirrors a) ⟨start_sound heap, start_mirrors heap⟩
    (fun h s a hm hc => ⟨step_sound redisGet hm.1 a, (mirrors_step_iff redisGet hm.1 hm.2 a).mpr hc⟩) as
    fun bs a cs e => hC _ (split_mem_hist (step redisGet) e)
  exact h.2

/-! ## what has arrived -/

/-- by the packets `l` the client of `p` has been told nothing, or it shows a list that a room of `p` had on
the way to the end of `as` -/
def Shows (as : List Action) (p : Session) (l : List Packet) : Prop :=
  l.filterMap Packet.notice = [] ∨ ∃ bs cs r, as = bs ++ cs ∧
    p ∈ ((run (step redisGet) (start heap) bs).chat.roomList r).userList ∧
    roomView l = (run (step redisGet) (start heap) bs).chat.roster.shown Fin.val wireId r

/-- a packet that is no notice changes nothing -/
theorem Shows.silent {as : List Action} {p : Session} {base l : List Packet} (h : Shows redisGet heap as p base)
    (hl : l.filterMap Packet.notice = []) : Shows redisGet heap as p (base ++ l) := by
  unfold Shows
  rw [List.filterMap_append, roomView_append, hl, List.append_nil]
  exact h

/-- any part of what a step sends leads from such a list to such a list -/
theorem shows_step {as bs cs : List Action} {a : Action} (e : as = bs ++ a :: cs)
    (hC : ∀ x ∈ hist (step redisGet) (start heap) as, x.1.KeepsMirrors x.2) {p : Session} {base : List Packet}
    (hbase : base = if begins p (run (step redisGet) (start heap) bs, a) then []
      else inbox p (hist (step redisGet) (start heap) bs))
    (h : Shows redisGet heap as p base) {l : List Packet}
    (hl : l <+: mail p ((run (step redisGet) (start heap) bs).sends a)) :
    Shows redisGet heap as p (base ++ l) := by
  have hsplit : as = (bs ++ [a]) ++ cs := by rw [e, List.append_assoc]; rfl
  have hbs : ∀ x ∈ hist (step redisGet) (start heap) bs, x.1.KeepsMirrors x.2 := fun x hx => hC x (by
    rw [e, hist_append]
    exact List.mem_append_left _ hx)
  have hbsa : ∀ x ∈ hist (step redisGet) (start heap) (bs ++ [a]), x.1.KeepsMirrors x.2 := fun x hx => hC x (by
    rw [hsplit, hist_append]
    exact List.mem_append_left _ hx)
  have hs := (run_sound redisGet heap bs).fixed
  have hm := run_mirrors redisGet heap bs hbs
  have hm' := run_mirrors redisGet heap (bs ++ [a]) hbsa
  have htold := sends_told hs a p
  have hlen := hm.told_le_one p ((run (step redisGet) (start heap) bs).deed a)
  rw [← htold] at hlen
  have hview : roomView (inbox p (hist (step redisGet) (start heap) (bs ++ [a])))
      = ((mail p ((run (step redisGet) (start heap) bs).sends a)).filterMap Packet.notice).foldl follow
        (roomView base) := by
    unfold inbox
    rw [hist_snoc, inbox_snoc, roomView_append, hbase]
    rfl
  rcases prefix_of_le_one (hl.filterMap Packet.notice) hlen with hnil | hall
  · exact h.silent redisGet heap hnil
  · by_cases hnone : (mail p ((run (step redisGet) (start heap) bs).sends a)).filterMap Packet.notice = []
    · exact h.silent redisGet heap (hall.trans hnone)
    · -- `p` has just been told of its room
      obtain ⟨r, hr⟩ := Roster.told_listed (htold ▸ hnone)
      rw [← roster_step redisGet hs, ← run_snoc (step redisGet)] at hr
      refine Or.inr ⟨bs ++ [a], cs, r, hsplit, hr, ?_⟩
      rw [roomView_append, hall, ← hview]
      exact hm'.copy p r hr

/-- **What a client shows.**  Whatever part of its packets has arrived, there is no notice among them yet or
it shows a list that its room had. -/
theorem seen_run (as : List Action) (hC : ∀ x ∈ hist (step redisGet) (start heap) as, x.1.KeepsMirrors x.2)
    (p : Session) (l : List Packet) (hl : l <+: inbox p (hist (step redisGet) (start heap) as)) :
    Shows redisGet heap as p l :=
  inbox_prefix (step redisGet) (start heap) (begins p) (fun x => mail p (x.1.sends x.2))
    (Q := fun l => Shows redisGet heap as p l) (Or.inl rfl) as
    (fun _ _ _ e _ hbase h _ hl' => shows_step redisGet heap e hC hbase h hl') l hl

/-! ## what all hear -/

/-- what is sent in a run -/
theorem run_sent {s : Server} (hs : s.chat.Fixed) (as : List Action) :
    (run (step redisGet) s as).chat.sent
      = s.chat.sent ++ (hist (step redisGet) s as).flatMap fun x => x.1.sends x.2 := by
  induction as using List.reverseRecOn with
  | nil => simp
  | append_singleton as a ih =>
    have hf := run_keeps_all (step redisGet) (fun s a (h : s.chat.Fixed) => step_fixed redisGet h a) hs as
    rw [run_snoc, step_sent redisGet hf, ih, hist_snoc, List.flatMap_append, List.append_assoc]
    simp

theorem run_news (as bs : List Action) :
    (run (step redisGet) (start heap) as).chat.news (run (step redisGet) (start heap) (as ++ bs)).chat
      = (hist (step redisGet) (run (step redisGet) (start heap) as) bs).flatMap fun x => x.1.sends x.2 := by
  unfold Chat.news
  rw [run_append, run_sent redisGet (run_sound redisGet heap as).fixed bs, List.drop_left]

/-- what a step brings all who are in `r` -/
def announced (r : RoomPtr) (x : Server × Action) : List Packet :=
  match x.1.call x.2 with
  | none => []
  | some k => x.1.chat.announced k.mem (k.data x.1.chat) r (k.deed x.1.chat)

theorem notices_announced {h : History} {s : Server} (hm : Mirrors h s) {a : Action} (hk : s.KeepsMirrors a)
    (hs : s.chat.Fixed) {p : Session} {r : RoomPtr} (hp : p ∈ (s.chat.roomList r).userList)
    (hp' : p ∈ ((step redisGet s a).chat.roomList r).userList) :
    notices p (s.sends a) = announced r (s, a) := by
  have hroster := roster_step redisGet hs a
  unfold Server.sends announced
  cases hcall : s.call a with
  | none => rfl
  | some k =>
    have hdeed : s.deed a = k.deed s.chat := by
      unfold Server.deed
      rw [hcall]
    have hk' : s.chat.roster.KeepsMirrored wireId (k.deed s.chat) := by
      rw [(call_spec hcall).1] at hk
      rw [← hdeed, (call_spec hcall).1]
      exact hk
    have hp'' : p ∈ (s.chat.roster.apply (k.deed s.chat)).members r := by
      rw [← hdeed, ← hroster]
      exact hp'
    exact (Chat.notices_sends k.handler p).trans (Chat.heard_announced hm hk' hp hp'')

/-- **One order for all.**  While it stays in a room, a session hears everything that is announced there,
once and in the order of the packet loop. -/
theorem heard_run (as bs : List Action)
    (hC : ∀ x ∈ hist (step redisGet) (start heap) (as ++ bs), x.1.KeepsMirrors x.2) (p : Session) (r : RoomPtr)
    (hin : ∀ x ∈ hist (step redisGet) (run (step redisGet) (start heap) as) bs,
      p ∈ (x.1.chat.roomList r).userList)
    (hend : p ∈ ((run (step redisGet) (start heap) (as ++ bs)).chat.roomList r).userList) :
    notices p ((run (step redisGet) (start heap) as).chat.news
        (run (step redisGet) (start heap) (as ++ bs)).chat)
      = (hist (step redisGet) (run (step redisGet) (start heap) as) bs).flatMap (announced r) := by
  rw [run_news]
  induction bs using List.reverseRecOn with
  | nil => rfl
  | append_singleton bs a ih =>
    rw [← List.append_assoc] at hC hend
    have hC' : ∀ x ∈ hist (step redisGet) (start heap) (as ++ bs), x.1.KeepsMirrors x.2 := fun x hx => hC x (by
      rw [hist_append]
      exact List.mem_append_left _ hx)
    have hlast : ((run (step redisGet) (start heap) (as ++ bs)), a)
        ∈ hist (step redisGet) (start heap) (as ++ bs ++ [a]) := split_mem_hist (step redisGet) rfl
    rw [hist_snoc] at hin ⊢
    rw [← run_append (step redisGet)] at hin ⊢
    have hmid := hin _ (List.mem_append_right _ (List.mem_singleton_self _))
    have hs := (run_sound redisGet heap (as ++ bs)).fixed
    rw [run_snoc] at hend
    rw [List.flatMap_append, List.flatMap_append, notices_append,
      ih hC' (fun x hx => hin x (List.mem_append_left _ hx)) hmid]
    congr 1
    simp only [List.flatMap_cons, List.flatMap_nil, List.append_nil]
    exact notices_announced redisGet (run_mirrors redisGet heap (as ++ bs) hC') (hC _ hlast) hs hmid hend

end

/-- user 0 says something, and leaves -/
def talk : List Action :=
  Action.receive 0 (clientPacket PacketId.roomChatRequest.val [104, 105]) ++ Action.loops 5 ++
    Action.receive 0 roomLeavePacket ++ Action.loops 5

theorem talk_keeps : ∀ x ∈ hist (step fun _ => some [112]) (start fun _ _ => 0) (enterRoom3 ++ followIn ++ talk),
    x.1.KeepsMirrors x.2 := by
  rw [List.append_assoc, hist_append, enterRoom3_run]
  decide +kernel

/-- the last packet of user 1, that user 0 has left, has not arrived -/
theorem seen_run_room3 : Shows (fun _ => some [112]) (fun _ _ => 0) (enterRoom3 ++ followIn ++ talk) 1
    ((inbox 1 (hist (step fun _ => some [112]) (start fun _ _ => 0) (enterRoom3 ++ followIn ++ talk))).take 4) :=
  seen_run (fun _ => some [112]) (fun _ _ => 0) (enterRoom3 ++ followIn ++ talk) talk_keeps 1 _ (List.take_prefix _ _)

/-- it shows both, by their ids -/
example : roomView ((inbox 1 (hist (step fun _ => some [112]) (start fun _ _ => 0)
    (enterRoom3 ++ followIn ++ talk))).take 4) = [(0, ⟨[97], by decide⟩), (1, ⟨[98], by decide⟩)] := by
  rw [List.append_assoc, hist_append, enterRoom3_run]
  decide +kernel

/-- user 1 hears what user 0 says, and that it leaves -/
theorem heard_run_room3 :
    notices 1 (bothIn.chat.news
        (run (step fun _ => some [112]) (start fun _ _ => 0) (enterRoom3 ++ followIn ++ talk)).chat)
      = (hist (step fun _ => some [112]) bothIn talk).flatMap (announced 3) := by
  refine heard_run (fun _ => some [112]) (fun _ _ => 0) (enterRoom3 ++ followIn) talk talk_keeps 1 3 ?_ ?_
  · rw [run_append, enterRoom3_run]
    decide +kernel
  · rw [List.append_assoc, run_append, enterRoom3_run]
    decide +kernel

example : ((hist (step fun _ => some [112]) bothIn talk).flatMap (announced 3)).map (·.header.id)
    = [PacketId.roomChatNotify.val, PacketId.roomLeaveUserNotify.val] := by
  rw [bothIn, run_append, enterRoom3_run]
  decide +kernel

end Server

end Iocp
