import IocpChatting.Content.Outgoing
import IocpChatting.Content.Shutdown

/-!
# Bytes of a packet that nobody writes

`SetPacketIdAndLen` makes its packet on the stack and sets `id_` and `size_`.  Of the other fields only the
`char` arrays have an initialiser, so `type_` and the unused entries of a user list go out as the memory
was.

* `Packet.Unwritten`           the places of these bytes;
* `Twins`                      two packets of one call of `SetPacketIdAndLen`, made in different memory;
* `Twins.written`, `unwritten_byte`   they have the other bytes in common, and these are the memory's;
* `run_alike`                  two runs of the server in different memory differ there and nowhere else;
* `residue_run_iff`            so they send the same bytes exactly if they send nothing.
-/

set_option linter.unusedSectionVars false
set_option autoImplicit false

namespace Iocp
open Runs
open UserManager (getUserByIndex)
open Layout (digits)

/-! ## bytes of a packed struct -/

/-- a byte read as an `int8_t` and written again -/
theorem int8_byte (b : UInt8) : UInt8.ofNat (int8 b.toNat % 256).toNat = b := by
  have hb : b.toNat < 256 := b.toNat_lt
  have hmod : (int8 b.toNat % 256).toNat = b.toNat := by
    unfold int8 signed
    split <;> omega
  rw [hmod]
  exact UInt8.ofNat_toNat

/-- the place `b * i + j` of a list of blocks is place `j` of block `i` -/
theorem getElem?_blocks {β γ : Type} {f : β → List γ} {b : Nat} {l : List β}
    (h : ∀ x ∈ l, (f x).length = b) {j : Nat} (hj : j < b) (i : Nat) :
    (l.flatMap f)[b * i + j]? = l[i]?.bind fun x => (f x)[j]? := by
  induction l generalizing i with
  | nil => rfl
  | cons x l ih =>
    have hx := h x List.mem_cons_self
    rw [List.flatMap_cons]
    cases i with
    | zero =>
      rw [Nat.mul_zero, Nat.zero_add, List.getElem?_append_left (by omega)]
      rfl
    | succ i =>
      have hle : (f x).length ≤ b * (i + 1) + j := by rw [hx, Nat.mul_succ]; omega
      have e : b * (i + 1) + j - (f x).length = b * i + j := by rw [hx, Nat.mul_succ]; omega
      rw [List.getElem?_append_right hle, e, ih (fun y hy => h y (List.mem_cons_of_mem _ hy))]
      rfl

namespace Chat

/-- an entry that is not filled in: nine bytes of memory, and zeros -/
theorem blankUserInfo_bytes (mem : Mem) (e : Nat) :
    (blankUserInfo mem e).bytes
      = (List.range 9).map (fun j => mem.junk .roomUserListNotify (6 + 42 * e + j))
        ++ List.replicate (kMaxUserIdLen + 1) 0 := by
  have hindex := Layout.digits_ofDigits
    ((List.range 8).map fun j => mem.junk .roomUserListNotify (6 + 42 * e + j))
  simp only [List.length_map, List.length_range, Nat.ofDigits_eq_foldr, List.foldr_map, Nat.cast_id] at hindex
  show digits 8 (List.foldr _ 0 _) ++ [UInt8.ofNat (int8 _ % 256).toNat] ++ _ = _
  rw [hindex, int8_byte, List.range_succ, List.map_append]
  rfl

end Chat

/-! ## which bytes are not written -/

/-- the same memory, but for what packets are made in -/
def Mem.refill (mem : Mem) (junk : PacketId → Nat → UInt8) : Mem := { mem with junk := junk }

/-- the entry of a user list that byte `k` of the packet lies in, and its place there -/
def entryOf (k : Nat) : Nat := (k - 6) / 42
def placeOf (k : Nat) : Nat := (k - 6) % 42

/-- no statement writes byte `k`: it is `type_`, or one of the nine bytes of `user_index_` and `id_len_` in an entry
that is not filled in -/
def Packet.Unwritten (pkt : Packet) (k : Nat) : Prop :=
  k = 4 ∨ match pkt.body with
    | .roomUserListNotify userCount _ =>
      6 ≤ k ∧ userCount ≤ entryOf k ∧ entryOf k < kRoomMaxUserCnt ∧ placeOf k < 9
    | _ => False

/-- which struct it is -/
def Body.id : Body → PacketId
  | .loginResponse _ => .loginResponse
  | .roomEnterResponse _ => .roomEnterResponse
  | .roomLeaveResponse _ => .roomLeaveResponse
  | .roomChatResponse _ => .roomChatResponse
  | .roomChatNotify .. => .roomChatNotify
  | .roomUserListNotify .. => .roomUserListNotify
  | .roomNewUserNotify _ => .roomNewUserNotify
  | .roomLeaveUserNotify _ => .roomLeaveUserNotify

/-! ## two packets of one statement -/

/-- the same packet, made in `mem` and in `mem'` -/
inductive Twins (c : Chat) (mem mem' : Mem) : Packet → Packet → Prop
  | plain {id : PacketId} {body : Body} (h : body.id = id) (hne : id ≠ .roomUserListNotify) :
      Twins c mem mem' (Chat.reply mem id body) (Chat.reply mem' id body)
  | userList {l : List Session} (h : l.length ≤ kRoomMaxUserCnt) :
      Twins c mem mem' (c.userListPacket mem l) (c.userListPacket mem' l)

section
variable {c : Chat} {mem mem' : Mem} {pkt pkt' : Packet}

theorem header_byte {h h' : PacketHeader} (hsize : h.size = h'.size) (hid : h.id = h'.id) {k : Nat}
    (hk : k ≠ 4) : h.bytes[k]? = h'.bytes[k]? := by
  unfold PacketHeader.bytes
  rw [hsize, hid]
  have hlen : (digits 2 h'.size ++ digits 2 h'.id).length = 4 := by simp
  rcases Nat.lt_or_ge k 4 with hlt | hge
  · have hget : ∀ x, (digits 2 h'.size ++ digits 2 h'.id ++ [x])[k]?
        = (digits 2 h'.size ++ digits 2 h'.id)[k]? :=
      fun x => List.getElem?_append_left (by omega)
    rw [hget, hget]
  · have hnone : ∀ x, (digits 2 h'.size ++ digits 2 h'.id ++ [x])[k]? = none :=
      fun x => List.getElem?_eq_none (by rw [List.length_append, hlen, List.length_singleton]; omega)
    rw [hnone, hnone]

theorem type_byte (h : PacketHeader) : h.bytes[4]? = some h.type := by
  unfold PacketHeader.bytes
  rw [List.getElem?_append_right (by simp)]
  rfl

theorem bytes_head (pkt : Packet) {k : Nat} (h : k < packetHeaderLength) :
    pkt.bytes[k]? = pkt.header.bytes[k]? := by
  unfold Packet.bytes
  rw [List.getElem?_append_left (by rw [PacketHeader.bytes_length]; exact h)]

theorem bytes_body (pkt : Packet) (k : Nat) : pkt.bytes[packetHeaderLength + k]? = pkt.body.bytes[k]? := by
  unfold Packet.bytes
  rw [List.getElem?_append_right (by rw [PacketHeader.bytes_length]; exact Nat.le_add_right _ _),
    PacketHeader.bytes_length, Nat.add_sub_cancel_left]

/-! ## a user list -/

/-- the member of place `e`, or a blank entry -/
theorem userListEntries_get (c : Chat) (mem : Mem) (l : List Session) (e : Nat) :
    (c.userListEntries mem l)[e]? =
      if e < l.length then l[e]?.map fun q => Chat.userInfo mem (c.users.pool q)
      else if e < kRoomMaxUserCnt then some (Chat.blankUserInfo mem e) else none := by
  unfold Chat.userListEntries
  by_cases he : e < l.length
  · rw [if_pos he, List.getElem?_append_left (by simpa using he), List.getElem?_map]
  · rw [if_neg he, List.getElem?_append_right (by simpa using he), List.length_map, List.getElem?_map,
      List.getElem?_drop, Nat.add_sub_cancel' (Nat.not_lt.mp he)]
    by_cases hr : e < kRoomMaxUserCnt
    · rw [if_pos hr, List.getElem?_range hr]
      rfl
    · rw [if_neg hr, List.getElem?_eq_none (by simpa using hr)]
      rfl

theorem userList_count (c : Chat) (mem : Mem) (l : List Session) :
    (c.userListPacket mem l).bytes[packetHeaderLength + 0]?
      = some (UInt8.ofNat (int8 l.length % 256).toNat) := by
  rw [bytes_body]
  rfl

/-- a byte of a list packet behind `user_count_` -/
theorem userList_byte (c : Chat) (mem : Mem) (l : List Session) {k : Nat} (h : 6 ≤ k) :
    (c.userListPacket mem l).bytes[k]?
      = (c.userListEntries mem l)[entryOf k]?.bind fun u => u.bytes[placeOf k]? := by
  have e : k = packetHeaderLength + (42 * entryOf k + placeOf k + 1) := by
    have hdiv := Nat.div_add_mod (k - 6) 42
    unfold entryOf placeOf
    show k = 5 + _
    omega
  have hplace : placeOf k < 42 := Nat.mod_lt _ (by decide)
  have hblocks : ∀ u ∈ c.userListEntries mem l, u.bytes.length = 42 :=
    fun u hu => UserInfo.bytes_length (c.userListEntries_ids mem l u hu)
  conv_lhs => rw [e]
  rw [bytes_body]
  show (_ :: (c.userListEntries mem l).flatMap UserInfo.bytes)[_]? = _
  rw [List.getElem?_cons_succ, getElem?_blocks hblocks hplace]

theorem blank_byte (mem : Mem) (e : Nat) {j : Nat} (h : j < 9) :
    (Chat.blankUserInfo mem e).bytes[j]? = some (mem.junk .roomUserListNotify (6 + 42 * e + j)) := by
  rw [Chat.blankUserInfo_bytes, List.getElem?_append_left (by simpa using h), List.getElem?_map,
    List.getElem?_range h]
  rfl

theorem blank_zero (mem mem' : Mem) (e : Nat) {j : Nat} (h : 9 ≤ j) :
    (Chat.blankUserInfo mem e).bytes[j]? = (Chat.blankUserInfo mem' e).bytes[j]? := by
  rw [Chat.blankUserInfo_bytes, Chat.blankUserInfo_bytes, List.getElem?_append_right (by simpa using h),
    List.getElem?_append_right (by simpa using h)]
  simp only [List.length_map]

/-- the entries in use are made of the users, and of the others `user_id_` has an initialiser -/
theorem userList_written {junk : PacketId → Nat → UInt8} {l : List Session} (hl : l.length ≤ kRoomMaxUserCnt)
    {k : Nat} (hge : packetHeaderLength ≤ k) (hk : ¬ (c.userListPacket mem l).Unwritten k) :
    (c.userListPacket mem l).bytes[k]? = (c.userListPacket (mem.refill junk) l).bytes[k]? := by
  rcases Nat.eq_or_lt_of_le hge with h5 | h6
  · rw [show k = packetHeaderLength + 0 from h5.symm, userList_count, userList_count]
  · rw [userList_byte c _ l h6, userList_byte c _ l h6, userListEntries_get, userListEntries_get]
    by_cases he : entryOf k < l.length
    · rw [if_pos he, if_pos he]
      rfl
    · rw [if_neg he, if_neg he]
      by_cases hr : entryOf k < kRoomMaxUserCnt
      · have hcnt : int8 l.length ≤ (entryOf k : Int) := by
          rw [Chat.int8_of_le hl]
          omega
        have hplace : 9 ≤ placeOf k :=
          Nat.not_lt.mp fun hlt => hk (.inr ⟨h6, hcnt, hr, hlt⟩)
        rw [if_pos hr, if_pos hr]
        exact blank_zero _ _ _ hplace
      · rw [if_neg hr, if_neg hr]

/-! ## what twins have in common -/

namespace Twins

theorem symm (h : Twins c mem mem' pkt pkt') : Twins c mem' mem pkt' pkt := by
  cases h with
  | plain hid hne => exact .plain hid hne
  | userList hl => exact .userList hl

theorem unwritten (h : Twins c mem mem' pkt pkt') (k : Nat) : pkt.Unwritten k ↔ pkt'.Unwritten k := by
  cases h with
  | plain => exact Iff.rfl
  | userList => exact Iff.rfl

theorem header_eq (h : Twins c mem mem' pkt pkt') :
    pkt.header.size = pkt'.header.size ∧ pkt.header.id = pkt'.header.id := by
  cases h with
  | plain => exact ⟨rfl, rfl⟩
  | userList => exact ⟨rfl, rfl⟩

/-- the bytes that are written -/
theorem written {junk : PacketId → Nat → UInt8} (h : Twins c mem (mem.refill junk) pkt pkt') {k : Nat}
    (hk : ¬ pkt.Unwritten k) : pkt.bytes[k]? = pkt'.bytes[k]? := by
  rcases Nat.lt_or_ge k packetHeaderLength with hlt | hge
  · rw [bytes_head _ hlt, bytes_head _ hlt]
    exact header_byte h.header_eq.1 h.header_eq.2 fun e => hk (.inl e)
  · cases h with
    | plain =>
      obtain ⟨m, rfl⟩ := Nat.exists_eq_add_of_le hge
      rw [bytes_body, bytes_body]
      rfl
    | userList hl => exact userList_written hl hge hk

/-- and the bytes that are not -/
theorem unwritten_byte (h : Twins c mem mem' pkt pkt') {k : Nat} (hk : pkt.Unwritten k) :
    pkt.bytes[k]? = some (mem.junk pkt.body.id k) := by
  cases h with
  | @plain id body hid hne =>
    obtain rfl : k = 4 := by
      rcases hk with hk | hk
      · exact hk
      · cases body with
        | roomUserListNotify => exact absurd hid.symm hne
        | _ => exact hk.elim
    rw [bytes_head _ (by decide), type_byte, ← hid]
    rfl
  | @userList l hl =>
    rcases hk with rfl | ⟨h6, hcnt, hr, hplace⟩
    · rw [bytes_head _ (by decide), type_byte]
      rfl
    · have he : ¬ entryOf k < l.length := by
        rw [Chat.int8_of_le hl] at hcnt
        omega
      have hk : 6 + 42 * entryOf k + placeOf k = k := by
        have hdiv := Nat.div_add_mod (k - 6) 42
        unfold entryOf placeOf
        omega
      rw [userList_byte c mem l h6, userListEntries_get, if_neg he, if_pos hr]
      show (Chat.blankUserInfo mem (entryOf k)).bytes[placeOf k]? = _
      rw [blank_byte mem _ hplace, hk]
      rfl

theorem length_eq (h : Twins c mem mem' pkt pkt') : pkt.bytes.length = pkt'.bytes.length := by
  rw [Packet.bytes_length, Packet.bytes_length]
  cases h with
  | plain => rfl
  | userList hl => rw [Chat.userListPacket_length hl, Chat.userListPacket_length hl]

end Twins

end

/-! ## the calls of a handler -/

/-- to the same index, and but for what nobody writes the same bytes -/
structure SameWritten (x y : Sent) : Prop where
  idx : x.idx = y.idx
  length : x.pkt.bytes.length = y.pkt.bytes.length
  unwritten : ∀ k, x.pkt.Unwritten k ↔ y.pkt.Unwritten k
  written : ∀ k, ¬ x.pkt.Unwritten k → x.pkt.bytes[k]? = y.pkt.bytes[k]?

/-- twins on their way to the same index -/
def SentTwins (c : Chat) (mem mem' : Mem) (x y : Sent) : Prop := x.idx = y.idx ∧ Twins c mem mem' x.pkt y.pkt

namespace Chat

variable {c : Chat} {mem : Mem} {junk : PacketId → Nat → UInt8} {i : Nat} {data : Nat → UInt8}

theorem SentTwins.sameWritten {x y : Sent} (h : SentTwins c mem (mem.refill junk) x y) : SameWritten x y where
  idx := h.1
  length := h.2.length_eq
  unwritten := h.2.unwritten
  written _ := h.2.written

/-- one packet to each session of a list -/
theorem toEach_twins {mem' : Mem} {pkt pkt' : Packet} (h : Twins c mem mem' pkt pkt') (l : List Session) :
    List.Forall₂ (SentTwins c mem mem') (toEach l pkt) (toEach l pkt') := by
  induction l with
  | nil => exact .nil
  | cons p l ih => exact .cons ⟨rfl, h⟩ ih

theorem reply_twins {mem' : Mem} (i : Nat) {id : PacketId} {body : Body} (h : body.id = id)
    (hne : id ≠ .roomUserListNotify) : SentTwins c mem mem' ⟨i, reply mem id body⟩ ⟨i, reply mem' id body⟩ :=
  ⟨rfl, .plain h hne⟩

theorem leaveSends_twins (r : RoomPtr) (p : Session) :
    List.Forall₂ (SentTwins c mem (mem.refill junk)) (c.leaveSends mem r p)
      (c.leaveSends (mem.refill junk) r p) := by
  have hpkt : Twins c mem (mem.refill junk) (leaveUserPacket mem p) (leaveUserPacket (mem.refill junk) p) :=
    .plain rfl PacketId.noConfusion
  exact toEach_twins hpkt _

theorem enterSends_twins {r : RoomPtr} {p : Session}
    (h : ((c.roomList r).userList ++ [p]).length ≤ kRoomMaxUserCnt) :
    List.Forall₂ (SentTwins c mem (mem.refill junk)) (c.enterSends mem r p)
      (c.enterSends (mem.refill junk) r p) := by
  have hnew : Twins c mem (mem.refill junk) (c.newUserPacket mem p) (c.newUserPacket (mem.refill junk) p) :=
    .plain rfl PacketId.noConfusion
  exact List.rel_append (toEach_twins hnew _) (.cons ⟨rfl, .userList h⟩ .nil)

theorem chatPacket_twins (p : Session) : Twins c mem (mem.refill junk) (c.chatPacket mem p data)
    (c.chatPacket (mem.refill junk) p data) :=
  .plain rfl PacketId.noConfusion

/-- **Two calls in different memory send twins, to the same indices.** -/
theorem sends_twins (hc : c.Fixed) (hd : Handler) :
    List.Forall₂ (SentTwins c mem (mem.refill junk)) (hd.sends c mem i data)
      (hd.sends c (mem.refill junk) i data) := by
  cases hd with
  | connect => exact .nil
  | disconnect =>
    simp only [Handler.sends]
    split
    · exact .nil
    · split
      · split
        · exact .nil
        · exact leaveSends_twins _ _
      · exact .nil
  | login =>
    simp only [Handler.sends]
    have hid : loginId (mem.refill junk) data = loginId mem data := rfl
    rw [hid]
    split
    · exact .cons (reply_twins i rfl PacketId.noConfusion) .nil
    · split
      · exact .nil
      · exact .cons (reply_twins i rfl PacketId.noConfusion) .nil
  | loginDBRes => exact .cons (reply_twins i rfl PacketId.noConfusion) .nil
  | enterRoom =>
    simp only [Handler.sends]
    split
    · exact .nil
    · split
      · exact .cons (reply_twins i rfl PacketId.noConfusion) .nil
      · split
        · exact .cons (reply_twins i rfl PacketId.noConfusion) .nil
        · next r _ =>
          split
          · exact .cons (reply_twins i rfl PacketId.noConfusion) .nil
          · next hf =>
            refine List.rel_append (enterSends_twins ?_) (.cons (reply_twins i rfl PacketId.noConfusion) .nil)
            rw [hc.maxUserCnt r] at hf
            simp only [List.length_append, List.length_cons, List.length_nil]
            omega
  | leaveRoom =>
    simp only [Handler.sends]
    split
    · exact .nil
    · split
      · exact .cons (reply_twins i rfl PacketId.noConfusion) .nil
      · split
        · exact .cons (reply_twins i rfl PacketId.noConfusion) .nil
        · exact List.rel_append (leaveSends_twins _ _) (.cons (reply_twins i rfl PacketId.noConfusion) .nil)
  | roomChat =>
    simp only [Handler.sends]
    split
    · exact .cons (reply_twins i rfl PacketId.noConfusion) .nil
    · split
      · exact .cons (reply_twins i rfl PacketId.noConfusion) .nil
      · split
        · exact .cons (reply_twins i rfl PacketId.noConfusion) .nil
        · exact .cons (reply_twins i rfl PacketId.noConfusion) (toEach_twins (chatPacket_twins _) _)

/-! ## everything else -/

/-- without the log of what has been sent -/
def unsent (c : Chat) : Chat := { c with sent := [] }

theorem unsent_enterRoom (c : Chat) (p : Session) (k : Int) :
    (c.enterRoom mem p k).1.unsent = (c.unsent.enterRoom (mem.refill junk) p k).1.unsent := by
  have hrooms : c.unsent.roomList = c.roomList := rfl
  unfold enterRoom
  cases getRoomByIdx k with
  | none => rfl
  | some r =>
    simp only [enterUser, hrooms]
    split
    · rfl
    · rfl

theorem unsent_leaveRoom (c : Chat) (p : Session) :
    (c.leaveRoom mem p).1.unsent = (c.unsent.leaveRoom (mem.refill junk) p).1.unsent := by
  have husers : c.unsent.users = c.users := rfl
  unfold leaveRoom
  rw [husers]
  cases getRoomByIdx (c.users.pool p).roomIdx with
  | none => rfl
  | some r => rfl

/-- **Nothing but the log depends on the memory or on the log.** -/
theorem unsent_run (c : Chat) (hd : Handler) (mem : Mem) (junk : PacketId → Nat → UInt8) (i : Nat)
    (data : Nat → UInt8) : (hd.run c mem i data).unsent = (hd.run c.unsent (mem.refill junk) i data).unsent := by
  have husers : c.unsent.users = c.users := rfl
  cases hd with
  | connect =>
    show (c.connectHandler i).unsent = (c.unsent.connectHandler i).unsent
    unfold connectHandler
    cases getUserByIndex (int32 i) with
    | none => rfl
    | some p => rfl
  | disconnect =>
    show (c.disconnectHandler mem i).unsent = (c.unsent.disconnectHandler (mem.refill junk) i).unsent
    unfold disconnectHandler
    cases getUserByIndex (int32 i) with
    | none => rfl
    | some p =>
      simp only [husers]
      split
      · split
        · rfl
        · rfl
      · rfl
  | login =>
    show (c.loginHandler mem i data).unsent = (c.unsent.loginHandler (mem.refill junk) i data).unsent
    have hid : loginId (mem.refill junk) data = loginId mem data := rfl
    unfold loginHandler
    simp only [husers, hid]
    split
    · rfl
    · split
      · rfl
      · rfl
  | loginDBRes => rfl
  | enterRoom =>
    show (c.enterRoomHandler mem i data).unsent = (c.unsent.enterRoomHandler (mem.refill junk) i data).unsent
    unfold enterRoomHandler
    cases getUserByIndex (int32 i) with
    | none => rfl
    | some p =>
      simp only [husers]
      split
      · rfl
      · exact c.unsent_enterRoom p (readRoomNumber data)
  | leaveRoom =>
    show (c.leaveRoomHandler mem i).unsent = (c.unsent.leaveRoomHandler (mem.refill junk) i).unsent
    unfold leaveRoomHandler
    cases getUserByIndex (int32 i) with
    | none => rfl
    | some p =>
      simp only [husers]
      split
      · rfl
      · exact c.unsent_leaveRoom p
  | roomChat =>
    show (c.roomChatHandler mem i data).unsent = (c.unsent.roomChatHandler (mem.refill junk) i data).unsent
    unfold roomChatHandler
    cases getUserByIndex (int32 i) with
    | none => rfl
    | some p =>
      simp only [husers]
      split
      · rfl
      · split
        · rfl
        · rfl

end Chat

namespace Server

/-! ## two runs in different memory -/

def unsent (s : Server) : Server := { s with chat := s.chat.unsent }

/-- the same action, in other memory -/
def Action.refill (a : Action) (junk : PacketId → Nat → UInt8) : Action :=
  match a with
  | .loop mem => .loop (mem.refill junk)
  | .redisPut k mem => .redisPut k (mem.refill junk)
  | a => a

section
variable {mem : Mem} {junk : PacketId → Nat → UInt8}

theorem view_unsent (c : Chat) (ptr : DataPtr) :
    view c.unsent (mem.refill junk) ptr = view c mem ptr := by
  cases ptr <;> rfl

/-- both find no handler, or both run it -/
theorem unsent_handle (s : Server) (pkt : PacketInfo) :
    (s.handle mem pkt = none ∧ s.unsent.handle (mem.refill junk) pkt = none) ∨
      ∃ t t', s.handle mem pkt = some t ∧ s.unsent.handle (mem.refill junk) pkt = some t' ∧
        t.unsent = t'.unsent := by
  unfold handle
  cases packetHandlers pkt.id with
  | none => exact .inl ⟨rfl, rfl⟩
  | some hd =>
    have hrun := s.chat.unsent_run hd mem junk pkt.sessionIndex (view s.chat mem pkt.data)
    refine .inr ⟨_, _, rfl, rfl, ?_⟩
    show ({ s with chat := _ } : Server) = { s with chat := _ }
    rw [show s.unsent.chat = s.chat.unsent from rfl, view_unsent, ← hrun]

theorem unsent_handle_getD (s : Server) (pkt : PacketInfo) :
    ((s.handle mem pkt).getD s).unsent = ((s.unsent.handle (mem.refill junk) pkt).getD s.unsent).unsent := by
  obtain ⟨h, h'⟩ | ⟨t, t', h, h', e⟩ := @unsent_handle mem junk s pkt
  · rw [h, h']
    rfl
  · rw [h, h']
    exact e

theorem unsent_pc {s t : Server} (h : s.unsent = t.unsent) (pc : LoopPc) :
    ({ s with pc := pc } : Server).unsent = ({ t with pc := pc } : Server).unsent := by
  have e := congrArg (fun u : Server => { u with pc := pc }) h
  exact e

theorem unsent_dequeuePacket (s : Server) :
    s.unsent.dequeuePacket = (s.dequeuePacket.1.unsent, s.dequeuePacket.2) := by
  have hq : s.unsent.incomingQueue = s.incomingQueue := rfl
  unfold dequeuePacket
  rw [hq]
  split
  · rfl
  · simp only
    split
    · rfl
    · rfl

theorem unsent_loopStep (s : Server) :
    (s.loopStep mem).unsent = (s.unsent.loopStep (mem.refill junk)).unsent := by
  have hpc : s.unsent.pc = s.pc := rfl
  unfold loopStep
  rw [hpc]
  cases s.pc with
  | dequeuePacket =>
    simp only [unsent_dequeuePacket]
    cases s.dequeuePacket with
    | mk t pkt =>
      cases pkt with
      | none => rfl
      | some pkt => rfl
  | processPacket pkt =>
    simp only
    obtain ⟨h, h'⟩ | ⟨t, t', h, h', e⟩ := @unsent_handle mem junk s pkt
    · rw [h, h']
      rfl
    · rw [h, h']
      exact unsent_pc e _
  | completeProcess pkt => rfl
  | pushIndex i => rfl
  | dequeueSystemPacket =>
    have hq : s.unsent.systemQueue = s.systemQueue := rfl
    simp only [dequeueSystemPacket, hq]
    cases s.systemQueue with
    | nil => rfl
    | cons pkt rest => rfl
  | processSystemPacket pkt =>
    exact unsent_pc (unsent_handle_getD s pkt) _
  | getTaskRes =>
    have hq : s.unsent.taskResQueue = s.taskResQueue := rfl
    simp only [getTaskRes, hq]
    cases s.taskResQueue with
    | nil => rfl
    | cons task rest => rfl
  | processTaskRes task =>
    exact unsent_pc (unsent_handle_getD s task.toPacketInfo) _

/-- **What a step does to everything but the log does not depend on the memory or on the log.** -/
theorem unsent_step (redisGet : CStr → Option (List UInt8)) (s : Server) (a : Action) :
    (s.step redisGet a).unsent = (s.unsent.step redisGet (a.refill junk)).unsent := by
  cases a with
  | loop mem => exact unsent_loopStep s
  | pushIndex i =>
    have hq : s.unsent.storing = s.storing := rfl
    simp only [Action.refill, step, hq]
    split
    · rfl
    · rfl
  | redisTake =>
    have hq : s.unsent.chat.taskReqQueue = s.chat.taskReqQueue := rfl
    simp only [Action.refill, step, hq]
    cases s.chat.taskReqQueue with
    | nil => rfl
    | cons task rest => rfl
  | redisPut k mem =>
    have hq : s.unsent.workers = s.workers := rfl
    simp only [Action.refill, step, hq]
    cases s.workers[k]? with
    | none => rfl
    | some task => rfl
  | onConnect i | onDisconnect i | onRecv i data => rfl

end

end Server

/-! ## what goes to the sessions -/

/-- the calls of `SendPacket` that get to a session, with their bytes -/
def wires (l : List Sent) : List (Nat × List UInt8) :=
  (l.filter Sent.accesses).map fun x => (x.idx, x.pkt.bytes)

theorem wires_append (l l' : List Sent) : wires (l ++ l') = wires l ++ wires l' := by
  unfold wires
  rw [List.filter_append, List.map_append]

theorem wires_eq_nil_iff {l : List Sent} : wires l = [] ↔ ∀ x ∈ l, x.accesses = false := by
  unfold wires
  rw [List.map_eq_nil_iff, List.filter_eq_nil_iff]
  simp only [Bool.not_eq_true]

/-- logs that agree on no `type_` have no packet in common -/
theorem wires_types {l l' : List Sent} {v v' : UInt8} (h : ∀ x ∈ l, x.pkt.bytes[4]? = some v)
    (h' : ∀ x ∈ l', x.pkt.bytes[4]? = some v') (hv : v ≠ v') (e : wires l = wires l') : wires l = [] := by
  refine List.eq_nil_iff_forall_not_mem.mpr fun w hw => ?_
  obtain ⟨x, hx, hxw⟩ := List.mem_map.mp hw
  obtain ⟨y, hy, hyw⟩ := List.mem_map.mp (e ▸ hw)
  have hbytes : x.pkt.bytes = y.pkt.bytes := congrArg Prod.snd (hxw.trans hyw.symm)
  have hx4 := h x (List.mem_of_mem_filter hx)
  rw [hbytes, h' y (List.mem_of_mem_filter hy)] at hx4
  exact hv (Option.some.inj hx4).symm

/-- the same indices get packets -/
theorem sameWritten_accesses {x y : Sent} (h : SameWritten x y) : y.accesses = x.accesses := by
  unfold Sent.accesses
  rw [h.idx]

theorem wires_same {l l' : List Sent} (h : List.Forall₂ SameWritten l l') (hl : wires l = []) :
    wires l' = [] := by
  rw [wires_eq_nil_iff] at hl ⊢
  induction h with
  | nil => exact hl
  | cons hxy _ ih =>
    rw [List.forall_mem_cons] at hl ⊢
    exact ⟨(sameWritten_accesses hxy).trans hl.1, ih hl.2⟩

namespace Chat

variable {c : Chat} {mem : Mem} {i : Nat} {data : Nat → UInt8}

/-- what nobody writes goes out as it was -/
theorem sends_residue (hc : c.Fixed) (hd : Handler) :
    ∀ x ∈ hd.sends c mem i data, ∀ k, x.pkt.Unwritten k → x.pkt.bytes[k]? = some (mem.junk x.pkt.body.id k) := by
  have htwins := @sends_twins c mem mem.junk i data hc hd
  have hall := htwins.imp
    (S := fun x _ => (∀ k, x.pkt.Unwritten k → x.pkt.bytes[k]? = some (mem.junk x.pkt.body.id k)) ∧ True)
    fun x y h => ⟨fun k hk => h.2.unwritten_byte hk, trivial⟩
  exact ((List.forall₂_and_left _ _).mp hall).1

/-- memory that is the same byte everywhere shows in every `type_` -/
theorem sends_type (hc : c.Fixed) (hd : Handler) (v : UInt8) :
    ∀ x ∈ hd.sends c (mem.refill fun _ _ => v) i data, x.pkt.bytes[4]? = some v :=
  fun x hx => sends_residue hc hd x hx 4 (.inl rfl)

/-- **A request sends the same bytes in any memory exactly if it sends none.** -/
theorem residue_iff (hc : c.Fixed) (hd : Handler) :
    (∀ junk, wires (hd.run c (mem.refill junk) i data).sent = wires (hd.run c mem i data).sent) ↔
      hd.Silent c mem i data := by
  have hsent : ∀ m : Mem, wires (hd.run c m i data).sent = wires c.sent ++ wires (hd.sends c m i data) := by
    intro m
    rw [run_sent hd hc, wires_append]
  constructor
  · intro h
    have h0 := h fun _ _ => 0
    have h1 := h fun _ _ => 1
    have e := h0.trans h1.symm
    rw [hsent, hsent] at e
    have hnil := wires_types (sends_type hc hd 0) (sends_type hc hd 1) (by decide) (List.append_cancel_left e)
    have hsilent := (silent_iff hd c (mem.refill fun _ _ => 0) i data).mp (wires_eq_nil_iff.mp hnil)
    exact hsilent
  · intro h junk
    have hnil : ∀ m : Mem, hd.Silent c m i data → wires (hd.sends c m i data) = [] :=
      fun m hm => wires_eq_nil_iff.mpr ((silent_iff hd c m i data).mpr hm)
    rw [hsent, hsent, hnil mem h, hnil (mem.refill junk) h]

end Chat

/-! ## runs in different memory -/

/-- the same call, in other memory -/
def Call.refill (k : Call) (junk : PacketId → Nat → UInt8) : Call := { k with mem := k.mem.refill junk }

/-- what a handler sends does not depend on what has been sent -/
theorem Call.sends_congr {c c' : Chat} (k : Call) (h : c'.unsent = c.unsent) : k.sends c' = k.sends c := by
  have hlog : ∀ c : Chat, k.sends c.unsent = k.sends c := by
    intro c
    have hview : Server.view c.unsent k.mem k.pkt.data = Server.view c k.mem k.pkt.data := by
      cases k.pkt.data <;> rfl
    unfold Call.sends Call.data
    rw [hview]
    cases k.handler <;> rfl
  rw [← hlog c', h, hlog c]

theorem Call.refill_same {c : Chat} (hc : c.Fixed) (k : Call) (junk : PacketId → Nat → UInt8) :
    List.Forall₂ SameWritten (k.sends c) ((k.refill junk).sends c) := by
  have hview : Server.view c (k.mem.refill junk) k.pkt.data = Server.view c k.mem k.pkt.data := by
    cases k.pkt.data <;> rfl
  show List.Forall₂ _ _ (k.handler.sends c _ _ (Server.view c (k.mem.refill junk) k.pkt.data))
  rw [hview]
  exact (Chat.sends_twins hc k.handler).imp fun _ _ h => Chat.SentTwins.sameWritten h

namespace Server

theorem call_refill (s : Server) (a : Action) (junk : PacketId → Nat → UInt8) :
    s.call (a.refill junk) = (s.call a).map fun k => k.refill junk := by
  cases a with
  | loop mem =>
    simp only [Action.refill, call]
    cases s.pc.packet with
    | none => rfl
    | some x =>
      obtain ⟨source, pkt⟩ := x
      simp only [Option.map_map]
      rfl
  | _ => rfl

/-- the states of two runs: they differ in the log alone, and there in what nobody writes -/
structure Alike (s t : Server) : Prop where
  rest : t.unsent = s.unsent
  sent : List.Forall₂ SameWritten s.chat.sent t.chat.sent

theorem Alike.chat {s t : Server} (h : Alike s t) : t.chat.unsent = s.chat.unsent := congrArg Server.chat h.rest

theorem Alike.call {s t : Server} (h : Alike s t) (a : Action) : t.call a = s.call a := by
  have hpc : t.pc = s.pc := by
    have e := congrArg Server.pc h.rest
    exact e
  unfold Server.call
  rw [hpc]

theorem Alike.sends {s t : Server} (h : Alike s t) (hs : s.chat.Fixed) (a : Action)
    (junk : PacketId → Nat → UInt8) : List.Forall₂ SameWritten (s.sends a) (t.sends (a.refill junk)) := by
  unfold Server.sends
  rw [call_refill, h.call]
  cases s.call a with
  | none => exact .nil
  | some k =>
    show List.Forall₂ SameWritten (k.sends s.chat) ((k.refill junk).sends t.chat)
    rw [Call.sends_congr _ h.chat]
    exact k.refill_same hs junk

section
variable (redisGet : CStr → Option (List UInt8))

theorem step_alike {s t : Server} (h : Alike s t) (hs : s.chat.Fixed) (ht : t.chat.Fixed) (a : Action)
    (junk : PacketId → Nat → UInt8) : Alike (s.step redisGet a) (t.step redisGet (a.refill junk)) where
  rest := by
    have hrefill : (a.refill junk).refill junk = a.refill junk := by cases a <;> rfl
    rw [@unsent_step junk redisGet t, @unsent_step junk redisGet s, hrefill, h.rest]
  sent := by
    rw [step_sent redisGet hs, step_sent redisGet ht]
    exact List.rel_append h.sent (h.sends hs a junk)

/-- the same actions, each in memory of its own -/
def SameActions (as bs : List Action) : Prop :=
  List.Forall₂ (fun a b => ∃ junk, b = Action.refill a junk) as bs

theorem run_alike {s t : Server} (h : Alike s t) (hs : s.chat.Fixed) (ht : t.chat.Fixed) {as bs : List Action}
    (hab : SameActions as bs) : Alike (run (step redisGet) s as) (run (step redisGet) t bs) := by
  induction hab generalizing s t with
  | nil => exact h
  | cons hb _ ih =>
    obtain ⟨junk, rfl⟩ := hb
    exact ih (step_alike redisGet h hs ht _ junk) (step_fixed redisGet hs _) (step_fixed redisGet ht _)

/-- **The condition.**  The handler call of the step, if it makes one, sends nothing to a session. -/
def SilentStep (s : Server) (a : Action) : Prop :=
  ∀ k, s.call a = some k → k.handler.Silent s.chat k.mem k.pkt.sessionIndex (k.data s.chat)

theorem wires_sends_iff (s : Server) (a : Action) : wires (s.sends a) = [] ↔ s.SilentStep a := by
  rw [wires_eq_nil_iff]
  exact s.sends_silent_iff a

/-- a run sends nothing exactly if all its steps are silent -/
theorem wires_run_iff {s : Server} (hs : s.chat.Fixed) (as : List Action) :
    wires (run (step redisGet) s as).chat.sent = [] ↔
      wires s.chat.sent = [] ∧ ∀ x ∈ hist (step redisGet) s as, x.1.SilentStep x.2 := by
  induction as generalizing s with
  | nil => exact (and_iff_left fun _ h => by cases h).symm
  | cons a as ih =>
    rw [run_cons, hist_cons, ih (step_fixed redisGet hs a), step_sent redisGet hs, wires_append,
      List.append_eq_nil_iff, wires_sends_iff, List.forall_mem_cons, and_assoc]

theorem sends_type {s : Server} (hs : s.chat.Fixed) (a : Action) (v : UInt8) :
    ∀ x ∈ s.sends (a.refill fun _ _ => v), x.pkt.bytes[4]? = some v := by
  intro x hx
  unfold Server.sends at hx
  rw [call_refill] at hx
  cases hk : s.call a with
  | none =>
    rw [hk] at hx
    cases hx
  | some k =>
    rw [hk] at hx
    exact Chat.sends_type hs k.handler v x hx

/-- in memory that is the same byte everywhere, every packet of a run has that `type_` -/
theorem run_type {s : Server} (hs : s.chat.Fixed) (v : UInt8)
    (h : ∀ x ∈ s.chat.sent, x.pkt.bytes[4]? = some v) (as : List Action) :
    ∀ x ∈ (run (step redisGet) s (as.map fun a => a.refill fun _ _ => v)).chat.sent,
      x.pkt.bytes[4]? = some v := by
  induction as generalizing s with
  | nil => exact h
  | cons a as ih =>
    refine ih (step_fixed redisGet hs _) fun x hx => ?_
    rw [step_sent redisGet hs] at hx
    rcases List.mem_append.mp hx with hx | hx
    · exact h x hx
    · exact sends_type hs a v x hx

theorem sameActions_map (as : List Action) (junk : PacketId → Nat → UInt8) :
    SameActions as (as.map fun a => a.refill junk) := by
  induction as with
  | nil => exact .nil
  | cons a as ih => exact .cons ⟨junk, rfl⟩ ih

/-- **Uninitialised memory.**  Two runs that differ in the memory of the packets differ in the bytes that nobody
writes and nowhere else.  They send the same exactly if they send nothing, and so does a single request, in any
state that is reached. -/
theorem residue_run_iff (heap : Session → Fin kDefaultRingBufferSize → UInt8) (as : List Action) :
    ((∀ bs, SameActions as bs → wires (run (step redisGet) (start heap) bs).chat.sent
        = wires (run (step redisGet) (start heap) as).chat.sent) ↔
      ∀ x ∈ hist (step redisGet) (start heap) as, x.1.SilentStep x.2) ∧
    (∀ bs, SameActions as bs →
      Alike (run (step redisGet) (start heap) as) (run (step redisGet) (start heap) bs)) ∧
    ∀ (hd : Handler) (mem : Mem) (i : Nat) (data : Nat → UInt8),
      (∀ junk, wires (hd.run (run (step redisGet) (start heap) as).chat (mem.refill junk) i data).sent
        = wires (hd.run (run (step redisGet) (start heap) as).chat mem i data).sent) ↔
      hd.Silent (run (step redisGet) (start heap) as).chat mem i data := by
  have hstart : (start heap).chat.Fixed := Chat.init_fixed heap
  have hnone : ∀ x ∈ (start heap).chat.sent, ∀ v, x.pkt.bytes[4]? = some v := fun x hx => by cases hx
  have halike : ∀ bs, SameActions as bs →
      Alike (run (step redisGet) (start heap) as) (run (step redisGet) (start heap) bs) :=
    fun bs hb => run_alike redisGet ⟨rfl, .nil⟩ hstart hstart hb
  have hsilent := wires_run_iff redisGet hstart as
  refine ⟨⟨fun h => ?_, fun h bs hb => ?_⟩, halike, fun hd mem i data => ?_⟩
  · have h0 := h _ (sameActions_map as fun _ _ => 0)
    have h1 := h _ (sameActions_map as fun _ _ => 1)
    have hnil := wires_types (run_type redisGet hstart 0 (fun x hx => hnone x hx 0) as)
      (run_type redisGet hstart 1 (fun x hx => hnone x hx 1) as) (by decide) (h0.trans h1.symm)
    exact (hsilent.mp (h0.symm.trans hnil)).2
  · have hnil := hsilent.mpr ⟨rfl, h⟩
    rw [hnil, wires_same (halike bs hb).sent hnil]
  · exact Chat.residue_iff (run_sound redisGet heap as).fixed hd

end

/-- a client that leaves a room it is not in, and the first entry that is not filled in of a list with one member -/
theorem residue_shows :
    wires (Handler.leaveRoom.run (start fun _ _ => 0).chat Mem.zero 0 fun _ => 0).sent
        = [(0, [7, 0, 216, 0, 0, 13, 0])] ∧
      wires (Handler.leaveRoom.run (start fun _ _ => 0).chat (Mem.zero.refill fun _ _ => 1) 0 fun _ => 0).sent
        = [(0, [7, 0, 216, 0, 1, 13, 0])] ∧
      ((start fun _ _ => 0).chat.userListPacket Mem.zero [0]).bytes[48]? = some 0 ∧
      ((start fun _ _ => 0).chat.userListPacket (Mem.zero.refill fun _ _ => 1) [0]).bytes[48]? = some 1 := by
  decide

end Server

end Iocp
