import IocpChatting.Content.Residue
import IocpChatting.Content.Clients

/-!
# Packets as their receivers read them

A receiver has the bytes, cuts them by the `size_` of each header, and reads the struct of each `id_`.

* `Packet.ofBytes`            the struct read at the start of a buffer;
* `Packet.ofBytes_bytes`      it is the packet that was written there;
* `readPackets_initial`       an initial part of the bytes gives an initial part of the packets;
* `read_run`                  so it is for all that the handlers send to a session, in any run.
-/

set_option linter.unusedSectionVars false
set_option autoImplicit false

namespace Iocp
open Runs Framing
open UserManager (getUserByIndex)

/-! ## the structs of Content/packet.h -/

/-- an `int8_t` -/
def int8Layout : Layout Int := Layout.byte.via (fun v => UInt8.ofNat (v % 256).toNat) fun b => int8 b.toNat

def UserInfo.layout : Layout UserInfo :=
  (((Layout.uint 8).pair int8Layout).pair (Layout.chars (kMaxUserIdLen + 1))).via
    (fun u => ((u.userIndex, u.idLen), u.userId)) fun x => ⟨x.1.1, x.1.2, x.2⟩

/-- what is behind the header of a response -/
def resultLayout : Layout Nat := Layout.uint 2

def chatLayout : Layout (List UInt8 × List UInt8) :=
  (Layout.chars (kMaxUserIdLen + 1)).pair (Layout.chars (kMaxChatMsgSize + 1))

def userListLayout : Layout (Int × List UserInfo) := int8Layout.pair (UserInfo.layout.array kRoomMaxUserCnt)

def indexLayout : Layout Nat := Layout.uint 8

/-- the struct has room for the values -/
def Body.Fits : Body → Prop
  | .loginResponse result | .roomEnterResponse result | .roomLeaveResponse result
  | .roomChatResponse result => resultLayout.Fits result
  | .roomChatNotify userId msg => chatLayout.Fits (userId, msg)
  | .roomUserListNotify userCount userList => userListLayout.Fits (userCount, userList)
  | .roomNewUserNotify userInfo => UserInfo.layout.Fits userInfo
  | .roomLeaveUserNotify userIndex => indexLayout.Fits userIndex

/-- the struct of `id` behind a header -/
def Body.ofBytes (id : PacketId) (bs : List UInt8) : Option Body :=
  match id with
  | .loginResponse => some (.loginResponse (resultLayout.read bs))
  | .roomEnterResponse => some (.roomEnterResponse (resultLayout.read bs))
  | .roomLeaveResponse => some (.roomLeaveResponse (resultLayout.read bs))
  | .roomChatResponse => some (.roomChatResponse (resultLayout.read bs))
  | .roomChatNotify => some (.roomChatNotify (chatLayout.read bs).1 (chatLayout.read bs).2)
  | .roomUserListNotify => some (.roomUserListNotify (userListLayout.read bs).1 (userListLayout.read bs).2)
  | .roomNewUserNotify => some (.roomNewUserNotify (UserInfo.layout.read bs))
  | .roomLeaveUserNotify => some (.roomLeaveUserNotify (indexLayout.read bs))
  | _ => none

/-- the ids of the packets that the server sends -/
def sentIds : List PacketId :=
  [.loginResponse, .roomEnterResponse, .roomNewUserNotify, .roomUserListNotify, .roomLeaveResponse,
    .roomLeaveUserNotify, .roomChatResponse, .roomChatNotify]

/-- the packet at the start of a buffer -/
def Packet.ofBytes (bs : List UInt8) : Option Packet := do
  let header := PacketHeader.ofBytes bs
  let id ← sentIds.find? fun id => id.val == header.id
  let body ← Body.ofBytes id (bs.drop packetHeaderLength)
  return ⟨header, body⟩

/-- a header of `SetPacketIdAndLen`, and a body that its struct has room for -/
structure Packet.Fits (p : Packet) : Prop where
  header : ∃ mem, p.header = setPacketIdAndLen mem p.body.id
  body : p.body.Fits

/-! ## reading back -/

theorem Body.ofBytes_bytes {b : Body} (h : b.Fits) (t : List UInt8) : Body.ofBytes b.id (b.bytes ++ t) = some b := by
  cases b with
  | loginResponse result => exact congrArg (some ∘ Body.loginResponse) (resultLayout.read_write _ h t)
  | roomEnterResponse result => exact congrArg (some ∘ Body.roomEnterResponse) (resultLayout.read_write _ h t)
  | roomLeaveResponse result => exact congrArg (some ∘ Body.roomLeaveResponse) (resultLayout.read_write _ h t)
  | roomChatResponse result => exact congrArg (some ∘ Body.roomChatResponse) (resultLayout.read_write _ h t)
  | roomChatNotify userId msg =>
    exact congrArg (fun x => some (Body.roomChatNotify x.1 x.2)) (chatLayout.read_write _ h t)
  | roomUserListNotify userCount userList =>
    exact congrArg (fun x => some (Body.roomUserListNotify x.1 x.2)) (userListLayout.read_write _ h t)
  | roomNewUserNotify userInfo =>
    exact congrArg (some ∘ Body.roomNewUserNotify) (UserInfo.layout.read_write _ h t)
  | roomLeaveUserNotify userIndex =>
    exact congrArg (some ∘ Body.roomLeaveUserNotify) (indexLayout.read_write _ h t)

/-- the struct is as long as its `sizeof` -/
theorem Body.bytes_length {b : Body} (h : b.Fits) :
    packetHeaderLength + b.bytes.length = sizeOfPacket b.id := by
  cases b with
  | loginResponse | roomEnterResponse | roomLeaveResponse | roomChatResponse =>
    exact congrArg (packetHeaderLength + ·) (resultLayout.write_length _ h)
  | roomChatNotify => exact congrArg (packetHeaderLength + ·) (chatLayout.write_length _ h)
  | roomUserListNotify => exact congrArg (packetHeaderLength + ·) (userListLayout.write_length _ h)
  | roomNewUserNotify => exact congrArg (packetHeaderLength + ·) (UserInfo.layout.write_length _ h)
  | roomLeaveUserNotify => exact congrArg (packetHeaderLength + ·) (indexLayout.write_length _ h)

theorem PacketHeader.ofBytes_bytes {h : PacketHeader} (hsize : h.size < 2^16) (hid : h.id < 2^16) (t : List UInt8) :
    PacketHeader.ofBytes (h.bytes ++ t) = h := by
  obtain ⟨size, id, type⟩ := h
  have hs : le16 (UInt8.ofNat (size / 256^0)) (UInt8.ofNat (size / 256^1)) = size := le16_digits hsize
  have hi : le16 (UInt8.ofNat (id / 256^0)) (UInt8.ofNat (id / 256^1)) = id := le16_digits hid
  show PacketHeader.mk (le16 _ _) (le16 _ _) type = _
  exact congrArg₂ (fun a b => PacketHeader.mk a b type) hs hi

theorem sentIds_find (b : Body) : sentIds.find? (fun id => id.val == b.id.val) = some b.id := by
  cases b <;> rfl

theorem packetId_val_lt (id : PacketId) : id.val < 2^16 := by
  cases id <;> decide

/-- **A packet read back is the packet that was written.** -/
theorem Packet.ofBytes_bytes {p : Packet} (h : p.Fits) (t : List UInt8) : Packet.ofBytes (p.bytes ++ t) = some p := by
  obtain ⟨header, body⟩ := p
  obtain ⟨⟨mem, hmem⟩, hbody⟩ := h
  have e : header = setPacketIdAndLen mem body.id := hmem
  subst e
  have hheader : PacketHeader.ofBytes (Packet.bytes ⟨setPacketIdAndLen mem body.id, body⟩ ++ t)
      = setPacketIdAndLen mem body.id := by
    rw [Packet.bytes, List.append_assoc]
    exact PacketHeader.ofBytes_bytes (sizeOfPacket_lt _) (packetId_val_lt _) _
  have hdrop : (Packet.bytes ⟨setPacketIdAndLen mem body.id, body⟩ ++ t).drop packetHeaderLength = body.bytes ++ t := by
    rw [Packet.bytes, List.append_assoc]
    exact List.drop_left' (PacketHeader.bytes_length _)
  unfold Packet.ofBytes
  rw [hheader, hdrop]
  show ((sentIds.find? fun id => id.val == body.id.val).bind _) = _
  rw [sentIds_find]
  show ((Body.ofBytes body.id (body.bytes ++ t)).bind _) = _
  rw [Body.ofBytes_bytes hbody]
  rfl

example : Packet.ofBytes [7, 0, 202, 0, 9, 31, 0, 13] = some ⟨⟨7, 202, 9⟩, .loginResponse 31⟩ := by decide

theorem Packet.Fits.isFrame {p : Packet} (h : p.Fits) : packetFormat.IsFrame p.bytes := by
  obtain ⟨mem, hheader⟩ := h.header
  exact Packet.Packed.isFrame ⟨mem, p.body.id, hheader, Body.bytes_length h.body⟩

/-! ## streams -/

/-- what a receiver makes of the bytes it has got -/
def readPackets (l : List UInt8) : List Packet := (packetFormat.split l).filterMap Packet.ofBytes

section
variable {ps : List Packet} (hps : ∀ p ∈ ps, p.Fits)
include hps

theorem filterMap_ofBytes : (ps.map Packet.bytes).filterMap Packet.ofBytes = ps := by
  rw [List.filterMap_map]
  refine (List.filterMap_congr fun p hp => ?_).trans List.filterMap_some
  have h := Packet.ofBytes_bytes (hps p hp) []
  rwa [List.append_nil] at h

theorem isFrame_bytes : ∀ f ∈ ps.map Packet.bytes, packetFormat.IsFrame f := by
  intro f hf
  obtain ⟨p, hp, rfl⟩ := List.mem_map.mp hf
  exact (hps p hp).isFrame

/-- all the bytes give all the packets -/
theorem readPackets_all : readPackets (ps.flatMap Packet.bytes) = ps := by
  have h := Format.split_flatten (isFrame_bytes hps) []
  rw [List.append_nil, Format.split_of_not_complete Format.not_complete_nil, List.append_nil] at h
  unfold readPackets
  rw [List.flatMap_def, h, filterMap_ofBytes hps]

/-- and an initial part of the bytes an initial part of the packets -/
theorem readPackets_initial {l : List UInt8} (hl : l <+: ps.flatMap Packet.bytes) : readPackets l <+: ps := by
  rw [List.flatMap_def] at hl
  have h := (Format.split_initial (isFrame_bytes hps) hl).filterMap Packet.ofBytes
  rwa [filterMap_ofBytes hps] at h

end

/-! ## what the handlers send -/

/-- an `int8_t` is what has been converted to one -/
theorem int8Layout_fits (x : Int) : int8Layout.Fits (int8 x) := by
  refine ⟨trivial, ?_⟩
  show int8 (UInt8.ofNat (int8 x % 256).toNat).toNat = int8 x
  rw [UInt8.toNat_ofNat']
  unfold int8 signed
  split <;> split <;> omega

theorem foldr_bytes_lt (l : List UInt8) : l.foldr (fun b acc => b.toNat + 256 * acc) 0 < 256^l.length := by
  induction l with
  | nil => exact Nat.one_pos
  | cons b l ih =>
    have hb : b.toNat < 256 := b.toNat_lt
    rw [List.foldr_cons, List.length_cons, Nat.pow_succ']
    omega

namespace Chat

variable {c : Chat} {mem : Mem} {i : Nat} {data : Nat → UInt8}

theorem userInfo_fits (mem : Mem) (u : User) : UserInfo.layout.Fits (userInfo mem u) := by
  refine ⟨⟨⟨?_, int8Layout_fits _⟩, copyId_length mem _⟩, rfl⟩
  show uint64 u.sessionIdx < 256^8
  unfold uint64
  omega

theorem blankUserInfo_fits (mem : Mem) (k : Nat) : UserInfo.layout.Fits (blankUserInfo mem k) := by
  refine ⟨⟨⟨?_, int8Layout_fits _⟩, List.length_replicate⟩, rfl⟩
  have h := foldr_bytes_lt ((List.range 8).map fun j => mem.junk .roomUserListNotify (6 + 42 * k + j))
  rwa [List.foldr_map, List.length_map, List.length_range] at h

theorem reply_fits {body : Body} (h : body.Fits) : (reply mem body.id body).Fits := ⟨⟨mem, rfl⟩, h⟩

theorem userList_fits {l : List Session} (h : l.length ≤ kRoomMaxUserCnt) : (c.userListPacket mem l).Fits := by
  have hentries : ∀ u ∈ c.userListEntries mem l, UserInfo.layout.Fits u := by
    intro u hu
    rcases List.mem_append.mp hu with hu | hu
    · obtain ⟨q, _, rfl⟩ := List.mem_map.mp hu
      exact userInfo_fits mem _
    · obtain ⟨k, _, rfl⟩ := List.mem_map.mp hu
      exact blankUserInfo_fits mem k
  have hbody : (Body.roomUserListNotify (int8 l.length) (c.userListEntries mem l)).Fits :=
    ⟨int8Layout_fits _, userListEntries_length h, hentries⟩
  exact reply_fits hbody

theorem newUser_fits (p : Session) : (c.newUserPacket mem p).Fits := by
  have h : (Body.roomNewUserNotify (userInfo mem (c.users.pool p))).Fits := userInfo_fits mem _
  exact reply_fits h

theorem leaveUser_fits (p : Session) : (leaveUserPacket mem p).Fits := by
  have hp := session_lt p
  have h : (Body.roomLeaveUserNotify (p : Nat)).Fits := by
    show (p : Nat) < 256^8
    omega
  exact reply_fits h

theorem chat_fits (p : Session) : (c.chatPacket mem p data).Fits := by
  have h : (Body.roomChatNotify (copyId mem (c.users.pool p).userId) (readMsg data)).Fits :=
    ⟨copyId_length mem _, field_length data _ _⟩
  exact reply_fits h

theorem readResult_lt (data : Nat → UInt8) : readResult data < 256^2 := by
  have h0 : (data 0).toNat < 256 := (data 0).toNat_lt
  have h1 : (data 1).toNat < 256 := (data 1).toNat_lt
  unfold readResult le16
  omega

theorem errorCode_lt (e : ErrorCode) : e.val < 256^2 := by
  cases e <;> decide

/-! ### one call -/

/-- to a session, and the struct has room for what is in it -/
structure Mailed (x : Sent) : Prop where
  session : ∃ p : Session, x.idx = p
  fits : x.pkt.Fits

def AllMailed (l : List Sent) : Prop := ∀ x ∈ l, Mailed x

theorem AllMailed.append {l l' : List Sent} (h : AllMailed l) (h' : AllMailed l') : AllMailed (l ++ l') := by
  intro x hx
  exact (List.mem_append.mp hx).elim (h x) (h' x)

theorem allMailed_nil : AllMailed [] := fun _ hx => absurd hx List.not_mem_nil

theorem allMailed_one (p : Session) {pkt : Packet} (h : pkt.Fits) : AllMailed [⟨p, pkt⟩] := by
  intro x hx
  rw [List.mem_singleton.mp hx]
  exact ⟨⟨p, rfl⟩, h⟩

theorem allMailed_answer (p : Session) (body : Body) (h : body.Fits) : AllMailed [⟨p, reply mem body.id body⟩] :=
  allMailed_one p (reply_fits h)

theorem allMailed_toEach (l : List Session) {pkt : Packet} (h : pkt.Fits) : AllMailed (toEach l pkt) := by
  intro x hx
  obtain ⟨p, _, rfl⟩ := List.mem_map.mp hx
  exact ⟨⟨p, rfl⟩, h⟩

/-- a handler that is called for a session sends nothing but packets for sessions -/
theorem sends_mailed (hc : c.Fixed) (hd : Handler) (q : Session) : AllMailed (hd.sends c mem (q : Nat) data) := by
  cases hd with
  | connect => exact allMailed_nil
  | disconnect =>
    simp only [Handler.sends]
    split
    · exact allMailed_nil
    · split
      · split
        · exact allMailed_nil
        · exact allMailed_toEach _ (leaveUser_fits _)
      · exact allMailed_nil
  | login =>
    have hanswer : ∀ e : ErrorCode, AllMailed [⟨q, reply mem .loginResponse (.loginResponse e.val)⟩] :=
      fun e => allMailed_answer q (.loginResponse e.val) (errorCode_lt e)
    simp only [Handler.sends]
    split
    · exact hanswer _
    · split
      · exact allMailed_nil
      · exact hanswer _
  | loginDBRes => exact allMailed_answer q (.loginResponse (readResult data)) (readResult_lt data)
  | enterRoom =>
    have hanswer : ∀ e : ErrorCode, AllMailed [⟨q, reply mem .roomEnterResponse (.roomEnterResponse e.val)⟩] :=
      fun e => allMailed_answer q (.roomEnterResponse e.val) (errorCode_lt e)
    simp only [Handler.sends]
    split
    · exact allMailed_nil
    · split
      · exact hanswer _
      · split
        · exact hanswer _
        · next r _ =>
          split
          · exact hanswer _
          · next p _ _ _ _ hf =>
            -- the room was not full
            rw [hc.maxUserCnt r] at hf
            have hlen : ((c.roomList r).userList ++ [p]).length ≤ kRoomMaxUserCnt := by
              rw [List.length_append, List.length_singleton]
              omega
            have henter : AllMailed (c.enterSends mem r p) :=
              (allMailed_toEach _ (newUser_fits p)).append (allMailed_one p (userList_fits hlen))
            exact henter.append (hanswer _)
  | leaveRoom =>
    have hanswer : ∀ e : ErrorCode, AllMailed [⟨q, reply mem .roomLeaveResponse (.roomLeaveResponse e.val)⟩] :=
      fun e => allMailed_answer q (.roomLeaveResponse e.val) (errorCode_lt e)
    simp only [Handler.sends]
    split
    · exact allMailed_nil
    · split
      · exact hanswer _
      · split
        · exact hanswer _
        · exact (allMailed_toEach _ (leaveUser_fits _)).append (hanswer _)
  | roomChat =>
    have hanswer : ∀ e : ErrorCode, AllMailed [⟨q, reply mem .roomChatResponse (.roomChatResponse e.val)⟩] :=
      fun e => allMailed_answer q (.roomChatResponse e.val) (errorCode_lt e)
    simp only [Handler.sends]
    split
    · exact hanswer _
    · split
      · exact hanswer _
      · split
        · exact hanswer _
        · exact (hanswer _).append (allMailed_toEach _ (chat_fits _))

end Chat

namespace Server

/-! ### runs -/

/-- what a thread holds or a Redis worker has is for a session -/
structure Addressed (s : Server) : Prop where
  packet : ∀ pkt, s.pc.packet = some (.user, pkt) → ∃ p : Session, pkt.sessionIndex = p
  tasks : Tasks (fun t => ∃ p : Session, t.userIdx = p) (fun t => ∃ p : Session, t.userIdx = p) s

theorem call_addressed {s : Server} (hs : s.Sound) (h : s.Addressed) {a : Action} {k : Call}
    (hk : s.call a = some k) : ∃ p : Session, k.pkt.sessionIndex = p := by
  obtain ⟨_, hpacket, _⟩ := call_spec hk
  cases hsource : k.source with
  | user =>
    rw [hsource] at hpacket
    exact h.packet _ hpacket
  | system =>
    rw [hsource] at hpacket
    obtain ⟨i, hi | hi⟩ := hs.notices.held _ hpacket
    · exact ⟨i, by rw [hi]; exact uint16_session i⟩
    · exact ⟨i, by rw [hi]; exact uint16_session i⟩
  | redis =>
    rw [hsource] at hpacket
    cases hpc : s.pc with
    | processTaskRes t =>
      rw [hpc] at hpacket
      have hpkt : t.toPacketInfo = k.pkt := (Prod.mk.inj (Option.some.inj hpacket)).2
      rw [← hpkt]
      exact h.tasks.held t hpc
    | _ =>
      rw [hpc] at hpacket
      cases hpacket

section
variable (redisGet : CStr → Option (List UInt8))

theorem step_addressed {s : Server} (hs : s.Sound) (h : s.Addressed) (a : Action) :
    (step redisGet s a).Addressed where
  packet := by
    have he := step_effect redisGet s a
    generalize step redisGet s a = s' at he
    cases he with
    | @dequeue mem i rest p pkt hpc hq hi hp =>
      intro pkt' hpkt'
      cases hpkt'
      rw [User.getPacketData_eq] at hp
      split at hp
      · cases hp
        refine ⟨p, ?_⟩
        show uint32 (s.chat.users.pool p).sessionIdx = p
        rw [hs.fixed.sessionIdx, uint32_session]
      · cases hp
    | call hk =>
      intro pkt hpkt
      rw [LoopPc.ran_packet (call_spec hk).2.1] at hpkt
      cases hpkt
    | skip hpc hid =>
      intro pkt hpkt
      rw [LoopPc.skipped_packet hpc] at hpkt
      cases hpkt
    | complete hpc =>
      intro pkt hpkt
      rw [complete_packet] at hpkt
      cases hpkt
    | noIndex | noPacket | repush | noSystem | system | noTask | task => exact fun pkt hpkt => by cases hpkt
    | _ => exact h.packet
  tasks := by
    refine tasks_step redisGet h.tasks a (fun k hk t ht => ?_) (fun k mem t r _ _ ht hr => ?_)
    · rw [(request_id ht).2]
      exact call_addressed hs h hk
    · rw [processTask_eq redisGet hr]
      exact ht

theorem run_mailed (heap : Session → Fin kDefaultRingBufferSize → UInt8) (as : List Action) :
    Chat.AllMailed (run (step redisGet) (start heap) as).chat.sent := by
  have hstep : ∀ s a, (s.Sound ∧ s.Addressed ∧ Chat.AllMailed s.chat.sent) →
      (step redisGet s a).Sound ∧ (step redisGet s a).Addressed ∧
        Chat.AllMailed (step redisGet s a).chat.sent := by
    rintro s a ⟨hs, ha, hm⟩
    refine ⟨step_sound redisGet hs a, step_addressed redisGet hs ha a, ?_⟩
    rw [step_sent redisGet hs.fixed]
    refine hm.append ?_
    unfold Server.sends
    cases hk : s.call a with
    | none => exact Chat.allMailed_nil
    | some k =>
      obtain ⟨p, hp⟩ := call_addressed hs ha hk
      show Chat.AllMailed (k.handler.sends _ _ k.pkt.sessionIndex _)
      rw [hp]
      exact Chat.sends_mailed hs.fixed k.handler p
  have h0 : (start heap).Addressed :=
    ⟨fun _ h => (by cases h), ⟨fun _ h => (by cases h), fun _ h => (by cases h), fun _ h => (by cases h),
      fun _ h => (by cases h)⟩⟩
  exact (run_keeps_all (step redisGet) hstep ⟨start_sound heap, h0, Chat.allMailed_nil⟩ as).2.2

theorem mail_fits {l : List Sent} (h : Chat.AllMailed l) (p : Session) : ∀ pkt ∈ mail p l, pkt.Fits := by
  intro pkt hpkt
  obtain ⟨x, hx, hpkt⟩ := List.mem_filterMap.mp hpkt
  split at hpkt
  · cases hpkt
    exact (h x hx).fits
  · cases hpkt

/-- **What the handlers send to a session, its bytes say, and any initial part of them says an initial
part of it.** -/
theorem read_run (heap : Session → Fin kDefaultRingBufferSize → UInt8) (as : List Action) (p : Session) :
    readPackets ((mail p (run (step redisGet) (start heap) as).chat.sent).flatMap Packet.bytes)
        = mail p (run (step redisGet) (start heap) as).chat.sent ∧
      ∀ l, l <+: (mail p (run (step redisGet) (start heap) as).chat.sent).flatMap Packet.bytes →
        readPackets l <+: mail p (run (step redisGet) (start heap) as).chat.sent := by
  have hfit := mail_fits (run_mailed redisGet heap as) p
  exact ⟨readPackets_all hfit, fun l hl => readPackets_initial hfit hl⟩

end

end Server

end Iocp
