import IocpChatting.Content.Deliveries
import IocpChatting.Content.Dispatch
import IocpChatting.Lib.Layout

/-!
# Outgoing packets as they lie in memory

`SendPacketFunc` is given the address of a packed struct and its `sizeof`; `Packet.bytes` are the bytes
it reads there.

* `Packed`           a header of `SetPacketIdAndLen`, and a body that fills up the struct of its id;
* `Packed.isFrame`   such a packet is a frame: its `size_` is the number of its bytes;
* `sent_packed`      every packet that the handlers send, in any run, is one.
-/

set_option linter.unusedSectionVars false
set_option autoImplicit false

namespace Iocp
open Runs Framing
open UserManager (getUserByIndex)
open Layout (digits digits_length)

/-! ## layout -/

def PacketHeader.bytes (h : PacketHeader) : List UInt8 := digits 2 h.size ++ digits 2 h.id ++ [h.type]

def UserInfo.bytes (u : UserInfo) : List UInt8 :=
  digits 8 u.userIndex ++ [UInt8.ofNat (u.idLen % 256).toNat] ++ u.userId

def Body.bytes : Body → List UInt8
  | .loginResponse result => digits 2 result
  | .roomEnterResponse result => digits 2 result
  | .roomLeaveResponse result => digits 2 result
  | .roomChatResponse result => digits 2 result
  | .roomChatNotify userId msg => userId ++ msg
  | .roomUserListNotify userCount userList =>
    UInt8.ofNat (userCount % 256).toNat :: userList.flatMap UserInfo.bytes
  | .roomNewUserNotify userInfo => userInfo.bytes
  | .roomLeaveUserNotify userIndex => digits 8 userIndex

def Packet.bytes (p : Packet) : List UInt8 := p.header.bytes ++ p.body.bytes

@[simp] theorem PacketHeader.bytes_length (h : PacketHeader) : h.bytes.length = packetHeaderLength := by
  simp [PacketHeader.bytes]

/-- the body fills up the struct that `SetPacketIdAndLen` has set the id and the length of -/
def Packet.Packed (p : Packet) : Prop :=
  ∃ mem id, p.header = setPacketIdAndLen mem id ∧
    packetHeaderLength + p.body.bytes.length = sizeOfPacket id

theorem Packet.bytes_length (p : Packet) :
    p.bytes.length = packetHeaderLength + p.body.bytes.length := by
  rw [Packet.bytes, List.length_append, PacketHeader.bytes_length]

theorem sizeOfPacket_lt (id : PacketId) : sizeOfPacket id < 2^16 := by
  cases id <;> decide

theorem le16_digits {x : Nat} (h : x < 2^16) :
    le16 (UInt8.ofNat (x / 256^0)) (UInt8.ofNat (x / 256^1)) = x := by
  unfold le16
  rw [UInt8.toNat_ofNat', UInt8.toNat_ofNat']
  omega

/-- **The `size_` of an outgoing packet is the number of its bytes.** -/
theorem Packet.Packed.isFrame {p : Packet} (h : p.Packed) : packetFormat.IsFrame p.bytes := by
  obtain ⟨mem, id, hheader, hsize⟩ := h
  have hlen : p.bytes.length = sizeOfPacket id := by rw [p.bytes_length, hsize]
  have htake : p.bytes.take packetHeaderLength = p.header.bytes := by
    rw [Packet.bytes, ← p.header.bytes_length, List.take_left]
  have hhead : packetFormat.size (packetFormat.head p.bytes) = sizeOfPacket id := by
    show (PacketHeader.ofBytes (p.bytes.take packetHeaderLength)).size = _
    rw [htake, hheader]
    exact le16_digits (sizeOfPacket_lt id)
  refine ⟨?_, hhead.trans hlen.symm⟩
  rw [p.bytes_length]
  exact Nat.le_add_right _ _

/-! ## the packets of the handlers -/

theorem copyId_length (mem : Mem) (id : CStr) : (copyId mem id).length = kMaxUserIdLen + 1 := by
  simp [copyId]

theorem UserInfo.bytes_length {u : UserInfo} (h : u.userId.length = kMaxUserIdLen + 1) :
    u.bytes.length = 42 := by
  simp only [UserInfo.bytes, List.length_append, digits_length, List.length_cons, List.length_nil, h]
  rfl

theorem flatMap_userInfo_length {l : List UserInfo}
    (h : ∀ u ∈ l, u.userId.length = kMaxUserIdLen + 1) :
    (l.flatMap UserInfo.bytes).length = 42 * l.length := by
  induction l with
  | nil => rfl
  | cons u l ih =>
    have hu := UserInfo.bytes_length (h u List.mem_cons_self)
    have hl := ih fun v hv => h v (List.mem_cons_of_mem _ hv)
    rw [List.flatMap_cons, List.length_append, hu, hl, List.length_cons]
    omega

namespace Chat

variable {c : Chat} {mem : Mem} {i : Nat} {data : Nat → UInt8}

def AllPacked (c : Chat) : Prop := ∀ k ∈ c.sent, k.pkt.Packed

theorem AllPacked.send (h : c.AllPacked) (idx : Nat) {pkt : Packet} (hp : pkt.Packed) :
    (c.send idx pkt).AllPacked := by
  intro k hk
  rcases List.mem_append.mp hk with hk | hk
  · exact h k hk
  · obtain rfl := List.mem_singleton.mp hk
    exact hp

theorem AllPacked.broadcastMsg (h : c.AllPacked) (r : RoomPtr) (idx : Nat) (me : Bool) {pkt : Packet}
    (hp : pkt.Packed) : (c.broadcastMsg r pkt idx me).AllPacked := by
  intro k hk
  rcases List.mem_append.mp hk with hk | hk
  · exact h k hk
  · obtain ⟨p, _, rfl⟩ := List.mem_map.mp hk
    exact hp

theorem reply_packed {id : PacketId} {body : Body}
    (h : packetHeaderLength + body.bytes.length = sizeOfPacket id) : (reply mem id body).Packed :=
  ⟨mem, id, rfl, h⟩

theorem AllPacked.leaveUser (h : c.AllPacked) (r : RoomPtr) (p : Session) :
    (c.leaveUser mem r p).AllPacked := by
  unfold Chat.leaveUser notifyLeaveUser
  refine AllPacked.broadcastMsg ?_ r _ _ ?_
  · exact h
  · refine ⟨mem, .roomLeaveUserNotify, rfl, ?_⟩
    simp [Body.bytes, sizeOfPacket]

theorem AllPacked.notifyNewUser (h : c.AllPacked) (r : RoomPtr) (p : Session) :
    (c.notifyNewUser mem r p).AllPacked := by
  refine h.broadcastMsg r _ _ ⟨mem, .roomNewUserNotify, rfl, ?_⟩
  show packetHeaderLength + (userInfo mem _).bytes.length = _
  rw [UserInfo.bytes_length (copyId_length mem _)]
  rfl

theorem userListEntries_ids (c : Chat) (mem : Mem) (l : List Session) :
    ∀ u ∈ c.userListEntries mem l, u.userId.length = kMaxUserIdLen + 1 := by
  intro u hu
  rcases List.mem_append.mp hu with hu | hu
  · obtain ⟨q, _, rfl⟩ := List.mem_map.mp hu
    exact copyId_length mem _
  · obtain ⟨k, _, rfl⟩ := List.mem_map.mp hu
    exact List.length_replicate

theorem userListPacket_length {l : List Session} (h : l.length ≤ kRoomMaxUserCnt) :
    (c.userListPacket mem l).body.bytes.length = 42 * kRoomMaxUserCnt + 1 := by
  show (_ :: (c.userListEntries mem l).flatMap UserInfo.bytes).length = _
  rw [List.length_cons, flatMap_userInfo_length (c.userListEntries_ids mem l), userListEntries_length h]

/-- the list fills its array as long as nobody has entered a full room -/
theorem AllPacked.notifyUserList (h : c.AllPacked) (r : RoomPtr) (p : Session)
    (hr : (c.roomList r).userList.length ≤ kRoomMaxUserCnt) : (c.notifyUserList mem r p).AllPacked := by
  refine h.send _ ⟨mem, .roomUserListNotify, rfl, ?_⟩
  show packetHeaderLength + (c.userListPacket mem (c.roomList r).userList).body.bytes.length = _
  rw [userListPacket_length hr]
  rfl

theorem AllPacked.enterRoom (h : c.AllPacked) (hc : c.Fixed) (p : Session) (k : Int) :
    (c.enterRoom mem p k).1.AllPacked := by
  unfold Chat.enterRoom
  split
  · exact h
  · next r _ =>
    unfold Chat.enterUser
    simp only
    split
    · exact h
    · next hf =>
      refine AllPacked.notifyUserList (AllPacked.notifyNewUser ?_ r p) r p ?_
      · exact h
      · -- one more than before, and the room was not full
        have hmax := hc.maxUserCnt r
        rw [hmax] at hf
        show (Function.update c.roomList r _ r).userList.length ≤ _
        rw [Function.update_self]
        simp only [List.length_append, List.length_cons, List.length_nil]
        omega

theorem AllPacked.leaveRoom (h : c.AllPacked) (p : Session) : (c.leaveRoom mem p).1.AllPacked := by
  unfold Chat.leaveRoom
  split
  · exact h
  · exact h.leaveUser _ p

theorem AllPacked.notifyChat (h : c.AllPacked) (r : RoomPtr) (userIdx : Int) (userId : CStr)
    (data : Nat → UInt8) : (c.notifyChat mem r userIdx userId (readMsg data)).AllPacked := by
  refine h.broadcastMsg r _ _ ⟨mem, .roomChatNotify, rfl, ?_⟩
  show packetHeaderLength + (copyId mem userId ++ readMsg data).length = _
  rw [List.length_append, copyId_length, readMsg, field_length]
  rfl

/-- a handler sends nothing but packed structs -/
theorem run_allPacked (hd : Handler) (hc : c.Fixed) (h : c.AllPacked) :
    (hd.run c mem i data).AllPacked := by
  have hreply : ∀ {c : Chat} (_ : c.AllPacked) (id : PacketId) (body : Body),
      packetHeaderLength + body.bytes.length = sizeOfPacket id →
      (c.send i (reply mem id body)).AllPacked :=
    fun h id body hlen => h.send i (reply_packed hlen)
  cases hd with
  | connect =>
    show (c.connectHandler i).AllPacked
    unfold connectHandler
    split <;> exact h
  | disconnect =>
    show (c.disconnectHandler mem i).AllPacked
    unfold disconnectHandler
    split
    · exact h
    · split
      · split
        · exact h
        · exact h.leaveUser _ _
      · exact h
  | login =>
    show (c.loginHandler mem i data).AllPacked
    unfold loginHandler
    simp only
    split
    · exact hreply h .loginResponse _ rfl
    · split
      · exact h
      · exact hreply h .loginResponse _ rfl
  | loginDBRes => exact hreply h .loginResponse _ rfl
  | enterRoom =>
    show (c.enterRoomHandler mem i data).AllPacked
    unfold enterRoomHandler
    split
    · exact h
    · split
      · exact hreply h .roomEnterResponse _ rfl
      · exact hreply (h.enterRoom hc _ _) .roomEnterResponse _ rfl
  | leaveRoom =>
    show (c.leaveRoomHandler mem i).AllPacked
    unfold leaveRoomHandler
    split
    · exact h
    · split
      · exact hreply h .roomLeaveResponse _ rfl
      · exact hreply (h.leaveRoom _) .roomLeaveResponse _ rfl
  | roomChat =>
    show (c.roomChatHandler mem i data).AllPacked
    unfold roomChatHandler
    split
    · exact hreply h .roomChatResponse _ rfl
    · split
      · exact hreply h .roomChatResponse _ rfl
      · split
        · exact hreply h .roomChatResponse _ rfl
        · exact (hreply h .roomChatResponse _ rfl).notifyChat _ _ _ data

end Chat

namespace Server

section
variable (redisGet : CStr → Option (List UInt8))

theorem step_allPacked {s : Server} (hc : s.chat.Fixed) (h : s.chat.AllPacked) (a : Action) :
    (step redisGet s a).chat.AllPacked := by
  cases hk : s.call a with
  | none =>
    unfold Chat.AllPacked
    rw [(step_quiet redisGet hk).sent]
    exact h
  | some k =>
    rw [step_call redisGet hk]
    exact Chat.run_allPacked k.handler hc h

/-- **Whatever the clients do, the handlers send packed structs.** -/
theorem sent_packed (heap : Session → Fin kDefaultRingBufferSize → UInt8) (as : List Action) :
    ∀ k ∈ (run (step redisGet) (start heap) as).chat.sent, k.pkt.Packed := by
  have h := @run_keeps_all _ _ (step redisGet) (fun s => s.chat.Fixed ∧ s.chat.AllPacked)
    (fun s a h => ⟨step_fixed redisGet h.1 a, step_allPacked redisGet h.1 h.2 a⟩) (start heap)
    ⟨Chat.init_fixed heap, fun k hk => absurd hk List.not_mem_nil⟩ as
  exact h.2

end

end Server

end Iocp
