import IocpChatting.Content.Draining
import IocpChatting.Content.Ids
import IocpChatting.Content.UserLimit

/-!
# What a request handler reads of the ring

`Server.erased` forgets what is in the ring arrays and keeps everything else, the indices included.
No handler of a request looks into a ring but through its pointer, and through that it reads its
struct, whatever size the header says.

* `erased_run`          erasing the rings before or after a handler call is the same;
* `run_congr`           a handler call depends on the first `readLength` bytes at its pointer only;
* `locality_iff`        the dispatch of a request depends on nothing behind the packet exactly if the
                        packet is at least as long as the struct.
-/

set_option linter.unusedSectionVars false
set_option autoImplicit false

namespace Iocp
open Runs Framing
open UserManager (getUserByIndex)
open Chat (getRoomByIdx)

/-! ## without the ring arrays -/

def RingBuffer.erased {n : Nat} (r : RingBuffer UInt8 n) : RingBuffer UInt8 n :=
  { r with buf := fun _ => 0 }

def User.erased (u : User) : User := { u with packetBuf := u.packetBuf.erased }

namespace Chat

def erased (c : Chat) : Chat :=
  { c with users := { c.users with pool := fun p => (c.users.pool p).erased } }

@[simp] theorem erased_sent (c : Chat) : c.erased.sent = c.sent := rfl
@[simp] theorem erased_taskReqQueue (c : Chat) : c.erased.taskReqQueue = c.taskReqQueue := rfl
@[simp] theorem erased_pool (c : Chat) (p : Session) :
    c.erased.users.pool p = (c.users.pool p).erased := rfl

variable {mem : Mem} {i : Nat} {data : Nat → UInt8}

theorem erased_setUser (c : Chat) (p : Session) (u : User) :
    (c.setUser p u).erased = c.erased.setUser p u.erased := by
  have e : (fun q => (Function.update c.users.pool p u q).erased)
      = Function.update (fun q => (c.users.pool q).erased) p u.erased := by
    funext q
    by_cases hq : q = p
    · subst hq
      rw [Function.update_self, Function.update_self]
    · rw [Function.update_of_ne hq, Function.update_of_ne hq]
  show Chat.mk (UserManager.mk (fun q => (Function.update c.users.pool p u q).erased) _ _) _ _ _ = _
  rw [e]
  rfl

theorem erased_setUserID (c : Chat) (k : Int) (v : CStr) :
    ({ c with users := c.users.setUserID k v } : Chat).erased
      = { c.erased with users := c.erased.users.setUserID k v } := by
  unfold UserManager.setUserID
  cases getUserByIndex k with
  | none => rfl
  | some p => exact erased_setUser c p _

theorem erased_enterRoom (c : Chat) (p : Session) (k : Int) :
    (c.enterRoom mem p k).1.erased = (c.erased.enterRoom mem p k).1 ∧
      (c.enterRoom mem p k).2 = (c.erased.enterRoom mem p k).2 := by
  unfold enterRoom
  cases getRoomByIdx k with
  | none => exact ⟨rfl, rfl⟩
  | some r =>
    simp only [enterUser]
    by_cases hf : ((c.roomList r).userList.length : Int) ≥ (c.roomList r).maxUserCnt
    · have hf' : ((c.erased.roomList r).userList.length : Int) ≥ (c.erased.roomList r).maxUserCnt := hf
      rw [if_pos hf, if_pos hf']
      exact ⟨rfl, rfl⟩
    · have hf' : ¬ ((c.erased.roomList r).userList.length : Int) ≥ (c.erased.roomList r).maxUserCnt :=
        hf
      rw [if_neg hf, if_neg hf']
      refine ⟨?_, rfl⟩
      -- the notify packets show no ring
      show notifyUserList (notifyNewUser (((c.setRoom r _).setUser p _).erased) mem r p) mem r p = _
      rw [erased_setUser]
      rfl

theorem erased_leaveRoom (c : Chat) (p : Session) :
    (c.leaveRoom mem p).1.erased = (c.erased.leaveRoom mem p).1 ∧
      (c.leaveRoom mem p).2 = (c.erased.leaveRoom mem p).2 := by
  have hidx : (c.users.pool p).erased.roomIdx = (c.users.pool p).roomIdx := rfl
  unfold leaveRoom
  rw [erased_pool, hidx]
  cases getRoomByIdx (c.users.pool p).roomIdx with
  | none => exact ⟨rfl, rfl⟩
  | some r => exact ⟨erased_setUser (c.leaveUser mem r p) p _, rfl⟩

/-- the handlers of the client requests -/
def IsRequest (hd : Handler) : Prop :=
  hd = .login ∨ hd = .enterRoom ∨ hd = .leaveRoom ∨ hd = .roomChat

/-- **Erasing the rings before or after a request is the same.** -/
theorem erased_run (c : Chat) {hd : Handler} (h : IsRequest hd) :
    (hd.run c mem i data).erased = hd.run c.erased mem i data := by
  have hstate : ∀ p, (c.users.pool p).erased.domainState = (c.users.pool p).domainState := fun p => rfl
  have hidx : ∀ p, (c.users.pool p).erased.roomIdx = (c.users.pool p).roomIdx := fun p => rfl
  rcases h with rfl | rfl | rfl | rfl
  · show (c.loginHandler mem i data).erased = c.erased.loginHandler mem i data
    unfold loginHandler
    have hcnt : c.erased.users.getCurrentUserCnt = c.users.getCurrentUserCnt := rfl
    have hmax : c.erased.users.getMaxUserCnt = c.users.getMaxUserCnt := rfl
    have hfind : ∀ v, c.erased.users.findUserIndexByID v = c.users.findUserIndexByID v := fun v => rfl
    simp only [hcnt, hmax, hfind]
    split
    · rfl
    · split
      · exact erased_setUserID { c with taskReqQueue := c.taskReqQueue ++ [loginTask i data] } _ _
      · rfl
  · show (c.enterRoomHandler mem i data).erased = c.erased.enterRoomHandler mem i data
    unfold enterRoomHandler
    cases getUserByIndex (int32 i) with
    | none => rfl
    | some p =>
      simp only [erased_pool, hstate]
      split
      · rfl
      · obtain ⟨hchat, hcode⟩ := @erased_enterRoom mem c p (readRoomNumber data)
        rw [← hcode, ← hchat]
        rfl
  · show (c.leaveRoomHandler mem i).erased = c.erased.leaveRoomHandler mem i
    unfold leaveRoomHandler
    cases getUserByIndex (int32 i) with
    | none => rfl
    | some p =>
      simp only [erased_pool, hstate]
      split
      · rfl
      · obtain ⟨hchat, hcode⟩ := @erased_leaveRoom mem c p
        rw [← hcode, ← hchat]
        rfl
  · show (c.roomChatHandler mem i data).erased = c.erased.roomChatHandler mem i data
    unfold roomChatHandler
    cases getUserByIndex (int32 i) with
    | none => rfl
    | some p =>
      simp only [erased_pool, hstate, hidx]
      split
      · rfl
      · split
        · rfl
        · rfl

/-! ## how far a handler reads -/

/-- `sizeof` of the struct that the handler copies, or reads fields of -/
def readLength : Handler → Nat
  | .login => packetHeaderLength + (kMaxUserIdLen + 1) + (kMaxUserPwLen + 1)
  | .enterRoom => packetHeaderLength + 4
  | .roomChat => packetHeaderLength + (kMaxChatMsgSize + 1)
  | _ => packetHeaderLength

theorem field_congr {d d' : Nat → UInt8} {off len : Nat} (h : ∀ k, k < off + len → d k = d' k) :
    field d off len = field d' off len := by
  refine List.map_congr_left fun k hk => h _ ?_
  have := List.mem_range.mp hk
  omega

/-- **A request handler reads its struct and no further.** -/
theorem run_congr (c : Chat) {hd : Handler} (hreq : IsRequest hd) {d d' : Nat → UInt8}
    (h : ∀ k, k < readLength hd → d k = d' k) : hd.run c mem i d = hd.run c mem i d' := by
  rcases hreq with rfl | rfl | rfl | rfl
  · have hread : LoginRequest.read d = LoginRequest.read d' := by
      unfold LoginRequest.read
      rw [field_congr fun k hk => h k (hk.trans_le (by decide)),
        field_congr fun k hk => h k (hk.trans_le (by decide))]
    show c.loginHandler mem i d = c.loginHandler mem i d'
    unfold loginHandler loginId loginTask
    rw [hread]
  · have hread : readRoomNumber d = readRoomNumber d' := by
      unfold readRoomNumber
      rw [h 5 (by decide), h 6 (by decide), h 7 (by decide), h 8 (by decide)]
    show c.enterRoomHandler mem i d = c.enterRoomHandler mem i d'
    unfold enterRoomHandler
    rw [hread]
  · rfl
  · have hread : readMsg d = readMsg d' := field_congr fun k hk => h k hk
    show c.roomChatHandler mem i d = c.roomChatHandler mem i d'
    unfold roomChatHandler
    rw [hread]

end Chat

namespace Server

/-! ## the dispatch of the front packet -/

def erased (s : Server) : Server := { s with chat := s.chat.erased }

/-- the front packet of `p` has this id and this size, is complete, and ends inside the array -/
structure FrontPacket (p : Session) (id size : Nat) (s : Server) : Prop where
  complete : packetFormat.Complete (s.chat.bufs p).contents
  head : packetFormat.head (s.chat.bufs p).contents = (id, size)
  contiguous : (s.chat.bufs p).front + size ≤ kDefaultRingBufferSize

/-- the two servers differ at most in the ring array of `p`, outside its first `size` bytes -/
structure AgreeOnPacket (p : Session) (size : Nat) (s s' : Server) : Prop where
  erased : s'.erased = s.erased
  others : ∀ q, q ≠ p → s'.chat.bufs q = s.chat.bufs q
  packet : ∀ past k, k < size →
    (s'.chat.bufs p).byteAt past ((s.chat.bufs p).front + k)
      = (s.chat.bufs p).byteAt past ((s.chat.bufs p).front + k)

/-- `GetPacketData` and `ProcessPacket` for `p` -/
def dispatchFront (p : Session) (s : Server) (mem : Mem) : Server :=
  match (s.chat.users.pool p).getPacketData p with
  | some pkt => (s.processUserPacket mem pkt).1
  | none => s

section
variable {p : Session} {id size : Nat} {s s' : Server}

theorem AgreeOnPacket.user (h : AgreeOnPacket p size s s') (q : Session) :
    (s'.chat.users.pool q).erased = (s.chat.users.pool q).erased :=
  congrArg (fun t : Server => t.chat.users.pool q) h.erased

theorem AgreeOnPacket.front (h : AgreeOnPacket p size s s') :
    (s'.chat.bufs p).front = (s.chat.bufs p).front := by
  have e := congrArg (fun u : User => u.packetBuf.front) (h.user p)
  exact e

theorem AgreeOnPacket.inUse (h : AgreeOnPacket p size s s') :
    (s'.chat.bufs p).getSizeInUse = (s.chat.bufs p).getSizeInUse := by
  have e := congrArg (fun u : User => u.packetBuf.getSizeInUse) (h.user p)
  exact e

theorem FrontPacket.size_le (h : FrontPacket p id size s) :
    size ≤ (s.chat.bufs p).contents.length := by
  have hle := h.complete.2
  rw [h.head] at hle
  exact hle

/-- the front packet is the same packet in both -/
theorem FrontPacket.agree (h : FrontPacket p id size s) (h5 : packetHeaderLength ≤ size)
    (ha : AgreeOnPacket p size s s') : FrontPacket p id size s' := by
  have hlen : (s'.chat.bufs p).contents.length = (s.chat.bufs p).contents.length := by
    rw [RingBuffer.contents_length, RingBuffer.contents_length, ha.inUse]
  have hsize := h.size_le
  have htake : (s'.chat.bufs p).contents.take size = (s.chat.bufs p).contents.take size := by
    have e := User.field_eq_peek (s.chat.bufs p) (fun _ => 0) hsize h.contiguous
    have e' := User.field_eq_peek (s'.chat.bufs p) (fun _ => 0) (hlen ▸ hsize)
      (by rw [ha.front]; exact h.contiguous)
    rw [← RingBuffer.peek_eq, ← RingBuffer.peek_eq, ← e, ← e', ha.front]
    exact List.map_congr_left fun k hk => ha.packet _ k (List.mem_range.mp hk)
  have hhead : packetFormat.head (s'.chat.bufs p).contents
      = packetFormat.head (s.chat.bufs p).contents := by
    have h1 := Format.head_initial (F := packetFormat)
      (List.take_prefix size (s.chat.bufs p).contents)
      (by rw [List.length_take]; exact Nat.le_min.mpr ⟨h5, h5.trans hsize⟩)
    have h2 := Format.head_initial (F := packetFormat)
      (List.take_prefix size (s'.chat.bufs p).contents)
      (by rw [List.length_take, hlen]; exact Nat.le_min.mpr ⟨h5, h5.trans hsize⟩)
    rw [h1, h2, htake]
  refine ⟨⟨?_, ?_⟩, ?_, ?_⟩
  · rw [hlen]
    exact h.complete.1
  · rw [hlen, hhead]
    exact h.complete.2
  · rw [hhead]
    exact h.head
  · rw [ha.front]
    exact h.contiguous

theorem FrontPacket.getPacketData (h : FrontPacket p id size s) :
    (s.chat.users.pool p).getPacketData p
      = some ⟨uint32 (s.chat.users.pool p).sessionIdx, id, size, .ring p (s.chat.bufs p).front⟩ := by
  have hhas : (s.chat.users.pool p).HasPacket := h.complete
  have hid : (s.chat.users.pool p).header.id = id := congrArg Prod.fst h.head
  have hsize : (s.chat.users.pool p).header.size = size := congrArg Prod.snd h.head
  rw [User.getPacketData_eq, if_pos hhas, hid, hsize]
  rfl

theorem erased_finish (s : Server) (pkt : PacketInfo) :
    (s.finish pkt).erased = s.erased.finish pkt := by
  unfold finish afterComplete UserManager.completeProcess
  cases getUserByIndex (int32 pkt.sessionIndex) with
  | none => rfl
  | some q =>
    have hset := Chat.erased_setUser s.chat q ((s.chat.users.pool q).completeProcess pkt.size).1
    have hring : ((s.erased.chat.users.pool q).completeProcess pkt.size)
        = (((s.chat.users.pool q).completeProcess pkt.size).1.erased,
            ((s.chat.users.pool q).completeProcess pkt.size).2) := rfl
    simp only [hring]
    split
    · exact congrArg (fun c : Chat => ({ s with chat := c } : Server).pushIncoming _) hset
    · exact congrArg (fun c : Chat => ({ s with chat := c } : Server)) hset

/-- **A packet as long as the struct of its handler is dispatched alike.** -/
theorem dispatch_local {hd : Handler} (hid : packetHandlers id = some hd) (hreq : Chat.IsRequest hd)
    (hlen : Chat.readLength hd ≤ size) (h5 : packetHeaderLength ≤ size) (mem : Mem)
    (h : FrontPacket p id size s) (ha : AgreeOnPacket p size s s') :
    (dispatchFront p s' mem).erased = (dispatchFront p s mem).erased := by
  have h' := h.agree h5 ha
  have hsess : (s'.chat.users.pool p).sessionIdx = (s.chat.users.pool p).sessionIdx := by
    have e := congrArg User.sessionIdx (ha.user p)
    exact e
  unfold dispatchFront
  rw [h.getPacketData, h'.getPacketData, hsess, ha.front]
  simp only
  rw [processUserPacket_eq hid, processUserPacket_eq hid, erased_finish, erased_finish]
  congr 1
  have hchat : s'.chat.erased = s.chat.erased := congrArg Server.chat ha.erased
  have hrun : ∀ i, (hd.run s'.chat mem i (view s'.chat mem (.ring p (s.chat.bufs p).front))).erased
      = (hd.run s.chat mem i (view s.chat mem (.ring p (s.chat.bufs p).front))).erased := by
    intro i
    rw [Chat.erased_run _ hreq, Chat.erased_run _ hreq, hchat]
    refine Chat.run_congr _ hreq fun k hk => ?_
    exact ha.packet mem.past k (hk.trans_le hlen)
  have hrest : ∀ c, ({ s'.erased with chat := c } : Server) = { s.erased with chat := c } := by
    intro c
    rw [ha.erased]
  show ({ s'.erased with chat := (Handler.run hd _ _ _ _).erased } : Server) = _
  rw [hrun, hrest]
  rfl

/-! ## a packet that is shorter than its struct -/

theorem dispatchFront_chat {hd : Handler} (hs : s.chat.Fixed) (hid : packetHandlers id = some hd)
    (mem : Mem) (h : FrontPacket p id size s) :
    (dispatchFront p s mem).chat.sent = s.chat.sent
        ++ hd.sends s.chat mem p (view s.chat mem (.ring p (s.chat.bufs p).front)) ∧
      (dispatchFront p s mem).chat.taskReqQueue = s.chat.taskReqQueue
        ++ hd.request s.chat mem p (view s.chat mem (.ring p (s.chat.bufs p).front)) := by
  have hkeeps : ∀ (t : Server) (pkt : PacketInfo), (t.finish pkt).chat.sent = t.chat.sent ∧
      (t.finish pkt).chat.taskReqQueue = t.chat.taskReqQueue := by
    intro t pkt
    unfold finish
    split
    · exact ⟨rfl, rfl⟩
    · exact ⟨rfl, rfl⟩
  unfold dispatchFront
  rw [h.getPacketData, hs.sessionIdx, uint32_session]
  simp only
  rw [processUserPacket_eq hid, (hkeeps _ _).1, (hkeeps _ _).2]
  exact ⟨Chat.run_sent hd hs, Chat.run_taskReqQueue hd⟩

end

/-- a header that announces `size` bytes, and zeros up to the last byte of a struct of `len` -/
def shortPacket (id size len : Nat) : List UInt8 :=
  [UInt8.ofNat (size % 256), UInt8.ofNat (size / 256), UInt8.ofNat (id % 256), UInt8.ofNat (id / 256), 0]
    ++ List.replicate (len - 6) 0

theorem shortPacket_length (id size : Nat) {len : Nat} (h : 6 ≤ len) :
    (shortPacket id size len).length + 1 = len := by
  unfold shortPacket
  rw [List.length_append, List.length_replicate]
  show 5 + (len - 6) + 1 = len
  omega

theorem shortPacket_head {id size : Nat} (len : Nat) (hid : id < 2^16) (hsize : size < 2^16)
    (x : List UInt8) : packetFormat.head (shortPacket id size len ++ x) = (id, size) := by
  have h16 : ∀ x, x < 2^16 → le16 (UInt8.ofNat (x % 256)) (UInt8.ofNat (x / 256)) = x := by
    intro x hx
    unfold le16
    rw [UInt8.toNat_ofNat', UInt8.toNat_ofNat']
    omega
  exact Prod.ext (h16 id hid) (h16 size hsize)

/-- after the short packet, and one byte `b` of what comes later -/
def probe (s : Server) (p : Session) (id size len : Nat) (b : UInt8) : Server :=
  (s.enqueuePacket (p : Nat) (shortPacket id size len ++ [b])).1

section
variable {s : Server} {p : Session} {id size len : Nat}

theorem probe_chat (b : UInt8) : (s.probe p id size len b).chat = s.chat.setUser p
    { s.chat.users.pool p with
      packetBuf := ((s.chat.bufs p).enqueue (shortPacket id size len ++ [b])).1 } := by
  unfold probe enqueuePacket
  rw [getUserByIndex_session]
  rfl

theorem probe_buf (b : UInt8) : (s.probe p id size len b).chat.bufs p
    = ((s.chat.bufs p).enqueue (shortPacket id size len ++ [b])).1 := by
  rw [probe_chat, Chat.bufs_setUser, Function.update_self]

theorem probe_front (b : UInt8) :
    ((s.probe p id size len b).chat.bufs p).front = (s.chat.bufs p).front := by
  rw [probe_buf]
  exact RingBuffer.enqueue_front _ _

/-- the ring of `p` is empty, and its array goes on for a whole struct -/
structure Roomy (p : Session) (len : Nat) (s : Server) : Prop where
  empty : (s.chat.bufs p).contents = []
  contiguous : (s.chat.bufs p).front + len < kDefaultRingBufferSize

theorem Roomy.contents (h : Roomy p len s) (h6 : 6 ≤ len) (b : UInt8) :
    ((s.probe p id size len b).chat.bufs p).contents = shortPacket id size len ++ [b] := by
  have hlen := shortPacket_length id size h6
  have hsum := (s.chat.bufs p).inUse_add_free
  have hcont := h.contiguous
  rw [← RingBuffer.contents_length, h.empty, List.length_nil] at hsum
  rw [probe_buf, RingBuffer.enqueue_contents, h.empty, List.nil_append, List.take_of_length_le]
  rw [List.length_append, List.length_singleton]
  omega

theorem Roomy.frontPacket (h : Roomy p len s) (h5 : packetHeaderLength ≤ size) (hlt : size < len)
    (hid : id < 2^16) (b : UInt8) : FrontPacket p id size (s.probe p id size len b) := by
  have hcont := h.contiguous
  have h14 : kDefaultRingBufferSize < 2^16 := by decide
  have h6 : 6 ≤ len := Nat.lt_of_le_of_lt h5 hlt
  have hlen := shortPacket_length id size h6
  have hhead := shortPacket_head len hid (show size < 2^16 by omega) [b]
  refine ⟨⟨?_, ?_⟩, ?_, ?_⟩
  · rw [h.contents h6, List.length_append, List.length_singleton]
    show 5 ≤ _
    omega
  · rw [h.contents h6, hhead, List.length_append, List.length_singleton]
    show size ≤ _
    omega
  · rw [h.contents h6, hhead]
  · rw [probe_front]
    omega

/-- what a handler finds at the pointer -/
theorem Roomy.byteAt (h : Roomy p len s) (id size : Nat) (h6 : 6 ≤ len) (b : UInt8)
    (past : Nat → UInt8) {k : Nat} (hk : k < len) :
    (shortPacket id size len ++ [b])[k]?
      = some (((s.probe p id size len b).chat.bufs p).byteAt past ((s.chat.bufs p).front + k)) := by
  have hlen := shortPacket_length id size h6
  have hcont := h.contiguous
  have hin : k < ((s.probe p id size len b).chat.bufs p).getSizeInUse := by
    rw [← RingBuffer.contents_length, h.contents h6, List.length_append, List.length_singleton]
    omega
  have hbyte := RingBuffer.byteAt_front _ past hin (by rw [probe_front]; omega)
  rw [RingBuffer.getFrontBufferPtr_eq, probe_front, h.contents h6] at hbyte
  exact hbyte

/-- the last byte makes no difference but in the array -/
theorem probe_erased (s : Server) (p : Session) (id size len : Nat) (b b' : UInt8) :
    (s.probe p id size len b').erased = (s.probe p id size len b).erased := by
  have hlen : (shortPacket id size len ++ [b']).length = (shortPacket id size len ++ [b]).length := by
    rw [List.length_append, List.length_append]
    rfl
  have hself : RingBuffer.Aligned (s.chat.bufs p) (s.chat.bufs p) := ⟨rfl, rfl⟩
  have hal := hself.enqueue hlen
  have hring : ((s.chat.bufs p).enqueue (shortPacket id size len ++ [b'])).1.erased
      = ((s.chat.bufs p).enqueue (shortPacket id size len ++ [b])).1.erased := by
    unfold RingBuffer.erased
    rw [hal.1, hal.2]
  have hchat : (s.probe p id size len b').chat.erased = (s.probe p id size len b).chat.erased := by
    rw [probe_chat, probe_chat, Chat.erased_setUser, Chat.erased_setUser]
    exact congrArg (fun r => s.chat.erased.setUser p { s.chat.users.pool p with packetBuf := r }) hring
  have hrest : ∀ b, s.probe p id size len b
      = { s.pushIncoming (p : Nat) with chat := (s.probe p id size len b).chat } := by
    intro b
    unfold probe enqueuePacket
    rw [getUserByIndex_session]
    rfl
  rw [hrest b, hrest b']
  exact congrArg (fun c : Chat => ({ s.pushIncoming (p : Nat) with chat := c } : Server)) hchat

theorem Roomy.agree (h : Roomy p len s) (id : Nat) (h5 : packetHeaderLength ≤ size)
    (hlt : size < len) (b b' : UInt8) :
    AgreeOnPacket p size (s.probe p id size len b) (s.probe p id size len b') := by
  have h6 : 6 ≤ len := Nat.lt_of_le_of_lt h5 hlt
  have hlen := shortPacket_length id size h6
  refine ⟨probe_erased s p id size len b b', ?_, ?_⟩
  · intro q hq
    rw [probe_chat, probe_chat, Chat.bufs_setUser, Chat.bufs_setUser, Function.update_of_ne hq,
      Function.update_of_ne hq]
  · intro past k hk
    have hb := h.byteAt id size h6 b past (hk.trans hlt)
    have hb' := h.byteAt id size h6 b' past (hk.trans hlt)
    rw [List.getElem?_append_left (by omega)] at hb hb'
    rw [probe_front]
    exact Option.some.inj (hb'.symm.trans hb)

/-- what the handler finds at the pointer of the probe -/
def probeData (s : Server) (p : Session) (id size len : Nat) (b : UInt8) : Nat → UInt8 :=
  view (s.probe p id size len b).chat Mem.zero (.ring p (s.chat.bufs p).front)

/-- two probes that end up alike have the same answers and the same request for Redis -/
theorem Roomy.same {hd : Handler} (h : Roomy p len s) (h5 : packetHeaderLength ≤ size)
    (hlt : size < len) (hsmall : id < 2^16) (hid : packetHandlers id = some hd)
    (hfix : ∀ b, (s.probe p id size len b).chat.Fixed)
    (hout : (dispatchFront p (s.probe p id size len 1) Mem.zero).erased
      = (dispatchFront p (s.probe p id size len 0) Mem.zero).erased) :
    hd.sends (s.probe p id size len 1).chat Mem.zero p (s.probeData p id size len 1)
        = hd.sends (s.probe p id size len 0).chat Mem.zero p (s.probeData p id size len 0) ∧
      hd.request (s.probe p id size len 1).chat Mem.zero p (s.probeData p id size len 1)
        = hd.request (s.probe p id size len 0).chat Mem.zero p (s.probeData p id size len 0) := by
  have hfront := h.frontPacket h5 hlt hsmall
  have hagree := probe_erased s p id size len 0 1
  obtain ⟨hsent0, htask0⟩ := dispatchFront_chat (hfix 0) hid Mem.zero (hfront 0)
  obtain ⟨hsent1, htask1⟩ := dispatchFront_chat (hfix 1) hid Mem.zero (hfront 1)
  rw [probe_front] at hsent0 htask0 hsent1 htask1
  have hsent := congrArg (fun t : Server => t.chat.sent) hout
  have htask := congrArg (fun t : Server => t.chat.taskReqQueue) hout
  have hpre := congrArg (fun t : Server => t.chat.sent) hagree
  have hpre' := congrArg (fun t : Server => t.chat.taskReqQueue) hagree
  simp only [erased, Chat.erased_sent, Chat.erased_taskReqQueue] at hsent htask hpre hpre'
  rw [hsent0, hsent1, hpre] at hsent
  rw [htask0, htask1, hpre'] at htask
  exact ⟨List.append_cancel_left hsent, List.append_cancel_left htask⟩

theorem Roomy.data_last (h : Roomy p len s) (id size : Nat) (h6 : 6 ≤ len) (b : UInt8) :
    s.probeData p id size len b (len - 1) = b := by
  have hlen := shortPacket_length id size h6
  have hbyte := h.byteAt id size h6 b Mem.zero.past (show len - 1 < len by omega)
  have e : len - 1 = (shortPacket id size len).length := by omega
  rw [List.getElem?_append_right e.ge, e, Nat.sub_self] at hbyte
  rw [e]
  exact (Option.some.inj hbyte).symm

theorem Roomy.data_zero (h : Roomy p len s) (id size : Nat) (b : UInt8) {k : Nat} (h5 : 5 ≤ k)
    (hk : k < len - 1) : s.probeData p id size len b k = 0 := by
  have hlen := shortPacket_length id size (show 6 ≤ len by omega)
  have hbyte := h.byteAt id size (by omega) b Mem.zero.past (show k < len by omega)
  have hzero : (shortPacket id size len)[k]? = some 0 := by
    unfold shortPacket
    rw [List.getElem?_append_right h5, List.getElem?_replicate]
    exact if_pos (by show k - 5 < len - 6; omega)
  rw [List.getElem?_append_left (by omega), hzero] at hbyte
  exact (Option.some.inj hbyte).symm

theorem probe_user (b : UInt8) :
    ((s.probe p id size len b).chat.users.pool p).domainState = (s.chat.users.pool p).domainState ∧
      ((s.probe p id size len b).chat.users.pool p).roomIdx = (s.chat.users.pool p).roomIdx := by
  rw [probe_chat]
  show (Function.update s.chat.users.pool p _ p).domainState = _ ∧
    (Function.update s.chat.users.pool p _ p).roomIdx = _
  rw [Function.update_self]
  exact ⟨rfl, rfl⟩

theorem probe_roomList (b : UInt8) : (s.probe p id size len b).chat.roomList = s.chat.roomList := by
  rw [probe_chat]
  rfl

end

/-! ## the last byte of the struct -/

section
variable {c c' : Chat} {mem : Mem} {p : Session} {d d' : Nat → UInt8}

theorem login_last (hroom : c.users.getCurrentUserCnt < c.users.getMaxUserCnt)
    (hroom' : c'.users.getCurrentUserCnt < c'.users.getMaxUserCnt)
    (hfind : ∀ v, c.users.findUserIndexByID v = -1) (hfind' : ∀ v, c'.users.findUserIndexByID v = -1)
    (h : Handler.login.request c' mem p d' = Handler.login.request c mem p d) : d' 70 = d 70 := by
  unfold Handler.request at h
  simp only [if_neg (Int.not_le.mpr hroom), if_neg (Int.not_le.mpr hroom'), hfind, hfind', if_pos] at h
  have hdata := congrArg RedisTask.data (List.cons.inj h).1
  have hlast := congrArg (fun l => l[65]?) hdata
  exact Option.some.inj hlast

theorem enter_last {r : RoomPtr} (hstate : (c.users.pool p).domainState = .login)
    (hstate' : (c'.users.pool p).domainState = .login)
    (hnumber : getRoomByIdx (readRoomNumber d) = some r)
    (hnumber' : getRoomByIdx (readRoomNumber d') = none)
    (hfree : ¬ ((c.roomList r).userList.length : Int) ≥ (c.roomList r).maxUserCnt) :
    Handler.enterRoom.sends c' mem p d' ≠ Handler.enterRoom.sends c mem p d := by
  unfold Handler.sends
  rw [getUserByIndex_int32]
  simp only [hstate, hstate', hnumber, hnumber', if_neg hfree, ne_eq, not_true_eq_false, if_false]
  intro h
  have hlast := congrArg List.getLast? h
  rw [List.getLast?_concat] at hlast
  have hbody := congrArg (fun x : Sent => x.pkt.body) (Option.some.inj hlast)
  cases hbody

theorem chat_last {r : RoomPtr} (hstate : (c.users.pool p).domainState = .room)
    (hstate' : (c'.users.pool p).domainState = .room)
    (hidx : getRoomByIdx (c.users.pool p).roomIdx = some r)
    (hidx' : getRoomByIdx (c'.users.pool p).roomIdx = some r)
    {q : Session} {l l' : List Session} (hlist : (c.roomList r).userList = q :: l)
    (hlist' : (c'.roomList r).userList = q :: l')
    (h : Handler.roomChat.sends c' mem p d' = Handler.roomChat.sends c mem p d) : d' 261 = d 261 := by
  unfold Handler.sends at h
  rw [getUserByIndex_int32] at h
  simp only [hstate, hstate', hidx, hidx', hlist, hlist', ne_eq, not_true_eq_false, if_false] at h
  have hfirst := (List.cons.inj (List.cons.inj h).2).1
  have hmsg := (Body.roomChatNotify.inj (congrArg (fun x : Sent => x.pkt.body) hfirst)).2
  have hlast := congrArg (fun l : List UInt8 => l[256]?) hmsg
  exact Option.some.inj hlast

end

/-! ## the claim of locality -/

/-- in the states of `S`, the dispatch of a front packet of this id and size depends on nothing that
stands behind the packet in the ring array -/
def Local (S : Server → Prop) (id size : Nat) : Prop :=
  ∀ s s', S s → S s' → ∀ p mem, FrontPacket p id size s → AgreeOnPacket p size s s' →
    (dispatchFront p s' mem).erased = (dispatchFront p s mem).erased

def Reachable (s : Server) : Prop :=
  ∃ redisGet heap as, s = run (step redisGet) (start heap) as

/-- `sizeof` of the request struct of the id -/
def requestLength (id : Nat) : Nat := ((packetHandlers id).map Chat.readLength).getD 0

example : requestIds.map requestLength = [71, 9, 5, 262] := by decide

/-- a run after which the handler comes to the end of its struct -/
def ready : Handler → List Action
  | .enterRoom => Action.enterLobby 0 [97] [112]
  | .roomChat => enterRoom3
  | _ => []

def readyState (hd : Handler) : Server := run (step fun _ => some [112]) (start fun _ _ => 0) (ready hd)

section
variable {hd : Handler} {id size : Nat}

theorem probe_reachable (hd : Handler) (id size len : Nat) (b : UInt8) :
    Reachable ((readyState hd).probe 0 id size len b) := by
  refine ⟨fun _ => some [112], fun _ _ => 0,
    ready hd ++ Action.receive 0 (shortPacket id size len ++ [b]), ?_⟩
  rw [run_append, receive_steps]
  rfl

theorem Reachable.fixed {s : Server} (h : Reachable s) : s.chat.Fixed := by
  obtain ⟨redisGet, heap, as, rfl⟩ := h
  exact (run_sound redisGet heap as).fixed

theorem ready_roomy (hreq : Chat.IsRequest hd) : Roomy 0 (Chat.readLength hd) (readyState hd) := by
  rcases hreq with rfl | rfl | rfl | rfl
  · exact ⟨by decide +kernel, by decide +kernel⟩
  · exact ⟨by decide +kernel, by decide +kernel⟩
  · exact ⟨by decide +kernel, by decide +kernel⟩
  · exact ⟨by decide +kernel, by decide +kernel⟩

theorem request_handler (h : id ∈ requestIds) :
    ∃ hd, packetHandlers id = some hd ∧ Chat.IsRequest hd ∧ id < 2^16 := by
  simp only [requestIds, List.mem_cons, List.not_mem_nil, or_false] at h
  rcases h with rfl | rfl | rfl | rfl
  · exact ⟨.login, rfl, .inl rfl, by decide⟩
  · exact ⟨.enterRoom, rfl, .inr (.inl rfl), by decide⟩
  · exact ⟨.leaveRoom, rfl, .inr (.inr (.inl rfl)), by decide⟩
  · exact ⟨.roomChat, rfl, .inr (.inr (.inr rfl)), by decide⟩

theorem one_ne_zero {f : UInt8 → UInt8} (hlast : ∀ b, f b = b) : f 1 ≠ f 0 := by
  rw [hlast, hlast]
  decide

/-- the last byte of the password goes to Redis -/
theorem login_differs (id size : Nat) :
    Handler.login.request ((readyState .login).probe 0 id size 71 1).chat Mem.zero (0 : Session)
        ((readyState .login).probeData 0 id size 71 1)
      ≠ Handler.login.request ((readyState .login).probe 0 id size 71 0).chat Mem.zero (0 : Session)
        ((readyState .login).probeData 0 id size 71 0) := by
  have hroom : ∀ b, ((readyState .login).probe 0 id size 71 b).chat.users.getCurrentUserCnt
      < ((readyState .login).probe 0 id size 71 b).chat.users.getMaxUserCnt := by
    intro b
    rw [probe_chat]
    show (0 : Int) < kMaxUserCnt
    decide
  have hfind : ∀ b v,
      ((readyState .login).probe 0 id size 71 b).chat.users.findUserIndexByID v = -1 := by
    intro b v
    rw [probe_chat]
    rfl
  have hlast := (ready_roomy (.inl rfl)).data_last id size (by decide)
  intro h
  exact one_ne_zero hlast (login_last (hroom 0) (hroom 1) (hfind 0) (hfind 1) h)

/-- the high byte of the room number stands last -/
theorem enter_differs (id size : Nat) :
    Handler.enterRoom.sends ((readyState .enterRoom).probe 0 id size 9 1).chat Mem.zero (0 : Session)
        ((readyState .enterRoom).probeData 0 id size 9 1)
      ≠ Handler.enterRoom.sends ((readyState .enterRoom).probe 0 id size 9 0).chat Mem.zero
        (0 : Session) ((readyState .enterRoom).probeData 0 id size 9 0) := by
  have hroomy : Roomy 0 9 (readyState .enterRoom) := ready_roomy (.inr (.inl rfl))
  have hstate : ∀ b, (((readyState .enterRoom).probe 0 id size 9 b).chat.users.pool 0).domainState
      = .login := fun b => (probe_user b).1.trans (by decide +kernel)
  have hnumber : ∀ b, readRoomNumber ((readyState .enterRoom).probeData 0 id size 9 b)
      = le32 0 0 0 b := by
    intro b
    have hzero : ∀ k, 5 ≤ k → k < 8 → (readyState .enterRoom).probeData 0 id size 9 b k = 0 :=
      fun k h5 hk => hroomy.data_zero id size b h5 hk
    have hlast : (readyState .enterRoom).probeData 0 id size 9 b 8 = b :=
      hroomy.data_last id size (by decide) b
    unfold readRoomNumber
    rw [hzero 5 (by decide) (by decide), hzero 6 (by decide) (by decide),
      hzero 7 (by decide) (by decide), hlast]
  refine enter_last (hstate 0) (hstate 1) (r := 0) ?_ ?_ ?_
  · rw [hnumber]
    decide
  · rw [hnumber]
    decide
  · rw [probe_roomList]
    decide +kernel

/-- the last byte of the message goes to the room -/
theorem chat_differs (id size : Nat) :
    Handler.roomChat.sends ((readyState .roomChat).probe 0 id size 262 1).chat Mem.zero (0 : Session)
        ((readyState .roomChat).probeData 0 id size 262 1)
      ≠ Handler.roomChat.sends ((readyState .roomChat).probe 0 id size 262 0).chat Mem.zero
        (0 : Session) ((readyState .roomChat).probeData 0 id size 262 0) := by
  have hstate : ∀ b, (((readyState .roomChat).probe 0 id size 262 b).chat.users.pool 0).domainState
      = .room := fun b => (probe_user b).1.trans (by decide +kernel)
  have hidx : ∀ b,
      getRoomByIdx (((readyState .roomChat).probe 0 id size 262 b).chat.users.pool 0).roomIdx = some 3 :=
    fun b => (congrArg getRoomByIdx (probe_user b).2).trans (by decide +kernel)
  have hlist : ∀ b,
      (((readyState .roomChat).probe 0 id size 262 b).chat.roomList 3).userList = [0] := by
    intro b
    rw [probe_roomList]
    decide +kernel
  have hlast := (ready_roomy (.inr (.inr (.inr rfl)))).data_last id size (by decide)
  intro h
  exact one_ne_zero hlast
    (chat_last (hstate 0) (hstate 1) (hidx 0) (hidx 1) (hlist 0) (hlist 1) h)

/-- **A packet that is too short is dispatched by what stands behind it.** -/
theorem short_not_local (hid : packetHandlers id = some hd) (hreq : Chat.IsRequest hd)
    (hsmall : id < 2^16) (h5 : packetHeaderLength ≤ size) (hlt : size < Chat.readLength hd) :
    ¬ Local Reachable id size := by
  intro h
  have hroomy := ready_roomy hreq
  have hreach := probe_reachable hd id size (Chat.readLength hd)
  have hout := h _ _ (hreach 0) (hreach 1) 0 Mem.zero (hroomy.frontPacket h5 hlt hsmall 0)
    (hroomy.agree id h5 hlt 0 1)
  obtain ⟨hsends, hrequest⟩ := hroomy.same h5 hlt hsmall hid (fun b => (hreach b).fixed) hout
  rcases hreq with rfl | rfl | rfl | rfl
  · exact login_differs id size hrequest
  · exact enter_differs id size hsends
  · exact absurd hlt (Nat.not_lt.mpr h5)
  · exact chat_differs id size hsends

end

/-- **A request depends on its own packet only, exactly if the packet is as long as the struct.**  In
all states, and in the reachable ones. -/
theorem locality_iff {id size : Nat} (hid : id ∈ requestIds) (h5 : packetHeaderLength ≤ size) :
    (Local (fun _ => True) id size ↔ requestLength id ≤ size) ∧
      (Local Reachable id size ↔ requestLength id ≤ size) := by
  obtain ⟨hd, hhd, hreq, hsmall⟩ := request_handler hid
  have hlength : requestLength id = Chat.readLength hd := by
    unfold requestLength
    rw [hhd]
    rfl
  rw [hlength]
  have hlocal : Chat.readLength hd ≤ size → Local (fun _ => True) id size :=
    fun hlen s s' _ _ p mem h ha => dispatch_local hhd hreq hlen h5 mem h ha
  have hsub : Local (fun _ => True) id size → Local Reachable id size :=
    fun h s s' _ _ => h s s' trivial trivial
  have hlong : Local Reachable id size → Chat.readLength hd ≤ size :=
    fun h => Nat.not_lt.mp fun hlt => short_not_local hhd hreq hsmall h5 hlt h
  exact ⟨⟨fun h => hlong (hsub h), hlocal⟩, ⟨hlong, fun h => hsub (hlocal h)⟩⟩

theorem locality_iff_enter :
    206 ∈ requestIds ∧ (Local (fun _ => True) 206 9 ↔ requestLength 206 ≤ 9) ∧
      (Local Reachable 206 9 ↔ requestLength 206 ≤ 9) :=
  ⟨by decide, locality_iff (by decide) (by decide)⟩

/-- user 0 logs in and sends the header of an enter request as a packet of its own; four bytes come
after it -/
def shortEnter (b : UInt8) : List Action :=
  Action.enterLobby 0 [97] [112] ++ Action.receive 0 [5, 0, 206, 0, 0, 0, 0, 0, b]

/-- the bytes after the packet decide between room 0 and no room -/
theorem short_enter_reads_on :
    FrontPacket 0 206 5 (run (step fun _ => some [112]) (start fun _ _ => 0) (shortEnter 0)) ∧
    AgreeOnPacket 0 5 (run (step fun _ => some [112]) (start fun _ _ => 0) (shortEnter 0))
      (run (step fun _ => some [112]) (start fun _ _ => 0) (shortEnter 1)) ∧
    ((dispatchFront 0 (run (step fun _ => some [112]) (start fun _ _ => 0) (shortEnter 0))
      Mem.zero).chat.users.pool 0).roomIdx = 0 ∧
    ((dispatchFront 0 (run (step fun _ => some [112]) (start fun _ _ => 0) (shortEnter 1))
      Mem.zero).chat.users.pool 0).roomIdx = -1 ∧
    ¬ Local Reachable 206 5 := by
  have hroomy : Roomy 0 9 (readyState .enterRoom) := ready_roomy (.inr (.inl rfl))
  have hrun : ∀ b, run (step fun _ => some [112]) (start fun _ _ => 0) (shortEnter b)
      = (readyState .enterRoom).probe 0 206 5 9 b := by
    intro b
    unfold shortEnter
    rw [run_append, receive_steps]
    rfl
  have hfront := hroomy.frontPacket (Nat.le_refl 5) (by decide) (show 206 < 2^16 by decide) 0
  have hagree := hroomy.agree 206 (Nat.le_refl 5) (by decide) 0 1
  have hdiffer : ∀ t t' : Server, (t.chat.users.pool 0).roomIdx = 0 →
      (t'.chat.users.pool 0).roomIdx = -1 → t'.erased ≠ t.erased := by
    intro t t' ht ht' e
    have hroom := congrArg (fun u : Server => (u.chat.users.pool 0).roomIdx) e
    have hroom' : (-1 : Int) = 0 := ht'.symm.trans (hroom.trans ht)
    exact absurd hroom' (by decide)
  have h0 : ((dispatchFront 0 (run (step fun _ => some [112]) (start fun _ _ => 0) (shortEnter 0))
      Mem.zero).chat.users.pool 0).roomIdx = 0 := by decide +kernel
  have h1 : ((dispatchFront 0 (run (step fun _ => some [112]) (start fun _ _ => 0) (shortEnter 1))
      Mem.zero).chat.users.pool 0).roomIdx = -1 := by decide +kernel
  rw [← hrun] at hfront
  rw [← hrun, ← hrun] at hagree
  have hreach : ∀ b, Reachable (run (step fun _ => some [112]) (start fun _ _ => 0) (shortEnter b)) :=
    fun b => ⟨fun _ => some [112], fun _ _ => 0, shortEnter b, rfl⟩
  refine ⟨hfront, hagree, h0, h1, fun hlocal => ?_⟩
  exact hdiffer _ _ h0 h1 (hlocal _ _ (hreach 0) (hreach 1) 0 Mem.zero hfront hagree)

end Server

end Iocp
