import IocpChatting.Content.Steps

/-!
# Bytes into the inbound buffer and packets out of it

* `getPacketData_eq`       `GetPacketData` in terms of the bytes in the ring;
* `payload_intact_iff`     the memory behind `data_` is the packet exactly if the packet does not
                           reach the end of the array;
* `enqueue_whole_iff`      `EnqueuePacket` takes a chunk as a whole, or refuses it, exactly if the
                           index is not in the pool or the chunk fits;
* `receive_steps`, `process_steps`   the steps of the threads, put together, are `EnqueuePacket` and
                           `ProcessPacket`.
-/

set_option linter.unusedSectionVars false
set_option autoImplicit false

namespace Iocp
open Runs
open UserManager (getUserByIndex)

namespace User

def header (u : User) : PacketHeader := PacketHeader.ofBytes (u.packetBuf.contents.take packetHeaderLength)

/-- the ring holds a header and as many bytes as it announces -/
def HasPacket (u : User) : Prop :=
  packetHeaderLength ≤ u.packetBuf.contents.length ∧ u.header.size ≤ u.packetBuf.contents.length

instance (u : User) : Decidable u.HasPacket := inferInstanceAs (Decidable (_ ∧ _))

theorem getPacketData_eq (u : User) (p : Session) :
    u.getPacketData p =
      if u.HasPacket then
        some ⟨uint32 u.sessionIdx, u.header.id, u.header.size, .ring p u.packetBuf.front⟩
      else none := by
  have hpeek := u.packetBuf.peek_eq packetHeaderLength
  have hlen : u.packetBuf.getSizeInUse = u.packetBuf.contents.length := (u.packetBuf.contents_length).symm
  unfold getPacketData
  simp only [hpeek, hlen, RingBuffer.getFrontBufferPtr_eq, List.length_take]
  by_cases h5 : packetHeaderLength ≤ u.packetBuf.contents.length
  · rw [if_neg (by omega)]
    by_cases hs : u.header.size ≤ u.packetBuf.contents.length
    · have hp : u.HasPacket := ⟨h5, hs⟩
      rw [if_pos hp]
      exact if_pos hs
    · have hp : ¬ u.HasPacket := fun h => hs h.2
      rw [if_neg hp]
      exact if_neg hs
  · rw [if_pos (by omega), if_neg (fun h => h5 h.1)]

/-! ## the payload of a packet -/

/-- the `size_` bytes at `data_` lie in the array and are the first `size_` bytes in the ring -/
def PayloadIntact (u : User) (p : Session) (pkt : PacketInfo) : Prop :=
  ∃ off, pkt.data = .ring p off ∧ off + pkt.size ≤ kDefaultRingBufferSize ∧
    ∀ past, field (u.packetBuf.byteAt past) off pkt.size = u.packetBuf.peek pkt.size

/-- reading through the pointer is peeking, as long as the array lasts -/
theorem field_eq_peek (r : RingBuffer UInt8 kDefaultRingBufferSize) (past : Nat → UInt8) {size : Nat}
    (hs : size ≤ r.contents.length) (h : r.front + size ≤ kDefaultRingBufferSize) :
    field (r.byteAt past) r.front size = r.peek size := by
  rw [r.peek_eq]
  apply List.ext_getElem?
  intro k
  by_cases hk : k < size
  · have hin : k < r.getSizeInUse := by
      rw [← r.contents_length]
      omega
    have hb := r.byteAt_front past hin (by omega)
    rw [r.getFrontBufferPtr_eq] at hb
    rw [List.getElem?_take_of_lt hk, hb, field, List.getElem?_map, List.getElem?_range hk]
    rfl
  · rw [List.getElem?_eq_none (by simpa using hk),
      List.getElem?_eq_none (by rw [List.length_take]; omega)]

/-- **The payload is intact exactly if the packet ends inside the array.** -/
theorem payload_intact_iff (u : User) (p : Session) (pkt : PacketInfo)
    (h : u.getPacketData p = some pkt) :
    u.PayloadIntact p pkt ↔ u.packetBuf.front + pkt.size ≤ kDefaultRingBufferSize := by
  rw [getPacketData_eq] at h
  split at h
  · next hp =>
    have e := Option.some.inj h
    subst e
    constructor
    · rintro ⟨off, hoff, hin, _⟩
      cases hoff
      exact hin
    · intro hin
      exact ⟨u.packetBuf.front, rfl, hin, fun past => field_eq_peek _ past hp.2 hin⟩
  · cases h

theorem payload_intact_first :
    ((init (fun _ => 0) 0).enqueuePacketData roomLeavePacket).1.PayloadIntact 0
      ⟨0, 215, 5, .ring 0 0⟩ :=
  (payload_intact_iff _ 0 _ (by decide +kernel)).mpr (by decide +kernel)

theorem enqueuePacketData_contents (u : User) {data : List UInt8}
    (h : u.packetBuf.contents.length + data.length < kDefaultRingBufferSize) :
    (u.enqueuePacketData data).1.packetBuf.contents = u.packetBuf.contents ++ data := by
  have hsum := u.packetBuf.inUse_add_free
  rw [← u.packetBuf.contents_length] at hsum
  show (u.packetBuf.enqueue data).1.contents = _
  rw [RingBuffer.enqueue_contents, List.take_of_length_le (by omega)]

/-- user 0 after the bytes `big` have come -/
def nearArrayEnd (big : List UInt8) : User := ((init (fun _ => 0) 0).enqueuePacketData big).1

/-- they have been processed as one packet, and a request to leave the room, five bytes, has come -/
def atArrayEnd (big : List UInt8) : User :=
  (((nearArrayEnd big).completeProcess big.length).1.enqueuePacketData roomLeavePacket).1

theorem nearArrayEnd_contents {big : List UInt8} (h : big.length = 16380) :
    (nearArrayEnd big).packetBuf.contents = big := by
  have h0 : (init (fun _ => 0) 0).packetBuf.contents = [] := RingBuffer.init_contents _ _
  unfold nearArrayEnd
  rw [enqueuePacketData_contents _ (by rw [h0, h]; decide), h0]
  rfl

theorem atArrayEnd_contents {big : List UInt8} (h : big.length = 16380) :
    (atArrayEnd big).packetBuf.contents = roomLeavePacket := by
  have hin : big.length ≤ (nearArrayEnd big).packetBuf.getSizeInUse := by
    rw [← RingBuffer.contents_length, nearArrayEnd_contents h]
  have h0 : ((nearArrayEnd big).completeProcess big.length).1.packetBuf.contents = [] := by
    show ((nearArrayEnd big).packetBuf.moveFront big.length).contents = []
    rw [RingBuffer.moveFront_contents _ hin, nearArrayEnd_contents h]
    exact List.drop_of_length_le (Nat.le_refl _)
  unfold atArrayEnd
  rw [enqueuePacketData_contents _ (by rw [h0]; decide), h0]
  rfl

theorem atArrayEnd_front {big : List UInt8} (h : big.length = 16380) :
    ((atArrayEnd big).packetBuf.front : Nat) = 16380 := by
  show (((nearArrayEnd big).packetBuf.moveFront big.length).enqueue roomLeavePacket).1.front.val = _
  rw [RingBuffer.enqueue_front]
  show ((nearArrayEnd big).packetBuf.front.val + big.length) % kDefaultRingBufferSize = 16380
  have h0 : (nearArrayEnd big).packetBuf.front = (init (fun _ => 0) 0).packetBuf.front := by
    show ((init (fun _ => 0) 0).packetBuf.enqueue big).1.front = _
    rw [RingBuffer.enqueue_front]
  rw [h0, h]
  rfl

theorem atArrayEnd_getPacketData {big : List UInt8} (h : big.length = 16380) :
    (atArrayEnd big).getPacketData 0 = some ⟨0, 215, 5, .ring 0 16380⟩ := by
  have hhead : (atArrayEnd big).header = ⟨5, 215, 0⟩ := by
    unfold header
    rw [atArrayEnd_contents h]
    decide
  have hp : (atArrayEnd big).HasPacket := by
    unfold HasPacket
    rw [hhead, atArrayEnd_contents h]
    decide
  rw [getPacketData_eq, if_pos hp, hhead, atArrayEnd_front h]
  rfl

/-- the last byte of the packet is at the start of the array, behind the pointer there is none -/
theorem payload_leaves_array :
    ∃ pkt, (atArrayEnd (clientPacket 215 (List.replicate 16375 0))).getPacketData 0 = some pkt ∧
      ¬ (atArrayEnd (clientPacket 215 (List.replicate 16375 0))).PayloadIntact 0 pkt := by
  have hlen : (clientPacket 215 (List.replicate 16375 0)).length = 16380 := by
    rw [clientPacket_length, List.length_replicate]
  refine ⟨_, atArrayEnd_getPacketData hlen, ?_⟩
  rintro ⟨off, hoff, hin, _⟩
  cases hoff
  exact absurd hin (by decide)

end User

namespace Server

/-! ## chunks -/

/-- all bytes of the chunk are appended, or the buffers stay as they are and the call fails -/
def TakesWhole (s : Server) (sessionIndex : Int) (data : List UInt8) : Prop :=
  (∃ p, getUserByIndex sessionIndex = some p ∧
      ((s.enqueuePacket sessionIndex data).1.chat.users.pool p).packetBuf.contents
        = (s.chat.users.pool p).packetBuf.contents ++ data) ∨
    ((∀ p, ((s.enqueuePacket sessionIndex data).1.chat.users.pool p).packetBuf.contents
        = (s.chat.users.pool p).packetBuf.contents) ∧ (s.enqueuePacket sessionIndex data).2 = false)

theorem enqueuePacket_contents {s : Server} {i : Int} {p : Session} (hp : getUserByIndex i = some p)
    (data : List UInt8) :
    ((s.enqueuePacket i data).1.chat.users.pool p).packetBuf.contents
      = (s.chat.users.pool p).packetBuf.contents
        ++ data.take (s.chat.users.pool p).packetBuf.getFreeSize := by
  unfold enqueuePacket
  rw [hp]
  show (Function.update s.chat.users.pool p _ p).packetBuf.contents = _
  rw [Function.update_self]
  exact RingBuffer.enqueue_contents _ _

/-- **A chunk is taken whole or refused exactly if the index is not in the pool or the chunk
fits.** -/
theorem enqueue_whole_iff (s : Server) (i : Int) (data : List UInt8) :
    s.TakesWhole i data ↔
      ∀ p, getUserByIndex i = some p → data.length ≤ (s.chat.users.pool p).packetBuf.getFreeSize := by
  constructor
  · rintro (⟨p, hp, hc⟩ | ⟨_, hf⟩) q hq
    · rw [hp] at hq
      cases hq
      rw [enqueuePacket_contents hp data] at hc
      have := congrArg List.length (List.append_cancel_left hc)
      rw [List.length_take] at this
      omega
    · unfold enqueuePacket at hf
      rw [hq] at hf
      cases hf
  · intro h
    cases hp : getUserByIndex i with
    | none =>
      have e : s.enqueuePacket i data = (s, false) := by
        unfold enqueuePacket
        rw [hp]
      right
      rw [e]
      exact ⟨fun _ => rfl, rfl⟩
    | some p =>
      left
      refine ⟨p, hp, ?_⟩
      rw [enqueuePacket_contents hp data, List.take_of_length_le (h p hp)]

/-- a full receive buffer at once, into an empty ring: the last byte is lost, the call succeeds -/
theorem full_chunk_truncated :
    ¬ (start fun _ _ => 0).TakesWhole 0 (List.replicate kSessionRecvBufSize 0) := by
  rintro (⟨p, hp, hc⟩ | ⟨_, hf⟩)
  · rw [enqueuePacket_contents hp] at hc
    have hlen := congrArg List.length (List.append_cancel_left hc)
    have hfree := ((start fun _ _ => 0).chat.users.pool p).packetBuf.inUse_add_free
    rw [List.length_take, List.length_replicate] at hlen
    have hle : kDefaultRingBufferSize ≤
        ((start fun _ _ => 0).chat.users.pool p).packetBuf.getFreeSize :=
      hlen.symm.le.trans (Nat.min_le_left _ _)
    have hpos : 0 < kDefaultRingBufferSize := by decide
    omega
  · cases hf

/-! ## the statements of a thread, put together -/

section
variable (redisGet : CStr → Option (List UInt8))

theorem receive_steps (s : Server) (i : Session) (data : List UInt8) :
    run (step redisGet) s (Action.receive i data) = (s.enqueuePacket (i : Nat) data).1 := by
  have hi : i ∈ i :: s.storing := List.mem_cons_self
  unfold enqueuePacket
  rw [getUserByIndex_session]
  show (if i ∈ i :: s.storing then _ else _) = _
  rw [if_pos hi]
  show ({ (s.storePacket i data).pushIncoming (i : Nat) with storing := (i :: s.storing).erase i } : Server) = _
  rw [List.erase_cons_head]
  rfl

/-- `ProcessPacket(pkt, true)`, if nobody else steps in between -/
theorem process_steps {s : Server} {mem : Mem} {pkt : PacketInfo} (hpc : s.pc = .processPacket pkt) :
    ∃ n, run (step redisGet) s (List.replicate n (.loop mem))
      = { (s.processUserPacket mem pkt).1 with pc := .dequeueSystemPacket } := by
  unfold processUserPacket
  cases hh : s.handle mem pkt with
  | none =>
    refine ⟨1, ?_⟩
    show s.loopStep mem = _
    unfold loopStep
    rw [hpc]
    simp only [hh]
  | some s₁ =>
    have h1 : s.loopStep mem = { s₁ with pc := .completeProcess pkt } := by
      unfold loopStep
      rw [hpc]
      simp only [hh]
    by_cases hdone : (s₁.chat.users.completeProcess pkt.sessionIndex pkt.size).2 = false
    · refine ⟨3, ?_⟩
      show ((s.loopStep mem).loopStep mem).loopStep mem = _
      rw [h1]
      simp only [loopStep, hdone, if_true]
      rfl
    · refine ⟨2, ?_⟩
      show (s.loopStep mem).loopStep mem = _
      rw [h1]
      simp only [loopStep, if_neg hdone]

end

end Server

end Iocp
