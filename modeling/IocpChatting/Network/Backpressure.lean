import IocpChatting.Content.Outgoing
import IocpChatting.Network.SendPath

/-!
# Packets in the send ring

`Enqueue` stores as much as there is room for, and `SendPacket` drops its result.

* `FromHandler`        what `SendPacket` is called with: the bytes of a packed struct;
* `stored`             what a step puts into the send ring;
* `Framed`             the bytes put into the ring are packets that have been sent, whole and in order;
* `framed_run_iff`     they are exactly as long as `FitsOrFull` holds of every step;
* `torn_packet`        and a client that does not read, among others who chat.
-/

set_option linter.unusedSectionVars false
set_option autoImplicit false

namespace Iocp
open Runs

namespace Network

variable {W : Nat} {s : Network W} {i : SessionIdx}

/-! ## what is put in -/

/-- a call of `SendPacket` by a packet handler -/
def Action.FromHandler : Action W → Prop
  | .sendPacket _ data => ∃ p : Packet, p.Packed ∧ data = p.bytes
  | _ => True

/-- what the handlers send in a run of the server is such a call -/
theorem fromHandler_sent (redisGet : CStr → Option (List UInt8))
    (heap : Iocp.Session → Fin kDefaultRingBufferSize → UInt8) (as : List Server.Action) :
    ∀ k ∈ (run (Server.step redisGet) (Server.start heap) as).chat.sent,
      Action.FromHandler (W := W) (.sendPacket (int32 k.idx) k.pkt.bytes) :=
  fun k hk => ⟨k.pkt, Server.sent_packed redisGet heap as k hk, rfl⟩

/-- what a step puts into the send ring of `i` -/
def stored (s : Network W) (i : SessionIdx) : Action W → List UInt8
  | .sendPacket idx data =>
    ((step s (.sendPacket idx data)).session i).sendBuf.contents.drop (s.session i).sendBuf.getSizeInUse
  | _ => []

/-- **The condition.**  The ring has room for the whole packet, or for nothing. -/
def FitsOrFull (i : SessionIdx) (s : Network W) (a : Action W) : Prop :=
  (s.enqueued i a).length ≤ (s.session i).sendBuf.getFreeSize ∨ (s.session i).sendBuf.getFreeSize = 0

instance (i : SessionIdx) (s : Network W) (a : Action W) : Decidable (FitsOrFull i s a) :=
  inferInstanceAs (Decidable (_ ∨ _))

theorem step_sendPacket_contents (idx : Int) (data : List UInt8) :
    ((step s (.sendPacket idx data)).session i).sendBuf.contents = (s.session i).sendBuf.contents
      ++ (s.enqueued i (.sendPacket idx data)).take (s.session i).sendBuf.getFreeSize := by
  cases hc : s.crashed with
  | true =>
    have henq : s.enqueued i (.sendPacket idx data) = [] := by simp [enqueued, hc]
    rw [step_crashed hc, henq, List.take_nil, List.append_nil]
  | false =>
    rw [step_sendPacket hc]
    exact sendPacket_contents hc idx data

theorem stored_eq (a : Action W) :
    s.stored i a = (s.enqueued i a).take (s.session i).sendBuf.getFreeSize := by
  cases a with
  | sendPacket idx data =>
    show List.drop _ _ = _
    rw [step_sendPacket_contents, ← RingBuffer.contents_length, List.drop_left]
  | _ => exact List.take_nil.symm

theorem stored_fits {a : Action W} (h : (s.enqueued i a).length ≤ (s.session i).sendBuf.getFreeSize) :
    s.stored i a = s.enqueued i a := by
  rw [stored_eq]
  exact List.take_of_length_le h

theorem stored_full {a : Action W} (h : (s.session i).sendBuf.getFreeSize = 0) : s.stored i a = [] := by
  rw [stored_eq, h]
  exact List.take_zero

/-- a packet that neither fits nor meets a full ring is torn -/
theorem stored_part {a : Action W} (h : ¬ FitsOrFull i s a) :
    s.stored i a ≠ [] ∧ s.stored i a <+: s.enqueued i a ∧
      (s.stored i a).length < (s.enqueued i a).length := by
  obtain ⟨hlong, hroom⟩ := not_or.mp h
  have hlen : (s.stored i a).length = (s.session i).sendBuf.getFreeSize := by
    rw [stored_eq, List.length_take]
    omega
  refine ⟨?_, ?_, ?_⟩
  · exact List.ne_nil_of_length_pos (by omega)
  · rw [stored_eq]
    exact List.take_prefix _ _
  · omega

theorem stored_whole_iff (a : Action W) :
    (s.stored i a = [] ∨ s.stored i a = s.enqueued i a) ↔ FitsOrFull i s a := by
  constructor
  · intro h
    by_contra hpart
    obtain ⟨hne, _, hlt⟩ := stored_part hpart
    rcases h with h | h
    · exact hne h
    · rw [h] at hlt
      exact Nat.lt_irrefl _ hlt
  · rintro (h | h)
    · exact .inr (stored_fits h)
    · exact .inl (stored_full h)

theorem enqueued_frame {a : Action W} (h : a.FromHandler) :
    s.enqueued i a = [] ∨ packetFormat.IsFrame (s.enqueued i a) := by
  cases a with
  | sendPacket idx data =>
    obtain ⟨p, hp, rfl⟩ := h
    by_cases hi : s.crashed = false ∧ getSessionByIdx idx = some i ∧ s.sendLocked i = false
    · rw [enqueued_now hi.1 hi.2.1 hi.2.2]
      exact .inr hp.isFrame
    · exact .inl (if_neg hi)
  | _ => exact .inl rfl

/-! ## histories -/

/-- the bytes put into the send ring of `i` -/
def stream (i : SessionIdx) (h : History W) : List UInt8 := h.flatMap fun x => x.1.stored i x.2

/-- the packets that `SendPacket` has been called with for `i` -/
def sentPackets (i : SessionIdx) (h : History W) : List (List UInt8) :=
  (h.map fun x => x.1.enqueued i x.2).filter (· ≠ [])

/-- splitting the stream by the `size_` of each header leaves nothing over, and gives packets that have
been sent, in order -/
structure Framed (i : SessionIdx) (h : History W) : Prop where
  whole : (packetFormat.split (stream i h)).flatten = stream i h
  sent : List.Sublist (packetFormat.split (stream i h)) (sentPackets i h)

theorem stream_snoc (h : History W) (s : Network W) (a : Action W) :
    stream i (h ++ [(s, a)]) = stream i h ++ s.stored i a := by
  simp [stream]

theorem sentPackets_snoc (h : History W) (s : Network W) (a : Action W) :
    sentPackets i (h ++ [(s, a)]) = sentPackets i h ++ [s.enqueued i a].filter (· ≠ []) := by
  simp [sentPackets]

theorem framed_nil : Framed (W := W) i [] where
  whole := by
    show (packetFormat.split []).flatten = []
    rw [Framing.Format.split_of_not_complete Framing.Format.not_complete_nil]
    rfl
  sent := by
    show List.Sublist (packetFormat.split []) []
    rw [Framing.Format.split_of_not_complete Framing.Format.not_complete_nil]

/-- **The step.**  After whole packets the next one leaves whole packets exactly if it is stored whole or
not at all. -/
theorem framed_snoc {h : History W} (hframes : ∀ p ∈ sentPackets i h, packetFormat.IsFrame p)
    (hf : Framed i h) {a : Action W} (ha : a.FromHandler) :
    Framed i (h ++ [(s, a)]) ↔ FitsOrFull i s a := by
  have hps : ∀ p ∈ packetFormat.split (stream i h), packetFormat.IsFrame p :=
    fun p hp => hframes p (hf.sent.subset hp)
  have hsplit : packetFormat.split (stream i (h ++ [(s, a)])) =
      packetFormat.split (stream i h) ++ packetFormat.split (s.stored i a) := by
    have e := Framing.Format.split_flatten hps (s.stored i a)
    rwa [hf.whole, ← stream_snoc] at e
  have hnothing : s.stored i a = [] → Framed i (h ++ [(s, a)]) := by
    intro hnone
    rw [hnone, Framing.Format.split_of_not_complete Framing.Format.not_complete_nil,
      List.append_nil] at hsplit
    have hstream : stream i (h ++ [(s, a)]) = stream i h := by
      rw [stream_snoc, hnone, List.append_nil]
    refine ⟨?_, ?_⟩
    · rw [hsplit, hstream]
      exact hf.whole
    · rw [hsplit, sentPackets_snoc]
      exact hf.sent.trans (List.sublist_append_left _ _)
  constructor
  · intro hf'
    by_contra hpart
    obtain ⟨hne, hprefix, hlt⟩ := stored_part hpart
    -- the part of the packet is left over
    have hframe : packetFormat.IsFrame (s.enqueued i a) := by
      rcases enqueued_frame (s := s) (i := i) ha with henq | hframe
      · rw [henq] at hlt
        exact absurd hlt (Nat.not_lt_zero _)
      · exact hframe
    have hwhole := hf'.whole
    rw [hsplit, Framing.Format.split_of_not_complete (hframe.not_complete hprefix hlt), List.append_nil,
      hf.whole, stream_snoc] at hwhole
    exact hne (List.self_eq_append_right.mp hwhole)
  · rintro (hfits | hfull)
    · have hstored := stored_fits hfits
      rcases enqueued_frame (s := s) (i := i) ha with henq | hframe
      · exact hnothing (hstored.trans henq)
      · have hone : packetFormat.split (s.enqueued i a) = [s.enqueued i a] := by
          have e := Framing.Format.split_frame hframe []
          rwa [List.append_nil, Framing.Format.split_of_not_complete Framing.Format.not_complete_nil] at e
        rw [hstored, hone] at hsplit
        refine ⟨?_, ?_⟩
        · rw [hsplit, List.flatten_append, hf.whole, stream_snoc, hstored]
          simp
        · have hne : s.enqueued i a ≠ [] := List.ne_nil_of_length_pos hframe.pos
          rw [hsplit, sentPackets_snoc, List.filter_cons_of_pos (by simpa using hne)]
          exact hf.sent.append (List.Sublist.refl _)
    · exact hnothing (stored_full hfull)

/-! ## runs -/

theorem sentPackets_frames {h : History W} (hh : ∀ x ∈ h, x.2.FromHandler) :
    ∀ p ∈ sentPackets i h, packetFormat.IsFrame p := by
  intro p hp
  obtain ⟨hp, hne⟩ := List.mem_filter.mp hp
  obtain ⟨x, hx, rfl⟩ := List.mem_map.mp hp
  rcases enqueued_frame (s := x.1) (i := i) (hh x hx) with henq | hframe
  · simp [henq] at hne
  · exact hframe

theorem hist_fromHandler {bs : List (Action W)} (hsend : ∀ a ∈ bs, a.FromHandler) :
    ∀ x ∈ hist step s bs, x.2.FromHandler := by
  intro x hx
  obtain ⟨cs, ds, e, _⟩ := mem_hist step hx
  exact hsend x.2 (by simp [e])

/-- all along a run -/
theorem framed_iff (bs : List (Action W)) (hsend : ∀ a ∈ bs, a.FromHandler) :
    (∀ cs ds, bs = cs ++ ds → Framed i (hist step s cs)) ↔
      ∀ x ∈ hist step s bs, FitsOrFull i x.1 x.2 := by
  -- one step, at any place of the run
  have hstep : ∀ {cs a ds}, bs = cs ++ a :: ds → Framed i (hist step s cs) →
      (Framed i (hist step s (cs ++ [a])) ↔ FitsOrFull i (run step s cs) a) := by
    intro cs a ds e hf
    rw [hist_snoc]
    refine framed_snoc (sentPackets_frames (hist_fromHandler fun b hb => ?_)) hf ?_
    · exact hsend b (by simp [e, hb])
    · exact hsend a (by simp [e])
  constructor
  · intro hF x hx
    obtain ⟨cs, ds, e, hs⟩ := mem_hist step hx
    rw [hs]
    exact (hstep e (hF cs _ e)).mp (hF (cs ++ [x.2]) ds (by rw [e]; simp))
  · intro hC cs
    induction cs using List.reverseRecOn with
    | nil => exact fun _ _ => framed_nil
    | append_singleton cs a ih =>
      intro ds e
      have e' : bs = cs ++ a :: ds := by rw [e]; simp
      exact (hstep e' (ih _ e')).mpr (hC _ (split_mem_hist step e'))

/-- **The bytes in the send ring are whole packets, and none is stored in part, exactly if every call of
`SendPacket` finds room for its packet or for nothing.** -/
theorem framed_run_iff (s : Network W) (bs : List (Action W)) (i : SessionIdx)
    (hsend : ∀ a ∈ bs, a.FromHandler) :
    ((∀ cs ds, bs = cs ++ ds → Framed i (hist step s cs)) ∧
        ∀ x ∈ hist step s bs, x.1.stored i x.2 = [] ∨ x.1.stored i x.2 = x.1.enqueued i x.2)
      ↔ ∀ x ∈ hist step s bs, FitsOrFull i x.1 x.2 := by
  constructor
  · rintro ⟨hF, _⟩
    exact (framed_iff bs hsend).mp hF
  · intro hC
    exact ⟨(framed_iff bs hsend).mpr hC, fun x hx => (stored_whole_iff x.2).mpr (hC x hx)⟩

/-- two responses, and a send that takes half of what is there -/
def answers : List (Action 1) :=
  [.sendPacket 0 (Chat.reply .zero .loginResponse (.loginResponse 0)).bytes,
    .sendPacket 0 (Chat.reply .zero .roomEnterResponse (.roomEnterResponse 0)).bytes]
    ++ List.replicate 6 (.sender (.sent 7))

theorem answers_fromHandler : ∀ a ∈ answers, a.FromHandler := by
  intro a ha
  rcases List.mem_append.mp ha with ha | ha
  · rcases List.mem_cons.mp ha with rfl | ha
    · exact ⟨_, ⟨.zero, .loginResponse, rfl, rfl⟩, rfl⟩
    · obtain rfl := List.mem_singleton.mp ha
      exact ⟨_, ⟨.zero, .roomEnterResponse, rfl, rfl⟩, rfl⟩
  · rw [List.eq_of_mem_replicate ha]
    trivial

theorem framed_answers :
    (∀ cs ds, answers = cs ++ ds →
        Framed 0 (hist step (run step (start 1 (fun _ _ => 0) 0) opened) cs)) ∧
      ∀ x ∈ hist step (run step (start 1 (fun _ _ => 0) 0) opened) answers,
        x.1.stored 0 x.2 = [] ∨ x.1.stored 0 x.2 = x.1.enqueued 0 x.2 :=
  (framed_run_iff (run step (start 1 (fun _ _ => 0) 0) opened) answers 0 answers_fromHandler).mpr
    (by decide +kernel)

/-! ## a client that does not read -/

/-- `k` packets of one length, while the sender is elsewhere -/
theorem room_after {idx : Int} {p : List UInt8} (hidx : getSessionByIdx idx = some i) (k : Nat)
    (hc : s.crashed = false) (hl : s.sendLocked i = false)
    (hk : k * p.length ≤ (s.session i).sendBuf.getFreeSize) :
    (run step s (List.replicate k (.sendPacket idx p))).crashed = false ∧
      (run step s (List.replicate k (.sendPacket idx p))).sendLocked i = false ∧
      ((run step s (List.replicate k (.sendPacket idx p))).session i).sendBuf.getFreeSize
        + k * p.length = (s.session i).sendBuf.getFreeSize := by
  induction k with
  | zero => exact ⟨hc, hl, by simp⟩
  | succ k ih =>
    rw [Nat.succ_mul] at hk
    obtain ⟨hc', hl', hfree⟩ := ih (by omega)
    rw [List.replicate_succ', run_snoc]
    generalize run step s (List.replicate k (.sendPacket idx p)) = t at *
    have henq := enqueued_now hc' hidx hl' p
    have e := step_sendPacket hc' idx p
    have hsender : (t.sendPacket idx p).sender = t.sender := (sendPacket_same idx p).1.sender
    have hlen := congrArg List.length (step_sendPacket_contents (s := t) (i := i) idx p)
    rw [henq, List.take_of_length_le (by omega), List.length_append, RingBuffer.contents_length,
      RingBuffer.contents_length] at hlen
    have h1 := (t.session i).sendBuf.inUse_add_free
    have h2 := ((step t (.sendPacket idx p)).session i).sendBuf.inUse_add_free
    refine ⟨?_, ?_, ?_⟩
    · rw [e]
      exact (sendPacket_same idx p).2.crashed.trans hc'
    · rw [e]
      unfold sendLocked at hl' ⊢
      rw [hsender]
      exact hl'
    · rw [Nat.succ_mul]
      omega

/-- all of them fit -/
theorem room_fits {idx : Int} {p : List UInt8} (hidx : getSessionByIdx idx = some i) {n : Nat}
    (hc : s.crashed = false) (hl : s.sendLocked i = false)
    (hn : n * p.length ≤ (s.session i).sendBuf.getFreeSize) :
    ∀ x ∈ hist step s (List.replicate n (.sendPacket idx p)), FitsOrFull i x.1 x.2 := by
  intro x hx
  obtain ⟨cs, ds, e, hs⟩ := mem_hist step hx
  obtain ⟨hsum, hcs, hrest⟩ := List.append_eq_replicate_iff.mp e.symm
  rw [List.length_cons] at hsum
  have ha : x.2 = .sendPacket idx p := by
    rw [List.length_cons, List.replicate_succ] at hrest
    exact (List.cons.inj hrest).1
  -- one more than the packets before is not too many
  have hle : cs.length * p.length + p.length ≤ n * p.length := by
    rw [← Nat.succ_mul]
    exact Nat.mul_le_mul_right _ (by omega)
  obtain ⟨hc', hl', hfree⟩ := room_after (p := p) hidx cs.length hc hl (by omega)
  rw [← hcs, ← hs] at hc' hl' hfree
  refine .inl ?_
  rw [ha, enqueued_now hc' hidx hl']
  omega

def chatNotify : Packet where
  header := setPacketIdAndLen .zero .roomChatNotify
  body := .roomChatNotify (copyId .zero .empty) (List.replicate (kMaxChatMsgSize + 1) 104)

theorem chatNotify_length : chatNotify.bytes.length = 295 := by
  have e : chatNotify.body.bytes =
      copyId .zero .empty ++ List.replicate (kMaxChatMsgSize + 1) 104 := rfl
  rw [Packet.bytes_length, e, List.length_append, copyId_length, List.length_replicate]
  rfl

theorem chatNotify_packed : chatNotify.Packed :=
  ⟨.zero, .roomChatNotify, rfl, chatNotify.bytes_length.symm.trans chatNotify_length⟩

def flood : List (Action 1) := List.replicate 56 (.sendPacket 0 chatNotify.bytes)

/-- 55 chat notifies are stored whole, and of the next one 158 bytes -/
theorem torn_packet :
    (∀ a ∈ flood, a.FromHandler) ∧
      ¬ Framed 0 (hist step (run step (start 1 (fun _ _ => 0) 0) opened) flood) := by
  have hsend : ∀ n, ∀ a ∈ List.replicate n (Action.sendPacket (W := 1) 0 chatNotify.bytes),
      a.FromHandler := by
    intro n a ha
    rw [List.eq_of_mem_replicate ha]
    exact ⟨chatNotify, chatNotify_packed, rfl⟩
  refine ⟨hsend 56, ?_⟩
  have hstart : (run step (start 1 (fun _ _ => 0) 0) opened).crashed = false ∧
      (run step (start 1 (fun _ _ => 0) 0) opened).sendLocked 0 = false ∧
      ((run step (start 1 (fun _ _ => 0) 0) opened).session 0).sendBuf.getFreeSize = 16383 := by
    decide +kernel
  generalize run step (start 1 (fun _ _ => 0) 0) opened = s at *
  obtain ⟨hc, hl, hfree⟩ := hstart
  have hlen := chatNotify_length
  have hidx : getSessionByIdx 0 = some 0 := rfl
  have hle : 55 * chatNotify.bytes.length ≤ (s.session 0).sendBuf.getFreeSize := by
    rw [hlen, hfree]
    omega
  have hframed := (framed_iff _ (hsend 55)).mpr (room_fits hidx hc hl hle) _ [] (List.append_nil _).symm
  obtain ⟨hc', hl', hfree'⟩ := room_after hidx 55 hc hl hle
  rw [hlen, hfree] at hfree'
  have henq := enqueued_now hc' hidx hl' chatNotify.bytes
  intro hf
  rw [flood, List.replicate_succ', hist_snoc] at hf
  have hlast := (framed_snoc (sentPackets_frames (hist_fromHandler (hsend 55))) hframed
    (hsend 1 _ List.mem_cons_self)).mp hf
  unfold FitsOrFull at hlast
  rw [henq, hlen] at hlast
  omega

end Network

end Iocp
