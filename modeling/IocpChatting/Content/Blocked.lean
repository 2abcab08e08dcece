import IocpChatting.Content.Consumption

/-!
# Packets that block everything behind them

A packet that no handler has the id of, and a header that announces more than the ring can hold, are
never taken out of the ring, and so nothing behind them is either.

* `jammed_run`              such bytes stay at the front of the ring in every run in which no
                            `ConnectHandler` call empties it, and no packet of that user is handled;
* `unknown_never_skipped`   a packet with an unknown id is never skipped;
* `wedge_iff`               the sizes that wedge a connection.
-/

set_option linter.unusedSectionVars false
set_option autoImplicit false

namespace Iocp
open Runs Framing
open UserManager (getUserByIndex)

namespace Server

/-! ## the front of the ring -/

/-- no packet that starts like this is taken out of a ring: no handler has its id, or it never fits -/
def Dead (front : List UInt8) : Prop :=
  packetHeaderLength ≤ front.length ∧
    (packetHandlers (packetFormat.head front).1 = none ∨
      kDefaultRingBufferSize ≤ (packetFormat.head front).2)

/-- the ring of `i` starts with `front` at index `f`, and the loop is not going to take it out -/
structure Jammed (i : Session) (front : List UInt8) (f : Fin kDefaultRingBufferSize) (s : Server) :
    Prop where
  fixed : s.chat.Fixed
  ring : front <+: (s.chat.bufs i).contents
  place : (s.chat.bufs i).front = f
  found : ∀ pkt, s.pc = .processPacket pkt → getUserByIndex (int32 pkt.sessionIndex) = some i →
    packetHandlers pkt.id = none
  done : ∀ pkt, s.pc = .completeProcess pkt → getUserByIndex (int32 pkt.sessionIndex) = some i →
    pkt.size = 0

/-- no `ConnectHandler` call empties the ring of `i` -/
def NoConnect (i : Session) (h : History) : Prop :=
  ∀ x ∈ h, ∀ k, x.1.call x.2 = some k → ¬ k.Clears i

section
variable (redisGet : CStr → Option (List UInt8)) {i : Session} {front : List UInt8}
  {f : Fin kDefaultRingBufferSize} {s : Server}

theorem Jammed.ring_step (h : Jammed i front f s) {a : Action}
    (hc : ∀ k, s.call a = some k → ¬ k.Clears i) :
    front <+: (ringAfter i s a).contents ∧ (ringAfter i s a).front = f := by
  unfold ringAfter
  cases hk : s.call a with
  | some k =>
    simp only [if_neg (hc k hk)]
    exact ⟨h.ring, h.place⟩
  | none =>
    simp only
    unfold ringQuiet
    cases a with
    | onRecv j data =>
      simp only
      split
      · rw [RingBuffer.enqueue_contents, RingBuffer.enqueue_front]
        exact ⟨h.ring.trans (List.prefix_append _ _), h.place⟩
      · exact ⟨h.ring, h.place⟩
    | loop mem =>
      simp only
      split
      · next pkt hpc =>
        split
        · next hp =>
          -- `MoveFront(0)`
          have e : (s.chat.bufs i).moveFront pkt.size = s.chat.bufs i := by
            rw [h.done pkt hpc hp]
            unfold RingBuffer.moveFront
            rw [Cyclic.shift_zero]
          rw [e]
          exact ⟨h.ring, h.place⟩
        · exact ⟨h.ring, h.place⟩
      · exact ⟨h.ring, h.place⟩
    | _ => exact ⟨h.ring, h.place⟩

/-- a packet found in the ring has no handler -/
theorem Jammed.found_none (h : Jammed i front f s) (hdead : Dead front) {pkt : PacketInfo}
    (hp : (s.chat.users.pool i).getPacketData i = some pkt) : packetHandlers pkt.id = none := by
  obtain ⟨_, hc, hhead⟩ := getPacketData_session h.fixed hp
  have e : packetFormat.head (s.chat.bufs i).contents = packetFormat.head front :=
    Format.head_initial h.ring hdead.1
  rw [e] at hhead
  rcases hdead.2 with hid | hsize
  · rw [← hhead] at hid
    exact hid
  · have hle := hc.2
    have hlt := (s.chat.bufs i).getSizeInUse_lt
    rw [e, RingBuffer.contents_length] at hle
    exact absurd (hsize.trans hle) (Nat.not_le.mpr hlt)

theorem jammed_step (hdead : Dead front) (h : Jammed i front f s) (a : Action)
    (hc : ∀ k, s.call a = some k → ¬ k.Clears i) : Jammed i front f (step redisGet s a) := by
  have hring := h.ring_step hc
  rw [← step_bufs redisGet s a i] at hring
  refine ⟨step_fixed redisGet h.fixed a, hring.1, hring.2, fun pkt hpc hi => ?_, fun pkt hpc hi => ?_⟩
  · rcases step_processPacket redisGet hpc with ⟨hpc, _⟩ | ⟨p, hp, _⟩
    · exact h.found pkt hpc hi
    · obtain ⟨hsess, _⟩ := getPacketData_session h.fixed hp
      rw [hsess] at hi
      cases hi
      exact h.found_none hdead hp
  · rcases step_completeProcess redisGet hpc with ⟨hpc, _⟩ | ⟨k, hk, hpkt, hpc⟩
    · exact h.done pkt hpc hi
    · obtain ⟨_, _, hid⟩ := call_spec hk
      rw [hpkt, h.found pkt hpc hi] at hid
      cases hid

theorem jammed_run (hdead : Dead front) (h : Jammed i front f s) (bs : List Action)
    (hc : NoConnect i (hist (step redisGet) s bs)) :
    Jammed i front f (run (step redisGet) s bs) :=
  run_keeps (step redisGet) (C := fun s a => ∀ k, s.call a = some k → ¬ k.Clears i)
    (fun _ a h hc => jammed_step redisGet hdead h a hc) h bs hc

/-- a handler call for a packet of `i`, at the place where the loop has one -/
theorem Jammed.no_call (h : Jammed i front f s) {a : Action} {k : Call} (hk : s.call a = some k)
    (hsource : k.source = .user) : k.session ≠ some i := by
  intro hi
  obtain ⟨_, hpc, hid⟩ := call_spec hk
  have hpc' : s.pc = .processPacket k.pkt := by
    rw [hsource] at hpc
    cases hpc' : s.pc with
    | processPacket pkt =>
      rw [hpc'] at hpc
      have e : pkt = k.pkt := congrArg Prod.snd (Option.some.inj hpc)
      rw [e]
    | processSystemPacket pkt | processTaskRes t =>
      rw [hpc'] at hpc
      cases congrArg Prod.fst (Option.some.inj hpc)
    | _ => rw [hpc'] at hpc; cases hpc
  rw [h.found _ hpc' hi] at hid
  cases hid

/-- no handler is called for a packet of `i` in any of these steps -/
def NoneHandled (i : Session) (h : History) : Prop :=
  ∀ x ∈ h, ∀ k, x.1.call x.2 = some k → k.source = .user → k.session ≠ some i

theorem jammed_hist (hdead : Dead front) (h : Jammed i front f s) (bs : List Action)
    (hc : NoConnect i (hist (step redisGet) s bs)) :
    NoneHandled i (hist (step redisGet) s bs) := by
  have hall := hist_run_keeps (step redisGet) (C := fun s a => ∀ k, s.call a = some k → ¬ k.Clears i)
    (fun _ a h hc => jammed_step redisGet hdead h a hc) h bs hc
  exact fun x hx k hk hsource => (hall x hx).no_call hk hsource

/-! ## unknown packets -/

/-- the first `size` bytes are taken out of the ring of `i`, and its index comes back if any are
left -/
def SkipsFront (i : Session) (size : Nat) (s s' : Server) : Prop :=
  (s'.chat.bufs i).contents = (s.chat.bufs i).contents.drop size ∧
    ((s'.chat.bufs i).contents ≠ [] → ((i : Nat) : Int) ∈ s'.incomingQueue)

/-- `DequeuePacket` and `ProcessPacket` on a packet with an unknown id: nothing but the index is gone -/
theorem unknown_two_steps {q : List Int} (hs : s.chat.Fixed) (hpc : s.pc = .dequeuePacket)
    (hq : s.incomingQueue = ((i : Nat) : Int) :: q)
    (hc : packetFormat.Complete (s.chat.bufs i).contents)
    (hid : packetHandlers (packetFormat.head (s.chat.bufs i).contents).1 = none) (mem mem' : Mem) :
    run (step redisGet) s [.loop mem, .loop mem']
      = { s with incomingQueue := q, pc := .dequeueSystemPacket } := by
  have hhas : (s.chat.users.pool i).HasPacket := hc
  have hp := User.getPacketData_eq (s.chat.users.pool i) i
  rw [if_pos hhas] at hp
  obtain ⟨_, _, hhead⟩ := getPacketData_session hs hp
  generalize PacketInfo.mk _ _ _ _ = pkt at hp hhead
  have hnone : packetHandlers pkt.id = none := by
    rw [← hhead] at hid
    exact hid
  have h1 : s.loopStep mem = { s with incomingQueue := q, pc := .processPacket pkt } := by
    unfold loopStep
    rw [hpc]
    simp only [dequeuePacket, hq, getUserByIndex_session, hp]
  show (s.loopStep mem).loopStep mem' = _
  rw [h1]
  unfold loopStep handle
  simp only [hnone, Option.map_none]

/-- **A packet with an unknown id is never skipped.**  In every reachable state in which the loop is
about to pop the index of `i` and the ring starts with such a packet, nothing is taken out of the
ring and the index does not come back; and until a `ConnectHandler` call empties the ring no packet
behind it is handled. -/
theorem unknown_never_skipped (heap : Session → Fin kDefaultRingBufferSize → UInt8)
    (as : List Action) (i : Session) (mem mem' : Mem) (q : List Int) (p rest : List UInt8)
    (hpc : (run (step redisGet) (start heap) as).pc = .dequeuePacket)
    (hq : (run (step redisGet) (start heap) as).incomingQueue = ((i : Nat) : Int) :: q)
    (hring : ((run (step redisGet) (start heap) as).chat.bufs i).contents = p ++ rest)
    (hp : packetFormat.IsFrame p) (hid : packetHandlers (packetFormat.head p).1 = none) :
    ¬ SkipsFront i p.length (run (step redisGet) (start heap) as)
        (run (step redisGet) (start heap) (as ++ [.loop mem, .loop mem'])) ∧
      (run (step redisGet) (start heap) (as ++ [.loop mem, .loop mem'])).incomingQueue = q ∧
      ∀ bs, NoConnect i (hist (step redisGet)
          (run (step redisGet) (start heap) (as ++ [.loop mem, .loop mem'])) bs) →
        p ++ rest <+: ((run (step redisGet) (start heap)
            (as ++ [.loop mem, .loop mem'] ++ bs)).chat.bufs i).contents ∧
          NoneHandled i (hist (step redisGet)
            (run (step redisGet) (start heap) (as ++ [.loop mem, .loop mem'])) bs) := by
  have hs := (run_sound redisGet heap as).fixed
  simp only [run_append] at *
  generalize run (step redisGet) (start heap) as = s at *
  have hhead : packetFormat.head (p ++ rest) = packetFormat.head p :=
    packetFormat.head_append p rest hp.1
  have hc : packetFormat.Complete (s.chat.bufs i).contents := by
    rw [hring]
    exact hp.complete.mono (List.prefix_append _ _)
  have htwo := unknown_two_steps redisGet hs hpc hq hc (by rw [hring, hhead]; exact hid) mem mem'
  rw [htwo]
  have hjam : Jammed i (p ++ rest) (s.chat.bufs i).front
      { s with incomingQueue := q, pc := .dequeueSystemPacket } :=
    ⟨hs, by rw [← hring], rfl, fun _ e => (by cases e),
      fun _ e => (by cases e)⟩
  have hdead : Dead (p ++ rest) := by
    refine ⟨hp.1.trans (List.prefix_append p rest).length_le, .inl ?_⟩
    rw [hhead]
    exact hid
  refine ⟨fun hskip => ?_, rfl, fun bs hbs => ?_⟩
  · have hlen := congrArg List.length hskip.1
    have hpos := hp.pos
    rw [List.length_drop, show ({ s with incomingQueue := q, pc := LoopPc.dequeueSystemPacket }
      : Server).chat.bufs i = s.chat.bufs i from rfl, hring, List.length_append] at hlen
    omega
  · exact ⟨(jammed_run redisGet hdead hjam bs hbs).ring, jammed_hist redisGet hdead hjam bs hbs⟩

end

/-- a packet with an id that nobody handles, and a request behind it -/
def unknownFirst : List Action := Action.receive 0 (clientPacket 300 [] ++ roomLeavePacket)

theorem unknown_never_skipped_first :
    ¬ SkipsFront 0 (clientPacket 300 []).length
        (run (step fun _ => none) (start fun _ _ => 0) unknownFirst)
        (run (step fun _ => none) (start fun _ _ => 0)
          (unknownFirst ++ [.loop Mem.zero, .loop Mem.zero])) ∧
      (run (step fun _ => none) (start fun _ _ => 0)
        (unknownFirst ++ [.loop Mem.zero, .loop Mem.zero])).incomingQueue = [] ∧
      ∀ bs, NoConnect 0 (hist (step fun _ => none)
          (run (step fun _ => none) (start fun _ _ => 0)
            (unknownFirst ++ [.loop Mem.zero, .loop Mem.zero])) bs) →
        clientPacket 300 [] ++ roomLeavePacket <+: ((run (step fun _ => none) (start fun _ _ => 0)
            (unknownFirst ++ [.loop Mem.zero, .loop Mem.zero] ++ bs)).chat.bufs 0).contents ∧
          NoneHandled 0 (hist (step fun _ => none)
            (run (step fun _ => none) (start fun _ _ => 0)
              (unknownFirst ++ [.loop Mem.zero, .loop Mem.zero])) bs) :=
  unknown_never_skipped (fun _ => none) (fun _ _ => 0) unknownFirst 0 Mem.zero Mem.zero []
    (clientPacket 300 []) roomLeavePacket rfl (by decide +kernel) (by decide +kernel)
    ⟨by decide, by decide⟩ (by decide)

/-- the same packet: all ten bytes stay -/
theorem unknown_id_stays :
    ¬ SkipsFront 0 5 (run (step fun _ => none) (start fun _ _ => 0) unknownFirst)
      (run (step fun _ => none) (start fun _ _ => 0)
        (unknownFirst ++ [.loop Mem.zero, .loop Mem.zero])) :=
  fun h => absurd h.1 (by decide +kernel)

/-! ## sizes that do not fit -/

/-- `GetPacketData` returns the packet with this id and size -/
def Returns (i : Session) (x : Nat × Nat) (s : Server) : Prop :=
  ∃ pkt, (s.chat.users.pool i).getPacketData i = some pkt ∧ (pkt.id, pkt.size) = x

section
variable (redisGet : CStr → Option (List UInt8)) {i : Session} {s : Server}

/-- the packet comes after some more bytes, or `front_` moves on -/
def Unwedged (i : Session) (s : Server) : Prop :=
  (∃ chunks : List (List UInt8), Returns i (packetFormat.head (s.chat.bufs i).contents)
      (run (step redisGet) s (chunks.flatMap (Action.receive i)))) ∨
    ∃ bs, NoConnect i (hist (step redisGet) s bs) ∧
      ((run (step redisGet) s bs).chat.bufs i).front ≠ (s.chat.bufs i).front

theorem noConnect_receive (i : Session) (s : Server) (chunks : List (List UInt8)) :
    NoConnect i (hist (step redisGet) s (chunks.flatMap (Action.receive i))) := by
  intro x hx k hk
  obtain ⟨bs, cs, e, _⟩ := mem_hist (step redisGet) hx
  have hmem : x.2 ∈ chunks.flatMap (Action.receive i) := by
    rw [e]
    exact List.mem_append_right _ List.mem_cons_self
  obtain ⟨data, _, hdata⟩ := List.mem_flatMap.mp hmem
  obtain ⟨ha, _⟩ := call_spec hk
  rw [ha] at hdata
  simp [Action.receive] at hdata

/-- as many more bytes as the packet lacks -/
theorem returns_of_fits (h5 : packetHeaderLength ≤ (s.chat.bufs i).contents.length)
    (hfits : (packetFormat.head (s.chat.bufs i).contents).2 < kDefaultRingBufferSize) :
    Returns i (packetFormat.head (s.chat.bufs i).contents) (run (step redisGet) s
      (Action.receive i (List.replicate
        ((packetFormat.head (s.chat.bufs i).contents).2 - (s.chat.bufs i).contents.length) 0))) := by
  have hsum := (s.chat.bufs i).inUse_add_free
  rw [← RingBuffer.contents_length] at hsum
  rw [receive_steps]
  have hcont := enqueuePacket_contents (s := s) (getUserByIndex_session i) (List.replicate
    ((packetFormat.head (s.chat.bufs i).contents).2 - (s.chat.bufs i).contents.length) 0)
  rw [List.take_of_length_le (by
    rw [List.length_replicate]
    show _ ≤ (s.chat.bufs i).getFreeSize
    omega)] at hcont
  generalize (s.enqueuePacket (i : Nat) _).1 = s' at hcont
  have hpre : (s.chat.bufs i).contents <+: (s'.chat.users.pool i).packetBuf.contents := by
    rw [hcont]
    exact List.prefix_append _ _
  have hhead := Format.head_initial (F := packetFormat) hpre h5
  have hhas : (s'.chat.users.pool i).HasPacket := by
    refine ⟨h5.trans hpre.length_le, ?_⟩
    show (packetFormat.head (s'.chat.users.pool i).packetBuf.contents).2 ≤ _
    rw [hhead, hcont, List.length_append, List.length_replicate]
    show _ ≤ (s.chat.bufs i).contents.length + _
    omega
  refine ⟨_, (User.getPacketData_eq _ i).trans (if_pos hhas), ?_⟩
  exact hhead

/-- the loop is about to take a packet of `i` out of its ring -/
def Passing (i : Session) (s : Server) : Prop :=
  ∃ pkt, s.pc = .completeProcess pkt ∧ getUserByIndex (int32 pkt.sessionIndex) = some i ∧
    pkt.size ≠ 0

theorem unwedged_of_passing {h : History} (hin : InHand h s) (hpass : Passing i s) :
    Unwedged redisGet i s := by
  obtain ⟨pkt, hpc, hp, hne⟩ := hpass
  obtain ⟨p, hp', hlt, _⟩ := hin.handled pkt hpc
  rw [hp] at hp'
  cases hp'
  have hcall : s.call (.loop Mem.zero) = none := call_eq_none (by rw [hpc]; rfl)
  refine .inr ⟨[.loop Mem.zero], ?_, ?_⟩
  · intro x hx k hk
    rw [List.mem_singleton.mp hx, hcall] at hk
    cases hk
  · have hmove : (step redisGet s (.loop Mem.zero)).chat.bufs i
        = (s.chat.bufs i).moveFront pkt.size := by
      rw [step_bufs]
      simp only [ringAfter, hcall, ringQuiet, hpc, if_pos hp]
    rw [run_cons, run_nil, hmove]
    intro e
    have hshift : Cyclic.shift (s.chat.bufs i).front pkt.size
        = Cyclic.shift (s.chat.bufs i).front 0 := by
      rw [Cyclic.shift_zero]
      exact e
    exact hne (Cyclic.shift_inj _ hlt kDefaultRingBufferSize_pos hshift)

/-- a header that never fits, and nothing on its way out, jams the ring -/
theorem jammed_of_big {h : History} (hin : InHand h s) (hs : s.chat.Fixed)
    (hbig : kDefaultRingBufferSize ≤ (packetFormat.head (s.chat.bufs i).contents).2)
    (hpass : ¬ Passing i s) : Jammed i (s.chat.bufs i).contents (s.chat.bufs i).front s where
  fixed := hs
  ring := List.prefix_refl _
  place := rfl
  found pkt hpc hi := by
    obtain ⟨p, hp, hfront⟩ := hin.found pkt hpc
    rw [hi] at hp
    cases hp
    have hle := hfront.size_le
    have hlt := (s.chat.bufs i).getSizeInUse_lt
    rw [← hfront.2] at hbig
    exact absurd (hbig.trans hle) (Nat.not_le.mpr hlt)
  done pkt hpc hi := by
    by_contra hne
    exact hpass ⟨pkt, hpc, hi, hne⟩

theorem not_unwedged {h : History} (hin : InHand h s) (hs : s.chat.Fixed)
    (h5 : packetHeaderLength ≤ (s.chat.bufs i).contents.length)
    (hbig : kDefaultRingBufferSize ≤ (packetFormat.head (s.chat.bufs i).contents).2)
    (hpass : ¬ Passing i s) : ¬ Unwedged redisGet i s := by
  have hjam := jammed_of_big hin hs hbig hpass
  have hdead : Dead (s.chat.bufs i).contents := ⟨h5, .inr hbig⟩
  rintro (⟨chunks, pkt, hpkt, hx⟩ | ⟨bs, hbs, hmoved⟩)
  · have hend := jammed_run redisGet hdead hjam _ (noConnect_receive redisGet i s chunks)
    obtain ⟨_, hc, hhead⟩ := getPacketData_session hend.fixed hpkt
    have hle := hc.2
    have hlt := ((run (step redisGet) s (chunks.flatMap (Action.receive i))).chat.bufs
      i).getSizeInUse_lt
    rw [← hhead, hx, RingBuffer.contents_length] at hle
    exact absurd (hbig.trans hle) (Nat.not_le.mpr hlt)
  · exact hmoved (jammed_run redisGet hdead hjam bs hbs).place

/-- **The sizes that wedge a connection.**  In every reachable state with a header at the front of the
ring, the packet can still come or the header be passed over exactly if its size is below that of the
array, or the loop is about to take another packet out. -/
theorem wedge_iff (heap : Session → Fin kDefaultRingBufferSize → UInt8) (as : List Action)
    (i : Session) (h5 : packetHeaderLength ≤
      ((run (step redisGet) (start heap) as).chat.bufs i).contents.length) :
    Unwedged redisGet i (run (step redisGet) (start heap) as) ↔
      (packetFormat.head ((run (step redisGet) (start heap) as).chat.bufs i).contents).2
          < kDefaultRingBufferSize ∨
        Passing i (run (step redisGet) (start heap) as) := by
  have hs := (run_sound redisGet heap as).fixed
  have hin := run_inHand redisGet heap as
  generalize hist (step redisGet) (start heap) as = h at hin
  generalize run (step redisGet) (start heap) as = s at *
  constructor
  · intro hun
    by_contra hn
    obtain ⟨hbig, hpass⟩ := not_or.mp hn
    exact not_unwedged redisGet hin hs h5 (Nat.le_of_not_lt hbig) hpass hun
  · rintro (hfits | hpass)
    · have hret := returns_of_fits redisGet h5 hfits
      refine .inl ⟨[List.replicate
        ((packetFormat.head (s.chat.bufs i).contents).2 - (s.chat.bufs i).contents.length) 0], ?_⟩
      rw [List.flatMap_cons, List.flatMap_nil, List.append_nil]
      exact hret
    · exact unwedged_of_passing redisGet hin hpass

end

/-- a header that announces as many bytes as its field can say -/
def hugeHeader : List UInt8 := [255, 255, 221, 0, 0]

theorem wedge_iff_leave :
    Unwedged (fun _ => none) 0 (run (step fun _ => none) (start fun _ _ => 0)
        (Action.receive 0 roomLeavePacket)) ↔
      (packetFormat.head ((run (step fun _ => none) (start fun _ _ => 0)
          (Action.receive 0 roomLeavePacket)).chat.bufs 0).contents).2 < kDefaultRingBufferSize ∨
        Passing 0 (run (step fun _ => none) (start fun _ _ => 0) (Action.receive 0 roomLeavePacket)) :=
  wedge_iff (fun _ => none) (fun _ _ => 0) (Action.receive 0 roomLeavePacket) 0 (by decide +kernel)

/-- nothing that comes after it completes the packet, and nothing takes it away -/
theorem huge_header_wedges :
    ¬ Unwedged (fun _ => none) 0 (run (step fun _ => none) (start fun _ _ => 0)
      (Action.receive 0 hugeHeader)) := by
  have hs := (run_sound (fun _ => none) (fun _ _ => 0) (Action.receive 0 hugeHeader)).fixed
  have hcont : ((run (step fun _ => none) (start fun _ _ => 0)
      (Action.receive 0 hugeHeader)).chat.bufs 0).contents = hugeHeader := by decide +kernel
  have hpc : (run (step fun _ => none) (start fun _ _ => 0) (Action.receive 0 hugeHeader)).pc
      = .dequeuePacket := rfl
  have hin := run_inHand (fun _ => none) (fun _ _ => 0) (Action.receive 0 hugeHeader)
  generalize hist (step fun _ => none) (start fun _ _ => 0) (Action.receive 0 hugeHeader) = h at hin
  generalize run (step fun _ => none) (start fun _ _ => 0) (Action.receive 0 hugeHeader) = s at *
  refine not_unwedged _ hin hs ?_ ?_ ?_
  · rw [hcont]
    decide
  · rw [hcont]
    decide
  · rintro ⟨_, e, _⟩
    rw [hpc] at e
    cases e

end Server

end Iocp
