import IocpChatting.Content.Dispatch

/-!
# What `CompleteProcess` takes out of a ring

`GetPacketData` checks the size of a packet, `MoveFront` does not, and between the two the handler
runs.

* `step_bufs`          what a step does to the ring of a user, in one function (`ringAfter`);
* `InHand`             what the packet loop knows of the packet it holds;
* `consumption_iff`    every `CompleteProcess` takes exactly its packet out of the ring, and no step
                       makes old bytes readable again, exactly if the bytes that came after the
                       `ConnectHandler` call of a packet with the reserved id cover that packet.
-/

set_option linter.unusedSectionVars false
set_option autoImplicit false

namespace Iocp
open Runs Framing
open UserManager (getUserByIndex)

/-- a handler call clears the ring of `p` -/
def Call.Clears (p : Session) (k : Call) : Prop := k.handler = .connect ∧ k.session = some p

instance (p : Session) (k : Call) : Decidable (k.Clears p) := inferInstanceAs (Decidable (_ ∧ _))

namespace Server

/-! ## the ring of one user -/

/-- the bytes of a chunk that find room in the ring of `p` -/
def arrived (p : Session) (s : Server) : Action → List UInt8
  | .onRecv i data => if i = p then data.take (s.chat.bufs p).getFreeSize else []
  | _ => []

/-- the ring of `p` after a step without a handler call -/
def ringQuiet (p : Session) (s : Server) : Action → RingBuffer UInt8 kDefaultRingBufferSize
  | .onRecv i data => if i = p then ((s.chat.bufs p).enqueue data).1 else s.chat.bufs p
  | .loop _ =>
    match s.pc with
    | .completeProcess pkt =>
      if getUserByIndex (int32 pkt.sessionIndex) = some p then (s.chat.bufs p).moveFront pkt.size
      else s.chat.bufs p
    | _ => s.chat.bufs p
  | _ => s.chat.bufs p

def ringAfter (p : Session) (s : Server) (a : Action) : RingBuffer UInt8 kDefaultRingBufferSize :=
  match s.call a with
  | some k => if k.Clears p then (s.chat.bufs p).clearBuffer else s.chat.bufs p
  | none => ringQuiet p s a

section
variable (redisGet : CStr → Option (List UInt8))

theorem ringQuiet_of_pc {p : Session} {s : Server} {mem : Mem}
    (h : ∀ pkt, s.pc ≠ .completeProcess pkt) : ringQuiet p s (.loop mem) = s.chat.bufs p := by
  simp only [ringQuiet]

/-- **What a step does to the ring of `p`.** -/
theorem step_bufs (s : Server) (a : Action) (p : Session) :
    (step redisGet s a).chat.bufs p = ringAfter p s a := by
  unfold ringAfter
  cases hk : s.call a with
  | some k =>
    rw [step_call redisGet hk]
    exact call_bufs k s.chat p
  | none =>
    simp only
    have he := step_effect redisGet s a
    generalize step redisGet s a = s' at he
    cases he with
    | call hk' => rw [hk'] at hk; cases hk
    | onRecv i data =>
      have hset : (s.storePacket i data).chat.bufs
          = Function.update s.chat.bufs i ((s.chat.bufs i).enqueue data).1 :=
        Chat.bufs_setUser s.chat i _
      show (s.storePacket i data).chat.bufs p = ite _ _ _
      rw [hset]
      by_cases hi : i = p
      · subst hi
        rw [Function.update_self, if_pos rfl]
      · rw [Function.update_of_ne (fun e => hi e.symm), if_neg hi]
    | @complete mem pkt hpc =>
      simp only [ringQuiet, hpc]
      show (s.afterComplete pkt).chat.bufs p = _
      by_cases hp : getUserByIndex (int32 pkt.sessionIndex) = some p
      · rw [if_pos hp, afterComplete_bufs s hp, Function.update_self]
      · rw [if_neg hp]
        cases hq : getUserByIndex (int32 pkt.sessionIndex) with
        | none =>
          unfold afterComplete UserManager.completeProcess
          rw [hq]
        | some q =>
          rw [afterComplete_bufs s hq, Function.update_of_ne]
          rintro rfl
          exact hp hq
    | noIndex hpc | noPacket hpc | dequeue hpc | repush hpc | noSystem hpc | system hpc | noTask hpc
    | task hpc =>
      exact (ringQuiet_of_pc (fun pkt e => by rw [hpc] at e; cases e)).symm
    | skip hpc =>
      exact (ringQuiet_of_pc (fun pkt e => by rw [e] at hpc; cases hpc)).symm
    | _ => rfl

/-! ## where the loop got its packet -/

theorem step_processPacket {s : Server} {a : Action} {pkt : PacketInfo}
    (h : (step redisGet s a).pc = .processPacket pkt) :
    (s.pc = .processPacket pkt ∧ ∀ mem, a ≠ .loop mem) ∨
      ∃ p, (s.chat.users.pool p).getPacketData p = some pkt ∧
        (step redisGet s a).chat = s.chat := by
  have he := step_effect redisGet s a
  generalize step redisGet s a = s' at he h
  cases he with
  | noPush | noRequest | noWorker | onConnect | onDisconnect | onRecv | pushIndex | take | put =>
    exact .inl ⟨h, fun mem e => by cases e⟩
  | dequeue hpc hq hi hp =>
    cases h
    exact .inr ⟨_, hp, rfl⟩
  | call hk =>
    obtain ⟨_, hpc, _⟩ := call_spec hk
    have hran := LoopPc.ran_packet hpc
    rw [show s.pc.ran = _ from h] at hran
    cases hran
  | skip hpc =>
    have hskip := LoopPc.skipped_packet hpc
    rw [show s.pc.skipped = _ from h] at hskip
    cases hskip
  | @complete mem pkt' hpc =>
    have hnone := complete_packet s pkt'
    rw [show ite _ _ _ = _ from h] at hnone
    cases hnone
  | _ => cases h

theorem step_completeProcess {s : Server} {a : Action} {pkt : PacketInfo}
    (h : (step redisGet s a).pc = .completeProcess pkt) :
    (s.pc = .completeProcess pkt ∧ ∀ mem, a ≠ .loop mem) ∨
      ∃ k, s.call a = some k ∧ k.pkt = pkt ∧ s.pc = .processPacket pkt := by
  have he := step_effect redisGet s a
  generalize step redisGet s a = s' at he h
  cases he with
  | noPush | noRequest | noWorker | onConnect | onDisconnect | onRecv | pushIndex | take | put =>
    exact .inl ⟨h, fun mem e => by cases e⟩
  | @call mem k hk =>
    obtain ⟨_, hpc, _⟩ := call_spec hk
    cases hpc' : s.pc with
    | processPacket pkt' =>
      rw [show s.pc.ran = .completeProcess pkt' by rw [hpc']; rfl] at h
      cases h
      rw [hpc'] at hpc
      exact .inr ⟨k, hk, (congrArg Prod.snd (Option.some.inj hpc)).symm, rfl⟩
    | processSystemPacket pkt' | processTaskRes t =>
      simp only [hpc', LoopPc.ran] at h
      cases h
    | _ => rw [hpc'] at hpc; cases hpc
  | skip hpc =>
    cases hpc' : s.pc with
    | processPacket pkt' | processSystemPacket pkt' | processTaskRes t =>
      simp only [hpc', LoopPc.skipped] at h
      cases h
    | _ => rw [hpc'] at hpc; cases hpc
  | complete hpc =>
    simp only at h
    split at h <;> cases h
  | _ => cases h

/-! ## the packet in the hands of the loop -/

/-- the bytes that have come for `p` since its ring was cleared last -/
def recount (p : Session) (k : Nat) (x : Server × Action) : Nat :=
  match x.1.call x.2 with
  | some c => if c.Clears p then 0 else k
  | none =>
    match x.2 with
    | .onRecv i data => if i = p then k + data.length else k
    | _ => k

def receivedSinceClear (p : Session) (h : History) : Nat := h.foldl (recount p) 0

theorem receivedSinceClear_snoc (p : Session) (h : History) (x : Server × Action) :
    receivedSinceClear p (h ++ [x]) = recount p (receivedSinceClear p h) x := by
  unfold receivedSinceClear
  rw [List.foldl_append]
  rfl

/-- the packet is the first one in the ring of `p`, and all of it is there -/
def AtFront (s : Server) (p : Session) (pkt : PacketInfo) : Prop :=
  packetFormat.Complete (s.chat.bufs p).contents ∧
    (pkt.id, pkt.size) = packetFormat.head (s.chat.bufs p).contents

theorem AtFront.size_le {s : Server} {p : Session} {pkt : PacketInfo} (h : s.AtFront p pkt) :
    pkt.size ≤ (s.chat.bufs p).getSizeInUse := by
  have hsize : packetFormat.size (packetFormat.head (s.chat.bufs p).contents) = pkt.size :=
    congrArg Prod.snd h.2.symm
  rw [← RingBuffer.contents_length, ← hsize]
  exact h.1.2

/-- more bytes behind it do not change the first packet -/
theorem AtFront.append {s s' : Server} {p : Session} {pkt : PacketInfo} (h : s.AtFront p pkt)
    (hpre : (s.chat.bufs p).contents <+: (s'.chat.bufs p).contents) : s'.AtFront p pkt :=
  ⟨h.1.mono hpre, h.2.trans (Format.head_initial hpre h.1.1).symm⟩

/-- after the handler the packet is still there, unless the handler was `ConnectHandler`: then
the ring holds what has come since -/
def Handled (h : History) (s : Server) (p : Session) (pkt : PacketInfo) : Prop :=
  pkt.size < kDefaultRingBufferSize ∧
    if packetHandlers pkt.id = some .connect then
      (s.chat.bufs p).getSizeInUse = min (receivedSinceClear p h) (kDefaultRingBufferSize - 1)
    else s.AtFront p pkt

structure InHand (h : History) (s : Server) : Prop where
  found : ∀ pkt, s.pc = .processPacket pkt →
    ∃ p, getUserByIndex (int32 pkt.sessionIndex) = some p ∧ s.AtFront p pkt
  handled : ∀ pkt, s.pc = .completeProcess pkt →
    ∃ p, getUserByIndex (int32 pkt.sessionIndex) = some p ∧ Handled h s p pkt

theorem start_inHand (heap : Session → Fin kDefaultRingBufferSize → UInt8) :
    InHand [] (start heap) where
  found pkt hpc := by cases hpc
  handled pkt hpc := by cases hpc

/-- the other parties leave the loop where it is, and add to the rings -/
theorem step_other (s : Server) {a : Action} (ha : ∀ mem, a ≠ .loop mem) (p : Session) :
    (step redisGet s a).pc = s.pc ∧
      ((step redisGet s a).chat.bufs p).contents = (s.chat.bufs p).contents ++ arrived p s a := by
  have hring := step_bufs redisGet s a p
  constructor
  · have he := step_effect redisGet s a
    generalize step redisGet s a = s' at he
    cases he with
    | noPush | noRequest | noWorker | onConnect | onDisconnect | onRecv | pushIndex | take | put => rfl
    | _ => exact absurd rfl (ha _)
  · rw [hring]
    cases a with
    | loop mem => exact absurd rfl (ha mem)
    | onRecv i data =>
      show (ite (i = p) _ _ : RingBuffer UInt8 kDefaultRingBufferSize).contents = _ ++ ite _ _ _
      by_cases hi : i = p
      · rw [if_pos hi, if_pos hi, RingBuffer.enqueue_contents]
      · rw [if_neg hi, if_neg hi, List.append_nil]
    | _ => exact (List.append_nil _).symm

/-- of the bytes that have come, the ring holds as many as it can -/
theorem recount_other {s : Server} {a : Action} (ha : ∀ mem, a ≠ .loop mem) {p : Session} {k : Nat}
    (hk : (s.chat.bufs p).getSizeInUse = min k (kDefaultRingBufferSize - 1)) :
    ((step redisGet s a).chat.bufs p).getSizeInUse
      = min (recount p k (s, a)) (kDefaultRingBufferSize - 1) := by
  have hlen := congrArg List.length (step_other redisGet s ha p).2
  have hsum := (s.chat.bufs p).inUse_add_free
  rw [List.length_append, RingBuffer.contents_length, RingBuffer.contents_length] at hlen
  rw [hlen]
  cases a with
  | loop mem => exact absurd rfl (ha mem)
  | onRecv i data =>
    show _ + (ite (i = p) _ _ : List UInt8).length = min (ite (i = p) _ _) _
    by_cases hi : i = p
    · rw [if_pos hi, if_pos hi, List.length_take]
      omega
    · rw [if_neg hi, if_neg hi, List.length_nil]
      exact hk
  | _ => exact hk

/-- **The loop knows its packet.** -/
theorem inHand_step {h : History} {s : Server} (hin : InHand h s) (hs : s.chat.Fixed) (a : Action) :
    InHand (h ++ [(s, a)]) (step redisGet s a) where
  found pkt hpc := by
    rcases step_processPacket redisGet hpc with ⟨hpc, ha⟩ | ⟨p, hp, hchat⟩
    · obtain ⟨p, hp, hfront⟩ := hin.found pkt hpc
      refine ⟨p, hp, hfront.append ?_⟩
      rw [(step_other redisGet s ha p).2]
      exact List.prefix_append _ _
    · obtain ⟨hsess, hcomplete, hhead⟩ := getPacketData_session hs hp
      unfold AtFront
      rw [hchat]
      exact ⟨p, hsess, hcomplete, hhead⟩
  handled pkt hpc := by
    rcases step_completeProcess redisGet hpc with ⟨hpc, ha⟩ | ⟨k, hk, hpkt, hpc⟩
    · obtain ⟨p, hp, hlt, hring⟩ := hin.handled pkt hpc
      refine ⟨p, hp, hlt, ?_⟩
      by_cases hid : packetHandlers pkt.id = some .connect
      · rw [if_pos hid] at hring ⊢
        rw [receivedSinceClear_snoc]
        exact recount_other redisGet ha hring
      · rw [if_neg hid] at hring ⊢
        refine hring.append ?_
        rw [(step_other redisGet s ha p).2]
        exact List.prefix_append _ _
    · subst hpkt
      obtain ⟨p, hp, hfront⟩ := hin.found _ hpc
      obtain ⟨_, _, hid⟩ := call_spec hk
      have hlt := (s.chat.bufs p).getSizeInUse_lt
      have hring := step_bufs redisGet s a p
      refine ⟨p, hp, hfront.size_le.trans_lt hlt, ?_⟩
      by_cases hconnect : k.handler = .connect
      · -- the ring has just been cleared, and nothing has come since
        have hclear : k.Clears p := ⟨hconnect, hp⟩
        rw [if_pos (by rw [hid, hconnect]), hring, receivedSinceClear_snoc]
        simp only [ringAfter, recount, hk, if_pos hclear]
        rw [← RingBuffer.contents_length, RingBuffer.clearBuffer_contents]
        rfl
      · have hkeep : ringAfter p s a = s.chat.bufs p := by
          simp only [ringAfter, hk]
          exact if_neg fun hc => hconnect hc.1
        rw [if_neg (by rw [hid]; exact fun e => hconnect (Option.some.inj e))]
        refine hfront.append ?_
        rw [hring, hkeep]

theorem run_inHand (heap : Session → Fin kDefaultRingBufferSize → UInt8) (as : List Action) :
    InHand (hist (step redisGet) (start heap) as) (run (step redisGet) (start heap) as) := by
  refine (hist_keeps (step redisGet) (I := fun h s => InHand h s ∧ s.chat.Fixed)
    (C := fun _ _ _ => True) ⟨start_inHand heap, Chat.init_fixed heap⟩ ?_ as
    (fun _ _ _ _ => trivial)).1
  rintro h s a ⟨hin, hs⟩ -
  exact ⟨inHand_step redisGet hin hs a, step_fixed redisGet hs a⟩

/-! ## consumption -/

/-- a `CompleteProcess` takes its packet, and nothing but its packet, out of the ring -/
def Consumes (s : Server) (a : Action) (s' : Server) : Prop :=
  ∀ mem pkt, a = .loop mem → s.pc = .completeProcess pkt →
    ∃ p, getUserByIndex (int32 pkt.sessionIndex) = some p ∧
      pkt.size ≤ (s.chat.bufs p).getSizeInUse ∧
      (s'.chat.bufs p).getSizeInUse = (s.chat.bufs p).getSizeInUse - pkt.size ∧
      (s'.chat.bufs p).contents = (s.chat.bufs p).contents.drop pkt.size

/-- what can be read after a step could be read before it, or has just come -/
def NothingStale (s : Server) (a : Action) (s' : Server) : Prop :=
  ∀ p, (s'.chat.bufs p).contents <:+ (s.chat.bufs p).contents ++ arrived p s a

/-- at the `CompleteProcess` after a call of `ConnectHandler`, the bytes that have come since cover
the packet -/
def Covered (h : History) (s : Server) (a : Action) : Prop :=
  ∀ mem pkt p, a = .loop mem → s.pc = .completeProcess pkt →
    getUserByIndex (int32 pkt.sessionIndex) = some p → packetHandlers pkt.id = some .connect →
    pkt.size ≤ receivedSinceClear p h

theorem covered_of_consumes {h : History} {s : Server} (hin : InHand h s) {a : Action}
    (hc : Consumes s a (step redisGet s a)) : Covered h s a := by
  intro mem pkt p ha hpc hp hid
  obtain ⟨q, hq, hle, _⟩ := hc mem pkt ha hpc
  obtain ⟨p', hp', _, hring⟩ := hin.handled pkt hpc
  rw [hp] at hq hp'
  cases hq
  cases hp'
  rw [if_pos hid] at hring
  omega

theorem consumes_of_covered {h : History} {s : Server} (hin : InHand h s) {a : Action}
    (hc : Covered h s a) : Consumes s a (step redisGet s a) := by
  intro mem pkt ha hpc
  obtain ⟨p, hp, hlt, hring⟩ := hin.handled pkt hpc
  have hle : pkt.size ≤ (s.chat.bufs p).getSizeInUse := by
    by_cases hid : packetHandlers pkt.id = some .connect
    · rw [if_pos hid] at hring
      have := hc mem pkt p ha hpc hp hid
      omega
    · rw [if_neg hid] at hring
      exact hring.size_le
  subst ha
  have hmove : (step redisGet s (.loop mem)).chat.bufs p = (s.chat.bufs p).moveFront pkt.size := by
    have hcall : s.call (.loop mem) = none := call_eq_none (by rw [hpc]; rfl)
    rw [step_bufs]
    simp only [ringAfter, hcall, ringQuiet, hpc, if_pos hp]
  refine ⟨p, hp, hle, ?_, ?_⟩
  · rw [hmove, RingBuffer.moveFront_inUse _ hle]
  · rw [hmove, RingBuffer.moveFront_contents _ hle]

theorem nothingStale_of_consumes {s : Server} {a : Action}
    (hc : Consumes s a (step redisGet s a)) : NothingStale s a (step redisGet s a) := by
  intro p
  by_cases ha : ∀ mem, a ≠ .loop mem
  · rw [(step_other redisGet s ha p).2]
  obtain ⟨mem, rfl⟩ : ∃ mem, a = .loop mem := by
    by_contra hn
    exact ha (fun mem e => hn ⟨mem, e⟩)
  show _ <:+ _ ++ []
  rw [List.append_nil]
  by_cases hdone : ∃ pkt, s.pc = .completeProcess pkt ∧
      getUserByIndex (int32 pkt.sessionIndex) = some p
  · obtain ⟨pkt, hpc, hp⟩ := hdone
    obtain ⟨q, hq, _, _, hdrop⟩ := hc mem pkt rfl hpc
    rw [hp] at hq
    cases hq
    rw [hdrop]
    exact List.drop_suffix _ _
  · rw [step_bufs]
    unfold ringAfter
    split
    · split
      · rw [RingBuffer.clearBuffer_contents]
        exact List.nil_suffix
      · exact List.suffix_refl _
    · simp only [ringQuiet]
      split
      · next pkt hpc => rw [if_neg fun hp => hdone ⟨pkt, hpc, hp⟩]
      · exact List.suffix_refl _

/-- **Every `CompleteProcess` takes exactly its packet, and nothing stale comes back, exactly if
the bytes after each `ConnectHandler` call cover the packet that made the call.** -/
theorem consumption_iff (heap : Session → Fin kDefaultRingBufferSize → UInt8) (as : List Action) :
    (∀ bs a cs, as = bs ++ a :: cs →
        Consumes (run (step redisGet) (start heap) bs) a
            (step redisGet (run (step redisGet) (start heap) bs) a) ∧
          NothingStale (run (step redisGet) (start heap) bs) a
            (step redisGet (run (step redisGet) (start heap) bs) a))
      ↔ ∀ bs a cs, as = bs ++ a :: cs →
          Covered (hist (step redisGet) (start heap) bs) (run (step redisGet) (start heap) bs) a := by
  constructor
  · intro h bs a cs e
    exact covered_of_consumes redisGet (run_inHand redisGet heap bs) (h bs a cs e).1
  · intro h bs a cs e
    have hc := consumes_of_covered redisGet (run_inHand redisGet heap bs) (h bs a cs e)
    exact ⟨hc, nothingStale_of_consumes redisGet hc⟩

end

/-- a client sends a header with the id of the connect notice -/
def reservedId : List Action :=
  Action.receive 0 (clientPacket PacketId.sysUserConnect.val []) ++ Action.loops 2

/-- five bytes are taken out of a ring that has just been cleared: all of the array becomes
readable but five bytes -/
theorem overrun :
    ¬ (∀ as bs a cs, as = bs ++ a :: cs →
        Consumes (run (step fun _ => none) (start fun _ _ => 0) bs) a
            (step (fun _ => none) (run (step fun _ => none) (start fun _ _ => 0) bs) a) ∧
          NothingStale (run (step fun _ => none) (start fun _ _ => 0) bs) a
            (step (fun _ => none) (run (step fun _ => none) (start fun _ _ => 0) bs) a)) ∧
      ((run (step fun _ => none) (start fun _ _ => 0) reservedId).chat.bufs 0).getSizeInUse = 0 ∧
      ((run (step fun _ => none) (start fun _ _ => 0)
        (reservedId ++ Action.loops 1)).chat.bufs 0).getSizeInUse = 16379 := by
  have hpc : (run (step fun _ => none) (start fun _ _ => 0) reservedId).pc
      = .completeProcess ⟨0, 11, 5, .ring 0 0⟩ := by decide +kernel
  have hempty : ((run (step fun _ => none) (start fun _ _ => 0) reservedId).chat.bufs 0).getSizeInUse
      = 0 := by decide +kernel
  refine ⟨fun h => ?_, hempty, by decide +kernel⟩
  obtain ⟨p, hp, hle, _⟩ := (h (reservedId ++ [.loop Mem.zero]) reservedId (.loop Mem.zero) [] rfl).1
    Mem.zero _ rfl hpc
  have e : p = 0 := (Option.some.inj hp).symm
  rw [e, hempty] at hle
  exact absurd hle (by decide)

end Server

end Iocp
