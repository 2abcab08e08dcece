import IocpChatting.Content.Inbound
import IocpChatting.Lib.Framing

/-!
# From received bytes to dispatched packets

For one session the server is a `Framing.Reader`: its ring is the buffer, `EnqueuePacket` stores and
wakes, an entry of the index queue is a wake-up, the packet loop takes one packet at a time.

* `mailbox_step`     every step of the server is one step of the reader of session `i`, or none;
* `framing_run`      the packets of a well-formed stream are dispatched in order, each once, and when
                     the session rests none that has come is left.
-/

set_option linter.unusedSectionVars false
set_option autoImplicit false

namespace Iocp
open Runs Framing
open UserManager (getUserByIndex)

/-- id and size in a packet header -/
def packetFormat : Format UInt8 (Nat × Nat) where
  hdr := packetHeaderLength
  hdr_pos := by decide
  head l := ((PacketHeader.ofBytes (l.take packetHeaderLength)).id,
    (PacketHeader.ofBytes (l.take packetHeaderLength)).size)
  size := Prod.snd
  head_append l x h := by rw [List.take_append_of_le_length h]

structure WellFormed (p : List UInt8) : Prop where
  frame : packetFormat.IsFrame p
  id : (packetFormat.head p).1 ∈ requestIds
  size : p.length ≤ 16383

/-- `ProcessPacket` has a handler for the id -/
def registered (x : Nat × Nat) : Bool := (packetHandlers x.1).isSome

theorem registered_request {id : Nat} (size : Nat) (h : id ∈ requestIds) :
    registered (id, size) = true := by
  have hall : ∀ id ∈ requestIds, (packetHandlers id).isSome = true := by decide
  exact hall id h

namespace Server

/-- what the packet loop is doing for session `i` -/
def phaseOf (i : Session) : LoopPc → Phase (Nat × Nat)
  | .processPacket pkt =>
    if getUserByIndex (int32 pkt.sessionIndex) = some i then .found (pkt.id, pkt.size) else .idle
  | .completeProcess pkt =>
    if getUserByIndex (int32 pkt.sessionIndex) = some i then .handled (pkt.id, pkt.size) else .idle
  | .pushIndex sessionIndex =>
    if getUserByIndex (int32 sessionIndex) = some i then .again else .idle
  | _ => .idle

def mailbox (i : Session) (s : Server) : Reader UInt8 (Nat × Nat) where
  buffer := (s.chat.bufs i).contents
  phase := phaseOf i s.pc
  wakes := s.incomingQueue.count ((i : Nat) : Int) + s.storing.count i

/-- what a step is to the reader of session `i` -/
def eventOf (i : Session) (s : Server) : Action → Option (Event UInt8)
  | .onRecv j data => if j = i then some (.store data) else none
  | .loop _ =>
    match s.pc with
    | .dequeuePacket => if s.incomingQueue.head? = some ((i : Nat) : Int) then some .look else none
    | .processPacket _ => some .handle
    | .completeProcess _ => some .finish
    | .pushIndex _ => some .push
    | _ => none
  | _ => none

/-- a chunk for `i` fits into the ring, and no `ConnectHandler` clears it -/
def Steady (i : Session) (s : Server) : Action → Prop
  | .onRecv j data => j = i → data.length ≤ (s.chat.bufs i).getFreeSize
  | .loop mem => ∀ k ∈ s.call (.loop mem), k.handler = .connect → k.session ≠ some i
  | _ => True

instance (i : Session) (s : Server) : (a : Action) → Decidable (s.Steady i a)
  | .onRecv j data => inferInstanceAs (Decidable (j = i → data.length ≤ (s.chat.bufs i).getFreeSize))
  | .loop mem => inferInstanceAs
      (Decidable (∀ k ∈ s.call (.loop mem), k.handler = .connect → k.session ≠ some i))
  | .onConnect _ | .onDisconnect _ | .pushIndex _ | .redisTake | .redisPut _ _ => .isTrue trivial

theorem getPacketData_session {s : Server} (hs : s.chat.Fixed) {p : Session} {pkt : PacketInfo}
    (h : (s.chat.users.pool p).getPacketData p = some pkt) :
    getUserByIndex (int32 pkt.sessionIndex) = some p ∧
      packetFormat.Complete (s.chat.bufs p).contents ∧
      (pkt.id, pkt.size) = packetFormat.head (s.chat.bufs p).contents := by
  rw [User.getPacketData_eq] at h
  split at h
  · next hp =>
    have e := Option.some.inj h
    subst e
    refine ⟨?_, hp, rfl⟩
    show getUserByIndex (int32 (uint32 (s.chat.users.pool p).sessionIdx)) = some p
    rw [hs.sessionIdx, uint32_session, getUserByIndex_int32]
  · cases h

theorem getPacketData_none {s : Server} {p : Session}
    (h : (s.chat.users.pool p).getPacketData p = none) :
    ¬ packetFormat.Complete (s.chat.bufs p).contents := by
  rw [User.getPacketData_eq] at h
  split at h
  · cases h
  · next hp => exact hp

section
variable (redisGet : CStr → Option (List UInt8)) {i : Session} {s : Server}

theorem mailbox_receive (j : Session) (data : List UInt8)
    (hfits : j = i → data.length ≤ (s.chat.bufs i).getFreeSize) :
    mailbox i { s.storePacket j data with storing := j :: s.storing }
      = (mailbox i s).step packetFormat registered (eventOf i s (.onRecv j data)) := by
  have hbufs : (s.storePacket j data).chat.bufs
      = Function.update s.chat.bufs j ((s.chat.bufs j).enqueue data).1 := Chat.bufs_setUser s.chat j _
  show Reader.mk ((s.storePacket j data).chat.bufs i).contents _ _ = _
  rw [hbufs]
  by_cases hj : j = i
  · subst hj
    have hcont : ((s.chat.bufs j).enqueue data).1.contents = (s.chat.bufs j).contents ++ data := by
      rw [RingBuffer.enqueue_contents, List.take_of_length_le (hfits rfl)]
    have hev : eventOf j s (.onRecv j data) = some (.store data) := if_pos rfl
    rw [Function.update_self, hcont, hev]
    show Reader.mk _ _ (_ + List.count j (j :: s.storing)) = Reader.mk _ _ (_ + _ + 1)
    rw [List.count_cons_self, Nat.add_assoc]
    rfl
  · have hev : eventOf i s (.onRecv j data) = none := if_neg hj
    rw [Function.update_of_ne (fun e => hj e.symm), hev]
    show Reader.mk _ _ (_ + List.count i (j :: s.storing)) = Reader.mk _ _ _
    rw [List.count_cons_of_ne hj]
    rfl

theorem mailbox_pushIndex {j : Session} (hj : j ∈ s.storing) :
    mailbox i { s.pushIncoming (j : Nat) with storing := s.storing.erase j } = mailbox i s := by
  show Reader.mk _ _ (List.count _ (s.incomingQueue ++ [((j : Nat) : Int)]) + List.count i (s.storing.erase j)) = _
  rw [List.count_append, List.count_singleton]
  by_cases h : j = i
  · subst h
    have hpos : 0 < s.storing.count j := List.count_pos_iff.mpr hj
    rw [List.count_erase_self, if_pos (beq_self_eq_true _)]
    unfold mailbox
    congr 1
    omega
  · have hne : ((j : Nat) : Int) ≠ (i : Nat) := fun e => h (session_inj e)
    rw [List.count_erase_of_ne (fun e => h e.symm), if_neg (by simpa using hne)]
    rfl

theorem mailbox_noPacket {mem : Mem} {x : Int} {rest : List Int} (hpc : s.pc = .dequeuePacket)
    (hq : s.incomingQueue = x :: rest)
    (hx : ∀ p, getUserByIndex x = some p → (s.chat.users.pool p).getPacketData p = none) :
    mailbox i { s with incomingQueue := rest, pc := .dequeueSystemPacket }
      = (mailbox i s).step packetFormat registered (eventOf i s (.loop mem)) := by
  unfold mailbox
  simp only [eventOf, hpc, hq, List.head?_cons, Option.some.injEq, phaseOf]
  by_cases h : x = (i : Nat)
  · have hnone := getPacketData_none (hx i (getUserByIndex_eq_some.mpr h))
    rw [if_pos h, h, List.count_cons_self]
    simp only [Reader.step, if_neg hnone]
    congr 1
    omega
  · rw [if_neg h, List.count_cons_of_ne h]
    rfl

theorem mailbox_dequeue (hs : s.chat.Fixed) {mem : Mem} {x : Int} {rest : List Int} {p : Session}
    {pkt : PacketInfo} (hpc : s.pc = .dequeuePacket) (hq : s.incomingQueue = x :: rest)
    (hx : getUserByIndex x = some p) (hp : (s.chat.users.pool p).getPacketData p = some pkt) :
    mailbox i { s with incomingQueue := rest, pc := .processPacket pkt }
      = (mailbox i s).step packetFormat registered (eventOf i s (.loop mem)) := by
  obtain ⟨hpkt, hc, hhead⟩ := getPacketData_session hs hp
  have hxp := getUserByIndex_eq_some.mp hx
  unfold mailbox
  simp only [eventOf, hpc, hq, List.head?_cons, Option.some.injEq, phaseOf, hpkt]
  by_cases h : p = i
  · subst h
    rw [if_pos hxp, if_pos rfl, hxp, List.count_cons_self, hhead]
    simp only [Reader.step, if_pos hc]
    congr 1
    omega
  · have hne : x ≠ (i : Nat) := fun e => h (session_inj (hxp.symm.trans e))
    rw [if_neg hne, if_neg h, List.count_cons_of_ne hne]
    rfl

/-- a handler call hands the packet on, or is for a system packet or a response -/
theorem mailbox_packet {mem : Mem} {source : Source} {pkt : PacketInfo} (s' : Server)
    (hpc : s.pc.packet = some (source, pkt))
    (hpc' : s'.pc = if registered (pkt.id, pkt.size) then s.pc.ran else s.pc.skipped)
    (hbuf : s'.chat.bufs i = s.chat.bufs i) (hq : s'.incomingQueue = s.incomingQueue)
    (hst : s'.storing = s.storing) :
    mailbox i s' = (mailbox i s).step packetFormat registered (eventOf i s (.loop mem)) := by
  unfold mailbox
  rw [hbuf, hq, hst, hpc']
  cases hk : s.pc with
  | processPacket pkt' =>
    rw [hk] at hpc
    cases hpc
    simp only [eventOf, hk, LoopPc.ran, LoopPc.skipped, phaseOf]
    by_cases h : getUserByIndex (int32 pkt.sessionIndex) = some i
    · simp only [if_pos h, Reader.step]
      cases registered (pkt.id, pkt.size) with
      | true => simp only [if_true, if_pos h]
      | false => simp only [Bool.false_eq_true, if_false]
    · simp only [if_neg h, Reader.step]
      cases registered (pkt.id, pkt.size) with
      | true => simp only [if_true, if_neg h]
      | false => simp only [Bool.false_eq_true, if_false]
  | processSystemPacket pkt' | processTaskRes t =>
    simp only [eventOf, hk, LoopPc.ran, LoopPc.skipped, ite_self, phaseOf]
    rfl
  | _ => rw [hk] at hpc; cases hpc

theorem completeProcess_done (m : UserManager) {k : Nat} {p : Session} (size : Nat)
    (hp : getUserByIndex (int32 k) = some p) :
    (m.completeProcess k size).2 = false ↔
      ((m.pool p).packetBuf.moveFront size).contents ≠ [] := by
  have hlen := ((m.pool p).packetBuf.moveFront size).contents_length
  unfold UserManager.completeProcess
  rw [hp]
  show (if (if ((m.pool p).packetBuf.moveFront size).getSizeInUse > 0 then false else true) = false
    then false else true) = false ↔ _
  rw [← hlen, ← List.length_pos_iff]
  by_cases h : 0 < ((m.pool p).packetBuf.moveFront size).contents.length
  · simp
  · simp

theorem afterComplete_bufs (s : Server) {pkt : PacketInfo} {p : Session}
    (hp : getUserByIndex (int32 pkt.sessionIndex) = some p) :
    (s.afterComplete pkt).chat.bufs
      = Function.update s.chat.bufs p ((s.chat.bufs p).moveFront pkt.size) := by
  unfold afterComplete UserManager.completeProcess
  rw [hp]
  exact Chat.bufs_setUser s.chat p _

theorem mailbox_complete {mem : Mem} {pkt : PacketInfo} (hpc : s.pc = .completeProcess pkt)
    (henough : (mailbox i s).Enough packetFormat) :
    mailbox i { s.afterComplete pkt with
        pc := if (s.chat.users.completeProcess pkt.sessionIndex pkt.size).2 = false
          then .pushIndex pkt.sessionIndex else .dequeueSystemPacket }
      = (mailbox i s).step packetFormat registered (eventOf i s (.loop mem)) := by
  have hev : eventOf i s (.loop mem) = some .finish := by simp only [eventOf, hpc]
  rw [hev]
  by_cases h : getUserByIndex (int32 pkt.sessionIndex) = some i
  · have hph : (mailbox i s).phase = .handled (pkt.id, pkt.size) := by
      show phaseOf i s.pc = _
      rw [hpc]
      exact if_pos h
    have hsize : pkt.size ≤ (s.chat.bufs i).getSizeInUse := by
      simp only [Reader.Enough, hph] at henough
      rw [← RingBuffer.contents_length]
      exact henough
    have hdrop : ((s.chat.bufs i).moveFront pkt.size).contents
        = (s.chat.bufs i).contents.drop pkt.size := RingBuffer.moveFront_contents _ hsize
    have hdone := completeProcess_done s.chat.users pkt.size h
    rw [show ((s.chat.users.pool i).packetBuf.moveFront pkt.size).contents = _ from hdrop] at hdone
    have hbuf : (s.afterComplete pkt).chat.bufs i = (s.chat.bufs i).moveFront pkt.size := by
      rw [afterComplete_bufs s h, Function.update_self]
    simp only [Reader.step, hph]
    show Reader.mk ((s.afterComplete pkt).chat.bufs i).contents (phaseOf i (ite _ _ _)) _ = _
    rw [hbuf, hdrop]
    by_cases hnil : (s.chat.bufs i).contents.drop pkt.size = []
    · have hpc' : (if (s.chat.users.completeProcess pkt.sessionIndex pkt.size).2 = false
          then LoopPc.pushIndex pkt.sessionIndex else .dequeueSystemPacket) = .dequeueSystemPacket :=
        if_neg (fun e => hdone.mp e hnil)
      have hnil' : List.drop (packetFormat.size (pkt.id, pkt.size)) (mailbox i s).buffer = [] := hnil
      rw [hpc', if_pos hnil']
      rfl
    · have hpc' : (if (s.chat.users.completeProcess pkt.sessionIndex pkt.size).2 = false
          then LoopPc.pushIndex pkt.sessionIndex else .dequeueSystemPacket)
            = .pushIndex pkt.sessionIndex := if_pos (hdone.mpr hnil)
      have hnil' : ¬ List.drop (packetFormat.size (pkt.id, pkt.size)) (mailbox i s).buffer = [] := hnil
      rw [hpc', if_neg hnil', show phaseOf i (.pushIndex pkt.sessionIndex) = .again from if_pos h]
      rfl
  · have hph : (mailbox i s).phase = .idle := by
      show phaseOf i s.pc = _
      rw [hpc]
      exact if_neg h
    have hbuf : (s.afterComplete pkt).chat.bufs i = s.chat.bufs i := by
      cases hp : getUserByIndex (int32 pkt.sessionIndex) with
      | none =>
        unfold afterComplete UserManager.completeProcess
        rw [hp]
      | some p =>
        rw [afterComplete_bufs s hp, Function.update_of_ne]
        rintro rfl
        exact h hp
    have hidle : ∀ b : Bool, phaseOf i
        (if b = false then LoopPc.pushIndex pkt.sessionIndex else .dequeueSystemPacket) = .idle := by
      intro b
      cases b with
      | true => rfl
      | false => exact if_neg h
    simp only [Reader.step, hph]
    show Reader.mk ((s.afterComplete pkt).chat.bufs i).contents (phaseOf i (ite _ _ _)) _ = _
    rw [hbuf, hidle, ← hph]
    rfl

theorem mailbox_repush {mem : Mem} {k : Nat} (hpc : s.pc = .pushIndex k) :
    mailbox i { s.pushIncoming (int32 k) with pc := .dequeueSystemPacket }
      = (mailbox i s).step packetFormat registered (eventOf i s (.loop mem)) := by
  have hev : eventOf i s (.loop mem) = some .push := by simp only [eventOf, hpc]
  rw [hev]
  show Reader.mk _ _ (List.count _ (s.incomingQueue ++ [int32 k]) + _) = _
  rw [List.count_append, List.count_singleton]
  by_cases h : getUserByIndex (int32 k) = some i
  · have hph : (mailbox i s).phase = .again := by
      show phaseOf i s.pc = _
      rw [hpc]
      exact if_pos h
    have hk := getUserByIndex_eq_some.mp h
    simp only [Reader.step, hph]
    rw [if_pos (by simpa using hk)]
    unfold mailbox
    congr 1
    exact Nat.add_right_comm _ _ _
  · have hph : phaseOf i s.pc = .idle := by
      rw [hpc]
      exact if_neg h
    have hk : int32 k ≠ (i : Nat) := fun e => h (getUserByIndex_eq_some.mpr e)
    unfold mailbox
    simp only [Reader.step, hph]
    rw [if_neg (by simpa using hk)]
    rfl

/-- **Every step of the server is one step of the reader of session `i`, or none.** -/
theorem mailbox_step (hs : s.chat.Fixed) (henough : (mailbox i s).Enough packetFormat) {a : Action}
    (hsteady : s.Steady i a) :
    mailbox i (step redisGet s a) = (mailbox i s).step packetFormat registered (eventOf i s a) := by
  have he := step_effect redisGet s a
  generalize step redisGet s a = s' at he
  cases he with
  | noPush | noRequest | noWorker | onConnect | onDisconnect | take | put => rfl
  | onRecv j data => exact mailbox_receive j data hsteady
  | pushIndex hj => exact mailbox_pushIndex hj
  | noPacket hpc hq hx => exact mailbox_noPacket hpc hq hx
  | dequeue hpc hq hx hp => exact mailbox_dequeue hs hpc hq hx hp
  | @call mem k hk =>
    -- the handler may do anything to rooms and users, but the ring of `i` it leaves alone
    obtain ⟨_, hpc, hid⟩ := call_spec hk
    have hreg : registered (k.pkt.id, k.pkt.size) = true := by
      unfold registered
      rw [hid]
      rfl
    refine mailbox_packet { s with chat := k.run s.chat, pc := s.pc.ran } hpc ?_ ?_ rfl rfl
    · rw [if_pos hreg]
    · show (k.run s.chat).bufs i = _
      rw [call_bufs, if_neg]
      rintro ⟨hd, hi⟩
      exact hsteady k hk hd hi
  | @skip mem source pkt hpc hid =>
    have hreg : ¬ registered (pkt.id, pkt.size) = true := by
      unfold registered
      rw [hid]
      simp
    exact mailbox_packet { s with pc := s.pc.skipped } hpc (if_neg hreg).symm rfl rfl rfl
  | complete hpc => exact mailbox_complete hpc henough
  | repush hpc => exact mailbox_repush hpc
  | noIndex hpc hq =>
    unfold mailbox
    simp only [eventOf, hpc, hq, List.head?_nil]
    rfl
  | noSystem hpc hq | system hpc hq | noTask hpc hq | task hpc hq =>
    unfold mailbox
    simp only [eventOf, hpc]
    rfl

end

/-! ## whole runs -/

def received (i : Session) (h : History) : List UInt8 :=
  h.flatMap fun x =>
    match x.2 with
    | .onRecv j data => if j = i then data else []
    | _ => []

/-- id and size of the packets of session `i` that `ProcessPacket` was called with -/
def dispatched (i : Session) (h : History) : List (Nat × Nat) :=
  h.flatMap fun x =>
    match x.2, x.1.pc with
    | .loop _, .processPacket pkt =>
      if getUserByIndex (int32 pkt.sessionIndex) = some i then [(pkt.id, pkt.size)] else []
    | _, _ => []

/-- `ProcessPacket` for a packet of `i` is in progress -/
def Busy (i : Session) : LoopPc → Prop
  | .processPacket pkt | .completeProcess pkt => getUserByIndex (int32 pkt.sessionIndex) = some i
  | .pushIndex k => getUserByIndex (int32 k) = some i
  | _ => False

/-- the index of `i` is in no queue, no `EnqueuePacket` and no `ProcessPacket` for it is in progress -/
structure Resting (i : Session) (s : Server) : Prop where
  queue : ((i : Nat) : Int) ∉ s.incomingQueue
  storing : i ∉ s.storing
  loop : ¬ Busy i s.pc

/-- nothing of an earlier stream is left: the ring is empty, and so are the hands of the loop -/
structure Fresh (i : Session) (s : Server) : Prop where
  ring : (s.chat.bufs i).contents = []
  loop : ¬ Busy i s.pc

theorem phaseOf_idle {i : Session} {pc : LoopPc} (h : ¬ Busy i pc) : phaseOf i pc = .idle := by
  cases pc with
  | processPacket pkt | completeProcess pkt | pushIndex k => exact if_neg h
  | _ => rfl

theorem stored_mailbox (i : Session) (h : History) :
    Reader.stored (h.map fun x => (mailbox i x.1, eventOf i x.1 x.2)) = received i h := by
  unfold Reader.stored received
  rw [List.flatMap_map]
  congr 1
  funext x
  obtain ⟨s, a⟩ := x
  cases a with
  | onRecv j data =>
    simp only [eventOf]
    by_cases hj : j = i
    · rw [if_pos hj, if_pos hj]
      rfl
    · rw [if_neg hj, if_neg hj]
      rfl
  | loop mem =>
    simp only [eventOf]
    cases s.pc with
    | dequeuePacket =>
      simp only
      split <;> rfl
    | _ => rfl
  | _ => rfl

theorem handed_mailbox (i : Session) (h : History) :
    Reader.handed (h.map fun x => (mailbox i x.1, eventOf i x.1 x.2)) = dispatched i h := by
  unfold Reader.handed dispatched
  rw [List.flatMap_map]
  congr 1
  funext x
  obtain ⟨s, a⟩ := x
  cases a with
  | onRecv j data =>
    simp only [eventOf]
    split <;> rfl
  | loop mem =>
    simp only [eventOf]
    cases hpc : s.pc with
    | processPacket pkt =>
      simp only [Reader.handedBy, mailbox, hpc, phaseOf]
      by_cases hi : getUserByIndex (int32 pkt.sessionIndex) = some i
      · simp only [if_pos hi]
      · simp only [if_neg hi]
    | dequeuePacket =>
      simp only
      split <;> rfl
    | _ => rfl
  | _ => rfl

/-- **Framing is exact.**  From a fresh session on, if its bytes are requests and a truncated one at
the end, every chunk fits and no `ConnectHandler` runs for it, then its requests are dispatched in
order, each once; and when the session rests, those that have come are dispatched. -/
theorem framing_run (redisGet : CStr → Option (List UInt8))
    (heap : Session → Fin kDefaultRingBufferSize → UInt8) (as₀ as : List Action) (i : Session)
    (ps : List (List UInt8)) (t : List UInt8)
    (hfresh : (run (step redisGet) (start heap) as₀).Fresh i)
    (hps : ∀ p ∈ ps, WellFormed p) (ht : ¬ packetFormat.Complete t)
    (hstream : received i (hist (step redisGet) (run (step redisGet) (start heap) as₀) as)
      <+: ps.flatten ++ t)
    (hsteady : ∀ x ∈ hist (step redisGet) (run (step redisGet) (start heap) as₀) as,
      x.1.Steady i x.2) :
    dispatched i (hist (step redisGet) (run (step redisGet) (start heap) as₀) as)
        <+: ps.map packetFormat.head ∧
      (Resting i (run (step redisGet) (run (step redisGet) (start heap) as₀) as) →
        ∀ qs, qs <+: ps →
          qs.flatten <+: received i (hist (step redisGet) (run (step redisGet) (start heap) as₀) as) →
          qs.map packetFormat.head
            <+: dispatched i (hist (step redisGet) (run (step redisGet) (start heap) as₀) as)) := by
  generalize hs₀ : run (step redisGet) (start heap) as₀ = s₀ at hfresh hstream hsteady ⊢
  have hframes : ∀ p ∈ ps, packetFormat.IsFrame p := fun p hp => (hps p hp).frame
  have hreg : ∀ p ∈ ps, registered (packetFormat.head p) = true :=
    fun p hp => registered_request _ (hps p hp).id
  have hbegin : mailbox i s₀ = ⟨[], .idle, (mailbox i s₀).wakes⟩ := by
    unfold mailbox
    rw [hfresh.ring, phaseOf_idle hfresh.loop]
  have henough : (mailbox i s₀).Enough packetFormat := by
    rw [hbegin]
    trivial
  have hfixed : s₀.chat.Fixed := by
    rw [← hs₀]
    exact (run_sound redisGet heap as₀).fixed
  -- the run of the server is a run of the reader, with the same bytes in and the same heads out
  obtain ⟨hrun, hhist⟩ := run_refines (step redisGet) (Reader.step packetFormat registered)
    (mailbox i) (eventOf i) (J := fun s => s.chat.Fixed ∧ (mailbox i s).Enough packetFormat)
    (C := fun s a => s.Steady i a)
    (fun s a hJ hC => ⟨step_fixed redisGet hJ.1 a, by
      rw [mailbox_step redisGet hJ.1 hJ.2 hC]
      exact Reader.enough_step hJ.2 _⟩)
    (fun s a hJ hC => mailbox_step redisGet hJ.1 hJ.2 hC) ⟨hfixed, henough⟩ as hsteady
  rw [hbegin] at hrun hhist
  have hstored := congrArg Reader.stored hhist
  have hhanded := congrArg Reader.handed hhist
  rw [stored_mailbox] at hstored
  rw [handed_mailbox] at hhanded
  have htracks := Reader.tracks_run hframes hreg ht (mailbox i s₀).wakes
    ((hist (step redisGet) s₀ as).map fun x => eventOf i x.1 x.2) (by rw [hstored]; exact hstream)
  rw [hstored, hhanded, ← hrun] at htracks
  refine ⟨htracks.handed_initial, fun hrest qs hqs hcome => ?_⟩
  refine htracks.all_handed hframes (phaseOf_idle hrest.loop) ?_ hqs hcome
  show List.count _ _ + List.count _ _ = 0
  rw [List.count_eq_zero_of_not_mem hrest.queue, List.count_eq_zero_of_not_mem hrest.storing]

def connected : List Action := [.onConnect 0] ++ Action.loops 4

/-- two requests and the start of a third one in one chunk, then enough turns of the loop for both -/
def twoLeaves : List Action :=
  Action.receive 0 (roomLeavePacket ++ roomLeavePacket ++ [5, 0]) ++ Action.loops 20

theorem framing_run_two_leaves :
    dispatched 0 (hist (step fun _ => none) (run (step fun _ => none) (start fun _ _ => 0) connected)
        twoLeaves) <+: [roomLeavePacket, roomLeavePacket].map packetFormat.head ∧
      (Resting 0 (run (step fun _ => none)
          (run (step fun _ => none) (start fun _ _ => 0) connected) twoLeaves) →
        ∀ qs, qs <+: [roomLeavePacket, roomLeavePacket] →
          qs.flatten <+: received 0 (hist (step fun _ => none)
            (run (step fun _ => none) (start fun _ _ => 0) connected) twoLeaves) →
          qs.map packetFormat.head <+: dispatched 0 (hist (step fun _ => none)
            (run (step fun _ => none) (start fun _ _ => 0) connected) twoLeaves)) := by
  refine framing_run _ _ connected twoLeaves 0 [roomLeavePacket, roomLeavePacket] [5, 0]
    ⟨by decide +kernel, ?_⟩ ?_ (by decide) ?_ ?_
  · have hpc : (run (step fun _ => none) (start fun _ _ => 0) connected).pc = .dequeuePacket := by
      decide +kernel
    rw [hpc]
    exact id
  · intro p hp
    have e : p = roomLeavePacket := by simpa using hp
    rw [e]
    exact ⟨⟨by decide, by decide⟩, by decide, by decide⟩
  · decide +kernel
  · have h : ∀ x ∈ hist (step fun _ => none)
        (run (step fun _ => none) (start fun _ _ => 0) connected) twoLeaves, x.1.Steady 0 x.2 := by
      decide +kernel
    exact h

example : dispatched 0 (hist (step fun _ => none)
    (run (step fun _ => none) (start fun _ _ => 0) connected) twoLeaves) = [(215, 5), (215, 5)] := by
  decide +kernel

end Server

end Iocp
