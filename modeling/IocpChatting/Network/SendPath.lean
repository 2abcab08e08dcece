import IocpChatting.Network.Activation

/-!
# The send path of one connection

`WSASend` is given everything that is in the send ring, and `BindSend` moves as much out of it as
`sent_bytes` says.  A send that stays pending says 0, and its bytes stay in the ring for the next one.

* `enqueued`, `accepted`   what `EnqueueSendData` is called with, and what `WSASend` takes;
* `InOrder`             the bytes accepted and the bytes in the ring make up the bytes enqueued;
* `in_order_run`        so the bytes are sent once and in order, as long as `SendsOnce` holds of every step;
* `sent_again`          and a run in which it does not.
-/

set_option linter.unusedSectionVars false
set_option autoImplicit false

namespace Iocp
open Runs Census

namespace Network

variable {W : Nat} {s : Network W} {i : SessionIdx}

/-! ## what goes in and out -/

/-- the data of a call of `EnqueueSendData` of `i` -/
def enqueued (s : Network W) (i : SessionIdx) : Action W → List UInt8
  | .sendPacket idx data =>
    if s.crashed = false ∧ getSessionByIdx idx = some i ∧ s.sendLocked i = false then data else []
  | _ => []

/-- the bytes that a call of `WSASend` of `i` takes -/
def accepted (s : Network W) (i : SessionIdx) : Action W → List UInt8
  | .sender result =>
    match s.sender with
    | .wsaSend j bufs =>
      if s.crashed = false ∧ j = i ∧ (s.connectedSocket i).isSome then
        match result with
        | .error => []
        | .pending => (s.session i).wsaBytes bufs
        | .sent n => ((s.session i).wsaBytes bufs).take n
      else []
    | _ => []
  | _ => []

/-- what the sender has sent and has still to move out of the ring -/
def sentBytes (s : Network W) (i : SessionIdx) : Nat :=
  match s.sender with
  | .moveFront j n => if j = i then n else 0
  | _ => 0

/-- `i` has a connection, and `Activate` is over -/
def Live (s : Network W) (i : SessionIdx) : Prop :=
  (s.session i).isActivated = true ∧ (s.slot i).count .finishing = 0

instance (s : Network W) (i : SessionIdx) : Decidable (s.Live i) := inferInstanceAs (Decidable (_ ∧ _))

/-- The bytes accepted and the bytes that stay in the ring are the bytes enqueued; a gather list that has
been filled is the one of the ring as it is. -/
structure InOrder (i : SessionIdx) (acc enq : List UInt8) (s : Network W) : Prop where
  ring : acc ++ (s.session i).sendBuf.contents.drop (s.sentBytes i) = enq
  sent : s.sentBytes i ≤ (s.session i).sendBuf.getSizeInUse
  gather : ∀ bufs, s.sender = .wsaSend i bufs → bufs = (s.session i).setWsaBuf

theorem InOrder.initial {acc enq : List UInt8} (h : InOrder i acc enq s)
    (hsent : s.sentBytes i = 0) : acc ++ (s.session i).sendBuf.contents = enq := by
  have := h.ring
  rwa [hsent, List.drop_zero] at this

/-! ## steps on a live connection -/

theorem setWsaBuf_congr {x y : Session} (h : y.sendBuf = x.sendBuf) : y.setWsaBuf = x.setWsaBuf := by
  unfold Session.setWsaBuf
  rw [h]

/-- nobody clears the send ring of a live connection -/
theorem Live.not_cleared (h : s.Live i) (ho : (s.slot i).Owned) :
    (∀ w, s.worker w ≠ .clearBuffer i) ∧ ¬ s.InClose i .clearSendBuffer := by
  constructor
  · intro w hpc
    have h1 : 1 ≤ (s.slot i).count .finishing := count_worker (w := w) (by
      rw [hpc]
      exact phaseAt_self i _)
    have h2 := h.2
    omega
  · intro hc
    have h1 := inClose_count hc (p := .closing) rfl
    have h2 := Slot.le_owners (count_nonneg s i) (p := .closing) rfl
    have h3 : (s.slot i).active = 1 := if_pos h.1
    have h4 := ho.one
    omega

/-- who writes the send ring of a live connection -/
theorem Writes.sendBuf {a : Action W} {y : Session} (h : s.Writes a i y) (hl : s.Live i)
    (ho : (s.slot i).Owned) :
    y.sendBuf = (s.session i).sendBuf ∨
      (∃ n result, a = .sender result ∧ s.sender = .moveFront i n) ∨
      ∃ idx data, a = .sendPacket idx data ∧ getSessionByIdx idx = some i ∧ s.sendLocked i = false := by
  obtain ⟨hclear, hclose⟩ := hl.not_cleared ho
  cases h with
  | clear hw =>
    rcases hw with ⟨w, hw⟩ | hw
    · exact absurd hw (hclear w)
    · exact absurd hw hclose
  | moveFront n hw =>
    obtain ⟨hpc, result, ha⟩ := hw
    exact .inr (.inl ⟨n, result, ha, hpc⟩)
  | enqueue idx data hw => exact .inr (.inr ⟨idx, data, hw⟩)
  | _ => exact .inl rfl

/-- a step that neither moves the sender nor writes the ring -/
theorem InOrder.keep {acc enq : List UInt8} {s' : Network W} (h : InOrder i acc enq s)
    (hsender : s'.sender = s.sender) (hbuf : (s'.session i).sendBuf = (s.session i).sendBuf) :
    InOrder i acc enq s' := by
  have e : s'.sentBytes i = s.sentBytes i := by unfold sentBytes; rw [hsender]
  refine ⟨?_, ?_, ?_⟩
  · rw [e, hbuf]
    exact h.ring
  · rw [e, hbuf]
    exact h.sent
  · intro bufs hpc
    rw [hsender] at hpc
    rw [setWsaBuf_congr hbuf]
    exact h.gather bufs hpc

/-- the sender goes on, and is not at one of the last two statements of `BindSend` -/
theorem InOrder.move {acc enq : List UInt8} {s' : Network W} (h : InOrder i acc enq s)
    (hbefore : s.sentBytes i = 0) (hafter : s'.sentBytes i = 0) (hnot : ∀ bufs, s'.sender ≠ .wsaSend i bufs)
    (hbuf : (s'.session i).sendBuf = (s.session i).sendBuf) : InOrder i acc enq s' := by
  refine ⟨?_, ?_, ?_⟩
  · rw [hafter, List.drop_zero, hbuf]
    exact h.initial hbefore
  · rw [hafter]
    exact Nat.zero_le _
  · exact fun bufs hpc => absurd hpc (hnot bufs)

/-- the sender has left `WSASend` and `MoveFront`, or has not come to them -/
def SenderPc.Outside : SenderPc → Prop
  | .wsaSend _ _ | .moveFront _ _ => False
  | _ => True

theorem nextSend_outside (j : SessionIdx) : (nextSend j).Outside := by
  unfold nextSend
  cases nextIdx j <;> trivial

theorem senderInClose_outside (j : SessionIdx) (next : Option ClosePc) :
    (SenderPc.inClose j next).Outside := by
  cases next with
  | some pc => trivial
  | none => exact nextSend_outside j

theorem sentBytes_outside (h : s.sender.Outside) : s.sentBytes i = 0 := by
  unfold sentBytes
  cases hpc : s.sender with
  | moveFront j n =>
    rw [hpc] at h
    exact h.elim
  | _ => rfl

theorem InOrder.outside {acc enq : List UInt8} {s' : Network W} (h : InOrder i acc enq s)
    (hbefore : s.sender.Outside) (hafter : s'.sender.Outside)
    (hbuf : (s'.session i).sendBuf = (s.session i).sendBuf) : InOrder i acc enq s' := by
  refine h.move (sentBytes_outside hbefore) (sentBytes_outside hafter) (fun bufs hpc => ?_) hbuf
  rw [hpc] at hafter
  exact hafter

/-- the sender fills the gather list -/
theorem inOrder_gather {acc enq : List UInt8} (h : InOrder i acc enq s) {j : SessionIdx}
    (hpc : s.sender = .setSendOverlapped j) (result : SendResult)
    (hbuf : ((s.senderStep result).session i).sendBuf = (s.session i).sendBuf) :
    InOrder i acc enq (s.senderStep result) := by
  have hsender : (s.senderStep result).sender = .wsaSend j (s.session j).setWsaBuf := by
    simp only [senderStep, hpc]
  have hsent : (s.senderStep result).sentBytes i = 0 := by simp only [sentBytes, hsender]
  refine ⟨?_, ?_, ?_⟩
  · rw [hsent, List.drop_zero, hbuf]
    exact h.initial (sentBytes_outside (by rw [hpc]; trivial))
  · rw [hsent]
    exact Nat.zero_le _
  · intro bufs e
    rw [hsender] at e
    obtain ⟨rfl, rfl⟩ := SenderPc.wsaSend.inj e
    exact (setWsaBuf_congr hbuf).symm

/-- `WSASend` takes bytes off the front of the ring, unless it stays pending -/
theorem inOrder_wsaSend {acc enq : List UInt8} (h : InOrder i acc enq s) {bufs : List WsaBuf}
    (hpc : s.sender = .wsaSend i bufs) (hc : s.crashed = false) (result : SendResult)
    (hpending : result = .pending → s.accepted i (.sender result) = []) :
    InOrder i (acc ++ s.accepted i (.sender result)) enq (s.senderStep result) := by
  have hbefore : s.sentBytes i = 0 := by simp only [sentBytes, hpc]
  have hring := h.initial hbefore
  have hbytes : (s.session i).wsaBytes bufs = (s.session i).sendBuf.contents := by
    rw [h.gather bufs hpc]
    exact (s.session i).wsaBytes_setWsaBuf
  have hlen : Session.wsaLen bufs = (s.session i).sendBuf.getSizeInUse := by
    rw [h.gather bufs hpc]
    exact (s.session i).wsaLen_setWsaBuf
  -- `WSASend` fails
  have hfails : s.accepted i (.sender result) = [] → s.wsaSend i (Session.wsaLen bufs) result = none →
      InOrder i (acc ++ s.accepted i (.sender result)) enq (s.senderStep result) := by
    intro hnone hw
    have e : s.senderStep result = { s with sender := .close i .setClosedTime } := by
      simp only [senderStep, hpc, hw]
    rw [hnone, List.append_nil, e]
    exact h.move hbefore (sentBytes_outside trivial) (fun bufs hb => by cases hb) rfl
  cases hs : s.connectedSocket i with
  | none => exact hfails (by simp [accepted, hpc, hs]) (by simp only [Network.wsaSend, hs])
  | some sock =>
    cases result with
    | error => exact hfails (by simp [accepted, hpc]) (by simp only [Network.wsaSend, hs])
    | pending =>
      have hempty := hpending rfl
      have e : s.senderStep .pending = { s.begin ⟨.send, i, sock⟩ with sender := .moveFront i 0 } := by
        simp only [senderStep, hpc, Network.wsaSend, hs]
      have hsent : (s.senderStep .pending).sentBytes i = 0 := by
        rw [e]
        exact if_pos rfl
      rw [hempty, List.append_nil]
      refine ⟨?_, ?_, ?_⟩
      · rw [hsent, List.drop_zero, e]
        exact hring
      · rw [hsent]
        exact Nat.zero_le _
      · intro bufs hb
        rw [e] at hb
        cases hb
    | sent m =>
      have hacc : s.accepted i (.sender (.sent m)) = (s.session i).sendBuf.contents.take m := by
        simp only [accepted, hpc, hc, hs, hbytes, true_and, Option.isSome_some, if_true]
      have e : s.senderStep (.sent m) =
          { s.deliver ⟨.send, i, sock⟩ true (min m (s.session i).sendBuf.getSizeInUse) with
            sender := .moveFront i (min m (s.session i).sendBuf.getSizeInUse) } := by
        simp only [senderStep, hpc, Network.wsaSend, hs, hlen]
      have hsession : (s.senderStep (.sent m)).session = s.session := by
        rw [e]
        exact deliver_session _ _ _
      have hsent : (s.senderStep (.sent m)).sentBytes i = min m (s.session i).sendBuf.getSizeInUse := by
        rw [e]
        exact if_pos rfl
      refine ⟨?_, ?_, ?_⟩
      · -- what has been taken and what is to stay
        have hdrop : (s.session i).sendBuf.contents.drop (min m (s.session i).sendBuf.getSizeInUse)
            = (s.session i).sendBuf.contents.drop m := by
          rw [← (s.session i).sendBuf.contents_length]
          rcases Nat.le_total m (s.session i).sendBuf.contents.length with hm | hm
          · rw [Nat.min_eq_left hm]
          · rw [Nat.min_eq_right hm, List.drop_length, List.drop_of_length_le hm]
        rw [hacc, hsent, hsession, hdrop, List.append_assoc, List.take_append_drop]
        exact hring
      · rw [hsent, hsession]
        exact Nat.min_le_right _ _
      · intro bufs hb
        rw [e] at hb
        cases hb

theorem inOrder_sender {acc enq : List UInt8} (h : InOrder i acc enq s) (hl : s.Live i)
    (ho : (s.slot i).Owned) (hc : s.crashed = false) (result : SendResult)
    (hpending : result = .pending → s.accepted i (.sender result) = []) :
    InOrder i (acc ++ s.accepted i (.sender result)) enq (s.senderStep result) := by
  have hbuf : (∀ n, s.sender ≠ .moveFront i n) →
      ((s.senderStep result).session i).sendBuf = (s.session i).sendBuf := by
    intro hno
    rcases (senderStep_writes i result).sendBuf hl ho with e | ⟨n, _, _, hpc⟩ | ⟨_, _, e, _⟩
    · exact e
    · exact absurd hpc (hno n)
    · cases e
  -- the sender takes nothing, and stays away from the last statements of `BindSend`
  have haway : s.accepted i (.sender result) = [] → (∀ n, s.sender ≠ .moveFront i n) →
      s.sender.Outside → (s.senderStep result).sender.Outside →
      InOrder i (acc ++ s.accepted i (.sender result)) enq (s.senderStep result) := by
    intro hnone hno hbefore hafter
    rw [hnone, List.append_nil]
    exact h.outside hbefore hafter (hbuf hno)
  cases hpc : s.sender with
  | test =>
    refine haway (by simp [accepted, hpc]) (by simp [hpc]) (by rw [hpc]; trivial) ?_
    simp only [senderStep, hpc]
    split <;> trivial
  | hasSendData j =>
    refine haway (by simp [accepted, hpc]) (by simp [hpc]) (by rw [hpc]; trivial) ?_
    simp only [senderStep, hpc]
    split
    · trivial
    · exact nextSend_outside j
  | bindSend j =>
    refine haway (by simp [accepted, hpc]) (by simp [hpc]) (by rw [hpc]; trivial) ?_
    simp only [senderStep, hpc]
    split
    · exact nextSend_outside j
    · trivial
  | close j pc =>
    refine haway (by simp [accepted, hpc]) (by simp [hpc]) (by rw [hpc]; trivial) ?_
    simp only [senderStep, hpc]
    exact senderInClose_outside j _
  | finished =>
    refine haway (by simp [accepted, hpc]) (by simp [hpc]) (by rw [hpc]; trivial) ?_
    simp only [senderStep, hpc]
    trivial
  | setSendOverlapped j =>
    have hnone : s.accepted i (.sender result) = [] := by simp [accepted, hpc]
    rw [hnone, List.append_nil]
    exact inOrder_gather h hpc result (hbuf (by simp [hpc]))
  | wsaSend j bufs =>
    by_cases hj : j = i
    · subst hj
      exact inOrder_wsaSend h hpc hc result hpending
    · -- another session
      have hnone : s.accepted i (.sender result) = [] := by simp [accepted, hpc, hj]
      have hbefore : s.sentBytes i = 0 := by simp only [sentBytes, hpc]
      have hafter : (s.senderStep result).sentBytes i = 0 ∧
          ∀ bufs, (s.senderStep result).sender ≠ .wsaSend i bufs := by
        simp only [senderStep, hpc]
        split
        · simp [sentBytes, hj]
        · simp [sentBytes]
      rw [hnone, List.append_nil]
      exact h.move hbefore hafter.1 hafter.2 (hbuf (by simp [hpc]))
  | moveFront j n =>
    have hnone : s.accepted i (.sender result) = [] := by simp [accepted, hpc]
    have hout : (s.senderStep result).sender.Outside := by
      simp only [senderStep, hpc]
      exact nextSend_outside j
    rw [hnone, List.append_nil]
    by_cases hj : j = i
    · subst hj
      have hsent : s.sentBytes j = n := by simp [sentBytes, hpc]
      have hsession : ((s.senderStep result).session j).sendBuf = (s.session j).sendBuf.moveFront n := by
        simp only [senderStep, hpc]
        rw [modify_self]
      have hle := h.sent
      have hring := h.ring
      rw [hsent] at hle hring
      refine ⟨?_, ?_, ?_⟩
      · rw [sentBytes_outside hout, List.drop_zero, hsession, RingBuffer.moveFront_contents _ hle]
        exact hring
      · rw [sentBytes_outside hout]
        exact Nat.zero_le _
      · intro bufs hb
        rw [hb] at hout
        exact hout.elim
    · have hbefore : s.sentBytes i = 0 := by simp [sentBytes, hpc, hj]
      refine h.move hbefore (sentBytes_outside hout) (fun bufs hb => ?_) (hbuf (by simp [hpc, hj]))
      rw [hb] at hout
      exact hout

theorem sendLocked_of_idle (h : s.bindSendRuns i = false) : s.sendLocked i = false := by
  unfold bindSendRuns at h
  unfold sendLocked
  cases hpc : s.sender with
  | wsaSend j bufs | moveFront j n =>
    rw [hpc] at h
    exact h
  | _ => rfl

/-- a thread outside the lock is at neither of the last two statements of `BindSend` -/
theorem not_sending (h : s.sendLocked i = false) :
    s.sentBytes i = 0 ∧ ∀ bufs, s.sender ≠ .wsaSend i bufs := by
  unfold sendLocked at h
  unfold sentBytes
  cases hpc : s.sender with
  | wsaSend j bufs =>
    rw [hpc] at h
    have hj : j ≠ i := by simpa using h
    exact ⟨rfl, fun bufs' e => hj (SenderPc.wsaSend.inj e).1⟩
  | moveFront j n =>
    rw [hpc] at h
    have hj : j ≠ i := by simpa using h
    exact ⟨if_neg hj, fun bufs' e => by cases e⟩
  | _ => exact ⟨rfl, fun bufs' e => by cases e⟩

theorem sendPacket_other {idx : Int} {data : List UInt8}
    (h : ¬ (getSessionByIdx idx = some i ∧ s.sendLocked i = false)) :
    (s.sendPacket idx data).session i = s.session i := by
  unfold sendPacket
  cases hidx : getSessionByIdx idx with
  | none => rfl
  | some j =>
    simp only
    by_cases hl : s.sendLocked j = true
    · rw [if_pos hl]
    · rw [if_neg hl, modify_other]
      rintro rfl
      exact h ⟨hidx, by simpa using hl⟩

theorem enqueued_now {idx : Int} (hc : s.crashed = false) (hi : getSessionByIdx idx = some i)
    (hl : s.sendLocked i = false) (data : List UInt8) : s.enqueued i (.sendPacket idx data) = data :=
  if_pos ⟨hc, hi, hl⟩

/-- `SendPacket` stores what there is room for -/
theorem sendPacket_contents (hc : s.crashed = false) (idx : Int) (data : List UInt8) :
    ((s.sendPacket idx data).session i).sendBuf.contents = (s.session i).sendBuf.contents
      ++ (s.enqueued i (.sendPacket idx data)).take (s.session i).sendBuf.getFreeSize := by
  by_cases hi : getSessionByIdx idx = some i ∧ s.sendLocked i = false
  · have henq := enqueued_now hc hi.1 hi.2 data
    have e : s.sendPacket idx data = s.modify i fun x => (x.enqueueSendData data).1 := by
      simp only [sendPacket, hi.1, hi.2, Bool.false_eq_true, if_false]
    rw [e, modify_self, henq]
    exact RingBuffer.enqueue_contents _ data
  · -- no data for `i`, or not yet
    have henq : s.enqueued i (.sendPacket idx data) = [] := if_neg fun e => hi e.2
    rw [henq, List.take_nil, List.append_nil, sendPacket_other hi]

/-- `EnqueueSendData` of as much as fits -/
theorem inOrder_sendPacket {acc enq : List UInt8} (h : InOrder i acc enq s) (hc : s.crashed = false)
    {idx : Int} {data : List UInt8}
    (hroom : (s.enqueued i (.sendPacket idx data)).length ≤ (s.session i).sendBuf.getFreeSize) :
    InOrder i acc (enq ++ s.enqueued i (.sendPacket idx data)) (s.sendPacket idx data) := by
  have hcontents := sendPacket_contents (i := i) hc idx data
  rw [List.take_of_length_le hroom] at hcontents
  have hsender : (s.sendPacket idx data).sender = s.sender := (sendPacket_same idx data).1.sender
  by_cases hi : getSessionByIdx idx = some i ∧ s.sendLocked i = false
  · obtain ⟨hout, hnot⟩ := not_sending hi.2
    have hsent : (s.sendPacket idx data).sentBytes i = 0 := by
      unfold sentBytes
      rw [hsender]
      exact hout
    refine ⟨?_, ?_, ?_⟩
    · rw [hsent, List.drop_zero, hcontents, ← List.append_assoc, h.initial hout]
    · rw [hsent]
      exact Nat.zero_le _
    · intro bufs hb
      rw [hsender] at hb
      exact absurd hb (hnot bufs)
  · -- no data for `i`, or not yet
    have henq : s.enqueued i (.sendPacket idx data) = [] := if_neg fun e => hi e.2
    rw [henq, List.append_nil]
    exact h.keep hsender (by rw [sendPacket_other hi])

theorem inOrder_step {acc enq : List UInt8} (h : InOrder i acc enq s) (hl : s.Live i)
    (ho : (s.slot i).Owned) (a : Action W)
    (hroom : (s.enqueued i a).length ≤ (s.session i).sendBuf.getFreeSize)
    (hpending : a = .sender .pending → s.accepted i a = []) :
    InOrder i (acc ++ s.accepted i a) (enq ++ s.enqueued i a) (step s a) := by
  cases hc : s.crashed with
  | true =>
    have hacc : s.accepted i a = [] := by
      cases a with
      | sender result =>
        simp only [accepted, hc]
        split <;> simp
      | _ => rfl
    have henq : s.enqueued i a = [] := by
      cases a with
      | sendPacket idx data => simp [enqueued, hc]
      | _ => rfl
    rw [hacc, henq, List.append_nil, List.append_nil, step_crashed hc]
    exact h
  | false =>
    have hother : (∀ result, a ≠ .sender result) → (∀ idx data, a ≠ .sendPacket idx data) →
        InOrder i acc enq (step s a) := by
      intro hsend hpacket
      refine h.keep (step_sender hsend) ?_
      rcases (step_writes a i).sendBuf hl ho with e | ⟨_, result, e, _⟩ | ⟨idx, data, e, _⟩
      · exact e
      · exact absurd e (hsend result)
      · exact absurd e (hpacket idx data)
    cases a with
    | sender result =>
      rw [step_senderStep hc]
      show InOrder i _ (enq ++ []) _
      rw [List.append_nil]
      exact inOrder_sender h hl ho hc result fun e => hpending (by rw [e])
    | sendPacket idx data =>
      rw [step_sendPacket hc]
      show InOrder i (acc ++ []) _ _
      rw [List.append_nil]
      exact inOrder_sendPacket h hc hroom
    | _ =>
      show InOrder i (acc ++ []) (enq ++ []) _
      rw [List.append_nil, List.append_nil]
      exact hother (by simp) (by simp)

/-- what is accepted now comes next -/
theorem InOrder.accepted {acc enq : List UInt8} (h : InOrder i acc enq s) (a : Action W) :
    acc ++ s.accepted i a <+: enq := by
  have hnone : acc <+: enq := ⟨_, h.ring⟩
  cases a with
  | sender result =>
    simp only [Network.accepted]
    split
    · next j bufs hpc =>
      split
      · next hj =>
        obtain ⟨_, rfl, _⟩ := hj
        have hring := h.initial (by simp only [sentBytes, hpc])
        have hbytes : (s.session j).wsaBytes bufs = (s.session j).sendBuf.contents := by
          rw [h.gather bufs hpc]
          exact (s.session j).wsaBytes_setWsaBuf
        cases result with
        | error => simpa using hnone
        | pending =>
          simp only [hbytes]
          exact ⟨[], by rw [List.append_nil]; exact hring⟩
        | sent m =>
          simp only [hbytes]
          refine ⟨(s.session j).sendBuf.contents.drop m, ?_⟩
          rw [List.append_assoc, List.take_append_drop]
          exact hring
      · simpa using hnone
    · simpa using hnone
  | _ => simpa [Network.accepted] using hnone

/-! ## runs -/

def acceptedBytes (i : SessionIdx) (h : History W) : List UInt8 := h.flatMap fun x => x.1.accepted i x.2

def enqueuedBytes (i : SessionIdx) (h : History W) : List UInt8 := h.flatMap fun x => x.1.enqueued i x.2

/-- a `WSASend` of `i` takes something and stays pending -/
def leavesPending (s : Network W) (i : SessionIdx) : Action W → Bool
  | .sender .pending => s.accepted i (.sender .pending) ≠ []
  | _ => false

/-- **The condition.**  After a `WSASend` that has stayed pending, no other one takes anything. -/
def SendsOnce (i : SessionIdx) (h : History W) (s : Network W) (a : Action W) : Prop :=
  (h.any fun x => x.1.leavesPending i x.2) = true → s.accepted i a = []

instance (i : SessionIdx) (h : History W) (s : Network W) (a : Action W) :
    Decidable (SendsOnce i h s a) := inferInstanceAs (Decidable (_ → _))

/-- a step of a live connection whose send ring does not overflow -/
def WithRoom (i : SessionIdx) (s : Network W) (a : Action W) : Prop :=
  s.Live i ∧ (s.enqueued i a).length ≤ (s.session i).sendBuf.getFreeSize

instance (i : SessionIdx) (s : Network W) (a : Action W) : Decidable (WithRoom i s a) :=
  inferInstanceAs (Decidable (_ ∧ _))

/-- the invariant of a connection that has sent `h`, and started with `old` in the ring -/
structure Sending (i : SessionIdx) (old : List UInt8) (h : History W) (s : Network W) : Prop where
  sound : s.Sound
  owned : (s.slot i).Owned
  initial : acceptedBytes i h <+: old ++ enqueuedBytes i h
  inOrder : (h.any fun x => x.1.leavesPending i x.2) = false →
    InOrder i (acceptedBytes i h) (old ++ enqueuedBytes i h) s

theorem sending_step {old : List UInt8} {h : History W} (hI : Sending i old h s) {a : Action W}
    (hroom : WithRoom i s a) (hC : SendsOnce i h s a) : Sending i old (h ++ [(s, a)]) (step s a) := by
  have hacc : acceptedBytes i (h ++ [(s, a)]) = acceptedBytes i h ++ s.accepted i a := by
    simp [acceptedBytes]
  have henq : old ++ enqueuedBytes i (h ++ [(s, a)]) = old ++ enqueuedBytes i h ++ s.enqueued i a := by
    simp [enqueuedBytes]
  refine ⟨step_sound hI.sound a, step_owned hI.sound hI.owned a, ?_, fun hno => ?_⟩
  · rw [hacc, henq]
    cases hp : h.any fun x => x.1.leavesPending i x.2 with
    | true =>
      rw [hC hp, List.append_nil]
      exact hI.initial.trans (List.prefix_append _ _)
    | false => exact ((hI.inOrder hp).accepted a).trans (List.prefix_append _ _)
  · rw [List.any_append, Bool.or_eq_false_iff] at hno
    rw [hacc, henq]
    refine inOrder_step (hI.inOrder hno.1) hroom.1 hI.owned a hroom.2 fun e => ?_
    subst e
    simpa [leavesPending] using hno.2

section
variable (heap : SessionIdx → Fin kDefaultRingBufferSize → UInt8) (clock : Seconds)

/-- **On a live connection the bytes that `WSASend` accepts are an initial part of those enqueued, as long
as `SendsOnce` holds of every step.** -/
theorem in_order_run (as bs : List (Action W)) (i : SessionIdx)
    (hidle : (run step (start W heap clock) as).bindSendRuns i = false)
    (hroom : ∀ x ∈ hist step (run step (start W heap clock) as) bs, WithRoom i x.1 x.2)
    (hC : ∀ cs a ds, bs = cs ++ a :: ds →
      SendsOnce i (hist step (run step (start W heap clock) as) cs)
        (run step (run step (start W heap clock) as) cs) a) :
    acceptedBytes i (hist step (run step (start W heap clock) as) bs) <+:
      ((run step (start W heap clock) as).session i).sendBuf.contents
        ++ enqueuedBytes i (hist step (run step (start W heap clock) as) bs) := by
  have hsound := run_sound heap clock as
  have howned := run_owned heap clock as i
  generalize run step (start W heap clock) as = s at *
  have hout := not_sending (sendLocked_of_idle hidle)
  have hstart : InOrder i [] (s.session i).sendBuf.contents s := by
    refine ⟨?_, ?_, fun bufs hb => absurd hb (hout.2 bufs)⟩
    · rw [hout.1, List.drop_zero, List.nil_append]
    · rw [hout.1]
      exact Nat.zero_le _
  have h := @hist_keeps _ _ step (Sending i (s.session i).sendBuf.contents)
    (fun h s a => WithRoom i s a ∧ SendsOnce i h s a) s
    ⟨hsound, howned, List.nil_prefix, fun _ => by
      simpa [acceptedBytes, enqueuedBytes] using hstart⟩
    (fun h s a hI hC => sending_step hI hC.1 hC.2) bs
    (fun cs a ds e => ⟨hroom (run step s cs, a) (split_mem_hist step e), hC cs a ds e⟩)
  exact h.initial

end

/-- a send takes two bytes of three at once, and another packet comes -/
def sendsSome : List (Action 1) :=
  [.sendPacket 0 [1, 2, 3]] ++ List.replicate 6 (.sender (.sent 2)) ++ [.sendPacket 0 [4]]

theorem in_order_sendsSome :
    acceptedBytes 0 (hist step (run step (start 1 (fun _ _ => 0) 0) opened) sendsSome) <+:
      ((run step (start 1 (fun _ _ => 0) 0) opened).session 0).sendBuf.contents
        ++ enqueuedBytes 0 (hist step (run step (start 1 (fun _ _ => 0) 0) opened) sendsSome) :=
  in_order_run (fun _ _ => 0) 0 opened sendsSome 0 (by decide +kernel) (by decide +kernel)
    (along_split step (h := []) (s := run step (start 1 (fun _ _ => 0) 0) opened) (by decide +kernel))

/-- a send of one byte stays pending and completes, and the sender comes around again -/
def sendsAgain : List (Action 1) :=
  [.sendPacket 0 [1]] ++ List.replicate 6 (.sender .pending) ++ [.sendPacket 0 [2], .complete 1 true 1]
    ++ List.replicate 4 (.worker 0 true) ++ List.replicate 1004 (.sender .pending)

/-- the second send takes the first byte again -/
theorem sent_again :
    (run step (start 1 (fun _ _ => 0) 0) opened).bindSendRuns 0 = false ∧
      (∀ x ∈ hist step (run step (start 1 (fun _ _ => 0) 0) opened) sendsAgain, WithRoom 0 x.1 x.2) ∧
      ¬ acceptedBytes 0 (hist step (run step (start 1 (fun _ _ => 0) 0) opened) sendsAgain) <+:
        ((run step (start 1 (fun _ _ => 0) 0) opened).session 0).sendBuf.contents
          ++ enqueuedBytes 0 (hist step (run step (start 1 (fun _ _ => 0) 0) opened) sendsAgain) := by
  decide +kernel

end Network

end Iocp
