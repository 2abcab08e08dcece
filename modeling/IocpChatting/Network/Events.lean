import IocpChatting.Network.Slots

/-!
# The events of a slot

* `event`               what a step does to the slot of a session;
* `slot_step`           every step of the network is one event of every slot;
* `slot_fits`           and an event happens only when it may.
-/

set_option linter.unusedSectionVars false
set_option autoImplicit false

namespace Iocp
open Runs Census

namespace Network

variable {W : Nat} {s : Network W}

/-! ## events -/

def closeEvent (s : Network W) (i : SessionIdx) : ClosePc → Slot.Event
  | .setClosedTime => .storeMax
  | .compareExchange => if (s.session i).isActivated then .win else .lose
  | .clearSending => .clear
  | .storeTime t => .storeTime t
  | .decrement => .leave
  | .closesocket | .setSocket | .clearSendBuffer | .readClock => .quiet

def checkEvent (s : Network W) (i : SessionIdx) (c : Completion) : Slot.Event :=
  if terminateMsg c.gqcsRet c.ioSize c.overlapped then .quiet
  else if s.sessionExited c.gqcsRet c.ioSize c.overlapped ∧ c.key = some i then .exit
  else .quiet

def dispatchEvent (s : Network W) (i : SessionIdx) (req : IoRequest) : Slot.Event :=
  match ((s.session req.session).overlapped req.op).opType with
  | .send => if req.key = some i then .sendDone else .quiet
  | .accept => if req.session = i then .takeUp else .quiet
  | .recv | .none => .quiet

def workerEvent (s : Network W) (i : SessionIdx) (w : Fin W) (ok : Bool) : Slot.Event :=
  match s.worker w with
  | .check c => s.checkEvent i c
  | .dispatch req _ => s.dispatchEvent i req
  | .bindIocp j => if j = i ∧ (s.bindIOCompletionPort j ok).isNone then .bindFails else .quiet
  | .setActivated j => if j = i then .activate else .quiet
  | .clearBuffer j => if j = i then .activated else .quiet
  | .wsaRecv j _ => if j = i ∧ (s.wsaRecv j ok).isNone then .exit else .quiet
  | .close j pc _ => if j = i then s.closeEvent i pc else .quiet
  | _ => .quiet

def accepterEvent (s : Network W) (i : SessionIdx) (ok : Bool) : Slot.Event :=
  match s.accepter with
  | .compareClosed t j => if j = i ∧ (s.session i).latestConnClosed ≤ t then .pass else .quiet
  | .diffClosed t j =>
    if j = i then
      if closedDiff t (s.session i).latestConnClosed ≤ kSessionReuseSeconds then .giveUp else .choose
    else .quiet
  | .bindAccept _ j => if j = i then .storeAccept else .quiet
  | .createSocket _ j => if j = i ∧ ok = false then .abandon else .quiet
  | .acceptEx _ j =>
    if j = i then if ok && (s.session i).socket.isSome then .issue else .abandon else .quiet
  | _ => .quiet

def senderEvent (s : Network W) (i : SessionIdx) (result : SendResult) : Slot.Event :=
  match s.sender with
  | .bindSend j => if j = i ∧ (s.session i).isSending = false then .bindSend else .quiet
  | .wsaSend j bufs =>
    if j = i ∧ (s.wsaSend j (Session.wsaLen bufs) result).isNone then .sendFails else .quiet
  | .moveFront j _ => if j = i then .sendReturns else .quiet
  | .close j pc => if j = i then s.closeEvent i pc else .quiet
  | _ => .quiet

/-- what a step does to the slot `i` -/
def event (s : Network W) (a : Action W) (i : SessionIdx) : Slot.Event :=
  if s.crashed then .quiet
  else
    match a with
    | .worker w ok => s.workerEvent i w ok
    | .accepter ok => s.accepterEvent i ok
    | .sender result => s.senderEvent i result
    | _ => .quiet

/-! ## every step is one event of every slot -/

theorem phaseAt_self (i : SessionIdx) (p : Phase) : phaseAt i i p = some p := if_pos rfl

theorem phaseAt_other {i j : SessionIdx} (h : j ≠ i) (p : Phase) : phaseAt i j p = none := if_neg h

/-- a thread at the session `j` goes from one phase to another -/
theorem move_at {i j : SessionIdx} {σ : Slot} {e : Slot.Event} {p q a b : Option Phase}
    (ha : a = if j = i then p else none) (hb : b = if j = i then q else none)
    (h : σ.move p q = σ.apply e) : σ.move a b = σ.apply (if j = i then e else .quiet) := by
  rw [ha, hb]
  by_cases hj : j = i
  · rw [if_pos hj, if_pos hj, if_pos hj]
    exact h
  · rw [if_neg hj, if_neg hj, if_neg hj]
    exact Slot.move_self _ _

/-- the phase of a thread that is at no session -/
theorem nowhere (i j : SessionIdx) : (none : Option Phase) = if j = i then none else none :=
  (ite_self none).symm

theorem closeStep_slot_other {i j : SessionIdx} (h : i ≠ j) (pc : ClosePc) :
    (s.closeStep j pc).slot i = s.slot i := by
  cases pc with
  | closesocket =>
    simp only [closeStep, Network.closesocket]
    split <;> rfl
  | clearSendBuffer =>
    simp only [closeStep]
    split
    · rfl
    · exact slot_modify_other _ h
  | readClock | decrement => rfl
  | _ => exact slot_modify_other _ h

/-- a statement of `CloseSocket` and the thread that goes on to the next one -/
theorem closeStep_slot_self (i : SessionIdx) (pc : ClosePc) :
    ((s.closeStep i pc).slot i).move (some pc.phase) ((s.closeNext i pc).map ClosePc.phase)
      = (s.slot i).apply (s.closeEvent i pc) := by
  cases pc with
  | setClosedTime =>
    simp only [closeStep, closeNext, closeEvent, slot_modify_self]
    exact Slot.move_self _ _
  | compareExchange =>
    simp only [closeStep, closeNext, closeEvent, slot_modify_self]
    cases h : (s.session i).isActivated with
    | true => rfl
    | false =>
      simp only [Bool.false_eq_true, if_false, Slot.apply, Option.map_none, Slot.move, slot, h]
      rfl
  | closesocket =>
    simp only [closeStep, closeNext, closeEvent, Network.closesocket]
    split <;> exact Slot.move_self _ _
  | setSocket =>
    simp only [closeStep, closeNext, closeEvent, slot_modify_self]
    exact Slot.move_self _ _
  | clearSendBuffer =>
    simp only [closeStep, closeNext, closeEvent]
    split
    · exact Slot.move_self _ _
    · rw [slot_modify_self]
      exact Slot.move_self _ _
  | clearSending =>
    simp only [closeStep, closeNext, closeEvent, slot_modify_self]
    rfl
  | readClock => exact Slot.move_self _ _
  | storeTime t =>
    simp only [closeStep, closeNext, closeEvent, slot_modify_self]
    rfl
  | decrement => rfl

/-- the same, of a thread in `CloseSocket` of any session -/
theorem closeStep_slot (i j : SessionIdx) (pc : ClosePc) :
    ((s.closeStep j pc).slot i).move (phaseAt i j pc.phase)
        (if j = i then (s.closeNext j pc).map ClosePc.phase else none)
      = (s.slot i).apply (if j = i then s.closeEvent i pc else .quiet) := by
  by_cases hj : j = i
  · subst hj
    rw [phaseAt_self, if_pos rfl, if_pos rfl]
    exact closeStep_slot_self j pc
  · rw [phaseAt_other hj, if_neg hj, if_neg hj, closeStep_slot_other (fun h => hj h.symm)]
    exact Slot.move_self _ _

theorem afterCall_phase (i : SessionIdx) (opening : Bool) : (afterCall opening).phase i = none := by
  cases opening <;> rfl

/-- a worker that goes on in the same phase, or in none -/
theorem slot_setWorker_same {i : SessionIdx} {w : Fin W} {pc : WorkerPc}
    (h : pc.phase i = (s.worker w).phase i) : (s.setWorker w pc).slot i = s.slot i := by
  rw [slot_setWorker, h, Slot.move_self]

/-- the key of a completion that is none of an accept is its session -/
theorem key_eq_some {req : IoRequest} {i : SessionIdx} :
    req.key = some i ↔ req.op ≠ .accept ∧ req.session = i := by
  unfold IoRequest.key
  cases req.op with
  | accept => simp
  | recv | send => simp

theorem completion_key_phase {c : Completion} {i j : SessionIdx} (h : c.key = some j) :
    c.phase i = none := by
  cases c with
  | posted n => rfl
  | io req ok n =>
    have hop := (key_eq_some.mp h).1
    simp only [Completion.phase, IoRequest.phase, if_neg hop]

theorem checkStep_slot (i : SessionIdx) {w : Fin W} {c : Completion} (hpc : s.worker w = .check c) :
    (s.checkStep w c).slot i = (s.slot i).apply (s.checkEvent i c) := by
  have hold : (s.worker w).phase i = c.phase i := by rw [hpc]; rfl
  unfold checkStep checkEvent
  by_cases ht : terminateMsg c.gqcsRet c.ioSize c.overlapped = true
  · rw [if_pos ht, if_pos ht]
    refine slot_setWorker_same ?_
    rw [hold]
    cases c with
    | posted n => rfl
    | io req ok n => simp [terminateMsg, Completion.overlapped] at ht
  · rw [if_neg ht, if_neg ht]
    by_cases he : s.sessionExited c.gqcsRet c.ioSize c.overlapped = true
    · rw [if_pos he]
      cases hkey : c.key with
      | none =>
        rw [if_neg (by simp)]
        rfl
      | some j =>
        simp only [slot_setWorker]
        rw [hold, completion_key_phase hkey]
        simp only [he, true_and, Option.some.injEq]
        exact move_at (nowhere i j) rfl rfl
    · rw [if_neg he, if_neg (fun h => he h.1)]
      cases c with
      | posted n => exact slot_setWorker_same hold.symm
      | io req ok n => exact slot_setWorker_same hold.symm

theorem dispatchStep_slot (hs : s.Sound) (i : SessionIdx) {w : Fin W} {req : IoRequest} {n : Nat}
    (hpc : s.worker w = .dispatch req n) :
    (s.dispatchStep w req).slot i = (s.slot i).apply (s.dispatchEvent i req) := by
  have hold : (s.worker w).phase i = req.phase i := by rw [hpc]; rfl
  cases hop : req.op with
  | accept =>
    have hready := hs.accepts req (holds_worker (by rw [hpc]; rfl)) hop
    have e : (s.session req.session).overlapped .accept = ⟨(req.session : Nat), .accept⟩ := hready
    have hphase : req.phase i = phaseAt i req.session .accepting := by simp [IoRequest.phase, hop]
    simp only [dispatchStep, dispatchEvent, hop, e, getSessionByIdx_session, slot_setWorker]
    rw [hold, hphase]
    exact move_at rfl rfl rfl
  | recv =>
    have hnone : req.phase i = none := by simp [IoRequest.phase, hop]
    have hkey : req.key = some req.session := key_eq_some.mpr ⟨by simp [hop], rfl⟩
    obtain ⟨hsend, hacc⟩ := hs.recvType req.session
    have hsend' : ((s.session req.session).overlapped .recv).opType ≠ .send := hsend
    have hacc' : ((s.session req.session).overlapped .recv).opType ≠ .accept := hacc
    simp only [dispatchStep, dispatchEvent, hop, hkey]
    cases ht : ((s.session req.session).overlapped .recv).opType with
    | recv | none => exact slot_setWorker_same (by rw [hold, hnone]; rfl)
    | send => exact absurd ht hsend'
    | accept => exact absurd ht hacc'
  | send =>
    have hnone : req.phase i = none := by simp [IoRequest.phase, hop]
    have hkey : req.key = some req.session := key_eq_some.mpr ⟨by simp [hop], rfl⟩
    obtain ⟨hrecv, hacc⟩ := hs.sendType req.session
    have hrecv' : ((s.session req.session).overlapped .send).opType ≠ .recv := hrecv
    have hacc' : ((s.session req.session).overlapped .send).opType ≠ .accept := hacc
    simp only [dispatchStep, dispatchEvent, hop, hkey]
    cases ht : ((s.session req.session).overlapped .send).opType with
    | recv => exact absurd ht hrecv'
    | none => exact slot_setWorker_same (by rw [hold, hnone]; rfl)
    | accept => exact absurd ht hacc'
    | send =>
      simp only [Option.some.injEq]
      rw [slot_setWorker_same (by
        show WorkerPc.phase i .test = (s.worker w).phase i
        rw [hold, hnone]
        rfl)]
      by_cases hi : req.session = i
      · subst hi
        rw [slot_modify_self, if_pos rfl]
        rfl
      · rw [slot_modify_other _ (fun h => hi h.symm), if_neg hi]
        rfl

theorem workerStep_slot (hs : s.Sound) (i : SessionIdx) (w : Fin W) (ok : Bool) :
    (s.workerStep w ok).slot i = (s.slot i).apply (s.workerEvent i w ok) := by
  cases hpc : s.worker w with
  | test =>
    simp only [workerStep, workerEvent, hpc]
    refine slot_setWorker_same ?_
    rw [hpc]
    split <;> rfl
  | getQueued =>
    simp only [workerStep, workerEvent, hpc]
    split
    · rfl
    · next c rest hport =>
      rw [slot_setWorker, slot_pop i hport]
      show ((s.slot i).move (c.phase i) none).move ((s.worker w).phase i) (c.phase i) = _
      rw [hpc]
      exact move_back _ _
  | repost =>
    simp only [workerStep, workerEvent, hpc]
    rw [slot_setWorker_same (by
      show WorkerPc.phase i .finished = (s.worker w).phase i
      rw [hpc]
      rfl), slot_post]
    exact Slot.move_self _ _
  | check c =>
    simp only [workerStep, workerEvent, hpc]
    exact checkStep_slot i hpc
  | dispatch req n =>
    simp only [workerStep, workerEvent, hpc]
    exact dispatchStep_slot hs i hpc
  | bindIocp j =>
    have hold : (s.worker w).phase i = phaseAt i j .opening := by rw [hpc]; rfl
    simp only [workerStep, workerEvent, hpc]
    cases hb : s.bindIOCompletionPort j ok with
    | some s' =>
      obtain ⟨sock, _, _, _, rfl⟩ := bindIOCompletionPort_eq_some hb
      simp only [Option.isNone_some, Bool.false_eq_true, and_false, if_false]
      exact slot_setWorker_same hold.symm
    | none =>
      simp only [slot_setWorker, Option.isNone_none, and_true]
      rw [hold]
      exact move_at rfl rfl rfl
  | onConnect j =>
    simp only [workerStep, workerEvent, hpc]
    exact slot_setWorker_same (by rw [hpc]; rfl)
  | zeroRecv j =>
    simp only [workerStep, workerEvent, hpc]
    rw [slot_setWorker_same (by
      show WorkerPc.phase i (.zeroSend j) = (s.worker w).phase i
      rw [hpc]
      rfl)]
    exact slot_modify i fun x => ⟨rfl, rfl, rfl⟩
  | zeroSend j =>
    simp only [workerStep, workerEvent, hpc]
    rw [slot_setWorker_same (by
      show WorkerPc.phase i (.setActivated j) = (s.worker w).phase i
      rw [hpc]
      rfl)]
    exact slot_modify i fun x => ⟨rfl, rfl, rfl⟩
  | setActivated j =>
    have hold : (s.worker w).phase i = phaseAt i j .opening := by rw [hpc]; rfl
    simp only [workerStep, workerEvent, hpc]
    rw [slot_setWorker]
    show ((s.modify j _).slot i).move ((s.worker w).phase i) (phaseAt i j .finishing) = _
    by_cases hj : j = i
    · subst hj
      rw [hold, phaseAt_self, phaseAt_self, slot_modify_self, if_pos rfl]
      rfl
    · rw [hold, phaseAt_other hj, phaseAt_other hj, if_neg hj,
        slot_modify_other _ (fun h => hj h.symm)]
      exact Slot.move_self _ _
  | clearBuffer j =>
    have hold : (s.worker w).phase i = phaseAt i j .finishing := by rw [hpc]; rfl
    simp only [workerStep, workerEvent, hpc]
    rw [slot_setWorker]
    show ((s.modify j _).slot i).move ((s.worker w).phase i) none = _
    have hclear : (s.modify j (·.clearSendBuffer)).slot i = s.slot i :=
      slot_modify i fun x => ⟨rfl, rfl, rfl⟩
    rw [hclear, hold]
    exact move_at rfl (nowhere i j) rfl
  | setRecvOverlapped j opening =>
    simp only [workerStep, workerEvent, hpc]
    rw [slot_setWorker_same (by
      show WorkerPc.phase i (.wsaRecv j opening) = (s.worker w).phase i
      rw [hpc]
      rfl)]
    exact slot_modify i fun x => ⟨rfl, rfl, rfl⟩
  | wsaRecv j opening =>
    have hold : (s.worker w).phase i = none := by rw [hpc]; rfl
    simp only [workerStep, workerEvent, hpc]
    cases hr : s.wsaRecv j ok with
    | some s' =>
      obtain ⟨sock, _, _, rfl⟩ := wsaRecv_eq_some hr
      simp only [Option.isNone_some, Bool.false_eq_true, and_false, if_false]
      rw [slot_setWorker, afterCall_phase, slot_begin]
      show ((s.slot i).move none none).move ((s.worker w).phase i) none = _
      rw [hold, Slot.move_self]
      exact Slot.move_self _ _
    | none =>
      simp only [slot_setWorker, Option.isNone_none, and_true]
      rw [hold]
      exact move_at (nowhere i j) rfl rfl
  | close j pc opening =>
    have hold : ((s.closeStep j pc).worker w).phase i = phaseAt i j pc.phase := by
      rw [(closeStep_same j pc).2.worker, hpc]
      rfl
    have hnew : (WorkerPc.inClose j opening (s.closeNext j pc)).phase i
        = if j = i then (s.closeNext j pc).map ClosePc.phase else none := by
      cases s.closeNext j pc with
      | none => simp [WorkerPc.inClose, afterCall_phase]
      | some pc' => rfl
    simp only [workerStep, workerEvent, hpc]
    rw [slot_setWorker, hold, hnew]
    exact closeStep_slot i j pc
  | increment =>
    simp only [workerStep, workerEvent, hpc]
    exact slot_setWorker_same (by
      show WorkerPc.phase i .test = (s.worker w).phase i
      rw [hpc]
      rfl)
  | finished =>
    simp only [workerStep, workerEvent, hpc]
    rfl

theorem nextAccept_isAt (i j : SessionIdx) (t : Seconds) : (nextAccept t j).isAt i = .away := by
  rcases nextAccept_eq t j with e | ⟨k, e⟩
  · rw [e]
    rfl
  · rw [e]
    rfl

theorem nextSend_phase (i j : SessionIdx) : (nextSend j).phase i = none := by
  unfold nextSend
  cases nextIdx j with
  | none => rfl
  | some k => rfl

/-- the accepter is as far with `i` as before -/
theorem goTo_slot {i : SessionIdx} {a : AccepterAt} (h : a = s.accepter.isAt i) :
    (s.slot i).goTo a = s.slot i := by
  rw [h]
  rfl

theorem createSocket_slot (i j : SessionIdx) (ok : Bool) : (s.createSocket j ok).slot i = s.slot i := by
  unfold Network.createSocket
  split
  · have h : (s.modify j (·.setSocket (some s.socketCnt))).slot i = s.slot i :=
      slot_modify i fun x => ⟨rfl, rfl, rfl⟩
    exact h
  · exact slot_modify i fun x => ⟨rfl, rfl, rfl⟩

theorem acceptEx_slot (i j : SessionIdx) (ok : Bool) :
    (s.acceptEx j ok).slot i = if j = i ∧ (ok && (s.session j).socket.isSome) = true
      then (s.slot i).move none (some .accepting) else s.slot i := by
  unfold Network.acceptEx
  cases (s.session j).socket with
  | none =>
    simp only [Option.isSome_none, Bool.and_false, Bool.false_eq_true, and_false, if_false]
  | some h =>
    cases ok with
    | false => simp only [Bool.false_and, Bool.false_eq_true, and_false, if_false]
    | true =>
      simp only [if_true, Option.isSome_some, Bool.and_self, and_true]
      rw [slot_begin]
      show (s.slot i).move none (phaseAt i j .accepting) = _
      by_cases hj : j = i
      · rw [hj, phaseAt_self, if_pos rfl]
      · rw [phaseAt_other hj, if_neg hj, Slot.move_self]

theorem accepterStep_slot (i : SessionIdx) (ok : Bool) :
    (s.accepterStep ok).slot i = (s.slot i).apply (s.accepterEvent i ok) := by
  cases hpc : s.accepter with
  | test =>
    simp only [accepterStep, accepterEvent, hpc]
    rw [slot_accepter]
    refine goTo_slot ?_
    rw [hpc]
    split <;> rfl
  | readClock =>
    simp only [accepterStep, accepterEvent, hpc]
    rw [slot_accepter]
    exact goTo_slot (by rw [hpc]; rfl)
  | readActivated t j =>
    simp only [accepterStep, accepterEvent, hpc]
    rw [slot_accepter]
    refine goTo_slot ?_
    rw [hpc]
    split
    · exact nextAccept_isAt i j t
    · rfl
  | compareClosed t j =>
    have hold : s.accepter.isAt i = .away := by rw [hpc]; rfl
    simp only [accepterStep, accepterEvent, hpc]
    rw [slot_accepter]
    by_cases hlt : (t : Nat) < (s.session j).latestConnClosed
    · rw [if_pos hlt, nextAccept_isAt, goTo_slot hold.symm, if_neg]
      · rfl
      · rintro ⟨rfl, h⟩
        omega
    · rw [if_neg hlt]
      show (s.slot i).goTo (if j = i then .passed else .away) = _
      by_cases hj : j = i
      · subst hj
        rw [if_pos rfl, if_pos ⟨rfl, by omega⟩]
        rfl
      · rw [if_neg hj, if_neg (fun h => hj h.1), goTo_slot hold.symm]
        rfl
  | diffClosed t j =>
    have hold : s.accepter.isAt i = if j = i then .passed else .away := by rw [hpc]; rfl
    simp only [accepterStep, accepterEvent, hpc]
    rw [slot_accepter]
    by_cases hj : j = i
    · subst hj
      rw [if_pos rfl]
      split
      · rw [nextAccept_isAt]
        rfl
      · show (s.slot j).goTo (if j = j then .chosen else .away) = _
        rw [if_pos rfl]
        rfl
    · rw [if_neg hj] at hold
      rw [if_neg hj]
      refine goTo_slot ?_
      rw [hold]
      split
      · exact nextAccept_isAt i j t
      · exact if_neg hj
  | bindAccept t j =>
    have hold : s.accepter.isAt i = if j = i then .chosen else .away := by rw [hpc]; rfl
    simp only [accepterStep, accepterEvent, hpc]
    rw [slot_accepter]
    show Slot.goTo _ (if j = i then .inside else .away) = _
    by_cases hj : j = i
    · subst hj
      rw [slot_modify_self, if_pos rfl, if_pos rfl]
      rfl
    · rw [if_neg hj] at hold
      rw [slot_modify_other _ (fun h => hj h.symm), if_neg hj, if_neg hj, goTo_slot hold.symm]
      rfl
  | createSocket t j =>
    have hold : s.accepter.isAt i = if j = i then .inside else .away := by rw [hpc]; rfl
    simp only [accepterStep, accepterEvent, hpc]
    rw [slot_accepter, createSocket_slot]
    cases ok with
    | true =>
      rw [if_pos rfl, if_neg (by simp)]
      exact goTo_slot hold.symm
    | false =>
      rw [if_neg (by simp), nextAccept_isAt]
      by_cases hj : j = i
      · rw [if_pos ⟨hj, rfl⟩]
        rfl
      · rw [if_neg hj] at hold
        rw [if_neg (fun h => hj h.1), goTo_slot hold.symm]
        rfl
  | setAcceptOverlapped t j =>
    have hold : s.accepter.isAt i = if j = i then .inside else .away := by rw [hpc]; rfl
    have hframe : (s.modify j (·.setAcceptOverlapped)).slot i = s.slot i :=
      slot_modify i fun x => ⟨rfl, rfl, rfl⟩
    simp only [accepterStep, accepterEvent, hpc]
    rw [slot_accepter, hframe]
    exact goTo_slot hold.symm
  | acceptEx t j =>
    have hold : s.accepter.isAt i = if j = i then .inside else .away := by rw [hpc]; rfl
    simp only [accepterStep, accepterEvent, hpc]
    rw [slot_accepter, nextAccept_isAt, acceptEx_slot]
    by_cases hj : j = i
    · subst hj
      rw [if_pos rfl]
      cases ok && (s.session j).socket.isSome with
      | true =>
        rw [if_pos ⟨rfl, rfl⟩]
        rfl
      | false =>
        rw [if_neg (by simp)]
        rfl
    · rw [if_neg hj] at hold
      rw [if_neg hj, if_neg (fun h => hj h.1), goTo_slot hold.symm]
      rfl
  | finished =>
    simp only [accepterStep, accepterEvent, hpc]
    rfl

/-- the sender goes on in the same phase, or in none -/
theorem slot_sender_same {i : SessionIdx} {pc : SenderPc} (h : pc.phase i = s.sender.phase i) :
    { s with sender := pc }.slot i = s.slot i := by
  rw [slot_sender, h, Slot.move_self]

theorem senderStep_slot (i : SessionIdx) (result : SendResult) :
    (s.senderStep result).slot i = (s.slot i).apply (s.senderEvent i result) := by
  cases hpc : s.sender with
  | test =>
    simp only [senderStep, senderEvent, hpc]
    refine slot_sender_same ?_
    rw [hpc]
    split <;> rfl
  | hasSendData j =>
    simp only [senderStep, senderEvent, hpc]
    refine slot_sender_same ?_
    rw [hpc]
    split
    · rfl
    · exact nextSend_phase i j
  | bindSend j =>
    have hold : s.sender.phase i = none := by rw [hpc]; rfl
    simp only [senderStep, senderEvent, hpc]
    by_cases hsend : (s.session j).isSending = true
    · rw [if_pos hsend, if_neg]
      · exact slot_sender_same ((nextSend_phase i j).trans hold.symm)
      · rintro ⟨rfl, h⟩
        rw [h] at hsend
        cases hsend
    · rw [if_neg hsend]
      rw [slot_sender]
      show Slot.move _ (s.sender.phase i) (phaseAt i j .binding) = _
      rw [hold]
      by_cases hj : j = i
      · subst hj
        rw [if_pos ⟨rfl, by simpa using hsend⟩, slot_modify_self, phaseAt_self]
        rfl
      · rw [if_neg (fun h => hj h.1), slot_modify_other _ (fun h => hj h.symm), phaseAt_other hj]
        exact Slot.move_self _ _
  | setSendOverlapped j =>
    simp only [senderStep, senderEvent, hpc]
    rw [slot_sender_same (by
      show SenderPc.phase i (.wsaSend j _) = s.sender.phase i
      rw [hpc]
      rfl)]
    exact slot_modify i fun x => ⟨rfl, rfl, rfl⟩
  | wsaSend j bufs =>
    have hold : s.sender.phase i = phaseAt i j .binding := by rw [hpc]; rfl
    simp only [senderStep, senderEvent, hpc]
    cases hw : s.wsaSend j (Session.wsaLen bufs) result with
    | some p =>
      obtain ⟨s', n⟩ := p
      simp only [Option.isNone_some, Bool.false_eq_true, and_false, if_false]
      obtain ⟨sock, _, ⟨_, rfl, _⟩ | ⟨m, _, _, rfl⟩⟩ := wsaSend_eq_some hw
      · rw [slot_sender_same (by
          show phaseAt i j .binding = s.sender.phase i
          rw [hold]), slot_begin]
        exact Slot.move_self _ _
      · rw [slot_sender_same (by
          show phaseAt i j .binding = SenderPc.phase i (s.deliver _ _ _).sender
          rw [(deliver_same _ _ _).1.sender, hold]), slot_deliver rfl]
        rfl
    | none =>
      simp only [Option.isNone_none, and_true]
      rw [slot_sender]
      show (s.slot i).move (s.sender.phase i) _ = _
      exact move_at hold rfl rfl
  | moveFront j n =>
    have hold : s.sender.phase i = phaseAt i j .binding := by rw [hpc]; rfl
    simp only [senderStep, senderEvent, hpc]
    have hframe : (s.modify j fun x => { x with sendBuf := x.sendBuf.moveFront n }).slot i = s.slot i :=
      slot_modify i fun x => ⟨rfl, rfl, rfl⟩
    rw [slot_sender, nextSend_phase, hframe]
    show (s.slot i).move (s.sender.phase i) none = _
    exact move_at hold (nowhere i j) rfl
  | close j pc =>
    have hold : (s.closeStep j pc).sender.phase i = phaseAt i j pc.phase := by
      rw [(closeStep_same j pc).1.sender, hpc]
      rfl
    have hnew : (SenderPc.inClose j (s.closeNext j pc)).phase i
        = if j = i then (s.closeNext j pc).map ClosePc.phase else none := by
      cases s.closeNext j pc with
      | none => simp [SenderPc.inClose, nextSend_phase]
      | some pc' => rfl
    simp only [senderStep, senderEvent, hpc]
    rw [slot_sender, hold, hnew]
    exact closeStep_slot i j pc
  | finished =>
    simp only [senderStep, senderEvent, hpc]
    rfl

/-- **Every step is one event of every slot.** -/
theorem slot_step (hs : s.Sound) (a : Action W) (i : SessionIdx) :
    (step s a).slot i = (s.slot i).apply (s.event a i) := by
  unfold step event
  by_cases hc : s.crashed = true
  · rw [if_pos hc, if_pos hc]
    rfl
  · rw [if_neg hc, if_neg hc]
    cases a with
    | worker w ok => exact workerStep_slot hs i w ok
    | accepter ok => exact accepterStep_slot i ok
    | sender result => exact senderStep_slot i result
    | sendPacket idx data =>
      show (s.sendPacket idx data).slot i = s.slot i
      unfold sendPacket
      split
      · rfl
      · split
        · rfl
        · exact slot_modify i fun x => ⟨rfl, rfl, rfl⟩
    | complete k ok n => exact slot_complete i k ok n
    | post n =>
      show (s.post (.posted n)).slot i = s.slot i
      rw [slot_post]
      exact Slot.move_self _ _
    | tick | stopWorkers | stopAccepter | stopSender => rfl

/-! ## an event happens when it may -/

theorem seconds_lt (t : Seconds) : (t : Nat) < uint64Max := by
  have := t.isLt
  show (t : Nat) < 2^64 - 1
  omega

/-- a thread in `CloseSocket(i)` does what it may -/
theorem closeEvent_fits {i : SessionIdx} {pc : ClosePc} (h : 1 ≤ (s.slot i).count pc.phase) :
    (s.slot i).Fits (s.closeEvent i pc) := by
  cases pc with
  | compareExchange =>
    simp only [closeEvent]
    by_cases ha : (s.session i).isActivated = true
    · rw [if_pos ha]
      exact ⟨h, ha⟩
    · rw [if_neg ha]
      exact ⟨h, by simpa [slot] using ha⟩
  | storeTime t => exact ⟨h, seconds_lt t⟩
  | closesocket | setSocket | clearSendBuffer | readClock => trivial
  | setClosedTime | clearSending | decrement => exact h

theorem fits_quiet (σ : Slot) : σ.Fits .quiet := trivial

theorem workerEvent_fits (hs : s.Sound) (i : SessionIdx) (w : Fin W) (ok : Bool) :
    (s.slot i).Fits (s.workerEvent i w ok) := by
  unfold workerEvent
  cases hpc : s.worker w with
  | check c =>
    simp only [checkEvent]
    split
    · exact fits_quiet _
    · split <;> trivial
  | dispatch req n =>
    simp only [dispatchEvent]
    split
    · split <;> trivial
    · next e =>
      split
      · next hi =>
        -- only the accept itself says `kACCEPT`
        have hop : req.op = .accept := by
          cases hop : req.op with
          | accept => rfl
          | recv =>
            rw [hop] at e
            exact absurd e (hs.recvType req.session).2
          | send =>
            rw [hop] at e
            exact absurd e (hs.sendType req.session).2
        have hphase : (s.worker w).phase i = some .accepting := by
          rw [hpc]
          show req.phase i = _
          rw [IoRequest.phase, if_pos hop, hi, phaseAt_self]
        exact count_worker hphase
      · exact fits_quiet _
    · exact fits_quiet _
    · exact fits_quiet _
  | bindIocp j =>
    simp only
    split
    · next h =>
      refine count_worker (w := w) ?_
      rw [hpc, h.1]
      exact phaseAt_self i _
    · exact fits_quiet _
  | setActivated j | clearBuffer j =>
    simp only
    split
    · next h =>
      refine count_worker (w := w) ?_
      rw [hpc, h]
      exact phaseAt_self i _
    · exact fits_quiet _
  | wsaRecv j opening =>
    simp only
    split <;> trivial
  | close j pc opening =>
    simp only
    split
    · next h =>
      refine closeEvent_fits (count_worker (w := w) ?_)
      rw [hpc, h]
      exact phaseAt_self i _
    · exact fits_quiet _
  | test | getQueued | repost | onConnect | zeroRecv | zeroSend | setRecvOverlapped | increment
  | finished => exact fits_quiet _

theorem accepterEvent_fits (i : SessionIdx) (ok : Bool) : (s.slot i).Fits (s.accepterEvent i ok) := by
  have hat : ∀ {pc : AccepterPc} {a : AccepterAt}, s.accepter = pc → pc.isAt i = a →
      (s.slot i).accepter = a := by
    intro pc a h e
    rw [← e, ← h]
    rfl
  unfold accepterEvent
  cases hpc : s.accepter with
  | compareClosed t j =>
    simp only
    split
    · next h =>
      have := seconds_lt t
      show (s.session i).latestConnClosed < uint64Max
      omega
    · exact fits_quiet _
  | diffClosed t j =>
    simp only
    split
    · next h =>
      split <;> exact hat hpc (if_pos h)
    · exact fits_quiet _
  | bindAccept t j =>
    simp only
    split
    · next h => exact hat hpc (if_pos h)
    · exact fits_quiet _
  | createSocket t j =>
    simp only
    split
    · next h => exact hat hpc (if_pos h.1)
    · exact fits_quiet _
  | acceptEx t j =>
    simp only
    split
    · next h => split <;> exact hat hpc (if_pos h)
    · exact fits_quiet _
  | test | readClock | readActivated | setAcceptOverlapped | finished => exact fits_quiet _

theorem senderEvent_fits (i : SessionIdx) (result : SendResult) :
    (s.slot i).Fits (s.senderEvent i result) := by
  have hcount : ∀ {pc : SenderPc} {p : Phase}, s.sender = pc → pc.phase i = some p →
      1 ≤ (s.slot i).count p := by
    intro pc p h e
    rw [← h] at e
    exact count_sender e
  unfold senderEvent
  cases hpc : s.sender with
  | bindSend j =>
    simp only
    split
    · next h => exact h.2
    · exact fits_quiet _
  | wsaSend j bufs =>
    simp only
    split
    · next h => exact hcount hpc (if_pos h.1)
    · exact fits_quiet _
  | moveFront j n =>
    simp only
    split
    · next h => exact hcount hpc (if_pos h)
    · exact fits_quiet _
  | close j pc =>
    simp only
    split
    · next h => exact closeEvent_fits (hcount hpc (if_pos h))
    · exact fits_quiet _
  | test | hasSendData | setSendOverlapped | finished => exact fits_quiet _

/-- **An event happens only when it may.** -/
theorem slot_fits (hs : s.Sound) (a : Action W) (i : SessionIdx) :
    (s.slot i).Fits (s.event a i) := by
  unfold event
  split
  · exact fits_quiet _
  · cases a with
    | worker w ok => exact workerEvent_fits hs i w ok
    | accepter ok => exact accepterEvent_fits i ok
    | sender result => exact senderEvent_fits i result
    | _ => exact fits_quiet _

end Network

end Iocp
