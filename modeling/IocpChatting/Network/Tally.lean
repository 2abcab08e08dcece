import IocpChatting.Network.Accepts

/-!
# The count of the sessions

A worker that opens a connection stores `is_activated_` first and counts it later, and a thread that closes
one clears `is_activated_` first and counts it later.  In between `current_session_cnt_` is wrong, and where
another thread closes a connection that is not counted yet it goes below zero.

* `toCountUp`, `toCountDown`   who has still to count up, and who has still to count down;
* `balance`             the count against the sessions and against those who have still to count;
* `step_balance`        no step changes it, modulo 2^32;
* `count_at_rest`       so the count is right when everybody has counted.
-/

set_option linter.unusedSectionVars false
set_option autoImplicit false

namespace Iocp
open Runs Census

namespace Network

variable {W : Nat} {s : Network W}

/-! ## who has still to count -/

/-- the worker has stored `is_activated_` and not counted the session -/
def WorkerPc.opened : WorkerPc → Bool
  | .clearBuffer _ | .increment => true
  | .setRecvOverlapped _ opening | .wsaRecv _ opening | .close _ _ opening => opening
  | _ => false

/-- the thread has won the `compare_exchange` and not counted the session off -/
def ClosePc.won : ClosePc → Bool
  | .setClosedTime | .compareExchange => false
  | _ => true

def WorkerPc.won : WorkerPc → Bool
  | .close _ pc _ => pc.won
  | _ => false

def SenderPc.won : SenderPc → Bool
  | .close _ pc => pc.won
  | _ => false

/-- nobody has still to count -/
def AtRest (s : Network W) : Prop :=
  (∀ w, (s.worker w).opened = false ∧ (s.worker w).won = false) ∧ s.sender.won = false

instance (s : Network W) : Decidable s.AtRest := inferInstanceAs (Decidable (_ ∧ _))

/-- the number of sessions with `is_activated_` -/
def activeCnt (s : Network W) : Nat := (Finset.univ.filter fun i => (s.session i).isActivated = true).card

/-! ## the balance -/

def activated (s : Network W) : ℤ := parties (fun x : Session => mark x.isActivated) s.session ()
def toCountUp (s : Network W) : ℤ := parties (fun pc : WorkerPc => mark pc.opened) s.worker ()
def toCountDown (s : Network W) : ℤ :=
  parties (fun pc : WorkerPc => mark pc.won) s.worker () + hit (mark s.sender.won) ()

def balance (s : Network W) : ℤ := s.currentSessionCnt.toNat - s.activated + s.toCountUp - s.toCountDown

theorem activated_eq (s : Network W) : s.activated = s.activeCnt := parties_mark Session.isActivated s.session

theorem activated_modify (i : SessionIdx) (f : Session → Session) :
    (s.modify i f).activated = s.activated - (if (s.session i).isActivated then 1 else 0)
      + if (f (s.session i)).isActivated then 1 else 0 := by
  rw [← hit_mark, ← hit_mark]
  exact parties_update _ _ _ _ _

/-- what the balance says of the sessions and of the counter -/
def counted (s : Network W) : ℤ := s.currentSessionCnt.toNat - s.activated

theorem balance_eq (s : Network W) : s.balance = s.counted + s.toCountUp - s.toCountDown := rfl

theorem counted_modify {i : SessionIdx} {f : Session → Session}
    (h : (f (s.session i)).isActivated = (s.session i).isActivated) : (s.modify i f).counted = s.counted := by
  show (s.currentSessionCnt.toNat : ℤ) - _ = _
  rw [activated_modify, h]
  unfold counted
  omega

theorem toCountUp_setWorker (w : Fin W) (pc : WorkerPc) :
    (s.setWorker w pc).toCountUp = s.toCountUp - (if (s.worker w).opened then 1 else 0)
      + if pc.opened then 1 else 0 := by
  rw [← hit_mark, ← hit_mark]
  exact parties_update _ _ _ _ _

theorem toCountDown_setWorker (w : Fin W) (pc : WorkerPc) :
    (s.setWorker w pc).toCountDown =
      s.toCountDown - (if (s.worker w).won then 1 else 0) + if pc.won then 1 else 0 := by
  have h := parties_update (fun pc : WorkerPc => mark pc.won) s.worker w pc ()
  rw [hit_mark, hit_mark] at h
  unfold toCountDown
  show parties _ (Function.update s.worker w pc) () + _ = _
  rw [h]
  show _ + hit (mark s.sender.won) () = _
  omega

/-- a worker goes on, and has as much to count as before -/
theorem balance_setWorker {w : Fin W} {pc : WorkerPc} (ho : pc.opened = (s.worker w).opened)
    (hw : pc.won = (s.worker w).won) : (s.setWorker w pc).balance = s.balance := by
  rw [balance_eq, toCountUp_setWorker, toCountDown_setWorker, ho, hw]
  show s.counted + _ - _ = _
  rw [balance_eq]
  omega

/-- the sender goes on -/
theorem balance_sender (pc : SenderPc) :
    { s with sender := pc }.balance =
      s.balance + (if s.sender.won then 1 else 0) - if pc.won then 1 else 0 := by
  have e : { s with sender := pc }.toCountDown =
      s.toCountDown - (if s.sender.won then 1 else 0) + if pc.won then 1 else 0 := by
    unfold toCountDown
    rw [hit_mark, hit_mark]
    show parties (fun pc : WorkerPc => mark pc.won) s.worker () + (if pc.won then 1 else 0) = _
    omega
  rw [balance_eq, e]
  show s.counted + s.toCountUp - _ = _
  rw [balance_eq]
  omega

/-- the threads stay where they are -/
theorem balance_congr {s' : Network W} (h : s'.counted = s.counted) (hw : s'.worker = s.worker)
    (hs : s'.sender = s.sender) : s'.balance = s.balance := by
  rw [balance_eq, balance_eq, h]
  unfold toCountUp toCountDown
  rw [hw, hs]

/-! ## CloseSocket -/

/-- A statement of `CloseSocket` changes the count and `is_activated_` as it changes what its thread has
still to count. -/
theorem closeStep_counted (i : SessionIdx) (pc : ClosePc) :
    ((s.closeStep i pc).counted - if (s.closeNext i pc).any ClosePc.won then 1 else 0) % 2^32 =
      (s.counted - if pc.won then 1 else 0) % 2^32 := by
  cases pc with
  | setClosedTime =>
    show ((s.modify i _).counted - _) % 2^32 = _
    rw [counted_modify rfl]
    rfl
  | compareExchange =>
    have e : (s.closeStep i .compareExchange).counted
        = s.counted + if (s.session i).isActivated then 1 else 0 := by
      show (s.currentSessionCnt.toNat : ℤ) - (s.modify i _).activated = _
      rw [activated_modify]
      unfold counted
      simp only [Bool.false_eq_true, if_false]
      omega
    rw [e]
    cases ha : (s.session i).isActivated with
    | true => simp [closeNext, ha, ClosePc.won]
    | false => simp [closeNext, ha, ClosePc.won]
  | closesocket =>
    have e : (s.closeStep i .closesocket).counted = s.counted := by
      show (s.closesocket _).counted = _
      unfold Network.closesocket
      split <;> rfl
    rw [e]
    rfl
  | setSocket =>
    show ((s.modify i _).counted - _) % 2^32 = _
    rw [counted_modify rfl]
    rfl
  | clearSendBuffer =>
    have e : (s.closeStep i .clearSendBuffer).counted = s.counted := by
      simp only [closeStep]
      split
      · rfl
      · exact counted_modify rfl
    rw [e]
    simp only [closeNext]
    split <;> rfl
  | clearSending =>
    show ((s.modify i _).counted - _) % 2^32 = _
    rw [counted_modify rfl]
    rfl
  | readClock => rfl
  | storeTime t =>
    show ((s.modify i _).counted - _) % 2^32 = _
    rw [counted_modify rfl]
    rfl
  | decrement =>
    have e : ((s.currentSessionCnt - 1).toNat : ℤ) = (s.currentSessionCnt.toNat - 1) % 2^32 := by
      have h := s.currentSessionCnt.toNat_lt
      rw [UInt32.toNat_sub]
      show (((2^32 - 1 + s.currentSessionCnt.toNat) % 2^32 : Nat) : ℤ) = _
      omega
    show (((s.currentSessionCnt - 1).toNat : ℤ) - s.activated - _) % 2^32
      = ((s.currentSessionCnt.toNat : ℤ) - s.activated - _) % 2^32
    rw [e]
    simp only [closeNext, Option.any_none, ClosePc.won, Bool.false_eq_true, if_false, if_true]
    omega

/-! ## steps -/

theorem afterCall_opened (opening : Bool) : (afterCall opening).opened = opening := by
  cases opening <;> rfl

theorem afterCall_won (opening : Bool) : (afterCall opening).won = false := by
  cases opening <;> rfl

theorem inClose_opened (i : SessionIdx) (opening : Bool) (pc : Option ClosePc) :
    (WorkerPc.inClose i opening pc).opened = opening := by
  cases pc with
  | none => exact afterCall_opened opening
  | some pc => rfl

theorem inClose_won (i : SessionIdx) (opening : Bool) (pc : Option ClosePc) :
    (WorkerPc.inClose i opening pc).won = pc.any ClosePc.won := by
  cases pc with
  | none => exact afterCall_won opening
  | some pc => rfl

theorem nextSend_won (i : SessionIdx) : (nextSend i).won = false := by
  unfold nextSend
  cases nextIdx i with
  | none => rfl
  | some j => rfl

theorem deliver_counted (req : IoRequest) (ok : Bool) (n : Nat) :
    (s.deliver req ok n).counted = s.counted := by
  unfold deliver
  split <;> rfl

/-- a worker goes on from `pc₀`, and has as much to count as before -/
theorem balance_go {w : Fin W} {pc₀ : WorkerPc} (hpc : s.worker w = pc₀) {pc : WorkerPc}
    (ho : pc.opened = pc₀.opened) (hw : pc.won = pc₀.won) : (s.setWorker w pc).balance = s.balance := by
  subst hpc
  exact balance_setWorker ho hw

/-- the same after a write to the sessions or to Winsock -/
theorem balance_write {s' : Network W} {w : Fin W} {pc₀ : WorkerPc} (hpc : s.worker w = pc₀)
    (hc : s'.counted = s.counted) (hk : s'.worker = s.worker) (hs : s'.sender = s.sender) {pc : WorkerPc}
    (ho : pc.opened = pc₀.opened) (hw : pc.won = pc₀.won) : (s'.setWorker w pc).balance = s.balance := by
  have hpc' : s'.worker w = pc₀ := by rw [hk, hpc]
  rw [balance_go hpc' ho hw]
  exact balance_congr hc hk hs

theorem checkStep_balance (w : Fin W) {c : Completion} (hpc : s.worker w = .check c) :
    (s.checkStep w c).balance = s.balance := by
  unfold checkStep
  split
  · exact balance_go hpc rfl rfl
  · split
    · split
      · rfl
      · exact balance_go hpc rfl rfl
    · split
      · exact balance_go hpc rfl rfl
      · exact balance_go hpc rfl rfl

theorem dispatchStep_balance (w : Fin W) {req : IoRequest} {n : Nat} (hpc : s.worker w = .dispatch req n) :
    (s.dispatchStep w req).balance = s.balance := by
  unfold dispatchStep
  split
  · split
    · rfl
    · exact balance_go hpc rfl rfl
  · split
    · rfl
    · exact balance_write hpc (counted_modify rfl) rfl rfl rfl rfl
  · split
    · rfl
    · exact balance_go hpc rfl rfl
  · exact balance_go hpc rfl rfl

/-- `is_activated_` is stored: there is one active session more, and one to count -/
theorem activate_balance {w : Fin W} {i : SessionIdx} (hpc : s.worker w = .setActivated i)
    (hact : (s.session i).isActivated = false) :
    ((s.modify i fun x => { x with isActivated := true }).setWorker w (.clearBuffer i)).balance
      = s.balance := by
  have hm := activated_modify (s := s) i fun x => { x with isActivated := true }
  have ho : ((s.modify i fun x => { x with isActivated := true }).setWorker w (.clearBuffer i)).toCountUp
      = s.toCountUp + 1 := by
    rw [toCountUp_setWorker]
    show s.toCountUp - (if (s.worker w).opened then 1 else 0) + _ = _
    rw [hpc]
    show s.toCountUp - 0 + 1 = _
    omega
  have hw : ((s.modify i fun x => { x with isActivated := true }).setWorker w (.clearBuffer i)).toCountDown
      = s.toCountDown := by
    rw [toCountDown_setWorker]
    show s.toCountDown - (if (s.worker w).won then 1 else 0) + _ = _
    rw [hpc]
    show s.toCountDown - 0 + 0 = _
    omega
  rw [hact] at hm
  simp only [Bool.false_eq_true, if_false, if_true] at hm
  have hc : (s.modify i fun x => { x with isActivated := true }).counted = s.counted - 1 := by
    unfold counted
    rw [hm]
    show (s.currentSessionCnt.toNat : ℤ) - _ = _
    omega
  have e : ((s.modify i fun x => { x with isActivated := true }).setWorker w (.clearBuffer i)).counted
      = s.counted - 1 := hc
  rw [balance_eq, e, ho, hw, balance_eq]
  omega

/-- the session is counted -/
theorem increment_balance {w : Fin W} (hpc : s.worker w = .increment) :
    ({ s with currentSessionCnt := s.currentSessionCnt + 1 }.setWorker w .test).balance % 2^32
      = s.balance % 2^32 := by
  have hcnt : ((s.currentSessionCnt + 1).toNat : ℤ) = (s.currentSessionCnt.toNat + 1) % 2^32 := by
    rw [UInt32.toNat_add]
    show (((s.currentSessionCnt.toNat + 1) % 2^32 : Nat) : ℤ) = _
    omega
  have ho : ({ s with currentSessionCnt := s.currentSessionCnt + 1 }.setWorker w .test).toCountUp
      = s.toCountUp - 1 := by
    rw [toCountUp_setWorker]
    show s.toCountUp - (if (s.worker w).opened then 1 else 0) + _ = _
    rw [hpc]
    show s.toCountUp - 1 + 0 = _
    omega
  have hw : ({ s with currentSessionCnt := s.currentSessionCnt + 1 }.setWorker w .test).toCountDown =
      s.toCountDown := by
    rw [toCountDown_setWorker]
    show s.toCountDown - (if (s.worker w).won then 1 else 0) + _ = _
    rw [hpc]
    show s.toCountDown - 0 + 0 = _
    omega
  rw [balance_eq, ho, hw, balance_eq]
  show (((s.currentSessionCnt + 1).toNat : ℤ) - s.activated + _ - _) % 2^32 = _
  rw [hcnt]
  unfold counted
  omega

/-- a worker makes a statement of `CloseSocket` -/
theorem workerClose_balance {w : Fin W} {i : SessionIdx} {pc : ClosePc} {opening : Bool}
    (hpc : s.worker w = .close i pc opening) :
    ((s.closeStep i pc).setWorker w (.inClose i opening (s.closeNext i pc))).balance % 2^32
      = s.balance % 2^32 := by
  obtain ⟨hio, hworkers⟩ := closeStep_same (s := s) i pc
  have ho : ((s.closeStep i pc).setWorker w (.inClose i opening (s.closeNext i pc))).toCountUp =
      s.toCountUp := by
    rw [toCountUp_setWorker, inClose_opened, hworkers.worker, hpc]
    have e : (s.closeStep i pc).toCountUp = s.toCountUp := by
      unfold toCountUp
      rw [hworkers.worker]
    rw [e]
    show s.toCountUp - (if opening then 1 else 0) + _ = _
    omega
  have hw : ((s.closeStep i pc).setWorker w (.inClose i opening (s.closeNext i pc))).toCountDown
      = s.toCountDown - (if pc.won then 1 else 0) + if (s.closeNext i pc).any ClosePc.won then 1 else 0 := by
    rw [toCountDown_setWorker, inClose_won, hworkers.worker, hpc]
    have e : (s.closeStep i pc).toCountDown = s.toCountDown := by
      unfold toCountDown
      rw [hworkers.worker, hio.sender]
    rw [e]
    rfl
  have h := closeStep_counted (s := s) i pc
  rw [balance_eq, ho, hw, balance_eq]
  show ((s.closeStep i pc).counted + _ - _) % 2^32 = _
  omega

/-- and the sender does -/
theorem senderClose_balance {i : SessionIdx} {pc : ClosePc} (hpc : s.sender = .close i pc) :
    { s.closeStep i pc with sender := .inClose i (s.closeNext i pc) }.balance % 2^32
      = s.balance % 2^32 := by
  obtain ⟨hio, hworkers⟩ := closeStep_same (s := s) i pc
  have hk : (SenderPc.inClose i (s.closeNext i pc)).won = (s.closeNext i pc).any ClosePc.won := by
    cases s.closeNext i pc with
    | none => exact nextSend_won i
    | some pc' => rfl
  have e : (s.closeStep i pc).balance = (s.closeStep i pc).counted + s.toCountUp - s.toCountDown := by
    rw [balance_eq]
    unfold toCountUp toCountDown
    rw [hworkers.worker, hio.sender]
  have h := closeStep_counted (s := s) i pc
  rw [balance_sender, e, hio.sender, hpc, hk, balance_eq]
  show (_ + (if pc.won then 1 else 0) - _) % 2^32 = _
  omega

theorem workerStep_balance (w : Fin W) (ok : Bool)
    (hact : ∀ i, s.worker w = .setActivated i → (s.session i).isActivated = false) :
    (s.workerStep w ok).balance % 2^32 = s.balance % 2^32 := by
  cases hpc : s.worker w with
  | test =>
    simp only [workerStep, hpc]
    refine congrArg (· % 2^32) (balance_go hpc ?_ ?_)
    · split <;> rfl
    · split <;> rfl
  | getQueued =>
    simp only [workerStep, hpc]
    split
    · rfl
    · next c rest _ =>
      exact congrArg (· % 2^32) (balance_write hpc rfl rfl rfl rfl rfl)
  | repost =>
    simp only [workerStep, hpc]
    exact congrArg (· % 2^32) (balance_write hpc rfl rfl rfl rfl rfl)
  | check c => rw [workerStep_check hpc, checkStep_balance w hpc]
  | dispatch req n => rw [workerStep_dispatch hpc, dispatchStep_balance w hpc]
  | bindIocp i =>
    simp only [workerStep, hpc]
    split
    · next e =>
      obtain ⟨sock, _, _, _, rfl⟩ := bindIOCompletionPort_eq_some e
      exact congrArg (· % 2^32) (balance_write hpc rfl rfl rfl rfl rfl)
    · exact congrArg (· % 2^32) (balance_go hpc rfl rfl)
  | onConnect i =>
    simp only [workerStep, hpc]
    exact congrArg (· % 2^32) (balance_go hpc rfl rfl)
  | zeroRecv i | zeroSend i =>
    simp only [workerStep, hpc]
    exact congrArg (· % 2^32) (balance_write hpc (counted_modify rfl) rfl rfl rfl rfl)
  | setActivated i =>
    simp only [workerStep, hpc]
    exact congrArg (· % 2^32) (activate_balance hpc (hact i hpc))
  | clearBuffer i | setRecvOverlapped i opening =>
    simp only [workerStep, hpc]
    exact congrArg (· % 2^32) (balance_write hpc (counted_modify rfl) rfl rfl rfl rfl)
  | wsaRecv i opening =>
    simp only [workerStep, hpc]
    split
    · next e =>
      obtain ⟨sock, _, _, rfl⟩ := wsaRecv_eq_some e
      exact congrArg (· % 2^32) (balance_write hpc rfl rfl rfl (afterCall_opened opening) (afterCall_won opening))
    · exact congrArg (· % 2^32) (balance_go hpc rfl rfl)
  | close i pc opening =>
    simp only [workerStep, hpc]
    exact workerClose_balance hpc
  | increment =>
    simp only [workerStep, hpc]
    exact increment_balance hpc
  | finished => simp only [workerStep, hpc]

theorem counted_accepter (pc : AccepterPc) : { s with accepter := pc }.counted = s.counted := rfl

theorem accepterStep_counted (ok : Bool) : (s.accepterStep ok).counted = s.counted := by
  cases hpc : s.accepter with
  | test | readClock | readActivated | compareClosed | diffClosed | finished =>
    simp only [accepterStep, hpc, counted_accepter]
  | bindAccept t i | setAcceptOverlapped t i =>
    simp only [accepterStep, hpc]
    exact (counted_accepter _).trans (counted_modify rfl)
  | createSocket t i =>
    simp only [accepterStep, hpc, counted_accepter, Network.createSocket]
    split
    · have h := counted_modify (s := s) (i := i) (f := (·.setSocket (some s.socketCnt))) rfl
      exact h
    · exact counted_modify rfl
  | acceptEx t i =>
    simp only [accepterStep, hpc, Network.acceptEx]
    split
    · rfl
    · split <;> rfl

/-- the sender goes on from a place where it has nothing to count to another -/
theorem balance_send {s' : Network W} {pc₀ pc : SenderPc} (hpc : s.sender = pc₀)
    (hc : s'.counted = s.counted) (hk : s'.worker = s.worker) (hs : s'.sender = s.sender)
    (h₀ : pc₀.won = false) (hw : pc.won = false) : { s' with sender := pc }.balance = s.balance := by
  rw [balance_sender, hs, hpc, h₀, hw, balance_congr hc hk hs]
  show s.balance + 0 - 0 = _
  omega

theorem senderStep_balance (result : SendResult) :
    (s.senderStep result).balance % 2^32 = s.balance % 2^32 := by
  cases hpc : s.sender with
  | test =>
    simp only [senderStep, hpc]
    refine congrArg (· % 2^32) (balance_send hpc rfl rfl rfl rfl ?_)
    split <;> rfl
  | hasSendData i =>
    simp only [senderStep, hpc]
    refine congrArg (· % 2^32) (balance_send hpc rfl rfl rfl rfl ?_)
    split
    · rfl
    · exact nextSend_won i
  | bindSend i =>
    simp only [senderStep, hpc]
    split
    · exact congrArg (· % 2^32) (balance_send hpc rfl rfl rfl rfl (nextSend_won i))
    · exact congrArg (· % 2^32) (balance_send hpc (counted_modify rfl) rfl rfl rfl rfl)
  | setSendOverlapped i =>
    simp only [senderStep, hpc]
    exact congrArg (· % 2^32) (balance_send hpc (counted_modify rfl) rfl rfl rfl rfl)
  | wsaSend i bufs =>
    simp only [senderStep, hpc]
    split
    · next e =>
      obtain ⟨sock, _, ⟨_, rfl, _⟩ | ⟨m, _, _, rfl⟩⟩ := wsaSend_eq_some e
      · exact congrArg (· % 2^32) (balance_send hpc rfl rfl rfl rfl rfl)
      · exact congrArg (· % 2^32) (balance_send hpc (deliver_counted _ _ _)
          (deliver_same _ _ _).2.worker (deliver_same _ _ _).1.sender rfl rfl)
    · exact congrArg (· % 2^32) (balance_send hpc rfl rfl rfl rfl rfl)
  | moveFront i n =>
    simp only [senderStep, hpc]
    exact congrArg (· % 2^32) (balance_send hpc (counted_modify rfl) rfl rfl rfl (nextSend_won i))
  | close i pc =>
    simp only [senderStep, hpc]
    exact senderClose_balance hpc
  | finished => simp only [senderStep, hpc]

theorem sendPacket_balance (idx : Int) (data : List UInt8) :
    (s.sendPacket idx data).balance = s.balance := by
  unfold sendPacket
  split
  · rfl
  · split
    · rfl
    · exact balance_congr (counted_modify rfl) rfl rfl

theorem complete_counted (k : Nat) (ok : Bool) (n : Nat) : (s.complete k ok n).counted = s.counted := by
  unfold complete
  split
  · rfl
  · simp only
    split <;> exact deliver_counted _ _ _

/-- **No step changes the balance**, as long as `Activate` finds a session that is not active. -/
theorem step_balance (a : Action W)
    (hact : ∀ w i, s.worker w = .setActivated i → (s.session i).isActivated = false) :
    (step s a).balance % 2^32 = s.balance % 2^32 := by
  unfold step
  split
  · rfl
  · cases a with
    | worker w ok => exact workerStep_balance w ok (hact w)
    | accepter ok =>
      have h := accepterStep_same (s := s) ok
      exact congrArg (· % 2^32) (balance_congr (accepterStep_counted ok) h.worker h.sender)
    | sender result => exact senderStep_balance result
    | sendPacket idx data => exact congrArg (· % 2^32) (sendPacket_balance idx data)
    | complete k ok n =>
      have h := complete_same (s := s) k ok n
      exact congrArg (· % 2^32) (balance_congr (complete_counted k ok n) h.2.worker h.1.sender)
    | tick | post | stopWorkers | stopAccepter | stopSender => rfl

/-! ## runs -/

/-- `Activate` never finds an active session: the worker is the owner of the slot -/
theorem activates_idle {i : SessionIdx} (h : (s.slot i).Owned) {w : Fin W}
    (hpc : s.worker w = .setActivated i) : (s.session i).isActivated = false := by
  have h1 : 1 ≤ (s.slot i).count .opening := by
    refine count_worker (w := w) ?_
    rw [hpc]
    exact phaseAt_self i _
  have hle := Slot.le_owners (count_nonneg s i) (p := .opening) rfl
  have hone := h.one
  by_contra hact
  have e : (s.slot i).active = 1 := if_pos ((Bool.not_eq_false _).mp hact)
  omega

theorem start_balance (heap : SessionIdx → Fin kDefaultRingBufferSize → UInt8) (clock : Seconds) :
    (start W heap clock).balance = 0 := by
  have ha : (start W heap clock).activated = 0 := parties_eq_zero _ fun _ h => nomatch h
  have ho : (start W heap clock).toCountUp = 0 := parties_eq_zero _ fun _ h => nomatch h
  have hw : (start W heap clock).toCountDown = 0 := by
    have h : parties (fun pc : WorkerPc => mark pc.won) (start W heap clock).worker () = 0 :=
      parties_eq_zero _ fun _ h => nomatch h
    unfold toCountDown
    rw [h]
    rfl
  unfold balance
  rw [ha, ho, hw]
  rfl

theorem atRest_balance (h : s.AtRest) : s.balance = s.currentSessionCnt.toNat - s.activeCnt := by
  have ho : s.toCountUp = 0 := parties_eq_zero _ fun w => by simp [mark, (h.1 w).1]
  have hw : s.toCountDown = 0 := by
    have hp : parties (fun pc : WorkerPc => mark pc.won) s.worker () = 0 :=
      parties_eq_zero _ fun w => by simp [mark, (h.1 w).2]
    unfold toCountDown
    rw [hp, h.2]
    rfl
  unfold balance
  rw [ho, hw, activated_eq]
  omega

theorem activeCnt_le (s : Network W) : s.activeCnt ≤ kMaxSessionCnt :=
  (Finset.card_le_univ _).trans (Fintype.card_fin _).le

section
variable (heap : SessionIdx → Fin kDefaultRingBufferSize → UInt8) (clock : Seconds)

theorem run_balance (as : List (Action W)) : (run step (start W heap clock) as).balance % 2^32 = 0 := by
  induction as using List.reverseRecOn with
  | nil =>
    rw [run_nil, start_balance]
    rfl
  | append_singleton as a ih =>
    rw [run_snoc, step_balance a fun w i hpc => activates_idle (run_owned heap clock as i) hpc]
    exact ih

/-- **The count is right whenever everybody has counted.** -/
theorem count_at_rest (as : List (Action W)) (hrest : (run step (start W heap clock) as).AtRest) :
    (run step (start W heap clock) as).currentSessionCnt.toNat
      = (run step (start W heap clock) as).activeCnt := by
  have h := run_balance heap clock as
  generalize run step (start W heap clock) as = s at h hrest ⊢
  have hb := atRest_balance hrest
  have hlt := s.currentSessionCnt.toNat_lt
  have hle : s.activeCnt ≤ 1000 := activeCnt_le s
  omega

end

/-- the sender closes the connection while the worker is about to receive for the first time -/
def closedUncounted : List (Action 1) :=
  [.tick 10] ++ List.replicate 9 (.accepter true) ++ [.complete 0 true 0]
    ++ List.replicate 10 (.worker 0 true) ++ [.sendPacket 0 [1]] ++ List.replicate 14 (.sender .error)

theorem count_at_rest_closedUncounted :
    (run step (start 1 (fun _ _ => 0) 0) closedUncounted).currentSessionCnt = 4294967295 ∧
      (run step (start 1 (fun _ _ => 0) 0)
          (closedUncounted ++ List.replicate 5 (.worker 0 true))).currentSessionCnt.toNat =
        (run step (start 1 (fun _ _ => 0) 0) (closedUncounted ++ List.replicate 5 (.worker 0 true))).activeCnt :=
  ⟨by decide +kernel, count_at_rest (fun _ _ => 0) 0 _ (by decide +kernel)⟩

end Network

end Iocp
