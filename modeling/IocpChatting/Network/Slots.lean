import IocpChatting.Network.Faults
import IocpChatting.Lib.Census

/-!
# Slots

What all threads together are doing to one session.

* `Phase`, `Slot`       how many parties are in which phase of the session's life, its flags and its close
                        time, and whether the accepter is about to bind it;
* `Event`, `apply`, `Fits`   what can happen to a slot, and when;
* `slot`                the slot of a session, and what each kind of write does to it.
-/

set_option linter.unusedSectionVars false
set_option autoImplicit false

namespace Iocp
open Runs Census

namespace Network

/-! ## phases -/

/-- what a party is doing for a session -/
inductive Phase where
  /-- an accept, from `AcceptEx` until `DispatchOverlapped` takes its completion up -/
  | accepting
  /-- the accept branch, until `is_activated_` is stored -/
  | opening
  /-- `is_activated_` is stored, and `Activate` is not over -/
  | finishing
  /-- in `BindSend`, after the `compare_exchange` -/
  | binding
  /-- in `CloseSocket`, up to the `compare_exchange` -/
  | starting
  /-- has won the `compare_exchange`, and has not cleared `is_sending_` -/
  | closing
  /-- has cleared `is_sending_`, and has not stored the time -/
  | cleared
  /-- has stored the time -/
  | leaving
deriving DecidableEq, Repr

def ClosePc.phase : ClosePc → Phase
  | .setClosedTime | .compareExchange => .starting
  | .closesocket | .setSocket | .clearSendBuffer | .clearSending => .closing
  | .readClock | .storeTime _ => .cleared
  | .decrement => .leaving

/-- the phase `p` of `j`, seen from `i` -/
def phaseAt (i j : SessionIdx) (p : Phase) : Option Phase := if j = i then some p else none

def IoRequest.phase (i : SessionIdx) (req : IoRequest) : Option Phase :=
  if req.op = .accept then phaseAt i req.session .accepting else none

def Completion.phase (i : SessionIdx) : Completion → Option Phase
  | .io req _ _ => req.phase i
  | .posted _ => none

def WorkerPc.phase (i : SessionIdx) : WorkerPc → Option Phase
  | .check c => c.phase i
  | .dispatch req _ => req.phase i
  | .bindIocp j | .onConnect j | .zeroRecv j | .zeroSend j | .setActivated j => phaseAt i j .opening
  | .clearBuffer j => phaseAt i j .finishing
  | .close j pc _ => phaseAt i j pc.phase
  | _ => none

def SenderPc.phase (i : SessionIdx) : SenderPc → Option Phase
  | .setSendOverlapped j | .wsaSend j _ | .moveFront j _ => phaseAt i j .binding
  | .close j pc => phaseAt i j pc.phase
  | _ => none

/-- where the accepter is with a session -/
inductive AccepterAt where
  | away
  /-- after the first look at the close time -/
  | passed
  /-- after the second look: it is going to call `BindAccept` -/
  | chosen
  /-- in `BindAccept`, after the store of `UINT64_MAX` -/
  | inside
deriving DecidableEq, Repr

def AccepterPc.isAt (i : SessionIdx) : AccepterPc → AccepterAt
  | .diffClosed _ j => if j = i then .passed else .away
  | .bindAccept _ j => if j = i then .chosen else .away
  | .createSocket _ j | .setAcceptOverlapped _ j | .acceptEx _ j => if j = i then .inside else .away
  | _ => .away

/-! ## slots -/

structure Slot where
  count : Phase → ℤ
  isActivated : Bool
  isSending : Bool
  closedTime : Nat
  accepter : AccepterAt

namespace Slot

/-- a party goes from phase `p` to phase `q` -/
def move (σ : Slot) (p q : Option Phase) : Slot :=
  { σ with count := fun x => σ.count x - hit p x + hit q x }

theorem move_self (σ : Slot) (p : Option Phase) : σ.move p p = σ := by
  have e : (fun x => σ.count x - hit p x + hit p x) = σ.count := by
    funext x
    omega
  unfold move
  rw [e]

/-- the accepter goes on -/
def goTo (σ : Slot) (a : AccepterAt) : Slot := { σ with accepter := a }

inductive Event where
  | quiet
  /-- `AcceptEx` succeeds -/
  | issue
  /-- `BindAccept` fails -/
  | abandon
  | takeUp
  | bindFails
  | activate
  | activated
  /-- a thread calls `CloseSocket` -/
  | exit
  | storeMax
  | lose
  | win
  | clear
  | storeTime (t : Nat)
  | leave
  | bindSend
  | sendReturns
  | sendFails
  /-- the completion of a send is taken up -/
  | sendDone
  /-- the accepter looks at the close time -/
  | pass
  | giveUp
  | choose
  | storeAccept
deriving DecidableEq, Repr

def apply (σ : Slot) : Event → Slot
  | .quiet => σ
  | .issue => (σ.move none (some .accepting)).goTo .away
  | .abandon => σ.goTo .away
  | .takeUp => σ.move (some .accepting) (some .opening)
  | .bindFails => σ.move (some .opening) (some .starting)
  | .activate => { σ.move (some .opening) (some .finishing) with isActivated := true }
  | .activated => σ.move (some .finishing) none
  | .exit => σ.move none (some .starting)
  | .storeMax => { σ with closedTime := uint64Max }
  | .lose => σ.move (some .starting) none
  | .win => { σ.move (some .starting) (some .closing) with isActivated := false }
  | .clear => { σ.move (some .closing) (some .cleared) with isSending := false }
  | .storeTime t => { σ.move (some .cleared) (some .leaving) with closedTime := t }
  | .leave => σ.move (some .leaving) none
  | .bindSend => { σ.move none (some .binding) with isSending := true }
  | .sendReturns => σ.move (some .binding) none
  | .sendFails => σ.move (some .binding) (some .starting)
  | .sendDone => { σ with isSending := false }
  | .pass => σ.goTo .passed
  | .giveUp => σ.goTo .away
  | .choose => σ.goTo .chosen
  | .storeAccept => { σ with closedTime := uint64Max }.goTo .inside

/-- when an event happens -/
def Fits (σ : Slot) : Event → Prop
  | .issue | .abandon => σ.accepter = .inside
  | .takeUp => 1 ≤ σ.count .accepting
  | .bindFails | .activate => 1 ≤ σ.count .opening
  | .activated => 1 ≤ σ.count .finishing
  | .storeMax => 1 ≤ σ.count .starting
  | .lose => 1 ≤ σ.count .starting ∧ σ.isActivated = false
  | .win => 1 ≤ σ.count .starting ∧ σ.isActivated = true
  | .clear => 1 ≤ σ.count .closing
  | .storeTime t => 1 ≤ σ.count .cleared ∧ t < uint64Max
  | .leave => 1 ≤ σ.count .leaving
  | .bindSend => σ.isSending = false
  | .sendReturns | .sendFails => 1 ≤ σ.count .binding
  | .pass => σ.closedTime < uint64Max
  | .giveUp | .choose => σ.accepter = .passed
  | .storeAccept => σ.accepter = .chosen
  | .quiet | .exit | .sendDone => True

end Slot

variable {W : Nat} {s : Network W}

def slot (s : Network W) (i : SessionIdx) : Slot where
  count p := parties (WorkerPc.phase i) s.worker p + hit (s.sender.phase i) p
    + waiting (IoRequest.phase i) s.pending p + waiting (Completion.phase i) s.port p
  isActivated := (s.session i).isActivated
  isSending := (s.session i).isSending
  closedTime := (s.session i).latestConnClosed
  accepter := s.accepter.isAt i

theorem count_nonneg (s : Network W) (i : SessionIdx) (p : Phase) : 0 ≤ (s.slot i).count p := by
  have h1 := parties_nonneg (WorkerPc.phase i) s.worker p
  have h2 := hit_nonneg (s.sender.phase i) p
  have h3 := waiting_nonneg (IoRequest.phase i) s.pending p
  have h4 := waiting_nonneg (Completion.phase i) s.port p
  simp only [slot]
  omega

theorem count_worker {i : SessionIdx} {w : Fin W} {p : Phase} (h : (s.worker w).phase i = some p) :
    1 ≤ (s.slot i).count p := by
  have h1 := hit_le_parties (WorkerPc.phase i) s.worker w p
  have h2 := hit_nonneg (s.sender.phase i) p
  have h3 := waiting_nonneg (IoRequest.phase i) s.pending p
  have h4 := waiting_nonneg (Completion.phase i) s.port p
  rw [h, hit_self] at h1
  simp only [slot]
  omega

theorem count_sender {i : SessionIdx} {p : Phase} (h : s.sender.phase i = some p) :
    1 ≤ (s.slot i).count p := by
  have h1 := parties_nonneg (WorkerPc.phase i) s.worker p
  have h3 := waiting_nonneg (IoRequest.phase i) s.pending p
  have h4 := waiting_nonneg (Completion.phase i) s.port p
  simp only [slot, h, hit_self]
  omega

/-! ## what a write does to a slot -/

theorem slot_setWorker (i : SessionIdx) (w : Fin W) (pc : WorkerPc) :
    (s.setWorker w pc).slot i = (s.slot i).move ((s.worker w).phase i) (pc.phase i) := by
  unfold slot Slot.move setWorker
  simp only [Slot.mk.injEq, and_self, and_true]
  funext p
  rw [parties_update]
  omega

theorem slot_sender (i : SessionIdx) (pc : SenderPc) :
    { s with sender := pc }.slot i = (s.slot i).move (s.sender.phase i) (pc.phase i) := by
  unfold slot Slot.move
  simp only [Slot.mk.injEq, and_self, and_true]
  funext p
  omega

theorem slot_accepter (i : SessionIdx) (pc : AccepterPc) :
    { s with accepter := pc }.slot i = (s.slot i).goTo (pc.isAt i) := rfl

theorem slot_modify_other {i j : SessionIdx} (f : Session → Session) (h : i ≠ j) :
    (s.modify j f).slot i = s.slot i := by
  unfold slot
  rw [modify_other s f h]
  rfl

theorem slot_modify_self (i : SessionIdx) (f : Session → Session) :
    (s.modify i f).slot i =
      { s.slot i with
        isActivated := (f (s.session i)).isActivated
        isSending := (f (s.session i)).isSending
        closedTime := (f (s.session i)).latestConnClosed } := by
  unfold slot
  rw [modify_self]
  rfl

/-- a write to fields that the slot does not show -/
theorem slot_modify {j : SessionIdx} {f : Session → Session} (i : SessionIdx)
    (h : ∀ x : Session, (f x).isActivated = x.isActivated ∧ (f x).isSending = x.isSending ∧
      (f x).latestConnClosed = x.latestConnClosed) :
    (s.modify j f).slot i = s.slot i := by
  by_cases e : i = j
  · subst e
    obtain ⟨h1, h2, h3⟩ := h (s.session i)
    rw [slot_modify_self, h1, h2, h3]
    rfl
  · exact slot_modify_other f e

theorem slot_begin (i : SessionIdx) (req : IoRequest) :
    (s.begin req).slot i = (s.slot i).move none (req.phase i) := by
  unfold slot Slot.move begin
  simp only [Slot.mk.injEq, and_self, and_true]
  funext p
  rw [waiting_append, waiting_cons, waiting_nil, hit_none]
  omega

theorem slot_post (i : SessionIdx) (c : Completion) :
    (s.post c).slot i = (s.slot i).move none (c.phase i) := by
  unfold slot Slot.move post
  simp only [Slot.mk.injEq, and_self, and_true]
  funext p
  rw [waiting_append, waiting_cons, waiting_nil, hit_none]
  omega

theorem slot_erase (i : SessionIdx) {k : Nat} {req : IoRequest} (h : s.pending[k]? = some req) :
    { s with pending := s.pending.eraseIdx k }.slot i = (s.slot i).move (req.phase i) none := by
  unfold slot Slot.move
  simp only [Slot.mk.injEq, and_self, and_true]
  funext p
  rw [waiting_eraseIdx _ h, hit_none]
  omega

theorem slot_pop (i : SessionIdx) {c : Completion} {rest : List Completion} (h : s.port = c :: rest) :
    { s with port := rest }.slot i = (s.slot i).move (c.phase i) none := by
  unfold slot Slot.move
  simp only [Slot.mk.injEq, and_self, and_true]
  funext p
  rw [h, waiting_cons, hit_none]
  omega

theorem move_back (σ : Slot) (p : Option Phase) : (σ.move p none).move none p = σ := by
  have e : (fun x => σ.count x - hit p x + hit none x - hit none x + hit p x) = σ.count := by
    funext x
    omega
  unfold Slot.move
  simp only [e]

theorem slot_deliver {i : SessionIdx} {req : IoRequest} (h : req.phase i = none) (ok : Bool) (n : Nat) :
    (s.deliver req ok n).slot i = s.slot i := by
  unfold deliver
  split
  · rw [slot_post]
    show (s.slot i).move none (req.phase i) = _
    rw [h, Slot.move_self]
  · rfl

/-- a completion goes from one place to another, or it was none of an accept -/
theorem slot_complete (i : SessionIdx) (k : Nat) (ok : Bool) (n : Nat) :
    (s.complete k ok n).slot i = s.slot i := by
  unfold complete
  split
  · rfl
  · next req hreq =>
    have herase := slot_erase (s := s) i hreq
    have hplain : req.phase i = none → ∀ ok',
        ({ s with pending := s.pending.eraseIdx k }.deliver req ok' n).slot i = s.slot i := by
      intro hnone ok'
      rw [slot_deliver hnone, herase, hnone, Slot.move_self]
    cases hop : req.op with
    | accept =>
      simp only [deliver, hop, true_or, if_true]
      rw [slot_post]
      show ({ s with pending := s.pending.eraseIdx k }.slot i).move none (req.phase i) = _
      rw [herase, move_back]
    | recv => exact hplain (by simp [IoRequest.phase, hop]) _
    | send => exact hplain (by simp [IoRequest.phase, hop]) _

end Network

end Iocp
