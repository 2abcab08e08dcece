import IocpChatting.Network.Network

/-!
# What a step of the network can do

* `Writes`              what one step can do to a session, and which thread does it;
* `Holds`, `issued`     where an overlapped operation is, from the call that starts it until
                        `DispatchOverlapped` has taken up its completion: a step holds on to what was
                        held and to what it starts (`holds_step`);
* `SameIo`, `SameWorkers`, `SenderOnly`, `AccepterOnly`   which threads a step leaves where they are;
* `Reports`, `Delivers`   the completions that the workers find, and what a step adds to them.
-/

set_option linter.unusedSectionVars false
set_option autoImplicit false

namespace Iocp
open Runs

namespace Network

variable {W : Nat} {s : Network W}

/-! ## before and after a crash -/

theorem step_crashed (hc : s.crashed = true) (a : Action W) : step s a = s := if_pos hc

theorem step_workerStep (hc : s.crashed = false) (w : Fin W) (ok : Bool) :
    step s (.worker w ok) = s.workerStep w ok := by
  simp only [step, hc, Bool.false_eq_true, if_false]

theorem step_accepterStep (hc : s.crashed = false) (ok : Bool) :
    step s (.accepter ok) = s.accepterStep ok := by
  simp only [step, hc, Bool.false_eq_true, if_false]

theorem step_senderStep (hc : s.crashed = false) (result : SendResult) :
    step s (.sender result) = s.senderStep result := by
  simp only [step, hc, Bool.false_eq_true, if_false]

theorem step_sendPacket (hc : s.crashed = false) (idx : Int) (data : List UInt8) :
    step s (.sendPacket idx data) = s.sendPacket idx data := by
  simp only [step, hc, Bool.false_eq_true, if_false]

theorem workerStep_check {w : Fin W} {c : Completion} (hpc : s.worker w = .check c) (ok : Bool) :
    s.workerStep w ok = s.checkStep w c := by simp only [workerStep, hpc]

theorem workerStep_dispatch {w : Fin W} {req : IoRequest} {n : Nat} (hpc : s.worker w = .dispatch req n)
    (ok : Bool) : s.workerStep w ok = s.dispatchStep w req := by simp only [workerStep, hpc]

/-! ## writes to a session -/

/-- some thread is at the statement `pc` of `CloseSocket` of `i` -/
def InClose (s : Network W) (i : SessionIdx) (pc : ClosePc) : Prop :=
  (∃ w opening, s.worker w = .close i pc opening) ∨ s.sender = .close i pc

/-- what the step `a` may leave of the session `i` -/
inductive Writes (s : Network W) (a : Action W) (i : SessionIdx) : Session → Prop
  | none : s.Writes a i (s.session i)
  | closedTime (t : Nat) : s.Writes a i ((s.session i).setConnectionClosedTime t)
  | socket (sock : Option Nat) (h : (∃ t, s.accepter = .createSocket t i) ∨ s.InClose i .setSocket) :
      s.Writes a i ((s.session i).setSocket sock)
  | accept (h : ∃ t, s.accepter = .setAcceptOverlapped t i) :
      s.Writes a i (s.session i).setAcceptOverlapped
  | recv : s.Writes a i (s.session i).setRecvOverlapped
  | send : s.Writes a i (s.session i).setSendOverlapped
  | zeroRecv : s.Writes a i { s.session i with recvOverlapped := .zero }
  | zeroSend : s.Writes a i { s.session i with sendOverlapped := .zero }
  | activated (b : Bool) : s.Writes a i { s.session i with isActivated := b }
  | sending (b : Bool) : s.Writes a i { s.session i with isSending := b }
  | clear (h : (∃ w, s.worker w = .clearBuffer i) ∨ s.InClose i .clearSendBuffer) :
      s.Writes a i (s.session i).clearSendBuffer
  | moveFront (n : Nat) (h : s.sender = .moveFront i n ∧ ∃ result, a = .sender result) :
      s.Writes a i { s.session i with sendBuf := (s.session i).sendBuf.moveFront n }
  | enqueue (idx : Int) (data : List UInt8)
      (h : a = .sendPacket idx data ∧ getSessionByIdx idx = some i ∧ s.sendLocked i = false) :
      s.Writes a i ((s.session i).enqueueSendData data).1

theorem modify_self (s : Network W) (i : SessionIdx) (f : Session → Session) :
    (s.modify i f).session i = f (s.session i) := Function.update_self ..

theorem modify_other (s : Network W) {i j : SessionIdx} (f : Session → Session) (h : i ≠ j) :
    (s.modify j f).session i = s.session i := Function.update_of_ne h ..

/-- a write to the session `j`, seen from `i` -/
theorem writes_update {a : Action W} {i j : SessionIdx} {y : Session} (h : i = j → s.Writes a i y) :
    s.Writes a i (Function.update s.session j y i) := by
  by_cases e : i = j
  · have hy := h e
    subst e
    rw [Function.update_self]
    exact hy
  · rw [Function.update_of_ne e]
    exact .none

/-! ## Winsock leaves the sessions alone -/

theorem deliver_session (req : IoRequest) (ok : Bool) (n : Nat) :
    (s.deliver req ok n).session = s.session := by
  unfold deliver
  split <;> rfl

theorem wsaSend_eq_some {i : SessionIdx} {len n : Nat} {result : SendResult} {s' : Network W}
    (h : s.wsaSend i len result = some (s', n)) :
    ∃ sock, s.connectedSocket i = some sock ∧
      (result = .pending ∧ s' = s.begin ⟨.send, i, sock⟩ ∧ n = 0 ∨
        ∃ m, result = .sent m ∧ n = min m len ∧ s' = s.deliver ⟨.send, i, sock⟩ true n) := by
  unfold wsaSend at h
  cases hs : s.connectedSocket i with
  | none => rw [hs] at h; cases h
  | some sock =>
    rw [hs] at h
    cases result with
    | error => cases h
    | pending =>
      cases h
      exact ⟨sock, rfl, .inl ⟨rfl, rfl, rfl⟩⟩
    | sent m =>
      cases h
      exact ⟨sock, rfl, .inr ⟨m, rfl, rfl, rfl⟩⟩

theorem wsaRecv_eq_some {i : SessionIdx} {ok : Bool} {s' : Network W}
    (h : s.wsaRecv i ok = some s') :
    ∃ sock, s.connectedSocket i = some sock ∧ ok = true ∧ s' = s.begin ⟨.recv, i, sock⟩ := by
  unfold wsaRecv at h
  cases hs : s.connectedSocket i with
  | none => rw [hs] at h; cases h
  | some sock =>
    rw [hs] at h
    cases ok with
    | false => cases h
    | true =>
      cases h
      exact ⟨sock, rfl, rfl, rfl⟩

theorem bindIOCompletionPort_eq_some {i : SessionIdx} {ok : Bool} {s' : Network W}
    (h : s.bindIOCompletionPort i ok = some s') :
    ∃ sock, (s.session i).socket = some sock ∧ ok = true ∧ (s.sockets sock).isBound = false ∧
      s' = s.setSocketState sock { s.sockets sock with isBound := true } := by
  unfold bindIOCompletionPort at h
  cases hs : (s.session i).socket with
  | none => rw [hs] at h; cases h
  | some sock =>
    rw [hs] at h
    simp only at h
    split at h
    · next hc =>
      cases h
      simp only [Bool.and_eq_true, Bool.not_eq_true'] at hc
      exact ⟨sock, rfl, hc.1.1, hc.2, rfl⟩
    · cases h

/-- `CheckGQCSResult` on the completion of an operation: it is no terminate message -/
theorem checkStep_io (w : Fin W) (req : IoRequest) (ok : Bool) (n : Nat) :
    s.checkStep w (.io req ok n) =
      if s.sessionExited ok n (some (req.session, req.op)) then
        match req.key with
        | none => s.crash
        | some i => s.setWorker w (.close i .setClosedTime false)
      else s.setWorker w (.dispatch req n) := by
  have hnot : terminateMsg ok n (some (req.session, req.op)) = false := by simp [terminateMsg]
  show (if terminateMsg ok n (some (req.session, req.op)) then _ else _) = _
  rw [hnot]
  rfl

/-- and on a posted message -/
theorem checkStep_posted (w : Fin W) (n : Nat) :
    s.checkStep w (.posted n) = s.setWorker w (if terminateMsg true n none then .repost else .test) := by
  show (if terminateMsg true n none then _ else _) = _
  split <;> rfl

theorem complete_session (k : Nat) (ok : Bool) (n : Nat) : (s.complete k ok n).session = s.session := by
  unfold complete
  split
  · rfl
  · simp only
    split <;> exact deliver_session _ _ _

/-! ## every step writes what it may -/

theorem closeStep_writes {a : Action W} (i : SessionIdx) {j : SessionIdx} {pc : ClosePc}
    (h : s.InClose j pc) : s.Writes a i ((s.closeStep j pc).session i) := by
  cases pc with
  | setClosedTime => exact writes_update fun e => by subst e; exact .closedTime _
  | compareExchange => exact writes_update fun e => by subst e; exact .activated false
  | closesocket =>
    simp only [closeStep, Network.closesocket]
    split <;> exact .none
  | setSocket => exact writes_update fun e => by subst e; exact .socket none (.inr h)
  | clearSendBuffer =>
    simp only [closeStep]
    split
    · exact .none
    · exact writes_update fun e => by subst e; exact .clear (.inr h)
  | clearSending => exact writes_update fun e => by subst e; exact .sending false
  | readClock => exact .none
  | storeTime t => exact writes_update fun e => by subst e; exact .closedTime _
  | decrement => exact .none

theorem workerStep_writes {a : Action W} (i : SessionIdx) (w : Fin W) (ok : Bool) :
    s.Writes a i ((s.workerStep w ok).session i) := by
  cases hpc : s.worker w with
  | test | repost | onConnect | increment | finished =>
    simp only [workerStep, hpc]
    exact .none
  | getQueued =>
    simp only [workerStep, hpc]
    split <;> exact .none
  | check c =>
    simp only [workerStep, hpc, checkStep]
    split
    · exact .none
    · split <;> split <;> exact .none
  | dispatch req n =>
    simp only [workerStep, hpc, dispatchStep]
    split
    · split <;> exact .none
    · split
      · exact .none
      · exact writes_update fun e => by subst e; exact .sending false
    · split <;> exact .none
    · exact .none
  | bindIocp j =>
    simp only [workerStep, hpc]
    split
    · next e =>
      obtain ⟨sock, _, _, _, rfl⟩ := bindIOCompletionPort_eq_some e
      exact .none
    · exact .none
  | zeroRecv j =>
    simp only [workerStep, hpc]
    exact writes_update fun e => by subst e; exact .zeroRecv
  | zeroSend j =>
    simp only [workerStep, hpc]
    exact writes_update fun e => by subst e; exact .zeroSend
  | setActivated j =>
    simp only [workerStep, hpc]
    exact writes_update fun e => by subst e; exact .activated true
  | clearBuffer j =>
    simp only [workerStep, hpc]
    exact writes_update fun e => by subst e; exact .clear (.inl ⟨w, hpc⟩)
  | setRecvOverlapped j opening =>
    simp only [workerStep, hpc]
    exact writes_update fun e => by subst e; exact .recv
  | wsaRecv j opening =>
    simp only [workerStep, hpc]
    split
    · next e =>
      obtain ⟨sock, _, _, rfl⟩ := wsaRecv_eq_some e
      exact .none
    · exact .none
  | close j pc opening =>
    simp only [workerStep, hpc]
    exact closeStep_writes i (.inl ⟨w, opening, hpc⟩)

theorem accepterStep_writes {a : Action W} (i : SessionIdx) (ok : Bool) :
    s.Writes a i ((s.accepterStep ok).session i) := by
  cases hpc : s.accepter with
  | test | readClock | readActivated | compareClosed | diffClosed | finished =>
    simp only [accepterStep, hpc]
    exact .none
  | bindAccept t j =>
    simp only [accepterStep, hpc]
    exact writes_update fun e => by subst e; exact .closedTime _
  | createSocket t j =>
    simp only [accepterStep, hpc, Network.createSocket]
    split
    · exact writes_update fun e => by subst e; exact .socket _ (.inl ⟨t, hpc⟩)
    · exact writes_update fun e => by subst e; exact .socket _ (.inl ⟨t, hpc⟩)
  | setAcceptOverlapped t j =>
    simp only [accepterStep, hpc]
    exact writes_update fun e => by subst e; exact .accept ⟨t, hpc⟩
  | acceptEx t j =>
    simp only [accepterStep, hpc, Network.acceptEx]
    split
    · exact .none
    · split <;> exact .none

theorem senderStep_writes (i : SessionIdx) (result : SendResult) :
    s.Writes (.sender result) i ((s.senderStep result).session i) := by
  cases hpc : s.sender with
  | test | hasSendData | finished =>
    simp only [senderStep, hpc]
    exact .none
  | bindSend j =>
    simp only [senderStep, hpc]
    split
    · exact .none
    · exact writes_update fun e => by subst e; exact .sending true
  | setSendOverlapped j =>
    simp only [senderStep, hpc]
    exact writes_update fun e => by subst e; exact .send
  | wsaSend j bufs =>
    simp only [senderStep, hpc]
    split
    · next e =>
      obtain ⟨sock, _, ⟨_, rfl, _⟩ | ⟨m, _, _, rfl⟩⟩ := wsaSend_eq_some e
      · exact .none
      · rw [deliver_session]
        exact .none
    · exact .none
  | moveFront j n =>
    simp only [senderStep, hpc]
    exact writes_update fun e => by subst e; exact .moveFront n ⟨hpc, result, rfl⟩
  | close j pc =>
    simp only [senderStep, hpc]
    exact closeStep_writes i (.inr hpc)

theorem sendPacket_writes (i : SessionIdx) (idx : Int) (data : List UInt8) :
    s.Writes (.sendPacket idx data) i ((s.sendPacket idx data).session i) := by
  unfold sendPacket
  cases hidx : getSessionByIdx idx with
  | none => exact .none
  | some j =>
    simp only
    by_cases hl : s.sendLocked j = true
    · rw [if_pos hl]
      exact .none
    · rw [if_neg hl]
      exact writes_update fun e => by subst e; exact .enqueue idx data ⟨rfl, hidx, by simpa using hl⟩

/-- **A step makes at most one write to a session.** -/
theorem step_writes (a : Action W) (i : SessionIdx) : s.Writes a i ((step s a).session i) := by
  unfold step
  split
  · exact .none
  · cases a with
    | worker w ok => exact workerStep_writes i w ok
    | accepter ok => exact accepterStep_writes i ok
    | sender result => exact senderStep_writes i result
    | sendPacket idx data => exact sendPacket_writes i idx data
    | complete k ok n =>
      simp only [complete_session]
      exact .none
    | tick | post | stopWorkers | stopAccepter | stopSender => exact .none

/-! ## where a request is -/

def WorkerPc.request : WorkerPc → Option IoRequest
  | .check (.io req _ _) | .dispatch req _ => some req
  | _ => none

def Completion.request : Completion → Option IoRequest
  | .io req _ _ => some req
  | .posted _ => none

/-- `req` is pending, or its completion is in the port or with a worker that has not taken it up -/
def Holds (s : Network W) (req : IoRequest) : Prop :=
  req ∈ s.pending ∨ (∃ c ∈ s.port, c.request = some req) ∨ ∃ w, (s.worker w).request = some req

/-- the operation that a step starts -/
def issued (s : Network W) : Action W → Option IoRequest
  | .worker w ok =>
    match s.worker w with
    | .wsaRecv i _ => if ok then (s.connectedSocket i).map (⟨.recv, i, ·⟩) else none
    | _ => none
  | .accepter ok =>
    match s.accepter with
    | .acceptEx _ i => if ok then (s.session i).socket.map (⟨.accept, i, ·⟩) else none
    | _ => none
  | .sender result =>
    match s.sender with
    | .wsaSend i _ => if result = .error then none else (s.connectedSocket i).map (⟨.send, i, ·⟩)
    | _ => none
  | _ => none

variable {req : IoRequest}

theorem holds_setWorker {w : Fin W} {pc : WorkerPc} (h : (s.setWorker w pc).Holds req) :
    s.Holds req ∨ pc.request = some req := by
  rcases h with h | h | ⟨w', h⟩
  · exact .inl (.inl h)
  · exact .inl (.inr (.inl h))
  · by_cases e : w' = w
    · subst e
      exact .inr (by simpa [setWorker] using h)
    · refine .inl (.inr (.inr ⟨w', ?_⟩))
      simpa [setWorker, e] using h

/-- a worker that goes where it needs no request -/
theorem holds_setWorker_none {w : Fin W} {pc : WorkerPc} (h : (s.setWorker w pc).Holds req)
    (hpc : pc.request = none) : s.Holds req :=
  (holds_setWorker h).resolve_right fun e => by rw [hpc] at e; cases e

theorem holds_post {c : Completion} (h : (s.post c).Holds req) :
    s.Holds req ∨ c.request = some req := by
  rcases h with h | ⟨c', hc', h⟩ | h
  · exact .inl (.inl h)
  · rcases List.mem_append.mp hc' with hm | hm
    · exact .inl (.inr (.inl ⟨c', hm, h⟩))
    · obtain rfl := List.mem_singleton.mp hm
      exact .inr h
  · exact .inl (.inr (.inr h))

theorem holds_begin {r : IoRequest} (h : (s.begin r).Holds req) : s.Holds req ∨ r = req := by
  rcases h with h | h
  · rcases List.mem_append.mp h with hm | hm
    · exact .inl (.inl hm)
    · exact .inr (List.mem_singleton.mp hm).symm
  · exact .inl (.inr h)

theorem holds_deliver {r : IoRequest} {ok : Bool} {n : Nat} (h : (s.deliver r ok n).Holds req) :
    s.Holds req ∨ r = req := by
  unfold deliver at h
  split at h
  · rcases holds_post h with h | h
    · exact .inl h
    · exact .inr (Option.some.inj h)
  · exact .inl h

theorem holds_complete {k n : Nat} {ok : Bool} (h : (s.complete k ok n).Holds req) : s.Holds req := by
  unfold complete at h
  split at h
  · exact h
  · next r hr =>
    have hmem : s.Holds r := .inl (List.mem_of_getElem? hr)
    have herase : { s with pending := s.pending.eraseIdx k }.Holds req → s.Holds req := by
      rintro (hm | hm)
      · exact .inl (List.mem_of_mem_eraseIdx hm)
      · exact .inr hm
    simp only at h
    split at h
    · rcases holds_deliver h with h | rfl
      · exact herase h
      · exact hmem
    · rcases holds_deliver h with h | rfl
      · exact herase h
      · exact hmem
    · rcases holds_deliver h with h | rfl
      · exact herase h
      · exact hmem

theorem holds_closeStep {i : SessionIdx} {pc : ClosePc} (h : (s.closeStep i pc).Holds req) :
    s.Holds req := by
  cases pc with
  | closesocket =>
    simp only [closeStep, Network.closesocket] at h
    split at h <;> exact h
  | clearSendBuffer =>
    simp only [closeStep] at h
    split at h <;> exact h
  | _ => exact h

theorem holds_workerStep {w : Fin W} {ok : Bool} (h : (s.workerStep w ok).Holds req) :
    s.Holds req ∨ s.issued (.worker w ok) = some req := by
  cases hpc : s.worker w with
  | test =>
    simp only [workerStep, hpc] at h
    refine .inl (holds_setWorker_none h ?_)
    split <;> rfl
  | getQueued =>
    simp only [workerStep, hpc] at h
    split at h
    · exact .inl h
    · next c rest hport =>
      left
      rcases holds_setWorker h with h | h
      · rcases h with h | ⟨c', hc', h⟩ | h
        · exact .inl h
        · exact .inr (.inl ⟨c', by rw [hport]; exact List.mem_cons_of_mem _ hc', h⟩)
        · exact .inr (.inr h)
      · refine .inr (.inl ⟨c, by rw [hport]; exact List.mem_cons_self, ?_⟩)
        cases c with
        | io r ok n => exact h
        | posted n => cases h
  | repost =>
    simp only [workerStep, hpc] at h
    rcases holds_post (holds_setWorker_none h rfl) with h | h
    · exact .inl h
    · cases h
  | check c =>
    simp only [workerStep, hpc, checkStep] at h
    left
    split at h
    · exact holds_setWorker_none h rfl
    · split at h
      · split at h
        · exact h
        · exact holds_setWorker_none h rfl
      · split at h
        · exact holds_setWorker_none h rfl
        · rcases holds_setWorker h with h | h
          · exact h
          · exact .inr (.inr ⟨w, by rw [hpc]; exact h⟩)
  | dispatch r n =>
    simp only [workerStep, hpc, dispatchStep] at h
    left
    split at h
    · split at h
      · exact h
      · exact holds_setWorker_none h rfl
    · split at h
      · exact h
      · exact holds_setWorker_none h rfl
    · split at h
      · exact h
      · exact holds_setWorker_none h rfl
    · exact holds_setWorker_none h rfl
  | bindIocp i =>
    simp only [workerStep, hpc] at h
    left
    split at h
    · next e =>
      obtain ⟨sock, _, _, _, rfl⟩ := bindIOCompletionPort_eq_some e
      exact holds_setWorker_none h rfl
    · exact holds_setWorker_none h rfl
  | onConnect i | zeroRecv i | zeroSend i | setActivated i | clearBuffer i | setRecvOverlapped i _
  | increment =>
    simp only [workerStep, hpc] at h
    exact .inl (holds_setWorker_none h rfl)
  | wsaRecv i opening =>
    simp only [workerStep, hpc] at h
    have hafter : (afterCall opening).request = none := by cases opening <;> rfl
    split at h
    · next e =>
      obtain ⟨sock, hs, rfl, rfl⟩ := wsaRecv_eq_some e
      rcases holds_begin (holds_setWorker_none h hafter) with h | h
      · exact .inl h
      · right
        simp only [issued, hpc, if_pos, hs, Option.map_some, h]
    · exact .inl (holds_setWorker_none h rfl)
  | close i pc opening =>
    simp only [workerStep, hpc] at h
    refine .inl (holds_closeStep (holds_setWorker_none h ?_))
    cases s.closeNext i pc with
    | some pc' => rfl
    | none => cases opening <;> rfl
  | finished =>
    simp only [workerStep, hpc] at h
    exact .inl h

/-- **A step holds on to what was held, and to what it starts.** -/
theorem holds_step {a : Action W} (h : (step s a).Holds req) : s.Holds req ∨ s.issued a = some req := by
  unfold step at h
  split at h
  · exact .inl h
  · cases a with
    | worker w ok => exact holds_workerStep h
    | accepter ok =>
      cases hpc : s.accepter with
      | acceptEx t i =>
        simp only [accepterStep, hpc, Network.acceptEx] at h
        cases hs : (s.session i).socket with
        | none =>
          rw [hs] at h
          exact .inl h
        | some sock =>
          simp only [hs] at h
          cases ok with
          | false => exact .inl h
          | true =>
            rcases holds_begin h with h | h
            · exact .inl h
            · right
              simp only [issued, hpc, if_pos, hs, Option.map_some, h]
      | createSocket t i =>
        simp only [accepterStep, hpc, Network.createSocket] at h
        split at h <;> exact .inl h
      | _ =>
        simp only [accepterStep, hpc] at h
        exact .inl h
    | sender result =>
      cases hpc : s.sender with
      | bindSend i =>
        simp only [senderStep, hpc] at h
        split at h <;> exact .inl h
      | wsaSend i bufs =>
        simp only [senderStep, hpc] at h
        split at h
        · next e =>
          obtain ⟨sock, hs, ⟨rfl, rfl, _⟩ | ⟨m, rfl, _, rfl⟩⟩ := wsaSend_eq_some e
          · rcases holds_begin h with h | h
            · exact .inl h
            · right
              simp [issued, hpc, hs, h]
          · rcases holds_deliver h with h | h
            · exact .inl h
            · right
              simp [issued, hpc, hs, h]
        · exact .inl h
      | close i pc =>
        simp only [senderStep, hpc] at h
        exact .inl (holds_closeStep h)
      | _ =>
        simp only [senderStep, hpc] at h
        exact .inl h
    | sendPacket idx data =>
      simp only [sendPacket] at h
      split at h
      · exact .inl h
      · split at h <;> exact .inl h
    | complete k ok n => exact .inl (holds_complete h)
    | post n =>
      rcases holds_post h with h | h
      · exact .inl h
      · cases h
    | tick | stopWorkers | stopAccepter | stopSender => exact .inl h

/-! ## the threads keep to themselves -/

/-- the accepter and the sender are where they were -/
structure SameIo (s s' : Network W) : Prop where
  accepter : s'.accepter = s.accepter
  sender : s'.sender = s.sender

/-- the workers are where they were, and nothing has crashed -/
structure SameWorkers (s s' : Network W) : Prop where
  worker : s'.worker = s.worker
  crashed : s'.crashed = s.crashed

/-- of the threads only the sender moves -/
structure SenderOnly (s s' : Network W) : Prop extends SameWorkers s s' where
  accepter : s'.accepter = s.accepter

/-- of the threads only the accepter moves -/
structure AccepterOnly (s s' : Network W) : Prop extends SameWorkers s s' where
  sender : s'.sender = s.sender

theorem deliver_same (r : IoRequest) (ok : Bool) (n : Nat) :
    SameIo s (s.deliver r ok n) ∧ SameWorkers s (s.deliver r ok n) := by
  unfold deliver
  split <;> exact ⟨⟨rfl, rfl⟩, ⟨rfl, rfl⟩⟩

theorem complete_same (k : Nat) (ok : Bool) (n : Nat) :
    SameIo s (s.complete k ok n) ∧ SameWorkers s (s.complete k ok n) := by
  unfold complete
  split
  · exact ⟨⟨rfl, rfl⟩, ⟨rfl, rfl⟩⟩
  · simp only
    split <;>
      exact (deliver_same _ _ _).imp (fun h => ⟨h.accepter, h.sender⟩) fun h => ⟨h.worker, h.crashed⟩

theorem closeStep_same (i : SessionIdx) (pc : ClosePc) :
    SameIo s (s.closeStep i pc) ∧ SameWorkers s (s.closeStep i pc) := by
  cases pc with
  | closesocket =>
    simp only [closeStep, Network.closesocket]
    split <;> exact ⟨⟨rfl, rfl⟩, ⟨rfl, rfl⟩⟩
  | clearSendBuffer =>
    simp only [closeStep]
    split <;> exact ⟨⟨rfl, rfl⟩, ⟨rfl, rfl⟩⟩
  | _ => exact ⟨⟨rfl, rfl⟩, ⟨rfl, rfl⟩⟩

theorem workerStep_same (w : Fin W) (ok : Bool) : SameIo s (s.workerStep w ok) := by
  cases hpc : s.worker w with
  | test | repost | onConnect | zeroRecv | zeroSend | setActivated | clearBuffer | setRecvOverlapped
  | increment | finished =>
    simp only [workerStep, hpc]
    exact ⟨rfl, rfl⟩
  | getQueued =>
    simp only [workerStep, hpc]
    split <;> exact ⟨rfl, rfl⟩
  | check c =>
    simp only [workerStep, hpc, checkStep]
    split
    · exact ⟨rfl, rfl⟩
    · split <;> split <;> exact ⟨rfl, rfl⟩
  | dispatch r n =>
    simp only [workerStep, hpc, dispatchStep]
    split
    · split <;> exact ⟨rfl, rfl⟩
    · split <;> exact ⟨rfl, rfl⟩
    · split <;> exact ⟨rfl, rfl⟩
    · exact ⟨rfl, rfl⟩
  | bindIocp i =>
    simp only [workerStep, hpc]
    split
    · next e =>
      obtain ⟨sock, _, _, _, rfl⟩ := bindIOCompletionPort_eq_some e
      exact ⟨rfl, rfl⟩
    · exact ⟨rfl, rfl⟩
  | wsaRecv i opening =>
    simp only [workerStep, hpc]
    split
    · next e =>
      obtain ⟨sock, _, _, rfl⟩ := wsaRecv_eq_some e
      exact ⟨rfl, rfl⟩
    · exact ⟨rfl, rfl⟩
  | close i pc opening =>
    obtain ⟨ha, hs⟩ := (closeStep_same (s := s) i pc).1
    simp only [workerStep, hpc]
    exact ⟨ha, hs⟩

theorem senderStep_same (result : SendResult) : SenderOnly s (s.senderStep result) := by
  cases hpc : s.sender with
  | test | hasSendData | setSendOverlapped | moveFront | finished =>
    simp only [senderStep, hpc]
    exact ⟨⟨rfl, rfl⟩, rfl⟩
  | bindSend i =>
    simp only [senderStep, hpc]
    split <;> exact ⟨⟨rfl, rfl⟩, rfl⟩
  | wsaSend i bufs =>
    simp only [senderStep, hpc]
    split
    · next e =>
      obtain ⟨sock, _, ⟨_, rfl, _⟩ | ⟨m, _, _, rfl⟩⟩ := wsaSend_eq_some e
      · exact ⟨⟨rfl, rfl⟩, rfl⟩
      · have h := fun n => deliver_same (s := s) ⟨.send, i, sock⟩ true n
        exact ⟨⟨(h _).2.worker, (h _).2.crashed⟩, (h _).1.accepter⟩
    · exact ⟨⟨rfl, rfl⟩, rfl⟩
  | close i pc =>
    have h := closeStep_same (s := s) i pc
    simp only [senderStep, hpc]
    exact ⟨⟨h.2.worker, h.2.crashed⟩, h.1.accepter⟩

theorem accepterStep_same (ok : Bool) : AccepterOnly s (s.accepterStep ok) := by
  cases hpc : s.accepter with
  | createSocket t i =>
    simp only [accepterStep, hpc, Network.createSocket]
    split <;> exact ⟨⟨rfl, rfl⟩, rfl⟩
  | acceptEx t i =>
    simp only [accepterStep, hpc, Network.acceptEx]
    split
    · exact ⟨⟨rfl, rfl⟩, rfl⟩
    · split <;> exact ⟨⟨rfl, rfl⟩, rfl⟩
  | _ =>
    simp only [accepterStep, hpc]
    exact ⟨⟨rfl, rfl⟩, rfl⟩

theorem sendPacket_same (idx : Int) (data : List UInt8) :
    SameIo s (s.sendPacket idx data) ∧ SameWorkers s (s.sendPacket idx data) := by
  unfold sendPacket
  split
  · exact ⟨⟨rfl, rfl⟩, ⟨rfl, rfl⟩⟩
  · split <;> exact ⟨⟨rfl, rfl⟩, ⟨rfl, rfl⟩⟩

/-- only the accepter moves the accepter -/
theorem step_accepter {a : Action W} (ha : ∀ ok, a ≠ .accepter ok) :
    (step s a).accepter = s.accepter := by
  unfold step
  split
  · rfl
  · cases a with
    | worker w ok => exact (workerStep_same w ok).accepter
    | accepter ok => exact absurd rfl (ha ok)
    | sender result => exact (senderStep_same result).accepter
    | sendPacket idx data => exact (sendPacket_same idx data).1.accepter
    | complete k ok n => exact (complete_same k ok n).1.accepter
    | tick | post | stopWorkers | stopAccepter | stopSender => rfl

/-- and only the sender moves the sender -/
theorem step_sender {a : Action W} (ha : ∀ result, a ≠ .sender result) :
    (step s a).sender = s.sender := by
  unfold step
  split
  · rfl
  · cases a with
    | worker w ok => exact (workerStep_same w ok).sender
    | accepter ok => exact (accepterStep_same ok).sender
    | sender result => exact absurd rfl (ha result)
    | sendPacket idx data => exact (sendPacket_same idx data).1.sender
    | complete k ok n => exact (complete_same k ok n).1.sender
    | tick | post | stopWorkers | stopAccepter | stopSender => rfl

/-! ## what comes out of the port -/

theorem closeStep_port (i : SessionIdx) (pc : ClosePc) : (s.closeStep i pc).port = s.port := by
  cases pc with
  | closesocket =>
    simp only [closeStep, Network.closesocket]
    split <;> rfl
  | clearSendBuffer =>
    simp only [closeStep]
    split <;> rfl
  | _ => rfl

theorem accepterStep_port (ok : Bool) : (s.accepterStep ok).port = s.port := by
  cases hpc : s.accepter with
  | test | readClock | readActivated | compareClosed | diffClosed | finished => simp only [accepterStep, hpc]
  | bindAccept t i | setAcceptOverlapped t i =>
    simp only [accepterStep, hpc]
    rfl
  | createSocket t i =>
    simp only [accepterStep, hpc, Network.createSocket]
    split <;> rfl
  | acceptEx t i =>
    simp only [accepterStep, hpc, Network.acceptEx]
    split
    · rfl
    · split <;> rfl

/-- `c` is in the port, or a worker has just taken it out -/
def Reports (s : Network W) (c : Completion) : Prop := c ∈ s.port ∨ ∃ w, s.worker w = .check c

/-- what a step may put into the port -/
inductive Delivers (s : Network W) : Action W → Completion → Prop
  | posted (a : Action W) (n : Nat) : s.Delivers a (.posted n)
  | complete (k : Nat) (ok : Bool) (n : Nat) (req : IoRequest) (ok' : Bool)
      (h : s.pending[k]? = some req ∧ (ok' = true → ok = true)) :
      s.Delivers (.complete k ok n) (.io req ok' n)
  | sent (m : Nat) (i : SessionIdx) (bufs : List WsaBuf) (sock : Nat)
      (h : s.sender = .wsaSend i bufs ∧ s.connectedSocket i = some sock) :
      s.Delivers (.sender (.sent m)) (.io ⟨.send, i, sock⟩ true (min m (Session.wsaLen bufs)))

variable {c : Completion}

theorem reports_setWorker {w : Fin W} {pc : WorkerPc} (h : (s.setWorker w pc).Reports c)
    (hpc : pc ≠ .check c) : s.Reports c := by
  rcases h with h | ⟨w', h⟩
  · exact .inl h
  · by_cases e : w' = w
    · subst e
      exact absurd (by simpa [setWorker] using h) hpc
    · exact .inr ⟨w', by simpa [setWorker, e] using h⟩

theorem reports_post {c' : Completion} (h : (s.post c').Reports c) : s.Reports c ∨ c' = c := by
  rcases h with h | h
  · rcases List.mem_append.mp h with hm | hm
    · exact .inl (.inl hm)
    · exact .inr (List.mem_singleton.mp hm).symm
  · exact .inl (.inr h)

theorem reports_deliver {r : IoRequest} {ok : Bool} {n : Nat} (h : (s.deliver r ok n).Reports c) :
    s.Reports c ∨ .io r ok n = c := by
  unfold deliver at h
  split at h
  · exact reports_post h
  · exact .inl h

/-- the port and the workers are as they were -/
theorem reports_congr {s' : Network W} (h : s'.Reports c) (hp : s'.port = s.port)
    (hw : s'.worker = s.worker) : s.Reports c := by
  unfold Reports at h ⊢
  rwa [hp, hw] at h

theorem reports_complete {k n : Nat} {ok : Bool} (h : (s.complete k ok n).Reports c) :
    s.Reports c ∨ s.Delivers (.complete k ok n) c := by
  unfold complete at h
  split at h
  · exact .inl h
  · next r hr =>
    simp only at h
    split at h
    · rcases reports_deliver h with h | rfl
      · exact .inl h
      · exact .inr (.complete k ok n r ok ⟨hr, id⟩)
    · rcases reports_deliver h with h | rfl
      · exact .inl h
      · exact .inr (.complete k ok n r _ ⟨hr, fun e => (Bool.and_eq_true _ _ ▸ e).1⟩)
    · rcases reports_deliver h with h | rfl
      · exact .inl h
      · exact .inr (.complete k ok n r _ ⟨hr, fun e => (Bool.and_eq_true _ _ ▸ e).1⟩)

theorem afterCall_ne_check (opening : Bool) : afterCall opening ≠ .check c := by
  cases opening <;> nofun

theorem reports_workerStep {w : Fin W} {ok : Bool} (h : (s.workerStep w ok).Reports c) :
    s.Reports c ∨ ∃ n, c = .posted n := by
  cases hpc : s.worker w with
  | test =>
    simp only [workerStep, hpc] at h
    refine .inl (reports_setWorker h ?_)
    split <;> nofun
  | getQueued =>
    simp only [workerStep, hpc] at h
    split at h
    · exact .inl h
    · next c' rest hport =>
      left
      rcases h with h | ⟨w', h⟩
      · exact .inl (by rw [hport]; exact List.mem_cons_of_mem _ h)
      · by_cases e : w' = w
        · subst e
          obtain rfl : c' = c := by simpa [setWorker] using h
          exact .inl (by rw [hport]; exact List.mem_cons_self)
        · exact .inr ⟨w', by simpa [setWorker, e] using h⟩
  | repost =>
    simp only [workerStep, hpc] at h
    rcases reports_post (reports_setWorker h nofun) with h | h
    · exact .inl h
    · exact .inr ⟨0, h.symm⟩
  | check c' =>
    simp only [workerStep, hpc, checkStep] at h
    left
    split at h
    · exact reports_setWorker h nofun
    · split at h
      · split at h
        · exact h
        · exact reports_setWorker h nofun
      · split at h
        · exact reports_setWorker h nofun
        · exact reports_setWorker h nofun
  | dispatch r n =>
    simp only [workerStep, hpc, dispatchStep] at h
    left
    split at h
    · split at h
      · exact h
      · exact reports_setWorker h nofun
    · split at h
      · exact h
      · exact reports_setWorker h nofun
    · split at h
      · exact h
      · exact reports_setWorker h nofun
    · exact reports_setWorker h nofun
  | bindIocp i =>
    simp only [workerStep, hpc] at h
    left
    split at h
    · next e =>
      obtain ⟨sock, _, _, _, rfl⟩ := bindIOCompletionPort_eq_some e
      exact reports_setWorker h nofun
    · exact reports_setWorker h nofun
  | onConnect i | zeroRecv i | zeroSend i | setActivated i | clearBuffer i | setRecvOverlapped i _
  | increment =>
    simp only [workerStep, hpc] at h
    exact .inl (reports_setWorker h nofun)
  | wsaRecv i opening =>
    simp only [workerStep, hpc] at h
    left
    split at h
    · next e =>
      obtain ⟨sock, hs, rfl, rfl⟩ := wsaRecv_eq_some e
      exact reports_setWorker h (afterCall_ne_check opening)
    · exact reports_setWorker h nofun
  | close i pc opening =>
    simp only [workerStep, hpc] at h
    left
    refine reports_congr (reports_setWorker h ?_) (closeStep_port i pc) (closeStep_same i pc).2.worker
    cases s.closeNext i pc with
    | some pc' => nofun
    | none => exact afterCall_ne_check opening
  | finished =>
    simp only [workerStep, hpc] at h
    exact .inl h

/-- **What comes out of the port was in it, or the step has delivered it.** -/
theorem reports_step {a : Action W} (h : (step s a).Reports c) : s.Reports c ∨ s.Delivers a c := by
  unfold step at h
  split at h
  · exact .inl h
  · cases a with
    | worker w ok =>
      rcases reports_workerStep h with h | ⟨n, rfl⟩
      · exact .inl h
      · exact .inr (.posted _ n)
    | accepter ok => exact .inl (reports_congr h (accepterStep_port ok) (accepterStep_same ok).worker)
    | sender result =>
      cases hpc : s.sender with
      | bindSend i =>
        simp only [senderStep, hpc] at h
        split at h <;> exact .inl h
      | wsaSend i bufs =>
        simp only [senderStep, hpc] at h
        split at h
        · next e =>
          obtain ⟨sock, hs, ⟨rfl, rfl, _⟩ | ⟨m, rfl, rfl, rfl⟩⟩ := wsaSend_eq_some e
          · exact .inl h
          · rcases reports_deliver h with h | rfl
            · exact .inl h
            · exact .inr (.sent m i bufs sock ⟨hpc, hs⟩)
        · exact .inl h
      | close i pc =>
        simp only [senderStep, hpc] at h
        exact .inl (reports_congr h (closeStep_port i pc) (closeStep_same i pc).2.worker)
      | _ =>
        simp only [senderStep, hpc] at h
        exact .inl h
    | sendPacket idx data =>
      simp only [sendPacket] at h
      split at h
      · exact .inl h
      · split at h <;> exact .inl h
    | complete k ok n => exact reports_complete h
    | post n =>
      rcases reports_post h with h | rfl
      · exact .inl h
      · exact .inr (.posted _ n)
    | tick | stopWorkers | stopAccepter | stopSender => exact .inl h

end Network

end Iocp
