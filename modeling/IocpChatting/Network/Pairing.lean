import IocpChatting.Network.Recycling

/-!
# `OnConnect` and `OnDisconnect`

`OnDisconnect` is called for every completion that says that the client has gone, before anybody looks
whether the session has been closed, and it is not called where a `WSARecv` fails.  A connection is its
socket.

* `Notice`              what a step does with a receive or a send of a connection;
* `receiving_step`      the receives of a connection that are under way: none gets lost, and none is
                        taken up twice;
* `paired_run_iff`      exactly when a connection gets one `OnDisconnect`.
-/

set_option linter.unusedSectionVars false
set_option autoImplicit false

namespace Iocp
open Runs Census

namespace Network

variable {W : Nat} {s : Network W}

/-! ## the receives of a connection -/

/-- a receive on the socket `h` -/
def recvOf (h : Nat) (req : IoRequest) : Option Unit :=
  if req.op = .recv ∧ req.socket = h then some () else none

def Completion.recvOf (h : Nat) : Completion → Option Unit
  | .io req _ _ => Network.recvOf h req
  | .posted _ => none

/-- until `CheckGQCSResult` has looked at its completion -/
def WorkerPc.recvOf (h : Nat) : WorkerPc → Option Unit
  | .check c => c.recvOf h
  | _ => none

/-- the receives on the socket `h` that are under way -/
def receiving (s : Network W) (h : Nat) : ℤ :=
  parties (WorkerPc.recvOf h) s.worker () + waiting (recvOf h) s.pending ()
    + waiting (Completion.recvOf h) s.port ()

/-- what a step does with an operation of a connection -/
inductive Notice where
  /-- `WSARecv` succeeds -/
  | recvStarted
  /-- `CheckGQCSResult` finds bytes that have been received -/
  | recvServed
  /-- a receive completes before the socket is associated with the port -/
  | recvUnseen
  /-- `CheckGQCSResult` finds a receive that has failed or is empty -/
  | recvExited
  /-- a send -/
  | sendExited
deriving DecidableEq, Repr

def notice (s : Network W) (h : Nat) (a : Action W) : Option Notice :=
  if s.crashed then none
  else
    match a with
    | .worker w ok =>
      match s.worker w with
      | .check (.io req gqcsRet ioSize) =>
        if req.socket = h then
          match req.op with
          | .recv =>
            if s.sessionExited gqcsRet ioSize (some (req.session, req.op)) then some .recvExited
            else some .recvServed
          | .send =>
            if s.sessionExited gqcsRet ioSize (some (req.session, req.op)) then some .sendExited else none
          | .accept => none
        else none
      | .wsaRecv i _ => if ok ∧ s.connectedSocket i = some h then some .recvStarted else none
      | _ => none
    | .complete k _ _ =>
      match s.pending[k]? with
      | some req =>
        if req.op = .recv ∧ req.socket = h ∧ (s.sockets h).isBound = false then some .recvUnseen else none
      | none => none
    | _ => none

/-! ## what a step does to them -/

variable {h : Nat}

theorem receiving_setWorker (w : Fin W) (pc : WorkerPc) :
    (s.setWorker w pc).receiving h
      = s.receiving h - hit ((s.worker w).recvOf h) () + hit (pc.recvOf h) () := by
  unfold receiving setWorker
  simp only [parties_update]
  omega

/-- a worker that has no receive in hand, before and after -/
theorem receiving_setWorker_none {w : Fin W} {pc : WorkerPc} (hold : (s.worker w).recvOf h = none)
    (hpc : pc.recvOf h = none) : (s.setWorker w pc).receiving h = s.receiving h := by
  rw [receiving_setWorker, hold, hpc]
  omega

theorem receiving_begin (req : IoRequest) :
    (s.begin req).receiving h = s.receiving h + hit (recvOf h req) () := by
  unfold receiving begin
  simp only [waiting_append, waiting_cons, waiting_nil]
  omega

theorem receiving_post (c : Completion) :
    (s.post c).receiving h = s.receiving h + hit (c.recvOf h) () := by
  unfold receiving post
  simp only [waiting_append, waiting_cons, waiting_nil]
  omega

theorem receiving_erase {k : Nat} {req : IoRequest} (hk : s.pending[k]? = some req) :
    { s with pending := s.pending.eraseIdx k }.receiving h = s.receiving h - hit (recvOf h req) () := by
  unfold receiving
  simp only [waiting_eraseIdx _ hk]
  omega

theorem receiving_pop {c : Completion} {rest : List Completion} (hport : s.port = c :: rest) :
    { s with port := rest }.receiving h = s.receiving h - hit (c.recvOf h) () := by
  unfold receiving
  simp only [hport, waiting_cons]
  omega

theorem receiving_closeStep (i : SessionIdx) (pc : ClosePc) :
    (s.closeStep i pc).receiving h = s.receiving h := by
  cases pc with
  | closesocket =>
    simp only [closeStep, Network.closesocket]
    split <;> rfl
  | clearSendBuffer =>
    simp only [closeStep]
    split <;> rfl
  | _ => rfl

theorem recvOf_of_op {req : IoRequest} (hop : req.op ≠ .recv) : recvOf h req = none :=
  if_neg fun e => hop e.1

theorem receiving_deliver {req : IoRequest} (hop : req.op ≠ .recv) (ok : Bool) (n : Nat) :
    (s.deliver req ok n).receiving h = s.receiving h := by
  unfold deliver
  split
  · rw [receiving_post]
    show _ + hit (recvOf h req) () = _
    rw [recvOf_of_op hop, hit_none]
    omega
  · rfl

theorem afterCall_recvOf (opening : Bool) : (afterCall opening).recvOf h = none := by
  cases opening <;> rfl

/-- how a notice changes the number of receives that are under way -/
def Notice.gain : Option Notice → ℤ
  | some .recvStarted => 1
  | some .recvServed | some .recvUnseen | some .recvExited => -1
  | some .sendExited | none => 0

/-- a step without a notice -/
theorem receiving_quiet {s' : Network W} {a : Action W} (hn : s.notice h a = none)
    (e : s'.receiving h = s.receiving h) :
    s'.receiving h = s.receiving h + Notice.gain (s.notice h a) := by
  rw [hn, e]
  exact (add_zero _).symm

theorem receiving_check {w : Fin W} {c : Completion} (ok : Bool) (hc : s.crashed = false)
    (hpc : s.worker w = .check c) :
    (s.checkStep w c).receiving h = s.receiving h + Notice.gain (s.notice h (.worker w ok)) := by
  have hold : (s.worker w).recvOf h = c.recvOf h := by rw [hpc]; rfl
  simp only [notice, hc, hpc, Bool.false_eq_true, if_false]
  cases c with
  | posted n =>
    rw [checkStep_posted]
    refine (receiving_setWorker_none hold ?_).trans (add_zero _).symm
    split <;> rfl
  | io req ok' n =>
    have hmove : ∀ pc : WorkerPc, pc.recvOf h = none →
        (s.setWorker w pc).receiving h = s.receiving h - hit (recvOf h req) () := by
      intro pc hpc'
      rw [receiving_setWorker, hold, hpc', hit_none]
      exact add_zero _
    by_cases hrecv : req.op = .recv ∧ req.socket = h
    · have hhit : hit (recvOf h req) () = 1 := by rw [recvOf, if_pos hrecv, hit_self]
      rw [hhit] at hmove
      rw [checkStep_io]
      simp only [IoRequest.key, hrecv.1, hrecv.2, if_true]
      split
      · exact hmove _ rfl
      · exact hmove _ rfl
    · -- a completion of something else
      have hhit : hit (recvOf h req) () = 0 := by rw [recvOf, if_neg hrecv, hit_none]
      rw [hhit, sub_zero] at hmove
      have hleft : (s.checkStep w (.io req ok' n)).receiving h = s.receiving h := by
        rw [checkStep_io]
        split
        · split
          · rfl
          · exact hmove _ rfl
        · exact hmove _ rfl
      rw [hleft]
      show _ = s.receiving h + Notice.gain (if req.socket = h then _ else none)
      by_cases hs : req.socket = h
      · rw [if_pos hs]
        cases hop : req.op with
        | recv => exact absurd ⟨hop, hs⟩ hrecv
        | accept => exact (add_zero _).symm
        | send =>
          simp only
          split <;> exact (add_zero _).symm
      · rw [if_neg hs]
        exact (add_zero _).symm

theorem receiving_worker (w : Fin W) (ok : Bool) (hc : s.crashed = false) :
    (s.workerStep w ok).receiving h = s.receiving h + Notice.gain (s.notice h (.worker w ok)) := by
  cases hpc : s.worker w with
  | check c =>
    rw [workerStep_check hpc]
    exact receiving_check ok hc hpc
  | getQueued =>
    refine receiving_quiet (by simp [notice, hpc]) ?_
    simp only [workerStep, hpc]
    split
    · rfl
    · next c rest hport =>
      rw [receiving_setWorker, receiving_pop hport]
      show _ - _ - hit ((s.worker w).recvOf h) () + hit (c.recvOf h) () = _
      rw [hpc]
      show _ - _ - hit none () + _ = _
      rw [hit_none]
      omega
  | wsaRecv i opening =>
    have hold : (s.worker w).recvOf h = none := by rw [hpc]; rfl
    have hnotice : s.notice h (.worker w ok)
        = if ok = true ∧ s.connectedSocket i = some h then some .recvStarted else none := by
      simp [notice, hc, hpc]
    rw [hnotice]
    simp only [workerStep, hpc]
    cases hr : s.wsaRecv i ok with
    | some s' =>
      obtain ⟨sock, hsock, rfl, rfl⟩ := wsaRecv_eq_some hr
      have e : ((s.begin ⟨.recv, i, sock⟩).setWorker w (afterCall opening)).receiving h
          = (s.begin ⟨.recv, i, sock⟩).receiving h :=
        receiving_setWorker_none hold (afterCall_recvOf opening)
      simp only [hsock, true_and, Option.some.injEq]
      rw [e, receiving_begin]
      by_cases hs : sock = h
      · rw [recvOf, if_pos ⟨rfl, hs⟩, if_pos hs]
        rfl
      · rw [recvOf, if_neg (fun e => hs e.2), if_neg hs]
        rfl
    | none =>
      have hno : ¬ (ok = true ∧ s.connectedSocket i = some h) := by
        rintro ⟨rfl, hs⟩
        rw [Network.wsaRecv, hs] at hr
        cases hr
      rw [if_neg hno]
      show _ = s.receiving h + 0
      rw [add_zero]
      exact receiving_setWorker_none hold rfl
  | dispatch req n =>
    have hold : (s.worker w).recvOf h = none := by rw [hpc]; rfl
    have hmove : ∀ pc : WorkerPc, pc.recvOf h = none → (s.setWorker w pc).receiving h = s.receiving h :=
      fun pc hpc' => receiving_setWorker_none hold hpc'
    refine receiving_quiet (by simp [notice, hpc]) ?_
    simp only [workerStep, hpc, dispatchStep]
    split
    · split
      · rfl
      · exact hmove _ rfl
    · split
      · rfl
      · exact hmove .test rfl
    · split
      · rfl
      · exact hmove _ rfl
    · exact hmove _ rfl
  | bindIocp i =>
    have hold : (s.worker w).recvOf h = none := by rw [hpc]; rfl
    refine receiving_quiet (by simp [notice, hpc]) ?_
    simp only [workerStep, hpc]
    split
    · next e =>
      obtain ⟨sock, _, _, _, rfl⟩ := bindIOCompletionPort_eq_some e
      exact receiving_setWorker_none hold rfl
    · exact receiving_setWorker_none hold rfl
  | repost =>
    have hold : (s.worker w).recvOf h = none := by rw [hpc]; rfl
    have e : ((s.post (.posted 0)).setWorker w .finished).receiving h = (s.post (.posted 0)).receiving h :=
      receiving_setWorker_none hold rfl
    refine receiving_quiet (by simp [notice, hpc]) ?_
    simp only [workerStep, hpc]
    rw [e, receiving_post]
    exact add_zero _
  | close i pc opening =>
    have hold : ((s.closeStep i pc).worker w).recvOf h = none := by
      rw [(closeStep_same i pc).2.worker, hpc]
      rfl
    have hnew : (WorkerPc.inClose i opening (s.closeNext i pc)).recvOf h = none := by
      cases s.closeNext i pc with
      | none => exact afterCall_recvOf opening
      | some pc' => rfl
    refine receiving_quiet (by simp [notice, hpc]) ?_
    simp only [workerStep, hpc]
    rw [receiving_setWorker_none hold hnew, receiving_closeStep]
  | test =>
    have hold : (s.worker w).recvOf h = none := by rw [hpc]; rfl
    refine receiving_quiet (by simp [notice, hpc]) ?_
    simp only [workerStep, hpc]
    refine receiving_setWorker_none hold ?_
    split <;> rfl
  | onConnect | zeroRecv | zeroSend | setActivated | clearBuffer | setRecvOverlapped | increment =>
    have hold : (s.worker w).recvOf h = none := by rw [hpc]; rfl
    refine receiving_quiet (by simp [notice, hpc]) ?_
    simp only [workerStep, hpc]
    exact receiving_setWorker_none hold rfl
  | finished =>
    refine receiving_quiet (by simp [notice, hpc]) ?_
    simp only [workerStep, hpc]

theorem receiving_accepter (ok : Bool) : (s.accepterStep ok).receiving h = s.receiving h := by
  cases hpc : s.accepter with
  | createSocket t i =>
    simp only [accepterStep, hpc, Network.createSocket]
    split <;> rfl
  | acceptEx t i =>
    have hbegin : ∀ sock, (s.begin ⟨.accept, i, sock⟩).receiving h = s.receiving h := by
      intro sock
      rw [receiving_begin, recvOf_of_op (by simp), hit_none, add_zero]
    simp only [accepterStep, hpc, Network.acceptEx]
    split
    · rfl
    · next sock _ =>
      split
      · exact hbegin sock
      · rfl
  | finished => simp only [accepterStep, hpc]
  | _ =>
    simp only [accepterStep, hpc]
    rfl

theorem receiving_sender (result : SendResult) : (s.senderStep result).receiving h = s.receiving h := by
  cases hpc : s.sender with
  | bindSend i =>
    simp only [senderStep, hpc]
    split <;> rfl
  | wsaSend i bufs =>
    simp only [senderStep, hpc]
    split
    · next e =>
      obtain ⟨sock, _, ⟨_, rfl, _⟩ | ⟨m, _, _, rfl⟩⟩ := wsaSend_eq_some e
      · show (s.begin ⟨.send, i, sock⟩).receiving h = _
        rw [receiving_begin, recvOf_of_op (by simp), hit_none, add_zero]
      · have hop : (⟨.send, i, sock⟩ : IoRequest).op ≠ .recv := by simp
        exact receiving_deliver (s := s) (h := h) hop true _
    · rfl
  | close i pc =>
    simp only [senderStep, hpc]
    exact receiving_closeStep i pc
  | finished => simp only [senderStep, hpc]
  | _ =>
    simp only [senderStep, hpc]
    rfl

theorem receiving_complete (k : Nat) (ok : Bool) (n : Nat) (hc : s.crashed = false) :
    (s.complete k ok n).receiving h = s.receiving h + Notice.gain (s.notice h (.complete k ok n)) := by
  simp only [notice, hc, Bool.false_eq_true, if_false]
  unfold complete
  cases hk : s.pending[k]? with
  | none => exact (add_zero _).symm
  | some req =>
    have herase := receiving_erase (h := h) hk
    simp only
    cases hop : req.op with
    | accept | send =>
      have hne : ¬ (req.op = .recv ∧ req.socket = h) := by simp [hop]
      simp only [reduceCtorEq, false_and, if_false, Notice.gain, add_zero]
      rw [receiving_deliver (by simp [hop])]
      rw [recvOf, if_neg hne, hit_none, sub_zero] at herase
      exact herase
    | recv =>
      simp only [deliver, hop, reduceCtorEq, false_or, true_and]
      cases hb : (s.sockets req.socket).isBound with
      | true =>
        have hne : ¬ (req.socket = h ∧ (s.sockets h).isBound = false) := by
          rintro ⟨rfl, e⟩
          rw [hb] at e
          cases e
        rw [if_pos rfl, if_neg hne, receiving_post, herase]
        show _ - hit (recvOf h req) () + hit (recvOf h req) () = s.receiving h + 0
        omega
      | false =>
        rw [if_neg (by simp), herase]
        by_cases hs : req.socket = h
        · rw [recvOf, if_pos ⟨hop, hs⟩, if_pos ⟨hs, by rw [← hs]; exact hb⟩]
          rfl
        · rw [recvOf, if_neg (fun e => hs e.2), if_neg (fun e => hs e.1)]
          rfl

/-- **A receive that has been started is under way until it is taken up, or until it completes with
nobody to see it.** -/
theorem receiving_step (a : Action W) :
    (step s a).receiving h = s.receiving h + Notice.gain (s.notice h a) := by
  cases hc : s.crashed with
  | true =>
    rw [step_crashed hc]
    exact receiving_quiet (by simp [notice, hc]) rfl
  | false =>
    unfold step
    rw [if_neg (by simp [hc])]
    cases a with
    | worker w ok => exact receiving_worker w ok hc
    | complete k ok n => exact receiving_complete k ok n hc
    | accepter ok => exact receiving_quiet (by simp [notice]) (receiving_accepter ok)
    | sender result => exact receiving_quiet (by simp [notice]) (receiving_sender result)
    | sendPacket idx data =>
      refine receiving_quiet (by simp [notice]) ?_
      simp only [sendPacket]
      split
      · rfl
      · split <;> rfl
    | post n =>
      refine receiving_quiet (by simp [notice]) ?_
      simp only [receiving_post]
      exact add_zero _
    | tick | stopWorkers | stopAccepter | stopSender => exact receiving_quiet (by simp [notice]) rfl

/-! ## the calls -/

/-- the call of `OnDisconnect` that a step makes, with the operation whose completion it is made for -/
def disconnectCall (s : Network W) : Action W → Option IoRequest
  | .worker w _ =>
    match s.worker w with
    | .check (.io req ok n) =>
      if s.crashed = false ∧ s.sessionExited ok n (some (req.session, req.op)) = true ∧ req.op ≠ .accept then
        some req
      else none
    | _ => none
  | _ => none

/-- a step calls `OnDisconnect` for the connection `h` -/
def disconnecting (s : Network W) (h : Nat) (a : Action W) : Bool :=
  (s.disconnectCall a).map IoRequest.socket == some h

theorem disconnecting_iff (s : Network W) (h : Nat) (a : Action W) :
    s.disconnecting h a = true ↔ s.notice h a = some .recvExited ∨ s.notice h a = some .sendExited := by
  cases a with
  | worker w ok =>
    cases hpc : s.worker w with
    | check c =>
      cases c with
      | posted n => simp [disconnecting, disconnectCall, notice, hpc]
      | io req ok' n =>
        simp only [disconnecting, disconnectCall, notice, hpc]
        cases s.crashed with
        | true => simp
        | false =>
          by_cases hs : req.socket = h
          · by_cases he : s.sessionExited ok' n (some (req.session, req.op)) = true
            · cases hop : req.op with
              | accept => simp [hs]
              | recv | send =>
                rw [hop] at he
                simp [hs, he]
            · cases hop : req.op with
              | accept => simp [hs]
              | recv | send =>
                rw [hop] at he
                simp [hs, he]
          · simp only [hs, if_false, true_and, Bool.false_eq_true, reduceCtorEq, or_self, iff_false]
            split <;> simp [hs]
    | wsaRecv i opening =>
      simp only [disconnecting, disconnectCall, notice, hpc]
      split
      · simp
      · split <;> simp
    | _ => simp [disconnecting, disconnectCall, notice, hpc]
  | complete k ok n =>
    simp only [disconnecting, disconnectCall, notice]
    split
    · simp
    · split
      · split <;> simp
      · simp
  | _ => simp [disconnecting, disconnectCall, notice]

/-- the calls of `OnConnect` for the connection `h` -/
def connects (h : Nat) (H : History W) : Nat :=
  H.countP fun x => (x.1.connectCall x.2).any fun i => (x.1.session i).socket == some h

def disconnects (h : Nat) (H : History W) : Nat := H.countP fun x => x.1.disconnecting h x.2

def tally (n : Notice) (h : Nat) (H : History W) : Nat := H.countP fun x => x.1.notice h x.2 == some n

theorem tally_snoc (n : Notice) (H : History W) (a : Action W) :
    tally n h (H ++ [(s, a)]) = tally n h H + if s.notice h a = some n then 1 else 0 := by
  simp [tally, List.countP_append, List.countP_singleton]

theorem disconnects_eq (h : Nat) (H : History W) :
    disconnects h H = tally .recvExited h H + tally .sendExited h H := by
  induction H with
  | nil => rfl
  | cons x H ih =>
    have hiff := disconnecting_iff x.1 h x.2
    simp only [disconnects, tally, List.countP_cons, beq_iff_eq] at ih ⊢
    rw [ih]
    simp only [hiff]
    by_cases h1 : x.1.notice h x.2 = some .recvExited
    · have h2 : x.1.notice h x.2 ≠ some .sendExited := by simp [h1]
      rw [if_pos (.inl h1), if_pos h1, if_neg h2]
      omega
    · by_cases h2 : x.1.notice h x.2 = some .sendExited
      · rw [if_pos (.inr h2), if_neg h1, if_pos h2]
        omega
      · rw [if_neg (fun h => h.elim h1 h2), if_neg h1, if_neg h2]
        omega

/-- the connection is closed, and nothing is left of its operations -/
def Settled (s : Network W) (h : Nat) : Prop :=
  (s.sockets h).isClosed = true ∧ (∀ req ∈ s.pending, req.socket ≠ h) ∧
    (∀ c ∈ s.port, c.request.map IoRequest.socket ≠ some h) ∧
    ∀ w, (s.worker w).request.map IoRequest.socket ≠ some h

instance (s : Network W) (h : Nat) : Decidable (s.Settled h) := inferInstanceAs (Decidable (_ ∧ _))

theorem Settled.receiving (hs : s.Settled h) : s.receiving h = 0 := by
  obtain ⟨_, hpending, hport, hworker⟩ := hs
  have hsocket : ∀ req : IoRequest, recvOf h req = some () → req.socket = h := by
    intro req e
    by_contra hne
    rw [recvOf, if_neg (fun h => hne h.2)] at e
    cases e
  have hcompletion : ∀ c : Completion, c.recvOf h = some () → c.request.map IoRequest.socket = some h := by
    intro c e
    cases c with
    | io req ok n => exact congrArg some (hsocket req e)
    | posted n => cases e
  have h1 := parties_eq_zero (WorkerPc.recvOf h) (f := s.worker) (p := ()) fun w e => by
    cases hpc : s.worker w with
    | check c =>
      rw [hpc] at e
      refine hworker w ?_
      rw [hpc]
      have := hcompletion c e
      cases c with
      | io req ok n => exact this
      | posted n => cases this
    | _ =>
      rw [hpc] at e
      cases e
  have h2 := waiting_eq_zero (recvOf h) (p := ()) fun req hm e => hpending req hm (hsocket req e)
  have h3 := waiting_eq_zero (Completion.recvOf h) (p := ()) fun c hm e => hport c hm (hcompletion c e)
  unfold Network.receiving
  rw [h1, h2, h3]
  rfl

/-- **The condition.**  For every receive that has been taken up and was not renewed on the connection,
one send of it fails or is empty. -/
def Balanced (h : Nat) (H : History W) : Prop :=
  tally .recvStarted h H + tally .sendExited h H = tally .recvServed h H + tally .recvUnseen h H + 1

instance (h : Nat) (H : History W) : Decidable (Balanced h H) := inferInstanceAs (Decidable (_ = _))

section
variable (heap : SessionIdx → Fin kDefaultRingBufferSize → UInt8) (clock : Seconds)

theorem start_receiving : (start W heap clock).receiving h = 0 := by
  have e := parties_eq_zero (WorkerPc.recvOf h) (f := (start W heap clock).worker) (p := ())
    fun w e => by cases e
  unfold Network.receiving
  rw [e]
  rfl

/-- every receive that has been started is accounted for -/
theorem receiving_run (as : List (Action W)) :
    (run step (start W heap clock) as).receiving h
      = tally .recvStarted h (hist step (start W heap clock) as)
        - tally .recvServed h (hist step (start W heap clock) as)
        - tally .recvUnseen h (hist step (start W heap clock) as)
        - tally .recvExited h (hist step (start W heap clock) as) := by
  induction as using List.reverseRecOn with
  | nil => exact start_receiving heap clock
  | append_singleton as a ih =>
    rw [run_snoc, hist_snoc, receiving_step, ih]
    simp only [tally_snoc]
    cases hn : (run step (start W heap clock) as).notice h a with
    | none => simp [Notice.gain]
    | some n =>
      cases n <;> simp [Notice.gain] <;> omega

/-- **A connection that is closed, and whose operations have all completed, has had exactly one call of
`OnDisconnect` exactly if `Balanced` holds of the run.** -/
theorem paired_run_iff (as : List (Action W)) (h : Nat)
    (hsettled : (run step (start W heap clock) as).Settled h) :
    disconnects h (hist step (start W heap clock) as) = 1
      ↔ Balanced h (hist step (start W heap clock) as) := by
  have e := receiving_run (h := h) heap clock as
  rw [hsettled.receiving] at e
  rw [disconnects_eq]
  unfold Balanced
  omega

end

theorem paired_clientLeaves :
    disconnects 0 (hist step (start 1 (fun _ _ => 0) 0) clientLeaves) = 1 :=
  (paired_run_iff (fun _ _ => 0) 0 clientLeaves 0 (by decide +kernel)).mpr (by decide +kernel)

/-- the first receive of a new connection cannot be started -/
def firstRecvFails : List (Action 1) :=
  [.tick 10] ++ List.replicate 9 (.accepter true) ++ [.complete 0 true 0]
    ++ List.replicate 11 (.worker 0 true) ++ [.worker 0 false] ++ List.replicate 10 (.worker 0 true)

/-- two calls where a receive and a send fail, and none where the first receive cannot be started -/
theorem never_or_twice :
    (connects 0 (hist step (start 1 (fun _ _ => 0) 0) bothFail) = 1 ∧
        (run step (start 1 (fun _ _ => 0) 0) bothFail).Settled 0 ∧
        disconnects 0 (hist step (start 1 (fun _ _ => 0) 0) bothFail) = 2) ∧
      connects 0 (hist step (start 1 (fun _ _ => 0) 0) firstRecvFails) = 1 ∧
        (run step (start 1 (fun _ _ => 0) 0) firstRecvFails).Settled 0 ∧
        disconnects 0 (hist step (start 1 (fun _ _ => 0) 0) firstRecvFails) = 0 := by
  decide +kernel

end Network

end Iocp
