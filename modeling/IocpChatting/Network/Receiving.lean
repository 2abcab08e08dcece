import IocpChatting.Network.Accepts

/-!
# One receive at a time

From `AcceptEx` on a connection has one thing going on: its accept, then the accept branch, then its
receive, the worker that takes the completion up and calls `OnRecv`, the next receive, and so on, until
somebody finds it closed.

* `chains`               how many of these are under way for a session;
* `chains_step`          no step starts one, but for `AcceptEx`;
* `one_receive_run_iff`  there is never more than one exactly if each `AcceptEx` finds none;
* `chains_apart`         so two workers are never in `OnRecv` or `BindRecv` of one session.
-/

set_option linter.unusedSectionVars false
set_option autoImplicit false

namespace Iocp
open Runs Census

namespace Network

variable {W : Nat} {s : Network W} {i : SessionIdx}

/-! ## what is under way -/

/-- an accept or a receive of `i` -/
def chainOf (i : SessionIdx) (req : IoRequest) : Option Unit :=
  if req.op ≠ .send ∧ req.session = i then some () else none

def Completion.chainOf (i : SessionIdx) : Completion → Option Unit
  | .io req _ _ => Network.chainOf i req
  | .posted _ => none

/-- from the completion of the accept or the receive to the next receive -/
def WorkerPc.chainOf (i : SessionIdx) : WorkerPc → Option Unit
  | .check c => c.chainOf i
  | .dispatch req _ => Network.chainOf i req
  | .bindIocp j | .onConnect j | .zeroRecv j | .zeroSend j | .setActivated j | .clearBuffer j
  | .setRecvOverlapped j _ | .wsaRecv j _ => mark (j == i)
  | _ => none

def chains (s : Network W) (i : SessionIdx) : ℤ :=
  parties (WorkerPc.chainOf i) s.worker () + waiting (chainOf i) s.pending ()
    + waiting (Completion.chainOf i) s.port ()

/-- the step is an `AcceptEx` of `i` that succeeds -/
def issues (s : Network W) (i : SessionIdx) : Action W → Bool
  | .accepter ok =>
    match s.accepter with
    | .acceptEx _ j => !s.crashed && ok && (s.session i).socket.isSome && j == i
    | _ => false
  | _ => false

/-! ## what a step does to it -/

theorem chains_nonneg (s : Network W) (i : SessionIdx) : 0 ≤ s.chains i := by
  have h1 := parties_nonneg (WorkerPc.chainOf i) s.worker ()
  have h2 := waiting_nonneg (chainOf i) s.pending ()
  have h3 := waiting_nonneg (Completion.chainOf i) s.port ()
  unfold chains
  omega

theorem chains_setWorker (w : Fin W) (pc : WorkerPc) :
    (s.setWorker w pc).chains i = s.chains i - hit ((s.worker w).chainOf i) () + hit (pc.chainOf i) () := by
  unfold chains setWorker
  simp only [parties_update]
  omega

/-- a worker that goes on with the same chain, or drops it -/
theorem chains_setWorker_le {w : Fin W} {pc : WorkerPc}
    (h : pc.chainOf i = none ∨ pc.chainOf i = (s.worker w).chainOf i) :
    (s.setWorker w pc).chains i ≤ s.chains i := by
  rw [chains_setWorker]
  rcases h with h | h
  · have h0 := hit_nonneg ((s.worker w).chainOf i) ()
    rw [h, hit_none]
    omega
  · rw [h]
    omega

theorem chains_begin (req : IoRequest) :
    (s.begin req).chains i = s.chains i + hit (chainOf i req) () := by
  unfold chains begin
  simp only [waiting_append, waiting_cons, waiting_nil]
  omega

theorem chains_post (c : Completion) : (s.post c).chains i = s.chains i + hit (c.chainOf i) () := by
  unfold chains post
  simp only [waiting_append, waiting_cons, waiting_nil]
  omega

theorem chains_deliver_le (req : IoRequest) (ok : Bool) (n : Nat) :
    (s.deliver req ok n).chains i ≤ s.chains i + hit (chainOf i req) () := by
  have h0 := hit_nonneg (chainOf i req) ()
  unfold deliver
  split
  · rw [chains_post]
    exact le_refl _
  · omega

theorem chainOf_send {req : IoRequest} (hop : req.op = .send) : chainOf i req = none :=
  if_neg fun e => e.1 hop

theorem chains_closeStep (j : SessionIdx) (pc : ClosePc) : (s.closeStep j pc).chains i = s.chains i := by
  cases pc with
  | closesocket =>
    simp only [closeStep, Network.closesocket]
    split <;> rfl
  | clearSendBuffer =>
    simp only [closeStep]
    split <;> rfl
  | _ => rfl

theorem afterCall_chainOf (opening : Bool) : (afterCall opening).chainOf i = none := by
  cases opening <;> rfl

theorem chainOf_session {req : IoRequest} (hop : req.op ≠ .send) :
    (mark (req.session == i)) = chainOf i req := by
  by_cases h : req.session = i
  · rw [chainOf, if_pos ⟨hop, h⟩, h, beq_self_eq_true]
    rfl
  · rw [chainOf, if_neg (fun e => h e.2), beq_false_of_ne h]
    rfl

theorem chains_check {w : Fin W} {c : Completion} (hpc : s.worker w = .check c) :
    (s.checkStep w c).chains i ≤ s.chains i := by
  cases c with
  | posted n =>
    rw [checkStep_posted]
    refine chains_setWorker_le (.inl ?_)
    split <;> rfl
  | io req ok n =>
    rw [checkStep_io]
    split
    · split
      · exact le_refl _
      · exact chains_setWorker_le (.inl rfl)
    · exact chains_setWorker_le (.inr (by rw [hpc]; rfl))

/-- by its type, the completion of a send goes on with no receive, and that of a receive opens no
connection -/
theorem chains_dispatch (hs : s.Sound) {w : Fin W} {req : IoRequest} {n : Nat}
    (hpc : s.worker w = .dispatch req n) : (s.dispatchStep w req).chains i ≤ s.chains i := by
  have hold : (s.worker w).chainOf i = chainOf i req := by rw [hpc]; rfl
  have hrecv := hs.recvType req.session
  have hsend := hs.sendType req.session
  unfold dispatchStep
  split
  · next htype =>
    have hop : req.op ≠ .send := by
      intro e
      rw [e] at htype
      exact hsend.1 htype
    split
    · exact le_refl _
    · next j hkey =>
      have hj : req.session = j := (key_eq_some.mp hkey).2
      refine chains_setWorker_le (.inr ?_)
      rw [hold, ← chainOf_session hop, hj]
      rfl
  · split
    · exact le_refl _
    · exact chains_setWorker_le (s := s.modify _ _) (.inl rfl)
  · next htype =>
    have hop : req.op = .accept := by
      cases hop : req.op with
      | accept => rfl
      | recv =>
        rw [hop] at htype
        exact absurd htype hrecv.2
      | send =>
        rw [hop] at htype
        exact absurd htype hsend.2
    have hready : s.AcceptReady req.session := hs.accepts req (holds_worker (by rw [hpc]; rfl)) hop
    have hidx : ((s.session req.session).overlapped req.op).sessionIdx = (req.session : Nat) := by
      rw [hop]
      show (s.session req.session).acceptOverlapped.sessionIdx = _
      rw [hready]
    rw [hidx, getSessionByIdx_session]
    refine chains_setWorker_le (.inr ?_)
    rw [hold, ← chainOf_session (by simp [hop])]
    rfl
  · exact chains_setWorker_le (.inl rfl)

theorem chains_worker (hs : s.Sound) (w : Fin W) (ok : Bool) : (s.workerStep w ok).chains i ≤ s.chains i := by
  cases hpc : s.worker w with
  | check c =>
    rw [workerStep_check hpc]
    exact chains_check hpc
  | dispatch req n =>
    rw [workerStep_dispatch hpc]
    exact chains_dispatch hs hpc
  | getQueued =>
    simp only [workerStep, hpc]
    split
    · exact le_refl _
    · next c rest hport =>
      -- the completion goes from the port to the worker
      have hpop : { s with port := rest }.chains i = s.chains i - hit (c.chainOf i) () := by
        unfold chains
        simp only [hport, waiting_cons]
        omega
      have hnone : hit (({ s with port := rest }.worker w).chainOf i) () = 0 := by
        show hit ((s.worker w).chainOf i) () = 0
        rw [hpc]
        rfl
      rw [chains_setWorker, hpop, hnone]
      show s.chains i - hit (c.chainOf i) () - 0 + hit (c.chainOf i) () ≤ s.chains i
      omega
  | repost =>
    simp only [workerStep, hpc]
    refine le_trans (chains_setWorker_le (.inl rfl)) ?_
    rw [chains_post]
    exact le_of_eq (add_zero _)
  | bindIocp j =>
    simp only [workerStep, hpc]
    split
    · next e =>
      obtain ⟨sock, _, _, _, rfl⟩ := bindIOCompletionPort_eq_some e
      refine chains_setWorker_le (s := s.setSocketState sock _) (.inr ?_)
      show _ = (s.worker w).chainOf i
      rw [hpc]
      rfl
    · exact chains_setWorker_le (.inl rfl)
  | wsaRecv j opening =>
    simp only [workerStep, hpc]
    cases hr : s.wsaRecv j ok with
    | some s' =>
      -- the receive is pending in place of the worker
      obtain ⟨sock, _, _, rfl⟩ := wsaRecv_eq_some hr
      have hold : ((s.begin ⟨.recv, j, sock⟩).worker w).chainOf i = mark (j == i) := by
        show (s.worker w).chainOf i = _
        rw [hpc]
        rfl
      have hreq : chainOf i ⟨.recv, j, sock⟩ = mark (j == i) := (chainOf_session (by simp)).symm
      show ((s.begin ⟨.recv, j, sock⟩).setWorker w (afterCall opening)).chains i ≤ _
      rw [chains_setWorker, chains_begin, hold, hreq, afterCall_chainOf, hit_none]
      omega
    | none => exact chains_setWorker_le (.inl rfl)
  | close j pc opening =>
    simp only [workerStep, hpc]
    refine le_trans (chains_setWorker_le (.inl ?_)) (le_of_eq (chains_closeStep j pc))
    cases s.closeNext j pc with
    | none => exact afterCall_chainOf opening
    | some pc' => rfl
  | test =>
    simp only [workerStep, hpc]
    refine chains_setWorker_le (.inl ?_)
    split <;> rfl
  | onConnect j =>
    simp only [workerStep, hpc]
    exact chains_setWorker_le (.inr (by rw [hpc]; rfl))
  | zeroRecv j | zeroSend j | setActivated j | clearBuffer j | setRecvOverlapped j _ =>
    simp only [workerStep, hpc]
    refine chains_setWorker_le (s := s.modify j _) (.inr ?_)
    show _ = (s.worker w).chainOf i
    rw [hpc]
    rfl
  | increment =>
    simp only [workerStep, hpc]
    exact chains_setWorker_le (s := { s with currentSessionCnt := _ }) (.inl rfl)
  | finished =>
    simp only [workerStep, hpc]
    exact le_refl _

theorem chains_accepter (ok : Bool) (hc : s.crashed = false) :
    (s.accepterStep ok).chains i = s.chains i + if s.issues i (.accepter ok) then 1 else 0 := by
  cases hpc : s.accepter with
  | createSocket t j =>
    simp only [accepterStep, hpc, Network.createSocket, issues]
    split <;> exact (add_zero _).symm
  | acceptEx t j =>
    have hissues : s.issues i (.accepter ok) = (ok && (s.session i).socket.isSome && j == i) := by
      simp [issues, hpc, hc]
    rw [hissues]
    simp only [accepterStep, hpc, Network.acceptEx]
    by_cases hj : j = i
    · subst hj
      cases hsock : (s.session j).socket with
      | none => simp; rfl
      | some h =>
        cases ok with
        | false => simp; rfl
        | true =>
          show (s.begin ⟨.accept, j, h⟩).chains j = _
          rw [chains_begin, ← chainOf_session (by simp)]
          simp [mark]
    · have hmark : mark (j == i) = none := by
        rw [beq_false_of_ne hj]
        rfl
      rw [beq_false_of_ne hj, Bool.and_false, if_neg Bool.false_ne_true, add_zero]
      split
      · rfl
      · next h _ =>
        split
        · show (s.begin ⟨.accept, j, h⟩).chains i = _
          rw [chains_begin, ← chainOf_session (by simp), hmark, hit_none, add_zero]
        · rfl
  | finished =>
    simp only [accepterStep, hpc, issues]
    exact (add_zero _).symm
  | _ =>
    simp only [accepterStep, hpc, issues]
    exact (add_zero _).symm

theorem chains_sender (result : SendResult) : (s.senderStep result).chains i ≤ s.chains i := by
  cases hpc : s.sender with
  | bindSend j =>
    simp only [senderStep, hpc]
    split <;> exact le_refl _
  | wsaSend j bufs =>
    simp only [senderStep, hpc]
    split
    · next e =>
      obtain ⟨sock, _, ⟨_, rfl, _⟩ | ⟨m, _, _, rfl⟩⟩ := wsaSend_eq_some e
      · show (s.begin ⟨.send, j, sock⟩).chains i ≤ _
        rw [chains_begin, chainOf_send rfl, hit_none, add_zero]
      · show (s.deliver ⟨.send, j, sock⟩ true _).chains i ≤ _
        refine le_trans (chains_deliver_le _ _ _) ?_
        rw [chainOf_send rfl, hit_none, add_zero]
    · exact le_refl _
  | close j pc =>
    simp only [senderStep, hpc]
    exact le_of_eq (chains_closeStep j pc)
  | finished =>
    simp only [senderStep, hpc]
    exact le_refl _
  | _ =>
    simp only [senderStep, hpc]
    exact le_refl _

theorem chains_complete (k : Nat) (ok : Bool) (n : Nat) : (s.complete k ok n).chains i ≤ s.chains i := by
  unfold complete
  cases hk : s.pending[k]? with
  | none => exact le_refl _
  | some req =>
    have herase : { s with pending := s.pending.eraseIdx k }.chains i + hit (chainOf i req) () = s.chains i := by
      unfold chains
      simp only [waiting_eraseIdx _ hk]
      omega
    simp only
    split
    · refine le_trans (chains_deliver_le req ok n) (le_of_eq ?_)
      rw [← herase]
      rfl
    · exact le_trans (chains_deliver_le req _ n) (le_of_eq herase)
    · exact le_trans (chains_deliver_le req _ n) (le_of_eq herase)

/-- **Only `AcceptEx` starts something, and it starts one.** -/
theorem chains_step (hs : s.Sound) (a : Action W) :
    (step s a).chains i ≤ s.chains i + (if s.issues i a then 1 else 0) ∧
      (s.issues i a = true → (step s a).chains i = s.chains i + 1) := by
  have hquiet : ∀ {t : Network W}, s.issues i a = false → t.chains i ≤ s.chains i →
      t.chains i ≤ s.chains i + (if s.issues i a then 1 else 0) ∧
        (s.issues i a = true → t.chains i = s.chains i + 1) := by
    intro t hn hle
    rw [hn]
    exact ⟨by simpa using hle, fun e => by cases e⟩
  cases hc : s.crashed with
  | true =>
    have hn : s.issues i a = false := by
      cases a with
      | accepter ok =>
        simp only [issues]
        split
        · rw [hc]; rfl
        · rfl
      | _ => rfl
    rw [step_crashed hc]
    exact hquiet hn (le_refl _)
  | false =>
    cases a with
    | accepter ok =>
      rw [step_accepterStep hc]
      have e := chains_accepter (s := s) (i := i) ok hc
      exact ⟨le_of_eq e, fun h => by rw [e, if_pos h]⟩
    | worker w ok =>
      rw [step_workerStep hc]
      exact hquiet rfl (chains_worker hs w ok)
    | sender result =>
      rw [step_senderStep hc]
      exact hquiet rfl (chains_sender result)
    | sendPacket idx data =>
      rw [step_sendPacket hc]
      refine hquiet rfl ?_
      unfold sendPacket
      split
      · exact le_refl _
      · split <;> exact le_refl _
    | complete k ok n =>
      unfold step
      rw [if_neg (by simp [hc])]
      exact hquiet rfl (chains_complete k ok n)
    | post n =>
      unfold step
      rw [if_neg (by simp [hc])]
      refine hquiet rfl ?_
      show (s.post (.posted n)).chains i ≤ _
      rw [chains_post]
      exact le_of_eq (add_zero _)
    | tick | stopWorkers | stopAccepter | stopSender =>
      unfold step
      rw [if_neg (by simp [hc])]
      exact hquiet rfl (le_refl _)

/-! ## runs -/

/-- **The condition.**  `AcceptEx` finds nothing left of an earlier connection. -/
def FindsNone (i : SessionIdx) (s : Network W) (a : Action W) : Prop :=
  s.issues i a = true → s.chains i = 0

instance (i : SessionIdx) (s : Network W) (a : Action W) : Decidable (FindsNone i s a) :=
  inferInstanceAs (Decidable (_ → _))

theorem one_receive_step (hs : s.Sound) (h : s.chains i ≤ 1) (a : Action W) :
    (step s a).chains i ≤ 1 ↔ FindsNone i s a := by
  obtain ⟨hle, heq⟩ := chains_step (i := i) hs a
  have h0 := chains_nonneg s i
  unfold FindsNone
  cases hn : s.issues i a with
  | true =>
    have e := heq hn
    constructor
    · intro h1 _
      omega
    · intro h1
      have := h1 rfl
      omega
  | false =>
    rw [hn] at hle
    simp only [Bool.false_eq_true, if_false, add_zero] at hle
    exact ⟨fun _ e => absurd e Bool.false_ne_true, fun _ => le_trans hle h⟩

theorem start_chains (heap : SessionIdx → Fin kDefaultRingBufferSize → UInt8) (clock : Seconds) :
    (start W heap clock).chains i = 0 := by
  have h : parties (WorkerPc.chainOf i) (start W heap clock).worker () = 0 :=
    parties_eq_zero _ fun w => by simp [start, WorkerPc.chainOf]
  unfold chains
  rw [h]
  rfl

section
variable (heap : SessionIdx → Fin kDefaultRingBufferSize → UInt8) (clock : Seconds)

theorem run_chains (as : List (Action W)) (i : SessionIdx)
    (hC : ∀ x ∈ hist step (start W heap clock) as, FindsNone i x.1 x.2) :
    (run step (start W heap clock) as).chains i ≤ 1 := by
  have h := @run_keeps _ _ step (fun s : Network W => s.Sound ∧ s.chains i ≤ 1) (FindsNone i)
    (fun s a hs hC => ⟨step_sound hs.1 a, (one_receive_step hs.1 hs.2 a).mpr hC⟩) (start W heap clock)
    ⟨start_sound W heap clock, by rw [start_chains]; decide⟩ as hC
  exact h.2

/-- **A session has never more than one accept, accept branch, receive or `OnRecv` under way, all taken
together, exactly if each `AcceptEx` of it finds none of them.** -/
theorem one_receive_run_iff (as : List (Action W)) (i : SessionIdx) :
    ((∀ x ∈ hist step (start W heap clock) as, x.1.chains i ≤ 1) ∧
        (run step (start W heap clock) as).chains i ≤ 1)
      ↔ ∀ x ∈ hist step (start W heap clock) as, FindsNone i x.1 x.2 := by
  refine @run_keeps_iff _ _ step (fun s => s.chains i ≤ 1) (fun s _ => s.Sound) (FindsNone i)
    (fun s a hs h => one_receive_step hs h a) (start W heap clock) ?_ as (hist_sound heap clock as)
  rw [start_chains]
  decide

end

/-- **With one at a time, two workers never have a part of it.** -/
theorem chains_apart (h : s.chains i ≤ 1) {w w' : Fin W} (hw : (s.worker w).chainOf i = some ())
    (hw' : (s.worker w').chainOf i = some ()) : w = w' := by
  by_contra hne
  -- the two of them make up two of the census
  have hle : hit ((s.worker w').chainOf i) ()
      ≤ parties (WorkerPc.chainOf i) (Function.update s.worker w .test) () := by
    have := hit_le_parties (WorkerPc.chainOf i) (Function.update s.worker w .test) w' ()
    rwa [Function.update_of_ne (Ne.symm hne)] at this
  rw [parties_update, hw, hw', hit_self] at hle
  have hnone : hit (WorkerPc.test.chainOf i) () = 0 := rfl
  have h2 := waiting_nonneg (chainOf i) s.pending ()
  have h3 := waiting_nonneg (Completion.chainOf i) s.port ()
  unfold chains at h
  omega

end Network

end Iocp
