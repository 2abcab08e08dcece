import IocpChatting.Network.SendPath

/-!
# Sends of nothing

The sender asks for the send ring of a session in one critical section and fills the gather list in another.
Whoever clears the ring in between leaves it with nothing to send.

* `drained`             the ring that the sender has found filled has been cleared since, and nothing has been
                        enqueued after that;
* `filled_sends_iff`    `WSASend` is called with something exactly as long as it is not; and where Winsock
                        sends what it is given, no send completes with an `io_size` of 0;
* `healthy_client_closed`   a run in which one does.
-/

set_option linter.unusedSectionVars false
set_option autoImplicit false

namespace Iocp
open Runs

namespace Network

variable {W : Nat} {s : Network W} {i : SessionIdx}

/-! ## the ring between the question and the send -/

/-- the session whose send ring the sender has found filled and has not gathered -/
def SenderPc.gathers : SenderPc → Option SessionIdx
  | .bindSend i | .setSendOverlapped i => some i
  | _ => none

/-- a step clears the send ring of `i`: `Activate`, or `ClearSession` under `send_lock_` -/
def clears (s : Network W) (i : SessionIdx) : Action W → Bool
  | .worker w _ =>
    match s.worker w with
    | .clearBuffer j => j == i && !s.crashed
    | .close j .clearSendBuffer _ => j == i && !s.sendLocked j && !s.crashed
    | _ => false
  | _ => false

/-- `drained` after one step more -/
def drainedStep (s : Network W) (drained : Bool) (a : Action W) : Bool :=
  match s.sender with
  | .bindSend i | .setSendOverlapped i => s.clears i a || drained && (s.enqueued i a).isEmpty
  | .wsaSend _ _ => drained
  | _ => false

/-- The ring that the sender has found filled has been cleared since, and nothing has been enqueued after
that. -/
def drained (h : History W) : Bool := h.foldl (fun d x => x.1.drainedStep d x.2) false

theorem drained_snoc (h : History W) (s : Network W) (a : Action W) :
    drained (h ++ [(s, a)]) = s.drainedStep (drained h) a := by
  unfold drained
  rw [List.foldl_append]
  rfl

/-! ## what happens to the ring -/

theorem setWorker_session (w : Fin W) (pc : WorkerPc) : (s.setWorker w pc).session = s.session := rfl

theorem modify_sendBuf {j : SessionIdx} {f : Session → Session}
    (h : ∀ x, (f x).sendBuf = x.sendBuf) :
    ((s.modify j f).session i).sendBuf = (s.session i).sendBuf := by
  by_cases e : i = j
  · subst e
    rw [modify_self, h]
  · rw [modify_other _ _ e]

theorem modify_clear {j : SessionIdx} :
    ((s.modify j (·.clearSendBuffer)).session i).sendBuf =
      if j == i then (s.session i).sendBuf.clearBuffer else (s.session i).sendBuf := by
  by_cases e : i = j
  · subst e
    rw [modify_self, beq_self_eq_true, if_pos rfl]
    rfl
  · have hne : (j == i) = false := beq_eq_false_iff_ne.mpr fun e' => e e'.symm
    rw [modify_other _ _ e, hne]
    rfl

theorem closeStep_sendBuf {j : SessionIdx} {pc : ClosePc} (hpc : pc ≠ .clearSendBuffer) :
    ((s.closeStep j pc).session i).sendBuf = (s.session i).sendBuf := by
  cases pc with
  | setClosedTime | compareExchange | setSocket | clearSending | storeTime =>
    simp only [closeStep]
    exact modify_sendBuf fun _ => rfl
  | closesocket =>
    simp only [closeStep, Network.closesocket]
    split <;> rfl
  | clearSendBuffer => exact absurd rfl hpc
  | readClock | decrement => rfl

/-- a worker leaves the ring alone, or clears it -/
theorem workerStep_sendBuf (hc : s.crashed = false) (w : Fin W) (ok : Bool) :
    ((s.workerStep w ok).session i).sendBuf =
      if s.clears i (.worker w ok) then (s.session i).sendBuf.clearBuffer else (s.session i).sendBuf := by
  have hkeep : ∀ {b : RingBuffer UInt8 kDefaultRingBufferSize}, s.clears i (.worker w ok) = false →
      b = (s.session i).sendBuf →
      b = if s.clears i (.worker w ok) then (s.session i).sendBuf.clearBuffer else (s.session i).sendBuf := by
    intro b h e
    rw [h]
    exact e
  cases hpc : s.worker w with
  | clearBuffer j =>
    have e : s.clears i (.worker w ok) = (j == i) := by simp [clears, hpc, hc]
    rw [e]
    simp only [workerStep, hpc]
    exact modify_clear
  | close j pc opening =>
    by_cases h : pc = .clearSendBuffer
    · subst h
      have e : s.clears i (.worker w ok) = (j == i && !s.sendLocked j) := by simp [clears, hpc, hc]
      rw [e]
      simp only [workerStep, hpc, closeStep]
      cases hl : s.sendLocked j with
      | true =>
        rw [Bool.not_true, Bool.and_false]
        rfl
      | false =>
        rw [Bool.not_false, Bool.and_true]
        simp only [Bool.false_eq_true, if_false]
        exact modify_clear
    · have e : s.clears i (.worker w ok) = false := by
        simp only [clears, hpc]
        cases pc with
        | clearSendBuffer => exact absurd rfl h
        | _ => rfl
      refine hkeep e ?_
      simp only [workerStep, hpc]
      exact closeStep_sendBuf h
  | zeroRecv j | zeroSend j | setActivated j | setRecvOverlapped j opening =>
    refine hkeep (by simp [clears, hpc]) ?_
    simp only [workerStep, hpc, setWorker_session]
    exact modify_sendBuf fun _ => rfl
  | dispatch req n =>
    refine hkeep (by simp [clears, hpc]) ?_
    simp only [workerStep, hpc, dispatchStep]
    split
    · split <;> rfl
    · split
      · rfl
      · rw [setWorker_session]
        exact modify_sendBuf fun _ => rfl
    · split <;> rfl
    · rfl
  | check c =>
    refine hkeep (by simp [clears, hpc]) ?_
    simp only [workerStep, hpc, checkStep]
    split
    · rfl
    · split
      · split <;> rfl
      · split <;> rfl
  | getQueued =>
    refine hkeep (by simp [clears, hpc]) ?_
    simp only [workerStep, hpc]
    split <;> rfl
  | bindIocp j =>
    refine hkeep (by simp [clears, hpc]) ?_
    simp only [workerStep, hpc]
    split
    · next e =>
      obtain ⟨sock, _, _, _, rfl⟩ := bindIOCompletionPort_eq_some e
      rfl
    · rfl
  | wsaRecv j opening =>
    refine hkeep (by simp [clears, hpc]) ?_
    simp only [workerStep, hpc]
    split
    · next e =>
      obtain ⟨sock, _, _, rfl⟩ := wsaRecv_eq_some e
      rfl
    · rfl
  | test | repost | onConnect | increment =>
    refine hkeep (by simp [clears, hpc]) ?_
    simp only [workerStep, hpc]
    rfl
  | finished =>
    refine hkeep (by simp [clears, hpc]) ?_
    simp only [workerStep, hpc]

theorem accepterStep_sendBuf (ok : Bool) :
    ((s.accepterStep ok).session i).sendBuf = (s.session i).sendBuf := by
  cases hpc : s.accepter with
  | test | readClock | readActivated | compareClosed | diffClosed | finished => simp only [accepterStep, hpc]
  | bindAccept t j | setAcceptOverlapped t j =>
    simp only [accepterStep, hpc]
    exact modify_sendBuf (s := s) fun _ => rfl
  | createSocket t j =>
    simp only [accepterStep, hpc, Network.createSocket]
    split
    · exact modify_sendBuf (s := s) (f := (·.setSocket (some s.socketCnt))) fun _ => rfl
    · exact modify_sendBuf (s := s) (f := (·.setSocket none)) fun _ => rfl
  | acceptEx t j =>
    simp only [accepterStep, hpc, Network.acceptEx]
    split
    · rfl
    · split <;> rfl

/-- **What any step but the sender's makes of a ring.** -/
theorem ring_step (hc : s.crashed = false) {a : Action W} (ha : ∀ result, a ≠ .sender result) :
    ((step s a).session i).sendBuf.contents = [] ↔
      s.clears i a = true ∨ (s.session i).sendBuf.contents = [] ∧ s.enqueued i a = [] := by
  have hkeep : ∀ {b : RingBuffer UInt8 kDefaultRingBufferSize}, b = (s.session i).sendBuf →
      s.clears i a = false → s.enqueued i a = [] →
      (b.contents = [] ↔ s.clears i a = true ∨ (s.session i).sendBuf.contents = [] ∧ s.enqueued i a = []) := by
    intro b e h1 h2
    rw [e, h1, h2]
    simp
  cases a with
  | worker w ok =>
    have henq : s.enqueued i (.worker w ok) = [] := rfl
    rw [step_workerStep hc, workerStep_sendBuf hc, henq]
    cases s.clears i (.worker w ok) with
    | true => simp
    | false => simp
  | accepter ok =>
    rw [step_accepterStep hc]
    exact hkeep (accepterStep_sendBuf ok) rfl rfl
  | sender result => exact absurd rfl (ha result)
  | sendPacket idx data =>
    have hclears : s.clears i (.sendPacket idx data) = false := rfl
    rw [step_sendPacket hc, sendPacket_contents hc, hclears, List.append_eq_nil_iff]
    constructor
    · rintro ⟨hempty, htake⟩
      refine .inr ⟨hempty, ?_⟩
      -- there is room in an empty ring
      have hsize := (s.session i).sendBuf.contents_length
      have hfree := (s.session i).sendBuf.inUse_add_free
      rw [hempty, List.length_nil] at hsize
      rcases List.take_eq_nil_iff.mp htake with h | h
      · have hn : kDefaultRingBufferSize - 1 = 16383 := rfl
        omega
      · exact h
    · rintro (h | ⟨hempty, henq⟩)
      · cases h
      · rw [henq]
        exact ⟨hempty, List.take_nil⟩
  | complete k ok n =>
    have e : step s (.complete k ok n) = s.complete k ok n := by
      simp only [step, hc, Bool.false_eq_true, if_false]
    rw [e, complete_session]
    exact hkeep rfl rfl rfl
  | tick | post | stopWorkers | stopAccepter | stopSender =>
    simp only [step, hc, Bool.false_eq_true, if_false]
    exact hkeep rfl rfl rfl

/-! ## steps -/

/-- what the sender finds in the ring, and what it has gathered -/
structure Gathered (h : History W) (s : Network W) : Prop where
  ring : ∀ i, s.sender.gathers = some i → ((s.session i).sendBuf.contents = [] ↔ drained h = true)
  bufs : ∀ i bufs, s.sender = .wsaSend i bufs → (Session.wsaLen bufs = 0 ↔ drained h = true)

theorem nextSend_gathers (j : SessionIdx) : (nextSend j).gathers = none := by
  unfold nextSend
  cases nextIdx j <;> rfl

/-- the sender does not send -/
theorem Gathered.away {h : History W} (hg : s.sender.gathers = none)
    (hno : ∀ j bufs, s.sender ≠ .wsaSend j bufs) : Gathered h s where
  ring i e := by
    rw [hg] at e
    cases e
  bufs i bufs e := absurd e (hno i bufs)

theorem SenderPc.Outside.not_wsaSend {pc : SenderPc} (ho : pc.Outside) (j : SessionIdx)
    (bufs : List WsaBuf) : pc ≠ .wsaSend j bufs := by
  rintro rfl
  exact ho

theorem drainedStep_gathers (h : s.sender.gathers = some i) (d : Bool) (a : Action W) :
    s.drainedStep d a = (s.clears i a || d && (s.enqueued i a).isEmpty) := by
  unfold drainedStep
  cases hpc : s.sender with
  | bindSend j | setSendOverlapped j =>
    rw [hpc] at h
    obtain rfl := Option.some.inj h
    rfl
  | _ =>
    rw [hpc] at h
    cases h

/-- the sender itself drains nothing -/
theorem drained_sender (h : History W) {j : SessionIdx} (hg : s.sender.gathers = some j)
    (result : SendResult) : drained (h ++ [(s, .sender result)]) = drained h := by
  rw [drained_snoc, drainedStep_gathers hg]
  show (false || drained h && true) = _
  simp

theorem senderStep_gathered {h : History W} (hI : Gathered h s) (result : SendResult) :
    Gathered (h ++ [(s, .sender result)]) (s.senderStep result) := by
  cases hpc : s.sender with
  | test =>
    simp only [senderStep, hpc]
    refine .away ?_ (SenderPc.Outside.not_wsaSend ?_)
    · show SenderPc.gathers (if _ then _ else _) = none
      split <;> rfl
    · show SenderPc.Outside (if _ then _ else _)
      split <;> trivial
  | hasSendData j =>
    have hd' : drained (h ++ [(s, .sender result)]) = false := by
      rw [drained_snoc]
      simp only [drainedStep, hpc]
    simp only [senderStep, hpc]
    cases hs : (s.session j).hasSendData with
    | false => exact .away (nextSend_gathers j) (nextSend_outside j).not_wsaSend
    | true =>
      refine ⟨fun i e => ?_, fun _ _ e => by cases e⟩
      obtain rfl := Option.some.inj e
      have hlen : (s.session j).sendBuf.contents.length > 0 := by
        rw [RingBuffer.contents_length]
        simpa [Session.hasSendData] using hs
      rw [hd']
      constructor
      · intro he
        have he' : (s.session j).sendBuf.contents = [] := he
        rw [he', List.length_nil] at hlen
        omega
      · intro he
        cases he
  | bindSend j =>
    have hg : s.sender.gathers = some j := by rw [hpc]; rfl
    simp only [senderStep, hpc]
    split
    · exact .away (nextSend_gathers j) (nextSend_outside j).not_wsaSend
    · refine ⟨fun i e => ?_, fun _ _ e => by cases e⟩
      obtain rfl := Option.some.inj e
      rw [drained_sender h hg, ← hI.ring j hg]
      have e := @modify_sendBuf _ s j j (fun x => { x with isSending := true }) fun _ => rfl
      exact Eq.to_iff (congrArg (fun b => b.contents = []) e)
  | setSendOverlapped j =>
    have hg : s.sender.gathers = some j := by rw [hpc]; rfl
    simp only [senderStep, hpc]
    refine ⟨fun _ e => (by cases e), fun i bufs e => ?_⟩
    obtain ⟨rfl, rfl⟩ := SenderPc.wsaSend.inj e
    rw [drained_sender h hg, ← hI.ring j hg, Session.wsaLen_setWsaBuf, ← RingBuffer.contents_length,
      List.length_eq_zero_iff]
  | wsaSend j bufs =>
    simp only [senderStep, hpc]
    split <;> exact .away rfl fun _ _ e => by cases e
  | moveFront j n =>
    simp only [senderStep, hpc]
    exact .away (nextSend_gathers j) (nextSend_outside j).not_wsaSend
  | close j pc =>
    simp only [senderStep, hpc]
    refine .away ?_ (senderInClose_outside j _).not_wsaSend
    show (SenderPc.inClose j (s.closeNext j pc)).gathers = none
    cases s.closeNext j pc with
    | some pc' => rfl
    | none => exact nextSend_gathers j
  | finished =>
    have e : s.senderStep result = s := by simp only [senderStep, hpc]
    rw [e]
    exact .away (by rw [hpc]; rfl) (by rw [hpc]; exact fun _ _ e => by cases e)

theorem gathered_step {h : History W} (hI : Gathered h s) (a : Action W) :
    Gathered (h ++ [(s, a)]) (step s a) := by
  have hd := drained_snoc h s a
  by_cases hc : s.crashed = true
  · rw [step_crashed hc]
    refine ⟨fun i hg => ?_, fun i bufs hpc => ?_⟩
    · have h1 : s.clears i a = false := by
        unfold clears
        split
        · split <;> simp [hc]
        · rfl
      have h2 : s.enqueued i a = [] := by
        unfold enqueued
        split
        · exact if_neg fun e => by rw [hc] at e; cases e.1
        · rfl
      rw [hd, drainedStep_gathers hg, h1, h2, hI.ring i hg]
      simp
    · rw [hd]
      simp only [drainedStep, hpc]
      exact hI.bufs i bufs hpc
  · have hc' : s.crashed = false := Bool.eq_false_iff.mpr hc
    by_cases ha : ∃ result, a = .sender result
    · obtain ⟨result, rfl⟩ := ha
      rw [step_senderStep hc']
      exact senderStep_gathered hI result
    · have hne : ∀ result, a ≠ .sender result := fun result e => ha ⟨result, e⟩
      have hsame := step_sender (s := s) hne
      refine ⟨fun i hg => ?_, fun i bufs hpc => ?_⟩
      · rw [hsame] at hg
        rw [ring_step hc' hne, hd, drainedStep_gathers hg, hI.ring i hg]
        simp
      · rw [hsame] at hpc
        rw [hd]
        simp only [drainedStep, hpc]
        exact hI.bufs i bufs hpc

/-! ## what is sent -/

/-- the gather list of a `WSASend` on a connected socket -/
def wsaSends (s : Network W) : Action W → Option (List WsaBuf)
  | .sender _ =>
    match s.sender with
    | .wsaSend i bufs => if s.crashed = false ∧ (s.connectedSocket i).isSome then some bufs else none
    | _ => none
  | _ => none

/-- every `WSASend` on a connected socket has something to send -/
def FilledSends (h : History W) : Prop :=
  ∀ x ∈ h, ∀ bufs, x.1.wsaSends x.2 = some bufs → 0 < Session.wsaLen bufs

/-- What Winsock promises: a send succeeds with an `io_size` of 0 only where it was given nothing. -/
def SendsAll (h : History W) (s : Network W) : Action W → Prop
  | .sender (.sent n) => n = 0 → ∀ i bufs, s.sender = .wsaSend i bufs → Session.wsaLen bufs = 0
  | .complete k ok n => ok = true → n = 0 → ∀ req, s.pending[k]? = some req → req.op = .send →
      ∃ x ∈ h, x.1.issued x.2 = some req ∧ ∃ bufs, x.1.wsaSends x.2 = some bufs ∧ Session.wsaLen bufs = 0
  | _ => True

theorem wsaSends_eq_some {a : Action W} {bufs : List WsaBuf} (h : s.wsaSends a = some bufs) :
    ∃ i, s.sender = .wsaSend i bufs := by
  unfold wsaSends at h
  split at h
  · split at h
    · next j bufs' hpc =>
      split at h
      · obtain rfl := Option.some.inj h
        exact ⟨j, hpc⟩
      · cases h
    · cases h
  · cases h

/-- the completion of a send with an `io_size` of 0, which `SessionExited` takes for the client leaving -/
def NoneEmpty (s : Network W) : Prop := ∀ req, s.Reports (.io req true 0) → req.op ≠ .send

theorem noneEmpty_step {h : History W} {a : Action W} (hfilled : FilledSends (h ++ [(s, a)]))
    (hI : s.NoneEmpty) (hall : SendsAll h s a) : (step s a).NoneEmpty := by
  by_cases hc : s.crashed = true
  · rw [step_crashed hc]
    exact hI
  intro req hr hop
  rcases reports_step hr with hr | hr
  · exact hI req hr hop
  · generalize hcompl : Completion.io req true 0 = c at hr
    cases hr with
    | posted n => cases hcompl
    | complete k ok n req' ok' hk =>
      obtain ⟨rfl, rfl, rfl⟩ := Completion.io.inj hcompl
      obtain ⟨x, hx, _, bufs, hb, hlen⟩ := hall (hk.2 rfl) rfl req hk.1 hop
      have hpos := hfilled x (List.mem_append_left _ hx) bufs hb
      omega
    | sent m i bufs sock hs =>
      obtain ⟨_, _, hmin⟩ := Completion.io.inj hcompl
      have hsends : s.wsaSends (.sender (.sent m)) = some bufs := by
        simp [wsaSends, hs.1, hs.2, hc]
      have hpos := hfilled (s, .sender (.sent m)) (List.mem_append_right _ List.mem_cons_self) bufs hsends
      have hm : m = 0 := by omega
      have hlen := hall hm i bufs hs.1
      omega

section
variable (heap : SessionIdx → Fin kDefaultRingBufferSize → UInt8) (clock : Seconds)

theorem run_gathered (as : List (Action W)) :
    Gathered (hist step (start W heap clock) as) (run step (start W heap clock) as) := by
  induction as using List.reverseRecOn with
  | nil => exact .away rfl fun _ _ e => by cases e
  | append_singleton as a ih =>
    rw [hist_snoc, run_snoc]
    exact gathered_step ih a

theorem run_noneEmpty (as : List (Action W)) (hfilled : FilledSends (hist step (start W heap clock) as))
    (hall : ∀ bs a cs, as = bs ++ a :: cs →
      SendsAll (hist step (start W heap clock) bs) (run step (start W heap clock) bs) a) :
    (run step (start W heap clock) as).NoneEmpty := by
  induction as using List.reverseRecOn with
  | nil =>
    rintro req (hr | ⟨w, hr⟩)
    · cases hr
    · cases hr
  | append_singleton as a ih =>
    rw [hist_snoc] at hfilled
    rw [run_snoc]
    refine noneEmpty_step hfilled (ih ?_ ?_) (hall as a [] rfl)
    · exact fun x hx => hfilled x (List.mem_append_left _ hx)
    · intro bs b cs e
      exact hall bs b (cs ++ [a]) (by rw [e]; simp)

/-- **`WSASend` has something to send exactly if the ring is not drained whenever it is called.**  Then no
send completes with an `io_size` of 0, where Winsock sends what it is given. -/
theorem filled_sends_iff (as : List (Action W)) :
    (FilledSends (hist step (start W heap clock) as) ↔
      ∀ bs a cs, as = bs ++ a :: cs → ((run step (start W heap clock) bs).wsaSends a).isSome = true →
        drained (hist step (start W heap clock) bs) = false) ∧
    ((∀ bs a cs, as = bs ++ a :: cs →
        SendsAll (hist step (start W heap clock) bs) (run step (start W heap clock) bs) a) →
      FilledSends (hist step (start W heap clock) as) →
        ∀ x ∈ hist step (start W heap clock) as, ∀ w req, x.1.worker w = .check (.io req true 0) →
          req.op ≠ .send) := by
  have hlen : ∀ bs a bufs, (run step (start W heap clock) bs).wsaSends a = some bufs →
      (Session.wsaLen bufs = 0 ↔ drained (hist step (start W heap clock) bs) = true) := by
    intro bs a bufs hb
    obtain ⟨i, hpc⟩ := wsaSends_eq_some hb
    exact (run_gathered heap clock bs).bufs i bufs hpc
  refine ⟨⟨fun hfilled bs a cs e hsome => ?_, fun hC x hx bufs hb => ?_⟩,
    fun hall hfilled x hx w req hpc => ?_⟩
  · obtain ⟨bufs, hb⟩ := Option.isSome_iff_exists.mp hsome
    have hpos := hfilled _ (split_mem_hist step e) bufs hb
    rw [Bool.eq_false_iff, Ne, ← hlen bs a bufs hb]
    omega
  · obtain ⟨bs, cs, e, hx1⟩ := mem_hist step hx
    rw [hx1] at hb
    have hno := hC bs x.2 cs e (Option.isSome_iff_exists.mpr ⟨bufs, hb⟩)
    rw [Bool.eq_false_iff, Ne, ← hlen bs x.2 bufs hb] at hno
    omega
  · obtain ⟨bs, cs, e, hx1⟩ := mem_hist step hx
    rw [hx1] at hpc
    refine run_noneEmpty heap clock bs (fun y hy => hfilled y ?_) (fun cs' b ds e' => ?_) req (.inr ⟨w, hpc⟩)
    · rw [e, hist_append]
      exact List.mem_append_left _ hy
    · exact hall cs' b (ds ++ x.2 :: cs) (by rw [e, e']; simp)

end

/-- a packet for a session that is being accepted, which the sender finds just before `Activate` clears it -/
def emptied : List (Action 1) :=
  [.tick 10] ++ List.replicate 9 (.accepter true) ++ [.sendPacket 0 [1]]
    ++ List.replicate 2 (.sender .pending) ++ [.complete 0 true 0]
    ++ List.replicate 13 (.worker 0 true) ++ List.replicate 2 (.sender .pending)

/-- `WSASend` sends nothing, and its completion closes the connection -/
theorem healthy_client_closed :
    ¬ FilledSends (hist step (start 1 (fun _ _ => 0) 0) (emptied ++ [.sender (.sent 0)])) ∧
      ((run step (start 1 (fun _ _ => 0) 0) emptied).session 0).isActivated = true ∧
      ((run step (start 1 (fun _ _ => 0) 0)
        (emptied ++ .sender (.sent 0) :: List.replicate 5 (.worker 0 true))).session
          0).isActivated = false := by
  refine ⟨fun h => ?_, by decide +kernel, by decide +kernel⟩
  have hmem := split_mem_hist step (s := start 1 (fun _ _ => 0) 0)
    (rfl : emptied ++ [.sender (.sent 0)] = emptied ++ .sender (.sent 0) :: [])
  have hsends : (run step (start 1 (fun _ _ => 0) 0) emptied).wsaSends (.sender (.sent 0))
      = some [⟨0, 0⟩] := by
    decide +kernel
  exact absurd (h _ hmem _ hsends) (by decide)

end Network

end Iocp
