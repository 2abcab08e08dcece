import IocpChatting.Network.Recycling

/-!
# What a new connection starts with

`is_sending_` is set by `BindSend` and cleared by the completion of a send and by the thread that closes
the session.  A `BindSend` that fails on a session that is not activated leaves it set.

* `Slot.Clean`          while the flag is set and nobody is in `BindSend`, the session is activated, or it
                        is being closed and the flag has still to be cleared;
* `clean_start_run`     what `Activate` leaves behind, as long as `InTime` holds of every step;
* `muted_client`        and a run in which it does not.
-/

set_option linter.unusedSectionVars false
set_option autoImplicit false

namespace Iocp
open Runs Census

namespace Network

variable {W : Nat} {s : Network W}

/-! ## the flag -/

namespace Slot

/-- a flag that is set is of use: somebody is going to clear it -/
def InUse (σ : Slot) : Prop :=
  (σ.isActivated = true ∨ 1 ≤ σ.count .closing) ∧ σ.count .finishing = 0

instance (σ : Slot) : Decidable σ.InUse := inferInstanceAs (Decidable (_ ∧ _))

def Clean (σ : Slot) : Prop := σ.isSending = true → σ.count .binding = 0 → σ.InUse

/-- `BindSend` does not leave a flag that is of no use -/
def Returns (σ : Slot) (e : Event) : Prop :=
  e = .sendReturns ∨ e = .sendFails → σ.isSending = true → σ.InUse

instance (σ : Slot) (e : Event) : Decidable (σ.Returns e) := inferInstanceAs (Decidable (_ → _))

/-- a party that moves between other phases -/
theorem count_move {σ : Slot} {p q : Option Phase} {x : Phase} (hp : p ≠ some x) (hq : q ≠ some x) :
    (σ.move p q).count x = σ.count x := by
  show σ.count x - hit p x + hit q x = _
  rw [hit_of_ne hp, hit_of_ne hq]
  omega

theorem InUse.move {σ τ : Slot} (h : σ.InUse) (p q : Option Phase)
    (hcount : τ.count = (σ.move p q).count) (hact : τ.isActivated = σ.isActivated)
    (hp : p ≠ some .closing ∧ p ≠ some .finishing) (hq : q ≠ some .closing ∧ q ≠ some .finishing) :
    τ.InUse := by
  unfold InUse
  rw [hcount, hact, count_move hp.1 hq.1, count_move hp.2 hq.2]
  exact h

/-- a party moves between phases that have nothing to do with the flag -/
theorem Clean.move {σ τ : Slot} (h : σ.Clean) (p q : Option Phase)
    (hcount : τ.count = (σ.move p q).count) (hact : τ.isActivated = σ.isActivated)
    (hsend : τ.isSending = σ.isSending)
    (hp : p ≠ some .binding ∧ p ≠ some .closing ∧ p ≠ some .finishing)
    (hq : q ≠ some .binding ∧ q ≠ some .closing ∧ q ≠ some .finishing) : τ.Clean := by
  intro hs hb
  rw [hsend] at hs
  rw [hcount, count_move hp.1 hq.1] at hb
  exact (h hs hb).move p q hcount hact hp.2 hq.2

theorem Clean.apply {σ : Slot} (h0 : ∀ p, 0 ≤ σ.count p) (ho : σ.Owned) (h : σ.Clean) {e : Event}
    (hf : σ.Fits e) (hr : σ.Returns e) : (σ.apply e).Clean := by
  cases e with
  | quiet | storeMax | abandon | pass | giveUp | choose | storeAccept => exact h
  | sendDone | clear => exact fun hs => by cases hs
  | issue => exact h.move none (some .accepting) rfl rfl rfl (by decide) (by decide)
  | takeUp => exact h.move (some .accepting) (some .opening) rfl rfl rfl (by decide) (by decide)
  | bindFails => exact h.move (some .opening) (some .starting) rfl rfl rfl (by decide) (by decide)
  | exit => exact h.move none (some .starting) rfl rfl rfl (by decide) (by decide)
  | lose => exact h.move (some .starting) none rfl rfl rfl (by decide) (by decide)
  | storeTime t => exact h.move (some .cleared) (some .leaving) rfl rfl rfl (by decide) (by decide)
  | leave => exact h.move (some .leaving) none rfl rfl rfl (by decide) (by decide)
  | activate =>
    -- a worker that opens the session is its owner, so the flag is of no use to anybody else
    intro hs hb
    have hb' : σ.count .binding = 0 := by
      rwa [← count_move (σ := σ) (p := some .opening) (q := some .finishing) (by decide) (by decide)]
    have h1 : 1 ≤ σ.count .opening := hf
    have h2 := h0 .accepting
    have h3 := h0 .cleared
    have h4 := h0 .closing
    have hone := ho.one
    have hact := σ.active_nonneg
    have hsum : σ.owners = σ.count .accepting + σ.count .opening + σ.count .closing + σ.count .cleared :=
      rfl
    rcases (h hs hb').1 with hu | hu
    · have ha : σ.active = 1 := if_pos hu
      omega
    · omega
  | activated =>
    intro hs hb
    have hb' : σ.count .binding = 0 := by
      rwa [← count_move (σ := σ) (p := some .finishing) (q := none) (by decide) (by decide)]
    have h1 : 1 ≤ σ.count .finishing := hf
    have h2 := (h hs hb').2
    omega
  | win =>
    intro hs hb
    have hb' : σ.count .binding = 0 := by
      rwa [← count_move (σ := σ) (p := some .starting) (q := some .closing) (by decide) (by decide)]
    have h1 := h0 .closing
    have h2 := (h hs hb').2
    have hc : (σ.apply .win).count .closing = σ.count .closing - 0 + 1 := rfl
    have hn : (σ.apply .win).count .finishing = σ.count .finishing - 0 + 0 := rfl
    exact ⟨.inr (by omega), by omega⟩
  | bindSend =>
    intro hs hb
    have h1 := h0 .binding
    have hc : (σ.apply .bindSend).count .binding = σ.count .binding - 0 + 1 := rfl
    omega
  | sendReturns =>
    exact fun hs _ => (hr (.inl rfl) hs).move (some .binding) none rfl rfl (by decide) (by decide)
  | sendFails =>
    exact fun hs _ => (hr (.inr rfl) hs).move (some .binding) (some .starting) rfl rfl (by decide) (by decide)

end Slot

/-! ## runs -/

/-- the sender is in `BindSend` of `i`, beyond the `compare_exchange` -/
def bindSendRuns (s : Network W) (i : SessionIdx) : Bool :=
  match s.sender with
  | .setSendOverlapped j | .wsaSend j _ | .moveFront j _ => j == i
  | _ => false

theorem phaseAt_ne {i j : SessionIdx} {p q : Phase} (h : p ≠ q) : phaseAt i j p ≠ some q := by
  unfold phaseAt
  split
  · exact fun e => h (Option.some.inj e)
  · simp

theorem request_ne_binding (i : SessionIdx) (req : IoRequest) : req.phase i ≠ some .binding := by
  unfold IoRequest.phase
  split
  · exact phaseAt_ne (by decide)
  · simp

theorem completion_ne_binding (i : SessionIdx) (c : Completion) : c.phase i ≠ some .binding := by
  cases c with
  | io req ok n => exact request_ne_binding i req
  | posted n => exact fun e => by cases e

theorem closePc_ne_binding (pc : ClosePc) : pc.phase ≠ .binding := by
  cases pc <;> simp [ClosePc.phase]

theorem worker_ne_binding (i : SessionIdx) (pc : WorkerPc) : pc.phase i ≠ some .binding := by
  cases pc with
  | check c => exact completion_ne_binding i c
  | dispatch req n => exact request_ne_binding i req
  | close j pc opening => exact phaseAt_ne (closePc_ne_binding pc)
  | bindIocp | onConnect | zeroRecv | zeroSend | setActivated | clearBuffer =>
    exact phaseAt_ne (by decide)
  | test | getQueued | repost | setRecvOverlapped | wsaRecv | increment | finished =>
    exact fun e => by cases e

/-- nobody but the sender is ever in `BindSend` -/
theorem count_binding (s : Network W) (i : SessionIdx) :
    (s.slot i).count .binding = if s.bindSendRuns i then 1 else 0 := by
  have h1 := parties_eq_zero (WorkerPc.phase i) fun w => worker_ne_binding i (s.worker w)
  have h2 := waiting_eq_zero (IoRequest.phase i) fun req (_ : req ∈ s.pending) => request_ne_binding i req
  have h3 := waiting_eq_zero (Completion.phase i) fun c (_ : c ∈ s.port) => completion_ne_binding i c
  have hcount : (s.slot i).count .binding = hit (s.sender.phase i) .binding := by
    simp only [slot]
    omega
  have hat : ∀ j : SessionIdx, hit (phaseAt i j .binding) .binding = if j == i then 1 else 0 := by
    intro j
    unfold phaseAt
    by_cases hj : j = i
    · simp [hj]
    · simp [hj]
  rw [hcount]
  unfold bindSendRuns
  cases s.sender with
  | setSendOverlapped j | wsaSend j | moveFront j => exact hat j
  | close j pc => exact hit_of_ne (phaseAt_ne (closePc_ne_binding pc))
  | test | hasSendData | bindSend | finished => rfl

/-- the step with which `Activate` of `i` is over -/
def CompletesActivate (s : Network W) (a : Action W) (i : SessionIdx) : Prop :=
  s.crashed = false ∧ ∃ w ok, a = .worker w ok ∧ s.worker w = .clearBuffer i

/-- **The condition.**  `BindSend` of `i` returns with `is_sending_` set only while `i` is activated, or
is being closed and the flag has still to be cleared, and no worker is in the second half of `Activate`. -/
def InTime (i : SessionIdx) (s : Network W) (a : Action W) : Prop := (s.slot i).Returns (s.event a i)

instance (i : SessionIdx) (s : Network W) (a : Action W) : Decidable (InTime i s a) :=
  inferInstanceAs (Decidable (Slot.Returns _ _))

theorem start_clean (heap : SessionIdx → Fin kDefaultRingBufferSize → UInt8) (clock : Seconds)
    (i : SessionIdx) : ((start W heap clock).slot i).Clean := by
  rw [start_slot]
  exact fun hs => by cases hs

theorem step_clean (hs : s.Sound) {i : SessionIdx} (ho : (s.slot i).Owned) (h : (s.slot i).Clean)
    {a : Action W} (hC : InTime i s a) : ((step s a).slot i).Clean := by
  rw [slot_step hs]
  exact h.apply (count_nonneg s i) ho (slot_fits hs a i) hC

/-- what `Activate` leaves behind -/
theorem activate_clean {i : SessionIdx} (h : (s.slot i).Clean) {a : Action W}
    (ha : s.CompletesActivate a i) :
    ((step s a).session i).sendBuf.contents = [] ∧
      (((step s a).session i).isSending = true → (step s a).bindSendRuns i = true) := by
  obtain ⟨hc, w, ok, rfl, hpc⟩ := ha
  have e : step s (.worker w ok)
      = (s.modify i (·.clearSendBuffer)).setWorker w (.setRecvOverlapped i true) := by
    simp [step, hc, workerStep, hpc]
  have hsession : (step s (.worker w ok)).session i = (s.session i).clearSendBuffer := by
    rw [e]
    exact modify_self s i _
  rw [hsession]
  refine ⟨(s.session i).sendBuf.clearBuffer_contents, fun hs => ?_⟩
  have h1 : 1 ≤ (s.slot i).count .finishing := count_worker (w := w) (by
    rw [hpc]
    exact phaseAt_self i _)
  have hruns : (step s (.worker w ok)).bindSendRuns i = s.bindSendRuns i := by rw [e]; rfl
  rw [hruns]
  by_contra hno
  have hzero : (s.slot i).count .binding = 0 := by rw [count_binding, if_neg hno]
  have h2 := (h hs hzero).2
  omega

section
variable (heap : SessionIdx → Fin kDefaultRingBufferSize → UInt8) (clock : Seconds)

/-- **When `Activate` is over, the send buffer is empty, and `is_sending_` is set only if a `BindSend` is
running, as long as `InTime` holds of every step.** -/
theorem clean_start_run (as : List (Action W)) (i : SessionIdx)
    (hC : ∀ x ∈ hist step (start W heap clock) as, InTime i x.1 x.2) :
    ∀ x ∈ hist step (start W heap clock) as, x.1.CompletesActivate x.2 i →
      ((step x.1 x.2).session i).sendBuf.contents = [] ∧
        (((step x.1 x.2).session i).isSending = true → (step x.1 x.2).bindSendRuns i = true) := by
  intro x hx ha
  have h := hist_run_keeps step
    (I := fun s : Network W => s.Sound ∧ (s.slot i).Owned ∧ (s.slot i).Clean) (C := InTime i)
    (fun s a hI hC => ⟨step_sound hI.1 a, step_owned hI.1 hI.2.1 a, step_clean hI.1 hI.2.1 hI.2.2 hC⟩)
    ⟨start_sound W heap clock, start_owned heap clock i, start_clean heap clock i⟩ as hC x hx
  exact activate_clean h.2.2 ha

end

/-- a client comes, and the worker is about to clear the send buffer -/
def opening : List (Action 1) :=
  [.tick 10] ++ List.replicate 9 (.accepter true) ++ [.complete 0 true 0]
    ++ List.replicate 9 (.worker 0 true)

theorem clean_start_opening :
    ((step (run step (start 1 (fun _ _ => 0) 0) opening) (.worker 0 true)).session 0).sendBuf.contents = [] ∧
      (((step (run step (start 1 (fun _ _ => 0) 0) opening) (.worker 0 true)).session 0).isSending = true →
        (step (run step (start 1 (fun _ _ => 0) 0) opening) (.worker 0 true)).bindSendRuns 0 = true) := by
  have hmem := split_mem_hist step (s := start 1 (fun _ _ => 0) 0)
    (rfl : opening ++ [.worker 0 true] = opening ++ .worker 0 true :: [])
  have hc : (run step (start 1 (fun _ _ => 0) 0) opening).CompletesActivate (.worker 0 true) 0 :=
    ⟨by decide +kernel, 0, true, rfl, by decide +kernel⟩
  have h := clean_start_run (fun _ _ => 0) 0 (opening ++ [.worker 0 true]) 0 (by decide +kernel)
    (run step (start 1 (fun _ _ => 0) 0) opening, .worker 0 true) hmem hc
  exact h

/-- a packet for a session whose accept is pending; its send fails, and then a client comes -/
def sendTooEarly : List (Action 1) :=
  [.tick 10] ++ List.replicate 9 (.accepter true) ++ [.sendPacket 0 [1]]
    ++ List.replicate 7 (.sender .pending) ++ [.complete 0 true 0] ++ List.replicate 9 (.worker 0 true)

/-- `CloseSocket` gives up before `ClearSession`, and nothing is ever sent to the client -/
theorem muted_client :
    ¬ ∀ x ∈ hist step (start 1 (fun _ _ => 0) 0) (sendTooEarly ++ [.worker 0 true]),
      x.1.CompletesActivate x.2 0 →
      ((step x.1 x.2).session 0).sendBuf.contents = [] ∧
        (((step x.1 x.2).session 0).isSending = true → (step x.1 x.2).bindSendRuns 0 = true) := by
  intro h
  have hc : (run step (start 1 (fun _ _ => 0) 0) sendTooEarly).CompletesActivate (.worker 0 true) 0 :=
    ⟨by decide +kernel, 0, true, rfl, by decide +kernel⟩
  have hmem := split_mem_hist step (s := start 1 (fun _ _ => 0) 0)
    (rfl : sendTooEarly ++ [.worker 0 true] = sendTooEarly ++ .worker 0 true :: [])
  have hsend : ((step (run step (start 1 (fun _ _ => 0) 0) sendTooEarly) (.worker 0 true)).session
      0).isSending = true := by decide +kernel
  have hno : (step (run step (start 1 (fun _ _ => 0) 0) sendTooEarly)
      (.worker 0 true)).bindSendRuns 0 = false := by decide +kernel
  have := (h _ hmem hc).2 hsend
  simp only at this
  rw [hno] at this
  cases this

end Network

end Iocp
