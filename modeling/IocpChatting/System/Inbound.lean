import IocpChatting.System.ChatServer

/-!
# Received bytes on their way in

`EnqueuePacket` stores the bytes and pushes the index in two steps, and nothing but the order of the
receives keeps two workers apart that are in it for one session.

* `Entered`              who is between the two steps, as the content and as the network see it;
* `received_in_turn`     where each `AcceptEx` finds nothing left of an earlier receive, `OnRecv` of a
                         session is not called before the last one has pushed its index.
-/

set_option linter.unusedSectionVars false
set_option autoImplicit false

namespace Iocp
open Runs Census
open Network (SessionIdx FindsNone)

/-! ## what a step does to the workers and to the calls of `EnqueuePacket` -/

namespace Network

variable {W : Nat} {s : Network W}

theorem workerStep_worker (w : Fin W) (ok : Bool) :
    ∃ pc, (s.workerStep w ok).worker = Function.update s.worker w pc := by
  have hstay : ∃ pc, s.worker = Function.update s.worker w pc :=
    ⟨s.worker w, (Function.update_eq_self w s.worker).symm⟩
  cases hpc : s.worker w with
  | getQueued =>
    simp only [workerStep, hpc]
    split
    · exact hstay
    · exact ⟨_, rfl⟩
  | check c =>
    rw [workerStep_check hpc]
    cases c with
    | posted n =>
      rw [checkStep_posted]
      exact ⟨_, rfl⟩
    | io req ok' n =>
      rw [checkStep_io]
      split
      · split
        · exact hstay
        · exact ⟨_, rfl⟩
      · exact ⟨_, rfl⟩
  | dispatch req n =>
    rw [workerStep_dispatch hpc]
    unfold dispatchStep
    split
    · split
      · exact hstay
      · exact ⟨_, rfl⟩
    · split
      · exact hstay
      · exact ⟨_, rfl⟩
    · split
      · exact hstay
      · exact ⟨_, rfl⟩
    · exact ⟨_, rfl⟩
  | bindIocp i =>
    simp only [workerStep, hpc]
    split
    · next e =>
      obtain ⟨sock, _, _, _, rfl⟩ := bindIOCompletionPort_eq_some e
      exact ⟨_, rfl⟩
    · exact ⟨_, rfl⟩
  | wsaRecv i opening =>
    simp only [workerStep, hpc]
    split
    · next e =>
      obtain ⟨sock, _, _, rfl⟩ := wsaRecv_eq_some e
      exact ⟨_, rfl⟩
    · exact ⟨_, rfl⟩
  | close i pc opening =>
    simp only [workerStep, hpc]
    refine ⟨.inClose i opening (s.closeNext i pc), ?_⟩
    show Function.update (s.closeStep i pc).worker w _ = _
    rw [(closeStep_same i pc).2.worker]
  | finished =>
    simp only [workerStep, hpc]
    exact hstay
  | _ =>
    simp only [workerStep, hpc]
    exact ⟨_, rfl⟩

/-- a step moves nobody but its own worker -/
theorem step_worker_other {w : Fin W} {a : Action W} (ha : ∀ ok, a ≠ .worker w ok) :
    (step s a).worker w = s.worker w := by
  cases hc : s.crashed with
  | true => rw [step_crashed hc]
  | false =>
    cases a with
    | worker w' ok =>
      have hne : w ≠ w' := fun e => ha ok (by rw [e])
      obtain ⟨pc, e⟩ := workerStep_worker (s := s) w' ok
      rw [step_workerStep hc, e, Function.update_of_ne hne]
    | accepter ok => rw [step_accepterStep hc, (accepterStep_same ok).worker]
    | sender result => rw [step_senderStep hc, (senderStep_same result).worker]
    | sendPacket idx data =>
      rw [step_sendPacket hc]
      unfold sendPacket
      split
      · rfl
      · split <;> rfl
    | complete k ok n =>
      unfold step
      rw [if_neg (by simp [hc])]
      show (s.complete k ok n).worker w = _
      rw [(complete_same k ok n).2.worker]
    | post n =>
      unfold step
      rw [if_neg (by simp [hc])]
      rfl
    | tick | stopWorkers | stopAccepter | stopSender =>
      unfold step
      rw [if_neg (by simp [hc])]

end Network

namespace Server

theorem loopStep_storing (s : Server) (mem : Mem) : (s.loopStep mem).storing = s.storing := by
  have h := loop_effect (fun _ => none) s mem
  generalize s.loopStep mem = s' at h
  cases h <;> rfl

end Server

namespace ChatServer

variable {W : Nat} {s : ChatServer W}

/-! ## between the two halves of `EnqueuePacket` -/

/-- the workers between the two halves of `EnqueuePacket` of `i` -/
def entered (s : ChatServer W) (i : SessionIdx) : ℤ := parties (fun p => mark (p == some i)) s.pushing ()

/-- The content sees as many of them as there are workers, and each worker stands before `BindRecv`. -/
structure Entered (s : ChatServer W) : Prop where
  storing : ∀ i, (s.server.storing.count i : ℤ) = s.entered i
  worker : ∀ w i, s.pushing w = some i → s.network.worker w = .setRecvOverlapped i false

theorem start_entered (heap : SessionIdx → Fin kDefaultRingBufferSize → UInt8)
    (userHeap : Session → Fin kDefaultRingBufferSize → UInt8) (clock : Network.Seconds) :
    (start W heap userHeap clock).Entered where
  storing i := (parties_eq_zero _ fun w => by simp [start, mark]).symm
  worker w i h := by cases h

theorem entered_update (w : Fin W) (p : Option SessionIdx) (i : SessionIdx) :
    parties (fun p => mark (p == some i)) (Function.update s.pushing w p) ()
      = s.entered i - (if s.pushing w = some i then 1 else 0) + (if p = some i then 1 else 0) := by
  rw [parties_update, hit_mark, hit_mark]
  simp only [beq_iff_eq]
  rfl

/-- a step of the network that moves no worker in `OnRecv` -/
theorem Entered.onNetwork (h : s.Entered) {a : Network.Action W}
    (ha : ∀ w ok, a = .worker w ok → s.pushing w = none) : (s.onNetwork a).Entered where
  storing := h.storing
  worker w i hw := by
    refine (Network.step_worker_other fun ok e => ?_).trans (h.worker w i hw)
    have := ha w ok e
    rw [show s.pushing w = some i from hw] at this
    cases this

section
variable (redisGet : CStr → Option (List UInt8))

/-- a step of the content outside `EnqueuePacket` -/
theorem Entered.onServer (h : s.Entered) {a : Server.Action}
    (ha : (s.server.step redisGet a).storing = s.server.storing) : (s.onServer redisGet a).Entered where
  storing i := by
    show ((s.server.step redisGet a).storing.count i : ℤ) = _
    rw [ha]
    exact h.storing i
  worker := h.worker

theorem entered_push (h : s.Entered) {w : Fin W} {i : SessionIdx} (hw : s.pushing w = some i) :
    ({ s.onServer redisGet (.pushIndex i) with pushing := Function.update s.pushing w none }
      : ChatServer W).Entered where
  storing j := by
    have hle := hit_le_parties (fun p => mark (p == some i)) s.pushing w ()
    have hone : hit (mark (s.pushing w == some i)) () = 1 := by
      rw [hw, beq_self_eq_true]
      rfl
    have hpos : i ∈ s.server.storing := by
      have hc := h.storing i
      unfold entered at hc
      simp only [hone] at hle
      exact List.count_pos_iff.mp (by omega)
    have hstep : (s.server.step redisGet (.pushIndex i)).storing = s.server.storing.erase i := by
      show (if i ∈ s.server.storing then _ else _ : Server).storing = _
      rw [if_pos hpos]
    show ((s.server.step redisGet (.pushIndex i)).storing.count j : ℤ) = parties _ _ ()
    have hj := h.storing j
    have hcount := List.count_pos_iff.mpr hpos
    rw [hstep, entered_update, hw, List.count_erase]
    by_cases e : i = j
    · subst e
      simp only [beq_self_eq_true, if_true, reduceCtorEq, if_false]
      omega
    · have e' : ¬ some i = some j := fun he => e (Option.some.inj he)
      simp only [beq_false_of_ne e, Bool.false_eq_true, e', reduceCtorEq, if_false]
      omega
  worker w' j hw' := by
    by_cases e : w' = w
    · subst e
      simp at hw'
    · exact h.worker w' j (by simpa [Function.update_of_ne e] using hw')

theorem entered_recv (h : s.Entered) (hc : s.network.crashed = false) {w : Fin W} {i : SessionIdx} {n : Nat}
    (hw : s.pushing w = none) (hk : callback s.network w = some (.onRecv i n)) (ok : Bool)
    (data : List UInt8) :
    ({ (s.onNetwork (.worker w ok)).onServer redisGet (.onRecv i data) with
        pushing := Function.update s.pushing w (some i) } : ChatServer W).Entered where
  storing j := by
    have hj := h.storing j
    show ((i :: s.server.storing).count j : ℤ) = parties _ _ ()
    rw [entered_update, hw, List.count_cons]
    by_cases e : i = j
    · subst e
      simp only [beq_self_eq_true, if_true, reduceCtorEq, if_false]
      omega
    · have e' : ¬ some i = some j := fun he => e (Option.some.inj he)
      simp only [beq_false_of_ne e, Bool.false_eq_true, e', reduceCtorEq, if_false]
      omega
  worker w' j hw' := by
    by_cases e : w' = w
    · -- the worker that calls `OnRecv`
      subst e
      have hij : i = j := by simpa using hw'
      subst hij
      show (Network.step s.network (.worker w' ok)).worker w' = _
      unfold callback at hk
      split at hk
      · cases hk
      · split at hk
        · obtain ⟨j, _, e⟩ := Option.map_eq_some_iff.mp hk
          cases e
        · cases hk
      · next req m hpc =>
        split at hk
        · next htype =>
          obtain ⟨j, hkey, e⟩ := Option.map_eq_some_iff.mp hk
          cases e
          rw [Network.step_workerStep hc, Network.workerStep_dispatch hpc]
          simp only [Network.dispatchStep, htype, hkey]
          exact Function.update_self ..
        · cases hk
      · cases hk
    · refine (Network.step_worker_other fun ok' e' => ?_).trans
        (h.worker w' j (by simpa [Function.update_of_ne e] using hw'))
      cases e'
      exact e rfl

theorem step_entered (h : s.Entered) (a : Action W) : (step redisGet s a).Entered := by
  unfold step
  split
  · exact h
  · next hc =>
    have hc : s.network.crashed = false := by simpa using hc
    have hnet : ∀ {a : Network.Action W}, (∀ w ok, a ≠ .worker w ok) → (s.onNetwork a).Entered :=
      fun ha => h.onNetwork fun w ok e => absurd e (ha w ok)
    cases a with
    | worker w ok recvBuf =>
      simp only [workerStep]
      cases hw : s.pushing w with
      | some i => exact entered_push redisGet h hw
      | none =>
        have hn : (s.onNetwork (.worker w ok)).Entered := h.onNetwork fun w' ok' e => by
          cases e
          exact hw
        cases hk : callback s.network w with
        | none => exact hn
        | some k =>
          cases k with
          | onConnect i => exact hn.onServer redisGet rfl
          | onDisconnect i => exact hn.onServer redisGet rfl
          | onRecv i n => exact entered_recv redisGet h hc hw hk ok _
    | loop mem =>
      simp only [loopStep]
      split
      · have hs := h.onServer redisGet (a := .loop mem) (s.server.loopStep_storing mem)
        exact ⟨hs.storing, hs.worker⟩
      · split
        · exact h
        · next x rest _ _ =>
          have hs := hnet (a := .sendPacket (int32 x.idx) x.pkt.bytes) (by simp)
          exact ⟨hs.storing, hs.worker⟩
    | redisTake =>
      refine h.onServer redisGet ?_
      simp only [Server.step]
      cases s.server.chat.taskReqQueue <;> rfl
    | redisPut k mem =>
      refine h.onServer redisGet ?_
      simp only [Server.step]
      cases s.server.workers[k]? <;> rfl
    | accepter | sender | complete | tick | post | stopWorkers | stopAccepter | stopSender =>
      exact hnet (by simp)

variable (heap : SessionIdx → Fin kDefaultRingBufferSize → UInt8)
  (userHeap : Session → Fin kDefaultRingBufferSize → UInt8) (clock : Network.Seconds)

theorem hist_entered (as : List (Action W)) :
    ∀ x ∈ hist (step redisGet) (start W heap userHeap clock) as, x.1.Entered :=
  @hist_keeps_all _ _ (step redisGet) Entered (fun _ a h => step_entered redisGet h a) _
    (start_entered heap userHeap clock) as

end

/-! ## in turn -/

theorem Entered.chain (h : s.Entered) {w : Fin W} {i : SessionIdx} (hw : s.pushing w = some i) :
    (s.network.worker w).chainOf i = some () := by
  rw [h.worker w i hw]
  show mark (i == i) = _
  rw [beq_self_eq_true]
  rfl

/-- with one receive at a time, one worker at most is in `EnqueuePacket` of a session -/
theorem Entered.count_le (h : s.Entered) {i : SessionIdx} (hone : s.network.chains i ≤ 1) :
    s.server.storing.count i ≤ 1 := by
  have hcard : (Finset.univ.filter fun w => (s.pushing w == some i) = true).card ≤ 1 := by
    refine Finset.card_le_one.mpr fun w hw w' hw' => ?_
    have hw : s.pushing w = some i := by simpa using hw
    have hw' : s.pushing w' = some i := by simpa using hw'
    exact Network.chains_apart hone (h.chain hw) (h.chain hw')
  have hi := h.storing i
  unfold entered at hi
  rw [parties_mark (fun p => p == some i)] at hi
  omega

theorem onRecv_spec {a : Action W} {i : SessionIdx} {data : List UInt8} (hs : s.network.Sound)
    (h : s.serverCall a = some (.onRecv i data)) :
    ∃ w, s.pushing w = none ∧ (s.network.worker w).chainOf i = some () := by
  unfold serverCall at h
  split at h
  · cases h
  · cases a with
    | worker w ok recvBuf =>
      refine ⟨w, ?_⟩
      simp only at h
      cases hw : s.pushing w with
      | some j =>
        rw [hw] at h
        cases h
      | none =>
        rw [hw] at h
        refine ⟨rfl, ?_⟩
        obtain ⟨k, hk, e⟩ := Option.map_eq_some_iff.mp h
        unfold callback at hk
        split at hk
        · cases hk
          cases e
        · split at hk
          · obtain ⟨j, _, rfl⟩ := Option.map_eq_some_iff.mp hk
            cases e
          · cases hk
        · next req n hpc =>
          split at hk
          · next htype =>
            obtain ⟨j, hkey, rfl⟩ := Option.map_eq_some_iff.mp hk
            cases e
            have hop : req.op ≠ .send := by
              intro hop
              rw [hop] at htype
              exact (hs.sendType req.session).1 htype
            rw [hpc]
            show Network.chainOf i req = _
            rw [Network.chainOf, if_pos ⟨hop, (Network.key_eq_some.mp hkey).2⟩]
          · cases hk
        · cases hk
    | loop mem =>
      simp only at h
      split at h <;> cases h
    | _ => cases h

theorem Entered.not_mem (h : s.Entered) (hs : s.network.Sound) {i : SessionIdx}
    (hone : s.network.chains i ≤ 1) {a : Action W} {data : List UInt8}
    (ha : s.serverCall a = some (.onRecv i data)) : i ∉ s.server.storing := by
  intro hmem
  obtain ⟨w, hw, hchain⟩ := onRecv_spec hs ha
  have hpos := List.count_pos_iff.mpr hmem
  have hi := h.storing i
  -- somebody else is in `EnqueuePacket`
  have hex : ∃ w', s.pushing w' = some i := by
    by_contra hno
    have hzero : s.entered i = 0 := parties_eq_zero _ fun w' => by
      have hne : s.pushing w' ≠ some i := fun e => hno ⟨w', e⟩
      simp [mark, hne]
    omega
  obtain ⟨w', hw'⟩ := hex
  obtain rfl := Network.chains_apart hone hchain (h.chain hw')
  rw [hw] at hw'
  cases hw'

section
variable (redisGet : CStr → Option (List UInt8))
variable (heap : SessionIdx → Fin kDefaultRingBufferSize → UInt8)
  (userHeap : Session → Fin kDefaultRingBufferSize → UInt8) (clock : Network.Seconds)

/-- **Where each `AcceptEx` of a session finds nothing left of an earlier receive, one call of
`EnqueuePacket` of it at most has stored its bytes and not yet pushed the index, and none has when the
next one comes.** -/
theorem received_in_turn (as : List (Action W)) (i : SessionIdx)
    (hC : ∀ y ∈ networkHistory (hist (step redisGet) (start W heap userHeap clock) as), FindsNone i y.1 y.2) :
    ∀ x ∈ hist (step redisGet) (start W heap userHeap clock) as,
      x.1.server.storing.count i ≤ 1 ∧
        ∀ data, x.1.serverCall x.2 = some (.onRecv i data) → i ∉ x.1.server.storing := by
  intro x hx
  have hent := hist_entered redisGet heap userHeap clock as x hx
  obtain ⟨bs, cs, e, hx1⟩ := mem_hist _ hx
  have hs : x.1.network.Sound := by
    rw [hx1]
    exact run_network_sound redisGet heap userHeap clock bs
  have hone : x.1.network.chains i ≤ 1 := by
    rw [hx1, (run_network redisGet _ bs).1]
    refine Network.run_chains heap clock _ i fun y hy => ?_
    -- the run so far
    have hnet := (run_network redisGet (start W heap userHeap clock) bs).2
    refine hC y ?_
    rw [e, hist_append, networkHistory, List.filterMap_append]
    exact List.mem_append_left _ (by rw [← networkHistory, ← hnet]; exact hy)
  exact ⟨hent.count_le hone, fun data ha => hent.not_mem hs hone ha⟩

end

/-- worker 0 accepts a client; while it finishes, worker 1 is in `OnRecv` with a login request -/
def comesIn : List (Action 2) :=
  [.tick 6] ++ List.replicate 9 (.accepter true) ++ [.complete 0 true 0]
    ++ List.replicate 12 (.worker 0 true fun _ => 0) ++ [.complete 0 true 71]
    ++ List.replicate 4 (.worker 1 true fun k => (loginPacket [65] [66]).getD k 0)
    ++ List.replicate 2 (.worker 0 true fun _ => 0) ++ List.replicate 4 (.worker 1 true fun _ => 0)

theorem received_in_turn_comesIn :
    (∀ y ∈ networkHistory (hist (step fun _ => none) (start 2 (fun _ _ => 0) (fun _ _ => 0) 0) comesIn),
        FindsNone 0 y.1 y.2) ∧
      ∀ x ∈ hist (step fun _ => none) (start 2 (fun _ _ => 0) (fun _ _ => 0) 0) comesIn,
        x.1.server.storing.count 0 ≤ 1 ∧
          ∀ data, x.1.serverCall x.2 = some (.onRecv 0 data) → 0 ∉ x.1.server.storing := by
  have hnone : ∀ y ∈ networkHistory (hist (step fun _ => none)
      (start 2 (fun _ _ => 0) (fun _ _ => 0) 0) comesIn), FindsNone 0 y.1 y.2 := by
    decide +kernel
  exact ⟨hnone, received_in_turn (fun _ => none) (fun _ _ => 0) (fun _ _ => 0) 0 comesIn 0 hnone⟩

end ChatServer

end Iocp
