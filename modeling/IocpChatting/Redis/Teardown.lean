import IocpChatting.Redis.Calls

/-!
# The end of the Redis client

The destructor clears `m_bValid`, sets `m_bExit`, notifies the refreshing thread and joins it.  The thread
takes `m_bValid` for the news that there is nothing to do, and waits; a load that succeeds between the two
stores of the destructor sets it again (`Overwrites`).

* `Stopping`     without that, the thread is not left waiting once it was notified;
* `joined_run`   it ends after a few more of its steps, and the join with it;
* `hung_run`     where the thread waits and the destructor waits for it, nothing moves any more.
-/

set_option linter.unusedSectionVars false
set_option autoImplicit false

namespace Iocp.Redis
open Runs

/-- the destructor has set `m_bExit` -/
def DestroyPc.told : DestroyPc → Bool
  | lock | notify | unlock | join | clean | done => true
  | _ => false

/-- it has notified -/
def DestroyPc.woken : DestroyPc → Bool
  | unlock | join | clean | done => true
  | _ => false

/-- the thread has looked at `m_bExit`, and has not looked at `m_bValid` -/
def RefreshPc.late : RefreshPc → Bool
  | lock | test => true
  | _ => false

/-- the destructor waits for the thread, or has waited -/
def DestroyPc.joins : DestroyPc → Bool
  | join | clean | done => true
  | _ => false

/-- the steps that the thread still takes once it is told to end -/
def RefreshPc.left : RefreshPc → Nat
  | none | done => 0
  | check => 1
  | unlock => 2
  | store _ => 3
  | reload => 4
  | relock | test => 5
  | lock | waiting => 6

theorem told_of_woken {d : DestroyPc} (h : d.woken = true) : d.told = true := by
  cases d <;> first | rfl | cases h

namespace CRedisClient

variable {n : Nat}

/-- a load's success is stored between the two stores of the destructor -/
def Overwrites (s : CRedisClient n) : Action n → Prop
  | .refresh => s.destroy = .setExit ∧ s.refresh = .store true
  | _ => False

theorem notifyAll_refresh (s : CRedisClient n) : s.notifyAll.refresh ≠ .waiting := by
  unfold notifyAll
  split
  · exact (fun h => by cases h)
  · assumption

instance (s : CRedisClient n) (a : Action n) : Decidable (Overwrites s a) := by
  cases a <;> unfold Overwrites <;> infer_instance

def Action.isRefresh : Action n → Bool
  | .refresh => true
  | _ => false

def Action.isSpurious : Action n → Bool
  | .spurious => true
  | _ => false

structure Stopping (s : CRedisClient n) : Prop where
  cleared : s.destroy = .setExit → s.bValid = false
  exit : s.destroy.told = true → s.bExit = true
  late : s.destroy.told = true → s.refresh.late = true → s.bValid = false
  woken : s.destroy.woken = true → s.refresh ≠ .waiting

namespace Stopping

variable {s s' : CRedisClient n}

/-- a step that changes neither the destructor nor the flags, and takes the thread nowhere new -/
theorem of_same (hs : Stopping s) (hd : s'.destroy = s.destroy) (hv : s'.bValid = s.bValid)
    (he : s'.bExit = s.bExit) (hr : s'.refresh = s.refresh ∨ s.refresh = .waiting ∧ s'.refresh = .relock) :
    Stopping s' where
  cleared h := by
    rw [hv]
    exact hs.cleared (hd ▸ h)
  exit h := by
    rw [he]
    exact hs.exit (hd ▸ h)
  late h hl := by
    rw [hv]
    rcases hr with hr | ⟨_, hr⟩
    · exact hs.late (hd ▸ h) (hr ▸ hl)
    · rw [hr] at hl
      cases hl
  woken h hw := by
    rcases hr with hr | ⟨_, hr⟩
    · exact hs.woken (hd ▸ h) (hr ▸ hw)
    · rw [hr] at hw
      cases hw

/-- the thread moves to where nothing is asked of it -/
theorem go (hs : Stopping s) (hd : s'.destroy = s.destroy) (hv : s.destroy = .setExit → s'.bValid = false)
    (he : s'.bExit = s.bExit) (hl : s'.refresh.late = false) (hw : s'.refresh ≠ .waiting) : Stopping s' where
  cleared h := hv (hd ▸ h)
  exit h := by
    rw [he]
    exact hs.exit (hd ▸ h)
  late _ h := by
    rw [hl] at h
    cases h
  woken _ := hw

/-- the destructor has not come as far as `m_bExit` -/
theorem untold (hs : Stopping s) (he : s.bExit = false) : s.destroy.told ≠ true := by
  intro h
  rw [hs.exit h] at he
  cases he

theorem refreshStep (W : World) (hs : Stopping s) (ho : ¬ Overwrites s .refresh) : Stopping (s.refreshStep W) := by
  cases hr : s.refresh with
  | none =>
    simp only [CRedisClient.refreshStep, hr]
    exact hs
  | waiting =>
    simp only [CRedisClient.refreshStep, hr]
    exact hs
  | done =>
    simp only [CRedisClient.refreshStep, hr]
    exact hs
  | check =>
    simp only [CRedisClient.refreshStep, hr]
    cases he : s.bExit with
    | true => exact hs.go rfl hs.cleared he.symm rfl (fun h => by cases h)
    | false =>
      have hnot := hs.untold he
      exact ⟨hs.cleared, fun h => absurd h hnot, fun h => absurd h hnot, fun h => absurd (told_of_woken h) hnot⟩
  | lock =>
    simp only [CRedisClient.refreshStep, hr]
    split
    · exact ⟨hs.cleared, hs.exit, fun h _ => hs.late h (by rw [hr]; rfl), (fun _ h => by cases h)⟩
    · exact hs
  | test =>
    simp only [CRedisClient.refreshStep, hr]
    split
    · rename_i hv
      -- it does not wait where it was told to end
      have hnot : s.destroy.told ≠ true := fun h => by
        rw [hs.late h (by rw [hr]; rfl)] at hv
        cases hv
      exact ⟨hs.cleared, hs.exit, (fun _ h => by cases h), fun h => absurd (told_of_woken h) hnot⟩
    · exact hs.go rfl hs.cleared rfl rfl (fun h => by cases h)
  | relock =>
    simp only [CRedisClient.refreshStep, hr]
    split
    · exact hs.go rfl hs.cleared rfl rfl (fun h => by cases h)
    · exact hs
  | reload =>
    simp only [CRedisClient.refreshStep, hr]
    split
    · exact hs.go rfl hs.cleared rfl rfl (fun h => by cases h)
    · exact hs.go rfl hs.cleared rfl rfl (fun h => by cases h)
  | store ok =>
    simp only [CRedisClient.refreshStep, hr]
    refine hs.go rfl (fun hd => ?_) rfl rfl (fun h => by cases h)
    cases ok with
    | false => rfl
    | true => exact absurd ⟨hd, hr⟩ ho
  | unlock =>
    simp only [CRedisClient.refreshStep, hr]
    exact hs.go rfl hs.cleared rfl rfl (fun h => by cases h)

/-- the destructor goes on after it set `m_bExit` -/
theorem goDestroy (hs : Stopping s) (htold : s.destroy.told = true) (hd : s'.destroy ≠ .setExit)
    (hv : s'.bValid = s.bValid) (he : s'.bExit = s.bExit)
    (hr : s'.refresh = s.refresh ∨ s.refresh = .waiting ∧ s'.refresh = .relock)
    (hw : s'.destroy.woken = true → s'.refresh ≠ .waiting) : Stopping s' where
  cleared h := absurd h hd
  exit _ := by
    rw [he]
    exact hs.exit htold
  late _ hl := by
    rw [hv]
    rcases hr with hr | ⟨_, hr⟩
    · exact hs.late htold (hr ▸ hl)
    · rw [hr] at hl
      cases hl
  woken := hw

theorem destroyStep (hs : Stopping s) : Stopping s.destroyStep := by
  cases hd : s.destroy with
  | alive =>
    simp only [CRedisClient.destroyStep, hd]
    split
    · exact ⟨(fun h => by cases h), (fun h => by cases h), (fun h => by cases h), (fun h => by cases h)⟩
    · exact hs
  | clearValid =>
    simp only [CRedisClient.destroyStep, hd]
    exact ⟨fun _ => rfl, (fun h => by cases h), (fun h => by cases h), (fun h => by cases h)⟩
  | setExit =>
    simp only [CRedisClient.destroyStep, hd]
    exact ⟨(fun h => by cases h), fun _ => rfl, fun _ _ => hs.cleared hd, (fun h => by cases h)⟩
  | lock =>
    simp only [CRedisClient.destroyStep, hd]
    split
    · exact hs.goDestroy (by rw [hd]; rfl) (fun h => by cases h) rfl rfl (Or.inl rfl) (fun h => by cases h)
    · exact hs
  | notify =>
    obtain ⟨r, hr, he⟩ := notifyAll_eq s
    simp only [CRedisClient.destroyStep, hd]
    refine hs.goDestroy (by rw [hd]; rfl) (fun h => by cases h) (by rw [he]) (by rw [he]) ?_ fun _ => s.notifyAll_refresh
    rw [he]
    rcases hr with rfl | ⟨hw, rfl⟩
    · exact Or.inl rfl
    · exact Or.inr ⟨hw, rfl⟩
  | unlock =>
    simp only [CRedisClient.destroyStep, hd]
    exact hs.goDestroy (by rw [hd]; rfl) (fun h => by cases h) rfl rfl (Or.inl rfl) fun _ => hs.woken (by rw [hd]; rfl)
  | join =>
    simp only [CRedisClient.destroyStep, hd]
    split
    · exact hs.goDestroy (by rw [hd]; rfl) (fun h => by cases h) rfl rfl (Or.inl rfl)
        fun _ => hs.woken (by rw [hd]; rfl)
    · exact hs
  | clean =>
    simp only [CRedisClient.destroyStep, hd]
    exact hs.goDestroy (by rw [hd]; rfl) (fun h => by cases h) rfl rfl (Or.inl rfl) fun _ => hs.woken (by rw [hd]; rfl)
  | done =>
    simp only [CRedisClient.destroyStep, hd]
    exact hs

theorem step (W : World) (hs : Stopping s) (a : Action n) (ho : ¬ Overwrites s a) : Stopping (s.step W a) := by
  unfold CRedisClient.step
  split
  · exact hs
  · cases a with
    | call i cmd =>
      simp only []
      split
      · exact hs.of_same rfl rfl rfl (Or.inl rfl)
      · exact hs
    | caller i tryLock =>
      obtain ⟨x, h, _, hmv⟩ := callerStep_move W s i tryLock
      exact hs.of_same hmv.destroy hmv.bValid hmv.bExit hmv.refresh
    | refresh => exact hs.refreshStep W ho
    | spurious =>
      obtain ⟨r, hr, he⟩ := notifyAll_eq s
      simp only []
      rw [he]
      refine hs.of_same rfl rfl rfl ?_
      rcases hr with rfl | ⟨hw, rfl⟩
      · exact Or.inl rfl
      · exact Or.inr ⟨hw, rfl⟩
    | destroy => exact hs.destroyStep

end Stopping

theorem Begun.stopping {W : World} {s : CRedisClient n} (hb : Begun W s) : Stopping s := by
  cases hb <;> exact ⟨(fun h => by cases h), (fun h => by cases h), (fun h => by cases h), (fun h => by cases h)⟩

section
variable (W : World) (strHost : Str) (nPort nTimeout nConnNum : Int)

theorem run_stopping {as : List (Action n)}
    (hC : ∀ x ∈ hist (step W) (start W strHost nPort nTimeout nConnNum) as, ¬ Overwrites x.1 x.2) :
    Stopping (run (step W) (start W strHost nPort nTimeout nConnNum) as) :=
  run_keeps (step W) (fun _ a hs ho => hs.step W a ho) (start_begun W strHost nPort nTimeout nConnNum).stopping as hC

end

/-! ## the end of the thread -/

/-- the destructor waits for the thread, or has waited -/
structure Joining (s : CRedisClient n) : Prop where
  sound : Sound s
  joins : s.destroy.joins = true

theorem refreshStep_destroy (W : World) (s : CRedisClient n) : (s.refreshStep W).destroy = s.destroy := by
  unfold refreshStep
  split <;> first | rfl | (split <;> rfl)

namespace Joining

variable {s : CRedisClient n}

theorem not_alive (hj : Joining s) : s.destroy ≠ .alive := by
  intro h
  have hd := hj.joins
  rw [h] at hd
  cases hd

theorem woken (hj : Joining s) : s.destroy.woken = true := by
  have h := hj.joins
  revert h
  cases s.destroy <;> decide

/-- nobody but the thread takes the lock any more -/
theorem lock (hj : Joining s) (hw : s.refresh.writes = false) : ∃ l, s.rwLock.lock .refresh = some l := by
  refine hj.sound.tracked.lock_free (fun o ho => ?_) (fun i hi => ?_) .refresh
  · cases o with
    | refresh => exact Bool.false_ne_true (hw.symm.trans ho)
    | destroy =>
      have hd : s.destroy.writes = true := ho
      have h := hj.joins
      revert hd h
      cases s.destroy <;> decide
  · exact Bool.false_ne_true ((At.not_reads_of_resting (hj.sound.resting hj.not_alive i)).symm.trans hi)

/-- the callers are at rest, and stay there -/
theorem callerStep (hj : Joining s) (W : World) (i : Fin n) (tryLock : Bool) : s.callerStep W i tryLock = s := by
  have h := hj.sound.resting hj.not_alive i
  cases hp : (s.callers i).place with
  | rest nRet => simp only [CRedisClient.callerStep, hp]
  | _ =>
    rw [hp] at h
    cases h

/-- what the destructor still does -/
theorem destroyStep (hj : Joining s) : s.destroyStep.destroy.joins = true ∧
    s.destroyStep.refresh = s.refresh ∧ s.destroyStep.crashed = s.crashed := by
  have hj' := hj.joins
  cases hd : s.destroy with
  | join =>
    simp only [CRedisClient.destroyStep, hd]
    split
    · exact ⟨rfl, rfl, rfl⟩
    · exact ⟨hj', rfl, rfl⟩
  | clean => simp [CRedisClient.destroyStep, hd, DestroyPc.joins]
  | done => simp [CRedisClient.destroyStep, hd, DestroyPc.joins]
  | _ =>
    rw [hd] at hj'
    cases hj'

theorem step (hj : Joining s) (W : World) (a : Action n) : Joining (s.step W a) := by
  refine ⟨hj.sound.step W a, ?_⟩
  unfold CRedisClient.step
  split
  · exact hj.joins
  · cases a with
    | call i cmd =>
      simp only []
      rw [if_neg fun h => hj.not_alive h.1]
      exact hj.joins
    | caller i tryLock =>
      simp only []
      rw [hj.callerStep W i tryLock]
      exact hj.joins
    | refresh =>
      simp only []
      rw [refreshStep_destroy W s]
      exact hj.joins
    | spurious =>
      obtain ⟨r, _, he⟩ := notifyAll_eq s
      simp only []
      rw [he]
      exact hj.joins
    | destroy => exact hj.destroyStep.1

/-- nobody else moves the thread, unless it is still waiting -/
theorem other (hj : Joining s) (W : World) {a : Action n} (hr : a ≠ .refresh)
    (hsp : a = .spurious → s.refresh ≠ .waiting) :
    (s.step W a).refresh = s.refresh ∧ (s.step W a).crashed = s.crashed := by
  unfold CRedisClient.step
  split
  · exact ⟨rfl, rfl⟩
  · cases a with
    | call i cmd =>
      simp only []
      rw [if_neg fun h => hj.not_alive h.1]
      exact ⟨rfl, rfl⟩
    | caller i tryLock =>
      simp only []
      rw [hj.callerStep W i tryLock]
      exact ⟨rfl, rfl⟩
    | refresh => exact absurd rfl hr
    | spurious =>
      simp only [notifyAll]
      rw [if_neg (hsp rfl)]
      exact ⟨rfl, rfl⟩
    | destroy => exact hj.destroyStep.2

/-- the thread waits, and the destructor waits for it -/
theorem hung (hj : Joining s) (hd : s.destroy = .join) (hr : s.refresh = .waiting) (W : World) {a : Action n}
    (ha : a.isSpurious = false) : s.step W a = s := by
  unfold CRedisClient.step
  split
  · rfl
  · cases a with
    | call i cmd => exact if_neg fun h => hj.not_alive h.1
    | caller i tryLock => exact hj.callerStep W i tryLock
    | refresh => simp only [CRedisClient.refreshStep, hr]
    | spurious => cases ha
    | destroy => simp [CRedisClient.destroyStep, hd, hr]

end Joining

def rank (s : CRedisClient n) : Nat := if s.crashed then 0 else s.refresh.left

theorem rank_eq_zero {s : CRedisClient n} (h : s.rank = 0) : s.crashed = true ∨ s.refresh = .none ∨ s.refresh = .done := by
  unfold rank at h
  split at h
  · exact Or.inl ‹_›
  · revert h
    cases s.refresh <;> simp [RefreshPc.left]

/-- each step of the thread brings it nearer to its end -/
theorem rank_refresh (W : World) {s : CRedisClient n} (hj : Joining s) (hs : Stopping s) :
    (s.step W .refresh).rank ≤ s.rank - 1 := by
  have htold := told_of_woken hj.woken
  cases hcr : s.crashed with
  | true => simp [CRedisClient.step, hcr, rank]
  | false =>
    have hrank : s.rank = s.refresh.left := by simp [rank, hcr]
    have hstep : s.step W .refresh = s.refreshStep W := by simp [CRedisClient.step, hcr]
    rw [hrank, hstep]
    cases hr : s.refresh with
    | none => simp [refreshStep, rank, hr, RefreshPc.left]
    | done => simp [refreshStep, rank, hr, RefreshPc.left]
    | waiting => exact absurd hr (hs.woken hj.woken)
    | check => simp [refreshStep, rank, hr, RefreshPc.left, hs.exit htold]
    | lock =>
      obtain ⟨l, hl⟩ := hj.lock (by rw [hr]; rfl)
      simp [refreshStep, rank, hr, hl, hcr, RefreshPc.left]
    | test =>
      have hv := hs.late htold (by rw [hr]; rfl)
      simp [refreshStep, rank, hr, hv, hcr, RefreshPc.left]
    | relock =>
      obtain ⟨l, hl⟩ := hj.lock (by rw [hr]; rfl)
      simp [refreshStep, rank, hr, hl, hcr, RefreshPc.left]
    | reload =>
      cases hl : s.reload W with
      | none => simp [refreshStep, rank, hr, hl]
      | some q => simp [refreshStep, rank, hr, hl, hcr, RefreshPc.left]
    | store ok => simp [refreshStep, rank, hr, hcr, RefreshPc.left]
    | unlock => simp [refreshStep, rank, hr, hcr, RefreshPc.left]

section
variable (W : World) (strHost : Str) (nPort nTimeout nConnNum : Int)

/-- **The destructor's join comes to an end**, if no load that succeeds is stored between its two stores: six
steps of the thread later at most, it has left `operator()`, or read a null pointer. -/
theorem joined_run (as bs : List (Action n))
    (hC : ∀ x ∈ hist (step W) (start W strHost nPort nTimeout nConnNum) as, ¬ Overwrites x.1 x.2)
    (hd : (run (step W) (start W strHost nPort nTimeout nConnNum) as).destroy = .join)
    (hk : 6 ≤ bs.countP Action.isRefresh) :
    (run (step W) (start W strHost nPort nTimeout nConnNum) (as ++ bs)).crashed = true ∨
      (run (step W) (start W strHost nPort nTimeout nConnNum) (as ++ bs)).refresh = .none ∨
      (run (step W) (start W strHost nPort nTimeout nConnNum) (as ++ bs)).refresh = .done := by
  have hs := run_stopping W strHost nPort nTimeout nConnNum hC
  have hj : Joining (run (step W) (start W strHost nPort nTimeout nConnNum) as) :=
    ⟨run_sound W strHost nPort nTimeout nConnNum as, by rw [hd]; rfl⟩
  rw [run_append]
  generalize run (step W) (start W strHost nPort nTimeout nConnNum) as = s at hs hj
  have hrank : (run (step W) s bs).rank ≤ s.rank - bs.countP Action.isRefresh := by
    refine @run_rank _ _ (step W) (fun s => Joining s ∧ Stopping s) Action.isRefresh rank (fun s a h => ?_)
      (fun s a h ha => ?_) (fun s a h ha => ?_) s ⟨hj, hs⟩ bs
    · refine ⟨h.1.step W a, h.2.step W a fun ho => ?_⟩
      cases a with
      | refresh =>
        have hd := h.1.joins
        rw [ho.1] at hd
        cases hd
      | _ => exact ho
    · cases a with
      | refresh => exact rank_refresh W h.1 h.2
      | _ => cases ha
    · obtain ⟨h1, h2⟩ := h.1.other W (a := a) (fun e => by rw [e] at ha; cases ha) fun _ => h.2.woken h.1.woken
      unfold rank
      rw [h1, h2]
  have hle : s.rank ≤ 6 := by
    unfold rank
    split
    · exact Nat.zero_le 6
    · cases s.refresh <;> simp [RefreshPc.left]
  exact rank_eq_zero (by omega)

/-- **It does not come to an end where the thread waits already**: nothing but a wait that ends
without a notification moves anything any more. -/
theorem hung_run (as bs : List (Action n))
    (hd : (run (step W) (start W strHost nPort nTimeout nConnNum) as).destroy = .join)
    (hr : (run (step W) (start W strHost nPort nTimeout nConnNum) as).refresh = .waiting)
    (hsp : ∀ a ∈ bs, a.isSpurious = false) :
    run (step W) (start W strHost nPort nTimeout nConnNum) (as ++ bs)
      = run (step W) (start W strHost nPort nTimeout nConnNum) as := by
  have hj : Joining (run (step W) (start W strHost nPort nTimeout nConnNum) as) :=
    ⟨run_sound W strHost nPort nTimeout nConnNum as, by rw [hd]; rfl⟩
  rw [run_append]
  generalize run (step W) (start W strHost nPort nTimeout nConnNum) as = s at hd hr hj
  induction bs with
  | nil => rfl
  | cons a bs ih =>
    rw [run_cons, hj.hung hd hr W (hsp a List.mem_cons_self)]
    exact ih fun b hb => hsp b (List.mem_cons_of_mem a hb)

end

/-- one server, that answers `INFO` -/
def oneServer : World where
  connect := fun _ _ => true
  answer := fun _ _ args => if args = info.args then some (.string (clusterEnabled ++ [58, 48])) else some .nil
  time := fun _ => 0

/-- the thread waits when the destructor starts -/
def ended : List (Action 1) := List.replicate 3 .refresh ++ List.replicate 6 .destroy

theorem joined_ended :
    (run (step oneServer) (start oneServer [97] 7000 10 1) (ended ++ List.replicate 6 .refresh)).crashed = true ∨
      (run (step oneServer) (start oneServer [97] 7000 10 1) (ended ++ List.replicate 6 .refresh)).refresh = .none ∨
      (run (step oneServer) (start oneServer [97] 7000 10 1) (ended ++ List.replicate 6 .refresh)).refresh = .done :=
  joined_run oneServer [97] 7000 10 1 ended (List.replicate 6 .refresh) (by decide +kernel) (by decide +kernel)
    (by decide)

/-- a load is under way when the destructor starts, and succeeds between its two stores -/
def overtaken : List (Action 1) :=
  List.replicate 3 .refresh ++ [.spurious] ++ List.replicate 2 .refresh ++ List.replicate 2 .destroy ++
    List.replicate 3 .refresh ++ List.replicate 4 .destroy ++ List.replicate 2 .refresh

theorem hung_overtaken :
    run (step oneServer) (start oneServer [97] 7000 10 1) (overtaken ++ [.refresh, .destroy])
      = run (step oneServer) (start oneServer [97] 7000 10 1) overtaken :=
  hung_run oneServer [97] 7000 10 1 overtaken [.refresh, .destroy] (by decide +kernel) (by decide +kernel)
    (by decide)

end CRedisClient

end Iocp.Redis
