import IocpChatting.Redis.Client

/-!
# Who owns what in the Redis client

`Sound` holds after every run (`run_sound`): the lock is held by the threads that are in their critical
sections, the pools are in order, a caller that is served has a live server, and a connection that a caller
holds is live, in no queue, and held by no other.  Only the thread of `operator()` and the destructor delete
anything, and neither does so while a caller is served.
-/

set_option linter.unusedSectionVars false
set_option autoImplicit false

namespace Iocp.Redis
open Runs

/-! ## critical sections -/

namespace At

/-- the caller has its share of the lock -/
def reads : At → Bool
  | pick | fetch _ _ | request _ _ | giveBack _ _ _ | unlock _ | notify _ | unlockNotify _ => true
  | _ => false

def serves : At → Option Nat
  | fetch sv _ => some sv
  | request sv _ => some sv
  | giveBack sv _ _ => some sv
  | _ => none

def holds : At → Option (Nat × Nat)
  | request sv c => some (sv, c)
  | giveBack sv c _ => some (sv, c)
  | _ => none

theorem reads_of_serves {p : At} {sv : Nat} (h : p.serves = some sv) : p.reads = true := by
  cases p <;> first | rfl | cases h

theorem serves_of_holds {p : At} {sv c : Nat} (h : p.holds = some (sv, c)) : p.serves = some sv := by
  cases p <;> first | cases h; rfl | cases h

theorem not_reads_of_resting {p : At} (h : CRedisClient.resting p = true) : p.reads = false := by
  cases p <;> first | rfl | cases h

end At

/-- the thread has the lock for itself -/
def RefreshPc.writes : RefreshPc → Bool
  | test | reload | store _ | unlock => true
  | _ => false

def DestroyPc.writes : DestroyPc → Bool
  | notify | unlock => true
  | _ => false

namespace CRedisClient

variable {n : Nat}

def writes (s : CRedisClient n) : Thread → Prop
  | .refresh => s.refresh.writes = true
  | .destroy => s.destroy.writes = true

def reading (s : CRedisClient n) (i : Fin n) : Prop := (s.callers i).place.reads = true

/-! ## the invariant -/

structure Sound (s : CRedisClient n) : Prop where
  tracked : s.rwLock.Tracks s.writes s.reading
  pooled : Pooled s.cluster.heap s.cluster.vecRedisServ
  slots : ∀ r ∈ s.cluster.vecSlot, ∀ sv, r.pRedisServ = some sv → sv ∈ s.cluster.vecRedisServ
  served : ∀ i sv, (s.callers i).place.serves = some sv → sv ∈ s.cluster.vecRedisServ
  held : ∀ i sv c, (s.callers i).place.holds = some (sv, c) →
    Owned s.cluster.heap sv c ∧ c ∉ s.cluster.heap.idle sv
  apart : ∀ i j sv sv' c, (s.callers i).place.holds = some (sv, c) →
    (s.callers j).place.holds = some (sv', c) → i = j
  resting : s.destroy ≠ .alive → ∀ i, resting (s.callers i).place = true
  ended : s.destroy = .clean ∨ s.destroy = .done → s.refresh = .none ∨ s.refresh = .done

/-- what a step of the caller `i` leaves alone -/
structure CallerOnly (s s' : CRedisClient n) (i : Fin n) : Prop where
  callers : ∀ j, j ≠ i → s'.callers j = s.callers j
  vecRedisServ : s'.cluster.vecRedisServ = s.cluster.vecRedisServ
  vecSlot : s'.cluster.vecSlot = s.cluster.vecSlot
  destroy : s'.destroy = s.destroy
  refresh : s'.refresh = s.refresh ∨ s.refresh = .waiting ∧ s'.refresh = .relock

namespace Sound

variable {s s' : CRedisClient n}

theorem alive (hs : Sound s) {i : Fin n} (hi : CRedisClient.resting (s.callers i).place = false) :
    s.destroy = .alive := by
  by_contra hd
  rw [hs.resting hd i] at hi
  exact Bool.false_ne_true hi.symm

theorem writes_eq {i : Fin n} (ho : CallerOnly s s' i) (o : Thread) : s'.writes o ↔ s.writes o := by
  cases o with
  | refresh =>
    rcases ho.refresh with h | ⟨h, h'⟩
    · simp only [writes, h]
    · simp [writes, h, h', RefreshPc.writes]
  | destroy => simp only [writes, ho.destroy]

/-- the caller `i` moves, where the lock, the pools and the connections in hand are still in order -/
theorem move (hs : Sound s) {i : Fin n} (ho : CallerOnly s s' i) (halive : s.destroy = .alive)
    (htr : s'.rwLock.Tracks s.writes s'.reading)
    (hp : Pooled s'.cluster.heap s.cluster.vecRedisServ)
    (hserves : ∀ sv, (s'.callers i).place.serves = some sv → sv ∈ s.cluster.vecRedisServ)
    (hholds : ∀ sv c, (s'.callers i).place.holds = some (sv, c) →
      (Owned s'.cluster.heap sv c ∧ c ∉ s'.cluster.heap.idle sv) ∧
        ∀ j sv', j ≠ i → (s.callers j).place.holds ≠ some (sv', c))
    (hkeep : ∀ j sv c, j ≠ i → (s.callers j).place.holds = some (sv, c) →
      Owned s'.cluster.heap sv c ∧ c ∉ s'.cluster.heap.idle sv) : Sound s' where
  tracked := htr.congr (writes_eq ho) fun _ => Iff.rfl
  pooled := by
    rw [ho.vecRedisServ]
    exact hp
  slots := by
    rw [ho.vecRedisServ, ho.vecSlot]
    exact hs.slots
  served j sv hj := by
    rw [ho.vecRedisServ]
    by_cases e : j = i
    · subst e
      exact hserves sv hj
    · rw [ho.callers j e] at hj
      exact hs.served j sv hj
  held j sv c hj := by
    by_cases e : j = i
    · subst e
      exact (hholds sv c hj).1
    · rw [ho.callers j e] at hj
      exact hkeep j sv c e hj
  apart j k sv sv' c hj hk := by
    by_cases ej : j = i
    · by_cases ek : k = i
      · exact ej.trans ek.symm
      · subst ej
        rw [ho.callers k ek] at hk
        exact absurd hk ((hholds sv c hj).2 k sv' ek)
    · by_cases ek : k = i
      · subst ek
        rw [ho.callers j ej] at hj
        exact absurd hj ((hholds sv' c hk).2 j sv ej)
      · rw [ho.callers j ej] at hj
        rw [ho.callers k ek] at hk
        exact hs.apart j k sv sv' c hj hk
  resting hd := absurd (ho.destroy.trans halive) hd
  ended hd := by
    rw [ho.destroy, halive] at hd
    rcases hd with hd | hd <;> cases hd

/-- no connection changes hands, and the pools stay as they are -/
theorem walk (hs : Sound s) {i : Fin n} (ho : CallerOnly s s' i) (halive : s.destroy = .alive)
    (hheap : s'.cluster.heap = s.cluster.heap) (htr : s'.rwLock.Tracks s.writes s'.reading)
    (hserves : ∀ sv, (s'.callers i).place.serves = some sv → sv ∈ s.cluster.vecRedisServ)
    (hholds : (s'.callers i).place.holds = none) : Sound s' := by
  refine hs.move ho halive htr (by rw [hheap]; exact hs.pooled) hserves (fun sv c hc => ?_)
    fun j sv c _ hj => ?_
  · rw [hholds] at hc
    cases hc
  · rw [hheap]
    exact hs.held j sv c hj

end Sound

/-! ## the caller's place -/

@[simp] theorem setCaller_self (s : CRedisClient n) (i : Fin n) (x : Caller) :
    (s.setCaller i x).callers i = x := Function.update_self _ _ _

theorem setCaller_only (s : CRedisClient n) (i : Fin n) (x : Caller) : CallerOnly s (s.setCaller i x) i :=
  ⟨fun _ hj => Function.update_of_ne hj _ _, rfl, rfl, rfl, Or.inl rfl⟩

theorem goto_only (s : CRedisClient n) (i : Fin n) (place : At) : CallerOnly s (s.goto i place) i :=
  setCaller_only s i _

@[simp] theorem goto_place (s : CRedisClient n) (i : Fin n) (place : At) :
    ((s.goto i place).callers i).place = place := by
  unfold goto
  rw [setCaller_self]

/-- who reads after the caller `i` moved to `x` -/
theorem reading_setCaller (s : CRedisClient n) (i j : Fin n) (x : Caller) :
    (s.setCaller i x).reading j ↔ if j = i then x.place.reads = true else s.reading j := by
  unfold reading
  by_cases e : j = i
  · subst e
    simp
  · rw [if_neg e, (setCaller_only s i x).callers j e]

namespace Sound

variable {s : CRedisClient n}

/-! ## the lock after a move -/

theorem stay (hs : Sound s) {i : Fin n} {x : Caller} (hx : x.place.reads = (s.callers i).place.reads) :
    s.rwLock.Tracks s.writes (s.setCaller i x).reading := by
  refine hs.tracked.congr (fun _ => Iff.rfl) fun j => ?_
  rw [reading_setCaller]
  split
  · rename_i e
    rw [e, hx]
    rfl
  · rfl

theorem enter (hs : Sound s) {i : Fin n} {x : Caller} (hx : x.place.reads = true)
    {l : SharedLock Thread (Fin n)} (hl : s.rwLock.lockShared i = some l) :
    l.Tracks s.writes (s.setCaller i x).reading := by
  refine (hs.tracked.lockShared hl).2.congr (fun _ => Iff.rfl) fun j => ?_
  rw [reading_setCaller, hx]
  split <;> rename_i e <;> simp [e]

theorem leave (hs : Sound s) {i : Fin n} {x : Caller} (hx : x.place.reads = false) :
    (s.rwLock.unlockShared i).Tracks s.writes (s.setCaller i x).reading := by
  refine (hs.tracked.unlockShared i).congr (fun _ => Iff.rfl) fun j => ?_
  rw [reading_setCaller, hx]
  split <;> rename_i e <;> simp [e]

/-! ## the steps of a caller -/

/-- the caller goes on, inside its critical section or outside -/
theorem goto (hs : Sound s) {i : Fin n} (hi : CRedisClient.resting (s.callers i).place = false) {place : At}
    (hr : place.reads = (s.callers i).place.reads)
    (hserves : ∀ sv, place.serves = some sv → sv ∈ s.cluster.vecRedisServ) (hholds : place.holds = none) :
    Sound (s.goto i place) := by
  refine hs.walk (goto_only s i place) (hs.alive hi) rfl (hs.stay hr) ?_ ?_
  · rw [goto_place]
    exact hserves
  · rw [goto_place]
    exact hholds

/-- it takes its share of the lock -/
theorem goto_lock (hs : Sound s) {i : Fin n} (hi : CRedisClient.resting (s.callers i).place = false)
    {place : At} (hr : place.reads = true) (hserves : place.serves = none) (hholds : place.holds = none)
    {l : SharedLock Thread (Fin n)} (hl : s.rwLock.lockShared i = some l) :
    Sound { s.goto i place with rwLock := l } := by
  have ho := goto_only s i place
  refine hs.walk ⟨ho.callers, rfl, rfl, rfl, Or.inl rfl⟩ (hs.alive hi) rfl (hs.enter hr hl) ?_ ?_
  · intro sv hsv
    have hp : ((s.goto i place).callers i).place.serves = some sv := hsv
    rw [goto_place, hserves] at hp
    cases hp
  · exact (congrArg At.holds (goto_place s i place)).trans hholds

/-- it gives its share back -/
theorem goto_unlock (hs : Sound s) {i : Fin n} (hi : CRedisClient.resting (s.callers i).place = false)
    {place : At} (hr : place.reads = false) (hholds : place.holds = none) :
    Sound { s.goto i place with rwLock := s.rwLock.unlockShared i } := by
  have ho := goto_only s i place
  refine hs.walk ⟨ho.callers, rfl, rfl, rfl, Or.inl rfl⟩ (hs.alive hi) rfl (hs.leave hr) ?_ ?_
  · intro sv hsv
    have hp : ((s.goto i place).callers i).place.serves = some sv := hsv
    rw [goto_place] at hp
    rw [At.reads_of_serves hp] at hr
    cases hr
  · exact (congrArg At.holds (goto_place s i place)).trans hholds

/-- a connection is taken from the queue -/
theorem fetch (hs : Sound s) {i : Fin n} {sv nTry c : Nat} {rest : List Nat}
    (hp : (s.callers i).place = .fetch sv nTry) (hq : s.cluster.heap.idle sv = c :: rest) :
    Sound ((s.setHeap (s.cluster.heap.setIdle sv rest)).goto i (.request sv c)) := by
  have hsv : sv ∈ s.cluster.vecRedisServ := hs.served i sv (by rw [hp]; rfl)
  have hnd := hs.pooled.idleNodup sv hsv
  have hown := hs.pooled.idle sv hsv
  rw [hq] at hnd hown
  have ho : CallerOnly s ((s.setHeap (s.cluster.heap.setIdle sv rest)).goto i (.request sv c)) i :=
    ⟨(goto_only _ i _).callers, rfl, rfl, rfl, Or.inl rfl⟩
  have hplace : (((s.setHeap (s.cluster.heap.setIdle sv rest)).goto i (.request sv c)).callers i).place
      = .request sv c := goto_place _ _ _
  refine hs.move ho (hs.alive (by rw [hp]; rfl)) (hs.stay (by rw [hp]; rfl)) ?_ ?_ ?_ ?_
  · exact hs.pooled.setIdle (List.nodup_cons.mp hnd).2 fun c' hc' => hown c' (List.mem_cons_of_mem _ hc')
  · intro sv' hsv'
    rw [hplace] at hsv'
    exact Option.some.inj hsv' ▸ hsv
  · intro sv' c' hc'
    rw [hplace] at hc'
    obtain ⟨rfl, rfl⟩ := Prod.mk.inj (Option.some.inj hc')
    refine ⟨⟨(hown c List.mem_cons_self).setIdle sv rest, ?_⟩, fun j sv' hj hjc => ?_⟩
    · show c ∉ (s.cluster.heap.setIdle sv rest).idle sv
      rw [idle_setIdle]
      exact (List.nodup_cons.mp hnd).1
    · -- a connection in hand is not in a queue
      obtain ⟨ho', hni⟩ := hs.held j sv' c hjc
      rw [← ho'.server, (hown c List.mem_cons_self).server, hq] at hni
      exact hni List.mem_cons_self
  · intro j sv' c' hj hjc
    obtain ⟨ho', hni⟩ := hs.held j sv' c' hjc
    refine ⟨ho'.setIdle sv rest, fun hm => hni ?_⟩
    by_cases e : sv' = sv
    · subst e
      have hm' : c' ∈ (s.cluster.heap.setIdle sv' rest).idle sv' := hm
      rw [idle_setIdle] at hm'
      rw [hq]
      exact List.mem_cons_of_mem _ hm'
    · exact (Within.setIdle rest).idle sv' e ▸ hm

/-- the request itself -/
theorem request (W : World) (hs : Sound s) {i : Fin n} {sv c : Nat} (hp : (s.callers i).place = .request sv c) :
    Sound (s.callerStep W i false) := by
  have hheld := hs.held i sv c (by rw [hp]; rfl)
  have hsv : sv ∈ s.cluster.vecRedisServ := hs.served i sv (by rw [hp]; rfl)
  have hr := connRequest_requested W s.cluster.heap c (s.callers i).cmd
    (by rw [hheld.1.server]; exact (hs.pooled.live sv hsv).1)
  unfold callerStep
  rw [hp]
  simp only []
  generalize connRequest W s.cluster.heap c (s.callers i).cmd = r at hr
  obtain ⟨h, cmd, nRet⟩ := r
  have hkept : ∀ sv c, Owned s.cluster.heap sv c ∧ c ∉ s.cluster.heap.idle sv → Owned h sv c ∧ c ∉ h.idle sv :=
    fun sv c hc => ⟨hc.1.requested hr, by rw [hr.idle sv]; exact hc.2⟩
  refine hs.move ⟨(setCaller_only _ i _).callers, rfl, rfl, rfl, Or.inl rfl⟩ (hs.alive (by rw [hp]; rfl))
    (hs.stay (by rw [hp]; rfl)) (hs.pooled.requested hr) ?_ ?_ ?_
  · intro sv' hsv'
    rw [setCaller_self] at hsv'
    exact Option.some.inj hsv' ▸ hsv
  · intro sv' c' hc'
    rw [setCaller_self] at hc'
    obtain ⟨rfl, rfl⟩ := Prod.mk.inj (Option.some.inj hc')
    refine ⟨hkept sv c hheld, fun j sv' hj hjc => hj ?_⟩
    exact hs.apart j i sv' sv c hjc (by rw [hp]; rfl)
  · exact fun j sv' c' _ hjc => hkept sv' c' (hs.held j sv' c' hjc)

/-- the connection goes back to the end of the queue -/
theorem giveBack (hs : Sound s) {i : Fin n} {sv c : Nat} {nRet : Rc}
    (hp : (s.callers i).place = .giveBack sv c nRet) :
    Sound ((s.setHeap (returnConnection s.cluster.heap sv c)).goto i (.unlock nRet)) := by
  obtain ⟨hown, hni⟩ := hs.held i sv c (by rw [hp]; rfl)
  have hsv : sv ∈ s.cluster.vecRedisServ := hs.served i sv (by rw [hp]; rfl)
  have hplace : (((s.setHeap (returnConnection s.cluster.heap sv c)).goto i (.unlock nRet)).callers i).place
      = .unlock nRet := goto_place _ _ _
  refine hs.move ⟨(goto_only _ i _).callers, rfl, rfl, rfl, Or.inl rfl⟩ (hs.alive (by rw [hp]; rfl))
    (hs.stay (by rw [hp]; rfl)) ?_ ?_ ?_ ?_
  · refine hs.pooled.setIdle ?_ ?_
    · refine List.Nodup.append (hs.pooled.idleNodup sv hsv) (List.nodup_singleton _) fun c' hc' hc => ?_
      exact hni (List.mem_singleton.mp hc ▸ hc')
    · intro c' hc'
      rcases List.mem_append.mp hc' with hc' | hc'
      · exact hs.pooled.idle sv hsv c' hc'
      · exact List.mem_singleton.mp hc' ▸ hown
  · intro sv' hsv'
    rw [hplace] at hsv'
    cases hsv'
  · intro sv' c' hc'
    rw [hplace] at hc'
    cases hc'
  · intro j sv' c' hj hjc
    obtain ⟨ho', hni'⟩ := hs.held j sv' c' hjc
    refine ⟨ho'.setIdle sv _, fun hm => ?_⟩
    by_cases e : sv' = sv
    · subst e
      have hm' : c' ∈ (s.cluster.heap.setIdle sv' (s.cluster.heap.idle sv' ++ [c])).idle sv' := hm
      rw [idle_setIdle] at hm'
      rcases List.mem_append.mp hm' with hm' | hm'
      · exact hni' hm'
      · -- it would be the one that the caller `i` holds
        obtain rfl := List.mem_singleton.mp hm'
        exact hj (hs.apart j i sv' sv' c' hjc (by rw [hp]; rfl))
    · exact hni' ((Within.setIdle _).idle sv' e ▸ hm)

/-- `notify_all` only wakes the thread that waits -/
theorem notifyAll (hs : Sound s) : Sound s.notifyAll := by
  unfold CRedisClient.notifyAll
  split
  · rename_i hw
    refine ⟨hs.tracked.congr (fun o => ?_) fun _ => Iff.rfl, hs.pooled, hs.slots, hs.served, hs.held, hs.apart,
      hs.resting, fun hd => ?_⟩
    · cases o with
      | refresh => simp [writes, hw, RefreshPc.writes]
      | destroy => rfl
    · have := hs.ended hd
      rw [hw] at this
      rcases this with h | h <;> cases h
  · exact hs

theorem notifyAll_callers (s : CRedisClient n) : s.notifyAll.callers = s.callers := by
  unfold CRedisClient.notifyAll
  split <;> rfl

theorem findServer_mem {vecSlot : List SlotRegion} {nSlot : Int} {sv : Nat}
    (h : findServer vecSlot nSlot = some sv) : ∃ r ∈ vecSlot, r.pRedisServ = some sv := by
  unfold findServer at h
  simp only [] at h
  split at h
  · obtain ⟨r, hr, hsv⟩ := Option.bind_eq_some_iff.mp h
    exact ⟨r, List.mem_of_getElem? hr, hsv⟩
  · cases h

theorem getMatchedServer_mem (hs : Sound s) {cmd : CRedisCommand} {sv : Nat}
    (h : s.getMatchedServer cmd = some sv) : sv ∈ s.cluster.vecRedisServ := by
  unfold getMatchedServer at h
  split at h
  · exact List.mem_of_mem_head? h
  · split at h
    · obtain ⟨r, hr, hsv⟩ := findServer_mem h
      exact hs.slots r hr sv hsv
    · exact List.mem_of_find?_eq_some h

theorem callerStep (W : World) (hs : Sound s) (i : Fin n) (tryLock : Bool) :
    Sound (s.callerStep W i tryLock) := by
  cases hp : (s.callers i).place with
  | rest nRet =>
    have e : s.callerStep W i tryLock = s := by simp only [CRedisClient.callerStep, hp]
    rw [e]
    exact hs
  | check =>
    simp only [CRedisClient.callerStep, hp]
    split
    · exact hs.goto (by rw [hp]; rfl) (by rw [hp]; rfl) (fun sv hsv => by cases hsv) rfl
    · exact hs.goto (by rw [hp]; rfl) (by rw [hp]; rfl) (fun sv hsv => by cases hsv) rfl
  | lock =>
    simp only [CRedisClient.callerStep, hp]
    split
    · rename_i l hl
      exact hs.goto_lock (by rw [hp]; rfl) rfl rfl rfl hl
    · exact hs
  | pick =>
    simp only [CRedisClient.callerStep, hp]
    split
    · split
      · rename_i sv hsv
        refine hs.goto (by rw [hp]; rfl) (by rw [hp]; rfl) (fun sv' hsv' => ?_) rfl
        exact Option.some.inj hsv' ▸ hs.getMatchedServer_mem hsv
      · exact hs.goto (by rw [hp]; rfl) (by rw [hp]; rfl) (fun sv hsv => by cases hsv) rfl
    · exact hs.goto (by rw [hp]; rfl) (by rw [hp]; rfl) (fun sv hsv => by cases hsv) rfl
  | fetch sv nTry =>
    cases nTry with
    | zero =>
      simp only [CRedisClient.callerStep, hp]
      exact hs.goto (by rw [hp]; rfl) (by rw [hp]; rfl) (fun sv hsv => by cases hsv) rfl
    | succ nTry =>
      simp only [CRedisClient.callerStep, hp, fetchConnection]
      cases hq : s.cluster.heap.idle sv with
      | nil =>
        refine hs.goto (by rw [hp]; rfl) (by rw [hp]; rfl) (fun sv' hsv' => ?_) rfl
        exact hs.served i sv' (by rw [hp]; exact hsv')
      | cons c rest => exact hs.fetch hp hq
  | request sv c =>
    have e : s.callerStep W i tryLock = s.callerStep W i false := by
      simp only [CRedisClient.callerStep, hp]
    rw [e]
    exact hs.request W hp
  | giveBack sv c nRet =>
    simp only [CRedisClient.callerStep, hp]
    exact hs.giveBack hp
  | unlock nRet =>
    simp only [CRedisClient.callerStep, hp]
    refine hs.goto_unlock (by rw [hp]; rfl) ?_ ?_ <;> split <;> rfl
  | tryLock nRet =>
    simp only [CRedisClient.callerStep, hp]
    split
    · rename_i l hl
      split at hl
      · exact hs.goto_lock (by rw [hp]; rfl) rfl rfl rfl hl
      · cases hl
    · exact hs.goto (by rw [hp]; rfl) (by rw [hp]; rfl) (fun sv hsv => by cases hsv) rfl
  | notify nRet =>
    simp only [CRedisClient.callerStep, hp]
    have hp' : (s.notifyAll.callers i).place = .notify nRet := by rw [notifyAll_callers, hp]
    exact hs.notifyAll.goto (by rw [hp']; rfl) (by rw [hp']; rfl) (fun sv hsv => by cases hsv) rfl
  | unlockNotify nRet =>
    simp only [CRedisClient.callerStep, hp]
    exact hs.goto_unlock (by rw [hp]; rfl) rfl rfl
  | wait nRet nRetry =>
    simp only [CRedisClient.callerStep, hp]
    split
    · exact hs.goto (by rw [hp]; rfl) (by rw [hp]; rfl) (fun sv hsv => by cases hsv) rfl
    · cases nRetry with
      | zero => exact hs.goto (by rw [hp]; rfl) (by rw [hp]; rfl) (fun sv hsv => by cases hsv) rfl
      | succ k => exact hs.goto (by rw [hp]; rfl) (by rw [hp]; rfl) (fun sv hsv => by cases hsv) rfl
  | waited nRet =>
    simp only [CRedisClient.callerStep, hp]
    split
    · refine hs.walk (setCaller_only s i _) (hs.alive (by rw [hp]; rfl)) rfl (hs.stay (by rw [hp]; rfl)) ?_ ?_
      · intro sv hsv
        rw [setCaller_self] at hsv
        cases hsv
      · rw [setCaller_self]
        rfl
    · exact hs.goto (by rw [hp]; rfl) (by rw [hp]; rfl) (fun sv hsv => by cases hsv) rfl

/-! ## the steps of the other threads -/

/-- nobody reads, and the callers stay where they are -/
theorem quiet {s' : CRedisClient n} (hno : ∀ i, ¬ s.reading i) (hcall : s'.callers = s.callers)
    (htr : s'.rwLock.Tracks s'.writes s.reading) (hp : Pooled s'.cluster.heap s'.cluster.vecRedisServ)
    (hslots : ∀ r ∈ s'.cluster.vecSlot, ∀ sv, r.pRedisServ = some sv → sv ∈ s'.cluster.vecRedisServ)
    (hrest : s'.destroy ≠ .alive → ∀ i, CRedisClient.resting (s.callers i).place = true)
    (hend : s'.destroy = .clean ∨ s'.destroy = .done → s'.refresh = .none ∨ s'.refresh = .done) : Sound s' := by
  have hserves : ∀ i sv, (s.callers i).place.serves ≠ some sv := fun i sv h => hno i (At.reads_of_serves h)
  refine ⟨htr.congr (fun _ => Iff.rfl) fun i => ?_, hp, hslots, fun i sv h => ?_, fun i sv c h => ?_,
    fun i j sv sv' c h _ => ?_, ?_, hend⟩
  · unfold reading
    rw [hcall]
  · rw [hcall] at h
    exact absurd h (hserves i sv)
  · rw [hcall] at h
    exact absurd (At.serves_of_holds h) (hserves i sv)
  · rw [hcall] at h
    exact absurd (At.serves_of_holds h) (hserves i sv)
  · rw [hcall]
    exact hrest

/-- the flags and the place of a thread that keeps the lock as it is -/
theorem flags (hs : Sound s) {s' : CRedisClient n} (hcall : s'.callers = s.callers)
    (hlock : s'.rwLock = s.rwLock) (hcl : s'.cluster = s.cluster) (hw : ∀ o, s'.writes o ↔ s.writes o)
    (hrest : s'.destroy ≠ .alive → ∀ i, CRedisClient.resting (s.callers i).place = true)
    (hend : s'.destroy = .clean ∨ s'.destroy = .done → s'.refresh = .none ∨ s'.refresh = .done) : Sound s' where
  tracked := by
    rw [hlock]
    refine hs.tracked.congr hw fun i => ?_
    unfold reading
    rw [hcall]
  pooled := by
    rw [hcl]
    exact hs.pooled
  slots := by
    rw [hcl]
    exact hs.slots
  served := by
    rw [hcall, hcl]
    exact hs.served
  held := by
    rw [hcall, hcl]
    exact hs.held
  apart := by
    rw [hcall]
    exact hs.apart
  resting := by
    rw [hcall]
    exact hrest
  ended := hend

/-- a thread takes the lock for itself, or gives it up -/
theorem relocked (hs : Sound s) {s' : CRedisClient n} (hcall : s'.callers = s.callers)
    (hcl : s'.cluster = s.cluster) (htr : s'.rwLock.Tracks s'.writes s.reading)
    (hrest : s'.destroy ≠ .alive → ∀ i, CRedisClient.resting (s.callers i).place = true)
    (hend : s'.destroy = .clean ∨ s'.destroy = .done → s'.refresh = .none ∨ s'.refresh = .done) : Sound s' := by
  refine ⟨htr.congr (fun _ => Iff.rfl) fun i => ?_, ?_, ?_, ?_, ?_, ?_, ?_, hend⟩
  · unfold reading
    rw [hcall]
  · rw [hcl]
    exact hs.pooled
  · rw [hcl]
    exact hs.slots
  · rw [hcall, hcl]
    exact hs.served
  · rw [hcall, hcl]
    exact hs.held
  · rw [hcall]
    exact hs.apart
  · rw [hcall]
    exact hrest

/-- the refreshing thread has not ended -/
theorem not_ended (hs : Sound s) (h1 : s.refresh ≠ .none) (h2 : s.refresh ≠ .done) :
    ¬ (s.destroy = .clean ∨ s.destroy = .done) := fun hd => by
  rcases hs.ended hd with h | h
  · exact h1 h
  · exact h2 h

theorem reload (W : World) (hs : Sound s) {cl : Cluster} {ok : Bool} (hr : s.reload W = some (cl, ok)) :
    Pooled cl.heap cl.vecRedisServ ∧
      ∀ r ∈ cl.vecSlot, ∀ sv, r.pRedisServ = some sv → sv ∈ cl.vecRedisServ := by
  unfold CRedisClient.reload at hr
  split at hr
  · have hl := hs.pooled.loadFrom W s.nConnNum s.cluster.vecRedisServ (fun _ h => h) rfl hr
    refine ⟨hl.pooled, fun r hrm sv hsv => ?_⟩
    cases hok : ok with
    | false =>
      obtain ⟨h1, h2, _⟩ := hl.failed hok
      rw [h2] at hrm
      rw [h1]
      exact hs.slots r hrm sv hsv
    | true =>
      obtain ⟨_, _, _, _, _, ht⟩ := hl.done hok
      obtain ⟨sv', hsv', he, _⟩ := ht.assigned r hrm
      rw [he] at hsv
      exact Option.some.inj hsv ▸ hsv'
  · split at hr
    · cases hr
    · rename_i sv rest hl
      have hsv : sv ∈ s.cluster.vecRedisServ := by
        rw [hl]
        exact List.mem_cons_self
      obtain ⟨rfl, rfl⟩ := Prod.mk.inj (Option.some.inj hr)
      exact ⟨(hs.pooled.initServer W hsv).1, hs.slots⟩

theorem writes_destroy (s : CRedisClient n) : s.writes .destroy ↔ s.destroy.writes = true := Iff.rfl
theorem writes_refresh (s : CRedisClient n) : s.writes .refresh ↔ s.refresh.writes = true := Iff.rfl

/-- the refreshing thread moves, and keeps the lock as it is -/
theorem goRefresh (hs : Sound s) {r : RefreshPc} (h1 : s.refresh ≠ .none) (h2 : s.refresh ≠ .done)
    (hw : r.writes = s.refresh.writes) (bValid : Bool) :
    Sound { s with refresh := r, bValid := bValid } := by
  refine hs.flags rfl rfl rfl (fun o => ?_) hs.resting fun hd => absurd hd (hs.not_ended h1 h2)
  cases o with
  | refresh => simp only [writes, hw]
  | destroy => rfl

theorem refreshLock (hs : Sound s) {r : RefreshPc} (h1 : s.refresh ≠ .none) (h2 : s.refresh ≠ .done)
    (hw : r.writes = true) {l : SharedLock Thread (Fin n)} (hl : s.rwLock.lock .refresh = some l) :
    Sound { s with rwLock := l, refresh := r } := by
  obtain ⟨hno, _, htr⟩ := hs.tracked.lock hl
  refine hs.relocked rfl rfl (htr.congr (fun o => ?_) fun _ => Iff.rfl) hs.resting
    fun hd => absurd hd (hs.not_ended h1 h2)
  cases o with
  | refresh => simp [writes, hw]
  | destroy =>
    have := hno .destroy
    simp only [writes] at this ⊢
    simp [this]

theorem refreshUnlock (hs : Sound s) {r : RefreshPc} (h1 : s.refresh ≠ .none) (h2 : s.refresh ≠ .done)
    (hwr : s.refresh.writes = true) (hw : r.writes = false) :
    Sound { s with rwLock := s.rwLock.unlock, refresh := r } := by
  refine hs.relocked rfl rfl (hs.tracked.unlock fun o ho => ?_) hs.resting
    fun hd => absurd hd (hs.not_ended h1 h2)
  cases o with
  | refresh =>
    rw [writes_refresh] at ho
    exact Bool.false_ne_true (hw.symm.trans ho)
  | destroy =>
    have hwr' : s.writes .refresh := hwr
    have hwd : s.writes .destroy := ho
    cases hs.tracked.alone hwr' hwd

theorem refreshStep (W : World) (hs : Sound s) : Sound (s.refreshStep W) := by
  cases hr : s.refresh with
  | none =>
    simp only [CRedisClient.refreshStep, hr]
    exact hs
  | done =>
    simp only [CRedisClient.refreshStep, hr]
    exact hs
  | waiting =>
    simp only [CRedisClient.refreshStep, hr]
    exact hs
  | check =>
    simp only [CRedisClient.refreshStep, hr]
    exact hs.goRefresh (by rw [hr]; decide) (by rw [hr]; decide) (by rw [hr]; split <;> rfl) s.bValid
  | lock =>
    simp only [CRedisClient.refreshStep, hr]
    split
    · rename_i l hl
      exact hs.refreshLock (by rw [hr]; decide) (by rw [hr]; decide) rfl hl
    · exact hs
  | test =>
    simp only [CRedisClient.refreshStep, hr]
    split
    · exact hs.refreshUnlock (by rw [hr]; decide) (by rw [hr]; decide) (by rw [hr]; rfl) rfl
    · exact hs.goRefresh (by rw [hr]; decide) (by rw [hr]; decide) (by rw [hr]; rfl) s.bValid
  | relock =>
    simp only [CRedisClient.refreshStep, hr]
    split
    · rename_i l hl
      exact hs.refreshLock (by rw [hr]; decide) (by rw [hr]; decide) rfl hl
    · exact hs
  | reload =>
    simp only [CRedisClient.refreshStep, hr]
    split
    · rename_i cl ok hl
      obtain ⟨hp, hslots⟩ := hs.reload W hl
      have hwr : s.writes .refresh := by
        rw [writes_refresh, hr]
        rfl
      refine quiet (fun i => hs.tracked.excludes hwr i) rfl (hs.tracked.congr (fun o => ?_) fun _ => Iff.rfl)
        hp hslots hs.resting fun hd => absurd hd (hs.not_ended (by rw [hr]; decide) (by rw [hr]; decide))
      cases o with
      | refresh => simp [writes, hr, RefreshPc.writes]
      | destroy => rfl
    · refine hs.flags rfl rfl rfl (fun o => ?_) hs.resting
        fun hd => absurd hd (hs.not_ended (by rw [hr]; decide) (by rw [hr]; decide))
      cases o with
      | refresh => simp [writes, hr]
      | destroy => rfl
  | store ok =>
    simp only [CRedisClient.refreshStep, hr]
    have hne : ∀ r, s.refresh = r → r = .store ok := fun r h => h.symm.trans hr
    exact hs.goRefresh (fun h => by cases hne _ h) (fun h => by cases hne _ h) (by rw [hr]; rfl) ok
  | unlock =>
    simp only [CRedisClient.refreshStep, hr]
    exact hs.refreshUnlock (by rw [hr]; decide) (by rw [hr]; decide) (by rw [hr]; rfl) rfl

/-- the destructor moves, and keeps the lock as it is -/
theorem goDestroy (hs : Sound s) {d : DestroyPc} (hw : d.writes = s.destroy.writes)
    (hd : s.destroy ≠ .alive) (hend : d = .clean ∨ d = .done → s.refresh = .none ∨ s.refresh = .done)
    (bValid bExit : Bool) : Sound { s with bValid := bValid, bExit := bExit, destroy := d } := by
  refine hs.flags rfl rfl rfl (fun o => ?_) (fun _ => hs.resting hd) hend
  cases o with
  | refresh => rfl
  | destroy => simp only [writes, hw]

theorem destroyLock (hs : Sound s) (hd : s.destroy ≠ .alive) {l : SharedLock Thread (Fin n)}
    (hl : s.rwLock.lock .destroy = some l) : Sound { s with rwLock := l, destroy := .notify } := by
  obtain ⟨hno, _, htr⟩ := hs.tracked.lock hl
  refine hs.relocked rfl rfl (htr.congr (fun o => ?_) fun _ => Iff.rfl) (fun _ => hs.resting hd)
    fun he => by rcases he with he | he <;> cases he
  cases o with
  | refresh =>
    have := hno .refresh
    simp only [writes] at this ⊢
    simp [this]
  | destroy => simp [writes, DestroyPc.writes]

theorem destroyUnlock (hs : Sound s) (hd : s.destroy = .unlock) :
    Sound { s with rwLock := s.rwLock.unlock, destroy := .join } := by
  refine hs.relocked rfl rfl (hs.tracked.unlock fun o ho => ?_) (fun _ => hs.resting (by rw [hd]; decide))
    fun he => by rcases he with he | he <;> cases he
  cases o with
  | refresh =>
    have hwr : s.writes .refresh := ho
    have hwd : s.writes .destroy := by
      rw [writes_destroy, hd]
      rfl
    cases hs.tracked.alone hwr hwd
  | destroy => cases ho

theorem destroyClean (hs : Sound s) (hd : s.destroy = .clean) :
    Sound { s with
      cluster := ⟨deleteServers s.cluster.heap s.cluster.vecRedisServ, [], []⟩
      destroy := .done } := by
  have hrest := hs.resting (by rw [hd]; decide)
  have hno : ∀ i, ¬ s.reading i := fun i hi => by
    unfold reading at hi
    rw [At.not_reads_of_resting (hrest i)] at hi
    cases hi
  refine quiet hno rfl (hs.tracked.congr (fun o => ?_) fun _ => Iff.rfl) ?_
    (fun r hr => absurd hr List.not_mem_nil) (fun _ => hrest) fun _ => hs.ended (Or.inl hd)
  · cases o with
    | refresh => rfl
    | destroy => simp [writes, hd, DestroyPc.writes]
  · have hp : Pooled s.cluster.heap (s.cluster.vecRedisServ ++ []) := by
      rw [List.append_nil]
      exact hs.pooled
    exact hp.deleteServers

theorem destroyStep (hs : Sound s) : Sound s.destroyStep := by
  cases hd : s.destroy with
  | alive =>
    simp only [CRedisClient.destroyStep, hd]
    split
    · rename_i hrest
      refine hs.flags rfl rfl rfl (fun o => ?_) (fun _ => hrest) fun he => by rcases he with he | he <;> cases he
      cases o with
      | refresh => rfl
      | destroy => simp [writes, hd, DestroyPc.writes]
    · exact hs
  | clearValid =>
    simp only [CRedisClient.destroyStep, hd]
    exact hs.goDestroy (by rw [hd]; rfl) (by rw [hd]; decide) (fun he => by rcases he with he | he <;> cases he)
      false s.bExit
  | setExit =>
    simp only [CRedisClient.destroyStep, hd]
    exact hs.goDestroy (by rw [hd]; rfl) (by rw [hd]; decide) (fun he => by rcases he with he | he <;> cases he)
      s.bValid true
  | lock =>
    simp only [CRedisClient.destroyStep, hd]
    split
    · rename_i l hl
      exact hs.destroyLock (by rw [hd]; decide) hl
    · exact hs
  | notify =>
    simp only [CRedisClient.destroyStep, hd]
    have hd' : s.notifyAll.destroy = .notify := by
      unfold CRedisClient.notifyAll
      split <;> exact hd
    exact hs.notifyAll.goDestroy (by rw [hd']; rfl) (by rw [hd']; decide)
      (fun he => by rcases he with he | he <;> cases he) s.notifyAll.bValid s.notifyAll.bExit
  | unlock =>
    simp only [CRedisClient.destroyStep, hd]
    exact hs.destroyUnlock hd
  | join =>
    simp only [CRedisClient.destroyStep, hd]
    split
    · rename_i hr
      exact hs.goDestroy (by rw [hd]; rfl) (by rw [hd]; decide) (fun _ => hr) s.bValid s.bExit
    · exact hs
  | clean =>
    simp only [CRedisClient.destroyStep, hd]
    exact hs.destroyClean hd
  | done =>
    simp only [CRedisClient.destroyStep, hd]
    exact hs

theorem step (W : World) (hs : Sound s) (a : Action n) : Sound (s.step W a) := by
  unfold CRedisClient.step
  split
  · exact hs
  · cases a with
    | call i cmd =>
      simp only []
      split
      · rename_i hc
        obtain ⟨halive, hrest⟩ := hc
        have hreads := At.not_reads_of_resting hrest
        refine hs.walk (setCaller_only s i _) halive rfl (hs.stay hreads.symm) ?_ ?_
        · intro sv hsv
          rw [setCaller_self] at hsv
          cases hsv
        · rw [setCaller_self]
          rfl
      · exact hs
    | caller i tryLock => exact hs.callerStep W i tryLock
    | refresh => exact hs.refreshStep W
    | spurious => exact hs.notifyAll
    | destroy => exact hs.destroyStep

/-! ## after `Initialize` -/

/-- nothing has happened but the pools' -/
theorem of_new (hcall : s.callers = (new : CRedisClient n).callers) (hlock : s.rwLock = SharedLock.free)
    (hr : s.refresh.writes = false) (hd : s.destroy = .alive)
    (hp : Pooled s.cluster.heap s.cluster.vecRedisServ)
    (hslots : ∀ r ∈ s.cluster.vecSlot, ∀ sv, r.pRedisServ = some sv → sv ∈ s.cluster.vecRedisServ) : Sound s := by
  have hplace : ∀ i, (s.callers i).place = .rest none := fun i => by rw [hcall]; rfl
  refine ⟨?_, hp, hslots, fun i sv h => ?_, fun i sv c h => ?_, fun i _ sv _ c h _ => ?_, fun h => absurd hd h,
    fun h => ?_⟩
  · rw [hlock]
    refine SharedLock.Tracks.free.congr (fun o => ?_) fun i => ?_
    · cases o with
      | refresh => simp [writes, hr]
      | destroy => simp [writes, hd, DestroyPc.writes]
    · simp [reading, hplace i, At.reads]
  · rw [hplace i] at h
    cases h
  · rw [hplace i] at h
    cases h
  · rw [hplace i] at h
    cases h
  · rw [hd] at h
    rcases h with h | h <;> cases h

end Sound

/-- what `Initialize` leaves: nothing to use, the servers of a cluster, or one server -/
inductive Begun (W : World) : CRedisClient n → Prop where
  | nothing (h : Heap) (nConnNum : Int) (crashed : Bool) : Pooled h [] →
      Begun W { new with cluster := ⟨h, [], []⟩, nConnNum := nConnNum, crashed := crashed }
  | cluster (h : Heap) (nConnNum : Int) (cl : Cluster) (ok : Bool) : Pooled h [0] →
      loadClusterSlots W nConnNum ⟨h, [0], []⟩ = some (cl, ok) →
      Begun W { new with
        cluster := cl
        nConnNum := nConnNum
        bCluster := true
        bValid := ok
        refresh := if ok then .check else .none }
  | single (h : Heap) (nConnNum : Int) : Pooled h [0] → h.idle 0 ≠ [] →
      Begun W { new with cluster := ⟨h, [0], []⟩, nConnNum := nConnNum, refresh := .check }

theorem initFrom_begun (W : World) (nConnNum : Int) {s' : CRedisClient n} {h : Heap} (hp : Pooled h [0])
    (hidle : h.idle 0 ≠ []) (hs' : initFrom W { new with nConnNum := nConnNum } h = some s') : Begun W s' := by
  obtain ⟨hp1, _, hi1⟩ := hp.servRequest W (List.mem_singleton_self 0) info
  unfold initFrom at hs'
  generalize servRequest W h 0 info = q at hs' hp1 hi1
  obtain ⟨h1, cmd, nRet⟩ := q
  have hfail : Begun W (setHeap { new with nConnNum := nConnNum } h1 : CRedisClient n) :=
    .nothing h1 nConnNum false (hp1.sublist (List.nil_sublist _))
  simp only [] at hs'
  split at hs'
  · exact Option.some.inj hs' ▸ hfail
  · split at hs'
    · exact Option.some.inj hs' ▸ hfail
    · rename_i strVal _
      split at hs'
      · rename_i hc
        obtain ⟨r, hload, rfl⟩ := Option.map_eq_some_iff.mp hs'
        rw [show decide (atoi strVal ≠ 0) = true from hc]
        exact .cluster h1 nConnNum r.1 r.2 hp1 hload
      · rename_i hc
        obtain rfl := Option.some.inj hs'
        rw [loadSlaveInfo_eq, show decide (atoi strVal ≠ 0) = false from Bool.eq_false_iff.mpr hc]
        refine .single _ nConnNum (hp1.addHosts 0 _) ?_
        rw [Pooled.idle_addHosts]
        exact fun e => hidle (hi1.mp e)

theorem start_begun (W : World) (strHost : Str) (nPort nTimeout nConnNum : Int) :
    Begun W (start W strHost nPort nTimeout nConnNum : CRedisClient n) := by
  unfold start
  cases hi : (initClient W strHost nPort nTimeout nConnNum : Option (CRedisClient n)) with
  | none => exact .nothing Heap.empty (-1) true Pooled.empty
  | some s' =>
    show Begun W s'
    unfold initClient at hi
    simp only [] at hi
    generalize hostPort strHost nPort = addr at hi
    split at hi
    · exact Option.some.inj hi ▸ .nothing Heap.empty nConnNum false Pooled.empty
    · obtain ⟨hp, _⟩ := Pooled.empty.newServer W addr.1 addr.2 nConnNum
      split at hi
      · rename_i hv
        refine initFrom_begun W nConnNum hp (fun e => ?_) hi
        unfold isValid at hv
        rw [e] at hv
        cases hv
      · exact Option.some.inj hi ▸ .nothing _ nConnNum false (hp.sublist (List.nil_sublist _))

theorem Begun.sound {W : World} {s : CRedisClient n} (hb : Begun W s) : Sound s := by
  cases hb with
  | nothing h nConnNum crashed hp => exact Sound.of_new rfl rfl rfl rfl hp fun x hx => absurd hx List.not_mem_nil
  | cluster h nConnNum cl ok hp hload =>
    have hl := hp.loadFrom W nConnNum [0] (fun _ h => h) rfl hload
    refine Sound.of_new rfl rfl (by simp only []; split <;> rfl) rfl hl.pooled ?_
    intro x hx sv hsv
    cases hok : ok with
    | false =>
      have hx' : x ∈ cl.vecSlot := hx
      rw [(hl.failed hok).2.1] at hx'
      exact absurd hx' List.not_mem_nil
    | true =>
      obtain ⟨_, _, _, _, _, ht⟩ := hl.done hok
      obtain ⟨sv', hsv', he, _⟩ := ht.assigned x hx
      rw [he] at hsv
      exact Option.some.inj hsv ▸ hsv'
  | single h nConnNum hp _ => exact Sound.of_new rfl rfl rfl rfl hp fun x hx => absurd hx List.not_mem_nil

theorem Begun.callers {W : World} {s : CRedisClient n} (hb : Begun W s) (i : Fin n) :
    (s.callers i).place = .rest none := by
  cases hb <;> rfl

theorem start_sound (W : World) (strHost : Str) (nPort nTimeout nConnNum : Int) :
    Sound (start W strHost nPort nTimeout nConnNum : CRedisClient n) :=
  (start_begun W strHost nPort nTimeout nConnNum).sound

theorem run_sound (W : World) (strHost : Str) (nPort nTimeout nConnNum : Int) (as : List (Action n)) :
    Sound (run (step W) (start W strHost nPort nTimeout nConnNum) as) :=
  run_keeps_all (step W) (fun _ a hs => hs.step W a) (start_sound W strHost nPort nTimeout nConnNum) as

/-- how the connections and servers are used and deleted -/
structure Exclusive (s : CRedisClient n) : Prop where
  server : ∀ i sv c, (s.callers i).place.holds = some (sv, c) →
    sv ∈ s.cluster.vecRedisServ ∧ sv ∉ s.cluster.heap.deletedServs
  connection : ∀ i sv c, (s.callers i).place.holds = some (sv, c) →
    (s.cluster.heap.conns c).server = sv ∧ c ∉ s.cluster.heap.deletedConns
  queues : ∀ i sv c, (s.callers i).place.holds = some (sv, c) →
    ∀ sv' ∈ s.cluster.vecRedisServ, c ∉ s.cluster.heap.idle sv'
  hands : ∀ i j sv sv' c, (s.callers i).place.holds = some (sv, c) →
    (s.callers j).place.holds = some (sv', c) → i = j
  deletedConns : s.cluster.heap.deletedConns.Nodup
  deletedServs : s.cluster.heap.deletedServs.Nodup

/-- **A connection has one user at a time, and is not deleted in use.**  In any order of the statements of
the callers, of `operator()` and of the destructor, the connection in a caller's hand is one of its server's,
in no queue and in no other hand; neither it nor the server is deleted, and nothing is deleted twice. -/
theorem exclusive_run (W : World) (strHost : Str) (nPort nTimeout nConnNum : Int) (as : List (Action n)) :
    Exclusive (run (step W) (start W strHost nPort nTimeout nConnNum) as) := by
  have hs := run_sound W strHost nPort nTimeout nConnNum as
  generalize run (step W) (start W strHost nPort nTimeout nConnNum) as = s at hs
  have hlisted : ∀ i sv c, (s.callers i).place.holds = some (sv, c) → sv ∈ s.cluster.vecRedisServ :=
    fun i sv c h => hs.served i sv (At.serves_of_holds h)
  refine ⟨fun i sv c h => ⟨hlisted i sv c h, (hs.pooled.live sv (hlisted i sv c h)).2⟩, fun i sv c h => ?_,
    fun i sv c h sv' hsv' hq => ?_, hs.apart, hs.pooled.deletedConns.1, hs.pooled.deletedServs.1⟩
  · have hown := (hs.held i sv c h).1
    exact ⟨hown.server, hown.live⟩
  · -- the queue is that of its own server
    obtain ⟨hown, hni⟩ := hs.held i sv c h
    have he : sv' = sv := (hs.pooled.idle sv' hsv' c hq).server.symm.trans hown.server
    exact hni (he ▸ hq)

end CRedisClient

end Iocp.Redis
