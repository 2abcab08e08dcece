import IocpChatting.Redis.Calls

/-!
# What the callers of the Redis client get

`Supplied` holds after every run: where the client is valid, a server whose queue is empty has a connection in
a caller's hand.

* `resource_run`   when no connection is left;
* `retry_run`      what is tried again, and what a call returns.
-/

set_option linter.unusedSectionVars false
set_option autoImplicit false

namespace Iocp.Redis
open Runs

namespace CRedisClient

variable {n : Nat}

/-! ## what a caller's step does to the queues -/

/-- what happens to the queues and in the caller's hand -/
inductive PoolMove (h h' : Heap) (p p' : At) : Prop where
  | same : (∀ sv, h'.idle sv = h.idle sv) → p'.holds = p.holds → PoolMove h h' p p'
  | take (sv c : Nat) (rest : List Nat) : h.idle sv = c :: rest → h' = h.setIdle sv rest →
      p.holds = none → p'.holds = some (sv, c) → PoolMove h h' p p'
  | give (sv c : Nat) : p.holds = some (sv, c) → h' = h.setIdle sv (h.idle sv ++ [c]) → p'.holds = none →
      PoolMove h h' p p'

theorem At.holds_of_waits {p : At} {nRet : Rc} (h : p.waits = some nRet) : p.holds = none := by
  cases p <;> first | rfl | cases h

theorem Move.pool {W : World} {s : CRedisClient n} (hs : Sound s) {i : Fin n} {x : Caller} {h : Heap}
    (hm : Move W s (s.callers i) x h) : PoolMove s.cluster.heap h (s.callers i).place x.place := by
  cases hm
  case stay => exact .same (fun _ => rfl) rfl
  case take sv nTry c rest hp hq => exact .take sv c rest hq rfl (by rw [hp]; rfl) rfl
  case ask sv c cmd nRet hp hr =>
    have hreq := hs.requested (W := W) hp
    rw [hr] at hreq
    exact .same hreq.idle (by rw [hp]; rfl)
  case giveBack sv c nRet hp => exact .give sv c (by rw [hp]; rfl) rfl rfl
  case await nRet place hw hw' _ =>
    exact .same (fun _ => rfl) ((At.holds_of_waits hw').trans (At.holds_of_waits hw).symm)
  case again nRet hw => exact .same (fun _ => rfl) (At.holds_of_waits hw).symm
  case fail nRet hw => exact .same (fun _ => rfl) (At.holds_of_waits hw).symm
  -- no connection changes hands
  all_goals
    refine .same (fun _ => rfl) ?_
    simp only [*]
    rfl

/-! ## connections for everybody -/

/-- the servers in the list are those of a load that succeeded -/
def Ready (s : CRedisClient n) : Prop :=
  (s.bValid = true ∧ ∀ ok, s.refresh ≠ .store ok) ∨ s.refresh = .store true

def Stocked (s : CRedisClient n) : Prop :=
  ∀ sv ∈ s.cluster.vecRedisServ, s.cluster.heap.idle sv = [] →
    ∃ i c, (s.callers i).place.holds = some (sv, c)

structure Supplied (s : CRedisClient n) : Prop where
  single : s.bCluster = false → s.cluster.vecRedisServ.length ≤ 1
  valid : ∀ i sv, (s.callers i).place.serves = some sv → s.bValid = true
  stock : Ready s → Stocked s

namespace Supplied

variable {s : CRedisClient n}

theorem callerStep (W : World) (hs : Sound s) (hu : Supplied s) (i : Fin n) (tryLock : Bool) :
    Supplied (s.callerStep W i tryLock) := by
  obtain ⟨x, h, hm, hmv⟩ := callerStep_move W s i tryLock
  generalize s.callerStep W i tryLock = s' at hmv
  have hself : s'.callers i = x := by rw [hmv.callers, Function.update_self]
  have hother : ∀ j, j ≠ i → s'.callers j = s.callers j := fun j hj => by
    rw [hmv.callers, Function.update_of_ne hj]
  have hready : Ready s' → Ready s := by
    unfold Ready
    rw [hmv.bValid]
    rcases hmv.refresh with e | ⟨e, e'⟩
    · rw [e]
      exact id
    · rw [e, e']
      rintro (⟨hv, _⟩ | hr)
      · exact Or.inl ⟨hv, fun ok h => by cases h⟩
      · cases hr
  refine ⟨?_, fun j sv hj => ?_, fun hr sv hsv hidle => ?_⟩
  · rw [hmv.bCluster, hmv.cluster]
    exact hu.single
  · rw [hmv.bValid]
    by_cases e : j = i
    · subst e
      rw [hself] at hj
      rcases hm.serves hj with hx | ⟨_, hv, _⟩
      · exact hu.valid j sv hx
      · exact hv
    · rw [hother j e] at hj
      exact hu.valid j sv hj
  · have hstock := hu.stock (hready hr)
    rw [hmv.cluster] at hsv hidle
    -- who held a connection of `sv` before, if its queue was empty then
    have hold : s.cluster.heap.idle sv = [] → (s.callers i).place.holds = x.place.holds ∨
        (∀ c, (s.callers i).place.holds ≠ some (sv, c)) → ∃ j c, (s'.callers j).place.holds = some (sv, c) := by
      intro hq hx
      obtain ⟨j, c, hj⟩ := hstock sv hsv hq
      by_cases e : j = i
      · subst e
        rcases hx with hx | hx
        · exact ⟨j, c, by rw [hself, ← hx]; exact hj⟩
        · exact absurd hj (hx c)
      · exact ⟨j, c, by rw [hother j e]; exact hj⟩
    cases hm.pool hs with
    | same hidle' hholds =>
      rw [hidle'] at hidle
      exact hold hidle (Or.inl hholds.symm)
    | take sv' c rest hq hh hx hy =>
      by_cases e : sv = sv'
      · subst e
        exact ⟨i, c, by rw [hself]; exact hy⟩
      · rw [hh, (Within.setIdle rest).idle sv e] at hidle
        refine hold hidle (Or.inr fun c' hc => ?_)
        rw [hx] at hc
        cases hc
    | give sv' c hx hh hy =>
      by_cases e : sv = sv'
      · subst e
        rw [hh, idle_setIdle] at hidle
        exact absurd hidle (List.append_ne_nil_of_right_ne_nil _ (List.cons_ne_nil c []))
      · rw [hh, (Within.setIdle _).idle sv e] at hidle
        refine hold hidle (Or.inr fun c' hc => e ?_)
        rw [hx] at hc
        exact (congrArg Prod.fst (Option.some.inj hc)).symm

theorem idle_of_isValid {h : Heap} {sv : Nat} (hv : isValid h sv = true) : h.idle sv ≠ [] := by
  intro he
  unfold isValid at hv
  rw [he] at hv
  cases hv

/-- a load that succeeds leaves each server a connection -/
theorem reload (W : World) (hs : Sound s) (hu : Supplied s) {cl : Cluster} {ok : Bool}
    (hr : s.reload W = some (cl, ok)) :
    (s.bCluster = false → cl.vecRedisServ.length ≤ 1) ∧
      (ok = true → ∀ sv ∈ cl.vecRedisServ, cl.heap.idle sv ≠ []) := by
  unfold CRedisClient.reload at hr
  split at hr
  · rename_i hc
    have hl := hs.pooled.loadFrom W s.nConnNum s.cluster.vecRedisServ (fun _ h => h) rfl hr
    refine ⟨fun h => ?_, fun hok sv hsv => ?_⟩
    · rw [hc] at h
      cases h
    · exact idle_of_isValid ((hl.done hok).1 sv hsv).1
  · rename_i hc
    split at hr
    · cases hr
    · rename_i sv rest hl
      have hlen := hu.single (Bool.eq_false_iff.mpr hc)
      rw [hl] at hlen
      obtain rfl : rest = [] := List.eq_nil_of_length_eq_zero (Nat.le_zero.mp (Nat.le_of_succ_le_succ hlen))
      obtain ⟨rfl, hok⟩ := Prod.mk.inj (Option.some.inj hr)
      refine ⟨fun _ => hu.single (Bool.eq_false_iff.mpr hc), fun he sv' hsv' => ?_⟩
      have hsv'' : sv' ∈ s.cluster.vecRedisServ := hsv'
      rw [hl, List.mem_singleton] at hsv''
      rw [hsv'']
      exact idle_of_isValid (hok.trans he)

theorem refreshStep (W : World) (hs : Sound s) (hu : Supplied s) : Supplied (s.refreshStep W) := by
  have hm := refreshStep_move W s
  generalize s.refreshStep W = s' at hm
  cases hm with
  | go r l crashed h1 h2 =>
    refine ⟨hu.single, hu.valid, fun hr => hu.stock ?_⟩
    rcases hr with ⟨hv, _⟩ | hr
    · exact Or.inl ⟨hv, h1⟩
    · exact absurd hr (h2 true)
  | load cl ok hr hl =>
    obtain ⟨h1, h2⟩ := reload W hs hu hl
    refine ⟨h1, hu.valid, fun hready sv hsv hidle => ?_⟩
    rcases hready with ⟨_, hne⟩ | he
    · exact absurd rfl (hne ok)
    · cases he
      exact absurd hidle (h2 rfl sv hsv)
  | store ok hr =>
    refine ⟨hu.single, fun i sv hi => ?_, fun hready => ?_⟩
    · -- the thread has the lock, so nobody is served
      have hwr : s.writes .refresh := by
        rw [Sound.writes_refresh, hr]
        rfl
      exact absurd (At.reads_of_serves hi) (hs.tracked.excludes hwr i)
    · rcases hready with ⟨hv, _⟩ | he
      · have hok : ok = true := hv
        subst hok
        exact hu.stock (Or.inr hr)
      · cases he

theorem destroyStep (hs : Sound s) (hu : Supplied s) : Supplied s.destroyStep := by
  have hm := destroyStep_move s
  generalize s.destroyStep = s' at hm
  cases hm with
  | go d r l v e hv hr =>
    refine ⟨hu.single, fun i sv hi => ?_, fun hready => hu.stock ?_⟩
    · rcases hv with rfl | ⟨hd, _⟩
      · exact hu.valid i sv hi
      · have hreads := At.reads_of_serves hi
        rw [At.not_reads_of_resting (hs.resting hd i)] at hreads
        cases hreads
    · rcases hready with ⟨hv', hne⟩ | he
      · rcases hv with rfl | ⟨_, rfl⟩
        · refine Or.inl ⟨hv', fun ok h => ?_⟩
          rcases hr with rfl | ⟨hw, rfl⟩
          · exact hne ok h
          · rw [hw] at h
            cases h
        · cases hv'
      · rcases hr with rfl | ⟨_, rfl⟩
        · exact Or.inr he
        · cases he
  | clean hd =>
    refine ⟨fun _ => Nat.zero_le 1, hu.valid, fun _ sv hsv => absurd hsv List.not_mem_nil⟩

theorem notifyAll (hu : Supplied s) : Supplied s.notifyAll := by
  obtain ⟨r, hr, he⟩ := notifyAll_eq s
  rw [he]
  refine ⟨hu.single, hu.valid, fun hready => hu.stock ?_⟩
  rcases hr with rfl | ⟨hw, rfl⟩
  · exact hready
  · rcases hready with ⟨hv, _⟩ | h
    · refine Or.inl ⟨hv, fun ok h => ?_⟩
      rw [hw] at h
      cases h
    · cases h

theorem step (W : World) (hs : Sound s) (hu : Supplied s) (a : Action n) : Supplied (s.step W a) := by
  unfold CRedisClient.step
  split
  · exact hu
  · cases a with
    | call i cmd =>
      simp only []
      split
      · rename_i hc
        have hreads := At.not_reads_of_resting hc.2
        have hother : ∀ j, j ≠ i → (s.setCaller i ⟨.check, cmd, false⟩).callers j = s.callers j :=
          (setCaller_only s i _).callers
        refine ⟨hu.single, fun j sv hj => ?_, fun hready sv hsv hidle => ?_⟩
        · by_cases e : j = i
          · subst e
            rw [setCaller_self] at hj
            cases hj
          · rw [hother j e] at hj
            exact hu.valid j sv hj
        · obtain ⟨j, c, hj⟩ := hu.stock hready sv hsv hidle
          have e : j ≠ i := fun e => by
            rw [e] at hj
            rw [At.reads_of_serves (At.serves_of_holds hj)] at hreads
            cases hreads
          exact ⟨j, c, by rw [hother j e]; exact hj⟩
      · exact hu
    | caller i tryLock => exact hu.callerStep W hs i tryLock
    | refresh => exact hu.refreshStep W hs
    | spurious => exact hu.notifyAll
    | destroy => exact hu.destroyStep hs

end Supplied

theorem Begun.supplied {W : World} {s : CRedisClient n} (hb : Begun W s) : Supplied s := by
  have hvalid : ∀ i sv, (s.callers i).place.serves = some sv → s.bValid = true := fun i sv h => by
    rw [hb.callers i] at h
    cases h
  cases hb with
  | nothing h nConnNum crashed hp =>
    exact ⟨fun _ => Nat.zero_le 1, hvalid, fun _ sv hsv => absurd hsv List.not_mem_nil⟩
  | cluster h nConnNum cl ok hp hload =>
    have hl := hp.loadFrom W nConnNum [0] (fun _ h => h) rfl hload
    refine ⟨fun h => (Bool.false_ne_true h.symm).elim, hvalid, fun hready sv hsv hidle => ?_⟩
    have hok : ok = true := by
      rcases hready with ⟨hv, _⟩ | hr
      · exact hv
      · exfalso
        cases ok <;> cases hr
    exact absurd hidle (Supplied.idle_of_isValid ((hl.done hok).1 sv hsv).1)
  | single h nConnNum hp hidle =>
    refine ⟨fun _ => le_rfl, hvalid, fun _ sv hsv he => ?_⟩
    rw [List.mem_singleton.mp hsv] at he
    exact absurd he hidle

section
variable (W : World) (strHost : Str) (nPort nTimeout nConnNum : Int)

theorem run_supplied (as : List (Action n)) :
    Supplied (run (step W) (start W strHost nPort nTimeout nConnNum) as) := by
  have hb := (start_begun W strHost nPort nTimeout nConnNum : Begun W (_ : CRedisClient n))
  exact (@run_keeps_all _ _ (step W) (fun s : CRedisClient n => Sound s ∧ Supplied s)
    (fun s a h => ⟨h.1.step W a, h.2.step W h.1 a⟩) _ ⟨hb.sound, hb.supplied⟩ as).2

end

/-- where a caller finds no connection, others hold them -/
theorem Supplied.exhausted {s : CRedisClient n} (hs : Sound s) (hu : Supplied s) {i : Fin n} {sv nTry : Nat}
    (hp : (s.callers i).place = .fetch sv nTry) (hq : s.cluster.heap.idle sv = []) :
    ∃ j c, j ≠ i ∧ (s.callers j).place.holds = some (sv, c) := by
  have hserves : (s.callers i).place.serves = some sv := by rw [hp]; rfl
  have hready : Ready s := by
    refine Or.inl ⟨hu.valid i sv hserves, fun ok hr => ?_⟩
    have hwr : s.writes .refresh := by
      rw [Sound.writes_refresh, hr]
      rfl
    exact hs.tracked.excludes hwr i (At.reads_of_serves hserves)
  obtain ⟨j, c, hj⟩ := hu.stock hready sv (hs.served i sv hserves) hq
  refine ⟨j, c, fun e => ?_, hj⟩
  rw [e, hp] at hj
  cases hj

/-- a caller that never misses a connection -/
def Plenty (x : Caller) : Prop :=
  match x.place with
  | .fetch _ 0 => False
  | .unlock .noResource => False
  | .rest (some .noResource) => False
  | _ => True

theorem Move.plenty {W : World} {s : CRedisClient n} (hn : n = 1) (hs : Sound s) (hu : Supplied s) {i : Fin n}
    (hc : Coded (s.callers i)) (hx : Plenty (s.callers i)) {y : Caller} {h : Heap}
    (hm : Move W s (s.callers i) y h) : Plenty y := by
  cases hm with
  | stay => exact hx
  | giveUp sv hp =>
    unfold Plenty at hx
    rw [hp] at hx
    exact hx.elim
  | miss sv nTry hp hq =>
    -- somebody else would have to hold a connection, and there is nobody
    obtain ⟨j, _, hj, _⟩ := hu.exhausted hs hp hq
    subst hn
    exact absurd (Subsingleton.elim j i) hj
  | giveBack sv c nRet hp => rcases hc.giveBack hp with rfl | rfl | rfl <;> trivial
  | finish nRet hp =>
    unfold Plenty at hx
    rw [hp] at hx
    cases nRet <;> trivial
  | await nRet place _ hw => cases place <;> trivial
  | fail nRet hw =>
    obtain rfl := (Coded.waits_iff hw).mp hc
    trivial
  | _ => trivial

theorem step_plenty {W : World} {s : CRedisClient n} (hn : n = 1) (hs : Sound s) (hu : Supplied s)
    (hc : ∀ i, Coded (s.callers i)) (hp : ∀ i, Plenty (s.callers i)) (a : Action n) (j : Fin n) :
    Plenty ((s.step W a).callers j) := by
  rcases step_caller W s a j with h | ⟨cmd, _, h⟩ | ⟨h, hm⟩
  · rw [h]
    exact hp j
  · rw [h]
    trivial
  · exact hm.plenty hn hs hu (hc j) (hp j)

section
variable (W : World) (strHost : Str) (nPort nTimeout nConnNum : Int)

theorem run_plenty (hn : n = 1) (as : List (Action n)) (i : Fin n) :
    Plenty ((run (step W) (start W strHost nPort nTimeout nConnNum) as).callers i) := by
  have hb := (start_begun W strHost nPort nTimeout nConnNum : Begun W (_ : CRedisClient n))
  have h := @run_keeps_all _ _ (step W)
    (fun s : CRedisClient n => (Sound s ∧ Supplied s ∧ ∀ i, Coded (s.callers i)) ∧ ∀ i, Plenty (s.callers i))
    (fun s a h => ⟨⟨h.1.1.step W a, h.1.2.1.step W h.1.1 a, step_coded h.1.1 h.1.2.2 a⟩,
      step_plenty hn h.1.1 h.1.2.1 h.1.2.2 h.2 a⟩) (start W strHost nPort nTimeout nConnNum)
    ⟨⟨hb.sound, hb.supplied, run_coded W strHost nPort nTimeout nConnNum []⟩, fun j => ?_⟩ as
  · exact h.2 i
  · unfold Plenty
    rw [hb.callers j]
    trivial

/-- **Connections run out only while others hold them**: a caller that finds a queue empty finds a
connection of that server in another's hand, and a single caller is never told `RC_NO_RESOURCE`. -/
theorem resource_run (as : List (Action n)) :
    (∀ i sv nTry,
      ((run (step W) (start W strHost nPort nTimeout nConnNum) as).callers i).place = .fetch sv nTry →
      (run (step W) (start W strHost nPort nTimeout nConnNum) as).cluster.heap.idle sv = [] →
      ∃ j c, j ≠ i ∧ ((run (step W) (start W strHost nPort nTimeout nConnNum) as).callers j).place.holds
        = some (sv, c)) ∧
      (n = 1 → ∀ i, ((run (step W) (start W strHost nPort nTimeout nConnNum) as).callers i).place
        ≠ .rest (some .noResource)) :=
  ⟨fun _ _ _ hp hq => (run_supplied W strHost nPort nTimeout nConnNum as).exhausted
      (run_sound W strHost nPort nTimeout nConnNum as) hp hq,
    fun hn i hp => by
      have h := run_plenty W strHost nPort nTimeout nConnNum hn as i
      unfold Plenty at h
      rw [hp] at h
      exact h⟩

/-- from the step that begins a call without a reply to the next one that begins a call -/
theorem heard_since (bs cs : List (Action n)) (a : Action n) (i : Fin n) {cmd : CRedisCommand}
    (hb : newCall i (run (step W) (start W strHost nPort nTimeout nConnNum) bs, a) = some cmd) (hcmd : cmd.reply = none)
    (hno : ∀ x ∈ hist (step W) (run (step W) (start W strHost nPort nTimeout nConnNum) (bs ++ [a])) cs,
      newCall i x = none) :
    Heard ((run (step W) (start W strHost nPort nTimeout nConnNum) (bs ++ a :: cs)).callers i) := by
  have h0 : Heard ((run (step W) (start W strHost nPort nTimeout nConnNum) (bs ++ [a])).callers i) := by
    rw [run_snoc, newCall_callers W hb]
    unfold Heard
    simp [hcmd, At.code, At.waits]
  have h := run_keeps (step W) (I := fun s : CRedisClient n => Sound s ∧ (∀ j, Coded (s.callers j)) ∧ Heard (s.callers i))
    (C := fun s a => newCall i (s, a) = none)
    (fun s a hs hno => ⟨hs.1.step W a, step_coded hs.1 hs.2.1 a, step_heard hs.1 (hs.2.1 i) hs.2.2 hno⟩)
    ⟨run_sound W strHost nPort nTimeout nConnNum (bs ++ [a]),
      run_coded W strHost nPort nTimeout nConnNum (bs ++ [a]), h0⟩ cs hno
  rw [List.append_cons, run_append]
  exact h.2.2

/-- **Only a request that failed is tried again.**  A caller in `WaitForRefresh` has had
`RC_RQST_ERR`, and no call returns `RC_REPLY_ERR`: a call that began without a reply returns `RC_SUCCESS`
exactly if it has one now, whatever it says, so an error that starts with `MOVED` comes back as a success. -/
theorem retry_run (as : List (Action n)) (i : Fin n) :
    (∀ nRet, ((run (step W) (start W strHost nPort nTimeout nConnNum) as).callers i).place.waits = some nRet →
      nRet = .rqstErr) ∧
      (∀ nRet, ((run (step W) (start W strHost nPort nTimeout nConnNum) as).callers i).place = .rest (some nRet) →
        nRet = .success ∨ nRet = .rqstErr ∨ nRet = .paramErr ∨ nRet = .noResource) ∧
      ∀ bs a cs cmd, as = bs ++ a :: cs →
        newCall i (run (step W) (start W strHost nPort nTimeout nConnNum) bs, a) = some cmd → cmd.reply = none →
        (∀ x ∈ hist (step W) (run (step W) (start W strHost nPort nTimeout nConnNum) (bs ++ [a])) cs,
          newCall i x = none) →
        ∀ nRet, ((run (step W) (start W strHost nPort nTimeout nConnNum) as).callers i).place = .rest (some nRet) →
          (((run (step W) (start W strHost nPort nTimeout nConnNum) as).callers i).cmd.reply.isSome = true ↔
            nRet = .success) := by
  refine ⟨fun _ hw => (Coded.waits_iff hw).mp (run_coded W strHost nPort nTimeout nConnNum as i),
    fun _ hp => (run_coded W strHost nPort nTimeout nConnNum as i).rest hp, ?_⟩
  rintro bs a cs cmd rfl hb hcmd hno nRet hp
  have h := heard_since W strHost nPort nTimeout nConnNum bs cs a i hb hcmd hno
  unfold Heard at h
  rw [h, hp]
  exact Option.some_inj

end

end CRedisClient

end Iocp.Redis
