import IocpChatting.Redis.Safety

/-!
# The calls of the Redis client

What one step of a thread can do, case by case:

* `Move`, `callerStep_move`           a caller, with the rest of the state in `Moved`;
* `RefreshMove`, `refreshStep_move`   the thread of `operator()`;
* `DestroyMove`, `destroyStep_move`   the destructor.

`Coded`: which result codes can be on their way back.  `Heard`: with which of them a reply comes.
-/

set_option linter.unusedSectionVars false
set_option autoImplicit false

namespace Iocp.Redis
open Runs

/-- the caller is in `WaitForRefresh`, with this result of its first try -/
def At.waits : At → Option Rc
  | tryLock nRet => some nRet
  | notify nRet => some nRet
  | unlockNotify nRet => some nRet
  | wait nRet _ => some nRet
  | waited nRet => some nRet
  | _ => none

/-- how far it is from the end of it -/
def At.waitLeft : At → Nat
  | tryLock _ => CRedisClient.waitRetryTimes + 4
  | notify _ => CRedisClient.waitRetryTimes + 3
  | unlockNotify _ => CRedisClient.waitRetryTimes + 2
  | wait _ nRetry => nRetry + 1
  | _ => 0

/-- the result code on its way back, or the one of the last call -/
def At.code : At → Option Rc
  | rest nRet => nRet
  | giveBack _ _ nRet => some nRet
  | unlock nRet => some nRet
  | place => place.waits

theorem At.code_of_waits {p : At} {nRet : Rc} (h : p.waits = some nRet) : p.code = some nRet := by
  cases p <;> first | exact h | cases h

theorem At.serves_of_waits {p : At} {nRet : Rc} (h : p.waits = some nRet) : p.serves = none := by
  cases p <;> first | rfl | cases h

/-- what a call can return -/
def Rc.Returned (nRet : Rc) : Prop := nRet = .success ∨ nRet = .rqstErr ∨ nRet = .paramErr ∨ nRet = .noResource

namespace CRedisClient

variable {n : Nat}

/-! ## what a step of a caller can do -/

/-- the caller and the heap after the step -/
inductive Move (W : World) (s : CRedisClient n) (x : Caller) : Caller → Heap → Prop where
  /-- not in a call, or waiting for the lock -/
  | stay : resting x.place = true ∨ x.place = .lock ∧ s.rwLock.owner.isNone = false → Move W s x x s.cluster.heap
  | refuse : x.place = .check → s.bValid = false →
      Move W s x { x with place := .rest (some .rqstErr) } s.cluster.heap
  | start : x.place = .check → Move W s x { x with place := .lock } s.cluster.heap
  | enter : x.place = .lock → Move W s x { x with place := .pick } s.cluster.heap
  | matched (sv : Nat) : x.place = .pick → s.bValid = true → s.getMatchedServer x.cmd = some sv →
      Move W s x { x with place := .fetch sv rqstRetryTimes } s.cluster.heap
  | unmatched : x.place = .pick → Move W s x { x with place := .unlock .rqstErr } s.cluster.heap
  | giveUp (sv : Nat) : x.place = .fetch sv 0 →
      Move W s x { x with place := .unlock .noResource } s.cluster.heap
  | miss (sv nTry : Nat) : x.place = .fetch sv (nTry + 1) → s.cluster.heap.idle sv = [] →
      Move W s x { x with place := .fetch sv nTry } s.cluster.heap
  | take (sv nTry c : Nat) (rest : List Nat) : x.place = .fetch sv (nTry + 1) →
      s.cluster.heap.idle sv = c :: rest →
      Move W s x { x with place := .request sv c } (s.cluster.heap.setIdle sv rest)
  | ask (sv c : Nat) (cmd : CRedisCommand) (nRet : Rc) (h : Heap) : x.place = .request sv c →
      connRequest W s.cluster.heap c x.cmd = (h, cmd, nRet) →
      Move W s x { x with place := .giveBack sv c nRet, cmd := cmd } h
  | giveBack (sv c : Nat) (nRet : Rc) : x.place = .giveBack sv c nRet →
      Move W s x { x with place := .unlock nRet } (returnConnection s.cluster.heap sv c)
  | finish (nRet : Rc) : x.place = .unlock nRet →
      Move W s x { x with place := .rest (some nRet) } s.cluster.heap
  | retry (nRet : Rc) : x.place = .unlock nRet → x.again = false → retries s.bCluster x.cmd nRet = true →
      Move W s x { x with place := .tryLock nRet } s.cluster.heap
  | await (nRet : Rc) (place : At) : x.place.waits = some nRet → place.waits = some nRet →
      place.waitLeft < x.place.waitLeft → Move W s x { x with place := place } s.cluster.heap
  | again (nRet : Rc) : x.place.waits = some nRet →
      Move W s x { x with place := .lock, again := true } s.cluster.heap
  | fail (nRet : Rc) : x.place.waits = some nRet →
      Move W s x { x with place := .rest (some nRet) } s.cluster.heap

/-- the rest of the state -/
structure Moved (s s' : CRedisClient n) (i : Fin n) (x : Caller) (h : Heap) : Prop where
  callers : s'.callers = Function.update s.callers i x
  cluster : s'.cluster = { s.cluster with heap := h }
  bCluster : s'.bCluster = s.bCluster
  bValid : s'.bValid = s.bValid
  bExit : s'.bExit = s.bExit
  destroy : s'.destroy = s.destroy
  crashed : s'.crashed = s.crashed
  refresh : s'.refresh = s.refresh ∨ s.refresh = .waiting ∧ s'.refresh = .relock

theorem moved_goto (s : CRedisClient n) (i : Fin n) (place : At) :
    Moved s (s.goto i place) i { s.callers i with place := place } s.cluster.heap :=
  ⟨rfl, rfl, rfl, rfl, rfl, rfl, rfl, Or.inl rfl⟩

theorem moved_self (s : CRedisClient n) (i : Fin n) : Moved s s i (s.callers i) s.cluster.heap :=
  ⟨(Function.update_eq_self i s.callers).symm, rfl, rfl, rfl, rfl, rfl, rfl, Or.inl rfl⟩

theorem callerStep_move (W : World) (s : CRedisClient n) (i : Fin n) (tryLock : Bool) :
    ∃ x h, Move W s (s.callers i) x h ∧ Moved s (s.callerStep W i tryLock) i x h := by
  cases hp : (s.callers i).place with
  | rest nRet =>
    simp only [callerStep, hp]
    exact ⟨_, _, .stay (Or.inl (by rw [hp]; rfl)), moved_self s i⟩
  | check =>
    simp only [callerStep, hp]
    split
    · exact ⟨_, _, .start hp, moved_goto s i _⟩
    · rename_i hv
      exact ⟨_, _, .refuse hp (Bool.eq_false_iff.mpr hv), moved_goto s i _⟩
  | lock =>
    simp only [callerStep, hp]
    split
    · exact ⟨_, _, .enter hp, ⟨rfl, rfl, rfl, rfl, rfl, rfl, rfl, Or.inl rfl⟩⟩
    · rename_i hl
      refine ⟨_, _, .stay (Or.inr ⟨hp, ?_⟩), moved_self s i⟩
      unfold SharedLock.lockShared at hl
      split at hl
      · cases hl
      · exact Bool.eq_false_iff.mpr ‹_›
  | pick =>
    simp only [callerStep, hp]
    split
    · rename_i hv
      split
      · rename_i sv hsv
        exact ⟨_, _, .matched sv hp hv hsv, moved_goto s i _⟩
      · exact ⟨_, _, .unmatched hp, moved_goto s i _⟩
    · exact ⟨_, _, .unmatched hp, moved_goto s i _⟩
  | fetch sv nTry =>
    cases nTry with
    | zero =>
      simp only [callerStep, hp]
      exact ⟨_, _, .giveUp sv hp, moved_goto s i _⟩
    | succ nTry =>
      simp only [callerStep, hp, fetchConnection]
      cases hq : s.cluster.heap.idle sv with
      | nil => exact ⟨_, _, .miss sv nTry hp hq, moved_goto s i _⟩
      | cons c rest =>
        exact ⟨_, _, .take sv nTry c rest hp hq, ⟨rfl, rfl, rfl, rfl, rfl, rfl, rfl, Or.inl rfl⟩⟩
  | request sv c =>
    simp only [callerStep, hp]
    cases hr : connRequest W s.cluster.heap c (s.callers i).cmd with
    | mk h r =>
      obtain ⟨cmd, nRet⟩ := r
      exact ⟨_, _, .ask sv c cmd nRet h hp hr, ⟨rfl, rfl, rfl, rfl, rfl, rfl, rfl, Or.inl rfl⟩⟩
  | giveBack sv c nRet =>
    simp only [callerStep, hp]
    exact ⟨_, _, .giveBack sv c nRet hp, ⟨rfl, rfl, rfl, rfl, rfl, rfl, rfl, Or.inl rfl⟩⟩
  | unlock nRet =>
    simp only [callerStep, hp]
    split
    · rename_i hr
      exact ⟨_, _, .retry nRet hp hr.1 hr.2, ⟨rfl, rfl, rfl, rfl, rfl, rfl, rfl, Or.inl rfl⟩⟩
    · exact ⟨_, _, .finish nRet hp, ⟨rfl, rfl, rfl, rfl, rfl, rfl, rfl, Or.inl rfl⟩⟩
  | tryLock nRet =>
    have hw : (s.callers i).place.waits = some nRet := by rw [hp]; rfl
    simp only [callerStep, hp]
    split
    · exact ⟨_, _, .await nRet (.notify nRet) hw rfl (by simp [hp, At.waitLeft]), ⟨rfl, rfl, rfl, rfl, rfl, rfl, rfl, Or.inl rfl⟩⟩
    · exact ⟨_, _, .await nRet (.wait nRet waitRetryTimes) hw rfl (by simp [hp, At.waitLeft]), moved_goto s i _⟩
  | notify nRet =>
    have hw : (s.callers i).place.waits = some nRet := by rw [hp]; rfl
    simp only [callerStep, hp]
    refine ⟨_, _, .await nRet (.unlockNotify nRet) hw rfl (by simp [hp, At.waitLeft]), ?_⟩
    unfold notifyAll
    split
    · rename_i hr
      exact ⟨rfl, rfl, rfl, rfl, rfl, rfl, rfl, Or.inr ⟨hr, rfl⟩⟩
    · exact ⟨rfl, rfl, rfl, rfl, rfl, rfl, rfl, Or.inl rfl⟩
  | unlockNotify nRet =>
    have hw : (s.callers i).place.waits = some nRet := by rw [hp]; rfl
    simp only [callerStep, hp]
    exact ⟨_, _, .await nRet (.wait nRet waitRetryTimes) hw rfl (by simp [hp, At.waitLeft]),
      ⟨rfl, rfl, rfl, rfl, rfl, rfl, rfl, Or.inl rfl⟩⟩
  | wait nRet nRetry =>
    have hw : (s.callers i).place.waits = some nRet := by rw [hp]; rfl
    simp only [callerStep, hp]
    split
    · exact ⟨_, _, .await nRet (.waited nRet) hw rfl (by simp [hp, At.waitLeft]), moved_goto s i _⟩
    · cases nRetry with
      | zero => exact ⟨_, _, .await nRet (.waited nRet) hw rfl (by simp [hp, At.waitLeft]), moved_goto s i _⟩
      | succ k => exact ⟨_, _, .await nRet (.wait nRet k) hw rfl (by simp [hp, At.waitLeft]), moved_goto s i _⟩
  | waited nRet =>
    have hw : (s.callers i).place.waits = some nRet := by rw [hp]; rfl
    simp only [callerStep, hp]
    split
    · exact ⟨_, _, .again nRet hw, ⟨rfl, rfl, rfl, rfl, rfl, rfl, rfl, Or.inl rfl⟩⟩
    · exact ⟨_, _, .fail nRet hw, moved_goto s i _⟩

theorem refreshStep_callers (W : World) (s : CRedisClient n) : (s.refreshStep W).callers = s.callers := by
  unfold refreshStep
  split <;> first | rfl | (split <;> rfl)

theorem destroyStep_callers (s : CRedisClient n) : s.destroyStep.callers = s.callers := by
  unfold destroyStep
  split <;> first | rfl | (split <;> rfl) | exact Sound.notifyAll_callers s

/-- the command of the call that the caller `i` begins -/
def newCall (i : Fin n) : CRedisClient n × Action n → Option CRedisCommand
  | (s, .call j cmd) =>
    if s.crashed = false ∧ j = i ∧ s.destroy = .alive ∧ resting (s.callers i).place = true then some cmd
    else none
  | _ => none

theorem newCall_callers (W : World) {s : CRedisClient n} {a : Action n} {i : Fin n} {cmd : CRedisCommand}
    (h : newCall i (s, a) = some cmd) : (s.step W a).callers i = ⟨.check, cmd, false⟩ := by
  cases a with
  | call j cmd' =>
    simp only [newCall] at h
    split at h
    · next hb =>
      obtain ⟨hcr, rfl, hd, hrest⟩ := hb
      obtain rfl := Option.some.inj h
      simp only [step, hcr, Bool.false_eq_true, if_false, if_pos (And.intro hd hrest)]
      exact setCaller_self s j _
    · cases h
  | _ => cases h

/-- a caller begins a call, makes its move, or stays as it is -/
theorem step_caller (W : World) (s : CRedisClient n) (a : Action n) (j : Fin n) :
    (s.step W a).callers j = s.callers j ∨
      (∃ cmd, newCall j (s, a) = some cmd ∧ (s.step W a).callers j = ⟨.check, cmd, false⟩) ∨
      ∃ h, Move W s (s.callers j) ((s.step W a).callers j) h := by
  cases hb : newCall j (s, a) with
  | some cmd => exact Or.inr (Or.inl ⟨cmd, rfl, newCall_callers W hb⟩)
  | none =>
  unfold step
  split
  · exact Or.inl rfl
  · next hcr =>
    cases a with
    | call i cmd =>
      simp only []
      split
      · next hgo =>
        have hne : j ≠ i := by
          rintro rfl
          have hnew : newCall j (s, .call j cmd) = some cmd := if_pos ⟨Bool.eq_false_iff.mpr hcr, rfl, hgo⟩
          rw [hb] at hnew
          cases hnew
        exact Or.inl ((setCaller_only s i _).callers j hne)
      · exact Or.inl rfl
    | caller i tryLock =>
      obtain ⟨x, h, hm, hmv⟩ := callerStep_move W s i tryLock
      simp only [hmv.callers]
      by_cases e : j = i
      · subst e
        rw [Function.update_self]
        exact Or.inr (Or.inr ⟨h, hm⟩)
      · rw [Function.update_of_ne e]
        exact Or.inl rfl
    | refresh => exact Or.inl (congrFun (refreshStep_callers W s) j)
    | spurious => exact Or.inl (congrFun (Sound.notifyAll_callers s) j)
    | destroy => exact Or.inl (congrFun (destroyStep_callers s) j)

theorem Sound.requested {W : World} {s : CRedisClient n} (hs : Sound s) {i : Fin n} {sv c : Nat}
    (hp : (s.callers i).place = .request sv c) :
    Requested s.cluster.heap (connRequest W s.cluster.heap c (s.callers i).cmd).1 := by
  have hown := (hs.held i sv c (by rw [hp]; rfl)).1
  have hsv : sv ∈ s.cluster.vecRedisServ := hs.served i sv (by rw [hp]; rfl)
  exact connRequest_requested W s.cluster.heap c _ (by rw [hown.server]; exact (hs.pooled.live sv hsv).1)

/-- a caller that is served goes on with its server, or has just found it -/
theorem Move.serves {W : World} {s : CRedisClient n} {x y : Caller} {h : Heap} (hm : Move W s x y h) {sv : Nat}
    (hy : y.place.serves = some sv) :
    x.place.serves = some sv ∨
      x.place = .pick ∧ s.bValid = true ∧ s.getMatchedServer x.cmd = some sv ∧ y.cmd = x.cmd := by
  cases hm with
  | stay => exact Or.inl hy
  | matched sv' hp hv hsv =>
    obtain rfl := Option.some.inj hy
    exact Or.inr ⟨hp, hv, hsv, rfl⟩
  | miss sv' nTry hp _ =>
    rw [hp]
    exact Or.inl hy
  | take sv' nTry c rest hp hq =>
    rw [hp]
    exact Or.inl hy
  | ask sv' c cmd nRet h hp hr =>
    rw [hp]
    exact Or.inl hy
  | await nRet place hw hw' =>
    rw [At.serves_of_waits hw'] at hy
    cases hy
  | _ => cases hy

/-! ## result codes -/

/-- the codes on their way back: only a request that failed is tried again -/
def Coded (x : Caller) : Prop :=
  match x.place with
  | .giveBack _ _ nRet => nRet = .success ∨ nRet = .rqstErr ∨ nRet = .paramErr
  | .unlock nRet => nRet.Returned
  | .rest (some nRet) => nRet.Returned
  | .tryLock nRet => nRet = .rqstErr
  | .notify nRet => nRet = .rqstErr
  | .unlockNotify nRet => nRet = .rqstErr
  | .wait nRet _ => nRet = .rqstErr
  | .waited nRet => nRet = .rqstErr
  | _ => True

namespace Coded

variable {x : Caller}

theorem giveBack (hc : Coded x) {sv c : Nat} {nRet : Rc} (hp : x.place = .giveBack sv c nRet) :
    nRet = .success ∨ nRet = .rqstErr ∨ nRet = .paramErr := by
  unfold Coded at hc
  rw [hp] at hc
  exact hc

theorem unlock (hc : Coded x) {nRet : Rc} (hp : x.place = .unlock nRet) : nRet.Returned := by
  unfold Coded at hc
  rw [hp] at hc
  exact hc

theorem rest (hc : Coded x) {nRet : Rc} (hp : x.place = .rest (some nRet)) : nRet.Returned := by
  unfold Coded at hc
  rw [hp] at hc
  exact hc

theorem waits_iff {nRet : Rc} (hw : x.place.waits = some nRet) : Coded x ↔ nRet = .rqstErr := by
  unfold Coded
  cases hp : x.place <;> rw [hp] at hw <;> first | (cases hw; rfl) | cases hw

end Coded

theorem retries_rqstErr {bCluster : Bool} {cmd : CRedisCommand} {nRet : Rc} (h : retries bCluster cmd nRet = true)
    (hne : nRet ≠ .replyErr) : nRet = .rqstErr := by
  unfold retries at h
  split at h
  · simpa [hne] using h
  · simpa using h

/-- the report of the request that the caller `i` makes -/
theorem Sound.report {s : CRedisClient n} (W : World) (hs : Sound s) {i : Fin n} {sv c : Nat}
    (hp : (s.callers i).place = .request sv c) :
    Report W (s.cluster.heap.servers sv).vecHosts (s.callers i).cmd
      (connRequest W s.cluster.heap c (s.callers i).cmd) := by
  have hown := (hs.held i sv c (by rw [hp]; rfl)).1
  have hsv : sv ∈ s.cluster.vecRedisServ := hs.served i sv (by rw [hp]; rfl)
  have hr := connRequest_report W hs.pooled.hostsOk
    (by rw [hown.server]; exact (hs.pooled.live sv hsv).1) (s.callers i).cmd
  rw [hown.server] at hr
  exact hr

theorem Move.coded {W : World} {s : CRedisClient n} (hs : Sound s) {i : Fin n} {x : Caller} {h : Heap}
    (hm : Move W s (s.callers i) x h) (hc : Coded (s.callers i)) : Coded x := by
  cases hm with
  | stay => exact hc
  | refuse _ _ => exact Or.inr (Or.inl rfl)
  | unmatched _ => exact Or.inr (Or.inl rfl)
  | giveUp sv _ => exact Or.inr (Or.inr (Or.inr rfl))
  | ask sv c cmd nRet h hp hr =>
    have hcode := (hs.report W hp).code
    rw [hr] at hcode
    exact hcode
  | giveBack sv c nRet hp => exact (hc.giveBack hp).imp_right fun h => h.imp_right Or.inl
  | finish nRet hp => exact hc.unlock hp
  | retry nRet hp _ hr =>
    have hne : nRet ≠ .replyErr := by
      rcases hc.unlock hp with h | h | h | h <;> rw [h] <;> decide
    exact retries_rqstErr hr hne
  | await nRet place hw hw' => exact (Coded.waits_iff hw').mpr ((Coded.waits_iff hw).mp hc)
  | fail nRet hw => exact Or.inr (Or.inl ((Coded.waits_iff hw).mp hc))
  | _ => trivial

theorem step_coded {W : World} {s : CRedisClient n} (hs : Sound s) (hc : ∀ j, Coded (s.callers j))
    (a : Action n) (j : Fin n) : Coded ((s.step W a).callers j) := by
  rcases step_caller W s a j with h | ⟨cmd, _, h⟩ | ⟨h, hm⟩
  · rw [h]
    exact hc j
  · rw [h]
    trivial
  · exact hm.coded hs (hc j)

/-- a reply comes with a success, and only with one -/
def Heard (x : Caller) : Prop := x.cmd.reply.isSome = true ↔ x.place.code = some .success

theorem Heard.reply_none {x : Caller} (h : Heard x) (hx : x.place.code ≠ some .success) : x.cmd.reply = none := by
  by_contra hne
  exact hx (h.mp (Option.isSome_iff_ne_none.mpr hne))

/-- no success before the step, and none after it -/
theorem Heard.silent {x y : Caller} (h : Heard x) (hx : x.place.code ≠ some .success) (hcmd : y.cmd = x.cmd)
    (hy : y.place.code ≠ some .success) : Heard y := by
  unfold Heard at h ⊢
  rw [hcmd]
  exact ⟨fun hr => absurd (h.mp hr) hx, fun hr => absurd hr hy⟩

theorem Heard.same {x y : Caller} (h : Heard x) (hcmd : y.cmd = x.cmd) (hcode : y.place.code = x.place.code) :
    Heard y := by
  unfold Heard at h ⊢
  rw [hcmd, hcode]
  exact h

theorem Move.heard {W : World} {s : CRedisClient n} (hs : Sound s) {i : Fin n} {x : Caller} {h : Heap}
    (hm : Move W s (s.callers i) x h) (hc : Coded (s.callers i)) (hh : Heard (s.callers i)) : Heard x := by
  have hbefore : ∀ p, (s.callers i).place = p → p.code = none → (s.callers i).place.code ≠ some .success := by
    intro p hp hcode
    rw [hp, hcode]
    decide
  have hwaits : ∀ nRet, (s.callers i).place.waits = some nRet → (s.callers i).place.code ≠ some .success := by
    intro nRet hw
    rw [At.code_of_waits hw, (Coded.waits_iff hw).mp hc]
    decide
  cases hm with
  | stay => exact hh
  | refuse hp _ => exact hh.silent (hbefore _ hp rfl) rfl (by simp [At.code])
  | start hp => exact hh.silent (hbefore _ hp rfl) rfl (by simp [At.code, At.waits])
  | enter hp => exact hh.silent (hbefore _ hp rfl) rfl (by simp [At.code, At.waits])
  | matched sv hp _ _ => exact hh.silent (hbefore _ hp rfl) rfl (by simp [At.code, At.waits])
  | unmatched hp => exact hh.silent (hbefore _ hp rfl) rfl (by simp [At.code])
  | giveUp sv hp => exact hh.silent (hbefore _ hp rfl) rfl (by simp [At.code])
  | miss sv nTry hp _ => exact hh.silent (hbefore _ hp rfl) rfl (by simp [At.code, At.waits])
  | take sv nTry c rest hp _ => exact hh.silent (hbefore _ hp rfl) rfl (by simp [At.code, At.waits])
  | ask sv c cmd nRet h hp hr =>
    have hrep := hs.report W hp
    rw [hr] at hrep
    refine ⟨fun hsome => ?_, fun hsucc => ?_⟩
    · by_contra hne
      have hold : (s.callers i).cmd.reply = none := hh.reply_none (hbefore _ hp rfl)
      have hnone : cmd.reply = none := hrep.silent (fun e => hne (congrArg some e)) hold
      rw [hnone] at hsome
      cases hsome
    · obtain ⟨reply, hreply, _⟩ := hrep.reply (Option.some.inj hsucc)
      exact Option.isSome_iff_exists.mpr ⟨reply, hreply⟩
  | giveBack sv c nRet hp => exact hh.same rfl (by rw [hp]; rfl)
  | finish nRet hp => exact hh.same rfl (by rw [hp]; rfl)
  | retry nRet hp _ _ => exact hh.same rfl (by rw [hp]; rfl)
  | await nRet place hw hw' => exact hh.same rfl (by rw [At.code_of_waits hw, At.code_of_waits hw'])
  | again nRet hw => exact hh.silent (hwaits nRet hw) rfl (by simp [At.code, At.waits])
  | fail nRet hw => exact hh.same rfl (by rw [At.code_of_waits hw]; rfl)

theorem step_heard {W : World} {s : CRedisClient n} (hs : Sound s) {i : Fin n} (hc : Coded (s.callers i))
    (hh : Heard (s.callers i)) {a : Action n} (hno : newCall i (s, a) = none) : Heard ((s.step W a).callers i) := by
  rcases step_caller W s a i with h | ⟨cmd, hb, _⟩ | ⟨h, hm⟩
  · rw [h]
    exact hh
  · rw [hno] at hb
    cases hb
  · exact hm.heard hs hc hh

section
variable (W : World) (strHost : Str) (nPort nTimeout nConnNum : Int)

theorem run_coded (as : List (Action n)) (j : Fin n) :
    Coded ((run (step W) (start W strHost nPort nTimeout nConnNum) as).callers j) := by
  have h := @run_keeps_all _ _ (step W) (fun s : CRedisClient n => Sound s ∧ ∀ j, Coded (s.callers j))
    (fun s a h => ⟨h.1.step W a, step_coded h.1 h.2 a⟩) (start W strHost nPort nTimeout nConnNum)
    ⟨start_sound W strHost nPort nTimeout nConnNum, fun j => ?_⟩ as
  · exact h.2 j
  · unfold Coded
    rw [(start_begun W strHost nPort nTimeout nConnNum).callers j]
    trivial

end

/-! ## what the other threads can do -/

inductive RefreshMove (W : World) (s : CRedisClient n) : CRedisClient n → Prop where
  | go (r : RefreshPc) (l : SharedLock Thread (Fin n)) (crashed : Bool) : (∀ ok, s.refresh ≠ .store ok) →
      (∀ ok, r ≠ .store ok) → RefreshMove W s { s with refresh := r, rwLock := l, crashed := crashed }
  | load (cl : Cluster) (ok : Bool) : s.refresh = .reload → s.reload W = some (cl, ok) →
      RefreshMove W s { s with cluster := cl, refresh := .store ok }
  | store (ok : Bool) : s.refresh = .store ok → RefreshMove W s { s with bValid := ok, refresh := .unlock }

theorem refreshStep_move (W : World) (s : CRedisClient n) : RefreshMove W s (s.refreshStep W) := by
  have hkeep : ∀ r l c, (∀ ok, s.refresh ≠ .store ok) → (∀ ok, r ≠ .store ok) →
      s.refreshStep W = { s with refresh := r, rwLock := l, crashed := c } →
      RefreshMove W s (s.refreshStep W) := fun r l c h1 h2 h3 => h3 ▸ .go r l c h1 h2
  have hself : (∀ ok, s.refresh ≠ .store ok) → s.refreshStep W = s → RefreshMove W s (s.refreshStep W) := fun h1 h2 =>
    hkeep s.refresh s.rwLock s.crashed h1 h1 h2
  cases hr : s.refresh with
  | none => exact hself (fun ok h => by rw [hr] at h; cases h) (by simp only [refreshStep, hr])
  | waiting => exact hself (fun ok h => by rw [hr] at h; cases h) (by simp only [refreshStep, hr])
  | done => exact hself (fun ok h => by rw [hr] at h; cases h) (by simp only [refreshStep, hr])
  | check =>
    refine hkeep (if s.bExit then .done else .lock) s.rwLock s.crashed (fun ok h => by rw [hr] at h; cases h)
      (fun ok => by split <;> exact fun h => by cases h) (by simp only [refreshStep, hr])
  | lock =>
    cases hl : s.rwLock.lock .refresh with
    | none => exact hself (fun ok h => by rw [hr] at h; cases h) (by simp only [refreshStep, hr, hl])
    | some l =>
      exact hkeep .test l s.crashed (fun ok h => by rw [hr] at h; cases h) (fun ok h => by cases h)
        (by simp only [refreshStep, hr, hl])
  | test =>
    cases hv : s.bValid with
    | true =>
      exact hkeep .waiting s.rwLock.unlock s.crashed (fun ok h => by rw [hr] at h; cases h)
        (fun ok h => by cases h) (by simp [refreshStep, hr, hv])
    | false =>
      exact hkeep .reload s.rwLock s.crashed (fun ok h => by rw [hr] at h; cases h)
        (fun ok h => by cases h) (by simp [refreshStep, hr, hv])
  | relock =>
    cases hl : s.rwLock.lock .refresh with
    | none => exact hself (fun ok h => by rw [hr] at h; cases h) (by simp only [refreshStep, hr, hl])
    | some l =>
      exact hkeep .reload l s.crashed (fun ok h => by rw [hr] at h; cases h) (fun ok h => by cases h)
        (by simp only [refreshStep, hr, hl])
  | reload =>
    cases hl : s.reload W with
    | none =>
      exact hkeep .reload s.rwLock true (fun ok h => by rw [hr] at h; cases h) (fun ok h => by cases h)
        (by simp only [refreshStep, hr, hl])
    | some q =>
      have e : s.refreshStep W = { s with cluster := q.1, refresh := .store q.2 } := by
        simp only [refreshStep, hr, hl]
      exact e ▸ .load q.1 q.2 hr hl
  | store ok =>
    have e : s.refreshStep W = { s with bValid := ok, refresh := .unlock } := by simp only [refreshStep, hr]
    exact e ▸ .store ok hr
  | unlock =>
    exact hkeep .check s.rwLock.unlock s.crashed (fun ok h => by rw [hr] at h; cases h)
      (fun ok h => by cases h) (by simp only [refreshStep, hr])

theorem notifyAll_eq (s : CRedisClient n) :
    ∃ r, (r = s.refresh ∨ s.refresh = .waiting ∧ r = .relock) ∧ s.notifyAll = { s with refresh := r } := by
  unfold notifyAll
  split
  · rename_i h
    exact ⟨.relock, Or.inr ⟨h, rfl⟩, rfl⟩
  · exact ⟨s.refresh, Or.inl rfl, rfl⟩

inductive DestroyMove (s : CRedisClient n) : CRedisClient n → Prop where
  | go (d : DestroyPc) (r : RefreshPc) (l : SharedLock Thread (Fin n)) (v e : Bool) :
      v = s.bValid ∨ s.destroy ≠ .alive ∧ v = false → r = s.refresh ∨ s.refresh = .waiting ∧ r = .relock →
      DestroyMove s { s with destroy := d, refresh := r, rwLock := l, bValid := v, bExit := e }
  | clean : s.destroy = .clean → DestroyMove s { s with
      cluster := ⟨deleteServers s.cluster.heap s.cluster.vecRedisServ, [], []⟩
      destroy := .done }

theorem destroyStep_move (s : CRedisClient n) : DestroyMove s s.destroyStep := by
  have hmove : ∀ d r l v e, v = s.bValid ∨ s.destroy ≠ .alive ∧ v = false →
      r = s.refresh ∨ s.refresh = .waiting ∧ r = .relock →
      s.destroyStep = { s with destroy := d, refresh := r, rwLock := l, bValid := v, bExit := e } →
      DestroyMove s s.destroyStep := fun d r l v e h1 h2 h3 => h3 ▸ .go d r l v e h1 h2
  have hkeep : ∀ d l e, s.destroyStep = { s with destroy := d, rwLock := l, bExit := e } →
      DestroyMove s s.destroyStep := fun d l e h => hmove d s.refresh l s.bValid e (Or.inl rfl) (Or.inl rfl) h
  cases hd : s.destroy with
  | alive =>
    by_cases hr : ∀ i, resting (s.callers i).place = true
    · exact hkeep .clearValid s.rwLock s.bExit (by simp only [destroyStep, hd, if_pos hr])
    · exact hkeep .alive s.rwLock s.bExit (by simp only [destroyStep, hd, if_neg hr]; rw [← hd])
  | clearValid =>
    have hne : s.destroy ≠ .alive := by
      rw [hd]
      decide
    exact hmove .setExit s.refresh s.rwLock false s.bExit (Or.inr ⟨hne, rfl⟩) (Or.inl rfl)
      (by simp only [destroyStep, hd])
  | setExit => exact hkeep .lock s.rwLock true (by simp only [destroyStep, hd])
  | lock =>
    cases hl : s.rwLock.lock .destroy with
    | none => exact hkeep .lock s.rwLock s.bExit (by simp only [destroyStep, hd, hl]; rw [← hd])
    | some l => exact hkeep .notify l s.bExit (by simp only [destroyStep, hd, hl])
  | notify =>
    obtain ⟨r, hr, he⟩ := notifyAll_eq s
    exact hmove .unlock r s.rwLock s.bValid s.bExit (Or.inl rfl) hr (by simp only [destroyStep, hd, he])
  | unlock => exact hkeep .join s.rwLock.unlock s.bExit (by simp only [destroyStep, hd])
  | join =>
    by_cases hr : s.refresh = .none ∨ s.refresh = .done
    · exact hkeep .clean s.rwLock s.bExit (by simp only [destroyStep, hd, if_pos hr])
    · exact hkeep .join s.rwLock s.bExit (by simp only [destroyStep, hd, if_neg hr]; rw [← hd])
  | clean =>
    have e : s.destroyStep = { s with
        cluster := ⟨deleteServers s.cluster.heap s.cluster.vecRedisServ, [], []⟩
        destroy := .done } := by simp only [destroyStep, hd]
    exact e ▸ .clean hd
  | done => exact hkeep .done s.rwLock s.bExit (by simp only [destroyStep, hd]; rw [← hd])

end CRedisClient

end Iocp.Redis
