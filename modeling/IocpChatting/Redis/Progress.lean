import IocpChatting.Redis.Calls

/-!
# Calls of the Redis client come to an end

`Caller.left` counts the statements that a call has before it at most, with the second try and the wait
of `WaitForRefresh`; each step that has an effect brings it down.

`execute_run`: how many steps one call takes, and what alone keeps a caller from taking one.
-/

set_option linter.unusedSectionVars false
set_option autoImplicit false

namespace Iocp.Redis
open Runs

/-- the statements left at the `unlock` of `SimpleExecute` -/
def unlockLeft (again : Bool) : Nat :=
  if again then 1 else rqstRetryTimes + CRedisClient.waitRetryTimes + 12

def Caller.left (x : Caller) : Nat :=
  match x.place with
  | .rest _ => 0
  | .unlock _ => unlockLeft x.again
  | .giveBack _ _ _ => unlockLeft x.again + 1
  | .request _ _ => unlockLeft x.again + 2
  | .fetch _ nTry => unlockLeft x.again + 3 + nTry
  | .pick => unlockLeft x.again + 4 + rqstRetryTimes
  | .lock => unlockLeft x.again + 5 + rqstRetryTimes
  | .check => unlockLeft x.again + 6 + rqstRetryTimes
  | place => rqstRetryTimes + 7 + place.waitLeft

theorem Caller.left_of_waits {x : Caller} {nRet : Rc} (h : x.place.waits = some nRet) :
    x.left = rqstRetryTimes + 7 + x.place.waitLeft := by
  unfold Caller.left
  cases hp : x.place with
  | tryLock nRet => rfl
  | notify nRet => rfl
  | unlockNotify nRet => rfl
  | wait nRet nRetry => rfl
  | waited nRet => rfl
  | _ =>
    rw [hp] at h
    cases h

theorem unlockLeft_pos (again : Bool) : 0 < unlockLeft again := by
  cases again <;> decide

namespace CRedisClient

variable {n : Nat}

/-- the caller has its share of the lock to wait for -/
def kept (s : CRedisClient n) (x : Caller) : Prop := x.place = .lock ∧ s.rwLock.owner.isNone = false

theorem Move.left {W : World} {s : CRedisClient n} {x y : Caller} {h : Heap} (hm : Move W s x y h) :
    y.left < x.left ∨ y = x ∧ (resting x.place = true ∨ kept s x) := by
  cases hm
  case stay hx => exact Or.inr ⟨rfl, hx⟩
  case finish nRet hp =>
    refine Or.inl ?_
    simp only [Caller.left, hp]
    exact unlockLeft_pos x.again
  case retry nRet hp hagain _ =>
    -- the first try is over, and the wait is before it
    refine Or.inl ?_
    simp only [Caller.left, hp, hagain, At.waitLeft, unlockLeft]
    decide
  case await nRet place hw hw' hlt =>
    refine Or.inl ?_
    rw [Caller.left_of_waits hw, Caller.left_of_waits (x := { x with place := place }) hw']
    exact Nat.add_lt_add_left hlt _
  case again nRet hw =>
    refine Or.inl ?_
    rw [Caller.left_of_waits hw]
    simp only [Caller.left, unlockLeft, if_pos]
    omega
  case fail nRet hw =>
    refine Or.inl ?_
    rw [Caller.left_of_waits hw]
    simp only [Caller.left]
    omega
  all_goals
    refine Or.inl ?_
    simp only [Caller.left, *]
    omega

/-- as many steps as a call has that fails and is tried once more -/
def callSteps : Nat := 2 * rqstRetryTimes + waitRetryTimes + 18

example : callSteps = 84 := rfl

/-- the step is one of the caller `i`, in a call and not kept from its share of the lock -/
def goesOn (i : Fin n) : CRedisClient n × Action n → Bool
  | (s, .caller j _) => decide (j = i) && !s.crashed && !resting (s.callers i).place &&
      !(decide ((s.callers i).place = .lock) && !s.rwLock.owner.isNone)
  | _ => false

theorem goesOn_of_stay {s : CRedisClient n} {i : Fin n}
    (hx : resting (s.callers i).place = true ∨ kept s (s.callers i)) (j : Fin n) (tryLock : Bool) :
    goesOn i (s, .caller j tryLock) = false := by
  rcases hx with hx | ⟨hp, ho⟩
  · simp [goesOn, hx]
  · simp [goesOn, hp, ho]

/-- a step takes one off what is left, unless a call begins -/
theorem left_step (W : World) (i : Fin n) (s : CRedisClient n) (a : Action n) (hno : newCall i (s, a) = none) :
    ((s.step W a).callers i).left + (if goesOn i (s, a) then 1 else 0) ≤ (s.callers i).left := by
  cases hgo : goesOn i (s, a) with
  | false =>
    simp only [Bool.false_eq_true, if_false]
    rcases step_caller W s a i with h | ⟨cmd, hb, _⟩ | ⟨h, hm⟩
    · rw [h]
      exact le_rfl
    · rw [hno] at hb
      cases hb
    · rcases hm.left with hlt | ⟨e, _⟩
      · omega
      · rw [e]
        exact le_rfl
  | true =>
    cases a with
    | caller j tryLock =>
      obtain ⟨⟨⟨rfl, hcr⟩, _⟩, _⟩ : ((j = i ∧ s.crashed = false) ∧ _) ∧ _ := by
        simpa [goesOn] using hgo
      obtain ⟨x, h, hm, hmv⟩ := callerStep_move W s j tryLock
      simp only [step, hcr, Bool.false_eq_true, if_false, if_true, hmv.callers, Function.update_self]
      rcases hm.left with hlt | ⟨_, hstay⟩
      · omega
      · rw [goesOn_of_stay hstay j tryLock] at hgo
        cases hgo
    | _ => cases hgo

theorem left_le_step (W : World) (i : Fin n) (s : CRedisClient n) (a : Action n)
    (h : (s.callers i).left ≤ callSteps) : ((s.step W a).callers i).left ≤ callSteps := by
  cases hb : newCall i (s, a) with
  | some cmd =>
    rw [newCall_callers W hb]
    exact Nat.le_refl callSteps
  | none =>
    have hstep := left_step W i s a hb
    omega

theorem run_left_le (W : World) (strHost : Str) (nPort nTimeout nConnNum : Int) (as : List (Action n)) (i : Fin n) :
    ((run (step W) (start W strHost nPort nTimeout nConnNum) as).callers i).left ≤ callSteps := by
  refine run_keeps_all (step W) (left_le_step W i) ?_ as
  simp only [Caller.left, (start_begun W strHost nPort nTimeout nConnNum).callers i]
  exact Nat.zero_le callSteps

/-- who is kept from the lock is kept by a thread in its critical section -/
theorem Sound.kept {s : CRedisClient n} (hs : Sound s) {x : Caller} (hk : CRedisClient.kept s x) :
    s.refresh.writes = true ∨ s.destroy.writes = true := by
  cases ho : s.rwLock.owner with
  | none =>
    have h := hk.2
    rw [ho] at h
    cases h
  | some o =>
    cases o with
    | refresh => exact Or.inl ((hs.tracked.owner .refresh).mp ho)
    | destroy => exact Or.inr ((hs.tracked.owner .destroy).mp ho)

/-- **A call comes to an end.**  Whatever the other threads do, a caller makes `callSteps` steps at most until
it begins another call, the second try and the wait for a refresh with them; and nothing keeps it from a
step of its call, but a crash or a thread in its critical section at the start of `SimpleExecute`. -/
theorem execute_run (W : World) (strHost : Str) (nPort nTimeout nConnNum : Int) (as : List (Action n)) (i : Fin n) :
    (∀ bs, (∀ x ∈ hist (step W) (run (step W) (start W strHost nPort nTimeout nConnNum) as) bs, newCall i x = none) →
      (hist (step W) (run (step W) (start W strHost nPort nTimeout nConnNum) as) bs).countP (goesOn i) ≤ callSteps) ∧
      ∀ x ∈ hist (step W) (start W strHost nPort nTimeout nConnNum) as, ∀ tryLock, x.2 = .caller i tryLock →
        goesOn i x = true ∨ x.1.crashed = true ∨ resting (x.1.callers i).place = true ∨
          (x.1.callers i).place = .lock ∧ (x.1.refresh.writes = true ∨ x.1.destroy.writes = true) := by
  constructor
  · intro bs hno
    have hbudget := hist_budget (step W) (goesOn i) (fun s : CRedisClient n => (s.callers i).left)
      (left_step W i) (run (step W) (start W strHost nPort nTimeout nConnNum) as) bs hno
    have hleft := run_left_le W strHost nPort nTimeout nConnNum as i
    omega
  · rintro ⟨s, a⟩ hx tryLock ha
    have hs : Sound s := hist_keeps_all (step W) (fun _ a hs => hs.step W a)
      (start_sound W strHost nPort nTimeout nConnNum) as _ hx
    obtain rfl : a = .caller i tryLock := ha
    by_cases hcr : s.crashed = true
    · exact Or.inr (Or.inl hcr)
    · by_cases hrest : resting (s.callers i).place = true
      · exact Or.inr (Or.inr (Or.inl hrest))
      · by_cases hk : CRedisClient.kept s (s.callers i)
        · exact Or.inr (Or.inr (Or.inr ⟨hk.1, hs.kept hk⟩))
        · refine Or.inl ?_
          unfold CRedisClient.kept at hk
          simp only [Bool.not_eq_true] at hcr hrest
          have hfree : (s.callers i).place = .lock → s.rwLock.owner = none := by simpa using hk
          simp only [goesOn, hcr, hrest]
          simpa using imp_iff_not_or.mp hfree

end CRedisClient

end Iocp.Redis
