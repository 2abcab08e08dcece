import Mathlib.Data.Finset.Basic

/-!
# Shared locks

A lock that one writer owns or any number of readers share (`std::shared_mutex`), over arbitrary types
of writers `ω` and readers `ι`.  That a lock with an owner has no reader is part of the type.

* `lock`, `unlock`, `lockShared`, `unlockShared`   the operations; the first and the third may have to wait;
* `Tracks l w r`                                   the lock is owned by the writers that `w` says are in their
                                                   critical section and shared by the readers that `r` says are.

A machine whose steps keep `Tracks` has writers exclude each other and all readers: `Tracks.alone`,
`Tracks.excludes`.
-/

set_option linter.unusedSectionVars false
set_option autoImplicit false

structure SharedLock (ω ι : Type*) where
  owner : Option ω
  readers : Finset ι
  apart : owner = none ∨ readers = ∅

namespace SharedLock

variable {ω ι : Type*} [DecidableEq ι]

def free : SharedLock ω ι := ⟨none, ∅, Or.inl rfl⟩

def lock (l : SharedLock ω ι) (o : ω) : Option (SharedLock ω ι) :=
  if l.owner.isNone ∧ l.readers = ∅ then some ⟨some o, ∅, Or.inr rfl⟩ else none

def unlock (l : SharedLock ω ι) : SharedLock ω ι := ⟨none, l.readers, Or.inl rfl⟩

def lockShared (l : SharedLock ω ι) (i : ι) : Option (SharedLock ω ι) :=
  if l.owner.isNone then some ⟨none, insert i l.readers, Or.inl rfl⟩ else none

def unlockShared (l : SharedLock ω ι) (i : ι) : SharedLock ω ι where
  owner := l.owner
  readers := l.readers.erase i
  apart := l.apart.imp id fun h => by rw [h, Finset.erase_empty]

/-- `w` and `r` say who is in a critical section -/
structure Tracks (l : SharedLock ω ι) (w : ω → Prop) (r : ι → Prop) : Prop where
  owner : ∀ o, l.owner = some o ↔ w o
  readers : ∀ i, i ∈ l.readers ↔ r i

namespace Tracks

variable {l l' : SharedLock ω ι} {w w' : ω → Prop} {r r' : ι → Prop}

theorem free : Tracks (SharedLock.free : SharedLock ω ι) (fun _ => False) (fun _ => False) :=
  ⟨fun _ => by simp [SharedLock.free], fun _ => by simp [SharedLock.free]⟩

theorem congr (h : Tracks l w r) (hw : ∀ o, w' o ↔ w o) (hr : ∀ i, r' i ↔ r i) : Tracks l w' r' :=
  ⟨fun o => (h.owner o).trans (hw o).symm, fun i => (h.readers i).trans (hr i).symm⟩

/-- **Writers exclude each other.** -/
theorem alone (h : Tracks l w r) {o o' : ω} (ho : w o) (ho' : w o') : o = o' :=
  Option.some.inj (((h.owner o).mpr ho).symm.trans ((h.owner o').mpr ho'))

/-- **A writer excludes every reader.** -/
theorem excludes (h : Tracks l w r) {o : ω} (ho : w o) (i : ι) : ¬ r i := by
  intro hi
  rcases l.apart with ha | ha
  · rw [(h.owner o).mpr ho] at ha
    cases ha
  · have hm := (h.readers i).mpr hi
    rw [ha] at hm
    exact Finset.notMem_empty i hm

/-- `lock` comes through only where nobody is in a critical section -/
theorem lock (h : Tracks l w r) {o : ω} (hl : l.lock o = some l') :
    (∀ o', ¬ w o') ∧ (∀ i, ¬ r i) ∧ Tracks l' (fun o' => o' = o) r := by
  unfold SharedLock.lock at hl
  split at hl
  · rename_i hc
    obtain ⟨ho, hr⟩ := hc
    have hnone : ∀ o', ¬ w o' := by
      intro o' hw
      rw [(h.owner o').mpr hw] at ho
      cases ho
    have hempty : ∀ i, ¬ r i := by
      intro i hi
      have hm := (h.readers i).mpr hi
      rw [hr] at hm
      exact Finset.notMem_empty i hm
    obtain rfl := Option.some.inj hl
    refine ⟨hnone, hempty, fun o' => ?_, fun i => ?_⟩
    · show some o = some o' ↔ o' = o
      rw [Option.some.injEq, eq_comm]
    · show i ∈ (∅ : Finset ι) ↔ r i
      simp [hempty i]
  · cases hl

/-- and where nobody is, it does -/
theorem lock_free (h : Tracks l w r) (hw : ∀ o, ¬ w o) (hr : ∀ i, ¬ r i) (o : ω) :
    ∃ l', l.lock o = some l' := by
  have ho : l.owner.isNone = true := by
    cases hl : l.owner with
    | none => rfl
    | some o' => exact absurd ((h.owner o').mp hl) (hw o')
  have hempty : l.readers = ∅ := by
    refine Finset.eq_empty_of_forall_notMem fun i hi => ?_
    exact hr i ((h.readers i).mp hi)
  unfold SharedLock.lock
  rw [if_pos ⟨ho, hempty⟩]
  exact ⟨_, rfl⟩

theorem unlock (h : Tracks l w r) (hw' : ∀ o, ¬ w' o) : Tracks l.unlock w' r where
  owner o := by
    show none = some o ↔ w' o
    simp [hw' o]
  readers := h.readers

theorem lockShared (h : Tracks l w r) {i : ι} (hl : l.lockShared i = some l') :
    (∀ o, ¬ w o) ∧ Tracks l' w (fun j => j = i ∨ r j) := by
  unfold SharedLock.lockShared at hl
  split at hl
  · rename_i ho
    have hnone : ∀ o, ¬ w o := by
      intro o hw
      rw [(h.owner o).mpr hw] at ho
      cases ho
    obtain rfl := Option.some.inj hl
    refine ⟨hnone, fun o => ?_, fun j => ?_⟩
    · show none = some o ↔ w o
      simp [hnone o]
    · show j ∈ insert i l.readers ↔ j = i ∨ r j
      rw [Finset.mem_insert, h.readers]
  · cases hl

theorem unlockShared (h : Tracks l w r) (i : ι) : Tracks (l.unlockShared i) w (fun j => j ≠ i ∧ r j) where
  owner := h.owner
  readers j := by
    show j ∈ l.readers.erase i ↔ _
    rw [Finset.mem_erase, h.readers]

end Tracks

end SharedLock
