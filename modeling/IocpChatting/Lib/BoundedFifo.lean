import IocpChatting.Lib.Runs

/-!
# A bounded queue

A queue of at most `cap` values, the oldest first.

* `step cap q op`   the queue after an operation; what does not fit is not taken;
* `out q op`        what the operation hands to its caller;
* `taken`, `gone`   the values that enter the queue in a step, and those that leave it.

`run_conserves`: what a run takes in is what leaves, followed by what is still there, in the same
order.
-/

set_option linter.unusedSectionVars false
set_option autoImplicit false

namespace BoundedFifo
open Runs

variable {α : Type*}

inductive Op (α : Type*) where
  | push (l : List α)
  | pop (k : Nat)
  | look (k : Nat)
  | drop (k : Nat)
  | clear

def step (cap : Nat) (q : List α) : Op α → List α
  | .push l => q ++ l.take (cap - q.length)
  | .pop k => q.drop k
  | .look _ => q
  | .drop k => q.drop k
  | .clear => []

def out (q : List α) : Op α → List α
  | .push _ => []
  | .pop k => q.take k
  | .look k => q.take k
  | .drop _ => []
  | .clear => []

def taken (cap : Nat) (q : List α) : Op α → List α
  | .push l => l.take (cap - q.length)
  | _ => []

def gone (q : List α) : Op α → List α
  | .push _ => []
  | .pop k => q.take k
  | .look _ => []
  | .drop k => q.take k
  | .clear => q

variable (cap : Nat)

theorem step_conserves (q : List α) (op : Op α) :
    q ++ taken cap q op = gone q op ++ step cap q op := by
  cases op with
  | push l => rfl
  | pop k => exact (List.append_nil q).trans (List.take_append_drop k q).symm
  | look k => exact List.append_nil q
  | drop k => exact (List.append_nil q).trans (List.take_append_drop k q).symm
  | clear => rfl

def takenIn (q : List α) (ops : List (Op α)) : List α :=
  (hist (step cap) q ops).flatMap fun x => taken cap x.1 x.2

def goneIn (q : List α) (ops : List (Op α)) : List α :=
  (hist (step cap) q ops).flatMap fun x => gone x.1 x.2

/-- **Conservation.**  Nothing is lost, made up or put out of order. -/
theorem run_conserves (q : List α) (ops : List (Op α)) :
    q ++ takenIn cap q ops = goneIn cap q ops ++ run (step cap) q ops := by
  induction ops generalizing q with
  | nil => exact List.append_nil q
  | cons op ops ih =>
    show q ++ (taken cap q op ++ takenIn cap (step cap q op) ops)
      = (gone q op ++ goneIn cap (step cap q op) ops) ++ run (step cap) (step cap q op) ops
    rw [← List.append_assoc, step_conserves, List.append_assoc, ih, List.append_assoc]

end BoundedFifo
