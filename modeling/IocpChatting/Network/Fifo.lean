import IocpChatting.Lib.BoundedFifo
import IocpChatting.Network.RingBuffer

/-!
# A ring is a queue of `n - 1` bytes

The calls of a ring as steps of a machine, and `contents` as the map to a bounded queue.  The one
call that can break the ring is `MoveFront` with more than is in use: it moves `front_` past `rear_`.

* `call_contents`, `call_written`   each call is an operation of the queue, for the contents and for
                       what it writes to `dest`;
* `Laws`, `laws`       the same call by call, in terms of the ring alone;
* `ring_conserves`     the bytes that `Enqueue` stores come out in the order in which they went in.
-/

set_option linter.unusedSectionVars false
set_option autoImplicit false

namespace Iocp
open Runs Cyclic

namespace RingBuffer

variable {α : Type} {n : Nat}

inductive Call (α : Type) where
  | enqueue (src : List α)
  | dequeue (len : Nat)
  | peek (len : Nat)
  | moveFront (size : Nat)
  | clearBuffer

/-- the ring after a call -/
def call (r : RingBuffer α n) : Call α → RingBuffer α n
  | .enqueue src => (r.enqueue src).1
  | .dequeue len => (r.dequeue len).1
  | .peek _ => r
  | .moveFront size => r.moveFront size
  | .clearBuffer => r.clearBuffer

/-- what a call writes to `dest` -/
def written (r : RingBuffer α n) : Call α → List α
  | .enqueue _ => []
  | .dequeue len => (r.dequeue len).2.1
  | .peek len => r.peek len
  | .moveFront _ => []
  | .clearBuffer => []

/-- `MoveFront` passes over bytes that are in use -/
def Permits (r : RingBuffer α n) : Call α → Prop
  | .moveFront size => size ≤ r.getSizeInUse
  | _ => True

instance (r : RingBuffer α n) : (c : Call α) → Decidable (r.Permits c)
  | .moveFront size => inferInstanceAs (Decidable (size ≤ r.getSizeInUse))
  | .enqueue _ => .isTrue trivial
  | .dequeue _ => .isTrue trivial
  | .peek _ => .isTrue trivial
  | .clearBuffer => .isTrue trivial

/-- the operation of the queue -/
def Call.op : Call α → BoundedFifo.Op α
  | .enqueue src => .push src
  | .dequeue len => .pop len
  | .peek len => .look len
  | .moveFront size => .drop size
  | .clearBuffer => .clear

/-! ## one call -/

theorem call_enqueue (r : RingBuffer α n) (src : List α) : r.call (.enqueue src) = (r.enqueue src).1 := rfl

theorem getFreeSize_eq (r : RingBuffer α n) : r.getFreeSize = n - 1 - r.contents.length := by
  rw [contents_length, ← r.inUse_add_free, Nat.add_sub_cancel_left]

theorem call_contents (r : RingBuffer α n) (c : Call α) (h : r.Permits c) :
    (r.call c).contents = BoundedFifo.step (n - 1) r.contents c.op := by
  cases c with
  | enqueue src =>
    show (r.enqueue src).1.contents = r.contents ++ src.take (n - 1 - r.contents.length)
    rw [enqueue_contents, getFreeSize_eq]
  | dequeue len => exact r.dequeue_contents len
  | peek len => rfl
  | moveFront size => exact r.moveFront_contents h
  | clearBuffer => exact r.clearBuffer_contents

theorem call_written (r : RingBuffer α n) (c : Call α) :
    r.written c = BoundedFifo.out r.contents c.op := by
  cases c with
  | enqueue src => rfl
  | dequeue len => exact (r.dequeue_bytes len).trans (r.peek_eq len)
  | peek len => exact r.peek_eq len
  | moveFront size => rfl
  | clearBuffer => rfl

/-- what the calls promise, in a state of the ring -/
structure Laws (r : RingBuffer α n) : Prop where
  front_lt : (r.front : Nat) < n
  rear_lt : (r.rear : Nat) < n
  sizes : r.getSizeInUse + r.getFreeSize = n - 1
  enqueue : ∀ src, (r.enqueue src).1.contents = r.contents ++ src.take (min src.length r.getFreeSize)
  dequeue : ∀ len, (r.dequeue len).2.1 = r.contents.take (min len r.getSizeInUse) ∧
    (r.dequeue len).1.contents = r.contents.drop (min len r.getSizeInUse)
  peek : ∀ len, r.peek len = (r.dequeue len).2.1 ∧ r.peekValue len = (r.peek len).length ∧
    r.call (.peek len) = r
  peek_moveFront : ∀ len, r.moveFront (r.peekValue len) = (r.dequeue len).1
  moveFront : ∀ k ≤ r.getSizeInUse, (r.moveFront k).contents = r.contents.drop k
  clearBuffer : r.clearBuffer.contents = []

theorem laws (r : RingBuffer α n) : r.Laws where
  front_lt := r.front.isLt
  rear_lt := r.rear.isLt
  sizes := r.inUse_add_free
  enqueue src := by rw [enqueue_contents, List.take_eq_take_min, Nat.min_comm]
  dequeue len := by
    have hmin : min len r.getSizeInUse = min len r.contents.length := by rw [contents_length]
    refine ⟨?_, ?_⟩
    · rw [dequeue_bytes, peek_eq, List.take_eq_take_min, hmin]
    · rw [dequeue_contents, List.drop_eq_drop_min, hmin]
  peek len := ⟨(r.dequeue_bytes len).symm, r.peekValue_eq len, rfl⟩
  peek_moveFront len := (r.dequeue_ring len).symm
  moveFront _ h := r.moveFront_contents h
  clearBuffer := r.clearBuffer_contents

/-! ## runs -/

section
variable (heap : Fin n → α) (hn : 0 < n) (cs : List (Call α))

/-- a run of permitted calls is a run of the queue -/
theorem run_refines_fifo (h : ∀ x ∈ hist call (init heap hn) cs, Permits x.1 x.2) :
    (run call (init heap hn) cs).contents = run (BoundedFifo.step (n - 1)) [] (cs.map Call.op) ∧
      hist (BoundedFifo.step (n - 1)) [] (cs.map Call.op)
        = (hist call (init heap hn) cs).map fun x => (x.1.contents, x.2.op) := by
  obtain ⟨hrun, hhist⟩ := run_refines call (BoundedFifo.step (n - 1)) contents (fun _ c => c.op)
    (fun _ _ (_ : True) _ => trivial) (fun r c _ hc => r.call_contents c hc) trivial cs h
  rw [init_contents, hist_labels call Call.op] at hrun hhist
  exact ⟨hrun, hhist⟩

/-- it hands out the same bytes -/
theorem run_written (h : ∀ x ∈ hist call (init heap hn) cs, Permits x.1 x.2) :
    (hist call (init heap hn) cs).map (fun x => x.1.written x.2)
      = (hist (BoundedFifo.step (n - 1)) [] (cs.map Call.op)).map
          fun x => BoundedFifo.out x.1 x.2 := by
  rw [(run_refines_fifo heap hn cs h).2, List.map_map]
  exact List.map_congr_left fun x _ => x.1.call_written x.2

/-- the bytes that a call puts into the ring -/
def stored (r : RingBuffer α n) : Call α → List α
  | .enqueue src => src.take r.getFreeSize
  | _ => []

/-- the bytes that a call takes out of the ring, or passes over -/
def removed (r : RingBuffer α n) : Call α → List α
  | .enqueue _ => []
  | .dequeue len => (r.dequeue len).2.1
  | .peek _ => []
  | .moveFront size => r.peek size
  | .clearBuffer => r.contents

theorem stored_eq (r : RingBuffer α n) (c : Call α) :
    r.stored c = BoundedFifo.taken (n - 1) r.contents c.op := by
  cases c with
  | enqueue src =>
    show src.take r.getFreeSize = src.take (n - 1 - r.contents.length)
    rw [getFreeSize_eq]
  | dequeue len => rfl
  | peek len => rfl
  | moveFront size => rfl
  | clearBuffer => rfl

theorem removed_eq (r : RingBuffer α n) (c : Call α) :
    r.removed c = BoundedFifo.gone r.contents c.op := by
  cases c with
  | enqueue src => rfl
  | dequeue len => exact (r.dequeue_bytes len).trans (r.peek_eq len)
  | peek len => rfl
  | moveFront size => exact r.peek_eq size
  | clearBuffer => rfl

/-- **What went in is what came out, and then what is there.** -/
theorem ring_conserves (h : ∀ x ∈ hist call (init heap hn) cs, Permits x.1 x.2) :
    (hist call (init heap hn) cs).flatMap (fun x => x.1.stored x.2)
      = (hist call (init heap hn) cs).flatMap (fun x => x.1.removed x.2)
        ++ (run call (init heap hn) cs).contents := by
  obtain ⟨hrun, hhist⟩ := run_refines_fifo heap hn cs h
  have hlaw := BoundedFifo.run_conserves (n - 1) [] (cs.map (@Call.op α))
  unfold BoundedFifo.takenIn BoundedFifo.goneIn at hlaw
  rw [hhist, List.nil_append, List.flatMap_map, List.flatMap_map, ← hrun] at hlaw
  simp only [stored_eq, removed_eq]
  exact hlaw

end

/-- **A ring is a bounded queue.** -/
theorem ringBuffer_refines_fifo (hn : 2 ≤ n) (heap : Fin n → α) (cs : List (Call α))
    (h : ∀ x ∈ hist call (init heap (Nat.zero_lt_of_lt hn)) cs, Permits x.1 x.2) :
    let r₀ := init heap (Nat.zero_lt_of_lt hn)
    (run call r₀ cs).Laws ∧
      (run call r₀ cs).contents = run (BoundedFifo.step (n - 1)) [] (cs.map Call.op) ∧
      (hist call r₀ cs).map (fun x => x.1.written x.2)
        = (hist (BoundedFifo.step (n - 1)) [] (cs.map Call.op)).map
            fun x => BoundedFifo.out x.1 x.2 :=
  ⟨laws _, (run_refines_fifo heap _ cs h).1, run_written heap _ cs h⟩

/-- a ring of four slots that fills up, goes around its end and is drained -/
def aroundCalls : List (Call UInt8) :=
  [.enqueue [1, 2, 3, 4], .dequeue 2, .enqueue [5, 6], .peek 9, .moveFront 2, .dequeue 3, .clearBuffer]

theorem ringBuffer_refines_fifo_around :
    (run call (init (fun _ : Fin 4 => (0 : UInt8)) (by decide)) aroundCalls).Laws ∧
      (run call (init (fun _ : Fin 4 => (0 : UInt8)) (by decide)) aroundCalls).contents
        = run (BoundedFifo.step 3) [] (aroundCalls.map Call.op) ∧
      (hist call (init (fun _ : Fin 4 => (0 : UInt8)) (by decide)) aroundCalls).map
          (fun x => x.1.written x.2)
        = (hist (BoundedFifo.step 3) [] (aroundCalls.map Call.op)).map
            fun x => BoundedFifo.out x.1 x.2 :=
  ringBuffer_refines_fifo (by decide) (fun _ => 0) aroundCalls (by decide)

/-! ## a ring that has moved on to its last slot -/

/-- a ring that was full once and has been read to the end -/
def atLastSlot (heap : Fin n → α) (hn : 0 < n) (b : α) : RingBuffer α n :=
  run call (init heap hn) [.enqueue (List.replicate (n - 1) b), .moveFront (n - 1)]

section
variable (heap : Fin n → α) (hn : 0 < n) (b : α)

theorem shift_last : (shift (⟨0, hn⟩ : Fin n) (n - 1) : Nat) = n - 1 := by
  show (0 + (n - 1)) % n = n - 1
  rw [Nat.zero_add, Nat.mod_eq_of_lt (by omega)]

theorem atLastSlot_front : ((atLastSlot heap hn b).front : Nat) = n - 1 := by
  have hfront : ((init heap hn).enqueue (List.replicate (n - 1) b)).1.front = ⟨0, hn⟩ :=
    enqueue_front _ _
  show (shift ((init heap hn).enqueue (List.replicate (n - 1) b)).1.front (n - 1) : Nat) = n - 1
  rw [hfront, shift_last]

theorem atLastSlot_rear : ((atLastSlot heap hn b).rear : Nat) = n - 1 := by
  have hfree : (init heap hn).getFreeSize = n - 1 := by
    rw [getFreeSize_eq, init_contents, List.length_nil, Nat.sub_zero]
  show (((init heap hn).enqueue (List.replicate (n - 1) b)).1.rear : Nat) = n - 1
  rw [enqueue_rear, hfree, List.length_replicate, Nat.min_self]
  exact shift_last hn

theorem atLastSlot_contents : (atLastSlot heap hn b).contents = [] := by
  rw [← List.length_eq_zero_iff, contents_length, getSizeInUse_eq, dist_eq_zero]
  exact Fin.ext ((atLastSlot_front heap hn b).trans (atLastSlot_rear heap hn b).symm)

end

end RingBuffer

end Iocp
