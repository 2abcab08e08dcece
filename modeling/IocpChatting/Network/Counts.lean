import IocpChatting.Network.Fifo
import IocpChatting.Network.Session
import IocpChatting.Content.User

/-!
# The byte counts that a ring reports

`Peek` counts the bytes in a variable of its own.  `Enqueue` and `Dequeue` return the difference of the
index before and after, and that is `n` too little once the index has gone around the end of the array.

* `shift_sub`                    the difference of two indices;
* `enqueue_result`, `dequeue_result`   what the two functions return;
* `reports_iff`                  it is the number of bytes moved exactly if the index stays inside
                                 the array;
* `enqueuePacketData_iff`, `enqueueSendData_iff`   and what the callers make of it.
-/

set_option linter.unusedSectionVars false
set_option autoImplicit false

namespace Iocp
open Runs Cyclic

namespace RingBuffer

variable {α : Type} {n : Nat}

/-- the difference of two indices, `k` places apart -/
theorem shift_sub (i : Fin n) {k : Nat} (hk : k < n) :
    ((shift i k : Nat) : Int) - (i : Nat) = if i + k < n then (k : Int) else k - n := by
  have hi := i.isLt
  rw [shift_val, mod_two_turns (by omega)]
  split <;> omega

/-- the number of bytes `Enqueue` has room for -/
def fits (r : RingBuffer α n) (src : List α) : Nat := min src.length r.getFreeSize

/-- the number of bytes `Dequeue` finds -/
def available (r : RingBuffer α n) (len : Nat) : Nat := min len r.getSizeInUse

theorem fits_lt (r : RingBuffer α n) (src : List α) : r.fits src < n := by
  have hlt := r.getSizeInUse_lt
  have hsum := r.inUse_add_free
  have hmin : r.fits src ≤ r.getFreeSize := Nat.min_le_right _ _
  omega

theorem available_lt (r : RingBuffer α n) (len : Nat) : r.available len < n :=
  Nat.lt_of_le_of_lt (Nat.min_le_right _ _) r.getSizeInUse_lt

theorem enqueue_result (r : RingBuffer α n) (src : List α) :
    (r.enqueue src).2 = if r.rear + r.fits src < n then (r.fits src : Int) else r.fits src - n := by
  have hsub : (r.enqueue src).2 = (((r.enqueue src).1.rear : Nat) : Int) - (r.rear : Nat) := by
    unfold enqueue
    split
    · exact (Int.sub_self _).symm
    · rfl
  rw [hsub, enqueue_rear]
  exact shift_sub r.rear (r.fits_lt src)

theorem dequeue_result (r : RingBuffer α n) (len : Nat) :
    (r.dequeue len).2.2
      = if r.front + r.available len < n then (r.available len : Int) else r.available len - n := by
  have hsub : (r.dequeue len).2.2 = (((r.dequeue len).1.front : Nat) : Int) - (r.front : Nat) := by
    unfold dequeue
    split
    · exact (Int.sub_self _).symm
    · rfl
  rw [hsub, dequeue_ring, peekValue_eq, peek_length]
  exact shift_sub r.front (r.available_lt len)

/-- an index that goes around the end leaves the result behind by a whole turn, below zero -/
theorem enqueue_result_neg (r : RingBuffer α n) (src : List α) (h : n ≤ r.rear + r.fits src) :
    (r.enqueue src).2 < 0 := by
  have hlt := r.fits_lt src
  rw [enqueue_result, if_neg (Nat.not_lt.mpr h)]
  omega

theorem dequeue_result_neg (r : RingBuffer α n) (len : Nat) (h : n ≤ r.front + r.available len) :
    (r.dequeue len).2.2 < 0 := by
  have hlt := r.available_lt len
  rw [dequeue_result, if_neg (Nat.not_lt.mpr h)]
  omega

/-! ## calls -/

/-- the result is the number of bytes moved: as many as were asked for, or as there are -/
def Reports (r : RingBuffer α n) : Call α → Prop
  | .enqueue src => (r.enqueue src).2 = ((r.enqueue src).1.getSizeInUse : Int) - r.getSizeInUse ∧
      (r.enqueue src).2 = r.fits src
  | .dequeue len => (r.dequeue len).2.2 = (r.getSizeInUse : Int) - (r.dequeue len).1.getSizeInUse ∧
      (r.dequeue len).2.2 = (r.dequeue len).2.1.length ∧ (r.dequeue len).2.2 = r.available len
  | _ => True

/-- **The condition.**  The index of the call stays inside the array. -/
def StaysInside (r : RingBuffer α n) : Call α → Prop
  | .enqueue src => r.rear + r.fits src < n
  | .dequeue len => r.front + r.available len < n
  | _ => True

theorem enqueue_moved (r : RingBuffer α n) (src : List α) :
    ((r.enqueue src).1.getSizeInUse : Int) - r.getSizeInUse = r.fits src := by
  rw [enqueue_inUse]
  show ((r.getSizeInUse + r.fits src : Nat) : Int) - r.getSizeInUse = r.fits src
  omega

theorem dequeue_moved (r : RingBuffer α n) (len : Nat) :
    (r.getSizeInUse : Int) - (r.dequeue len).1.getSizeInUse = r.available len := by
  have hle : r.available len ≤ r.getSizeInUse := Nat.min_le_right _ _
  have e : (r.dequeue len).1.getSizeInUse = r.getSizeInUse - r.available len := by
    rw [dequeue_ring, peekValue_eq, peek_length]
    exact r.moveFront_inUse hle
  rw [e]
  omega

theorem enqueue_reports_iff (r : RingBuffer α n) (src : List α) :
    (r.enqueue src).2 = r.fits src ↔ r.rear + r.fits src < n := by
  constructor
  · intro h
    by_contra hout
    have hneg := r.enqueue_result_neg src (Nat.not_lt.mp hout)
    omega
  · intro h
    rw [enqueue_result, if_pos h]

theorem dequeue_reports_iff (r : RingBuffer α n) (len : Nat) :
    (r.dequeue len).2.2 = r.available len ↔ r.front + r.available len < n := by
  constructor
  · intro h
    by_contra hout
    have hneg := r.dequeue_result_neg len (Nat.not_lt.mp hout)
    omega
  · intro h
    rw [dequeue_result, if_pos h]

theorem reports_iff (r : RingBuffer α n) (c : Call α) : r.Reports c ↔ r.StaysInside c := by
  cases c with
  | enqueue src =>
    show _ ∧ _ ↔ r.rear + r.fits src < n
    rw [enqueue_moved, and_self, enqueue_reports_iff]
  | dequeue len =>
    have hlen : (r.dequeue len).2.1.length = r.available len := by
      rw [dequeue_bytes, peek_length]
      rfl
    show _ ∧ _ ∧ _ ↔ r.front + r.available len < n
    rw [dequeue_moved, hlen, and_self, and_self, dequeue_reports_iff]
  | peek len => exact Iff.rfl
  | moveFront size => exact Iff.rfl
  | clearBuffer => exact Iff.rfl

theorem stored_whole_iff (r : RingBuffer α n) (src : List α) :
    (r.enqueue src).1.contents = r.contents ++ src ↔ src.length ≤ r.getFreeSize := by
  rw [enqueue_contents]
  constructor
  · intro h
    have hlen := congrArg List.length (List.append_cancel_left h)
    rw [List.length_take] at hlen
    omega
  · intro h
    rw [List.take_of_length_le h]

/-- comparing the result with the length asks for room and for staying inside the array at once -/
theorem enqueue_result_eq_length_iff (r : RingBuffer α n) (src : List α) :
    (r.enqueue src).2 = src.length ↔ src.length ≤ r.getFreeSize ∧ r.rear + src.length < n := by
  have hfits : r.fits src = min src.length r.getFreeSize := rfl
  by_cases h : r.rear + r.fits src < n
  · rw [enqueue_result, if_pos h]
    omega
  · have hneg := r.enqueue_result_neg src (Nat.not_lt.mp h)
    omega

end RingBuffer

/-! ## callers -/

/-- the result says whether the whole chunk was stored -/
def User.ReportsWhole (u : User) (data : List UInt8) : Prop :=
  (u.enqueuePacketData data).2 = true ↔
    (u.enqueuePacketData data).1.packetBuf.contents = u.packetBuf.contents ++ data

theorem User.enqueuePacketData_ring (u : User) (data : List UInt8) :
    (u.enqueuePacketData data).1.packetBuf = (u.packetBuf.enqueue data).1 := rfl

theorem User.enqueuePacketData_eq_true_iff (u : User) (data : List UInt8) :
    (u.enqueuePacketData data).2 = true ↔ data.length ≤ u.packetBuf.getFreeSize ∧
      u.packetBuf.rear + data.length < kDefaultRingBufferSize := by
  rw [← RingBuffer.enqueue_result_eq_length_iff]
  exact beq_iff_eq

theorem User.enqueuePacketData_iff (u : User) (data : List UInt8) :
    u.ReportsWhole data ↔ (data.length ≤ u.packetBuf.getFreeSize →
      u.packetBuf.rear + data.length < kDefaultRingBufferSize) := by
  unfold ReportsWhole
  rw [enqueuePacketData_eq_true_iff, enqueuePacketData_ring, RingBuffer.stored_whole_iff]
  exact and_iff_left_iff_imp

/-- the result is the accepted length -/
def Network.Session.ReportsAccepted (x : Network.Session) (data : List UInt8) : Prop :=
  (x.enqueueSendData data).2
    = ((x.enqueueSendData data).1.sendBuf.getSizeInUse : Int) - x.sendBuf.getSizeInUse

theorem Network.Session.enqueueSendData_iff (x : Network.Session) (data : List UInt8) :
    x.ReportsAccepted data ↔ x.sendBuf.rear + x.sendBuf.fits data < kDefaultRingBufferSize := by
  rw [← RingBuffer.enqueue_reports_iff, ← RingBuffer.enqueue_moved]
  rfl

/-! ## every run -/

/-- **The reported counts.**  From any state of a ring, the calls of a run all report the bytes they
move exactly if their indices all stay inside the array; `EnqueuePacketData` and `EnqueueSendData`
are right exactly under the condition on their ring. -/
theorem reported_counts_iff {α : Type} {n : Nat} (r : RingBuffer α n) (cs : List (RingBuffer.Call α)) :
    ((∀ x ∈ hist RingBuffer.call r cs, x.1.Reports x.2) ↔
        ∀ x ∈ hist RingBuffer.call r cs, x.1.StaysInside x.2) ∧
      (∀ c, (run RingBuffer.call r cs).Reports c ↔ (run RingBuffer.call r cs).StaysInside c) ∧
      (∀ (u : User) (data : List UInt8), u.ReportsWhole data ↔
        (data.length ≤ u.packetBuf.getFreeSize →
          u.packetBuf.rear + data.length < kDefaultRingBufferSize)) ∧
      ∀ (x : Network.Session) (data : List UInt8), x.ReportsAccepted data ↔
        x.sendBuf.rear + x.sendBuf.fits data < kDefaultRingBufferSize := by
  refine ⟨?_, fun c => RingBuffer.reports_iff _ c, User.enqueuePacketData_iff,
    Network.Session.enqueueSendData_iff⟩
  exact forall₂_congr fun x _ => x.1.reports_iff x.2

/-- a user who has sent a packet as long as the ring, and two bytes more -/
def farUser : User :=
  { User.init (fun _ => 0) 0 with packetBuf := .atLastSlot (fun _ => 0) kDefaultRingBufferSize_pos 0 }

/-- `Enqueue` stores both bytes and returns `2 - n`; so the chunk counts as refused -/
theorem reported_counts_off :
    (farUser.packetBuf.enqueue [1, 2]).1.contents = [1, 2] ∧
      (farUser.packetBuf.enqueue [1, 2]).2 = -16382 ∧
      (farUser.enqueuePacketData [1, 2]).1.packetBuf.contents = farUser.packetBuf.contents ++ [1, 2] ∧
      (farUser.enqueuePacketData [1, 2]).2 = false := by
  have hn : kDefaultRingBufferSize = 16384 := rfl
  have hrear : (farUser.packetBuf.rear : Nat) = kDefaultRingBufferSize - 1 :=
    RingBuffer.atLastSlot_rear _ _ _
  have hempty : farUser.packetBuf.contents = [] := RingBuffer.atLastSlot_contents _ _ _
  have hfree : farUser.packetBuf.getFreeSize = kDefaultRingBufferSize - 1 := by
    rw [RingBuffer.getFreeSize_eq, hempty, List.length_nil, Nat.sub_zero]
  have hlen : ([1, 2] : List UInt8).length = 2 := rfl
  have hfits : farUser.packetBuf.fits [1, 2] = 2 := by
    unfold RingBuffer.fits
    omega
  have hwhole := (farUser.packetBuf.stored_whole_iff [1, 2]).mpr (by omega)
  refine ⟨?_, ?_, ?_, ?_⟩
  · rw [hwhole, hempty, List.nil_append]
  · rw [RingBuffer.enqueue_result, hfits, if_neg (by omega)]
    omega
  · rw [User.enqueuePacketData_ring, hwhole]
  · rw [Bool.eq_false_iff, Ne, User.enqueuePacketData_eq_true_iff]
    omega

end Iocp
