import IocpChatting.Network.Fifo
import IocpChatting.Network.Session

/-!
# The array behind a ring

Two users of a ring go past `Enqueue` and `Dequeue` to the bytes of the array.

A writer asks `GetContinuousEnqueueSize` how much it may put at `GetRearBufferPtr`, and then calls
`MoveRear`.  Two branches of that function count the slot that has to stay free: the one for an empty
ring at its last slot and the one for a ring that goes around its end.

* `directWrite_eq`            a write that fits is the loop of `Enqueue`;
* `directAgrees_iff`          the states in which what is offered does fit;
* `offered_lost`              elsewhere, a writer that uses all of it leaves a ring that reads as empty;
* `run_direct`                a run with direct writes in the right states is a run of the queue.

`SetWsaBuf` describes the contents of the send ring as one or two pieces of the array:
`gather_list`.
-/

set_option linter.unusedSectionVars false
set_option autoImplicit false

namespace Iocp
open Runs Cyclic

namespace RingBuffer

variable {α : Type} {n : Nat}

/-! ## direct writes -/

/-- the array after a copy to the offset `off`; what goes past its end is not in it -/
def writeAt (buf : Fin n → α) : Nat → List α → Fin n → α
  | _, [] => buf
  | off, b :: src =>
    writeAt (if h : off < n then Function.update buf ⟨off, h⟩ b else buf) (off + 1) src

/-- a copy to `GetRearBufferPtr`, and `MoveRear` -/
def directWrite (r : RingBuffer α n) (src : List α) : RingBuffer α n :=
  { r with buf := writeAt r.buf r.getRearBufferPtr src }.moveRear src.length

theorem getRearBufferPtr_eq (r : RingBuffer α n) : r.getRearBufferPtr = r.rear :=
  Nat.mod_eq_of_lt r.rear.isLt

theorem writeAt_rear (r : RingBuffer α n) (b : α) (src : List α) (h : r.rear + (src.length + 1) ≤ n) :
    writeAt r.buf r.rear (b :: src) = writeAt (r.push b).buf (r.push b).rear src := by
  rw [writeAt, dif_pos r.rear.isLt]
  cases src with
  | nil => rfl
  | cons c src =>
    have e : ((r.push b).rear : Nat) = r.rear + 1 := by
      show (shift r.rear 1 : Nat) = _
      rw [List.length_cons] at h
      rw [shift_val, Nat.mod_eq_of_lt (by omega)]
    rw [e]
    rfl

/-- a write that fits is the loop of `Enqueue` -/
theorem directWrite_eq (r : RingBuffer α n) (src : List α) (hfree : src.length ≤ r.getFreeSize)
    (hend : r.rear + src.length ≤ n) : r.directWrite src = r.enqueueLoop src := by
  unfold directWrite moveRear
  rw [getRearBufferPtr_eq]
  induction src generalizing r with
  | nil =>
    show { r with rear := shift r.rear 0 } = r
    rw [shift_zero]
  | cons b src ih =>
    rw [List.length_cons] at hfree hend
    have hpos : r.getFreeSize ≠ 0 := by omega
    have hfree' : src.length ≤ (r.push b).getFreeSize := by
      rw [push_free r b hpos]
      omega
    have hend' : (r.push b).rear + src.length ≤ n := by
      have hmod : ((r.push b).rear : Nat) ≤ r.rear + 1 := Nat.mod_le _ _
      omega
    have hrear : shift (r.push b).rear src.length = shift r.rear (src.length + 1) := by
      show shift (shift r.rear 1) src.length = _
      rw [shift_shift, Nat.add_comm]
    rw [enqueueLoop_cons, if_neg hpos, ← ih (r.push b) hfree' hend', hrear, List.length_cons,
      writeAt_rear r b src hend]
    rfl

theorem directWrite_contents (r : RingBuffer α n) (src : List α)
    (hfree : src.length ≤ r.getFreeSize) (hend : r.rear + src.length ≤ n) :
    (r.directWrite src).contents = r.contents ++ src := by
  rw [directWrite_eq r src hfree hend, (enqueueLoop_spec r src).1, List.take_of_length_le hfree]

/-- a write that takes `rear_` up to `front_` -/
theorem directWrite_lost (r : RingBuffer α n) (src : List α)
    (h : shift r.rear src.length = r.front) : (r.directWrite src).contents = [] := by
  have hlen : (r.directWrite src).getSizeInUse = 0 := by
    show dist r.front (shift r.rear src.length) = 0
    rw [h, dist_self]
  rw [← List.length_eq_zero_iff, contents_length, hlen]

/-! ## what `GetContinuousEnqueueSize` offers -/

/-- the ring as `GetContinuousEnqueueSize` leaves it -/
def offering (r : RingBuffer α n) : RingBuffer α n := r.getContinuousEnqueueSize.1
def offered (r : RingBuffer α n) : Nat := r.getContinuousEnqueueSize.2

/-- a direct write of what is offered does what `Enqueue` does -/
structure DirectAgrees (r : RingBuffer α n) : Prop where
  fits : r.offered ≤ r.getFreeSize
  keeps : r.offering.contents = r.contents
  inside : ∀ k ≤ r.offered, r.offering.getRearBufferPtr + k ≤ n
  write : ∀ src : List α, src.length ≤ r.offered →
    (r.offering.directWrite src).contents = (r.enqueue src).1.contents

/-- **The condition.**  The ring is full, or does not go around its end and is not an empty ring at the
last slot. -/
def DirectRoom (r : RingBuffer α n) : Prop :=
  (r.rear : Nat) + 1 = r.front ∨ (r.front : Nat) ≤ r.rear ∧ (r.front : Nat) ≠ n - 1

instance (r : RingBuffer α n) : Decidable r.DirectRoom := inferInstanceAs (Decidable (_ ∨ _))

/-- the branches: a write of what is offered fits, or it takes `rear_` up to `front_` -/
theorem offered_cases (r : RingBuffer α n) :
    (r.DirectRoom ∧ r.offering = r ∧ r.offered ≤ r.getFreeSize ∧ r.rear + r.offered ≤ n) ∨
      (¬ r.DirectRoom ∧ r.offering = r.clearBuffer ∧ r.front = r.rear ∧ r.offered = n) ∨
      (¬ r.DirectRoom ∧ r.offering = r ∧ (r.rear : Nat) < r.front ∧ r.offered = r.front - r.rear) := by
  have hf := r.front.isLt
  have hr := r.rear.isLt
  have hnext : ((r.rear : Nat) + 1) % n
      = if (r.rear : Nat) + 1 < n then (r.rear : Nat) + 1 else (r.rear : Nat) + 1 - n :=
    mod_two_turns (by omega)
  unfold DirectRoom offering offered getContinuousEnqueueSize getFreeSize getSizeInUse
  by_cases hlast : (r.front : Nat) = n - 1 ∧ r.front = r.rear
  · have hval : (r.front : Nat) = r.rear := congrArg Fin.val hlast.2
    rw [if_pos hlast]
    exact .inr (.inl ⟨by omega, rfl, hlast.2, rfl⟩)
  · have hval : (r.front : Nat) = n - 1 → (r.front : Nat) ≠ r.rear :=
      fun h e => hlast ⟨h, Fin.ext e⟩
    rw [if_neg hlast]
    by_cases hfull : (r.rear + 1) % n = (r.front : Nat)
    · rw [if_pos hfull]
      rw [hnext] at hfull
      refine .inl ⟨?_, rfl, Nat.zero_le _, by show r.rear + 0 ≤ n; omega⟩
      split at hfull <;> omega
    · rw [if_neg hfull]
      rw [hnext] at hfull
      by_cases haround : (r.rear : Nat) < r.front
      · rw [if_pos haround]
        refine .inr (.inr ⟨?_, rfl, haround, rfl⟩)
        split at hfull <;> omega
      · rw [if_neg haround, if_neg haround]
        by_cases hend : (r.rear : Nat) = n - 1
        · rw [if_pos hend]
          refine .inl ⟨by omega, rfl, ?_, by show r.rear + 1 ≤ n; omega⟩
          show 1 ≤ n - (r.rear - r.front) - 1
          split at hfull <;> omega
        · rw [if_neg hend]
          refine .inl ⟨by omega, rfl, ?_, by show r.rear + (n - r.rear - 1) ≤ n; omega⟩
          show n - r.rear - 1 ≤ n - (r.rear - r.front) - 1
          omega

theorem direct_room {r : RingBuffer α n} (h : r.DirectRoom) :
    r.offering = r ∧ r.offered ≤ r.getFreeSize ∧ r.rear + r.offered ≤ n := by
  obtain ⟨_, hroom⟩ | ⟨hno, _⟩ | ⟨hno, _⟩ := r.offered_cases
  · exact hroom
  · exact absurd h hno
  · exact absurd h hno

/-- more is offered than is free -/
theorem free_lt_offered {r : RingBuffer α n} (h : ¬ r.DirectRoom) : r.getFreeSize < r.offered := by
  have hf := r.front.isLt
  obtain ⟨hroom, _⟩ | ⟨_, _, _, hlen⟩ | ⟨_, _, haround, hlen⟩ := r.offered_cases
  · exact absurd hroom h
  · have hsum := r.inUse_add_free
    omega
  · rw [hlen, getFreeSize, getSizeInUse, if_pos haround]
    omega

/-- **A writer that uses all that is offered there loses the contents of the ring.** -/
theorem offered_lost {r : RingBuffer α n} (h : ¬ r.DirectRoom) (src : List α)
    (hlen : src.length = r.offered) : (r.offering.directWrite src).contents = [] := by
  have hf := r.front.isLt
  apply directWrite_lost
  apply Fin.ext
  rw [shift_val, hlen]
  obtain ⟨hroom, _⟩ | ⟨_, hring, _, hall⟩ | ⟨_, hring, haround, hall⟩ := r.offered_cases
  · exact absurd hroom h
  · rw [hring, hall]
    show (0 + n) % n = 0
    rw [Nat.zero_add, Nat.mod_self]
  · rw [hring, hall, Nat.add_sub_cancel' (Nat.le_of_lt haround), Nat.mod_eq_of_lt hf]

theorem directAgrees_iff (r : RingBuffer α n) : r.DirectAgrees ↔ r.DirectRoom := by
  constructor
  · intro h
    by_contra hno
    exact absurd h.fits (Nat.not_le.mpr (free_lt_offered hno))
  · intro h
    obtain ⟨hring, hfree, hend⟩ := direct_room h
    constructor
    · exact hfree
    · rw [hring]
    · intro k hk
      rw [hring, getRearBufferPtr_eq]
      omega
    · intro src hsrc
      rw [hring, directWrite_contents r src (by omega) (by omega), enqueue_contents,
        List.take_of_length_le (by omega)]

/-! ## runs with direct writes -/

inductive DirectCall (α : Type) where
  | call (c : Call α)
  | direct (src : List α)

def directCall (r : RingBuffer α n) : DirectCall α → RingBuffer α n
  | .call c => r.call c
  | .direct src => r.offering.directWrite src

/-- a direct write asks for no more than it is offered, where the offer is good -/
def DirectPermits (r : RingBuffer α n) : DirectCall α → Prop
  | .call c => r.Permits c
  | .direct src => src.length ≤ r.offered ∧ r.DirectRoom

instance (r : RingBuffer α n) : (d : DirectCall α) → Decidable (r.DirectPermits d)
  | .call c => inferInstanceAs (Decidable (r.Permits c))
  | .direct src => inferInstanceAs (Decidable (src.length ≤ r.offered ∧ _))

def DirectCall.op : DirectCall α → BoundedFifo.Op α
  | .call c => c.op
  | .direct src => .push src

theorem directCall_contents (r : RingBuffer α n) (d : DirectCall α) (h : r.DirectPermits d) :
    (r.directCall d).contents = BoundedFifo.step (n - 1) r.contents d.op := by
  cases d with
  | call c => exact r.call_contents c h
  | direct src =>
    have hagrees := (r.directAgrees_iff).mpr h.2
    exact (hagrees.write src h.1).trans (r.call_contents (.enqueue src) trivial)

/-- in the right states a direct write is one more way to push -/
theorem run_direct (r : RingBuffer α n) (ds : List (DirectCall α))
    (h : ∀ x ∈ hist directCall r ds, x.1.DirectPermits x.2) :
    (run directCall r ds).contents
      = run (BoundedFifo.step (n - 1)) r.contents (ds.map DirectCall.op) := by
  have hrun := (run_refines directCall (BoundedFifo.step (n - 1)) contents (fun _ d => d.op)
    (fun _ _ (_ : True) _ => trivial) (fun r d _ hd => r.directCall_contents d hd) trivial ds h).1
  rw [hist_labels directCall DirectCall.op] at hrun
  exact hrun

/-- **Direct writes.**  They agree with `Enqueue` in a state exactly if it meets the condition, and a run
that uses them in such states only is a run of the queue. -/
theorem direct_writes_iff (r : RingBuffer α n) (ds : List (DirectCall α)) :
    (∀ x ∈ hist directCall r ds, x.1.DirectAgrees ↔ x.1.DirectRoom) ∧
      ((run directCall r ds).DirectAgrees ↔ (run directCall r ds).DirectRoom) ∧
      ((∀ x ∈ hist directCall r ds, x.1.DirectPermits x.2) →
        (run directCall r ds).contents
          = run (BoundedFifo.step (n - 1)) r.contents (ds.map DirectCall.op)) :=
  ⟨fun x _ => x.1.directAgrees_iff, directAgrees_iff _, run_direct r ds⟩

/-- two bytes of a ring that goes around its end -/
def aroundRing : RingBuffer UInt8 kDefaultRingBufferSize :=
  (atLastSlot (fun _ => 0) kDefaultRingBufferSize_pos 0).call (.enqueue [1, 2])

theorem aroundRing_contents : aroundRing.contents = [1, 2] := by
  have hfree := getFreeSize_eq (atLastSlot (fun _ => (0 : UInt8)) kDefaultRingBufferSize_pos 0)
  rw [atLastSlot_contents] at hfree
  rw [aroundRing, call_enqueue, enqueue_contents, atLastSlot_contents, hfree]
  rfl

theorem aroundRing_free : aroundRing.getFreeSize = 16381 := by
  rw [getFreeSize_eq, aroundRing_contents]
  rfl

theorem aroundRing_front : (aroundRing.front : Nat) = 16383 := by
  rw [aroundRing, call_enqueue, enqueue_front]
  exact atLastSlot_front _ _ _

theorem aroundRing_rear : (aroundRing.rear : Nat) = 1 := by
  have hrear : shift aroundRing.front 2 = aroundRing.rear := by
    have hlen : dist aroundRing.front aroundRing.rear = 2 := by
      rw [← getSizeInUse_eq, ← contents_length, aroundRing_contents]
      rfl
    rw [← hlen, shift_dist]
  rw [← hrear, shift_val, aroundRing_front]
  rfl

/-- what is offered to a ring with two bytes in it is one byte too much, and using it loses the two bytes
and all that is written -/
theorem direct_writes_lose :
    aroundRing.contents = [1, 2] ∧ aroundRing.getFreeSize = 16381 ∧ aroundRing.offered = 16382 ∧
      (aroundRing.offering.directWrite (List.replicate 16382 7)).contents = [] ∧
      (aroundRing.enqueue (List.replicate 16382 7)).1.contents = [1, 2] ++ List.replicate 16381 7 := by
  have hfront := aroundRing_front
  have hrear := aroundRing_rear
  have hno : ¬ aroundRing.DirectRoom := by
    unfold DirectRoom
    omega
  have hoffered : aroundRing.offered = 16382 := by
    obtain ⟨hroom, _⟩ | ⟨_, _, hsame, _⟩ | ⟨_, _, _, hlen⟩ := aroundRing.offered_cases
    · exact absurd hroom hno
    · rw [hsame] at hfront
      omega
    · omega
  refine ⟨aroundRing_contents, aroundRing_free, hoffered, ?_, ?_⟩
  · exact offered_lost hno _ (by rw [List.length_replicate, hoffered])
  · rw [enqueue_contents, aroundRing_contents, aroundRing_free, List.take_replicate]
    rfl

end RingBuffer

/-! ## the gather list -/

namespace Network

/-- the piece lies in the array of the ring -/
def WsaBuf.Inside (b : WsaBuf) : Prop := b.buf + b.len ≤ kDefaultRingBufferSize

/-- the two pieces have no byte in common -/
def WsaBuf.Apart (b c : WsaBuf) : Prop := b.buf + b.len ≤ c.buf ∨ c.buf + c.len ≤ b.buf

namespace Session

variable (x : Session)

theorem first_inside :
    (WsaBuf.mk x.sendBuf.getFrontBufferPtr x.sendBuf.getContinuousDequeueSize).Inside := by
  show x.sendBuf.getFrontBufferPtr + x.sendBuf.getContinuousDequeueSize ≤ kDefaultRingBufferSize
  rw [RingBuffer.getFrontBufferPtr_eq]
  exact x.sendBuf.front_add_continuous_le

/-- the second piece ends before the first one starts -/
theorem second_le_front :
    x.sendBuf.getBufferPtr + (x.sendBuf.getSizeInUse - x.sendBuf.getContinuousDequeueSize)
      ≤ x.sendBuf.getFrontBufferPtr := by
  have hlt := x.sendBuf.getSizeInUse_lt
  have hle := x.sendBuf.continuous_le_inUse
  rw [RingBuffer.getFrontBufferPtr_eq]
  show 0 + (x.sendBuf.getSizeInUse - x.sendBuf.getContinuousDequeueSize) ≤ x.sendBuf.front
  rcases Nat.lt_or_ge x.sendBuf.getContinuousDequeueSize x.sendBuf.getSizeInUse with h | h
  · have hend := x.sendBuf.front_add_continuous_eq h
    omega
  · omega

theorem setWsaBuf_cases :
    x.setWsaBuf = [⟨x.sendBuf.getFrontBufferPtr, x.sendBuf.getContinuousDequeueSize⟩] ∨
      x.setWsaBuf = [⟨x.sendBuf.getFrontBufferPtr, x.sendBuf.getContinuousDequeueSize⟩,
        ⟨x.sendBuf.getBufferPtr, x.sendBuf.getSizeInUse - x.sendBuf.getContinuousDequeueSize⟩] := by
  unfold setWsaBuf
  split
  · exact .inr rfl
  · exact .inl rfl

theorem setWsaBuf_inside : ∀ b ∈ x.setWsaBuf, b.Inside := by
  have hfirst := x.first_inside
  have hsecond : (WsaBuf.mk x.sendBuf.getBufferPtr
      (x.sendBuf.getSizeInUse - x.sendBuf.getContinuousDequeueSize)).Inside := by
    have hfront : x.sendBuf.getFrontBufferPtr ≤ kDefaultRingBufferSize :=
      Nat.le_trans (Nat.le_add_right _ _) hfirst
    exact Nat.le_trans x.second_le_front hfront
  intro b hb
  obtain h | h := x.setWsaBuf_cases
  · rw [h, List.mem_singleton] at hb
    rw [hb]
    exact hfirst
  · rw [h, List.mem_cons, List.mem_singleton] at hb
    rcases hb with rfl | rfl
    · exact hfirst
    · exact hsecond

theorem setWsaBuf_apart : x.setWsaBuf.Pairwise WsaBuf.Apart := by
  obtain h | h := x.setWsaBuf_cases
  · rw [h]
    exact List.pairwise_singleton _ _
  · rw [h, List.pairwise_pair]
    exact .inr x.second_le_front

theorem setWsaBuf_length : 1 ≤ x.setWsaBuf.length ∧ x.setWsaBuf.length ≤ 2 := by
  obtain h | h := x.setWsaBuf_cases
  · rw [h]
    exact ⟨Nat.le_refl 1, Nat.le_succ 1⟩
  · rw [h]
    exact ⟨Nat.le_succ 1, Nat.le_refl 2⟩

/-- **The gather list is the contents of the send ring**, in pieces of the array that do not overlap, and
what the kernel takes of it is what `MoveFront` drops. -/
theorem gather_list :
    (1 ≤ x.setWsaBuf.length ∧ x.setWsaBuf.length ≤ 2) ∧
      (∀ b ∈ x.setWsaBuf, b.Inside) ∧
      x.setWsaBuf.Pairwise WsaBuf.Apart ∧
      x.wsaBytes x.setWsaBuf = x.sendBuf.contents ∧
      wsaLen x.setWsaBuf = x.sendBuf.contents.length ∧
      ∀ m ≤ wsaLen x.setWsaBuf,
        (x.sendBuf.moveFront m).contents = (x.wsaBytes x.setWsaBuf).drop m := by
  have hlen := x.wsaLen_setWsaBuf
  have hbytes := x.wsaBytes_setWsaBuf
  refine ⟨x.setWsaBuf_length, x.setWsaBuf_inside, x.setWsaBuf_apart, hbytes, ?_, ?_⟩
  · rw [hlen, RingBuffer.contents_length]
  · intro m hm
    rw [hbytes]
    exact x.sendBuf.moveFront_contents (hlen ▸ hm)

end Session

end Network

end Iocp
