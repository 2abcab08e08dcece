import IocpChatting.Lib.Cyclic

/-!
# `RingBuffer` (Network/ring_buffer.h, ring_buffer.cpp)

The ring of `n` bytes with the two indices `front_` and `rear_`; one slot always stays free, so
`front_ = rear_` means empty.  `size_` is the parameter `n`; the indices are `Fin n`, so a state
with an index outside the array cannot be written down.

* the functions of ring_buffer.cpp, loop by loop;
* `contents`         the bytes in the ring, oldest first;
* one lemma per function that says what it does to `contents`.

The type of a byte is a parameter: the server's rings hold `UInt8`, and a ring of anything else that
goes through the same calls keeps notes about the bytes, slot by slot.

A pointer into the array is its offset from `p_buf_`; `byteAt` reads through such a pointer, and past
the end of the array it reads `past`, memory that is not the ring's.
-/

set_option linter.unusedSectionVars false
set_option autoImplicit false

namespace Iocp
open Cyclic

abbrev kDefaultRingBufferSize : Nat := 1024 * 16
theorem kDefaultRingBufferSize_pos : 0 < kDefaultRingBufferSize := by decide
abbrev kSessionRecvBufSize : Nat := 1024 * 16

structure RingBuffer (α : Type) (n : Nat) where
  buf : Fin n → α
  front : Fin n
  rear : Fin n

namespace RingBuffer

variable {α : Type} {n : Nat}

/-! ## ring_buffer.cpp -/

/-- the constructor; `new char[]` leaves the bytes as the heap has them -/
def init (heap : Fin n → α) (hn : 0 < n) : RingBuffer α n := ⟨heap, ⟨0, hn⟩, ⟨0, hn⟩⟩

def getSizeInUse (r : RingBuffer α n) : Nat :=
  if (r.rear : Nat) < r.front then n - (r.front - r.rear) else r.rear - r.front

def getFreeSize (r : RingBuffer α n) : Nat := n - r.getSizeInUse - 1

def enqueueLoop : RingBuffer α n → List α → RingBuffer α n
  | r, [] => r
  | r, b :: src =>
    if (r.rear + 1) % n = r.front then r
    else enqueueLoop { r with buf := Function.update r.buf r.rear b, rear := shift r.rear 1 } src

/-- `Enqueue`; the result is the difference of two indices -/
def enqueue (r : RingBuffer α n) (src : List α) : RingBuffer α n × Int :=
  if r.getFreeSize = 0 then (r, 0)
  else (r.enqueueLoop src, (r.enqueueLoop src).rear - r.rear)

def peekLoop (r : RingBuffer α n) : Fin n → Nat → List α
  | _, 0 => []
  | tmp, len+1 => if tmp = r.rear then [] else r.buf tmp :: peekLoop r (shift tmp 1) len

/-- `Peek`: the bytes written to `dest`; the returned `value` is their number -/
def peek (r : RingBuffer α n) (len : Nat) : List α := r.peekLoop r.front len

/-- the same loop, with the counter that `Peek` returns -/
def peekValueLoop (r : RingBuffer α n) : Fin n → Nat → Nat → Nat
  | _, 0, value => value
  | tmp, len+1, value =>
    if tmp = r.rear then value else peekValueLoop r (shift tmp 1) len (value + 1)

/-- what `Peek` returns -/
def peekValue (r : RingBuffer α n) (len : Nat) : Nat := r.peekValueLoop r.front len 0

def dequeueLoop : RingBuffer α n → Nat → RingBuffer α n × List α
  | r, 0 => (r, [])
  | r, len+1 =>
    if r.front = r.rear then (r, [])
    else
      let (r', dest) := dequeueLoop { r with front := shift r.front 1 } len
      (r', r.buf r.front :: dest)

/-- `Dequeue`: the ring, the bytes written to `dest`, and the result, a difference of two indices -/
def dequeue (r : RingBuffer α n) (len : Nat) : RingBuffer α n × List α × Int :=
  if r.getSizeInUse = 0 then (r, [], 0)
  else ((r.dequeueLoop len).1, (r.dequeueLoop len).2, (r.dequeueLoop len).1.front - r.front)

def moveRear (r : RingBuffer α n) (size : Nat) : RingBuffer α n := { r with rear := shift r.rear size }

def moveFront (r : RingBuffer α n) (size : Nat) : RingBuffer α n := { r with front := shift r.front size }

/-- how far one can write from `rear_` without going around the end; an empty ring at its last slot goes
back to the beginning first -/
def getContinuousEnqueueSize (r : RingBuffer α n) : RingBuffer α n × Nat :=
  if (r.front : Nat) = n - 1 ∧ r.front = r.rear then
    ({ r with front := ⟨0, r.front.pos⟩, rear := ⟨0, r.front.pos⟩ }, n)
  else if (r.rear + 1) % n = (r.front : Nat) then (r, 0)
  else if (r.rear : Nat) < r.front then (r, r.front - r.rear)
  else if (r.rear : Nat) = n - 1 then (r, 1)
  else (r, n - r.rear - 1)

/-- how far one can read from `front_` without going around the end -/
def getContinuousDequeueSize (r : RingBuffer α n) : Nat :=
  if r.front = r.rear then 0
  else if (r.front : Nat) = n - 1 then 1
  else if (r.rear : Nat) < r.front then n - r.front
  else r.rear - r.front

/-- `GetBufferPtr`, as the offset from `p_buf_` -/
def getBufferPtr (_r : RingBuffer α n) : Nat := 0

/-- `GetFrontBufferPtr`, as the offset from `p_buf_` -/
def getFrontBufferPtr (r : RingBuffer α n) : Nat := r.front % n

/-- `GetRearBufferPtr`, as the offset from `p_buf_` -/
def getRearBufferPtr (r : RingBuffer α n) : Nat := r.rear % n

def clearBuffer (r : RingBuffer α n) : RingBuffer α n :=
  { r with front := ⟨0, r.front.pos⟩, rear := ⟨0, r.front.pos⟩ }

/-- the byte at offset `k` from `p_buf_` -/
def byteAt (r : RingBuffer α n) (past : Nat → α) (k : Nat) : α :=
  if h : k < n then r.buf ⟨k, h⟩ else past (k - n)

/-- the bytes of the array from offset `off` on, `len` of them as far as the array goes -/
def slice (r : RingBuffer α n) (off len : Nat) : List α :=
  (List.range len).filterMap fun k => if h : off + k < n then some (r.buf ⟨off + k, h⟩) else none

/-! ## what is in the ring -/

def contents (r : RingBuffer α n) : List α := window r.buf r.front r.getSizeInUse

theorem getSizeInUse_eq (r : RingBuffer α n) : r.getSizeInUse = dist r.front r.rear := rfl

theorem getSizeInUse_lt (r : RingBuffer α n) : r.getSizeInUse < n := dist_lt _ _

@[simp] theorem contents_length (r : RingBuffer α n) : r.contents.length = r.getSizeInUse :=
  window_length _ _ _

theorem mem_contents {r : RingBuffer α n} {b : α} (h : b ∈ r.contents) : ∃ k, r.buf k = b :=
  mem_window h

theorem inUse_add_free (r : RingBuffer α n) : r.getSizeInUse + r.getFreeSize = n - 1 := by
  have h := r.getSizeInUse_lt
  unfold getFreeSize
  omega

theorem next_rear_eq_front (r : RingBuffer α n) :
    (r.rear + 1) % n = (r.front : Nat) ↔ r.getFreeSize = 0 := by
  have h := shift_one_eq r.front r.rear
  have hlt := r.getSizeInUse_lt
  have hsum := r.inUse_add_free
  rw [Fin.ext_iff, shift_val, ← getSizeInUse_eq] at h
  rw [h]
  omega

def push (r : RingBuffer α n) (b : α) : RingBuffer α n :=
  { r with buf := Function.update r.buf r.rear b, rear := shift r.rear 1 }

theorem push_inUse (r : RingBuffer α n) (b : α) (h : r.getFreeSize ≠ 0) :
    (r.push b).getSizeInUse = r.getSizeInUse + 1 := by
  have hlt := r.getSizeInUse_lt
  have hsum := r.inUse_add_free
  exact dist_shift_right r.front r.rear (by rw [← getSizeInUse_eq]; omega)

theorem push_contents (r : RingBuffer α n) (b : α) (h : r.getFreeSize ≠ 0) :
    (r.push b).contents = r.contents ++ [b] := by
  have hlt := r.getSizeInUse_lt
  have e : shift r.front r.getSizeInUse = r.rear := shift_dist _ _
  show window (r.push b).buf r.front (r.push b).getSizeInUse = _
  rw [push_inUse r b h, window_add, e]
  have h1 : window (r.push b).buf r.front r.getSizeInUse = r.contents := by
    show window (Function.update r.buf r.rear b) _ _ = _
    rw [← e]
    exact window_update _ _ _ (Nat.le_refl _) hlt
  have h2 : window (r.push b).buf r.rear 1 = [b] := by
    show [Function.update r.buf r.rear b r.rear] = [b]
    rw [Function.update_self]
  rw [h1, h2]

theorem push_free (r : RingBuffer α n) (b : α) (h : r.getFreeSize ≠ 0) :
    (r.push b).getFreeSize = r.getFreeSize - 1 := by
  have h1 := r.inUse_add_free
  have h2 := (r.push b).inUse_add_free
  have h3 := r.push_inUse b h
  omega

theorem enqueueLoop_cons (r : RingBuffer α n) (b : α) (src : List α) :
    r.enqueueLoop (b :: src) =
      if r.getFreeSize = 0 then r else (r.push b).enqueueLoop src := by
  by_cases h : r.getFreeSize = 0
  · rw [if_pos h, enqueueLoop, if_pos ((next_rear_eq_front r).mpr h)]
  · rw [if_neg h, enqueueLoop, if_neg (fun hc => h ((next_rear_eq_front r).mp hc))]
    rfl

/-- the loop stores what fits, behind what is there, and leaves `front_` alone -/
theorem enqueueLoop_spec (r : RingBuffer α n) (src : List α) :
    (r.enqueueLoop src).contents = r.contents ++ src.take r.getFreeSize ∧
      (r.enqueueLoop src).front = r.front := by
  induction src generalizing r with
  | nil => exact ⟨by simp [enqueueLoop], rfl⟩
  | cons b src ih =>
    rw [enqueueLoop_cons]
    by_cases h : r.getFreeSize = 0
    · rw [if_pos h, h, List.take_zero, List.append_nil]
      exact ⟨rfl, rfl⟩
    · rw [if_neg h]
      obtain ⟨hc, hf⟩ := ih (r.push b)
      refine ⟨?_, hf⟩
      have e : r.getFreeSize = r.getFreeSize - 1 + 1 := by omega
      rw [hc, push_contents r b h, push_free r b h, List.append_assoc, List.singleton_append]
      conv_rhs => rw [e, List.take_succ_cons]

/-- **`Enqueue` appends the first `min len free` bytes.** -/
theorem enqueue_contents (r : RingBuffer α n) (src : List α) :
    (r.enqueue src).1.contents = r.contents ++ src.take r.getFreeSize := by
  unfold enqueue
  split
  · next h => rw [h, List.take_zero, List.append_nil]
  · exact (enqueueLoop_spec r src).1

theorem enqueue_front (r : RingBuffer α n) (src : List α) :
    (r.enqueue src).1.front = r.front := by
  unfold enqueue
  split
  · rfl
  · exact (enqueueLoop_spec r src).2

theorem enqueueLoop_rear (r : RingBuffer α n) (src : List α) :
    (r.enqueueLoop src).rear = shift r.rear (min src.length r.getFreeSize) := by
  induction src generalizing r with
  | nil => rw [List.length_nil, Nat.zero_min, shift_zero]; rfl
  | cons b src ih =>
    rw [enqueueLoop_cons]
    by_cases h : r.getFreeSize = 0
    · rw [if_pos h, h, Nat.min_zero, shift_zero]
    · have e : 1 + min src.length (r.getFreeSize - 1)
          = min (b :: src).length r.getFreeSize := by
        rw [List.length_cons]
        omega
      rw [if_neg h, ih, push_free r b h]
      show shift (shift r.rear 1) _ = _
      rw [shift_shift, e]

/-- `rear_` goes on by the number of bytes stored -/
theorem enqueue_rear (r : RingBuffer α n) (src : List α) :
    (r.enqueue src).1.rear = shift r.rear (min src.length r.getFreeSize) := by
  unfold enqueue
  split
  · next h => rw [h, Nat.min_zero, shift_zero]
  · exact enqueueLoop_rear r src

/-- the number of bytes that `Enqueue` stores -/
theorem enqueue_inUse (r : RingBuffer α n) (src : List α) :
    (r.enqueue src).1.getSizeInUse = r.getSizeInUse + min src.length r.getFreeSize := by
  rw [← contents_length, enqueue_contents, List.length_append, contents_length, List.length_take,
    Nat.min_comm]

theorem enqueue_buf (r : RingBuffer α n) (src : List α) (k : Fin n) :
    (r.enqueue src).1.buf k = r.buf k ∨ (r.enqueue src).1.buf k ∈ src := by
  have hloop : ∀ r : RingBuffer α n,
      (r.enqueueLoop src).buf k = r.buf k ∨ (r.enqueueLoop src).buf k ∈ src := by
    induction src with
    | nil => exact fun r => .inl rfl
    | cons b src ih =>
      intro r
      rw [enqueueLoop_cons]
      split
      · exact .inl rfl
      · rcases ih (r.push b) with h | h
        · rw [h]
          show Function.update r.buf r.rear b k = r.buf k ∨ _
          by_cases hk : k = r.rear
          · subst hk
            right
            show Function.update r.buf r.rear b r.rear ∈ _
            rw [Function.update_self]
            exact List.mem_cons_self
          · exact .inl (Function.update_of_ne hk _ _)
        · exact .inr (List.mem_cons_of_mem _ h)
  unfold enqueue
  split
  · exact .inl rfl
  · exact hloop r

/-! ## rings side by side -/

/-- the two rings have their indices at the same places -/
def Aligned {β : Type} (r : RingBuffer α n) (r' : RingBuffer β n) : Prop :=
  r'.front = r.front ∧ r'.rear = r.rear

section
variable {β : Type} {r : RingBuffer α n} {r' : RingBuffer β n}

theorem Aligned.inUse (h : Aligned r r') : r'.getSizeInUse = r.getSizeInUse := by
  rw [getSizeInUse_eq, getSizeInUse_eq, h.1, h.2]

theorem Aligned.free (h : Aligned r r') : r'.getFreeSize = r.getFreeSize := by
  unfold getFreeSize
  rw [h.inUse]

theorem Aligned.enqueueLoop {src : List α} {src' : List β} (h : Aligned r r')
    (hlen : src'.length = src.length) : Aligned (r.enqueueLoop src) (r'.enqueueLoop src') := by
  induction src generalizing r r' src' with
  | nil =>
    rw [List.length_eq_zero_iff.mp hlen]
    exact h
  | cons b src ih =>
    obtain ⟨b', l, rfl⟩ := List.exists_cons_of_length_eq_add_one hlen
    rw [enqueueLoop_cons, enqueueLoop_cons, h.free]
    split
    · exact h
    · refine ih ⟨h.1, ?_⟩ (by simpa using hlen)
      show shift r'.rear 1 = shift r.rear 1
      rw [h.2]

theorem Aligned.enqueue {src : List α} {src' : List β} (h : Aligned r r')
    (hlen : src'.length = src.length) : Aligned (r.enqueue src).1 (r'.enqueue src').1 := by
  unfold RingBuffer.enqueue
  rw [h.free]
  split
  · exact h
  · exact h.enqueueLoop hlen

theorem Aligned.moveFront (h : Aligned r r') (k : Nat) :
    Aligned (r.moveFront k) (r'.moveFront k) := by
  refine ⟨?_, h.2⟩
  show shift r'.front k = shift r.front k
  rw [h.1]

theorem aligned_clearBuffer (r : RingBuffer α n) (r' : RingBuffer β n) :
    Aligned r.clearBuffer r'.clearBuffer := ⟨rfl, rfl⟩

theorem Aligned.contents_length (h : Aligned r r') : r'.contents.length = r.contents.length := by
  rw [RingBuffer.contents_length, RingBuffer.contents_length, h.inUse]

end

theorem peekLoop_eq (r : RingBuffer α n) (tmp : Fin n) (len : Nat) :
    r.peekLoop tmp len = window r.buf tmp (min len (dist tmp r.rear)) := by
  induction len generalizing tmp with
  | zero => rw [Nat.zero_min]; rfl
  | succ len ih =>
    rw [peekLoop]
    by_cases h : tmp = r.rear
    · rw [if_pos h, h, dist_self, Nat.min_zero]; rfl
    · have h1 : dist tmp r.rear ≠ 0 := fun hc => h (dist_eq_zero.mp hc)
      have h2 := dist_shift_left tmp r.rear (k := 1) (by omega)
      have e : min (len + 1) (dist tmp r.rear) = min len (dist tmp r.rear - 1) + 1 := by omega
      rw [if_neg h, ih, h2, e, window_succ]

/-- **`Peek` copies the first `min len inUse` bytes.** -/
theorem peek_eq (r : RingBuffer α n) (len : Nat) : r.peek len = r.contents.take len := by
  show r.peekLoop r.front len = _
  rw [peekLoop_eq, ← getSizeInUse_eq]
  rcases Nat.le_total len r.getSizeInUse with h | h
  · rw [Nat.min_eq_left h, contents, window_take _ _ h]
  · rw [Nat.min_eq_right h, List.take_of_length_le (by simpa using h)]
    rfl

theorem peekValueLoop_eq (r : RingBuffer α n) (tmp : Fin n) (len value : Nat) :
    r.peekValueLoop tmp len value = value + (r.peekLoop tmp len).length := by
  induction len generalizing tmp value with
  | zero => rfl
  | succ len ih =>
    rw [peekValueLoop, peekLoop]
    split
    · rfl
    · rw [ih, List.length_cons]
      omega

/-- **`Peek` returns the number of bytes it copies.** -/
theorem peekValue_eq (r : RingBuffer α n) (len : Nat) : r.peekValue len = (r.peek len).length := by
  show r.peekValueLoop r.front len 0 = _
  rw [peekValueLoop_eq, Nat.zero_add]
  rfl

theorem peek_length (r : RingBuffer α n) (len : Nat) :
    (r.peek len).length = min len r.getSizeInUse := by
  rw [peek_eq, List.length_take, contents_length]

@[simp] theorem moveFront_zero (r : RingBuffer α n) : r.moveFront 0 = r := by
  show { r with front := shift r.front 0 } = r
  rw [shift_zero]

theorem moveFront_moveFront (r : RingBuffer α n) (a b : Nat) :
    (r.moveFront a).moveFront b = r.moveFront (a + b) := by
  show { r with front := shift (shift r.front a) b } = { r with front := shift r.front (a + b) }
  rw [shift_shift]

/-- `Peek` does not look at `front_` after its first line -/
theorem peekLoop_moveFront (r : RingBuffer α n) (k : Nat) (tmp : Fin n) (len : Nat) :
    (r.moveFront k).peekLoop tmp len = r.peekLoop tmp len := by
  induction len generalizing tmp with
  | zero => rfl
  | succ len ih =>
    rw [peekLoop, peekLoop, ih]
    rfl

/-- the loop of `Dequeue` is the loop of `Peek`, and `front_` goes along -/
theorem dequeueLoop_eq (r : RingBuffer α n) (len : Nat) :
    r.dequeueLoop len = (r.moveFront (r.peek len).length, r.peek len) := by
  induction len generalizing r with
  | zero =>
    show (r, []) = (r.moveFront 0, [])
    rw [moveFront_zero]
  | succ len ih =>
    have hpeek : (r.moveFront 1).peek len = r.peekLoop (shift r.front 1) len :=
      r.peekLoop_moveFront 1 _ len
    rw [dequeueLoop, peek, peekLoop]
    by_cases h : r.front = r.rear
    · rw [if_pos h, if_pos h, List.length_nil, moveFront_zero]
    · rw [if_neg h, if_neg h, ← hpeek, List.length_cons, Nat.add_comm _ 1, ← moveFront_moveFront]
      show (((r.moveFront 1).dequeueLoop len).1, r.buf r.front :: ((r.moveFront 1).dequeueLoop len).2) = _
      rw [ih]

theorem peek_of_inUse_eq_zero (r : RingBuffer α n) (len : Nat) (h : r.getSizeInUse = 0) :
    r.peek len = [] := by
  rw [← List.length_eq_zero_iff, peek_length, h, Nat.min_zero]

/-- **`Dequeue` leaves the ring as `MoveFront` after `Peek` does** -/
theorem dequeue_ring (r : RingBuffer α n) (len : Nat) :
    (r.dequeue len).1 = r.moveFront (r.peekValue len) := by
  rw [peekValue_eq]
  unfold dequeue
  by_cases h : r.getSizeInUse = 0
  · rw [if_pos h, peek_of_inUse_eq_zero r len h, List.length_nil, moveFront_zero]
  · rw [if_neg h, dequeueLoop_eq]

/-- **and writes the bytes that `Peek` does.** -/
theorem dequeue_bytes (r : RingBuffer α n) (len : Nat) : (r.dequeue len).2.1 = r.peek len := by
  unfold dequeue
  by_cases h : r.getSizeInUse = 0
  · rw [if_pos h, peek_of_inUse_eq_zero r len h]
  · rw [if_neg h, dequeueLoop_eq]

theorem moveFront_inUse (r : RingBuffer α n) {k : Nat} (h : k ≤ r.getSizeInUse) :
    (r.moveFront k).getSizeInUse = r.getSizeInUse - k := dist_shift_left _ _ h

/-- **`MoveFront(k)` drops the first `k` bytes**, for `k` up to what is in use. -/
theorem moveFront_contents (r : RingBuffer α n) {k : Nat} (h : k ≤ r.getSizeInUse) :
    (r.moveFront k).contents = r.contents.drop k := by
  show window r.buf (shift r.front k) (r.moveFront k).getSizeInUse = _
  rw [moveFront_inUse r h, contents, window_drop _ _ h]

theorem dequeue_contents (r : RingBuffer α n) (len : Nat) :
    (r.dequeue len).1.contents = r.contents.drop len := by
  have hle : r.peekValue len ≤ r.getSizeInUse := by
    rw [peekValue_eq, peek_length]
    exact Nat.min_le_right _ _
  rw [dequeue_ring, moveFront_contents r hle, peekValue_eq, peek_length]
  rcases Nat.le_total len r.getSizeInUse with h | h
  · rw [Nat.min_eq_left h]
  · rw [Nat.min_eq_right h, List.drop_of_length_le (by simp), List.drop_of_length_le (by simpa using h)]

@[simp] theorem clearBuffer_contents (r : RingBuffer α n) : r.clearBuffer.contents = [] := by
  show window r.buf _ (dist (⟨0, r.front.pos⟩ : Fin n) ⟨0, r.front.pos⟩) = []
  rw [dist_self]; rfl

@[simp] theorem init_contents (heap : Fin n → α) (hn : 0 < n) : (init heap hn).contents = [] := by
  show window heap _ (dist (⟨0, hn⟩ : Fin n) ⟨0, hn⟩) = []
  rw [dist_self]; rfl

theorem getFrontBufferPtr_eq (r : RingBuffer α n) : r.getFrontBufferPtr = r.front :=
  Nat.mod_eq_of_lt r.front.isLt

/-- while the array lasts, the raw memory at `front_` is the contents of the ring -/
theorem byteAt_front (r : RingBuffer α n) (past : Nat → α) {m : Nat} (hm : m < r.getSizeInUse)
    (h : r.front + m < n) :
    r.contents[m]? = some (r.byteAt past (r.getFrontBufferPtr + m)) := by
  have e : shift r.front m = ⟨r.front + m, h⟩ := Fin.ext (Nat.mod_eq_of_lt h)
  rw [contents, window_getElem? _ _ hm, e, getFrontBufferPtr_eq, RingBuffer.byteAt, dif_pos h]

/-! ## the array in pieces -/

@[simp] theorem slice_zero (r : RingBuffer α n) (off : Nat) : r.slice off 0 = [] := rfl

theorem slice_succ (r : RingBuffer α n) {off len : Nat} (h : off < n) :
    r.slice off (len + 1) = r.buf ⟨off, h⟩ :: r.slice (off + 1) len := by
  unfold slice
  rw [List.range_succ_eq_map, List.filterMap_cons]
  simp only [Nat.add_zero, h, dif_pos, List.filterMap_map]
  congr 1
  refine List.filterMap_congr fun k _ => ?_
  simp only [Function.comp_apply, Nat.succ_eq_add_one]
  have e : off + (k + 1) = off + 1 + k := by omega
  simp only [e]

/-- a piece that stays inside the array is a window that does not go around its end -/
theorem slice_eq_window (r : RingBuffer α n) {i : Fin n} {len : Nat} (h : i + len ≤ n) :
    r.slice i len = window r.buf i len := by
  induction len generalizing i with
  | zero => rfl
  | succ len ih =>
    rw [slice_succ r i.isLt, window_succ]
    congr 1
    cases len with
    | zero => rfl
    | succ len =>
      have e : (shift i 1 : Nat) = i + 1 := Nat.mod_eq_of_lt (by omega)
      rw [← ih (by omega), e]

theorem continuous_le_inUse (r : RingBuffer α n) : r.getContinuousDequeueSize ≤ r.getSizeInUse := by
  have hf := r.front.isLt
  have hr := r.rear.isLt
  unfold getContinuousDequeueSize getSizeInUse
  by_cases e : r.front = r.rear
  · rw [if_pos e]
    exact Nat.zero_le _
  · have hne : (r.front : Nat) ≠ r.rear := fun h => e (Fin.ext h)
    rw [if_neg e]
    split <;> split <;> omega

theorem front_add_continuous_le (r : RingBuffer α n) :
    r.front + r.getContinuousDequeueSize ≤ n := by
  have hf := r.front.isLt
  have hr := r.rear.isLt
  unfold getContinuousDequeueSize
  split
  · omega
  · split
    · omega
    · split <;> omega

/-- what does not lie before the end of the array starts at its beginning -/
theorem front_add_continuous_eq (r : RingBuffer α n)
    (h : r.getContinuousDequeueSize < r.getSizeInUse) :
    r.front + r.getContinuousDequeueSize = n := by
  have hf := r.front.isLt
  have hr := r.rear.isLt
  unfold getContinuousDequeueSize getSizeInUse at *
  by_cases e : r.front = r.rear
  · rw [if_pos e, e] at h
    simp at h
  · have hne : (r.front : Nat) ≠ r.rear := fun h => e (Fin.ext h)
    rw [if_neg e] at h ⊢
    by_cases hlast : (r.front : Nat) = n - 1
    · rw [if_pos hlast]
      omega
    · rw [if_neg hlast] at h ⊢
      by_cases hwrap : (r.rear : Nat) < r.front
      · rw [if_pos hwrap]
        omega
      · rw [if_neg hwrap, if_neg hwrap] at h
        omega

/-- **The contents are the piece up to the end of the array and the piece from its beginning.** -/
theorem contents_pieces (r : RingBuffer α n) :
    r.contents = r.slice r.getFrontBufferPtr r.getContinuousDequeueSize
      ++ r.slice r.getBufferPtr (r.getSizeInUse - r.getContinuousDequeueSize) := by
  have hle := r.continuous_le_inUse
  have hlt := r.getSizeInUse_lt
  have hend := r.front_add_continuous_le
  have hfirst : r.slice r.getFrontBufferPtr r.getContinuousDequeueSize
      = window r.buf r.front r.getContinuousDequeueSize := by
    rw [show r.getFrontBufferPtr = (r.front : Nat) from Nat.mod_eq_of_lt r.front.isLt]
    exact slice_eq_window r hend
  obtain ⟨k, hk⟩ := Nat.exists_eq_add_of_le hle
  rw [hfirst, contents, hk, Nat.add_sub_cancel_left, window_add]
  congr 1
  cases k with
  | zero => rfl
  | succ k =>
    have hwrap := r.front_add_continuous_eq (by omega)
    have e : shift r.front r.getContinuousDequeueSize = ⟨0, r.front.pos⟩ :=
      Fin.ext (by rw [shift_val, hwrap, Nat.mod_self])
    have hz : (⟨0, r.front.pos⟩ : Fin n) + (k + 1) ≤ n := by
      show 0 + (k + 1) ≤ n
      omega
    rw [e]
    exact (slice_eq_window r hz).symm

end RingBuffer

end Iocp
