import SkhuOS.Foundation.RingBuffer
import SkhuOS.Foundation.LittleEndian

/-! The ring queue of `kernel/lib/Queue.c`: `len` blocks of `dataSize` bytes. -/
namespace SkhuOS
open Foundation

/-- The memory around an address, by the signed distance from it. -/
abbrev Around := ℤ → BitVec 8

/-- `queueArr` is the memory around the first byte of the buffer. -/
structure Queue where
  front : ℕ
  rear : ℕ
  len : ℕ
  dataSize : ℕ
  queueArr : Around

def initQueue (queueBuffer : Around) (queueLen size : ℕ) : Queue :=
  ⟨0, 0, queueLen, size, queueBuffer⟩

/-- `size*cursor`, a product of two 32-bit `int`s. -/
def blockOffset (size cursor : ℕ) : ℤ := (BitVec.ofNat 32 size * BitVec.ofNat 32 cursor).toInt

/-- `memcpy` of `n` bytes at `data` to the distance `offset`. -/
def copyInto (queueArr : Around) (offset : ℤ) (data : Bytes) (n : ℕ) : Around := fun x =>
  if offset ≤ x ∧ x < offset + n then data (x - offset).toNat else queueArr x

/-- `memcpy` of `n` bytes at the distance `offset` to `data`. -/
def copyFrom (data : Bytes) (queueArr : Around) (offset : ℤ) (n : ℕ) : Bytes := fun i =>
  if i < n then queueArr (offset + i) else data i

def queueIsEmpty (queue : Queue) : Bool := queue.front == queue.rear

def queueIsFull (queue : Queue) : Bool := queue.front == (queue.rear + 1) % queue.len

/-- `data` is the memory the pointer argument points into, from address 0 on. -/
def enQueue (queue : Queue) (data : Bytes) : Bool × Queue :=
  if queueIsFull queue then (false, queue)
  else
    (true, { queue with
      queueArr := copyInto queue.queueArr (blockOffset queue.dataSize queue.rear) data
        queue.dataSize
      rear := (queue.rear + 1) % queue.len })

def deQueue (queue : Queue) (data : Bytes) : Bool × Bytes × Queue :=
  if queueIsEmpty queue then (false, data, queue)
  else
    (true, copyFrom data queue.queueArr (blockOffset queue.dataSize queue.front) queue.dataSize,
      { queue with front := (queue.front + 1) % queue.len })

/-- Both cursors name a block of the buffer, and an `int` holds the offset of every block. -/
structure Queue.WellFormed (queue : Queue) : Prop where
  front_lt : queue.front < queue.len
  rear_lt : queue.rear < queue.len
  offsets : (queue.len - 1) * queue.dataSize < 2 ^ 31

/-- The buffer and what lies behind it. -/
def Queue.buffer (queue : Queue) : Bytes := fun x => queue.queueArr x

/-- A way to read a block of `n` bytes that looks at these bytes only. -/
def BlockRead {β : Type*} (n : ℕ) (read : Bytes → ℕ → β) : Prop :=
  ∀ m m' a a', (∀ i < n, m (a + i) = m' (a' + i)) → read m a = read m' a'

/-- The stored blocks as `read` sees them, oldest first. -/
def Queue.contents {β : Type*} (queue : Queue) (read : Bytes → ℕ → β) : List β :=
  ringItems (fun k => read queue.buffer (queue.dataSize * k)) queue.front queue.rear queue.len

variable {β : Type*} {queue : Queue} {read : Bytes → ℕ → β} {data : Bytes} {size cursor : ℕ}

theorem blockOffset_of_lt (h : size * cursor < 2 ^ 31) : blockOffset size cursor = size * cursor := by
  have hmod : size * cursor % 2 ^ 32 = size * cursor := Nat.mod_eq_of_lt (by omega)
  rw [blockOffset, ← BitVec.ofNat_mul, BitVec.toInt_eq_toNat_of_lt]
  · rw [BitVec.toNat_ofNat, hmod, Nat.cast_mul]
  · rw [BitVec.toNat_ofNat, hmod]
    omega

theorem blockRead_readLE (n : ℕ) : BlockRead n fun m a => readLE m a n := by
  intro m m' a a' h
  induction n generalizing a a' with
  | zero => rfl
  | succ n ih =>
    have h0 := h 0 (by omega)
    simp only [Nat.add_zero] at h0
    have hrest := ih (a + 1) (a' + 1) fun i hi => by
      simpa [Nat.add_assoc, Nat.add_comm 1 i] using h (i + 1) (by omega)
    simp only [readLE] at hrest ⊢
    rw [h0, hrest]

theorem initQueue_wellFormed (queueBuffer : Around) {queueLen : ℕ} (h : 0 < queueLen)
    (hoffsets : (queueLen - 1) * size < 2 ^ 31) :
    (initQueue queueBuffer queueLen size).WellFormed := ⟨h, h, hoffsets⟩

@[simp] theorem initQueue_contents (queueBuffer : Around) (queueLen size : ℕ) :
    (initQueue queueBuffer queueLen size).contents read = [] := by
  simp [initQueue, Queue.contents, ringItems, ringCount]

theorem queueIsEmpty_iff (h : queue.WellFormed) (read : Bytes → ℕ → β) :
    queueIsEmpty queue = true ↔ queue.contents read = [] := by
  rw [queueIsEmpty, beq_iff_eq, Queue.contents, ringItems_eq_nil h.front_lt h.rear_lt]

theorem queueIsFull_iff (h : queue.WellFormed) (read : Bytes → ℕ → β) :
    queueIsFull queue = true ↔ (queue.contents read).length = queue.len - 1 := by
  rw [queueIsFull, beq_iff_eq, ring_full_iff h.front_lt h.rear_lt, Queue.contents,
    ringItems_length]

theorem Queue.WellFormed.length_lt (h : queue.WellFormed) (read : Bytes → ℕ → β) :
    (queue.contents read).length < queue.len := by
  rw [Queue.contents, ringItems_length]
  exact ringCount_lt _ _ (Nat.zero_lt_of_lt h.front_lt)

theorem enQueue_full (h : queueIsFull queue = true) : enQueue queue data = (false, queue) := by
  simp [enQueue, h]

theorem enQueue_wellFormed (h : queue.WellFormed) : (enQueue queue data).2.WellFormed := by
  unfold enQueue
  split
  · exact h
  · exact ⟨h.front_lt, Nat.mod_lt _ (Nat.zero_lt_of_lt h.front_lt), h.offsets⟩

/-- The `int` product is the true offset of a block of the buffer. -/
theorem Queue.WellFormed.blockOffset_eq (h : queue.WellFormed) (hcursor : cursor < queue.len) :
    blockOffset queue.dataSize cursor = queue.dataSize * cursor := by
  apply blockOffset_of_lt
  have hmul := Nat.mul_le_mul_right queue.dataSize (show cursor ≤ queue.len - 1 by omega)
  have hoffsets := h.offsets
  rw [Nat.mul_comm]
  omega

/-- Storing a block leaves every other block alone. -/
theorem copy_block (h : queue.WellFormed) (hread : BlockRead queue.dataSize read) :
    (fun k => read (fun x => copyInto queue.queueArr (blockOffset queue.dataSize queue.rear) data
      queue.dataSize x) (queue.dataSize * k)) =
    Function.update (fun k => read queue.buffer (queue.dataSize * k)) queue.rear
      (read data 0) := by
  rw [h.blockOffset_eq h.rear_lt]
  funext k
  by_cases hk : k = queue.rear
  · subst hk
    rw [Function.update_self]
    apply hread
    intro i hi
    simp only [copyInto, Nat.cast_add, Nat.cast_mul]
    rw [if_pos (by omega), Nat.zero_add]
    congr 1
    omega
  · rw [Function.update_of_ne hk]
    apply hread
    intro i hi
    simp only [copyInto, Nat.cast_add, Nat.cast_mul]
    rw [if_neg, Queue.buffer, Nat.cast_add, Nat.cast_mul]
    rcases Nat.lt_or_gt_of_ne hk with hlt | hgt
    · have hmul := Nat.mul_le_mul_left queue.dataSize (Nat.succ_le_of_lt hlt)
      rw [Nat.mul_succ] at hmul
      omega
    · have hmul := Nat.mul_le_mul_left queue.dataSize (Nat.succ_le_of_lt hgt)
      rw [Nat.mul_succ] at hmul
      omega

/-- A queue that is not full appends the block. -/
theorem enQueue_contents (h : queue.WellFormed) (hread : BlockRead queue.dataSize read)
    (hfull : queueIsFull queue = false) :
    (enQueue queue data).1 = true ∧
      (enQueue queue data).2.contents read = queue.contents read ++ [read data 0] := by
  have hne : queue.front ≠ (queue.rear + 1) % queue.len := by simpa [queueIsFull] using hfull
  simp only [enQueue, hfull, Bool.false_eq_true, if_false, Queue.contents, true_and]
  rw [← ringItems_push h.front_lt h.rear_lt hne, ← copy_block h hread]
  rfl

theorem deQueue_wellFormed (h : queue.WellFormed) : (deQueue queue data).2.2.WellFormed := by
  unfold deQueue
  split
  · exact h
  · exact ⟨Nat.mod_lt _ (Nat.zero_lt_of_lt h.front_lt), h.rear_lt, h.offsets⟩

/-- A queue that is not empty delivers its oldest block and drops it. -/
theorem deQueue_contents (data : Bytes) (h : queue.WellFormed) (hread : BlockRead queue.dataSize read)
    (hempty : queueIsEmpty queue = false) :
    (deQueue queue data).1 = true ∧
      queue.contents read = read (deQueue queue data).2.1 0 ::
        (deQueue queue data).2.2.contents read := by
  have hne : queue.front ≠ queue.rear := by simpa [queueIsEmpty] using hempty
  simp only [deQueue, hempty, Bool.false_eq_true, if_false, Queue.contents, true_and]
  rw [ringItems_pop h.front_lt h.rear_lt hne, h.blockOffset_eq h.front_lt]
  congr 1
  apply hread
  intro i hi
  rw [copyFrom, Nat.zero_add, if_pos hi, Queue.buffer, Nat.cast_add, Nat.cast_mul]

@[simp] theorem enQueue_len (queue : Queue) (data : Bytes) :
    (enQueue queue data).2.len = queue.len ∧
      (enQueue queue data).2.dataSize = queue.dataSize := by
  unfold enQueue
  split <;> simp

@[simp] theorem deQueue_len (queue : Queue) (data : Bytes) :
    (deQueue queue data).2.2.len = queue.len ∧
      (deQueue queue data).2.2.dataSize = queue.dataSize := by
  unfold deQueue
  split <;> simp

end SkhuOS
