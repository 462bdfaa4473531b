import SkhuOS.Foundation.BoundedFifo
import SkhuOS.Lib.Queue

/-! Any sequence of calls on a queue of `kernel/lib/Queue.c` after `initQueue`. The blocks
it holds are a FIFO list that is one shorter than the ring. -/
namespace SkhuOS
open Foundation

/-- A call, with the memory its pointer argument points into. -/
inductive QueueCall
  | enQueue (data : Bytes)
  | deQueue (data : Bytes)

def QueueCall.data : QueueCall → Bytes
  | .enQueue data | .deQueue data => data

/-- The value returned, the memory of the argument afterwards and the queue. -/
def Queue.call (queue : Queue) : QueueCall → (Bool × Bytes) × Queue
  | .enQueue data => (((enQueue queue data).1, data), (enQueue queue data).2)
  | .deQueue data =>
    (((deQueue queue data).1, (deQueue queue data).2.1), (deQueue queue data).2.2)

/-- The answers to a sequence of calls and the queue in the end. -/
def Queue.calls : Queue → List QueueCall → List (Bool × Bytes) × Queue
  | queue, [] => ([], queue)
  | queue, call :: calls =>
    let r := queue.call call
    let later := r.2.calls calls
    (r.1 :: later.1, later.2)

def readBlock (m : Bytes) (a n : ℕ) : List (BitVec 8) := (List.range n).map fun i => m (a + i)

/-- The stored blocks, oldest first. -/
def Queue.items (queue : Queue) : List (List (BitVec 8)) :=
  queue.contents fun m a => readBlock m a queue.dataSize

/-- A call as one on a list of blocks. -/
def QueueCall.seen (size : ℕ) : QueueCall → FifoCall (List (BitVec 8))
  | .enQueue data => .push (readBlock data 0 size)
  | .deQueue _ => .pop

/-- An answer as one of a list of blocks. -/
def QueueCall.answer (size : ℕ) : QueueCall → Bool × Bytes → FifoAnswer (List (BitVec 8))
  | _, (false, _) => .refused
  | .enQueue _, (true, _) => .pushed
  | .deQueue _, (true, data) => .popped (readBlock data 0 size)

variable {queue : Queue} {request : QueueCall} {data : Bytes} {len size n x : ℕ}

theorem blockRead_readBlock (n : ℕ) : BlockRead n fun m a => readBlock m a n := by
  intro m m' a a' h
  apply List.map_congr_left
  intro i hi
  exact h i (List.mem_range.mp hi)

/-- A block a cursor stands on lies inside the buffer. -/
theorem block_inside (h : x < len) : size * x + size ≤ len * size := by
  rw [← Nat.mul_succ, Nat.mul_comm len]
  exact Nat.mul_le_mul_left size h

/-- The access at a cursor stays inside the buffer. -/
theorem Queue.WellFormed.access_inside (h : queue.WellFormed) (hx : x < queue.len) :
    0 ≤ blockOffset queue.dataSize x ∧
      blockOffset queue.dataSize x + queue.dataSize ≤ queue.len * queue.dataSize := by
  have hinside : queue.dataSize * x + queue.dataSize ≤ queue.len * queue.dataSize := block_inside hx
  rw [h.blockOffset_eq hx]
  omega

@[simp] theorem Queue.call_sizes (queue : Queue) (request : QueueCall) :
    (queue.call request).2.len = queue.len ∧ (queue.call request).2.dataSize = queue.dataSize := by
  cases request <;> simp [Queue.call]

theorem Queue.WellFormed.call (h : queue.WellFormed) (request : QueueCall) :
    (queue.call request).2.WellFormed := by
  cases request with
  | enQueue data => exact enQueue_wellFormed h
  | deQueue data => exact deQueue_wellFormed h

/-- A refused call changes neither the queue nor the memory of its argument. -/
theorem Queue.call_refused (h : (queue.call request).1.1 = false) :
    queue.call request = ((false, request.data), queue) := by
  cases request with
  | enQueue data =>
    simp only [Queue.call, enQueue] at h ⊢
    split at h
    next hfull => simp [hfull, QueueCall.data]
    next => simp at h
  | deQueue data =>
    simp only [Queue.call, deQueue] at h ⊢
    split at h
    next hempty => simp [hempty, QueueCall.data]
    next => simp at h

/-- A call stores at most one block at its argument. -/
theorem Queue.call_data (queue : Queue) (request : QueueCall) (hx : queue.dataSize ≤ x) :
    (queue.call request).1.2 x = request.data x := by
  cases request with
  | enQueue data => rfl
  | deQueue data =>
    simp only [Queue.call, deQueue]
    split
    · rfl
    · exact if_neg (by omega)

/-- No byte around the buffer is written. -/
theorem Queue.WellFormed.call_outside (h : queue.WellFormed) (request : QueueCall) {x : ℤ}
    (hx : x < 0 ∨ queue.len * queue.dataSize ≤ x) :
    (queue.call request).2.queueArr x = queue.queueArr x := by
  obtain ⟨hlow, hhigh⟩ := h.access_inside h.rear_lt
  cases request with
  | enQueue data =>
    simp only [Queue.call, enQueue]
    split
    · rfl
    · exact if_neg (by omega)
  | deQueue data =>
    simp only [Queue.call, deQueue]
    split <;> rfl

theorem Queue.WellFormed.enQueue_items (h : queue.WellFormed) (data : Bytes)
    (hfull : queueIsFull queue = false) :
    (enQueue queue data).1 = true ∧
      (enQueue queue data).2.items = queue.items ++ [readBlock data 0 queue.dataSize] := by
  have hread := blockRead_readBlock queue.dataSize
  unfold Queue.items
  rw [(enQueue_len queue data).2]
  exact enQueue_contents h hread hfull

theorem Queue.WellFormed.deQueue_items (h : queue.WellFormed) (data : Bytes)
    (hempty : queueIsEmpty queue = false) :
    (deQueue queue data).1 = true ∧
      queue.items = readBlock (deQueue queue data).2.1 0 queue.dataSize ::
        (deQueue queue data).2.2.items := by
  have hread := blockRead_readBlock queue.dataSize
  unfold Queue.items
  rw [(deQueue_len queue data).2]
  exact deQueue_contents data h hread hempty

theorem Queue.WellFormed.full_iff (h : queue.WellFormed) :
    queueIsFull queue = true ↔ queue.items.length = queue.len - 1 := queueIsFull_iff h _

theorem Queue.WellFormed.empty_iff (h : queue.WellFormed) :
    queueIsEmpty queue = true ↔ queue.items = [] := queueIsEmpty_iff h _

/-- One call is one step of the bounded list. -/
theorem Queue.WellFormed.call_refines (h : queue.WellFormed) (request : QueueCall) :
    fifoStep (queue.len - 1) queue.items (request.seen queue.dataSize) =
      (request.answer queue.dataSize (queue.call request).1, (queue.call request).2.items) := by
  cases request with
  | enQueue data =>
    simp only [QueueCall.seen, fifoStep, Queue.call]
    cases hfull : queueIsFull queue with
    | true =>
      rw [if_pos (h.full_iff.mp hfull), enQueue_full hfull]
      rfl
    | false =>
      obtain ⟨hreturn, hitems⟩ := h.enQueue_items data hfull
      have hlength : queue.items.length ≠ queue.len - 1 := by
        intro hlength
        rw [h.full_iff.mpr hlength] at hfull
        cases hfull
      rw [if_neg hlength, hreturn, hitems]
      rfl
  | deQueue data =>
    simp only [QueueCall.seen, Queue.call]
    cases hempty : queueIsEmpty queue with
    | true =>
      have hnil := h.empty_iff.mp hempty
      simp [deQueue, hempty, hnil, QueueCall.answer, fifoStep]
    | false =>
      obtain ⟨hreturn, hitems⟩ := h.deQueue_items data hempty
      rw [hitems, hreturn]
      rfl

/-- What holds of a queue after any sequence of calls. -/
structure Queue.Serves (start : Queue) (calls : List QueueCall) (final : Queue) : Prop where
  answers : List.zipWith (QueueCall.answer start.dataSize) calls (start.calls calls).1 =
    (fifoRun (start.len - 1) start.items (calls.map (QueueCall.seen start.dataSize))).1
  items : final.items =
    (fifoRun (start.len - 1) start.items (calls.map (QueueCall.seen start.dataSize))).2
  wellFormed : final.WellFormed
  sizes : final.len = start.len ∧ final.dataSize = start.dataSize
  outside : ∀ x : ℤ, x < 0 ∨ start.len * start.dataSize ≤ x →
    final.queueArr x = start.queueArr x

theorem Queue.WellFormed.serves (h : queue.WellFormed) (calls : List QueueCall) :
    queue.Serves calls (queue.calls calls).2 := by
  induction calls generalizing queue with
  | nil => exact ⟨rfl, rfl, h, ⟨rfl, rfl⟩, fun _ _ => rfl⟩
  | cons request calls ih =>
    have hstep := h.call_refines request
    have hlater := ih (h.call request)
    obtain ⟨hlen, hsize⟩ := queue.call_sizes request
    obtain ⟨hanswers, hitems, hwell, hsizes, houtside⟩ := hlater
    rw [hlen, hsize] at hanswers hitems hsizes houtside
    constructor
    · simp only [Queue.calls, List.zipWith_cons_cons, hanswers, List.map_cons, fifoRun, hstep]
    · simp only [Queue.calls, hitems, List.map_cons, fifoRun, hstep]
    · exact hwell
    · exact hsizes
    · intro x hx
      exact (houtside x hx).trans (h.call_outside request hx)

/-- Any sequence of calls after `initQueue` is answered as by a FIFO list of capacity `len - 1`,
provided an `int` holds the offset of the last block. Both cursors stay on blocks of the buffer,
no byte around it is read or written, and in any state reached a refused call changes nothing. -/
theorem queue_refines_fifo (queueBuffer : Around) (hlen : 1 ≤ len)
    (hoffsets : (len - 1) * size < 2 ^ 31) (calls : List QueueCall) :
    let start := initQueue queueBuffer len size
    let final := (start.calls calls).2
    let requests := calls.map (QueueCall.seen size)
    let fifo := fifoRun (len - 1) [] requests
    (List.zipWith (QueueCall.answer size) calls (start.calls calls).1 = fifo.1 ∧
      final.items = fifo.2 ∧ accepted requests fifo.1 = delivered fifo.1 ++ final.items) ∧
    (final.front < len ∧ final.rear < len) ∧
    ((∀ cursor ∈ [final.front, final.rear],
        0 ≤ blockOffset size cursor ∧ blockOffset size cursor + size ≤ len * size) ∧
      ∀ x : ℤ, x < 0 ∨ len * size ≤ x → final.queueArr x = queueBuffer x) ∧
    ∀ request : QueueCall,
      ((final.call request).1.1 = false → final.call request = ((false, request.data), final)) ∧
      ∀ x, size ≤ x → (final.call request).1.2 x = request.data x := by
  intro start final requests fifo
  have hstart : start.WellFormed := initQueue_wellFormed queueBuffer hlen hoffsets
  have hempty : start.items = [] := initQueue_contents queueBuffer len size
  obtain ⟨hanswers, hitems, hwell, ⟨hlen', hsize⟩, houtside⟩ := hstart.serves calls
  rw [hempty] at hanswers hitems
  have hlen' : final.len = len := hlen'
  have hfront : final.front < len := hwell.front_lt.trans_eq hlen'
  have hrear : final.rear < len := hwell.rear_lt.trans_eq hlen'
  have horder := fifoRun_order (len - 1) [] requests
  refine ⟨⟨hanswers, hitems, ?_⟩, ⟨hfront, hrear⟩, ⟨?_, houtside⟩, fun request => ⟨?_, ?_⟩⟩
  · rw [List.nil_append] at horder
    rw [horder, hitems]
    rfl
  · intro cursor hcursor
    have hlt : cursor < len := by
      rcases List.mem_pair.mp hcursor with rfl | rfl
      exacts [hfront, hrear]
    exact hstart.access_inside hlt
  · exact Queue.call_refused
  · intro x hx
    exact final.call_data request (hsize.trans_le hx)

/-- Three blocks on a ring of three: the third is refused and the first two come out. -/
theorem queue_refines_fifo_three : (initQueue (fun _ => 0) 3 1).calls
      [.enQueue fun _ => 5, .enQueue fun _ => 6, .enQueue fun _ => 7] |>.2.items = [[5], [6]] := by
  have hoffsets : (3 - 1) * 1 < 2 ^ 31 := by decide
  rw [(queue_refines_fifo (fun _ => 0) (show 1 ≤ 3 by decide) hoffsets _).1.2.1]
  rfl

/-- While a cell is free each `enQueue` moves `rear` on and nothing else but the buffer. -/
theorem Queue.enQueues (queue : Queue) (data : Bytes) (hfront : queue.front = 0)
    (hfree : queue.rear + n < queue.len) :
    let final := (queue.calls (List.replicate n (.enQueue data))).2
    final.front = 0 ∧ final.rear = queue.rear + n ∧ final.len = queue.len ∧
      final.dataSize = queue.dataSize := by
  induction n generalizing queue with
  | zero => exact ⟨hfront, rfl, rfl, rfl⟩
  | succ n ih =>
    have hmod : (queue.rear + 1) % queue.len = queue.rear + 1 := Nat.mod_eq_of_lt (by omega)
    have hfull : queueIsFull queue = false := by
      rw [queueIsFull, hfront, hmod]
      rfl
    have hrear : (SkhuOS.enQueue queue data).2.rear = queue.rear + 1 := by
      simp [SkhuOS.enQueue, hfull, hmod]
    obtain ⟨hlen, hsize⟩ := enQueue_len queue data
    obtain ⟨h0, h1, h2, h3⟩ := ih (SkhuOS.enQueue queue data).2
      (by simp [SkhuOS.enQueue, hfull, hfront]) (by omega)
    exact ⟨h0, h1.trans (by omega), h2.trans hlen, h3.trans hsize⟩

/-- A block whose offset is no `int` is stored below the buffer. -/
theorem enQueue_below (queueBuffer : Around) (data : Bytes) (hfree : n + 1 < len) (hsize : 0 < size) :
    let final := ((initQueue queueBuffer len size).calls (List.replicate n (.enQueue data))).2
    (final.call (.enQueue data)).1.1 = true ∧
      (final.call (.enQueue data)).2.queueArr (blockOffset size n) = data 0 := by
  intro final
  obtain ⟨hfront, hrear, hlen', hsize'⟩ := (initQueue queueBuffer len size).enQueues data rfl
    (show 0 + n < len by omega)
  have hrear : final.rear = n := hrear.trans (Nat.zero_add n)
  have hsize' : final.dataSize = size := hsize'
  have hfull : queueIsFull final = false := by
    have hlen' : final.len = len := hlen'
    rw [queueIsFull, hfront, hrear, hlen', Nat.mod_eq_of_lt hfree]
    rfl
  simp [Queue.call, enQueue, hfull, copyInto, hsize', hrear, hsize]

/-- 32768 blocks of 64 KB fill 2 GB of a ring of 32770. The offset of the next one is no `int`:
it is stored 2 GB below the buffer. -/
theorem block_below_buffer :
    let final := ((initQueue (fun _ => 0) 32770 65536).calls
      (List.replicate 32768 (.enQueue fun _ => 7))).2
    (final.call (.enQueue fun _ => 7)).1.1 = true ∧
      (final.call (.enQueue fun _ => 7)).2.queueArr (-2 ^ 31) = 7 := by
  have hoffset : blockOffset 65536 32768 = -2 ^ 31 := by decide
  rw [← hoffset]
  exact enQueue_below (fun _ => 0) (fun _ => 7) (show 32768 + 1 < 32770 by decide)
    (show 0 < 65536 by decide)

end SkhuOS
