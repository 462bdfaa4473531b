import SkhuOS.Foundation.LittleEndian

/-! Buffers that hold a window of a memory. Editing the buffer and writing it back edits
the memory in place. -/
namespace SkhuOS.Foundation

/-- The first `n` bytes of `b` are the `n` bytes of `m` at `a`. -/
def Window (b m : Bytes) (a n : ℕ) : Prop := ∀ i < n, b i = m (a + i)

variable {b m m' e : Bytes} {a n o k v : ℕ}

namespace Window

theorem load (b m : Bytes) (a n : ℕ) : Window (copyBytes b 0 m a n) m a n := fun i hi => by
  have hbyte : copyBytes b 0 m a n (0 + i) = m (a + i) := copyBytes_of_mem hi
  rwa [Nat.zero_add] at hbyte

/-- Only the window of the memory matters. -/
theorem congr (h : Window b m a n) (hm : ∀ x, a ≤ x → x < a + n → m' x = m x) :
    Window b m' a n := fun i hi => by
  rw [h i hi, hm (a + i) (by omega) (by omega)]

theorem writeLE (h : Window b m a n) :
    Window (writeLE b o k v) (writeLE m (a + o) k v) a n := fun i hi => by
  by_cases hin : o ≤ i ∧ i < o + k
  · simp only [Foundation.writeLE]
    rw [if_pos hin, if_pos (by omega), Nat.add_sub_add_left]
  · rw [writeLE_of_not_mem (by omega), writeLE_of_not_mem (by omega), h i hi]

theorem copyBytes (h : Window b m a n) :
    Window (copyBytes b o e 0 k) (copyBytes m (a + o) e 0 k) a n := fun i hi => by
  by_cases hin : o ≤ i ∧ i < o + k
  · simp only [Foundation.copyBytes]
    rw [if_pos hin, if_pos (by omega), Nat.add_sub_add_left]
  · rw [copyBytes_of_not_mem (by omega), copyBytes_of_not_mem (by omega), h i hi]

theorem readLE (h : Window b m a n) (ho : o + k ≤ n) :
    readLE b o k = readLE m (a + o) k := by
  induction k generalizing o with
  | zero => rfl
  | succ k ih =>
    simp only [Foundation.readLE]
    rw [h o (by omega), Nat.add_assoc, ih (by omega)]

/-- Writing the buffer back leaves the memory it is a window of. -/
theorem store (h : Window b m' a n) (hout : ∀ x, x < a ∨ a + n ≤ x → m' x = m x) :
    Foundation.copyBytes m a b 0 n = m' := by
  funext x
  by_cases hin : x < a ∨ a + n ≤ x
  · rw [copyBytes_of_not_mem hin, hout x hin]
  · obtain ⟨i, rfl⟩ := Nat.exists_eq_add_of_le (show a ≤ x by omega)
    rw [copyBytes_of_mem (by omega), Nat.zero_add, h i (by omega)]

end Window

/-- Reading a window, storing a number in it and writing it back. -/
theorem copyBytes_writeLE (ho : o + k ≤ n) :
    copyBytes m a (writeLE (copyBytes b 0 m a n) o k v) 0 n = writeLE m (a + o) k v :=
  (Window.load b m a n).writeLE.store fun _ hx => writeLE_of_not_mem (by omega)

end SkhuOS.Foundation
