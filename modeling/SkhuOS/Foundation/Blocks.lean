import SkhuOS.Foundation.LittleEndian

/-! Loops that edit one block of a memory after the other. -/
namespace SkhuOS.Foundation

/-- Run `edit i`, `edit (i + 1)`, … `n` times. -/
def editLoop (edit : ℕ → Bytes → Bytes) : ℕ → ℕ → Bytes → Bytes
  | _, 0, m => m
  | i, n + 1, m => editLoop edit (i + 1) n (edit i m)

/-- Edit `i` overwrites the bytes of block `i` and no others. -/
structure Blockwise (edit : ℕ → Bytes → Bytes) (base size : ℕ) : Prop where
  outside : ∀ i m x, x < base + size * i ∨ base + size * (i + 1) ≤ x → edit i m x = m x
  inside : ∀ i m m' x, base + size * i ≤ x → x < base + size * (i + 1) → edit i m x = edit i m' x

variable {edit : ℕ → Bytes → Bytes} {base size i j n x : ℕ} {m m' : Bytes}

theorem editLoop_outside (h : Blockwise edit base size)
    (hx : x < base + size * i ∨ base + size * (i + n) ≤ x) : editLoop edit i n m x = m x := by
  induction n generalizing i m with
  | zero => rfl
  | succ n ih =>
    have hnext : size * i ≤ size * (i + 1) := Nat.mul_le_mul_left _ (Nat.le_succ i)
    have hlast : size * (i + 1) ≤ size * (i + 1 + n) := Nat.mul_le_mul_left _ (by omega)
    rw [show i + (n + 1) = i + 1 + n by omega] at hx
    rw [editLoop, ih (by omega), h.outside i m x (by omega)]

/-- In the end block `j` is what its edit made of it. -/
theorem editLoop_inside (h : Blockwise edit base size) (hij : i ≤ j) (hj : j < i + n)
    (hx : base + size * j ≤ x) (hlt : x < base + size * (j + 1)) :
    editLoop edit i n m x = edit j m' x := by
  induction n generalizing i m with
  | zero => omega
  | succ n ih =>
    rw [editLoop]
    rcases Nat.eq_or_lt_of_le hij with rfl | hij
    · rw [editLoop_outside h (.inl hlt)]
      exact h.inside i m m' x hx hlt
    · exact ih hij (by omega)

end SkhuOS.Foundation
