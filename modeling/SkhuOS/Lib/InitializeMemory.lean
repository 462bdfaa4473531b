import Mathlib.Logic.Function.Basic
import Mathlib.Data.Int.Notation
import SkhuOS.Common.Type

/-! The clearing helper of `kernel/lib/64bit.c`. Both parameters are addresses,
held in an `int`; the read-back test never fails on RAM. -/
namespace SkhuOS

/-- The loop over the 32-bit words at `address`, `address + 4`, … below `stop`. -/
def initializeMemoryLoop (stop : ℤ) : ℕ → ℤ → (ℤ → DWORD) → (ℤ → DWORD)
  | 0, _, mem => mem
  | n + 1, address, mem =>
    if address < stop then
      initializeMemoryLoop stop n (address + 4) (Function.update mem address 0)
    else mem

def initializeMemory (start stop : ℤ) (mem : ℤ → DWORD) : ℤ → DWORD :=
  initializeMemoryLoop stop ((stop - start + 3) / 4).toNat start mem

/-- The loop is not entered unless the start lies below the end. -/
theorem initializeMemory_of_le {start stop : ℤ} (h : stop ≤ start) (mem : ℤ → DWORD) :
    initializeMemory start stop mem = mem := by
  unfold initializeMemory
  cases ((stop - start + 3) / 4).toNat with
  | zero => rfl
  | succ n => simp [initializeMemoryLoop, Int.not_lt.mpr h]

end SkhuOS
