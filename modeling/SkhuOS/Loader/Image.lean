import Mathlib.Data.List.Find
import SkhuOS.Common.Type
import SkhuOS.Foundation.LittleEndian

/-! The block of `common/BootInfo.h` and the functions of `loader/32bit.c` that find it in
the boot sector and copy the kernel image. -/
namespace SkhuOS

def sectorBytes : ℕ := 512

/-- The characters of `BOOT_INFO_SIGNATURE`. -/
def bootInfoSignature : List BYTE := "SKHUBOOT".toList.map fun c => BitVec.ofNat 8 c.toNat

def bootInfoSignatureLength : ℕ := 8
def bootSectorLoadedAddress : ℕ := 0x7C00
def bootSectorSize : ℕ := 512

/-- `sizeof(BootInfo)`: the signature and two words. -/
def bootInfoSize : ℕ := bootInfoSignatureLength + 2 + 2

namespace Loader
open Foundation

def protectedStartAddress : ℕ := 0x10000
def ia32StartAddress : ℕ := 0x600000

/-- The signature stands at `a`. -/
def signatureAt (m : Bytes) (a : ℕ) : Bool :=
  (List.range bootInfoSignatureLength).all fun j => m (a + j) == bootInfoSignature.getD j 0

/-- The address of the block. -/
def findBootInfo (m : Bytes) : Option ℕ :=
  ((List.range (bootSectorSize - bootInfoSize + 1)).find? fun i =>
    signatureAt m (bootSectorLoadedAddress + i)).map (bootSectorLoadedAddress + ·)

def totalSectorCount (m : Bytes) (bootInfo : ℕ) : ℕ := readLE m (bootInfo + 8) 2

def loaderSectorCount (m : Bytes) (bootInfo : ℕ) : ℕ := readLE m (bootInfo + 10) 2

/-- `n` rounds of the copying loop, an `int` a round. -/
def copyWords (src dest : ℕ) : ℕ → Bytes → Bytes
  | 0, m => m
  | n + 1, m =>
    let m := copyWords src dest n m
    copyBytes m (dest + 4 * n) m (src + 4 * n) 4

/-- The number of rounds: `512 * (total - loader) / 4` in an `int`. The block lies below all
that the loop stores to, so the counts stay the same. -/
def imageWords (m : Bytes) (bootInfo : ℕ) : ℕ :=
  (512 * ((totalSectorCount m bootInfo : ℤ) - loaderSectorCount m bootInfo) / 4).toNat

/-- Without a block the loader stops. -/
def copyIA32ModeImage (m : Bytes) : Option Bytes :=
  (findBootInfo m).map fun bootInfo =>
    copyWords (protectedStartAddress + loaderSectorCount m bootInfo * 512) ia32StartAddress
      (imageWords m bootInfo) m

variable {m m' : Bytes} {src dest n x i : ℕ}

/-- The copy behind `n` rounds. Where the destination runs into the source, the words are
repeated. -/
theorem copyWords_apply (halign : (dest - src) % 4 = 0) : copyWords src dest n m x =
    if dest ≤ x ∧ x < dest + 4 * n then m (src + (x - dest) % (dest - src)) else m x := by
  induction n generalizing x with
  | zero => rw [copyWords, if_neg (by omega)]
  | succ n ih =>
    simp only [copyWords, copyBytes]
    by_cases hlast : dest + 4 * n ≤ x ∧ x < dest + 4 * n + 4
    · have hsource : src + 4 * n + (x - (dest + 4 * n)) = src + (x - dest) := by omega
      rw [if_pos hlast, if_pos (by omega), hsource, ih]
      split
      next hcopied =>
        have hback : src + (x - dest) - dest = x - dest - (dest - src) := by omega
        rw [hback, ← Nat.mod_eq_sub_mod (by omega)]
      next hfresh =>
        have hsame : (x - dest) % (dest - src) = x - dest := by
          rcases Nat.lt_or_ge src dest with hlt | hge
          · refine Nat.mod_eq_of_lt ?_
            omega
          · rw [Nat.sub_eq_zero_of_le hge, Nat.mod_zero]
        rw [hsame]
    · rw [if_neg hlast, ih]
      split
      · rw [if_pos (by omega)]
      · rw [if_neg (by omega)]

theorem signatureAt_congr {a a' : ℕ} (h : ∀ j < bootInfoSignatureLength, m' (a' + j) = m (a + j)) :
    signatureAt m' a' = signatureAt m a := by
  unfold signatureAt
  rw [Bool.eq_iff_iff, List.all_eq_true, List.all_eq_true]
  refine forall₂_congr fun j hj => ?_
  rw [h j (List.mem_range.mp hj)]

/-- The block that is found depends on the boot sector only. -/
theorem findBootInfo_congr (h : ∀ x, bootSectorLoadedAddress ≤ x →
    x < bootSectorLoadedAddress + bootSectorSize → m' x = m x) :
    findBootInfo m' = findBootInfo m := by
  have hsame (i : ℕ) (hi : i ∈ List.range (bootSectorSize - bootInfoSize + 1)) :
      signatureAt m' (bootSectorLoadedAddress + i) =
        signatureAt m (bootSectorLoadedAddress + i) := by
    refine signatureAt_congr fun j hj => h _ (by omega) ?_
    have hi := List.mem_range.mp hi
    simp only [bootSectorSize, bootInfoSize, bootInfoSignatureLength] at hi hj ⊢
    omega
  unfold findBootInfo
  rw [List.find?_congr hsame]

end Loader
end SkhuOS
