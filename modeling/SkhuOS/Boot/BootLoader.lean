import SkhuOS.Common.Type
import SkhuOS.Foundation.LittleEndian

/-! The loop `ReadDisk` of `boot/BootLoader.asm`: the sectors behind the boot sector are read
one by one with INT 13h, each 512 bytes above the last. -/
namespace SkhuOS
open Foundation

/-- The fields of `DAP` the BIOS reads: `LBA` is kept in two words and an upper half. -/
structure DAP where
  sectorCount : WORD
  offset : WORD
  segment : WORD
  lbaLow : WORD
  lbaHigh : WORD
  lbaUpper : DWORD

namespace BootLoader

/-- The packet as assembled. -/
def dap : DAP := ⟨1, 0x0000, 0x1000, 0x0001, 0x0000, 0⟩

def lba (d : DAP) : ℕ := d.lbaLow.toNat + 2 ^ 16 * d.lbaHigh.toNat + 2 ^ 32 * d.lbaUpper.toNat

/-- Where the BIOS stores: `segment:offset` in real mode. -/
def destination (d : DAP) : ℕ := 16 * d.segment.toNat + d.offset.toNat

/-- The `add` and `adc` instructions behind a read. -/
def nextSector (d : DAP) : DAP :=
  let lbaLow := d.lbaLow + 0x01
  let carry : WORD := if lbaLow.toNat < d.lbaLow.toNat then 1 else 0
  { d with segment := d.segment + 0x20, lbaLow := lbaLow, lbaHigh := d.lbaHigh + 0x00 + carry }

/-- What the loop did: the sector and the address of every read, in order, and the memory. -/
structure Loaded where
  reads : List (ℕ × ℕ)
  memory : Bytes

/-- The loop on `di`; `disk` gives the bytes of each sector and every read succeeds. -/
def readLoop (disk : ℕ → Bytes) : ℕ → DAP → Bytes → Loaded
  | 0, _, m => ⟨[], m⟩
  | di + 1, d, m =>
    let m := copyBytes m (destination d) (disk (lba d)) 0 (512 * d.sectorCount.toNat)
    let rest := readLoop disk di (nextSector d) m
    ⟨(lba d, destination d) :: rest.reads, rest.memory⟩

def readDisk (disk : ℕ → Bytes) (totalSectorCount : WORD) (m : Bytes) : Loaded :=
  readLoop disk totalSectorCount.toNat dap m

def imageAddress : ℕ := 0x10000
def bootSectorAddress : ℕ := 0x7C00
def textMemory : ℕ := 0xB8000
def fullScreenSize : ℕ := 80 * 25 * 2

/-- The blocks of 512 bytes at `a` and of `n` bytes at `b` have no byte in common. -/
def Apart (a b n : ℕ) : Prop := a + 512 ≤ b ∨ b + n ≤ a

instance (a b n : ℕ) : Decidable (Apart a b n) := inferInstanceAs (Decidable (_ ∨ _))

/-- Sector `1 + i` is read to its place for every `i`, over no other sector, not over the boot
sector and not over the screen, and stands there in the end. -/
structure LoadsInPlace (totalSectorCount : WORD) : Prop where
  reads : ∀ disk m, (readDisk disk totalSectorCount m).reads =
    (List.range totalSectorCount.toNat).map fun i => (1 + i, imageAddress + 512 * i)
  apart : ∀ disk m, ∀ r ∈ (readDisk disk totalSectorCount m).reads,
    Apart r.2 bootSectorAddress 512 ∧ Apart r.2 textMemory fullScreenSize
  distinct : ∀ disk m, (readDisk disk totalSectorCount m).reads.Pairwise fun r r' =>
    Apart r.2 r'.2 512
  stored : ∀ disk m, ∀ i < totalSectorCount.toNat, ∀ j < 512,
    (readDisk disk totalSectorCount m).memory (imageAddress + 512 * i + j) = disk (1 + i) j

/-- The packet after `k` reads. -/
def dapAfter (k : ℕ) : DAP :=
  ⟨1, 0, BitVec.ofNat 16 (0x1000 + 0x20 * k), BitVec.ofNat 16 (1 + k),
    BitVec.ofNat 16 ((1 + k) / 2 ^ 16), 0⟩

variable {disk : ℕ → Bytes} {m : Bytes} {totalSectorCount : WORD} {k n i : ℕ}

/-- The carry of the low word reaches the high word. -/
theorem nextSector_dapAfter (k : ℕ) : nextSector (dapAfter k) = dapAfter (k + 1) := by
  unfold nextSector dapAfter
  dsimp only
  congr 1
  · rw [Nat.mul_succ, ← Nat.add_assoc, BitVec.ofNat_add (0x1000 + 0x20 * k)]
    rfl
  · rw [← Nat.add_assoc, BitVec.ofNat_add (1 + k)]
    rfl
  · apply BitVec.eq_of_toNat_eq
    have hzero : (0 : WORD).toNat = 0 := rfl
    have hone : (1 : WORD).toNat = 1 := rfl
    split
    next h =>
      simp only [BitVec.toNat_add, BitVec.toNat_ofNat, hzero, hone] at h ⊢
      omega
    next h =>
      simp only [BitVec.toNat_add, BitVec.toNat_ofNat, hzero, hone] at h ⊢
      omega

theorem lba_dapAfter (hk : k < 2 ^ 16) : lba (dapAfter k) = 1 + k := by
  have hzero : (0 : DWORD).toNat = 0 := rfl
  simp only [lba, dapAfter, BitVec.toNat_ofNat, hzero]
  omega

/-- The segment is a word: it starts again behind `0xFFE0`. -/
theorem destination_dapAfter (k : ℕ) :
    destination (dapAfter k) = 16 * ((0x1000 + 0x20 * k) % 2 ^ 16) := by
  have hzero : (0 : WORD).toNat = 0 := rfl
  simp only [destination, dapAfter, BitVec.toNat_ofNat, hzero]
  omega

theorem readLoop_reads (h : k + n < 2 ^ 16) : (readLoop disk n (dapAfter k) m).reads =
    (List.range n).map fun i => (1 + (k + i), 16 * ((0x1000 + 0x20 * (k + i)) % 2 ^ 16)) := by
  induction n generalizing k m with
  | zero => rfl
  | succ n ih =>
    unfold readLoop
    dsimp only
    rw [nextSector_dapAfter, ih (by omega), lba_dapAfter (by omega), destination_dapAfter,
      List.range_succ_eq_map, List.map_cons, List.map_map]
    congr 1
    apply List.map_congr_left
    intro i _
    rw [Function.comp_apply, Nat.add_assoc, Nat.add_comm 1 i]

/-- The reads of the loop: as many as the count says, in order, the segment wrapping. -/
theorem readDisk_reads (disk : ℕ → Bytes) (totalSectorCount : WORD) (m : Bytes) :
    (readDisk disk totalSectorCount m).reads = (List.range totalSectorCount.toNat).map fun i =>
      (1 + i, 16 * ((0x1000 + 0x20 * i) % 2 ^ 16)) := by
  have hreads := @readLoop_reads disk m 0 totalSectorCount.toNat
    (by have := totalSectorCount.isLt; omega)
  simp only [Nat.zero_add] at hreads
  exact hreads

/-- Where the segments do not wrap, the memory below the first sector of the loop stays and
each sector stands in its block. -/
theorem readLoop_memory (h : k + n ≤ 1920) :
    (∀ x < imageAddress + 512 * k, (readLoop disk n (dapAfter k) m).memory x = m x) ∧
      (∀ x, imageAddress + 512 * (k + n) ≤ x →
        (readLoop disk n (dapAfter k) m).memory x = m x) ∧
      ∀ i, k ≤ i → i < k + n → ∀ j < 512,
        (readLoop disk n (dapAfter k) m).memory (imageAddress + 512 * i + j) = disk (1 + i) j := by
  induction n generalizing k m with
  | zero => exact ⟨fun _ _ => rfl, fun _ _ => rfl, fun i hi hlt => absurd hlt (by omega)⟩
  | succ n ih =>
    have hto : destination (dapAfter k) = imageAddress + 512 * k := by
      rw [destination_dapAfter, imageAddress]
      omega
    have hcount : (dapAfter k).sectorCount.toNat = 1 := rfl
    unfold readLoop
    dsimp only
    rw [nextSector_dapAfter, lba_dapAfter (by omega), hto, hcount]
    obtain ⟨hbelow, habove, hstored⟩ := ih (k := k + 1) (by omega)
    refine ⟨?_, ?_, ?_⟩
    · intro x hx
      rw [hbelow x (by omega)]
      exact copyBytes_of_not_mem (by omega)
    · intro x hx
      rw [habove x (by omega)]
      exact copyBytes_of_not_mem (by omega)
    · intro i hki hi j hj
      rcases Nat.eq_or_lt_of_le hki with rfl | hki
      · rw [hbelow _ (by omega), copyBytes_of_mem (by omega), Nat.zero_add]
      · exact hstored i hki (by omega) j hj

/-- The loop does its work for all counts up to 1344, whose last sector ends at `0xB8000`, and
for none above: the next sector is read into the screen, and from 1921 on the segment wraps. -/
theorem loads_in_place_iff (totalSectorCount : WORD) :
    LoadsInPlace totalSectorCount ↔ totalSectorCount.toNat ≤ 1344 := by
  constructor
  · intro h
    by_contra hlarge
    have hmem : (1 + 1344, 0xB8000) ∈
        (readDisk (fun _ _ => 0) totalSectorCount fun _ => 0).reads := by
      rw [readDisk_reads]
      exact List.mem_map.mpr ⟨1344, List.mem_range.mpr (by omega), rfl⟩
    exact absurd (h.apart _ _ _ hmem).2 (by decide)
  · intro h
    have hreads (disk : ℕ → Bytes) (m : Bytes) :
        (readDisk disk totalSectorCount m).reads =
          (List.range totalSectorCount.toNat).map fun i => (1 + i, imageAddress + 512 * i) := by
      rw [readDisk_reads]
      apply List.map_congr_left
      intro i hi
      have hi := List.mem_range.mp hi
      rw [imageAddress, Nat.mod_eq_of_lt (by omega), Nat.mul_add, ← Nat.mul_assoc]
    refine ⟨hreads, ?_, ?_, ?_⟩
    · intro disk m r hr
      rw [hreads] at hr
      obtain ⟨i, hi, rfl⟩ := List.mem_map.mp hr
      have hi := List.mem_range.mp hi
      simp only [Apart, imageAddress, bootSectorAddress, textMemory]
      omega
    · intro disk m
      rw [hreads, List.pairwise_map]
      apply List.pairwise_lt_range.imp
      intro i j hij
      unfold Apart
      omega
    · intro disk m i hi j hj
      have hmemory := (@readLoop_memory disk m 0 totalSectorCount.toNat (by omega)).2.2
      exact hmemory i (Nat.zero_le i) (by omega) j hj

/-- With 1345 sectors the last one is read into the screen. -/
theorem screen_overwritten : ¬ LoadsInPlace 1345 := by
  intro h
  have hmem : (1345, 0xB8000) ∈ (readDisk (fun _ _ => 0) 1345 fun _ => 0).reads := by
    rw [readDisk_reads]
    exact List.mem_map.mpr ⟨1344, List.mem_range.mpr (by decide), rfl⟩
  exact absurd (h.apart _ _ _ hmem).2 (by decide)

end BootLoader
end SkhuOS
