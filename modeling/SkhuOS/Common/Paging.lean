import SkhuOS.Common.Type
import SkhuOS.Foundation.LittleEndian

/-! The page tables of `common/Paging.h` and how the processor walks them. -/
namespace SkhuOS
open Foundation

def pml4BaseAddress : ℕ := 0x100000
def pdpTableBaseAddress : ℕ := 0x101000
def pdTableBaseAddress : ℕ := 0x102000
def pTableBaseAddress : ℕ := 0x106000

structure PtEntry where
  lower4Byte : DWORD
  upper4Byte : DWORD

def pageFlagP : DWORD := 0x00000001
def pageFlagRW : DWORD := 0x00000002
def pageFlagUS : DWORD := 0x00000004
def pageFlagEXB : DWORD := 0x80000000

namespace PtEntry

def present (entry : PtEntry) : Bool := entry.lower4Byte.getLsbD 0

def userAccess (entry : PtEntry) : Bool := entry.lower4Byte.getLsbD 2

def executeDisabled (entry : PtEntry) : Bool := entry.upper4Byte.getLsbD 31

/-- Bits 12 to 31 of the lower word and, above them, bits 0 to 19 of the upper one. -/
def frame (entry : PtEntry) : ℕ :=
  entry.lower4Byte.toNat / 2 ^ 12 + 2 ^ 20 * (entry.upper4Byte.toNat % 2 ^ 20)

end PtEntry

def readEntry (m : Bytes) (address : ℕ) : PtEntry :=
  ⟨BitVec.ofNat 32 (readLE m address 4), BitVec.ofNat 32 (readLE m (address + 4) 4)⟩

def writeEntry (m : Bytes) (address : ℕ) (entry : PtEntry) : Bytes :=
  writeLE (writeLE m address 4 entry.lower4Byte.toNat) (address + 4) 4 entry.upper4Byte.toNat

/-- The entry of a table, if it is present, as the base of the next table. -/
def nextTable (m : Bytes) (table index : ℕ) : Option ℕ :=
  let entry := readEntry m (table + 8 * (index % 512))
  if entry.present then some (2 ^ 12 * entry.frame) else none

/-- The entry of the page of a virtual address. -/
def pageWalk (m : Bytes) (v : ℕ) : Option PtEntry :=
  (nextTable m pml4BaseAddress (v / 2 ^ 39)).bind fun pdpTable =>
  (nextTable m pdpTable (v / 2 ^ 30)).bind fun pdTable =>
  (nextTable m pdTable (v / 2 ^ 21)).map fun pTable =>
  readEntry m (pTable + 8 * (v / 2 ^ 12 % 512))

variable {m m' : Bytes} {a b x : ℕ} {entry : PtEntry}

theorem readEntry_congr (h : ∀ x, a ≤ x → x < a + 8 → m' x = m x) :
    readEntry m' a = readEntry m a := by
  rw [readEntry, readEntry, readLE_congr fun x hx hlt => h x hx (by omega),
    readLE_congr fun x hx hlt => h x (by omega) (by omega)]

theorem writeEntry_outside (h : x < a ∨ a + 8 ≤ x) : writeEntry m a entry x = m x := by
  rw [writeEntry, writeLE_of_not_mem (by omega), writeLE_of_not_mem (by omega)]

theorem readEntry_writeEntry : readEntry (writeEntry m a entry) a = entry := by
  have hword (w : DWORD) : BitVec.ofNat 32 (w.toNat % 256 ^ 4) = w := by
    rw [Nat.mod_eq_of_lt (show w.toNat < 256 ^ 4 from w.isLt), BitVec.ofNat_toNat,
      BitVec.setWidth_eq]
  rw [readEntry, writeEntry, readLE_writeLE_disjoint (by omega), readLE_writeLE, readLE_writeLE,
    hword, hword]

/-- Memories with the same entry agree on its bytes. -/
theorem byte_of_readEntry (h : readEntry m' a = readEntry m a) (hx : a ≤ x) (hlt : x < a + 8) :
    m' x = m x := by
  have hword {b : ℕ} (hb : BitVec.ofNat 32 (readLE m' b 4) = BitVec.ofNat 32 (readLE m b 4)) :
      readLE m' b 4 = readLE m b 4 := by
    have hnat := congrArg BitVec.toNat hb
    have hlt := readLE_lt m b 4
    have hlt' := readLE_lt m' b 4
    rw [BitVec.toNat_ofNat, BitVec.toNat_ofNat] at hnat
    omega
  obtain ⟨hlower, hupper⟩ := PtEntry.mk.inj h
  rcases Nat.lt_or_ge x (a + 4) with hlow | hhigh
  · exact byte_of_readLE (hword hlower) hx hlow
  · exact byte_of_readLE (hword hupper) hhigh (by omega)

end SkhuOS
