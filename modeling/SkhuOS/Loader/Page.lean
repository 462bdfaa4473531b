import SkhuOS.Common.Paging
import SkhuOS.Foundation.Blocks

/-! The page tables the loader builds in `loader/Page.c`, with addresses in a 32-bit `int`
that wraps around. -/
namespace SkhuOS.Loader
open Foundation

def tableCount : ℕ := 512
def pageTableSize : ℕ := 0x1000
def maxMemorySize : ℕ := 4
def maxCodeSize : ℕ := 2
def kernelSize : ℕ := 32

/-- `(address >> 28) & 0xFF` of a signed address. -/
def highWord (address : DWORD) : DWORD := address.sshiftRight 28 &&& 0xFF

/-- An entry of the upper levels, which leave access to the last one. -/
def tableEntry (address : DWORD) : PtEntry :=
  ⟨pageFlagP ||| pageFlagRW ||| pageFlagUS ||| address, highWord address⟩

/-- A loop over the entries of a table. -/
def fillTable (base : ℕ) (entry : ℕ → PtEntry) (first count : ℕ) (m : Bytes) : Bytes :=
  editLoop (fun i m => writeEntry m (base + 8 * i) (entry i)) first count m

def initializePML4Table (m : Bytes) : Bytes :=
  let m := writeEntry m pml4BaseAddress (tableEntry (BitVec.ofNat 32 pdpTableBaseAddress))
  fillTable pml4BaseAddress (fun _ => ⟨0, 0⟩) 1 (tableCount - 1) m

def initializePageDirectoryPointerTable (m : Bytes) : Bytes :=
  let m := fillTable pdpTableBaseAddress
    (fun i => tableEntry (BitVec.ofNat 32 (pdTableBaseAddress + i * pageTableSize)))
    0 maxMemorySize m
  fillTable pdpTableBaseAddress (fun _ => ⟨0, 0⟩) maxMemorySize (tableCount - maxMemorySize) m

def initializePageDirectoryTable (m : Bytes) : Bytes :=
  fillTable pdTableBaseAddress
    (fun i => tableEntry (BitVec.ofNat 32 (pTableBaseAddress + i * pageTableSize)))
    0 (maxMemorySize * tableCount) m

def physicalAddress (i : ℕ) : DWORD := BitVec.ofNat 32 (i * 0x1000)

/-- The entries of the three loops of `InitializePageTable`. -/
def kernelEntry (i : ℕ) : PtEntry :=
  ⟨pageFlagP ||| pageFlagRW ||| physicalAddress i, highWord (physicalAddress i)⟩

def absentEntry (i : ℕ) : PtEntry :=
  ⟨pageFlagRW ||| physicalAddress i, highWord (physicalAddress i)⟩

def dataEntry (i : ℕ) : PtEntry :=
  ⟨pageFlagRW ||| physicalAddress i, highWord (physicalAddress i) ||| pageFlagEXB⟩

def initializePageTable (m : Bytes) : Bytes :=
  let m := fillTable pTableBaseAddress kernelEntry 0 (kernelSize * 512) m
  let m := fillTable pTableBaseAddress absentEntry (kernelSize * 512)
    (maxMemorySize * tableCount * 512 - kernelSize * 512) m
  fillTable pTableBaseAddress dataEntry (maxCodeSize * tableCount * 512)
    (maxMemorySize * tableCount * 512 - maxCodeSize * tableCount * 512) m

def initializePaging (m : Bytes) : Bytes :=
  let m := initializePML4Table m
  let m := initializePageDirectoryPointerTable m
  let m := initializePageDirectoryTable m
  initializePageTable m

variable {base first count i x a : ℕ} {entry : ℕ → PtEntry} {m : Bytes}

theorem blockwise_writeEntry (base : ℕ) (entry : ℕ → PtEntry) :
    Blockwise (fun i m => writeEntry m (base + 8 * i) (entry i)) base 8 := by
  refine ⟨fun i m x hx => writeEntry_outside (by omega), fun i m m' x hx hlt => ?_⟩
  exact byte_of_readEntry (by rw [readEntry_writeEntry, readEntry_writeEntry]) hx (by omega)

theorem fillTable_outside (hx : x < base + 8 * first ∨ base + 8 * (first + count) ≤ x) :
    fillTable base entry first count m x = m x :=
  editLoop_outside (blockwise_writeEntry base entry) hx

theorem readEntry_fillTable_outside (ha : a + 8 ≤ base + 8 * first ∨
    base + 8 * (first + count) ≤ a) : readEntry (fillTable base entry first count m) a =
      readEntry m a :=
  readEntry_congr fun x _ _ => fillTable_outside (by omega)

theorem readEntry_fillTable (hi : first ≤ i) (hlt : i < first + count) :
    readEntry (fillTable base entry first count m) (base + 8 * i) = entry i := by
  rw [← @readEntry_writeEntry m (base + 8 * i) (entry i)]
  exact readEntry_congr fun x hx hx' =>
    editLoop_inside (blockwise_writeEntry base entry) hi hlt hx (by omega)

/-- What the page table holds in the end. -/
def pageEntry (i : ℕ) : PtEntry :=
  if i < kernelSize * 512 then kernelEntry i
  else if i < maxCodeSize * tableCount * 512 then absentEntry i
  else dataEntry i

theorem kernelPages_eq : kernelSize * 512 = 0x4000 := rfl

theorem codePages_eq : maxCodeSize * tableCount * 512 = 0x80000 := rfl

theorem allPages_eq : maxMemorySize * tableCount * 512 = 0x100000 := rfl

theorem readEntry_pageTable (m : Bytes) {i : ℕ} (hi : i < 0x100000) :
    readEntry (initializePageTable m) (pTableBaseAddress + 8 * i) = pageEntry i := by
  rw [initializePageTable, pageEntry, kernelPages_eq, codePages_eq, allPages_eq]
  split
  · rw [readEntry_fillTable_outside (by omega), readEntry_fillTable_outside (by omega),
      readEntry_fillTable (by omega) (by omega)]
  · split
    · rw [readEntry_fillTable_outside (by omega), readEntry_fillTable (by omega) (by omega)]
    · rw [readEntry_fillTable (by omega) (by omega)]

theorem readEntry_initializePageTable_outside (ha : a + 8 ≤ pTableBaseAddress) :
    readEntry (initializePageTable m) a = readEntry m a := by
  rw [initializePageTable, kernelPages_eq, codePages_eq, allPages_eq]
  rw [readEntry_fillTable_outside (by omega), readEntry_fillTable_outside (by omega),
    readEntry_fillTable_outside (by omega)]

theorem readEntry_initializePageDirectoryTable_outside (ha : a + 8 ≤ pdTableBaseAddress) :
    readEntry (initializePageDirectoryTable m) a = readEntry m a := by
  rw [initializePageDirectoryTable, readEntry_fillTable_outside (by omega)]

theorem readEntry_initializePageDirectoryPointerTable_outside
    (ha : a + 8 ≤ pdpTableBaseAddress) :
    readEntry (initializePageDirectoryPointerTable m) a = readEntry m a := by
  rw [initializePageDirectoryPointerTable, readEntry_fillTable_outside (by omega),
    readEntry_fillTable_outside (by omega)]

theorem readEntry_initializePaging (m : Bytes) {i : ℕ} (hi : i < 0x100000) :
    readEntry (initializePaging m) (pTableBaseAddress + 8 * i) = pageEntry i :=
  readEntry_pageTable _ hi

theorem directoryEntries_eq : maxMemorySize * tableCount = 0x800 := rfl

theorem pdTable_eq : pdTableBaseAddress = 0x102000 := rfl

theorem pTable_eq : pTableBaseAddress = 0x106000 := rfl

theorem pdpTable_eq : pdpTableBaseAddress = 0x101000 := rfl

theorem pml4_eq : pml4BaseAddress = 0x100000 := rfl

theorem readEntry_pdTable (m : Bytes) {i : ℕ} (hi : i < 0x800) :
    readEntry (initializePaging m) (pdTableBaseAddress + 8 * i) =
      tableEntry (BitVec.ofNat 32 ((0x106 + i) * 0x1000)) := by
  have hentry : pTableBaseAddress + i * pageTableSize = (0x106 + i) * 0x1000 := by
    simp only [pTableBaseAddress, pageTableSize]
    omega
  have hbelow : pdTableBaseAddress + 8 * i + 8 ≤ pTableBaseAddress := by
    rw [pdTable_eq, pTable_eq]
    omega
  rw [initializePaging]
  rw [readEntry_initializePageTable_outside hbelow, initializePageDirectoryTable,
    directoryEntries_eq, readEntry_fillTable (by omega) (by omega), hentry]

theorem readEntry_pdpTable (m : Bytes) {i : ℕ} (hi : i < 4) :
    readEntry (initializePaging m) (pdpTableBaseAddress + 8 * i) =
      tableEntry (BitVec.ofNat 32 ((0x102 + i) * 0x1000)) := by
  have hentry : pdTableBaseAddress + i * pageTableSize = (0x102 + i) * 0x1000 := by
    simp only [pdTableBaseAddress, pageTableSize]
    omega
  have hbelow : pdpTableBaseAddress + 8 * i + 8 ≤ pdTableBaseAddress := by
    rw [pdpTable_eq, pdTable_eq]
    omega
  have hbelow' : pdTableBaseAddress ≤ pTableBaseAddress := by
    rw [pdTable_eq, pTable_eq]
    omega
  have hcount : maxMemorySize = 4 := rfl
  rw [initializePaging]
  rw [readEntry_initializePageTable_outside (by omega),
    readEntry_initializePageDirectoryTable_outside hbelow, initializePageDirectoryPointerTable,
    hcount, readEntry_fillTable_outside (by omega), readEntry_fillTable (by omega) (by omega),
    hentry]

theorem readEntry_pml4Table (m : Bytes) :
    readEntry (initializePaging m) pml4BaseAddress =
      tableEntry (BitVec.ofNat 32 (0x101 * 0x1000)) := by
  have hbelow : pml4BaseAddress + 8 ≤ pdpTableBaseAddress := by
    rw [pml4_eq, pdpTable_eq]
    omega
  have hbelow' : pdpTableBaseAddress ≤ pdTableBaseAddress := by
    rw [pdpTable_eq, pdTable_eq]
    omega
  have hbelow'' : pdTableBaseAddress ≤ pTableBaseAddress := by
    rw [pdTable_eq, pTable_eq]
    omega
  rw [initializePaging]
  rw [readEntry_initializePageTable_outside (by omega),
    readEntry_initializePageDirectoryTable_outside (by omega),
    readEntry_initializePageDirectoryPointerTable_outside hbelow, initializePML4Table,
    readEntry_fillTable_outside (by omega), readEntry_writeEntry]
  rfl

/-- The high word spreads the sign: it is zero for addresses below 2^28 only. -/
theorem highWord_toNat (address : DWORD) : (highWord address).toNat =
    address.toNat / 2 ^ 28 + if address.toNat < 2 ^ 31 then 0 else 240 := by
  have hmask (w : DWORD) : (w &&& 0xFF).toNat = w.toNat % 256 := by
    rw [BitVec.toNat_and]
    exact Nat.and_two_pow_sub_one_eq_mod w.toNat 8
  rw [highWord, hmask]
  cases hmsb : address.msb with
  | false =>
    have hlt := BitVec.msb_eq_false_iff_two_mul_lt.mp hmsb
    rw [BitVec.sshiftRight_eq_of_msb_false hmsb, BitVec.toNat_ushiftRight,
      Nat.shiftRight_eq_div_pow, if_pos (by omega)]
    omega
  | true =>
    have hge := BitVec.msb_eq_true_iff_two_mul_ge.mp hmsb
    have hlt := address.isLt
    rw [BitVec.sshiftRight_eq_of_msb_true hmsb, BitVec.toNat_not, BitVec.toNat_ushiftRight,
      BitVec.toNat_not, Nat.shiftRight_eq_div_pow, if_neg (by omega)]
    omega

/-- Flags fit below the frame. -/
theorem toNat_flags_or {flags k : ℕ} (hflags : flags < 2 ^ 12) :
    (BitVec.ofNat 32 flags ||| BitVec.ofNat 32 (k * 0x1000)).toNat =
      2 ^ 12 * (k % 2 ^ 20) + flags := by
  have hshift : k * 0x1000 % 2 ^ 32 = (k % 2 ^ 20) <<< 12 := by
    rw [Nat.shiftLeft_eq]
    omega
  rw [BitVec.toNat_or, BitVec.toNat_ofNat, BitVec.toNat_ofNat, hshift, Nat.mod_eq_of_lt (by omega),
    Nat.or_comm, ← Nat.shiftLeft_add_eq_or_of_lt hflags, Nat.shiftLeft_eq, Nat.mul_comm]

theorem address_getLsbD (k : ℕ) {j : ℕ} (hj : j < 12) :
    (BitVec.ofNat 32 (k * 0x1000)).getLsbD j = false := by
  have hshift : k * 0x1000 = k <<< 12 := by rw [Nat.shiftLeft_eq]
  have hlow : ¬ 12 ≤ j := by omega
  rw [BitVec.getLsbD_ofNat, hshift, Nat.testBit_shiftLeft, decide_eq_false hlow, Bool.false_and,
    Bool.and_false]

/-- An entry of the upper levels leads to its table. -/
theorem tableEntry_next {k : ℕ} (hk : k < 2 ^ 16) :
    (tableEntry (BitVec.ofNat 32 (k * 0x1000))).present = true ∧
      2 ^ 12 * (tableEntry (BitVec.ofNat 32 (k * 0x1000))).frame = k * 0x1000 := by
  have hhigh : (highWord (BitVec.ofNat 32 (k * 0x1000))).toNat = 0 := by
    rw [highWord_toNat, BitVec.toNat_ofNat, Nat.mod_eq_of_lt (by omega), if_pos (by omega)]
    omega
  have hflags : pageFlagP ||| pageFlagRW ||| pageFlagUS = BitVec.ofNat 32 7 := rfl
  refine ⟨?_, ?_⟩
  · rw [PtEntry.present, tableEntry, BitVec.getLsbD_or, hflags]
    rfl
  · rw [PtEntry.frame, tableEntry, hflags, toNat_flags_or (by omega), hhigh]
    omega

/-- The walk ends at the entry of the page. -/
theorem walk_initializePaging (m : Bytes) {v : ℕ} (hv : v < 2 ^ 32) :
    pageWalk (initializePaging m) v = some (pageEntry (v / 2 ^ 12)) := by
  have hpml4 : nextTable (initializePaging m) pml4BaseAddress (v / 2 ^ 39) =
      some (0x101 * 0x1000) := by
    have hindex : v / 2 ^ 39 % 512 = 0 := by omega
    obtain ⟨hpresent, hframe⟩ := tableEntry_next (k := 0x101) (by omega)
    rw [nextTable, hindex, Nat.mul_zero, Nat.add_zero, readEntry_pml4Table]
    rw [if_pos hpresent, hframe]
  have hpdp : nextTable (initializePaging m) (0x101 * 0x1000) (v / 2 ^ 30) =
      some ((0x102 + v / 2 ^ 30) * 0x1000) := by
    have hindex : v / 2 ^ 30 % 512 = v / 2 ^ 30 := by omega
    obtain ⟨hpresent, hframe⟩ := tableEntry_next (k := 0x102 + v / 2 ^ 30) (by omega)
    rw [nextTable, hindex, show 0x101 * 0x1000 = pdpTableBaseAddress from rfl,
      readEntry_pdpTable m (by omega)]
    rw [if_pos hpresent, hframe]
  have hpd : nextTable (initializePaging m) ((0x102 + v / 2 ^ 30) * 0x1000) (v / 2 ^ 21) =
      some ((0x106 + v / 2 ^ 21) * 0x1000) := by
    have hindex : (0x102 + v / 2 ^ 30) * 0x1000 + 8 * (v / 2 ^ 21 % 512) =
        pdTableBaseAddress + 8 * (v / 2 ^ 21) := by
      simp only [pdTableBaseAddress]
      omega
    obtain ⟨hpresent, hframe⟩ := tableEntry_next (k := 0x106 + v / 2 ^ 21) (by omega)
    rw [nextTable, hindex, readEntry_pdTable m (by omega)]
    rw [if_pos hpresent, hframe]
  have hindex : (0x106 + v / 2 ^ 21) * 0x1000 + 8 * (v / 2 ^ 12 % 512) =
      pTableBaseAddress + 8 * (v / 2 ^ 12) := by
    simp only [pTableBaseAddress]
    omega
  rw [pageWalk, hpml4, Option.bind_some, hpdp, Option.bind_some, hpd, Option.map_some, hindex,
    readEntry_initializePaging m (by omega)]

end SkhuOS.Loader
