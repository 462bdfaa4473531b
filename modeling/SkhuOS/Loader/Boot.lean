import SkhuOS.Arch.Descriptor
import SkhuOS.Loader.IdentityMap
import SkhuOS.Loader.Image

/-! The page table behind the steps of the boot: the image of the kernel is copied over its
middle, and the descriptor tables lie in it as well. -/
namespace SkhuOS.Loader
open Foundation

/-- From the first page table to the descriptor tables of the kernel. -/
def boot (vectorStubTable : ℕ → QWORD) (syscallEntry : QWORD) (m : Bytes) : Option Bytes :=
  (copyIA32ModeImage (initializePaging m)).map (initializeDescriptor vectorStubTable syscallEntry)

def entryAddress (i : ℕ) : ℕ := pTableBaseAddress + 8 * i

/-- The entry of page `i` is the one the loader made, and behind the kernel area it stays
closed. -/
structure EntryKept (m : Bytes) (i : ℕ) : Prop where
  entry : readEntry m (entryAddress i) = pageEntry i
  absent : kernelSize * 512 ≤ i → (readEntry m (entryAddress i)).present = false
  closed : kernelSize * 512 ≤ i → (readEntry m (entryAddress i)).userAccess = false

def imageSource (m : Bytes) (bootInfo : ℕ) : ℕ :=
  protectedStartAddress + loaderSectorCount m bootInfo * 512

def imageEnd (m : Bytes) (bootInfo : ℕ) : ℕ := ia32StartAddress + 4 * imageWords m bootInfo

/-- Byte `k` of what is copied. An image that reaches into the place it is copied to repeats
its beginning. -/
def imageByte (m : Bytes) (bootInfo k : ℕ) : BitVec 8 :=
  m (imageSource m bootInfo + k % (ia32StartAddress - imageSource m bootInfo))

/-- Where the image lies over the entry of page `i`, it has the same bytes. -/
def ImageSpares (m : Bytes) (bootInfo i : ℕ) : Prop :=
  ∀ x, entryAddress i ≤ x → x < entryAddress i + 8 →
    ia32StartAddress ≤ x → x < imageEnd m bootInfo →
    imageByte m bootInfo (x - ia32StartAddress) = m x

variable {vectorStubTable : ℕ → QWORD} {syscallEntry : QWORD} {m m' : Bytes} {bootInfo i x : ℕ}

theorem entryAddress_eq (i : ℕ) : entryAddress i = 0x106000 + 8 * i := rfl

theorem ia32Start_eq : ia32StartAddress = 0x600000 := rfl

theorem gdtr_eq : gdtrAddress = 0x510000 := rfl

theorem initializePaging_outside (hx : x < pml4BaseAddress) : initializePaging m x = m x := by
  have hbase := pml4_eq
  have hpdp := pdpTable_eq
  have hpd := pdTable_eq
  have hpt := pTable_eq
  unfold initializePaging initializePageTable initializePageDirectoryTable
  unfold initializePageDirectoryPointerTable initializePML4Table
  dsimp only
  repeat rw [fillTable_outside (by omega)]
  exact writeEntry_outside (by omega)

/-- The block lies below the tables. -/
theorem findBootInfo_paging : findBootInfo (initializePaging m) = findBootInfo m := by
  apply findBootInfo_congr
  intro x hx hlt
  apply initializePaging_outside
  simp only [bootSectorLoadedAddress, bootSectorSize] at hlt
  rw [pml4_eq]
  omega

theorem counts_paging (h : bootInfo + bootInfoSize ≤ pml4BaseAddress) :
    totalSectorCount (initializePaging m) bootInfo = totalSectorCount m bootInfo ∧
      loaderSectorCount (initializePaging m) bootInfo = loaderSectorCount m bootInfo := by
  simp only [bootInfoSize, bootInfoSignatureLength] at h
  constructor
  · apply readLE_congr
    intro x _ hlt
    exact initializePaging_outside (by omega)
  · apply readLE_congr
    intro x _ hlt
    exact initializePaging_outside (by omega)

/-- An entry is kept exactly if its bytes are. -/
theorem entryKept_iff (hi : i < 2 ^ 20) : EntryKept m' i ↔
    ∀ x, entryAddress i ≤ x → x < entryAddress i + 8 → m' x = initializePaging m x := by
  have hentry : readEntry (initializePaging m) (entryAddress i) = pageEntry i :=
    readEntry_initializePaging m hi
  constructor
  · intro h x hx hlt
    exact byte_of_readEntry (h.entry.trans hentry.symm) hx hlt
  · intro h
    have hsame : readEntry m' (entryAddress i) = pageEntry i := (readEntry_congr h).trans hentry
    obtain ⟨flags, upper, heq, -, huser, hpresent, -⟩ := pageEntry_eq i
    constructor
    · exact hsame
    · intro hbehind
      rw [hsame, heq, PtEntry.present, flag_getLsbD (by omega), hpresent]
      rw [kernelPages_eq] at hbehind
      exact decide_eq_false (by omega)
    · intro _
      rw [hsame, heq, PtEntry.userAccess, flag_getLsbD (by omega), huser]

/-- The copy, in terms of the image. -/
theorem copied_apply :
    copyWords (imageSource m bootInfo) ia32StartAddress (imageWords m bootInfo) m x =
      if ia32StartAddress ≤ x ∧ x < imageEnd m bootInfo then
        imageByte m bootInfo (x - ia32StartAddress) else m x := by
  apply copyWords_apply
  rw [imageSource, ia32Start_eq, protectedStartAddress]
  omega

theorem copyIA32ModeImage_eq : copyIA32ModeImage m = (findBootInfo m).map fun bootInfo =>
    copyWords (imageSource m bootInfo) ia32StartAddress (imageWords m bootInfo) m := rfl

theorem imageSpares_iff : ImageSpares m bootInfo i ↔
    ∀ x, entryAddress i ≤ x → x < entryAddress i + 8 →
      copyWords (imageSource m bootInfo) ia32StartAddress (imageWords m bootInfo) m x = m x := by
  unfold ImageSpares
  constructor
  · intro h x hx hlt
    rw [copied_apply]
    split
    next hcopied => exact h x hx hlt hcopied.1 hcopied.2
    next => rfl
  · intro h x hx hlt hfrom hto
    have hsame := h x hx hlt
    rwa [copied_apply, if_pos ⟨hfrom, hto⟩] at hsame

/-- The upper words of the entries that the descriptor tables lie on. -/
theorem descriptor_pages_upper (hi : 0x81400 ≤ i) (hlt : i < 0x8151C) :
    (pageEntry i).upper4Byte = 0x800000F8 := by
  have haddress : (physicalAddress i).toNat = i * 0x1000 := by
    rw [physicalAddress, BitVec.toNat_ofNat]
    omega
  have hhigh : highWord (physicalAddress i) = 0xF8 := by
    apply BitVec.eq_of_toNat_eq
    rw [highWord_toNat, haddress, if_neg (by omega)]
    change _ = 248
    omega
  rw [pageEntry, kernelPages_eq, codePages_eq, if_neg (by omega), if_neg (by omega)]
  rw [dataEntry, hhigh]
  rfl

theorem upper_byte {entry : PtEntry} {a j : ℕ} (hj : j < 4) :
    writeEntry m a entry (a + 4 + j) = byteOf entry.upper4Byte.toNat j := by
  simp only [writeEntry, writeLE]
  rw [if_pos (by omega), Nat.add_sub_cancel_left]

/-- Bytes 4 and 7 of these entries. -/
theorem descriptor_pages_bytes (hi : 0x81400 ≤ i) (hlt : i < 0x8151C) :
    initializePaging m (entryAddress i + 4) = 0xF8 ∧
      initializePaging m (entryAddress i + 7) = 0x80 := by
  have hentry : readEntry (initializePaging m) (entryAddress i) = pageEntry i :=
    readEntry_initializePaging m (by omega)
  have hupper := descriptor_pages_upper hi hlt
  have hbyte {j : ℕ} (hj : j < 4) : initializePaging m (entryAddress i + 4 + j) =
      byteOf (pageEntry i).upper4Byte.toNat j := by
    rw [← @upper_byte m (pageEntry i) (entryAddress i) j hj]
    exact byte_of_readEntry (hentry.trans readEntry_writeEntry.symm) (by omega) (by omega)
  have hlow := hbyte (show 0 < 4 by omega)
  have hhigh := hbyte (show 3 < 4 by omega)
  rw [hupper] at hlow hhigh
  exact ⟨hlow, hhigh⟩

/-- Every eight bytes of the descriptor tables differ from the entry they lie on. -/
theorem descriptors_clobber (hi : 0x81400 ≤ i) (hlt : i < 0x8151C) :
    ∃ x, entryAddress i ≤ x ∧ x < entryAddress i + 8 ∧
      initializeDescriptor vectorStubTable syscallEntry m' x ≠ initializePaging m x := by
  obtain ⟨hlow, hhigh⟩ := @descriptor_pages_bytes m i hi hlt
  have hidt := idtAddress_eq
  have hcount : idtGatedCount = 130 := rfl
  rw [entryAddress_eq] at hlow hhigh ⊢
  rcases Nat.lt_or_ge i 0x81418 with hfront | hgates
  · refine ⟨0x106000 + 8 * i + 7, by omega, by omega, ?_⟩
    have hplace : 0x106000 + 8 * i + 7 = gdtrAddress + 8 * (i - 0x81400) + 7 := by
      rw [gdtr_eq]
      omega
    rw [hhigh, hplace, initializeDescriptor_front (by omega)]
    split <;> decide
  · unfold initializeDescriptor
    obtain ⟨g, hg | hg⟩ : ∃ g, i = 0x81418 + 2 * g ∨ i = 0x81419 + 2 * g :=
      ⟨(i - 0x81418) / 2, by omega⟩
    · refine ⟨0x106000 + 8 * i + 4, by omega, by omega, ?_⟩
      have hplace : 0x106000 + 8 * i + 4 = idtAddress + 16 * g + 4 := by omega
      obtain ⟨isr, ist, flag, hist, hgate⟩ := @initializeIDT_gate vectorStubTable
        syscallEntry g (idtAddress + 16 * g + 4) (by omega) (by omega) (by omega)
      rw [hlow, hplace, hgate _ m, setIDTGate_ist]
      interval_cases ist <;> decide
    · refine ⟨0x106000 + 8 * i + 7, by omega, by omega, ?_⟩
      have hplace : 0x106000 + 8 * i + 7 = idtAddress + 16 * g + 15 := by omega
      obtain ⟨isr, ist, flag, -, hgate⟩ := @initializeIDT_gate vectorStubTable
        syscallEntry g (idtAddress + 16 * g + 15) (by omega) (by omega) (by omega)
      rw [hhigh, hplace, hgate _ m, setIDTGate_reserved]
      decide

/-- Behind the boot, the entry of a page is kept exactly if the descriptor tables do not lie on
it and the image, where it does, has the bytes of the entry. -/
theorem page_entry_kept_iff (hboot : boot vectorStubTable syscallEntry m = some m')
    (hi : i < 2 ^ 20) : EntryKept m' i ↔ (i < 0x81400 ∨ 0x8151C ≤ i) ∧
      ∃ bootInfo, findBootInfo m = some bootInfo ∧ ImageSpares (initializePaging m) bootInfo i := by
  unfold boot at hboot
  rw [copyIA32ModeImage_eq, findBootInfo_paging] at hboot
  obtain ⟨bootInfo, hfound⟩ : ∃ bootInfo, findBootInfo m = some bootInfo := by
    cases hfound : findBootInfo m with
    | none =>
      rw [hfound] at hboot
      exact nomatch hboot
    | some bootInfo => exact ⟨bootInfo, rfl⟩
  rw [hfound, Option.map_some, Option.map_some, Option.some.injEq] at hboot
  subst hboot
  have hspares : (∃ bootInfo, findBootInfo m = some bootInfo ∧
      ImageSpares (initializePaging m) bootInfo i) ↔
        ImageSpares (initializePaging m) bootInfo i := by
    rw [hfound]
    exact ⟨fun ⟨_, hsome, h⟩ => Option.some.inj hsome ▸ h, fun h => ⟨bootInfo, rfl, h⟩⟩
  rw [hspares, imageSpares_iff, @entryKept_iff m _ i hi]
  by_cases htables : 0x81400 ≤ i ∧ i < 0x8151C
  · obtain ⟨x, hx, hlt, hne⟩ := @descriptors_clobber _ _ m _ i htables.1 htables.2
    constructor
    · intro h
      exact absurd (h x hx hlt) hne
    · intro h
      omega
  · have hout (x : ℕ) (hx : entryAddress i ≤ x) (hlt : x < entryAddress i + 8) (m : Bytes) :
        initializeDescriptor vectorStubTable syscallEntry m x = m x := by
      apply initializeDescriptor_outside
      rw [entryAddress_eq] at hx hlt
      rw [gdtr_eq, descriptorEnd_eq]
      omega
    constructor
    · intro h
      refine ⟨by omega, fun x hx hlt => ?_⟩
      exact (hout x hx hlt _).symm.trans (h x hx hlt)
    · intro h x hx hlt
      rw [hout x hx hlt]
      exact h.2 x hx hlt

/-- The flags of an entry stand in its first byte. -/
theorem readEntry_flag {a j : ℕ} (hj : j < 8) :
    (readEntry m a).lower4Byte.getLsbD j = (m a).getLsbD j := by
  have hsplit : readLE m a 4 = 2 ^ 8 * readLE m (a + 1) 3 + (m a).toNat := by
    rw [readLE]
    omega
  rw [readEntry, BitVec.getLsbD_ofNat, decide_eq_true (show j < 32 by omega), Bool.true_and, hsplit,
    Nat.testBit_two_pow_mul_add _ (m a).isLt, if_pos hj]
  rfl

/-- A boot sector that starts with the block, and a kernel of one sector whose first byte is 7. -/
def smallImage : Bytes := fun x =>
  if 0x7C00 ≤ x ∧ x < 0x7C08 then bootInfoSignature.getD (x - 0x7C00) 0
  else if x = 0x7C08 then 1 else if x = 0x10000 then 7 else 0

theorem smallImage_found : findBootInfo smallImage = some 0x7C00 := by decide +kernel

theorem boot_smallImage (stubs : ℕ → QWORD) (syscallEntry : QWORD) :
    boot stubs syscallEntry smallImage = some (initializeDescriptor stubs syscallEntry
      (copyWords (imageSource (initializePaging smallImage) 0x7C00) ia32StartAddress
        (imageWords (initializePaging smallImage) 0x7C00) (initializePaging smallImage))) := by
  rw [boot, copyIA32ModeImage_eq, findBootInfo_paging, smallImage_found]
  rfl

theorem page_entry_kept_iff_zero : ∃ m', boot (fun _ => 0) 0 smallImage = some m' ∧
    (EntryKept m' 0 ↔ (0 < 0x81400 ∨ 0x8151C ≤ 0) ∧ ∃ bootInfo,
      findBootInfo smallImage = some bootInfo ∧
        ImageSpares (initializePaging smallImage) bootInfo 0) :=
  ⟨_, boot_smallImage _ 0, page_entry_kept_iff (boot_smallImage _ 0) (by decide)⟩

/-- The page of the GDTR loses its entry, and the image opens a page above 2 GB to user code. -/
theorem boot_opens_page : ∃ m', boot (fun _ => 0) 0 smallImage = some m' ∧
    readEntry m' (entryAddress 0x81400) ≠ pageEntry 0x81400 ∧
    (readEntry m' (entryAddress 0x9F400)).present = true ∧
    (readEntry m' (entryAddress 0x9F400)).userAccess = true := by
  refine ⟨_, boot_smallImage _ 0, ?_, ?_⟩
  · intro hkept
    obtain ⟨x, hx, hlt, hne⟩ := descriptors_clobber (m := smallImage) (i := 0x81400)
      (Nat.le_refl _) (by decide)
    refine hne (byte_of_readEntry (hkept.trans ?_) hx hlt)
    exact (readEntry_initializePaging smallImage (by decide)).symm
  · have hwords : imageWords (initializePaging smallImage) 0x7C00 = 128 := by
      obtain ⟨htotal, hloader⟩ := @counts_paging smallImage 0x7C00 (by decide)
      rw [imageWords, htotal, hloader]
      decide +kernel
    have hsource : imageSource (initializePaging smallImage) 0x7C00 = 0x10000 := by
      obtain ⟨-, hloader⟩ := @counts_paging smallImage 0x7C00 (by decide)
      rw [imageSource, hloader]
      decide +kernel
    have hbyte : copyWords 0x10000 ia32StartAddress 128 (initializePaging smallImage)
        0x600000 = 7 := by
      rw [copyWords_apply (by decide), if_pos (by decide)]
      exact initializePaging_outside (by decide)
    have hflag {j : ℕ} (hj : j < 8) := readEntry_flag (m := initializeDescriptor (fun _ => 0) 0
      (copyWords 0x10000 ia32StartAddress 128 (initializePaging smallImage))) (a := 0x600000) hj
    rw [initializeDescriptor_outside (by decide), hbyte] at hflag
    rw [hwords, hsource]
    exact ⟨(hflag (show 0 < 8 by decide)).trans rfl, (hflag (show 2 < 8 by decide)).trans rfl⟩

end SkhuOS.Loader
