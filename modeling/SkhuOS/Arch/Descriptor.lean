import Mathlib.Tactic.IntervalCases
import SkhuOS.Arch.HandlerImp
import SkhuOS.Foundation.Blocks

/-! The descriptor tables of `kernel/arch/Descriptor.c`: five structures behind each other
from `GDTR_ADDRESS` on. Loading the registers with them stores nothing. -/
namespace SkhuOS
open Foundation

def gdtCount : ℕ := 5
def idtGatedCount : ℕ := 130
def istCount : ℕ := 1
def syscallVector : ℕ := 0x81
def reservedVector : ℕ := 20

def gdtrAddress : ℕ := 0x510000
def gdtAddress : ℕ := gdtrAddress + 16
def tssDescriptorAddress : ℕ := gdtAddress + 8 * gdtCount
def tssAddress : ℕ := tssDescriptorAddress + 16
def idtrAddress : ℕ := tssAddress + 104
def idtAddress : ℕ := idtrAddress + 16
def istStartAddress : ℕ := 0xB00000
def istSize : ℕ := 0x100000

/-- A `GDTR` or `IDTR`: the limit, the base address and two reserved fields. -/
def writeTableRegister (m : Bytes) (a limit baseAddress : ℕ) : Bytes :=
  let m := writeLE m a 2 limit
  let m := writeLE m (a + 2) 8 baseAddress
  let m := writeLE m (a + 10) 2 0
  writeLE m (a + 12) 4 0

def initializeGDTR (m : Bytes) : Bytes :=
  writeTableRegister m gdtrAddress (8 * gdtCount + 16 - 1) gdtAddress

/-- The two words of entry `i`. -/
def writeGDTEntry (m : Bytes) (i lower4Byte upper4Byte : ℕ) : Bytes :=
  writeLE (writeLE m (gdtAddress + 8 * i) 4 lower4Byte) (gdtAddress + 8 * i + 4) 4 upper4Byte

/-- The upper word of a segment over all of memory: present, in pages, long mode. -/
def gdtUpper (dpl type : ℕ) : ℕ :=
  0x8000 ||| dpl ||| 0x800000 ||| 0x200000 ||| 0x1000 ||| type ||| (0xFFFFF &&& 0xF0000)

def initializeGDT (m : Bytes) : Bytes :=
  let m := writeGDTEntry m 0 0 0
  let m := writeGDTEntry m 1 (0xFFFFF &&& 0xFFFF) (gdtUpper 0 0x200)
  let m := writeGDTEntry m 2 (0xFFFFF &&& 0xFFFF) (gdtUpper 0 0xA00)
  let m := writeGDTEntry m 3 (0xFFFFF &&& 0xFFFF) (gdtUpper 0x6000 0x200)
  writeGDTEntry m 4 (0xFFFFF &&& 0xFFFF) (gdtUpper 0x6000 0xA00)

def initializeTSSDescriptor (m : Bytes) : Bytes :=
  let segmentSize := 104 - 1
  let m := writeLE m tssDescriptorAddress 4
    ((segmentSize &&& 0xFFFF) ||| ((tssAddress &&& 0xFFFF) <<< 16))
  let m := writeLE m (tssDescriptorAddress + 4) 4
    (((tssAddress &&& 0xFF0000) >>> 16) ||| (0x8000 ||| 0x800000 ||| 0 ||| 0x900) |||
      (tssAddress &&& 0xFF000000) ||| (segmentSize &&& 0xF0000))
  let m := writeLE m (tssDescriptorAddress + 8) 4 (tssAddress >>> 32)
  writeLE m (tssDescriptorAddress + 12) 4 0

/-- `InitializeMemory` clears the 26 words; `ist[0]` is at offset 36, `ioMapAddress` at 102. -/
def initializeTSS (m : Bytes) : Bytes :=
  let m := editLoop (fun i m => writeLE m (tssAddress + 4 * i) 4 0) 0 (104 / 4) m
  let m := writeLE m (tssAddress + 36) 8 (istStartAddress + istSize)
  writeLE m (tssAddress + 102) 2 0xFFFF

def initializeIDTR (m : Bytes) : Bytes :=
  writeTableRegister m idtrAddress (16 * idtGatedCount - 1) idtAddress

def setIDTGate (m : Bytes) (entry : ℕ) (isr : QWORD) (ist flag : ℕ) : Bytes :=
  let m := writeLE m entry 2 (isr &&& 0xFFFF).toNat
  let m := writeLE m (entry + 2) 2 codeDescriptorOffset.toNat
  let m := writeLE m (entry + 4) 1 ist
  let m := writeLE m (entry + 5) 1 flag
  let m := writeLE m (entry + 6) 2 ((isr &&& 0xFFFF0000) >>> 16).toNat
  let m := writeLE m (entry + 8) 4 (isr >>> 32).toNat
  writeLE m (entry + 12) 4 0

/-- The gates are made of the addresses of the stubs in `Handler.asm`. -/
def initializeIDT (vectorStubTable : ℕ → QWORD) (syscallEntry : QWORD) (m : Bytes) : Bytes :=
  let m := editLoop (fun i m => setIDTGate m (idtAddress + 16 * i)
    (if i < interruptVectorCount then vectorStubTable i else vectorStubTable reservedVector)
    (istCount &&& 7) (0x80 ||| 0 ||| 0x0E)) 0 idtGatedCount m
  setIDTGate m (idtAddress + 16 * syscallVector) syscallEntry 0 (0x80 ||| 0x60 ||| 0x0E)

def initializeDescriptor (vectorStubTable : ℕ → QWORD) (syscallEntry : QWORD) (m : Bytes) : Bytes :=
  let m := initializeGDTR m
  let m := initializeGDT m
  let m := initializeTSSDescriptor m
  let m := initializeTSS m
  let m := initializeIDTR m
  initializeIDT vectorStubTable syscallEntry m

/-- The end of the tables. -/
def descriptorEnd : ℕ := idtAddress + 16 * idtGatedCount

theorem descriptorEnd_eq : descriptorEnd = 0x5108E0 := rfl

theorem idtAddress_eq : idtAddress = 0x5100C0 := rfl

theorem syscallVector_lt : syscallVector < idtGatedCount := by decide

variable {m m' : Bytes} {vectorStubTable : ℕ → QWORD} {isr syscallEntry : QWORD}
  {entry ist flag i x : ℕ}

theorem setIDTGate_outside (hx : x < entry ∨ entry + 16 ≤ x) :
    setIDTGate m entry isr ist flag x = m x := by
  simp only [setIDTGate, writeLE]
  repeat rw [if_neg (by omega)]

/-- A gate overwrites its 16 bytes. -/
theorem setIDTGate_inside (hx : entry ≤ x) (hlt : x < entry + 16) :
    setIDTGate m entry isr ist flag x = setIDTGate m' entry isr ist flag x := by
  simp only [setIDTGate, writeLE]
  split_ifs <;> first | rfl | omega

/-- Two bytes of a gate that do not depend on the address of the stub. -/
theorem setIDTGate_ist : setIDTGate m entry isr ist flag (entry + 4) = BitVec.ofNat 8 ist := by
  simp only [setIDTGate, writeLE]
  rw [if_neg (by omega), if_neg (by omega), if_neg (by omega), if_neg (by omega),
    if_pos (by omega), Nat.sub_self, byteOf, pow_zero, Nat.div_one]

theorem setIDTGate_reserved : setIDTGate m entry isr ist flag (entry + 15) = 0 := by
  simp only [setIDTGate, writeLE]
  rw [if_pos (by omega), byteOf, Nat.zero_div]
  rfl

theorem blockwise_setIDTGate (stub : ℕ → QWORD) (ist flag : ℕ) :
    Blockwise (fun i m => setIDTGate m (idtAddress + 16 * i) (stub i) ist flag) idtAddress 16 :=
  ⟨fun i m x hx => setIDTGate_outside (by omega),
    fun i m m' x hx hlt => setIDTGate_inside hx (by omega)⟩

theorem initializeIDT_outside (hx : x < idtAddress ∨ descriptorEnd ≤ x) :
    initializeIDT vectorStubTable syscallEntry m x = m x := by
  have hx : x < idtAddress ∨ idtAddress + 16 * idtGatedCount ≤ x := hx
  have hsyscall := syscallVector_lt
  rw [initializeIDT, setIDTGate_outside (by omega),
    editLoop_outside (blockwise_setIDTGate _ _ _) (by omega)]

/-- In the end gate `i` is that of its stub or, for system calls, of their entry. -/
theorem initializeIDT_gate (hi : i < idtGatedCount) (hx : idtAddress + 16 * i ≤ x)
    (hlt : x < idtAddress + 16 * i + 16) : ∃ isr ist flag, ist < 2 ∧ ∀ m m' : Bytes,
      initializeIDT vectorStubTable syscallEntry m x =
        setIDTGate m' (idtAddress + 16 * i) isr ist flag x := by
  by_cases hsyscall : i = syscallVector
  · subst hsyscall
    exact ⟨syscallEntry, 0, _, by omega, fun m m' => setIDTGate_inside hx hlt⟩
  · refine ⟨if i < interruptVectorCount then vectorStubTable i else vectorStubTable reservedVector,
      istCount &&& 7, 0x80 ||| 0 ||| 0x0E, by decide, fun m m' => ?_⟩
    rw [initializeIDT, setIDTGate_outside (by omega),
      editLoop_inside (blockwise_setIDTGate _ _ _) (Nat.zero_le i) (by omega) hx (by omega)]

theorem writeTableRegister_outside {a limit baseAddress : ℕ} (hx : x < a ∨ a + 16 ≤ x) :
    writeTableRegister m a limit baseAddress x = m x := by
  simp only [writeTableRegister, writeLE]
  repeat rw [if_neg (by omega)]

theorem initializeGDT_outside (hx : x < gdtAddress ∨ gdtAddress + 40 ≤ x) :
    initializeGDT m x = m x := by
  simp only [initializeGDT, writeGDTEntry, writeLE]
  repeat rw [if_neg (by omega)]

theorem initializeTSSDescriptor_outside
    (hx : x < tssDescriptorAddress ∨ tssDescriptorAddress + 16 ≤ x) :
    initializeTSSDescriptor m x = m x := by
  simp only [initializeTSSDescriptor, writeLE]
  repeat rw [if_neg (by omega)]

theorem initializeTSS_outside (hx : x < tssAddress ∨ tssAddress + 104 ≤ x) :
    initializeTSS m x = m x := by
  have hclear : Blockwise (fun i m => writeLE m (tssAddress + 4 * i) 4 0) tssAddress 4 := by
    refine ⟨fun i m x hx => writeLE_of_not_mem (by omega), fun i m m' x hx hlt => ?_⟩
    simp only [writeLE]
    rw [if_pos (by omega), if_pos (by omega)]
  rw [initializeTSS, writeLE_of_not_mem (by omega), writeLE_of_not_mem (by omega),
    editLoop_outside hclear (by omega)]

/-- The tables are all that is written. -/
theorem initializeDescriptor_outside (hx : x < gdtrAddress ∨ descriptorEnd ≤ x) :
    initializeDescriptor vectorStubTable syscallEntry m x = m x := by
  have hx : x < 0x510000 ∨ 0x5108E0 ≤ x := hx
  have hgdtr : gdtrAddress = 0x510000 := rfl
  have hgdt : gdtAddress = 0x510010 := rfl
  have htss : tssDescriptorAddress = 0x510038 := rfl
  have htss' : tssAddress = 0x510048 := rfl
  have hidtr : idtrAddress = 0x5100B0 := rfl
  rw [initializeDescriptor, initializeIDT_outside (by rw [idtAddress_eq, descriptorEnd_eq]; omega),
    initializeIDTR, writeTableRegister_outside (by omega), initializeTSS_outside (by omega),
    initializeTSSDescriptor_outside (by omega), initializeGDT_outside (by omega), initializeGDTR,
    writeTableRegister_outside (by omega)]

/-- The tables in front of the IDT: the last byte of every eight. -/
theorem initializeDescriptor_front {j : ℕ} (hj : j < 24) :
    initializeDescriptor vectorStubTable syscallEntry m (gdtrAddress + 8 * j + 7) =
      if j = 21 then 0xFF else 0 := by
  have hgdtr : gdtrAddress = 0x510000 := rfl
  rw [initializeDescriptor, initializeIDT_outside (by rw [idtAddress_eq]; omega)]
  interval_cases j <;> rfl

end SkhuOS
