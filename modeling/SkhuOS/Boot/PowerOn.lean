import SkhuOS.Boot.BootLoader
import SkhuOS.Loader.Boot
import SkhuOS.Tools.ImageMaker

/-! The stages of the boot behind each other: the boot sector reads the image, the loader clears
memory, builds the page tables and copies the kernel, and the kernel clears its `.bss`. What a
stage stores to by the way (messages, variables, the stack) is left open. -/
namespace SkhuOS
open Foundation

/-- Only bytes in `own` differ. -/
def Touches (own : ℕ → Prop) (m m' : Bytes) : Prop := ∀ x, ¬ own x → m' x = m x

/-- The loop that stores a zero of `size` bytes from `start` on while the address is below
`stop`. -/
def clearLoop (size start stop : ℕ) (m : Bytes) : Bytes :=
  editLoop (fun i m => writeLE m (start + size * i) size 0) 0 ((stop - start + (size - 1)) / size) m

/-- Where the stages keep what is their own: the memory of the BIOS, the end of the loader with its
variables, and the `.bss` of the kernel. -/
structure BootLayout where
  bios : ℕ → Prop
  loaderEnd : ℕ
  bssStart : ℕ
  bssEnd : ℕ

def screenMemory (x : ℕ) : Prop :=
  BootLoader.textMemory ≤ x ∧ x < BootLoader.textMemory + 2 ^ 16

namespace BootLoader

/-- The block lies behind the far jump, the variables lie behind the code. -/
def bootInfoOffset : ℕ := 5

def variablesStart : ℕ := bootSectorAddress + bootInfoOffset + bootInfoSize

/-- The variables and the stack of the boot sector, the screen, and the memory of the BIOS. -/
def own (layout : BootLayout) (x : ℕ) : Prop :=
  variablesStart ≤ x ∧ x < imageAddress ∨ screenMemory x ∨ layout.bios x

/-- The loop `ReadDisk` with what is stored between the reads. -/
inductive ReadRun (own : ℕ → Prop) (disk : ℕ → Bytes) : ℕ → DAP → Bytes → Bytes → Prop
  | done {d : DAP} {m : Bytes} : ReadRun own disk 0 d m m
  | read {di : ℕ} {d : DAP} {m m₁ m' : Bytes} (htouch : Touches own m m₁)
      (hrest : ReadRun own disk di (nextSector d)
        (copyBytes m₁ (destination d) (disk (lba d)) 0 (512 * d.sectorCount.toNat)) m') :
      ReadRun own disk (di + 1) d m m'

/-- From the boot sector in its place to the jump to the loader. -/
def Run (layout : BootLayout) (disk : ℕ → Bytes) (m m' : Bytes) : Prop :=
  ∃ m₁ m₂, Touches (own layout) (copyBytes m bootSectorAddress (disk 0) 0 512) m₁ ∧
    ReadRun (own layout) disk (readLE m₁ (bootSectorAddress + bootInfoOffset + 8) 2) dap m₁ m₂ ∧
    Touches (own layout) m₂ m'

end BootLoader

namespace Loader

def ia32EndAddress : ℕ := 0xA00000

/-- The read-back of `InitializeMemory` never fails on RAM. -/
def initializeMemory (start stop : ℕ) (m : Bytes) : Bytes := clearLoop 4 start stop m

/-- The stack of the loader, its code with the variables, and the screen. -/
def own (layout : BootLayout) (x : ℕ) : Prop :=
  bootSectorLoadedAddress + bootSectorSize ≤ x ∧ x < layout.loaderEnd ∨ screenMemory x

/-- `Main` of the loader. -/
def Run (layout : BootLayout) (m m' : Bytes) : Prop :=
  ∃ m₁ m₂ m₃ m₄, Touches (own layout) m m₁ ∧
    Touches (own layout) (initializeMemory pml4BaseAddress ia32EndAddress m₁) m₂ ∧
    Touches (own layout) (initializePaging m₂) m₃ ∧ copyIA32ModeImage m₃ = some m₄ ∧
    Touches (own layout) m₄ m'

end Loader

namespace KernelStart

def clearBss (layout : BootLayout) (m : Bytes) : Bytes := clearLoop 8 layout.bssStart layout.bssEnd m

/-- The stack that `Entry` sets, which lies above the area of the kernel. -/
def own (x : ℕ) : Prop := Loader.ia32EndAddress ≤ x ∧ x ≤ 0xAFFFFE

/-- `Entry` and `Main` of the kernel up to `clearBss`. -/
def Run (layout : BootLayout) (m m' : Bytes) : Prop :=
  ∃ m₁, Touches own m m₁ ∧ Touches own (clearBss layout m₁) m'

end KernelStart

/-- The three stages on a disk. -/
def Booted (layout : BootLayout) (disk : ℕ → Bytes) (m m' : Bytes) : Prop :=
  ∃ m₁ m₂, BootLoader.Run layout disk m m₁ ∧ Loader.Run layout m₁ m₂ ∧ KernelStart.Run layout m₂ m'

/-- The sectors of an image. -/
def diskOf (image : List BYTE) : ℕ → Bytes := fun s j => image.getD (512 * s + j) 0

/-- The kernel stands in its place, its `.bss` is zero, and the tables map what the loader made
them map, up to the page whose entry lies below the kernel. -/
structure KernelReady (layout : BootLayout) (kernel : List BYTE) (m : Bytes) : Prop where
  code : ∀ i < kernel.length, m (Loader.ia32StartAddress + i) = kernel.getD i 0
  bss : ∀ x, layout.bssStart ≤ x → x < layout.bssEnd → m x = 0
  pages : ∀ v < 0x9F400000, pageWalk m v = some (Loader.pageEntry (v / 2 ^ 12))

/-- The stages leave each other's memory alone: the BIOS keeps off the block and the image, the
variables of the loader lie in its own sectors, and the `.bss` lies between the kernel and the
end of its area. -/
structure BootLayout.Apart (layout : BootLayout) (loader kernel : List BYTE) : Prop where
  block : ∀ x, layout.bios x → x < BootLoader.bootSectorAddress ∨ BootLoader.variablesStart ≤ x
  image : ∀ x, layout.bios x → x < BootLoader.imageAddress ∨ BootLoader.imageAddress +
    512 * (ImageMaker.sectorCount loader + ImageMaker.sectorCount kernel) ≤ x
  loaderEnd : layout.loaderEnd ≤ BootLoader.imageAddress + 512 * ImageMaker.sectorCount loader
  bssStart : Loader.ia32StartAddress + kernel.length ≤ layout.bssStart
  bss : layout.bssStart ≤ layout.bssEnd
  bssEnd : layout.bssEnd ≤ Loader.ia32EndAddress

variable {own : ℕ → Prop} {layout : BootLayout} {disk : ℕ → Bytes} {m m' m₁ m₂ : Bytes}
  {boot loader kernel image : List BYTE} {size start stop n x : ℕ} {d : DAP}

theorem Touches.refl (own : ℕ → Prop) (m : Bytes) : Touches own m m := fun _ _ => rfl

theorem Touches.trans (h : Touches own m m₁) (h' : Touches own m₁ m₂) : Touches own m m₂ :=
  fun x hx => (h' x hx).trans (h x hx)

theorem Touches.copyBytes (h : Touches own m m₁) (dst : ℕ) (src : Bytes) (a n : ℕ) :
    Touches own (copyBytes m dst src a n) (copyBytes m₁ dst src a n) := by
  intro x hx
  simp only [Foundation.copyBytes]
  rw [h x hx]

theorem blockwise_clear (size start : ℕ) :
    Blockwise (fun i m => writeLE m (start + size * i) size 0) start size := by
  constructor
  · intro i m x hx
    rw [Nat.mul_succ] at hx
    exact writeLE_of_not_mem (by omega)
  · intro i m m' x hx hlt
    rw [Nat.mul_succ] at hlt
    simp only [writeLE]
    rw [if_pos (by omega), if_pos (by omega)]

theorem clearLoop_outside (hx : x < start ∨ stop + size ≤ x + 1) (hsize : 0 < size)
    (hle : start ≤ stop) : clearLoop size start stop m x = m x := by
  have hcount := Nat.mul_div_le (stop - start + (size - 1)) size
  apply editLoop_outside (blockwise_clear size start)
  rw [Nat.zero_add, Nat.mul_zero]
  omega

/-- All that lies between the addresses is cleared. -/
theorem clearLoop_inside (hx : start ≤ x) (hlt : x < stop) (hsize : 0 < size) :
    clearLoop size start stop m x = 0 := by
  have hblock := Nat.div_add_mod (x - start) size
  have hrest := Nat.mod_lt (x - start) hsize
  have hcount : (x - start) / size < (stop - start + (size - 1)) / size := by
    apply (Nat.div_lt_iff_lt_mul hsize).mpr
    have hround := Nat.div_add_mod (stop - start + (size - 1)) size
    have hlast := Nat.mod_lt (stop - start + (size - 1)) hsize
    rw [Nat.mul_comm]
    omega
  have hinside : clearLoop size start stop m x =
      writeLE m (start + size * ((x - start) / size)) size 0 x := by
    apply editLoop_inside (blockwise_clear size start) (Nat.zero_le _)
    · rwa [Nat.zero_add]
    · omega
    · rw [Nat.mul_succ]
      omega
  rw [hinside, writeLE, if_pos (by omega)]
  rw [byteOf, Nat.zero_div]
  rfl

namespace BootLoader

theorem readLoop_succ : (readLoop disk (n + 1) d m).memory =
    (readLoop disk n (nextSector d)
      (copyBytes m (destination d) (disk (lba d)) 0 (512 * d.sectorCount.toNat))).memory := rfl

/-- The loop keeps what its memories have in common. -/
theorem readLoop_touches (h : Touches own m m₁) :
    Touches own (readLoop disk n d m).memory (readLoop disk n d m₁).memory := by
  induction n generalizing d m m₁ with
  | zero => exact h
  | succ n ih =>
    rw [readLoop_succ, readLoop_succ]
    exact ih (h.copyBytes _ _ _ _)

/-- What is stored between the reads is all that tells the loop from the one that only reads. -/
theorem ReadRun.touches (h : ReadRun own disk n d m m') :
    Touches own (readLoop disk n d m).memory m' := by
  induction h with
  | done => exact Touches.refl own _
  | @read di d m m₁ m' htouch _ ih =>
    rw [readLoop_succ]
    exact (readLoop_touches (htouch.copyBytes _ _ _ _)).trans ih

theorem exists_readRun (own : ℕ → Prop) (disk : ℕ → Bytes) (n : ℕ) (d : DAP) (m : Bytes) :
    ∃ m', ReadRun own disk n d m m' := by
  induction n generalizing d m with
  | zero => exact ⟨m, .done⟩
  | succ n ih =>
    obtain ⟨m', hrun⟩ := ih (nextSector d)
      (copyBytes m (destination d) (disk (lba d)) 0 (512 * d.sectorCount.toNat))
    exact ⟨m', .read (Touches.refl own m) hrun⟩

theorem exists_run (layout : BootLayout) (disk : ℕ → Bytes) (m : Bytes) :
    ∃ m', Run layout disk m m' := by
  obtain ⟨m', hrun⟩ := exists_readRun (own layout) disk _ dap
    (copyBytes m bootSectorAddress (disk 0) 0 512)
  exact ⟨m', _, _, Touches.refl _ _, hrun, Touches.refl _ _⟩

/-- The block, its counts included, and the bytes behind the boot sector are in their place, but
for the first `used` ones. -/
structure Handed (image : List BYTE) (used : ℕ) (m : Bytes) : Prop where
  block : ∀ i, bootSectorAddress + i < variablesStart →
    m (bootSectorAddress + i) = image.getD i 0
  sectors : ∀ i, used ≤ i → 512 + i < image.length →
    m (imageAddress + i) = image.getD (512 + i) 0

end BootLoader

theorem BootLayout.Apart.image_not_own (h : layout.Apart loader kernel)
    (hroom : ImageMaker.sectorCount loader + ImageMaker.sectorCount kernel ≤ 1344)
    (hx : BootLoader.imageAddress ≤ x) (hlt : x < BootLoader.imageAddress +
      512 * (ImageMaker.sectorCount loader + ImageMaker.sectorCount kernel)) :
    ¬ BootLoader.own layout x := by
  have himage : BootLoader.imageAddress = 0x10000 := rfl
  have hscreen : BootLoader.textMemory = 0xB8000 := rfl
  rintro (hown | hown | hown)
  · omega
  · unfold screenMemory at hown
    omega
  · have := h.image x hown
    omega

theorem BootLayout.Apart.block_not_own (h : layout.Apart loader kernel)
    (hx : BootLoader.bootSectorAddress ≤ x) (hlt : x < BootLoader.variablesStart) :
    ¬ BootLoader.own layout x := by
  have hvariables : BootLoader.variablesStart = 0x7C11 := rfl
  have hscreen : BootLoader.textMemory = 0xB8000 := rfl
  rintro (hown | hown | hown)
  · omega
  · unfold screenMemory at hown
    omega
  · have := h.block x hown
    omega

namespace BootLoader
open ImageMaker

theorem image_length (hboot : boot.length = 512) (h : UniqueSignature boot bootInfoOffset) :
    (patched bootInfoOffset boot loader kernel).length =
      512 + 512 * (sectorCount loader + sectorCount kernel) := by
  have hloader := @padded_length loader
  have hkernel := @padded_length kernel
  rw [patched_length hboot h.fits, List.length_append, List.length_append]
  omega

/-- The boot sector reads the count that the builder has written. -/
theorem count_read (hboot : boot.length = 512) (h : UniqueSignature boot bootInfoOffset)
    (hroom : sectorCount loader + sectorCount kernel ≤ 1344)
    (hblock : ∀ i, bootSectorAddress + i < variablesStart →
      m (bootSectorAddress + i) = (patched bootInfoOffset boot loader kernel).getD i 0) :
    readLE m (bootSectorAddress + bootInfoOffset + 8) 2 =
      sectorCount loader + sectorCount kernel := by
  have hoffset : bootInfoOffset = 5 := rfl
  have hvariables : variablesStart = 0x7C11 := rfl
  have hstart : bootSectorAddress = 0x7C00 := rfl
  rw [@readLE_of_bytes _ _ _ (sectorCount loader + sectorCount kernel)]
  · exact Nat.mod_eq_of_lt (by omega)
  · intro j hj
    have hplace : bootSectorAddress + bootInfoOffset + 8 + j =
        bootSectorAddress + (bootInfoOffset + 8 + j) := by omega
    rw [hplace, hblock _ (by omega), getD_patched hboot h.fits, if_neg (by omega),
      if_pos (by omega)]
    congr 1
    omega

/-- The boot sector hands the whole image over. -/
theorem Run.handed (hboot : boot.length = 512) (h : UniqueSignature boot bootInfoOffset)
    (hroom : sectorCount loader + sectorCount kernel ≤ 1344) (hapart : layout.Apart loader kernel)
    (hrun : Run layout (diskOf (patched bootInfoOffset boot loader kernel)) m m') :
    Handed (patched bootInfoOffset boot loader kernel) 0 m' := by
  obtain ⟨m₁, m₂, hstart, hloop, hend⟩ := hrun
  have hvariables : variablesStart = 0x7C11 := rfl
  have hsector : bootSectorAddress = 0x7C00 := rfl
  have himage : imageAddress = 0x10000 := rfl
  have hblock (i : ℕ) (hi : bootSectorAddress + i < variablesStart) :
      m₁ (bootSectorAddress + i) = (patched bootInfoOffset boot loader kernel).getD i 0 := by
    rw [hstart _ (hapart.block_not_own (Nat.le_add_right _ _) hi), copyBytes_of_mem (by omega),
      diskOf]
    congr 1
    omega
  rw [count_read hboot h hroom hblock] at hloop
  have hall := hloop.touches.trans hend
  obtain ⟨hbelow, -, hstored⟩ := @readLoop_memory
    (diskOf (patched bootInfoOffset boot loader kernel)) m₁ 0
      (sectorCount loader + sectorCount kernel) (by omega)
  have hfirst : dapAfter 0 = dap := rfl
  rw [hfirst] at hbelow hstored
  constructor
  · intro i hi
    rw [hall _ (hapart.block_not_own (Nat.le_add_right _ _) hi), hbelow _ (by omega)]
    exact hblock i hi
  · intro i _ hi
    rw [image_length hboot h] at hi
    rw [hall _ (hapart.image_not_own hroom (by omega) (by omega))]
    have hsplit := Nat.div_add_mod i 512
    have hbyte := hstored (i / 512) (Nat.zero_le _) (by omega) (i % 512)
      (Nat.mod_lt i (by omega))
    have hplace : imageAddress + 512 * (i / 512) + i % 512 = imageAddress + i := by omega
    rw [hplace, diskOf] at hbyte
    rw [hbyte]
    congr 1
    omega

end BootLoader

namespace Loader
open BootLoader ImageMaker

/-- The search depends on the boot sector up to the signature it finds. -/
theorem findBootInfo_front {a : ℕ} (hfound : findBootInfo m = some a)
    (hsame : ∀ x, bootSectorLoadedAddress ≤ x → x < a + bootInfoSignatureLength → m' x = m x) :
    findBootInfo m' = some a := by
  unfold findBootInfo at hfound ⊢
  obtain ⟨i, hi, rfl⟩ := Option.map_eq_some_iff.mp hfound
  rw [List.find?_range_eq_some] at hi
  have hmatch (k : ℕ) (hk : k ≤ i) : signatureAt m' (bootSectorLoadedAddress + k) =
      signatureAt m (bootSectorLoadedAddress + k) :=
    signatureAt_congr fun j hj => hsame _ (by omega) (by omega)
  have hagain : (List.range (bootSectorSize - bootInfoSize + 1)).find? (fun i =>
      signatureAt m' (bootSectorLoadedAddress + i)) = some i := by
    rw [List.find?_range_eq_some]
    refine ⟨(hmatch i (Nat.le_refl i)).trans hi.1, hi.2.1, fun k hk => ?_⟩
    rw [hmatch k hk.le]
    exact hi.2.2 k hk
  rw [hagain]
  rfl

/-- The loader copies the kernel from behind its own sectors. -/
theorem copyIA32ModeImage_handed (hboot : boot.length = 512)
    (h : UniqueSignature boot bootInfoOffset)
    (hroom : sectorCount loader + sectorCount kernel ≤ 1344)
    (hm : Handed (patched bootInfoOffset boot loader kernel) (512 * sectorCount loader) m) :
    copyIA32ModeImage m = some (copyWords (protectedStartAddress + sectorCount loader * 512)
      ia32StartAddress (128 * sectorCount kernel) m) := by
  have hvariables : variablesStart = 0x7C11 := rfl
  have hstart : bootSectorLoadedAddress = 0x7C00 := rfl
  have hsector : bootSectorAddress = 0x7C00 := rfl
  have hoffset : bootInfoOffset = 5 := rfl
  have hlength : bootInfoSignatureLength = 8 := rfl
  have hloaded := loadImage_loaded (patched bootInfoOffset boot loader kernel)
  obtain ⟨htotal, hloader⟩ := counts_loaded hboot h (by omega) hloaded
  have hsame (x : ℕ) (hx : bootSectorLoadedAddress ≤ x) (hlt : x < variablesStart) :
      m x = loadImage (patched bootInfoOffset boot loader kernel) x := by
    obtain ⟨i, rfl⟩ := Nat.exists_eq_add_of_le hx
    rw [hloaded.bootSector i (by rw [bootSectorSize]; omega)]
    exact hm.block i (by omega)
  have hfound : findBootInfo m = some (bootSectorLoadedAddress + bootInfoOffset) :=
    findBootInfo_front (findBootInfo_loaded hboot h hloaded) fun x hx hlt => hsame x hx (by omega)
  rw [totalSectorCount, ← readLE_congr fun x hx hlt => hsame x (by omega) (by omega)] at htotal
  rw [loaderSectorCount, ← readLE_congr fun x hx hlt => hsame x (by omega) (by omega)] at hloader
  have hwords : imageWords m (bootSectorLoadedAddress + bootInfoOffset) =
      128 * sectorCount kernel := by
    rw [imageWords, totalSectorCount, loaderSectorCount, htotal, hloader]
    push_cast
    omega
  rw [copyIA32ModeImage, hfound, Option.map_some, hwords, loaderSectorCount, hloader]

/-- Behind the copy the kernel stands in its place, and nothing else has changed. -/
theorem copied_kernel (hboot : boot.length = 512) (h : UniqueSignature boot bootInfoOffset)
    (hroom : sectorCount loader + sectorCount kernel ≤ 1344)
    (hm : Handed (patched bootInfoOffset boot loader kernel) (512 * sectorCount loader) m) (x : ℕ) :
    copyWords (protectedStartAddress + sectorCount loader * 512) ia32StartAddress
        (128 * sectorCount kernel) m x =
      if ia32StartAddress ≤ x ∧ x < ia32StartAddress + 512 * sectorCount kernel then
        (padded kernel).getD (x - ia32StartAddress) 0 else m x := by
  have hsource : protectedStartAddress = 0x10000 := rfl
  have hdest := ia32Start_eq
  have hfull : 4 * (128 * sectorCount kernel) = 512 * sectorCount kernel := by omega
  rw [copyWords_apply (by omega), hfull]
  split
  next hin =>
    have hloaded := loadImage_loaded (patched bootInfoOffset boot loader kernel)
    have hkernel := @padded_length kernel
    rw [Nat.mod_eq_of_lt (by omega), ← kernel_loaded hboot h hloaded (by omega), Nat.add_assoc,
      hloaded.sectors _ (by rw [image_length hboot h, bootSectorSize]; omega)]
    exact hm.sectors _ (by omega) (by rw [image_length hboot h]; omega)
  next => rfl

/-- The pages whose entries lie below the kernel are mapped as the tables were built. -/
theorem pageWalk_kept {v : ℕ}
    (h : ∀ x, pml4BaseAddress ≤ x → x < ia32StartAddress → m' x = initializePaging m x)
    (hv : v < 0x9F400000) : pageWalk m' v = some (pageEntry (v / 2 ^ 12)) := by
  have hstart := ia32Start_eq
  have hbase := pml4_eq
  have hread {a : ℕ} (ha : pml4BaseAddress ≤ a) (hlt : a + 8 ≤ ia32StartAddress) :
      readEntry m' a = readEntry (initializePaging m) a :=
    readEntry_congr fun x hx hlt' => h x (by omega) (by omega)
  have hpml4 : nextTable m' pml4BaseAddress (v / 2 ^ 39) = some (0x101 * 0x1000) := by
    have hindex : v / 2 ^ 39 % 512 = 0 := by omega
    obtain ⟨hpresent, hframe⟩ := tableEntry_next (k := 0x101) (by omega)
    rw [nextTable, hindex, Nat.mul_zero, Nat.add_zero, hread (Nat.le_refl _) (by omega),
      readEntry_pml4Table, if_pos hpresent, hframe]
  have hpdp : nextTable m' (0x101 * 0x1000) (v / 2 ^ 30) =
      some ((0x102 + v / 2 ^ 30) * 0x1000) := by
    have hindex : v / 2 ^ 30 % 512 = v / 2 ^ 30 := by omega
    obtain ⟨hpresent, hframe⟩ := tableEntry_next (k := 0x102 + v / 2 ^ 30) (by omega)
    rw [nextTable, hindex, hread (by omega) (by omega),
      show 0x101 * 0x1000 = pdpTableBaseAddress from rfl, readEntry_pdpTable m (by omega),
      if_pos hpresent, hframe]
  have hpd : nextTable m' ((0x102 + v / 2 ^ 30) * 0x1000) (v / 2 ^ 21) =
      some ((0x106 + v / 2 ^ 21) * 0x1000) := by
    have hindex : (0x102 + v / 2 ^ 30) * 0x1000 + 8 * (v / 2 ^ 21 % 512) =
        pdTableBaseAddress + 8 * (v / 2 ^ 21) := by
      simp only [pdTableBaseAddress]
      omega
    have hdirectory := pdTable_eq
    obtain ⟨hpresent, hframe⟩ := tableEntry_next (k := 0x106 + v / 2 ^ 21) (by omega)
    rw [nextTable, hindex, hread (by omega) (by omega), readEntry_pdTable m (by omega),
      if_pos hpresent, hframe]
  have hindex : (0x106 + v / 2 ^ 21) * 0x1000 + 8 * (v / 2 ^ 12 % 512) =
      pTableBaseAddress + 8 * (v / 2 ^ 12) := by
    simp only [pTableBaseAddress]
    omega
  have htable := pTable_eq
  rw [pageWalk, hpml4, Option.bind_some, hpdp, Option.bind_some, hpd, Option.map_some, hindex,
    hread (by omega) (by omega), readEntry_initializePaging m (by omega)]

/-- What the loader leaves to the kernel. -/
structure Prepared (kernel : List BYTE) (m : Bytes) : Prop where
  code : ∀ x, ia32StartAddress ≤ x → x < ia32StartAddress + kernel.length →
    m x = kernel.getD (x - ia32StartAddress) 0
  tables : ∃ m₀, ∀ x, pml4BaseAddress ≤ x → x < ia32StartAddress → m x = initializePaging m₀ x

/-- Below the tables the loader only stores to its own memory, so that the block and the kernel
are still handed over when it copies. -/
theorem handed_on (hboot : boot.length = 512) (h : UniqueSignature boot bootInfoOffset)
    (hroom : sectorCount loader + sectorCount kernel ≤ 1344) (hapart : layout.Apart loader kernel)
    (hm : Handed (patched bootInfoOffset boot loader kernel) 0 m) {m₃ : Bytes}
    (hfirst : Touches (Loader.own layout) m m₁)
    (hclear : Touches (Loader.own layout) (initializeMemory pml4BaseAddress ia32EndAddress m₁) m₂)
    (hpaging : Touches (Loader.own layout) (initializePaging m₂) m₃) :
    Handed (patched bootInfoOffset boot loader kernel) (512 * sectorCount loader) m₃ := by
  have hvariables : variablesStart = 0x7C11 := rfl
  have hsector : bootSectorAddress = 0x7C00 := rfl
  have himage : imageAddress = 0x10000 := rfl
  have hscreen : textMemory = 0xB8000 := rfl
  have hloaded : bootSectorLoadedAddress + bootSectorSize = 0x7E00 := rfl
  have hbase := pml4_eq
  have hend : ia32EndAddress = 0xA00000 := rfl
  have hloader := hapart.loaderEnd
  have hkept (x : ℕ) (hlow : x < pml4BaseAddress) (hown : ¬ Loader.own layout x) : m₃ x = m x := by
    rw [hpaging x hown, initializePaging_outside hlow, hclear x hown, initializeMemory,
      clearLoop_outside (.inl hlow) (by omega) (by omega), hfirst x hown]
  constructor
  · intro i hi
    rw [hkept _ (by omega)]
    · exact hm.block i hi
    · rintro (hown | hown)
      · omega
      · unfold screenMemory at hown
        omega
  · intro i hused hi
    have hlength := hi
    rw [image_length hboot h] at hlength
    rw [hkept _ (by omega)]
    · exact hm.sectors i (Nat.zero_le i) hi
    · rintro (hown | hown)
      · omega
      · unfold screenMemory at hown
        omega

theorem own_below (hroom : sectorCount loader + sectorCount kernel ≤ 1344)
    (hapart : layout.Apart loader kernel) (hx : pml4BaseAddress ≤ x) : ¬ Loader.own layout x := by
  have himage : imageAddress = 0x10000 := rfl
  have hscreen : textMemory = 0xB8000 := rfl
  have hbase := pml4_eq
  have hloader := hapart.loaderEnd
  rintro (hown | hown)
  · omega
  · unfold screenMemory at hown
    omega

theorem Run.prepared (hboot : boot.length = 512) (h : UniqueSignature boot bootInfoOffset)
    (hroom : sectorCount loader + sectorCount kernel ≤ 1344) (hapart : layout.Apart loader kernel)
    (hm : Handed (patched bootInfoOffset boot loader kernel) 0 m) (hrun : Run layout m m') :
    Prepared kernel m' := by
  obtain ⟨m₁, m₂, m₃, m₄, hfirst, hclear, hpaging, hcopy, hlast⟩ := hrun
  have hhanded := handed_on hboot h hroom hapart hm hfirst hclear hpaging
  rw [copyIA32ModeImage_handed hboot h hroom hhanded] at hcopy
  obtain rfl := Option.some.inj hcopy
  have hstart := ia32Start_eq
  have hbase := pml4_eq
  have hlength := @padded_length kernel
  rw [padded, List.length_append] at hlength
  constructor
  · intro x hx hlt
    rw [hlast x (own_below hroom hapart (by omega)), copied_kernel hboot h hroom hhanded,
      if_pos (by omega), padded, List.getD_append _ _ _ _ (by omega)]
  · refine ⟨m₂, fun x hx hlt => ?_⟩
    rw [hlast x (own_below hroom hapart hx), copied_kernel hboot h hroom hhanded,
      if_neg (by omega), hpaging x (own_below hroom hapart hx)]

theorem exists_run (hboot : boot.length = 512) (h : UniqueSignature boot bootInfoOffset)
    (hroom : sectorCount loader + sectorCount kernel ≤ 1344) (hapart : layout.Apart loader kernel)
    (hm : Handed (patched bootInfoOffset boot loader kernel) 0 m) : ∃ m', Run layout m m' := by
  have hhanded := handed_on hboot h hroom hapart hm (Touches.refl _ _) (Touches.refl _ _)
    (Touches.refl _ _)
  exact ⟨_, _, _, _, _, Touches.refl _ _, Touches.refl _ _, Touches.refl _ _,
    copyIA32ModeImage_handed hboot h hroom hhanded, Touches.refl _ _⟩

end Loader

/-- `clearBss` leaves the kernel and the tables alone. -/
theorem KernelStart.Run.ready (hapart : layout.Apart loader kernel)
    (hm : Loader.Prepared kernel m) (hrun : KernelStart.Run layout m m') :
    KernelReady layout kernel m' := by
  obtain ⟨m₁, hfirst, hlast⟩ := hrun
  have hstart := Loader.ia32Start_eq
  have hend : Loader.ia32EndAddress = 0xA00000 := rfl
  have hbssStart := hapart.bssStart
  have hbss := hapart.bss
  have hbssEnd := hapart.bssEnd
  have hkept (x : ℕ) (hlow : x < layout.bssStart) : m' x = m x := by
    have hown : ¬ KernelStart.own x := by
      rintro ⟨hfrom, -⟩
      omega
    rw [hlast x hown, KernelStart.clearBss, clearLoop_outside (.inl hlow) (by omega) hbss,
      hfirst x hown]
  constructor
  · intro i hi
    rw [hkept _ (by omega), hm.code _ (by omega) (by omega), Nat.add_sub_cancel_left]
  · intro x hx hlt
    have hown : ¬ KernelStart.own x := by
      rintro ⟨hfrom, -⟩
      omega
    rw [hlast x hown]
    exact clearLoop_inside hx hlt (by omega)
  · intro v hv
    obtain ⟨m₀, htables⟩ := hm.tables
    refine Loader.pageWalk_kept (m := m₀) (fun x hx hlt => ?_) hv
    rw [hkept x (by omega)]
    exact htables x hx hlt

/-- From the three files to the running kernel: the builder makes an image of them, and behind the
boot from that image, whatever memory held before, the kernel stands in its place with a clear
`.bss`, under the page tables of the loader. -/
theorem boots (imageName : String) (hboot : boot.length = 512)
    (h : ImageMaker.UniqueSignature boot BootLoader.bootInfoOffset)
    (hroom : ImageMaker.sectorCount loader + ImageMaker.sectorCount kernel ≤ 1344)
    (hapart : layout.Apart loader kernel) :
    ∃ image, ImageMaker.imageMaker imageName boot loader kernel = .ok image ∧
      ∀ m, (∃ m', Booted layout (diskOf image) m m') ∧
        ∀ m', Booted layout (diskOf image) m m' → KernelReady layout kernel m' := by
  refine ⟨_, ImageMaker.imageMaker_eq hboot h, fun m => ⟨?_, ?_⟩⟩
  · obtain ⟨m₁, hfirst⟩ := BootLoader.exists_run layout
      (diskOf (ImageMaker.patched BootLoader.bootInfoOffset boot loader kernel)) m
    obtain ⟨m₂, hsecond⟩ := Loader.exists_run hboot h hroom hapart
      (hfirst.handed hboot h hroom hapart)
    exact ⟨_, m₁, m₂, hfirst, hsecond, m₂, Touches.refl _ _, Touches.refl _ _⟩
  · rintro m' ⟨m₁, m₂, hfirst, hsecond, hthird⟩
    have hprepared : Loader.Prepared kernel m₂ :=
      hsecond.prepared hboot h hroom hapart (hfirst.handed hboot h hroom hapart)
    exact hthird.ready hapart hprepared

/-- A boot sector with the block behind five bytes, and a kernel of two bytes. -/
def jumpBoot : List BYTE := List.replicate 5 0 ++ bootInfoSignature ++ List.replicate 499 0

theorem jumpBoot_unique : ImageMaker.UniqueSignature jumpBoot BootLoader.bootInfoOffset :=
  ImageMaker.unique_amid_zeros (by decide)

def smallLayout : BootLayout := ⟨fun x => x < 0x500, 0x10200, 0x600008, 0x600020⟩

theorem smallLayout_apart : smallLayout.Apart [1] [2, 3] where
  block x hx := .inl (hx.trans (by decide))
  image x hx := .inl (hx.trans (by decide))
  loaderEnd := by decide
  bssStart := by decide
  bss := by decide
  bssEnd := by decide

theorem boots_small : ∃ image m',
    ImageMaker.imageMaker "Disk.img" jumpBoot [1] [2, 3] = .ok image ∧
    Booted smallLayout (diskOf image) (fun _ => 0xFF) m' ∧ m' 0x600001 = 3 ∧ m' 0x600010 = 0 := by
  have hboot : jumpBoot.length = 512 := by
    rw [jumpBoot, List.length_append, List.length_append, List.length_replicate,
      List.length_replicate]
    rfl
  obtain ⟨image, hmade, hall⟩ :=
    boots "Disk.img" hboot jumpBoot_unique (by decide) smallLayout_apart
  obtain ⟨⟨m', hbooted⟩, hready⟩ := hall fun _ => 0xFF
  have hkernel := hready m' hbooted
  exact ⟨image, m', hmade, hbooted, hkernel.code 1 (by decide),
    hkernel.bss 0x600010 (by decide) (by decide)⟩

end SkhuOS
