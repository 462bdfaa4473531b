import Mathlib.Data.List.GetD
import Mathlib.Tactic.IntervalCases
import SkhuOS.Loader.Image

/-! The disk image of `tools/imagemaker/ImageMaker.c`: the files behind each other in whole
sectors, and the counts of sectors in the boot sector. -/
namespace SkhuOS
open Foundation

namespace ImageMaker

def sectorSize : ℕ := 512

/-- The loop of `appendFile` over what is left of the file: a buffer a round. -/
def appendLoop (image src : List BYTE) (size : ℕ) : List BYTE × ℕ :=
  if src.isEmpty then (image, size)
  else appendLoop (image ++ src.take sectorSize) (src.drop sectorSize)
    (size + (src.take sectorSize).length)
termination_by src.length
decreasing_by
  rename_i h
  have hpos : 0 < src.length := List.length_pos_iff.mpr fun heq => h (by rw [heq]; rfl)
  rw [List.length_drop, sectorSize]
  omega

def padding (size : ℕ) : ℕ := (sectorSize - size % sectorSize) % sectorSize

/-- The image with the file behind it, and the number of sectors. -/
def appendFile (image src : List BYTE) : List BYTE × ℕ :=
  let (image, size) := appendLoop image src 0
  (image ++ List.replicate (padding size) 0, (size + padding size) / sectorSize)

/-- The scan of `writeBootInfo` from offset `i` on, `n` offsets. -/
def scanBootInfo (imageName : String) (bootSector : List BYTE) :
    ℕ → ℕ → Option ℕ → Except String (Option ℕ)
  | _, 0, offset => .ok offset
  | i, n + 1, offset =>
    if (bootSector.drop i).take bootInfoSignatureLength ≠ bootInfoSignature then
      scanBootInfo imageName bootSector (i + 1) n offset
    else if offset.isSome then .error (imageName ++ ": duplicate BootInfo signature\n")
    else scanBootInfo imageName bootSector (i + 1) n (some i)

/-- `fwrite` at an offset inside the file. -/
def overwrite (image : List BYTE) (offset : ℕ) (bytes : List BYTE) : List BYTE :=
  image.take offset ++ bytes ++ image.drop (offset + bytes.length)

/-- The bytes of an `unsigned short`. -/
def shortBytes (data : ℕ) : List BYTE := [byteOf data 0, byteOf data 1]

def writeBootInfo (imageName : String) (image : List BYTE)
    (totalSectorCount loaderSectorCount : ℕ) : Except String (List BYTE) :=
  let bootSector := image.take bootSectorSize
  if bootSector.length ≠ bootSectorSize then .error (imageName ++ ": boot sector read fail\n")
  else match scanBootInfo imageName bootSector 0 (bootSectorSize - bootInfoSize + 1) none with
    | .error message => .error message
    | .ok none => .error (imageName ++ ": BootInfo signature not found in boot sector\n")
    | .ok (some offset) =>
      let image := overwrite image (offset + bootInfoSignatureLength) (shortBytes totalSectorCount)
      .ok (overwrite image (offset + bootInfoSignatureLength + 2) (shortBytes loaderSectorCount))

/-- `main` on the contents of the three files. -/
def imageMaker (imageName : String) (boot loader kernel : List BYTE) : Except String (List BYTE) :=
  let (image, _) := appendFile [] boot
  let (image, loaderSectorCount) := appendFile image loader
  let (image, kernelSectorCount) := appendFile image kernel
  writeBootInfo imageName image (loaderSectorCount + kernelSectorCount) loaderSectorCount

/-- A file with the zeros behind it, and its sectors. -/
def padded (src : List BYTE) : List BYTE := src ++ List.replicate (padding src.length) 0

def sectorCount (src : List BYTE) : ℕ := (src.length + padding src.length) / sectorSize

/-- A signature that leaves room for the block stands at `offset` and nowhere else. -/
structure UniqueSignature (bootSector : List BYTE) (offset : ℕ) : Prop where
  fits : offset + bootInfoSize ≤ bootSectorSize
  unique : ∀ i, i + bootInfoSize ≤ bootSectorSize →
    ((bootSector.drop i).take bootInfoSignatureLength = bootInfoSignature ↔ i = offset)

/-- The boot stage has loaded the image: the boot sector by itself and the sectors after it
behind each other. -/
structure Loaded (m : Bytes) (image : List BYTE) : Prop where
  bootSector : ∀ i < bootSectorSize, m (bootSectorLoadedAddress + i) = image.getD i 0
  sectors : ∀ i, bootSectorSize + i < image.length →
    m (Loader.protectedStartAddress + i) = image.getD (bootSectorSize + i) 0

/-- The image of the kernel does not overlap the place it is copied to. -/
def Apart (loader kernel : List BYTE) : Prop :=
  let src := Loader.protectedStartAddress + 512 * sectorCount loader
  src + 512 * sectorCount kernel ≤ Loader.ia32StartAddress ∨
    Loader.ia32StartAddress + 512 * sectorCount kernel ≤ src

variable {image src boot loader kernel bytes bootSector : List BYTE} {imageName : String}
  {size offset i n x : ℕ}

theorem appendLoop_eq : appendLoop image src size = (image ++ src, size + src.length) := by
  induction image, src, size using appendLoop.induct with
  | case1 image src size hempty =>
    rw [appendLoop, if_pos hempty, List.isEmpty_iff.mp hempty, List.append_nil]
    rfl
  | case2 image src size hsome ih =>
    rw [appendLoop, if_neg hsome, ih, List.append_assoc, List.take_append_drop]
    rw [Nat.add_assoc, ← List.length_append, List.take_append_drop]

theorem appendFile_eq : appendFile image src = (image ++ padded src, sectorCount src) := by
  unfold appendFile
  rw [appendLoop_eq]
  dsimp only
  rw [Nat.zero_add, List.append_assoc]
  rfl

/-- A padded file is made of whole sectors. -/
theorem padded_length : (padded src).length = 512 * sectorCount src := by
  rw [padded, sectorCount, padding, List.length_append, List.length_replicate, sectorSize]
  omega

theorem padded_whole (hwhole : src.length = 512) : padded src = src := by
  have hnone : padding src.length = 0 := by
    rw [hwhole]
    rfl
  rw [padded, hnone, List.replicate_zero, List.append_nil]

theorem overwrite_length (h : offset + bytes.length ≤ image.length) :
    (overwrite image offset bytes).length = image.length := by
  rw [overwrite, List.length_append, List.length_append, List.length_take, List.length_drop]
  omega

/-- The bytes that are written, and all others. -/
theorem getD_overwrite (h : offset + bytes.length ≤ image.length) :
    (overwrite image offset bytes).getD x 0 =
      if offset ≤ x ∧ x < offset + bytes.length then bytes.getD (x - offset) 0
      else image.getD x 0 := by
  have hfront : (image.take offset).length = offset := by
    rw [List.length_take]
    omega
  unfold overwrite
  rw [List.append_assoc]
  rcases Nat.lt_or_ge x offset with hbefore | hfrom
  · rw [if_neg (by omega), List.getD_append _ _ _ _ (by omega), List.getD_eq_getElem?_getD,
      List.getElem?_take_of_lt hbefore, ← List.getD_eq_getElem?_getD]
  · rw [List.getD_append_right _ _ _ _ (by omega), hfront]
    rcases Nat.lt_or_ge x (offset + bytes.length) with hinside | hbehind
    · rw [if_pos ⟨hfrom, hinside⟩, List.getD_append _ _ _ _ (by omega)]
    · rw [if_neg (by omega), List.getD_append_right _ _ _ _ (by omega),
        List.getD_eq_getElem?_getD, List.getElem?_drop, ← List.getD_eq_getElem?_getD]
      congr 1
      omega

/-- `memcmp` and the loop of the loader compare the same bytes. -/
theorem signature_iff (h : i + bootInfoSignatureLength ≤ bootSector.length) :
    (bootSector.drop i).take bootInfoSignatureLength = bootInfoSignature ↔
      ∀ j < bootInfoSignatureLength, bootSector.getD (i + j) 0 = bootInfoSignature.getD j 0 := by
  have hget (j : ℕ) (hj : j < bootInfoSignatureLength) :
      ((bootSector.drop i).take bootInfoSignatureLength).getD j 0 = bootSector.getD (i + j) 0 := by
    rw [List.getD_eq_getElem?_getD, List.getElem?_take_of_lt hj, List.getElem?_drop,
      ← List.getD_eq_getElem?_getD]
  constructor
  · intro heq j hj
    rw [← hget j hj, heq]
  · intro hbytes
    have hsignature : bootInfoSignature.length = bootInfoSignatureLength := rfl
    apply List.ext_getElem
    · rw [List.length_take, List.length_drop, hsignature]
      omega
    · intro j hj hj'
      have hbyte := hget j (by omega)
      rw [hbytes j (by omega), List.getD_eq_getElem _ _ hj, List.getD_eq_getElem _ _ hj'] at hbyte
      exact hbyte

theorem signatureAt_iff {m : Bytes} {a : ℕ} : Loader.signatureAt m a = true ↔
    ∀ j < bootInfoSignatureLength, m (a + j) = bootInfoSignature.getD j 0 := by
  unfold Loader.signatureAt
  rw [List.all_eq_true]
  constructor
  · intro h j hj
    exact beq_iff_eq.mp (h j (List.mem_range.mpr hj))
  · intro h j hj
    exact beq_iff_eq.mpr (h j (List.mem_range.mp hj))

/-- Behind the one signature the scan keeps its offset. -/
theorem scan_behind (h : UniqueSignature bootSector offset) (hlt : offset < i)
    (hn : i + n + bootInfoSize ≤ bootSectorSize + 1) :
    scanBootInfo imageName bootSector i n (some offset) = .ok (some offset) := by
  induction n generalizing i with
  | zero => rfl
  | succ n ih =>
    have hother : (bootSector.drop i).take bootInfoSignatureLength ≠ bootInfoSignature := by
      intro heq
      have := (h.unique i (by omega)).mp heq
      omega
    rw [scanBootInfo, if_pos hother, ih (by omega) (by omega)]

theorem scan_finds (h : UniqueSignature bootSector offset) (hle : i ≤ offset) (hlt : offset < i + n)
    (hn : i + n + bootInfoSize ≤ bootSectorSize + 1) :
    scanBootInfo imageName bootSector i n none = .ok (some offset) := by
  induction n generalizing i with
  | zero => omega
  | succ n ih =>
    rw [scanBootInfo]
    rcases Nat.eq_or_lt_of_le hle with rfl | hbefore
    · have hhere := (h.unique i (by omega)).mpr rfl
      rw [if_neg (not_not_intro hhere), if_neg (by decide), scan_behind h (by omega) (by omega)]
    · have hother : (bootSector.drop i).take bootInfoSignatureLength ≠ bootInfoSignature := by
        intro heq
        have := (h.unique i (by omega)).mp heq
        omega
      rw [if_pos hother, ih hbefore (by omega) (by omega)]

/-- The image: the files in whole sectors, with the counts in the block. -/
def patched (offset : ℕ) (boot loader kernel : List BYTE) : List BYTE :=
  overwrite (overwrite (boot ++ padded loader ++ padded kernel) (offset + bootInfoSignatureLength)
    (shortBytes (sectorCount loader + sectorCount kernel))) (offset + bootInfoSignatureLength + 2)
    (shortBytes (sectorCount loader))

theorem imageMaker_eq (hboot : boot.length = 512) (h : UniqueSignature boot offset) :
    imageMaker imageName boot loader kernel = .ok (patched offset boot loader kernel) := by
  have htake : (boot ++ padded loader ++ padded kernel).take bootSectorSize = boot := by
    rw [List.append_assoc]
    exact List.take_left' hboot
  have hscan : scanBootInfo imageName boot 0 (bootSectorSize - bootInfoSize + 1) none =
      .ok (some offset) := by
    have hfits := h.fits
    have hsize : bootInfoSize ≤ bootSectorSize := by decide
    exact scan_finds h (Nat.zero_le offset) (by omega) (by omega)
  unfold imageMaker
  rw [appendFile_eq, padded_whole hboot, List.nil_append]
  dsimp only
  rw [appendFile_eq]
  dsimp only
  rw [appendFile_eq]
  unfold writeBootInfo
  rw [htake]
  dsimp only
  rw [if_neg (not_not_intro (show boot.length = bootSectorSize from hboot)), hscan]
  rfl

theorem shortBytes_length (data : ℕ) : (shortBytes data).length = 2 := rfl

/-- The counts lie inside the boot sector. -/
theorem counts_fit (hboot : boot.length = 512) (hfits : offset + bootInfoSize ≤ bootSectorSize)
    (files : List BYTE) (data data' : ℕ) :
    offset + bootInfoSignatureLength + (shortBytes data).length ≤ (boot ++ files).length ∧
      offset + bootInfoSignatureLength + 2 + (shortBytes data').length ≤
        (overwrite (boot ++ files) (offset + bootInfoSignatureLength)
          (shortBytes data)).length := by
  have hfits : offset + 12 ≤ 512 := hfits
  have hsize : (boot ++ files).length = 512 + files.length := by rw [List.length_append, hboot]
  have hfirst : offset + bootInfoSignatureLength + (shortBytes data).length ≤
      (boot ++ files).length := by
    rw [shortBytes_length, hsize, bootInfoSignatureLength]
    omega
  constructor
  · exact hfirst
  · rw [overwrite_length hfirst, shortBytes_length, hsize, bootInfoSignatureLength]
    omega

theorem patched_length (hboot : boot.length = 512)
    (hfits : offset + bootInfoSize ≤ bootSectorSize) :
    (patched offset boot loader kernel).length =
      (boot ++ padded loader ++ padded kernel).length := by
  obtain ⟨hfirst, hsecond⟩ := counts_fit hboot hfits (padded loader ++ padded kernel)
    (sectorCount loader + sectorCount kernel) (sectorCount loader)
  unfold patched
  rw [List.append_assoc, overwrite_length hsecond, overwrite_length hfirst]

/-- The byte of the image at `x`: of the counts in the block, else of the files. -/
theorem getD_patched (hboot : boot.length = 512) (hfits : offset + bootInfoSize ≤ bootSectorSize) :
    (patched offset boot loader kernel).getD x 0 =
      if offset + 10 ≤ x ∧ x < offset + 12 then byteOf (sectorCount loader) (x - (offset + 10))
      else if offset + 8 ≤ x ∧ x < offset + 10 then
        byteOf (sectorCount loader + sectorCount kernel) (x - (offset + 8))
      else (boot ++ padded loader ++ padded kernel).getD x 0 := by
  have hshort (data j : ℕ) (hj : j < 2) : (shortBytes data).getD j 0 = byteOf data j := by
    interval_cases j <;> rfl
  obtain ⟨hfirst, hsecond⟩ := counts_fit hboot hfits (padded loader ++ padded kernel)
    (sectorCount loader + sectorCount kernel) (sectorCount loader)
  unfold patched
  rw [List.append_assoc, getD_overwrite hsecond, getD_overwrite hfirst, shortBytes_length,
    shortBytes_length, bootInfoSignatureLength]
  split
  next hin => rw [hshort _ _ (by omega)]
  next =>
    split
    next hin => rw [hshort _ _ (by omega)]
    next => rfl

variable {m : Bytes}

/-- No earlier match: a signature in front of the block ends in front of the counts. -/
theorem findBootInfo_loaded (hboot : boot.length = 512) (h : UniqueSignature boot offset)
    (hm : Loaded m (patched offset boot loader kernel)) :
    Loader.findBootInfo m = some (bootSectorLoadedAddress + offset) := by
  have hfits : offset + 12 ≤ 512 := h.fits
  have hsame (x : ℕ) (hx : x < offset + 8) : m (bootSectorLoadedAddress + x) = boot.getD x 0 := by
    rw [hm.bootSector x (by rw [bootSectorSize]; omega), getD_patched hboot h.fits,
      if_neg (by omega), if_neg (by omega), List.append_assoc, List.getD_append _ _ _ _ (by omega)]
  have hmatch (i : ℕ) (hi : i ≤ offset) :
      Loader.signatureAt m (bootSectorLoadedAddress + i) = true ↔ i = offset := by
    have hlength : bootInfoSignatureLength = 8 := rfl
    rw [← h.unique i (by rw [bootSectorSize, bootInfoSize, hlength]; omega), signatureAt_iff,
      signature_iff (by omega)]
    constructor
    · intro hbytes j hj
      rw [← hsame (i + j) (by omega), ← Nat.add_assoc]
      exact hbytes j hj
    · intro hbytes j hj
      rw [Nat.add_assoc, hsame (i + j) (by omega)]
      exact hbytes j hj
  have hfind : (List.range (bootSectorSize - bootInfoSize + 1)).find? (fun i =>
      Loader.signatureAt m (bootSectorLoadedAddress + i)) = some offset := by
    rw [List.find?_range_eq_some]
    refine ⟨(hmatch offset (Nat.le_refl _)).mpr rfl, List.mem_range.mpr ?_, ?_⟩
    · rw [bootSectorSize, bootInfoSize, bootInfoSignatureLength]
      omega
    · intro i hi
      rw [Bool.not_eq_true', Bool.eq_false_iff]
      intro hearly
      have := (hmatch i hi.le).mp hearly
      omega
  rw [Loader.findBootInfo, hfind]
  rfl

/-- The loader reads the counts that were written. -/
theorem counts_loaded (hboot : boot.length = 512) (h : UniqueSignature boot offset)
    (hcounts : sectorCount loader + sectorCount kernel < 2 ^ 16)
    (hm : Loaded m (patched offset boot loader kernel)) :
    Loader.totalSectorCount m (bootSectorLoadedAddress + offset) =
        sectorCount loader + sectorCount kernel ∧
      Loader.loaderSectorCount m (bootSectorLoadedAddress + offset) = sectorCount loader := by
  have hfits : offset + 12 ≤ 512 := h.fits
  have hread (data at' : ℕ) (hdata : data < 2 ^ 16) (hat : offset + at' + 2 ≤ 512)
      (hbytes : ∀ j < 2, (patched offset boot loader kernel).getD (offset + at' + j) 0 =
        byteOf data j) : readLE m (bootSectorLoadedAddress + offset + at') 2 = data := by
    rw [@readLE_of_bytes _ _ _ data]
    · exact Nat.mod_eq_of_lt hdata
    · intro j hj
      rw [← hbytes j hj, Nat.add_assoc, Nat.add_assoc, ← Nat.add_assoc offset]
      exact hm.bootSector _ (by rw [bootSectorSize]; omega)
  constructor
  · apply hread _ _ hcounts (by omega)
    intro j hj
    rw [getD_patched hboot h.fits, if_neg (by omega), if_pos (by omega), Nat.add_sub_cancel_left]
  · apply hread _ _ (by omega) (by omega)
    intro j hj
    rw [getD_patched hboot h.fits, if_pos (by omega), Nat.add_sub_cancel_left]

/-- The sectors of the kernel lie behind those of the loader. -/
theorem kernel_loaded (hboot : boot.length = 512) (h : UniqueSignature boot offset)
    (hm : Loaded m (patched offset boot loader kernel)) {k : ℕ} (hk : k < (padded kernel).length) :
    m (Loader.protectedStartAddress + sectorCount loader * 512 + k) = (padded kernel).getD k 0 := by
  have hfits : offset + 12 ≤ 512 := h.fits
  have hloader := @padded_length loader
  have hfront : (boot ++ padded loader).length = 512 + 512 * sectorCount loader := by
    rw [List.length_append, hboot, hloader]
  rw [Nat.add_assoc, hm.sectors, getD_patched hboot h.fits, bootSectorSize]
  · rw [if_neg (by omega), if_neg (by omega), List.getD_append_right _ _ _ _ (by omega), hfront]
    congr 1
    omega
  · rw [patched_length hboot h.fits, List.length_append, hfront, bootSectorSize]
    omega

/-- The words that are copied are the sectors of the kernel. -/
theorem copyIA32ModeImage_loaded (hboot : boot.length = 512) (h : UniqueSignature boot offset)
    (hcounts : sectorCount loader + sectorCount kernel < 2 ^ 16)
    (hm : Loaded m (patched offset boot loader kernel)) :
    Loader.copyIA32ModeImage m = some (Loader.copyWords
      (Loader.protectedStartAddress + sectorCount loader * 512) Loader.ia32StartAddress
      (128 * sectorCount kernel) m) := by
  obtain ⟨htotal, hloader⟩ := counts_loaded hboot h hcounts hm
  have hwords : Loader.imageWords m (bootSectorLoadedAddress + offset) =
      128 * sectorCount kernel := by
    rw [Loader.imageWords, htotal, hloader]
    push_cast
    omega
  rw [Loader.copyIA32ModeImage, findBootInfo_loaded hboot h hm, Option.map_some, hwords, hloader]

/-- The loader finds the counts in the image that the builder makes, which differs from the
files in these counts only, and copies the kernel with the zeros behind it. -/
theorem image_read_back (imageName : String) (loader kernel : List BYTE)
    (hboot : boot.length = 512) (h : UniqueSignature boot offset)
    (hcounts : sectorCount loader + sectorCount kernel < 2 ^ 16) :
    ∃ image, imageMaker imageName boot loader kernel = .ok image ∧
      image.length = (boot ++ padded loader ++ padded kernel).length ∧
      (∀ x, x < offset + 8 ∨ offset + 12 ≤ x →
        image.getD x 0 = (boot ++ padded loader ++ padded kernel).getD x 0) ∧
      ∀ m, Loaded m image →
        Loader.findBootInfo m = some (bootSectorLoadedAddress + offset) ∧
        Loader.totalSectorCount m (bootSectorLoadedAddress + offset) =
          sectorCount loader + sectorCount kernel ∧
        Loader.loaderSectorCount m (bootSectorLoadedAddress + offset) = sectorCount loader ∧
        (Apart loader kernel → ∃ m', Loader.copyIA32ModeImage m = some m' ∧ ∀ x, m' x =
          if Loader.ia32StartAddress ≤ x ∧ x < Loader.ia32StartAddress + (padded kernel).length then
            (padded kernel).getD (x - Loader.ia32StartAddress) 0
          else m x) := by
  refine ⟨patched offset boot loader kernel, imageMaker_eq hboot h, patched_length hboot h.fits,
    ?_, ?_⟩
  · intro x hx
    rw [getD_patched hboot h.fits, if_neg (by omega), if_neg (by omega)]
  · intro m hm
    obtain ⟨htotal, hloader⟩ := counts_loaded hboot h hcounts hm
    refine ⟨findBootInfo_loaded hboot h hm, htotal, hloader, fun hapart => ?_⟩
    refine ⟨_, copyIA32ModeImage_loaded hboot h hcounts hm, fun x => ?_⟩
    have hsrc : Loader.protectedStartAddress = 0x10000 := rfl
    have hdest : Loader.ia32StartAddress = 0x600000 := rfl
    have hkernel := @padded_length kernel
    rw [Loader.copyWords_apply (by omega), ← Nat.mul_assoc, ← hkernel]
    split
    next hin =>
      have hplace : (x - Loader.ia32StartAddress) % (Loader.ia32StartAddress -
          (Loader.protectedStartAddress + sectorCount loader * 512)) =
            x - Loader.ia32StartAddress := by
        unfold Apart at hapart
        rcases hapart with hbefore | hbehind
        · exact Nat.mod_eq_of_lt (by omega)
        · have hzero : Loader.ia32StartAddress -
              (Loader.protectedStartAddress + sectorCount loader * 512) = 0 := by omega
          rw [hzero, Nat.mod_zero]
      rw [hplace, kernel_loaded hboot h hm (by omega)]
    next => rfl

/-- A memory with the image loaded and nothing else. -/
def loadImage (image : List BYTE) : Bytes := fun x =>
  if x < Loader.protectedStartAddress then image.getD (x - bootSectorLoadedAddress) 0
  else image.getD (x - Loader.protectedStartAddress + bootSectorSize) 0

theorem loadImage_loaded (image : List BYTE) : Loaded (loadImage image) image := by
  have hstart : Loader.protectedStartAddress = 0x10000 := rfl
  have hboot : bootSectorLoadedAddress = 0x7C00 := rfl
  unfold loadImage
  constructor
  · intro i hi
    rw [bootSectorSize] at hi
    rw [if_pos (by omega), Nat.add_sub_cancel_left]
  · intro i hi
    rw [if_neg (by omega), Nat.add_sub_cancel_left, Nat.add_comm]

/-- A boot sector that is zero but for one signature. -/
theorem unique_amid_zeros {k n : ℕ} (hfits : k + bootInfoSize ≤ bootSectorSize) :
    UniqueSignature (List.replicate k 0 ++ bootInfoSignature ++ List.replicate n 0) k := by
  have hlength : bootInfoSignature.length = 8 := rfl
  refine ⟨hfits, fun i _ => ⟨fun hsame => ?_, ?_⟩⟩
  · -- The letter it starts with comes up at `k` only.
    have hletter : (List.replicate k 0 ++ bootInfoSignature ++ List.replicate n 0)[i]? =
        some 0x53 := by
      have hhead := List.getElem?_take_of_lt (show 0 < bootInfoSignatureLength by decide)
        (l := (List.replicate k 0 ++ bootInfoSignature ++ List.replicate n 0).drop i)
      rw [List.getElem?_drop, Nat.add_zero, hsame] at hhead
      exact hhead.symm
    have honly : ∀ j < 8, bootInfoSignature[j]? = some 0x53 → j = 0 := by decide
    rw [List.append_assoc, List.getElem?_append, List.length_replicate] at hletter
    split at hletter
    · rw [List.getElem?_replicate] at hletter
      split at hletter
      · cases hletter
      · cases hletter
    · rw [List.getElem?_append, hlength] at hletter
      split at hletter
      next hge hlt =>
        have hzero := honly (i - k) hlt hletter
        omega
      · rw [List.getElem?_replicate] at hletter
        split at hletter
        · cases hletter
        · cases hletter
  · rintro rfl
    rw [List.append_assoc, List.drop_left' List.length_replicate, List.take_left' (by rfl)]

/-- A boot sector that starts with the block. -/
def smallBoot : List BYTE := bootInfoSignature ++ List.replicate 504 0

theorem smallBoot_unique : UniqueSignature smallBoot 0 :=
  unique_amid_zeros (k := 0) (n := 504) (by decide)

theorem image_read_back_small : ∃ image m', imageMaker "Disk.img" smallBoot [1] [2] = .ok image ∧
    Loader.findBootInfo (loadImage image) = some 0x7C00 ∧
    Loader.copyIA32ModeImage (loadImage image) = some m' ∧ m' 0x600000 = 2 := by
  have hboot : smallBoot.length = 512 := by
    rw [smallBoot, List.length_append, List.length_replicate]
    rfl
  obtain ⟨image, hmade, -, -, hread⟩ :=
    image_read_back "Disk.img" [1] [2] hboot smallBoot_unique (by decide)
  obtain ⟨hfound, -, -, hcopy⟩ := hread _ (loadImage_loaded image)
  obtain ⟨m', hcopied, hbytes⟩ := hcopy (.inl (by decide))
  refine ⟨image, m', hmade, hfound, hcopied, ?_⟩
  rw [hbytes, if_pos]
  · rfl
  · rw [padded_length]
    decide

end ImageMaker
end SkhuOS
