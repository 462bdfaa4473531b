import SkhuOS.Common.Scrolling
import SkhuOS.FS.Format

/-! What a freshly formatted disk holds, where all transfers succeed. -/
namespace SkhuOS
open Foundation

/-- The `writeSector` calls of `clearSectors`: where they start and how many sectors they ask
for. -/
def clearWrites (buffer : Bytes) (initSectorCount : ℕ) : ℕ → ℕ → Disk → List (ℕ × ℕ)
  | 0, _, _ => []
  | fuel + 1, i, disk =>
    if i < initSectorCount then
      let writeCount := min (initSectorCount - i) sectorsPerCluster
      let (written, disk) := disk.writeSector writeCount (1 + i) buffer
      (1 + i, writeCount) ::
        if written ≠ writeCount then []
        else clearWrites buffer initSectorCount fuel (i + sectorsPerCluster) disk
    else []

/-- The sectors of a call. -/
def writtenSectors (write : ℕ × ℕ) : List ℕ := List.range' write.1 write.2

variable {buffer : Bytes} {disk : Disk} {n fuel i : ℕ}

/-- The disk behind the loop is what these calls in this order make of it. -/
theorem clearSectors_writes (buffer : Bytes) (n fuel i : ℕ) (disk : Disk) :
    (clearSectors buffer n fuel i disk).2 = (clearWrites buffer n fuel i disk).foldl
      (fun disk write => (disk.writeSector write.2 write.1 buffer).2) disk := by
  induction fuel generalizing i disk with
  | zero => rfl
  | succ fuel ih =>
    unfold clearSectors clearWrites
    split
    · dsimp only
      rw [List.foldl_cons]
      split
      · rfl
      · exact ih _ _
    · rfl

/-- They tile the area: eight sectors each, fewer in the last. -/
theorem clearWrites_tile (buffer : Bytes) (i : ℕ) (disk : Disk) (hr : disk.Reliable)
    (hfit : 1 + n ≤ disk.totalSector) (hfuel : n ≤ i + 8 * fuel) :
    (clearWrites buffer n fuel i disk).flatMap writtenSectors = List.range' (1 + i) (n - i) := by
  induction fuel generalizing i disk with
  | zero =>
    rw [Nat.sub_eq_zero_of_le (by omega)]
    rfl
  | succ fuel ih =>
    have hper : sectorsPerCluster = 8 := rfl
    unfold clearWrites
    rw [hper]
    split
    next hi =>
      have hwrite := @Disk.Reliable.writeSector_eq disk (min (n - i) 8) (1 + i) buffer hr
        (by omega) (by omega)
      have hrest := ih (i + 8) (disk.writeSector (min (n - i) 8) (1 + i) buffer).2
        (by rw [hwrite]; exact hr) (by rw [hwrite]; exact hfit) (by omega)
      have hcount : (disk.writeSector (min (n - i) 8) (1 + i) buffer).1 = min (n - i) 8 := by
        rw [hwrite]
      dsimp only
      rw [if_neg (not_not.mpr hcount), List.flatMap_cons, hrest, writtenSectors]
      dsimp only
      rcases Nat.lt_or_ge (n - i) 8 with hlast | hmore
      · rw [Nat.min_eq_left (by omega), show n - (i + 8) = 0 by omega]
        simp
      · rw [Nat.min_eq_right hmore, ← Nat.add_assoc, List.range'_append_1]
        congr 1
        omega
    next hi =>
      rw [Nat.sub_eq_zero_of_le (by omega)]
      rfl

namespace FileSystem

variable (fs : FileSystem)

/-- What `showDir` prints, entry by entry; the name runs up to a NUL in the buffer. -/
def showDir : Except Message (List PrintCall) × FileSystem :=
  if !fs.isMounted then (.error .notMountedMessage, fs)
  else
    let fs := fs.readRoot
    (.ok (.puts [0x2E] :: (List.range maxFileCount).flatMap fun i =>
      if fs.entryCluster i ≠ 0 then
        [.printString (stringAt fs.buffer4096 (fileInformationSize * i)
            (clusterSize - fileInformationSize * i)),
          .printString [0x20],
          .printInt (BitVec.ofNat 32
            (readLE fs.buffer4096 (fileInformationSize * i + fileSizeOffset) 4)) 10,
          .printString [0x42, 0x79, 0x74, 0x65], .puts []]
      else []), fs)

/-- An empty file system with the layout `format` computes for the size of its disk. -/
structure LaidOut (fs : FileSystem) (linkSectorCount : ℕ) : Prop where
  isMounted : fs.isMounted = true
  fatInfor : fs.fatInfor = ⟨fs.disk.totalSector / 8, linkSectorCount, 1, 1 + linkSectorCount⟩
  rootMarked : readLE fs.disk.data 512 4 = 0xFFFFFFFF
  restFree : ∀ x, 516 ≤ x → x < 512 * (1 + linkSectorCount + 8) → fs.disk.data x = 0
  everyCluster : ∀ c, 1 + linkSectorCount + 8 * (c + 1) ≤ fs.disk.totalSector →
    c < 128 * linkSectorCount
  noFile : ∀ fileName buffer, (fs.readFile fileName buffer).1 = .error .notFoundFileMessage
  noListing : fs.showDir.1 = .ok [.puts [0x2E]]

variable {fs}

theorem Mounted.noFile_of_free (h : fs.Mounted) (hr : fs.disk.Reliable)
    (hfree : ∀ i < maxFileCount, fs.slot i = 0) :
    (∀ fileName buffer, (fs.readFile fileName buffer).1 = .error .notFoundFileMessage) ∧
      fs.showDir.1 = .ok [.puts [0x2E]] := by
  have hentry : ∀ i < maxFileCount, fs.readRoot.entryCluster i = 0 := by
    intro i hi
    rw [h.entryCluster_readRoot hr hi]
    exact hfree i hi
  constructor
  · intro fileName buffer
    have hnone : fs.readRoot.findFile fileName = none := by
      apply List.find?_eq_none.mpr
      intro i hi
      simp [hentry i (List.mem_range.mp hi)]
    simp [readFile, h.isMounted, hnone]
  · unfold showDir
    rw [h.isMounted]
    have hempty : (List.range maxFileCount).flatMap (fun i =>
        if fs.readRoot.entryCluster i ≠ 0 then
          [PrintCall.printString (stringAt fs.readRoot.buffer4096 (fileInformationSize * i)
              (clusterSize - fileInformationSize * i)),
            .printString [0x20],
            .printInt (BitVec.ofNat 32 (readLE fs.readRoot.buffer4096
              (fileInformationSize * i + fileSizeOffset) 4)) 10,
            .printString [0x42, 0x79, 0x74, 0x65], .puts []]
        else []) = [] := by
      apply List.flatMap_eq_nil_iff.mpr
      intro i hi
      rw [if_neg (by simp [hentry i (List.mem_range.mp hi)])]
    simp only [Bool.not_true, Bool.false_eq_true, if_false, hempty]

/-- The boot sector on the disk behind `format` is the one it builds. -/
theorem format_boot {fs' : FileSystem} (h : fs.format = (true, fs')) :
    ∀ x < 512, fs'.disk.data x = fs.bootBuffer x := by
  obtain ⟨disk, hcleared, hdisk⟩ := format_cleared h
  have hroom := hcleared.room
  intro x hx
  rw [hdisk, Disk.writeSector_data (by rw [hcleared.totalSector]; omega) one_pos,
    ← hcleared.boot x hx]
  split
  · rfl
  · exact copyBytes_of_not_mem (by omega)

theorem bootBuffer_freeClusterCount (fs : FileSystem) :
    readLE fs.bootBuffer bootFreeClusterCountOffset 4 = fs.disk.totalSector / 8 := by
  have hsize := fs.disk.totalSector_lt
  simp only [bootBuffer, bootSignatureOffset, bootLinkSectorCountOffset,
    bootLinkSectorAddressOffset, bootDataAddressOffset, bootFreeClusterCountOffset]
  rw [readLE_writeLE_disjoint (by omega), readLE_writeLE_disjoint (by omega),
    readLE_writeLE_disjoint (by omega), readLE_writeLE]
  exact Nat.mod_eq_of_lt (show fs.disk.totalSector / 8 < 256 ^ 4 by omega)

/-- The calls the clearing loop of `format` makes. -/
def clearCalls (fs : FileSystem) : List (ℕ × ℕ) :=
  let initSectorCount := linkSectorCountFor fs.disk.totalSector + sectorsPerCluster
  clearWrites (memsetZero fs.buffer4096 clusterSize) initSectorCount initSectorCount 0
    (fs.disk.writeSector 1 0 fs.bootBuffer).2

/-- The disk of `format` is made by its calls of `writeSector`: the boot sector, the clearing
loop and the mark of cluster 0. -/
theorem format_calls {fs' : FileSystem} (h : fs.format = (true, fs')) :
    fs'.disk = ((fs.clearCalls.foldl (fun disk write =>
        (disk.writeSector write.2 write.1 (memsetZero fs.buffer4096 clusterSize)).2)
      (fs.disk.writeSector 1 0 fs.bootBuffer).2).writeSector 1 1
        (writeLE (memsetZero fs.bootBuffer sectorSize) 0 4 0xFFFFFFFF)).2 := by
  unfold format at h
  dsimp only at h
  split at h
  · exact nomatch congrArg Prod.fst h
  · split at h
    · exact nomatch congrArg Prod.fst h
    · rw [clearCalls, ← clearSectors_writes]
      exact (congrArg disk (congrArg Prod.snd h)).symm

/-- With room for the FAT and the root directory and no failing transfer, `format` and `mount`
succeed and leave an empty file system; the clearing loop writes every sector of its area once
and no other. -/
theorem format_lays_out (fs : FileSystem)
    (hroom : 1 + linkSectorCountFor fs.disk.totalSector + 8 ≤ fs.disk.totalSector)
    (hr : fs.disk.Reliable) :
    ∃ fs', fs.format = (true, fs') ∧ fs'.mount.1 = .ok () ∧
      fs'.mount.2.disk.totalSector = fs.disk.totalSector ∧
      fs'.mount.2.LaidOut (linkSectorCountFor fs.disk.totalSector) ∧
      fs'.disk = ((fs.clearCalls.foldl (fun disk write =>
          (disk.writeSector write.2 write.1 (memsetZero fs.buffer4096 clusterSize)).2)
        (fs.disk.writeSector 1 0 fs.bootBuffer).2).writeSector 1 1
          (writeLE (memsetZero fs.bootBuffer sectorSize) 0 4 0xFFFFFFFF)).2 ∧
      fs.clearCalls.flatMap writtenSectors =
        List.range' 1 (linkSectorCountFor fs.disk.totalSector + 8) := by
  have hsize := fs.disk.totalSector_lt
  have hbounds := linkSectorCountFor_bounds fs.disk.totalSector
  have htrue : fs.format.1 = true := (format_true_iff fs).mpr ⟨hroom, fun k _ => hr k⟩
  obtain ⟨fs', hformat⟩ : ∃ fs', fs.format = (true, fs') := ⟨fs.format.2, Prod.ext htrue rfl⟩
  obtain ⟨hsame, hformatted, -, hrest, hfaults⟩ := format_spec hformat
  have hempty := (format_emptyVolume hformat).mpr (hr _)
  have hr' : fs'.disk.Reliable := by
    intro k
    rw [hfaults]
    exact hr _
  obtain ⟨buffer, hmount⟩ := mount_eq hformatted (hr' 0)
  have hmounted := (mount_mounted hformatted (hr' 0)).1
  have hfree : readLE fs'.disk.data bootFreeClusterCountOffset 4 = fs.disk.totalSector / 8 := by
    rw [← bootBuffer_freeClusterCount]
    exact readLE_congr fun x _ hx => format_boot hformat x (lt_of_lt_of_le hx (by decide))
  have hdisk : fs'.mount.2.disk = fs'.disk := by
    rw [hmount]
    exact hr'.next_eq
  have hzero : ∀ x, 516 ≤ x → x < 512 * (1 + linkSectorCountFor fs.disk.totalSector + 8) →
      fs'.disk.data x = 0 := fun x hx hlt => hrest x hx (by omega)
  have hslot : ∀ i < maxFileCount, fs'.mount.2.slot i = 0 := by
    intro i hi
    apply readLE_eq_zero.mpr
    intro x hx
    have hroot : fs'.mount.2.rootAddress = 512 * (1 + linkSectorCountFor fs.disk.totalSector) := by
      rw [rootAddress, hmounted.dataAddress, hdisk, hsame, sectorSize]
    have hcount : maxFileCount = 128 := rfl
    have hentry : fileInformationSize = 32 := rfl
    have hfield : clusterIdxOffset = 28 := rfl
    unfold dir
    rw [if_pos ⟨hi, by omega⟩, hdisk, hroot, hentry]
    exact hzero _ (by omega) (by omega)
  obtain ⟨hnoFile, hnoListing⟩ := hmounted.noFile_of_free (hdisk ▸ hr') hslot
  refine ⟨fs', hformat, by rw [hmount], by rw [hdisk, hsame], ?_, format_calls hformat, ?_⟩
  · constructor
    · exact hmounted.isMounted
    · rw [hdisk, hmount, hsame, hfree]
    · rw [hdisk]
      exact hempty.rootMarked
    · rw [hdisk]
      exact hzero
    · intro c hc
      rw [hdisk, hsame] at hc
      omega
    · exact hnoFile
    · exact hnoListing
  · have hwrite := @Disk.Reliable.writeSector_eq fs.disk 1 0 fs.bootBuffer hr (by omega) one_pos
    exact clearWrites_tile _ 0 _ (by rw [hwrite]; exact hr)
      (by rw [hwrite]; exact (show 1 + (linkSectorCountFor fs.disk.totalSector + 8) ≤ _ by omega))
      (by omega)

/-- A disk of 20 sectors full of old bytes, never mounted. -/
def usedDisk : FileSystem where
  disk := ⟨20, by decide, fun _ => 0x41, fun _ => false⟩
  fatInfor := ⟨0, 0, 0, 0⟩
  bestIdx := 0
  bestRootDirIdx := 0
  isMounted := false
  buffer512 := fun _ => 0x42
  buffer4096 := fun _ => 0x43

theorem format_lays_out_used : ∃ fs', usedDisk.format = (true, fs') ∧ fs'.mount.2.LaidOut 1 :=
  let ⟨fs', hformat, _, _, hlaid, _⟩ := format_lays_out usedDisk (by decide) fun _ => rfl
  ⟨fs', hformat, hlaid⟩

end FileSystem
end SkhuOS
