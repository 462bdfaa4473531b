import SkhuOS.FS.Effects

/-! `format` and the first `mount`: the disk of a new file system. -/
namespace SkhuOS
open Foundation

/-- A complete empty file system: cluster 0 is marked used, no other cluster is, and no
directory entry is in use. -/
structure EmptyVolume (disk : Disk) : Prop where
  formatted : Formatted disk
  rootMarked : readLE disk.data 512 4 = 0xFFFFFFFF
  restFree : ∀ x, 516 ≤ x → x < 512 * (1 + linkSectorCountFor disk.totalSector) + 4096 →
    disk.data x = 0

/-- How many transfers the clearing loop makes. -/
def clearTransfers (initSectorCount : ℕ) : ℕ := (initSectorCount + 7) / 8

/-- The clearing loop succeeds only where every transfer was complete. -/
theorem clearSectors_spec {buffer : Bytes} (hbuffer : ∀ x < 4096, buffer x = 0) {n fuel i : ℕ}
    {disk disk' : Disk} (h : clearSectors buffer n fuel i disk = (true, disk'))
    (hfuel : n ≤ i + 8 * fuel) (hn : n + 1 < 2 ^ 28) :
    (i < n → 1 + n ≤ disk.totalSector) ∧ disk' = { disk.skip (clearTransfers (n - i)) with
      data := fun x => if 512 * (1 + i) ≤ x ∧ x < 512 * (1 + n) then 0 else disk.data x } := by
  have hdone (i : ℕ) (disk : Disk) (hi : n ≤ i) : disk = { disk.skip (clearTransfers (n - i)) with
      data := fun x => if 512 * (1 + i) ≤ x ∧ x < 512 * (1 + n) then 0 else disk.data x } := by
    have hdata : (fun x => if 512 * (1 + i) ≤ x ∧ x < 512 * (1 + n) then 0 else disk.data x) =
        disk.data := funext fun x => if_neg (by omega)
    rw [hdata, Nat.sub_eq_zero_of_le hi]
    rfl
  induction fuel generalizing i disk with
  | zero =>
    obtain rfl : disk = disk' := congrArg Prod.snd h
    exact ⟨fun hi => by omega, hdone i disk (by omega)⟩
  | succ fuel ih =>
    rw [clearSectors] at h
    by_cases hi : i < n
    · rw [if_pos hi] at h
      simp only at h
      split at h
      next => exact nomatch congrArg Prod.fst h
      next hwritten =>
      have hpos : 0 < min (n - i) sectorsPerCluster := by
        simp only [sectorsPerCluster, clusterSize, sectorSize]
        omega
      obtain ⟨hfit, -, hwrite⟩ := Disk.writeSector_complete hpos (by omega)
        (not_not.mp hwritten)
      rw [hwrite] at h
      simp only [sectorsPerCluster, clusterSize, sectorSize, Nat.reduceDiv] at h hfit
      obtain ⟨hroom, heq⟩ := ih h (by omega)
      have hsame : disk.next.totalSector = disk.totalSector := rfl
      refine ⟨fun _ => ?_, ?_⟩
      · by_cases hlast : i + 8 < n
        · exact hroom hlast
        · omega
      · have hskip : (disk.skip 1).skip (clearTransfers (n - (i + 8))) =
            disk.skip (clearTransfers (n - i)) := by
          rw [Disk.skip_skip, clearTransfers, clearTransfers]
          congr 1
          omega
        have hfaults := congrArg Disk.faults hskip
        rw [heq]
        simp only [Disk.skip, Disk.next, Disk.mk.injEq, true_and] at hfaults ⊢
        refine ⟨funext fun x => ?_, hfaults⟩
        by_cases hx : 512 * (1 + i) ≤ x ∧ x < 512 * (1 + i) + 512 * min (n - i) 8
        · rw [if_pos (show 512 * (1 + i) ≤ x ∧ x < 512 * (1 + n) by omega)]
          split
          · rfl
          · rw [copyBytes, if_pos hx, Nat.zero_add]
            exact hbuffer _ (by omega)
        · rw [copyBytes_of_not_mem (by omega)]
          by_cases hin : 512 * (1 + (i + 8)) ≤ x ∧ x < 512 * (1 + n)
          · rw [if_pos hin, if_pos (by omega)]
          · rw [if_neg hin, if_neg (by omega)]
    · rw [if_neg hi] at h
      obtain rfl : disk = disk' := congrArg Prod.snd h
      exact ⟨fun h => absurd h hi, hdone i disk (by omega)⟩

/-- It succeeds where the region lies on the disk and no transfer is failed. -/
theorem clearSectors_true_iff (buffer : Bytes) (disk : Disk) {n fuel i : ℕ} (hfuel : n ≤ i + 8 * fuel) (hn : n + 1 < 2 ^ 28) :
    (clearSectors buffer n fuel i disk).1 = true ↔ (i < n → 1 + n ≤ disk.totalSector) ∧
      ∀ k < clearTransfers (n - i), disk.faults k = false := by
  have hdone (i : ℕ) (disk : Disk) (hi : n ≤ i) : (i < n → 1 + n ≤ disk.totalSector) ∧
      ∀ k < clearTransfers (n - i), disk.faults k = false := by
    rw [Nat.sub_eq_zero_of_le hi]
    exact ⟨fun hlt => absurd hi (by omega), fun k hk => absurd hk (Nat.not_lt_zero k)⟩
  induction fuel generalizing i disk with
  | zero => exact ⟨fun _ => hdone i disk (by omega), fun _ => rfl⟩
  | succ fuel ih =>
    rw [clearSectors]
    by_cases hi : i < n
    · have hpos : 0 < min (n - i) sectorsPerCluster := by
        simp only [sectorsPerCluster, clusterSize, sectorSize]
        omega
      have hcomplete := @Disk.transferred_eq_iff disk _ _ hpos
        (show 1 + i < 2 ^ 28 by omega)
      have hcount : clearTransfers (n - i) = clearTransfers (n - (i + 8)) + 1 := by
        simp only [clearTransfers]
        omega
      rw [if_pos hi]
      simp only
      split
      next hshort =>
        have hfail := mt hcomplete.mpr hshort
        constructor
        · intro hfalse
          cases hfalse
        · rintro ⟨hroom, hfaults⟩
          refine absurd ⟨hfaults 0 (by omega), ?_⟩ hfail
          have := hroom hi
          omega
      next hwritten =>
        obtain ⟨hok, hfit⟩ := hcomplete.mp (not_not.mp hwritten)
        simp only [sectorsPerCluster, clusterSize, sectorSize, Nat.reduceDiv] at hfit ⊢
        refine (ih _ (show n ≤ i + 8 + 8 * fuel by omega)).trans ?_
        rw [hcount]
        refine and_congr ⟨fun h _ => ?_, fun h _ => h hi⟩ ⟨fun h k hk => ?_, fun h k hk => ?_⟩
        · by_cases hlast : i + 8 < n
          · exact h hlast
          · omega
        · cases k with
          | zero => exact hok
          | succ k => exact h k (by omega)
        · exact h (k + 1) (by omega)
    · rw [if_neg hi]
      exact ⟨fun _ => hdone i disk (by omega), fun _ => rfl⟩

namespace FileSystem

variable {fs fs' : FileSystem}

/-- The boot sector describes the layout. -/
theorem bootBuffer_words (fs : FileSystem) (hsize : fs.disk.totalSector < 2 ^ 28) :
    readLE fs.bootBuffer bootSignatureOffset 4 = signatureFS ∧
      readLE fs.bootBuffer bootLinkSectorCountOffset 4 = linkSectorCountFor fs.disk.totalSector ∧
      readLE fs.bootBuffer bootLinkSectorAddressOffset 4 = 1 ∧
      readLE fs.bootBuffer bootDataAddressOffset 4 =
        1 + linkSectorCountFor fs.disk.totalSector := by
  have hcount := (linkSectorCountFor_bounds fs.disk.totalSector).1
  simp only [bootBuffer, bootSignatureOffset, bootLinkSectorCountOffset,
    bootLinkSectorAddressOffset, bootDataAddressOffset, bootFreeClusterCountOffset]
  refine ⟨?_, ?_, ?_, ?_⟩
  · rw [readLE_writeLE_disjoint (by omega), readLE_writeLE_disjoint (by omega),
      readLE_writeLE_disjoint (by omega), readLE_writeLE_disjoint (by omega), readLE_writeLE]
    rfl
  · rw [readLE_writeLE_disjoint (by omega), readLE_writeLE_disjoint (by omega), readLE_writeLE]
    exact Nat.mod_eq_of_lt (by omega)
  · rw [readLE_writeLE_disjoint (by omega), readLE_writeLE]
    rfl
  · rw [readLE_writeLE]
    exact Nat.mod_eq_of_lt (by omega)

/-- The number of the last transfer of `format`, the one that marks cluster 0. -/
def markTransfer (fs : FileSystem) : ℕ :=
  1 + clearTransfers (linkSectorCountFor fs.disk.totalSector + sectorsPerCluster)

/-- `format` returns `TRUE` where there is room and no transfer before that one fails. -/
theorem format_true_iff (fs : FileSystem) : fs.format.1 = true ↔
    1 + linkSectorCountFor fs.disk.totalSector + 8 ≤ fs.disk.totalSector ∧
      ∀ k < fs.markTransfer, fs.disk.faults k = false := by
  have hsize := fs.disk.totalSector_lt
  have hcount := (linkSectorCountFor_bounds fs.disk.totalSector).1
  have hn : linkSectorCountFor fs.disk.totalSector + sectorsPerCluster =
      linkSectorCountFor fs.disk.totalSector + 8 := rfl
  have hboot : fs.disk.transferred 1 0 = 1 ↔
      fs.disk.faults 0 = false ∧ 0 + 1 ≤ fs.disk.totalSector :=
    Disk.transferred_eq_iff one_pos (by decide)
  have hle : fs.disk.transferred 1 0 ≤ 1 := by
    simp only [Disk.transferred]
    split <;> omega
  generalize hcleared : (clearSectors (memsetZero fs.buffer4096 clusterSize)
    (linkSectorCountFor fs.disk.totalSector + 8) (linkSectorCountFor fs.disk.totalSector + 8) 0
    (fs.disk.writeSector 1 0 fs.bootBuffer).2).1 = cleared
  have hclear := clearSectors_true_iff (memsetZero fs.buffer4096 clusterSize)
    (fs.disk.writeSector 1 0 fs.bootBuffer).2
    (show linkSectorCountFor fs.disk.totalSector + 8 ≤
      0 + 8 * (linkSectorCountFor fs.disk.totalSector + 8) by omega) (by omega)
  rw [hcleared] at hclear
  have hformat : fs.format.1 = true ↔ fs.disk.transferred 1 0 = 1 ∧ cleared = true := by
    have hwritten : (fs.disk.writeSector 1 0 fs.bootBuffer).1 = fs.disk.transferred 1 0 := rfl
    unfold format
    simp only [hn, hwritten, hcleared]
    split
    · constructor
      · intro hfalse
        cases hfalse
      · intro hboth
        omega
    · split
      next hfailed =>
        constructor
        · intro hfalse
          cases hfalse
        · intro hboth
          simp [hboth.2] at hfailed
      next hok => exact ⟨fun _ => ⟨by omega, by simpa using hok⟩, fun _ => rfl⟩
  have hsame : (fs.disk.writeSector 1 0 fs.bootBuffer).2.totalSector = fs.disk.totalSector := rfl
  rw [hformat, hboot, hclear, markTransfer, hn, Nat.sub_zero, hsame]
  constructor
  · rintro ⟨⟨hok, -⟩, hroom, hfaults⟩
    refine ⟨by have := hroom (by omega); omega, fun k hk => ?_⟩
    cases k with
    | zero => exact hok
    | succ k => exact hfaults k (by omega)
  · rintro ⟨hroom, hfaults⟩
    exact ⟨⟨hfaults 0 (by omega), by omega⟩, fun _ => by omega,
      fun k hk => hfaults (k + 1) (by omega)⟩

/-- The disk before that transfer: the boot sector is written and the rest is cleared. -/
structure Cleared (fs : FileSystem) (disk : Disk) : Prop where
  totalSector : disk.totalSector = fs.disk.totalSector
  room : 1 + linkSectorCountFor fs.disk.totalSector + 8 ≤ fs.disk.totalSector
  faults : disk.faults = (fs.disk.skip fs.markTransfer).faults
  boot : ∀ x < 512, disk.data x = fs.bootBuffer x
  clear : ∀ x, 512 ≤ x → x < 512 * (1 + linkSectorCountFor fs.disk.totalSector) + 4096 →
    disk.data x = 0

theorem format_cleared (h : fs.format = (true, fs')) : ∃ disk, fs.Cleared disk ∧ fs'.disk =
    (disk.writeSector 1 1 (writeLE (memsetZero fs.bootBuffer sectorSize) 0 4 0xFFFFFFFF)).2 := by
  have hsize := fs.disk.totalSector_lt
  have hcount := (linkSectorCountFor_bounds fs.disk.totalSector).1
  unfold format at h
  simp only at h
  split at h
  · exact nomatch congrArg Prod.fst h
  next hwritten =>
  split at h
  · exact nomatch congrArg Prod.fst h
  next hcleared =>
  have hone : (fs.disk.writeSector 1 0 fs.bootBuffer).1 = 1 := by
    have hle : (fs.disk.writeSector 1 0 fs.bootBuffer).1 ≤ 1 := by
      simp only [Disk.writeSector, Disk.transferred]
      split <;> omega
    omega
  obtain ⟨-, -, hboot⟩ := Disk.writeSector_complete one_pos (by decide) hone
  have hzero : ∀ x < 4096, memsetZero fs.buffer4096 clusterSize x = 0 := fun x hx => if_pos hx
  obtain ⟨hroom, hclear⟩ := clearSectors_spec hzero
    (Prod.ext (Bool.eq_true_of_not_eq_false (by simpa using hcleared)) rfl) (by omega)
    (by simp only [sectorsPerCluster, clusterSize, sectorSize]; omega)
  have hn : linkSectorCountFor fs.disk.totalSector + sectorsPerCluster =
      linkSectorCountFor fs.disk.totalSector + 8 := rfl
  refine ⟨_, Eq.subst (motive := fs.Cleared) hclear.symm ?_,
    (congrArg disk (congrArg Prod.snd h)).symm⟩
  rw [hboot] at hroom ⊢
  refine ⟨rfl, ?_, ?_, fun x hx => ?_, fun x hx hx' => ?_⟩
  · have := hroom (by omega)
    simp only [Disk.next, Disk.skip] at this
    omega
  · rw [markTransfer, ← Disk.skip_skip]
    rfl
  · simp only [Nat.mul_zero, Nat.mul_one]
    rw [if_neg (by omega), copyBytes, if_pos (by omega), Nat.zero_add, Nat.sub_zero]
  · simp only
    rw [if_pos (by omega)]

/-- Where `format` returns `TRUE` there is room, and everything but the mark of cluster 0 is
on the disk. -/
theorem format_spec (h : fs.format = (true, fs')) :
    fs'.disk.totalSector = fs.disk.totalSector ∧ Formatted fs'.disk ∧
      readLE fs'.disk.data 512 4 = (if fs.disk.faults fs.markTransfer then 0 else 0xFFFFFFFF) ∧
      (∀ x, 516 ≤ x → x < 512 * (1 + linkSectorCountFor fs.disk.totalSector) + 4096 →
        fs'.disk.data x = 0) ∧
      fs'.disk.faults = (fs.disk.skip (fs.markTransfer + 1)).faults := by
  obtain ⟨disk, hcleared, hdisk⟩ := format_cleared h
  have hroom := hcleared.room
  have hsame : fs'.disk.totalSector = fs.disk.totalSector := by
    rw [hdisk, ← hcleared.totalSector]
    rfl
  set mark := writeLE (memsetZero fs.bootBuffer sectorSize) 0 4 0xFFFFFFFF with hmark
  have hdata : fs'.disk.data =
      if disk.faults 0 then disk.data else copyBytes disk.data (512 * 1) mark 0 (512 * 1) := by
    rw [hdisk]
    exact Disk.writeSector_data (by rw [hcleared.totalSector]; omega) one_pos
  have hfault : disk.faults 0 = fs.disk.faults fs.markTransfer := by
    rw [hcleared.faults]
    exact congrArg fs.disk.faults (Nat.zero_add _)
  have hboot (x : ℕ) (hx : x < 512) : fs'.disk.data x = fs.bootBuffer x := by
    rw [hdata, ← hcleared.boot x hx]
    split
    · rfl
    · exact copyBytes_of_not_mem (by omega)
  have hword (a : ℕ) (ha : a + 4 ≤ 512) : readLE fs'.disk.data a 4 = readLE fs.bootBuffer a 4 :=
    readLE_congr fun x _ hx => hboot x (by omega)
  obtain ⟨hsignature, hlinks, haddress, hdataAddress⟩ := fs.bootBuffer_words fs.disk.totalSector_lt
  refine ⟨hsame, ⟨?_, ?_, ?_, ?_, ?_⟩, ?_, fun x hx hx' => ?_, ?_⟩
  · rw [hsame]
    exact hroom
  · rw [hword _ (by decide), hsignature]
  · rw [hword _ (by decide), hlinks, hsame]
  · rw [hword _ (by decide), haddress]
  · rw [hword _ (by decide), hdataAddress, hsame]
  · rw [hdata, hfault]
    split
    · exact readLE_eq_zero.mpr fun i hi => hcleared.clear _ (by omega) (by omega)
    · have hread : readLE (copyBytes disk.data (512 * 1) mark 0 (512 * 1)) (512 * 1 + 0) 4 =
          readLE mark (0 + 0) 4 := readLE_copyBytes (by omega)
      exact hread.trans readLE_writeLE
  · have hzero : disk.data x = 0 := hcleared.clear x (by omega) hx'
    rw [hdata]
    split
    · exact hzero
    · by_cases hin : x < 1024
      · rw [copyBytes, if_pos (by omega), hmark, writeLE_of_not_mem (by omega)]
        exact if_pos (by simp only [sectorSize]; omega)
      · rw [copyBytes_of_not_mem (by omega), hzero]
  · rw [hdisk, ← Disk.skip_skip]
    simp only [Disk.writeSector, Disk.next, Disk.skip, hcleared.faults]

/-- With the last transfer it is a complete empty file system. -/
theorem format_emptyVolume (h : fs.format = (true, fs')) :
    EmptyVolume fs'.disk ↔ fs.disk.faults fs.markTransfer = false := by
  obtain ⟨hsame, hformatted, hmark, hrest, -⟩ := format_spec h
  constructor
  · intro hempty
    have hword := hempty.rootMarked
    rw [hmark] at hword
    split at hword
    · exact nomatch hword
    next hfault => simpa using hfault
  · intro hfault
    rw [hfault] at hmark
    exact ⟨hformatted, hmark, fun x hx hx' => hrest x hx (hsame ▸ hx')⟩

end FileSystem
end SkhuOS
