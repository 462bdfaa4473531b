import SkhuOS.Foundation.Window
import SkhuOS.FS.Search

/-! The table and the directory as they stand on a mounted disk, and what the file
operations make of them. -/
namespace SkhuOS
open Foundation

/-- The FAT has an entry for each data sector, and no whole sector more. -/
theorem linkSectorCountFor_bounds (S : ℕ) : 128 * linkSectorCountFor S ≤ S + 127 ∧
    S ≤ 1 + (S / 8 + 127) / 128 + 128 * linkSectorCountFor S := by
  simp only [linkSectorCountFor, sectorsPerCluster, linksPerSector, clusterSize, sectorSize,
    linkSize, Nat.reduceDiv]
  omega

/-- A disk whose boot sector records the layout of its size. -/
structure Formatted (disk : Disk) : Prop where
  room : 1 + linkSectorCountFor disk.totalSector + sectorsPerCluster ≤ disk.totalSector
  signature : readLE disk.data bootSignatureOffset 4 = signatureFS
  linkSectorCount :
    readLE disk.data bootLinkSectorCountOffset 4 = linkSectorCountFor disk.totalSector
  linkSectorAddress : readLE disk.data bootLinkSectorAddressOffset 4 = 1
  dataAddress : readLE disk.data bootDataAddressOffset 4 = 1 + linkSectorCountFor disk.totalSector

/-- A disk stays formatted unless its boot sector changes. -/
theorem Formatted.congr {disk disk' : Disk} (h : Formatted disk)
    (hsize : disk'.totalSector = disk.totalSector)
    (hdata : ∀ x < 512, disk'.data x = disk.data x) : Formatted disk' := by
  have hread (a : ℕ) (ha : a + 4 ≤ 512) : readLE disk'.data a 4 = readLE disk.data a 4 :=
    readLE_congr fun x _ hx => hdata x (by omega)
  refine ⟨hsize ▸ h.room, ?_, ?_, ?_, ?_⟩
  · exact (hread _ (by decide)).trans h.signature
  · rw [hsize]
    exact (hread _ (by decide)).trans h.linkSectorCount
  · exact (hread _ (by decide)).trans h.linkSectorAddress
  · rw [hsize]
    exact (hread _ (by decide)).trans h.dataAddress

namespace FileSystem

/-- A mounted file system on a formatted disk. -/
structure Mounted (fs : FileSystem) : Prop where
  disk : Formatted fs.disk
  isMounted : fs.isMounted = true
  linkSectorCount : fs.fatInfor.clusterLinkSectorCount = linkSectorCountFor fs.disk.totalSector
  linkSectorAddress : fs.fatInfor.clusterLinkSectorAddress = 1
  dataAddress : fs.fatInfor.dataAddress = 1 + linkSectorCountFor fs.disk.totalSector
  freeClusterCount :
    fs.fatInfor.freeClusterCount = readLE fs.disk.data bootFreeClusterCountOffset 4
  cursor : fs.bestRootDirIdx < maxFileCount

variable (fs : FileSystem)

/-- The number of entries in the FAT. -/
def entries : ℕ := fs.fatInfor.clusterLinkSectorCount * linksPerSector

/-- Where the FAT and the root directory start on the disk. -/
def fatAddress : ℕ := sectorSize * fs.fatInfor.clusterLinkSectorAddress
def rootAddress : ℕ := sectorSize * fs.fatInfor.dataAddress

/-- Entry `c` of the FAT on the disk. -/
def fat (c : ℕ) : ℕ :=
  if c < fs.entries then readLE fs.disk.data (fs.fatAddress + linkSize * c) 4 else 0

/-- Directory entry `i` on the disk, as a buffer of its own. -/
def dir (i : ℕ) : Bytes := fun x =>
  if i < maxFileCount ∧ x < fileInformationSize then
    fs.disk.data (fs.rootAddress + (fileInformationSize * i + x))
  else 0

/-- Its `clusterIdx` and its `fileSize`. -/
def slot (i : ℕ) : ℕ := readLE (fs.dir i) clusterIdxOffset 4
def sizeOf (i : ℕ) : ℕ := readLE (fs.dir i) fileSizeOffset 4

/-- The contents of data cluster `c`. -/
def clusterData (c : ℕ) : Bytes := fun x =>
  if x < clusterSize then fs.disk.data (fs.rootAddress + clusterSize * c + x) else 0

/-- Entry `i` is in use and stores this name. -/
def Carries (i : ℕ) (fileName : CString) : Prop :=
  fs.slot i ≠ 0 ∧ ∀ x ≤ strlen fileName, fs.dir i x = stringBytes fileName x

variable {fs} {fs' : FileSystem} {fileName : CString} {c d i v : ℕ} {data : Bytes}

theorem slot_lt (h : fs.slot i ≠ 0) : i < maxFileCount := by
  by_contra hi
  refine h (readLE_eq_zero.mpr fun x _ => ?_)
  rw [dir, if_neg fun hx => hi hx.1]

namespace Mounted

/-- What a mounted file system needs of the disk is its boot sector. -/
theorem congr (h : fs.Mounted) (hsize : fs'.disk.totalSector = fs.disk.totalSector)
    (hdata : ∀ x < 512, fs'.disk.data x = fs.disk.data x) (hinfor : fs'.fatInfor = fs.fatInfor)
    (hmounted : fs'.isMounted = fs.isMounted) (hcursor : fs'.bestRootDirIdx < maxFileCount) :
    fs'.Mounted := by
  refine ⟨h.disk.congr hsize hdata, hmounted.trans h.isMounted, ?_, ?_, ?_, ?_, hcursor⟩
  · rw [hinfor, hsize, h.linkSectorCount]
  · rw [hinfor, h.linkSectorAddress]
  · rw [hinfor, hsize, h.dataAddress]
  · rw [hinfor, h.freeClusterCount]
    exact (readLE_congr fun x _ hx => hdata x (lt_of_lt_of_le hx (by decide))).symm

/-- The FAT lies behind the boot sector, the root directory behind the FAT. -/
theorem layout (h : fs.Mounted) : fs.fatAddress = 512 ∧ fs.rootAddress = 512 + 4 * fs.entries ∧
    fs.rootAddress + 4096 ≤ 512 * fs.disk.totalSector ∧ fs.entries < 2 ^ 32 := by
  have hroom := h.disk.room
  have hsize := fs.disk.totalSector_lt
  have hcount := (linkSectorCountFor_bounds fs.disk.totalSector).1
  simp only [sectorsPerCluster, clusterSize, sectorSize, fatAddress, rootAddress, entries,
    linksPerSector, linkSize, h.linkSectorCount, h.linkSectorAddress, h.dataAddress,
    Nat.reduceDiv] at hroom ⊢
  refine ⟨trivial, ?_, ?_, ?_⟩ <;> omega

theorem entries_eq (h : fs.Mounted) : fs.entries = 128 * (fs.fatInfor.dataAddress - 1) := by
  rw [entries, h.linkSectorCount, h.dataAddress, Nat.add_sub_cancel_left, Nat.mul_comm]
  rfl

/-- The sector of a FAT entry lies on the disk, in the FAT. -/
theorem link_onDisk (h : fs.Mounted) (hc : c < fs.entries) :
    fs.fatInfor.clusterLinkSectorAddress + c / linksPerSector + 1 ≤ fs.disk.totalSector ∧
      512 * (fs.fatInfor.clusterLinkSectorAddress + c / linksPerSector) + 512 ≤
        fs.rootAddress := by
  obtain ⟨-, hroot, hend, -⟩ := h.layout
  have hentries := h.entries_eq
  rw [h.linkSectorAddress]
  simp only [linksPerSector, sectorSize, linkSize, Nat.reduceDiv]
  omega

theorem root_onDisk (h : fs.Mounted) :
    fs.fatInfor.dataAddress + 8 * (0 + 1) ≤ fs.disk.totalSector := by
  have := h.disk.room
  rw [h.dataAddress]
  exact this

/-- The words of the FAT that a search meets are its entries. -/
theorem scanned_eq (h : fs.Mounted) (hr : fs.disk.Reliable) {k : ℕ}
    (hk : linksPerSector * (fs.bestIdx / linksPerSector) + k < fs.entries) :
    fs.scanned k = fs.fat (linksPerSector * (fs.bestIdx / linksPerSector) + k) := by
  obtain ⟨hfat, hroot, hend, -⟩ := h.layout
  have hentries := h.entries_eq
  simp only [linksPerSector, sectorSize, linkSize, Nat.reduceDiv] at hk
  have hread (n : ℕ) (hn : 128 * (fs.bestIdx / 128 + n) < fs.entries) :
      Window (fs.searchRead n).buffer fs.disk.data (512 + 512 * (fs.bestIdx / 128 + n)) 512 ∧
        (fs.searchRead n).disk = fs.disk := by
    have haddress : 512 * (1 + (fs.bestIdx / 128 + n)) = 512 + 512 * (fs.bestIdx / 128 + n) := by
      omega
    have hsector : 1 + (fs.bestIdx / 128 + n) + 1 ≤ fs.disk.totalSector := by omega
    rw [← haddress]
    induction n with
    | zero =>
      rw [searchRead, h.linkSectorAddress]
      simp only [linksPerSector, sectorSize, linkSize, Nat.reduceDiv, Nat.add_zero] at *
      rw [hr.readSector_eq hsector one_pos]
      exact ⟨Window.load _ _ _ _, rfl⟩
    | succ n ih =>
      have hdisk := (ih (by omega) (by omega) (by omega)).2
      rw [searchRead, h.linkSectorAddress, hdisk]
      simp only [linksPerSector, sectorSize, linkSize, Nat.reduceDiv] at *
      rw [hr.readSector_eq hsector one_pos]
      exact ⟨Window.load _ _ _ _, rfl⟩
  simp only [fat, scanned, hfat, linksPerSector, sectorSize, linkSize, Nat.reduceDiv] at hk ⊢
  rw [if_pos hk, (hread (k / 128) (by omega)).1.readLE (by omega)]
  congr 1
  omega

end Mounted

theorem entry_le_root (hi : i < maxFileCount) :
    fileInformationSize * i + fileInformationSize ≤ clusterSize := by
  simp only [maxFileCount, fileInformationSize, clusterSize] at hi ⊢
  omega

theorem entry_lt_root (hi : i < maxFileCount) {x : ℕ} (hx : x < fileInformationSize) :
    fileInformationSize * i + x < clusterSize :=
  lt_of_lt_of_le (Nat.add_lt_add_left hx _) (entry_le_root hi)

/-! The single transfers of a device that fails none. -/

section Reliable

variable (hr : fs.disk.Reliable)
include hr

/-- A store into one entry of the FAT. -/
theorem Mounted.setClusterLinkTable_disk (h : fs.Mounted) (hc : c < fs.entries) :
    (fs.setClusterLinkTable c v).disk =
      { fs.disk with data := writeLE fs.disk.data (fs.fatAddress + linkSize * c) 4 v } := by
  have hsector := (h.link_onDisk hc).1
  rw [setClusterLinkTable, hr.readSector_eq hsector one_pos]
  simp only
  rw [hr.writeSector_eq hsector one_pos, h.linkSectorAddress, h.layout.1]
  simp only [linksPerSector, sectorSize, linkSize, Nat.reduceDiv]
  rw [copyBytes_writeLE (by omega)]
  congr 2
  omega

/-- A cluster that lies on the disk is read whole. -/
theorem readCluster_eq (hc : fs.fatInfor.dataAddress + 8 * (c + 1) ≤ fs.disk.totalSector)
    (buffer : Bytes) : fs.readCluster c buffer =
      (copyBytes buffer 0 fs.disk.data (fs.rootAddress + clusterSize * c) clusterSize, fs) := by
  simp only [readCluster]
  rw [hr.readSector_eq (by simp only [sectorsPerCluster, clusterSize, sectorSize]; omega)
    (by decide)]
  simp only [rootAddress, sectorsPerCluster, clusterSize, sectorSize, Nat.reduceDiv, Nat.reduceMul]
  congr 2
  omega

/-- A cluster that lies on the disk is written whole. -/
theorem writeCluster_disk (hc : fs.fatInfor.dataAddress + 8 * (c + 1) ≤ fs.disk.totalSector)
    (buffer : Bytes) : (fs.writeCluster c buffer).disk = { fs.disk with
      data := copyBytes fs.disk.data (fs.rootAddress + clusterSize * c) buffer 0 clusterSize } := by
  simp only [writeCluster]
  rw [hr.writeSector_eq (by simp only [sectorsPerCluster, clusterSize, sectorSize]; omega)
    (by decide)]
  simp only [rootAddress, sectorsPerCluster, clusterSize, sectorSize, Nat.reduceDiv, Nat.reduceMul]
  congr 2
  omega

/-- `buffer4096` holds the root directory once it is read. -/
theorem Mounted.readRoot_eq (h : fs.Mounted) : ∃ buffer,
    fs.readRoot = { fs with buffer4096 := buffer } ∧
      Window buffer fs.disk.data fs.rootAddress clusterSize := by
  rw [readRoot, readCluster_eq hr h.root_onDisk, Nat.mul_zero, Nat.add_zero]
  exact ⟨_, rfl, Window.load _ _ _ _⟩

theorem Mounted.readRoot_dir (h : fs.Mounted) (hi : i < maxFileCount) :
    Window (fs.dir i) fs.readRoot.buffer4096 (fileInformationSize * i) fileInformationSize := by
  obtain ⟨buffer, heq, hwindow⟩ := h.readRoot_eq hr
  intro x hx
  rw [heq, dir, if_pos ⟨hi, hx⟩]
  exact (hwindow _ (entry_lt_root hi hx)).symm

theorem Mounted.entryCluster_readRoot (h : fs.Mounted) (hi : i < maxFileCount) :
    fs.readRoot.entryCluster i = fs.slot i :=
  ((h.readRoot_dir hr hi).readLE (by decide)).symm

end Reliable

end FileSystem
end SkhuOS
