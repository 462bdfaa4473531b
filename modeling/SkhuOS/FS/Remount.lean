import SkhuOS.FS.Folder

/-! The folder on a disk that is formatted or mounted once more. -/
namespace SkhuOS
open Foundation

namespace FileSystem

variable {fs fs' : FileSystem} {op : Operation} {folder : Folder}

/-- The folder is on the mounted disk, whose boot sector counts its clusters as `format` does. -/
structure Filed (fs : FileSystem) (folder : Folder) : Prop where
  orderly : fs.Orderly
  freeClusterCount : fs.fatInfor.freeClusterCount = fs.disk.totalSector / 8
  holds : fs.folder = folder

theorem format_isMounted (fs : FileSystem) : fs.format.2.isMounted = fs.isMounted := by
  unfold format
  dsimp only
  split
  · rfl
  · split <;> rfl

theorem format_fatInfor (fs : FileSystem) : fs.format.2.fatInfor = fs.fatInfor := by
  unfold format
  dsimp only
  split
  · rfl
  · split <;> rfl

theorem format_bestRootDirIdx (fs : FileSystem) :
    fs.format.2.bestRootDirIdx = fs.bestRootDirIdx := by
  unfold format
  dsimp only
  split
  · rfl
  · split <;> rfl

/-- A disk without the signature is not mounted. -/
theorem mount_unformatted (hr : fs.disk.Reliable) (hroom : 0 < fs.disk.totalSector)
    (hsignature : readLE fs.disk.data bootSignatureOffset 4 ≠ signatureFS) :
    fs.mount.1 = .error .mountFailMessage2 ∧ fs.mount.2.isMounted = fs.isMounted ∧
      fs.mount.2.disk = fs.disk := by
  have hread (buffer : Bytes) : fs.disk.readSector 1 0 buffer =
      ⟨1, copyBytes buffer 0 fs.disk.data (512 * 0) (512 * 1), fs.disk⟩ :=
    hr.readSector_eq (by omega) one_pos
  have hword (buffer : Bytes) : readLE (copyBytes buffer 0 fs.disk.data (512 * 0) (512 * 1))
      bootSignatureOffset 4 = readLE fs.disk.data bootSignatureOffset 4 := by
    have hload := (Window.load buffer fs.disk.data (512 * 0) (512 * 1)).readLE
      (o := bootSignatureOffset) (k := 4) (by decide)
    rwa [Nat.mul_zero, Nat.zero_add] at hload
  unfold mount
  simp only [hread, one_ne_zero, if_false, hword, ne_eq, hsignature, not_false_eq_true, if_true,
    and_self]

namespace Filed

variable (h : fs.Filed folder)
include h

/-- Other buffers and another cursor do not matter. -/
theorem looked (hstores : fs.Stores fs' fs.disk.data) : fs'.Filed folder := by
  obtain ⟨horderly, hfolder⟩ := h.orderly.looked hstores
  refine ⟨horderly, ?_, hfolder.trans h.holds⟩
  rw [hstores.fatInfor, h.freeClusterCount, hstores.disk]

/-- A call is answered as the folder answers it. -/
theorem answers (hstep : fs.FolderStep op) : ∃ folder', folder.Answers op (fs.reply op) folder' ∧
    (fs.operate op).Filed folder' := by
  obtain ⟨horderly, hanswer⟩ := h.orderly.answers hstep
  obtain ⟨⟨data, hstores⟩, -⟩ := h.orderly.operate_spec hstep
  rw [h.holds] at hanswer
  refine ⟨_, hanswer, horderly, ?_, rfl⟩
  rw [hstores.fatInfor, h.freeClusterCount, hstores.disk]

/-- Mounting the disk finds the same folder, whatever is left of an earlier mount. -/
theorem remount (hdisk : fs'.disk = fs.disk) :
    fs'.mount.1 = .ok () ∧ fs'.mount.2.Filed folder ∧ fs'.mount.2.disk = fs.disk := by
  have hm := h.orderly.intact.mounted
  have hr := h.orderly.intact.reliable
  obtain ⟨buffer, heq⟩ := mount_eq (hdisk ▸ hm.disk) (hdisk ▸ hr 0)
  obtain ⟨hmounted, hnext, -⟩ := mount_mounted (hdisk ▸ hm.disk) (hdisk ▸ hr 0)
  rw [hdisk, hr.next_eq] at hnext
  refine ⟨by rw [heq], h.looked ⟨hmounted, hnext, ?_⟩, hnext⟩
  rw [heq, hdisk]
  apply FatInformation.ext
  · exact hm.freeClusterCount.symm
  · exact hm.linkSectorCount.symm
  · exact hm.linkSectorAddress.symm
  · exact hm.dataAddress.symm

theorem room : 1 + linkSectorCountFor fs.disk.totalSector + 8 ≤ fs.disk.totalSector :=
  h.orderly.intact.mounted.disk.room

end Filed

/-- On a disk with room for the FAT and the root directory `format` succeeds and leaves an empty
folder on it. -/
theorem format_filed (hr : fs.disk.Reliable)
    (hroom : 1 + linkSectorCountFor fs.disk.totalSector + 8 ≤ fs.disk.totalSector) :
    fs.format.1 = true ∧ ∃ fs' : FileSystem, fs'.disk = fs.format.2.disk ∧
      fs'.disk.totalSector = fs.disk.totalSector ∧ fs'.Filed Folder.empty := by
  have htrue : fs.format.1 = true := (format_true_iff fs).mpr ⟨hroom, fun k _ => hr k⟩
  have hformat : fs.format = (true, fs.format.2) := Prod.ext htrue rfl
  obtain ⟨hsame, hformatted, -, -, hfaults⟩ := format_spec hformat
  have hr' : fs.format.2.disk.Reliable := by
    intro k
    rw [hfaults]
    exact hr _
  obtain ⟨buffer, hmount⟩ := mount_eq hformatted (hr' 0)
  have hreturned : fs.format.2.mount.1 = .ok () := by rw [hmount]
  have hfresh := fresh_of_format hr hformat (Prod.ext hreturned rfl)
  obtain ⟨horderly, hempty⟩ := hfresh.orderly
  have hdisk : fs.format.2.mount.2.disk = fs.format.2.disk := by
    rw [hmount]
    exact hr'.next_eq
  refine ⟨htrue, fs.format.2.mount.2, hdisk, by rw [hdisk, hsame], horderly, ?_, hempty⟩
  have hcount : readLE fs.format.2.disk.data bootFreeClusterCountOffset 4 =
      fs.disk.totalSector / 8 := by
    rw [← bootBuffer_freeClusterCount]
    exact readLE_congr fun x _ hx => format_boot hformat x (lt_of_lt_of_le hx (by decide))
  rw [hdisk, hsame, hmount, ← hcount]

/-- Formatting a mounted disk empties the folder, and the disk stays mounted. -/
theorem Filed.format (h : fs.Filed folder) :
    fs.format.1 = true ∧ fs.format.2.Filed Folder.empty := by
  have hm := h.orderly.intact.mounted
  obtain ⟨htrue, fs', hdisk, hsame, hfiled⟩ := format_filed h.orderly.intact.reliable h.room
  have hm' := hfiled.orderly.intact.mounted
  have hinfor : fs.format.2.fatInfor = fs'.fatInfor := by
    rw [format_fatInfor]
    apply FatInformation.ext
    · rw [h.freeClusterCount, hfiled.freeClusterCount, hsame]
    · rw [hm.linkSectorCount, hm'.linkSectorCount, hsame]
    · rw [hm.linkSectorAddress, hm'.linkSectorAddress]
    · rw [hm.dataAddress, hm'.dataAddress, hsame]
  refine ⟨htrue, hfiled.looked ⟨?_, hdisk.symm, hinfor⟩⟩
  apply hm'.congr
  · rw [hdisk]
  · exact fun x _ => by rw [hdisk]
  · exact hinfor
  · rw [format_isMounted, hm.isMounted, hm'.isMounted]
  · rw [format_bestRootDirIdx]
    exact hm.cursor

end FileSystem
end SkhuOS
