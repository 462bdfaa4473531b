import SkhuOS.Foundation.LittleEndian

/-! Sector transfers of `kernel/drivers/Disk.c`. The command carries 28 address bits; the
device delivers sector after sector until it reports an error behind its last one, or it
fails the whole transfer. -/
namespace SkhuOS
open Foundation

def sectorSize : ℕ := 512

/-- The device: its size in sectors, its contents, byte by byte, and which of the transfers
to come it fails. The size is what the device reports as the number of sectors that 28 bits
can address. -/
structure Disk where
  totalSector : ℕ
  totalSector_lt : totalSector < 2 ^ 28
  data : Bytes
  faults : ℕ → Bool

/-- The result of `readSector`, the buffer and the device behind it. -/
structure Transfer where
  count : ℕ
  buffer : Bytes
  disk : Disk

/-- The sector a command addresses. -/
def lbaOf (LBA : ℕ) : ℕ := LBA % 2 ^ 28

namespace Disk

variable (disk : Disk)

/-- The device behind `n` transfers. -/
def skip (n : ℕ) : Disk := { disk with faults := fun i => disk.faults (i + n) }

/-- The device behind the next transfer. -/
def next : Disk := disk.skip 1

/-- How many sectors of the coming transfer the device gets through. -/
def transferred (sectorCount LBA : ℕ) : ℕ :=
  if disk.faults 0 then 0 else min sectorCount (disk.totalSector - lbaOf LBA)

def readSector (sectorCount LBA : ℕ) (buffer : Bytes) : Transfer :=
  let n := disk.transferred sectorCount LBA
  { count := n
    buffer := copyBytes buffer 0 disk.data (sectorSize * lbaOf LBA) (sectorSize * n)
    disk := disk.next }

def writeSector (sectorCount LBA : ℕ) (buffer : Bytes) : ℕ × Disk :=
  let n := disk.transferred sectorCount LBA
  (n, { disk.next with
    data := copyBytes disk.data (sectorSize * lbaOf LBA) buffer 0 (sectorSize * n) })

/-- A device that fails no transfer. -/
def Reliable : Prop := ∀ n, disk.faults n = false

variable {disk} {sectorCount LBA : ℕ} {buffer : Bytes}

theorem skip_skip (m n : ℕ) : (disk.skip m).skip n = disk.skip (m + n) := by
  simp only [skip, Nat.add_assoc, Nat.add_comm m]

theorem lbaOf_eq (h : LBA < disk.totalSector) : lbaOf LBA = LBA :=
  Nat.mod_eq_of_lt (h.trans disk.totalSector_lt)

/-- A transfer inside the disk is complete, or it fails altogether. -/
theorem transferred_eq (h : LBA + sectorCount ≤ disk.totalSector) (hcount : 0 < sectorCount) :
    disk.transferred sectorCount LBA = if disk.faults 0 then 0 else sectorCount := by
  rw [transferred, lbaOf_eq (show LBA < disk.totalSector by omega)]
  split
  · rfl
  · omega

theorem readSector_eq (hok : disk.faults 0 = false) (h : LBA + sectorCount ≤ disk.totalSector)
    (hcount : 0 < sectorCount) : disk.readSector sectorCount LBA buffer =
      { count := sectorCount
        buffer := copyBytes buffer 0 disk.data (512 * LBA) (512 * sectorCount)
        disk := disk.next } := by
  simp only [readSector, transferred_eq h hcount, lbaOf_eq (show LBA < disk.totalSector by omega),
    sectorSize, hok, Bool.false_eq_true, if_false]

theorem readSector_buffer (h : LBA + sectorCount ≤ disk.totalSector) (hcount : 0 < sectorCount) :
    (disk.readSector sectorCount LBA buffer).buffer = if disk.faults 0 then buffer
      else copyBytes buffer 0 disk.data (512 * LBA) (512 * sectorCount) := by
  simp only [readSector, transferred_eq h hcount, lbaOf_eq (show LBA < disk.totalSector by omega),
    sectorSize]
  split
  · exact copyBytes_zero
  · rfl

theorem writeSector_data (h : LBA + sectorCount ≤ disk.totalSector) (hcount : 0 < sectorCount) :
    (disk.writeSector sectorCount LBA buffer).2.data = if disk.faults 0 then disk.data
      else copyBytes disk.data (512 * LBA) buffer 0 (512 * sectorCount) := by
  simp only [writeSector, transferred_eq h hcount, lbaOf_eq (show LBA < disk.totalSector by omega),
    sectorSize]
  split
  · exact copyBytes_zero
  · rfl

/-- A transfer is complete where it is not failed and lies inside the disk. -/
theorem transferred_eq_iff (hcount : 0 < sectorCount) (hlba : LBA < 2 ^ 28) :
    disk.transferred sectorCount LBA = sectorCount ↔
      disk.faults 0 = false ∧ LBA + sectorCount ≤ disk.totalSector := by
  rw [transferred, show lbaOf LBA = LBA from Nat.mod_eq_of_lt hlba]
  cases disk.faults 0 with
  | true =>
    rw [if_pos rfl]
    exact ⟨fun h => by omega, fun h => nomatch h.1⟩
  | false =>
    rw [if_neg Bool.false_ne_true]
    exact ⟨fun h => ⟨rfl, by omega⟩, fun h => by omega⟩

theorem writeSector_complete (hcount : 0 < sectorCount) (hlba : LBA < 2 ^ 28)
    (h : (disk.writeSector sectorCount LBA buffer).1 = sectorCount) :
    LBA + sectorCount ≤ disk.totalSector ∧ disk.faults 0 = false ∧
      (disk.writeSector sectorCount LBA buffer).2 = { disk.next with
        data := copyBytes disk.data (512 * LBA) buffer 0 (512 * sectorCount) } := by
  have hmod : lbaOf LBA = LBA := Nat.mod_eq_of_lt hlba
  have hn : disk.transferred sectorCount LBA = sectorCount := h
  obtain ⟨hok, hroom⟩ := (transferred_eq_iff hcount hlba).mp hn
  refine ⟨hroom, hok, ?_⟩
  simp only [writeSector, hn, hmod, sectorSize]

namespace Reliable

theorem skip_eq (h : disk.Reliable) (n : ℕ) : disk.skip n = disk := by
  have hfaults : (fun i => disk.faults (i + n)) = disk.faults := by
    funext i
    rw [h, h]
  rw [skip, hfaults]

theorem next_eq (h : disk.Reliable) : disk.next = disk := h.skip_eq 1

theorem readSector_eq (hr : disk.Reliable) (h : LBA + sectorCount ≤ disk.totalSector)
    (hcount : 0 < sectorCount) : disk.readSector sectorCount LBA buffer =
      { count := sectorCount
        buffer := copyBytes buffer 0 disk.data (512 * LBA) (512 * sectorCount)
        disk := disk } := by
  rw [Disk.readSector_eq (hr 0) h hcount, hr.next_eq]

theorem writeSector_eq (hr : disk.Reliable) (h : LBA + sectorCount ≤ disk.totalSector)
    (hcount : 0 < sectorCount) : disk.writeSector sectorCount LBA buffer = (sectorCount,
      { disk with data := copyBytes disk.data (512 * LBA) buffer 0 (512 * sectorCount) }) := by
  simp only [writeSector, transferred_eq h hcount, lbaOf_eq (show LBA < disk.totalSector by omega),
    sectorSize, hr 0, hr.next_eq, Bool.false_eq_true, if_false]

end Reliable
end Disk
end SkhuOS
