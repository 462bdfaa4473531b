import SkhuOS.FS.Runs

/-! The single transfers of a device that may fail them: a failed read leaves the buffer, a
failed write leaves the disk. -/
namespace SkhuOS
open Foundation

namespace FileSystem

variable {fs fs' : FileSystem} {c i v : ℕ} {x : ℕ}

/-- A window of the root directory has its clusters. -/
theorem clusterIn_window {buffer data : Bytes} (hwindow : Window buffer data fs.rootAddress clusterSize)
    (hi : i < maxFileCount) : clusterIn buffer i =
      readLE data (fs.rootAddress + (fileInformationSize * i + clusterIdxOffset)) 4 := by
  refine hwindow.readLE ?_
  simp only [maxFileCount, fileInformationSize, clusterIdxOffset, clusterSize] at hi ⊢
  omega

theorem slot_eq (fs : FileSystem) (hi : i < maxFileCount) : fs.slot i =
    readLE fs.disk.data (fs.rootAddress + (fileInformationSize * i + clusterIdxOffset)) 4 := by
  have hwindow : Window (fs.dir i) fs.disk.data (fs.rootAddress + fileInformationSize * i)
      fileInformationSize := fun x hx => by
    rw [dir, if_pos ⟨hi, hx⟩, Nat.add_assoc]
  rw [slot, hwindow.readLE (by decide), Nat.add_assoc]

/-- Reading a cluster that lies on the disk. -/
theorem readCluster_buffer (hc : fs.fatInfor.dataAddress + 8 * (c + 1) ≤ fs.disk.totalSector)
    (buffer : Bytes) : (fs.readCluster c buffer).1 = if fs.disk.faults 0 then buffer
      else copyBytes buffer 0 fs.disk.data (fs.rootAddress + clusterSize * c) clusterSize := by
  have haddress : fs.rootAddress + clusterSize * c =
      512 * (fs.fatInfor.dataAddress + c * sectorsPerCluster) := by
    simp only [rootAddress, sectorsPerCluster, clusterSize, sectorSize]
    omega
  rw [haddress]
  exact Disk.readSector_buffer (by simp only [sectorsPerCluster, clusterSize, sectorSize]; omega)
    (by decide)

/-- Reading the root directory. -/
theorem Mounted.readRoot_buffer (h : fs.Mounted) : fs.readRoot.buffer4096 =
    if fs.disk.faults 0 then fs.buffer4096
    else copyBytes fs.buffer4096 0 fs.disk.data fs.rootAddress clusterSize := by
  have hbuffer := readCluster_buffer h.root_onDisk fs.buffer4096
  rw [Nat.mul_zero, Nat.add_zero] at hbuffer
  exact hbuffer

theorem Mounted.readRoot_cases (h : fs.Mounted) :
    fs.disk.faults 0 = true ∧ fs.readRoot.buffer4096 = fs.buffer4096 ∨
      fs.disk.faults 0 = false ∧
        Window fs.readRoot.buffer4096 fs.disk.data fs.rootAddress clusterSize := by
  rw [h.readRoot_buffer]
  cases hfault : fs.disk.faults 0 with
  | true => exact .inl ⟨rfl, if_pos rfl⟩
  | false =>
    refine .inr ⟨rfl, ?_⟩
    rw [if_neg Bool.false_ne_true]
    exact Window.load _ _ _ _

/-- Writing a cluster that lies on the disk. -/
theorem writeCluster_data (hc : fs.fatInfor.dataAddress + 8 * (c + 1) ≤ fs.disk.totalSector)
    (buffer : Bytes) : (fs.writeCluster c buffer).disk.data = if fs.disk.faults 0 then fs.disk.data
      else copyBytes fs.disk.data (fs.rootAddress + clusterSize * c) buffer 0 clusterSize := by
  have haddress : fs.rootAddress + clusterSize * c =
      512 * (fs.fatInfor.dataAddress + c * sectorsPerCluster) := by
    simp only [rootAddress, sectorsPerCluster, clusterSize, sectorSize]
    omega
  rw [haddress]
  exact Disk.writeSector_data (by simp only [sectorsPerCluster, clusterSize, sectorSize]; omega)
    (by decide)

/-- Writing back the copy of the root directory. -/
theorem Mounted.writeRoot_data (h : fs.Mounted) (buffer : Bytes) :
    (writeCluster { fs with buffer4096 := buffer } 0 buffer).disk.data =
      if fs.disk.faults 0 then fs.disk.data
      else copyBytes fs.disk.data fs.rootAddress buffer 0 clusterSize := by
  have hm : Mounted { fs with buffer4096 := buffer } :=
    h.congr rfl (fun _ _ => rfl) rfl rfl h.cursor
  have hdata := writeCluster_data hm.root_onDisk buffer
  rw [Nat.mul_zero, Nat.add_zero] at hdata
  exact hdata

/-- The buffer in which `setClusterLinkTable` makes its change. -/
def linkBuffer (fs : FileSystem) (idx : ℕ) : Bytes :=
  (fs.disk.readSector 1 (fs.fatInfor.clusterLinkSectorAddress + idx / linksPerSector)
    fs.buffer512).buffer

/-- Setting an entry of the FAT. -/
theorem Mounted.setClusterLinkTable_data (h : fs.Mounted) (hc : c < fs.entries) :
    (fs.setClusterLinkTable c v).disk.data = if fs.disk.faults 1 then fs.disk.data
      else copyBytes fs.disk.data (512 + 512 * (c / linksPerSector))
        (writeLE (fs.linkBuffer c) (linkSize * (c % linksPerSector)) 4 v) 0 512 := by
  have hsector := (h.link_onDisk hc).1
  have hsector' : fs.fatInfor.clusterLinkSectorAddress + c / linksPerSector + 1 ≤
      fs.disk.next.totalSector := hsector
  have hdata := @Disk.writeSector_data _ _ _
    (writeLE (fs.linkBuffer c) (linkSize * (c % linksPerSector)) 4 v) hsector' one_pos
  have haddress : 512 * (fs.fatInfor.clusterLinkSectorAddress + c / linksPerSector) =
      512 + 512 * (c / linksPerSector) := by
    rw [h.linkSectorAddress, Nat.mul_add]
  rw [haddress] at hdata
  exact hdata

/-- It changes nothing outside the sector of the entry. -/
theorem Mounted.setClusterLinkTable_frame (h : fs.Mounted) (hc : c < fs.entries)
    (hx : x < 512 + 512 * (c / linksPerSector) ∨ 512 + 512 * (c / linksPerSector) + 512 ≤ x) :
    (fs.setClusterLinkTable c v).disk.data x = fs.disk.data x := by
  rw [h.setClusterLinkTable_data hc]
  split
  · rfl
  · exact copyBytes_of_not_mem hx

theorem writeCluster_frame (hc : fs.fatInfor.dataAddress + 8 * (c + 1) ≤ fs.disk.totalSector)
    (buffer : Bytes) (hx : x < fs.rootAddress + clusterSize * c ∨
      fs.rootAddress + clusterSize * c + clusterSize ≤ x) :
    (fs.writeCluster c buffer).disk.data x = fs.disk.data x := by
  rw [writeCluster_data hc]
  split
  · rfl
  · exact copyBytes_of_not_mem hx

end FileSystem
end SkhuOS
