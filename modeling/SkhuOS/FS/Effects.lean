import SkhuOS.FS.Volume

/-! What the file operations make of the FAT, the directory and the data clusters when no
transfer fails. -/
namespace SkhuOS
open Foundation

namespace FileSystem

variable {fs fs' : FileSystem} {fileName : CString} {d c i : ℕ} {data : Bytes}

/-- The disk holds `data` afterwards; what `mount` has read off it is still true. -/
structure Stores (fs fs' : FileSystem) (data : Bytes) : Prop where
  mounted : fs'.Mounted
  disk : fs'.disk = { fs.disk with data := data }
  fatInfor : fs'.fatInfor = fs.fatInfor

namespace Stores

theorem trans {fs'' : FileSystem} {data' : Bytes} (h : fs.Stores fs' data)
    (h' : fs'.Stores fs'' data') : fs.Stores fs'' data' :=
  ⟨h'.mounted, by rw [h'.disk, h.disk], h'.fatInfor.trans h.fatInfor⟩

variable (h : fs.Stores fs' data)
include h

theorem data_eq : fs'.disk.data = data := by rw [h.disk]

theorem reliable (hr : fs.disk.Reliable) : fs'.disk.Reliable := by
  rw [h.disk]
  exact hr

theorem entries_eq : fs'.entries = fs.entries := by simp only [entries, h.fatInfor]

theorem fatAddress_eq : fs'.fatAddress = fs.fatAddress := by simp only [fatAddress, h.fatInfor]

theorem rootAddress_eq : fs'.rootAddress = fs.rootAddress := by
  simp only [rootAddress, h.fatInfor]

theorem fat_eq (c : ℕ) : fs'.fat c =
    if c < fs.entries then readLE data (fs.fatAddress + linkSize * c) 4 else 0 := by
  rw [fat, h.entries_eq, h.fatAddress_eq, h.data_eq]

theorem dir_eq (i x : ℕ) : fs'.dir i x = if i < maxFileCount ∧ x < fileInformationSize then
    data (fs.rootAddress + (fileInformationSize * i + x)) else 0 := by
  rw [dir, h.rootAddress_eq, h.data_eq]

theorem clusterData_eq (c x : ℕ) : fs'.clusterData c x =
    if x < clusterSize then data (fs.rootAddress + clusterSize * c + x) else 0 := by
  rw [clusterData, h.rootAddress_eq, h.data_eq]

end Stores

/-- Two FAT entries do not overlap, and none reaches into the root directory. -/
theorem Mounted.fat_writeLE (h : fs.Mounted) (hc : c < fs.entries) (v : ℕ)
    (hstores : fs.Stores fs' data)
    (hdata : ∀ x, fs.fatAddress ≤ x → x < fs.rootAddress →
      data x = writeLE fs.disk.data (fs.fatAddress + linkSize * c) 4 v x) :
    fs'.fat = Function.update fs.fat c (v % 2 ^ 32) := by
  obtain ⟨-, hroot, -, -⟩ := h.layout
  have hfat : fs.fatAddress = 512 := h.layout.1
  funext e
  rw [hstores.fat_eq]
  by_cases he : e < fs.entries
  · have hread : readLE data (fs.fatAddress + linkSize * e) 4 =
        readLE (writeLE fs.disk.data (fs.fatAddress + linkSize * c) 4 v)
          (fs.fatAddress + linkSize * e) 4 := by
      simp only [linkSize] at *
      exact readLE_congr fun x hx hx' => hdata x (by omega) (by omega)
    rw [if_pos he, hread]
    by_cases hec : e = c
    · rw [hec, readLE_writeLE, Function.update_self]
      rfl
    · rw [Function.update_of_ne hec, fat, if_pos he]
      simp only [linkSize]
      exact readLE_writeLE_disjoint (by omega)
  · have hec : e ≠ c := by omega
    rw [if_neg he, Function.update_of_ne hec, fat, if_neg he]

/-- Where only the root directory and what lies behind it changes, the FAT stays. -/
theorem Mounted.fat_stays (h : fs.Mounted) (hstores : fs.Stores fs' data)
    (hdata : ∀ x, fs.fatAddress ≤ x → x < fs.rootAddress → data x = fs.disk.data x) :
    fs'.fat = fs.fat := by
  obtain ⟨hfat, hroot, -, -⟩ := h.layout
  funext e
  rw [hstores.fat_eq, fat]
  split
  next he =>
    simp only [linkSize] at *
    exact readLE_congr fun x hx hx' => hdata x (by omega) (by omega)
  · rfl

/-- A change of one directory entry. -/
theorem Stores.dir_update (hstores : fs.Stores fs' data) (hi : i < maxFileCount)
    {entry : Bytes} (hentry : ∀ x, fileInformationSize ≤ x → entry x = 0)
    (hin : ∀ x < fileInformationSize,
      data (fs.rootAddress + (fileInformationSize * i + x)) = entry x)
    (hout : ∀ x < clusterSize, x < fileInformationSize * i ∨ fileInformationSize * (i + 1) ≤ x →
      data (fs.rootAddress + x) = fs.disk.data (fs.rootAddress + x)) :
    fs'.dir = Function.update fs.dir i entry := by
  funext j x
  rw [hstores.dir_eq]
  by_cases hji : j = i
  · rw [hji, Function.update_self]
    by_cases hx : x < fileInformationSize
    · rw [if_pos ⟨hi, hx⟩, hin x hx]
    · rw [if_neg fun h => hx h.2, hentry x (by omega)]
  · rw [Function.update_of_ne hji, dir]
    split
    next hjx =>
      refine hout _ ?_ ?_ <;>
        simp only [maxFileCount, fileInformationSize, clusterSize] at hjx hi ⊢ <;> omega
    · rfl

theorem Stores.dir_stays (hstores : fs.Stores fs' data)
    (hdata : ∀ x < clusterSize, data (fs.rootAddress + x) = fs.disk.data (fs.rootAddress + x)) :
    fs'.dir = fs.dir := by
  funext j x
  rw [hstores.dir_eq, dir]
  split
  next hjx =>
    refine hdata _ ?_
    simp only [maxFileCount, fileInformationSize, clusterSize] at hjx ⊢
    omega
  · rfl

/-- Nothing of a new entry reaches behind its 32 bytes. -/
theorem newEntry_of_le {x : ℕ} (hx : fileInformationSize ≤ x) : newEntry fileName c x = 0 := by
  simp only [newEntry, fileInformationSize, clusterIdxOffset, fileSizeOffset, maxFileName,
    clusterSize, maxFileCount] at *
  rw [writeLE_of_not_mem (by omega), writeLE_of_not_mem (by omega),
    copyBytes_of_not_mem (by omega)]

theorem newEntry_cluster (hc : c < 2 ^ 32) :
    readLE (newEntry fileName c) clusterIdxOffset 4 = c := by
  simp only [newEntry, clusterIdxOffset, fileSizeOffset]
  rw [readLE_writeLE_disjoint (by omega), readLE_writeLE]
  exact Nat.mod_eq_of_lt hc

/-- The name of a new entry is the argument, cut to 23 characters. -/
theorem newEntry_name {x : ℕ} (hx : x < maxFileName) : newEntry fileName c x =
    if x < strlen fileName ∧ x < maxFileName - 1 then stringBytes fileName x else 0 := by
  simp only [newEntry, clusterIdxOffset, fileSizeOffset, maxFileName, clusterSize,
    maxFileCount, Nat.reduceDiv, Nat.reduceSub] at *
  rw [writeLE_of_not_mem (by omega), writeLE_of_not_mem (by omega), copyBytes]
  simp only [Nat.zero_add, Nat.zero_le, true_and, Nat.sub_zero, Nat.lt_min]
  rfl

theorem Looked.mounted (hl : fs.Looked fs') (h : fs.Mounted) : fs'.Mounted := by
  obtain ⟨b, b', i, j, n, hj, -, rfl⟩ := hl
  exact h.congr rfl (fun _ _ => rfl) rfl rfl hj

/-- `mount` of a formatted disk reads its layout, unless the transfer fails. -/
theorem mount_eq (h : Formatted fs.disk) (hok : fs.disk.faults 0 = false) : ∃ buffer,
    fs.mount = (.ok (), { fs with
      disk := fs.disk.next
      buffer512 := buffer
      buffer4096 := memsetZero fs.buffer4096 clusterSize
      fatInfor :=
        { freeClusterCount := readLE fs.disk.data bootFreeClusterCountOffset 4
          clusterLinkSectorCount := linkSectorCountFor fs.disk.totalSector
          clusterLinkSectorAddress := 1
          dataAddress := 1 + linkSectorCountFor fs.disk.totalSector }
      bestIdx := 0
      bestRootDirIdx := 0
      isMounted := true }) := by
  have hread (buffer : Bytes) : fs.disk.readSector 1 0 buffer =
      { count := 1
        buffer := copyBytes buffer 0 fs.disk.data (512 * 0) (512 * 1)
        disk := fs.disk.next } :=
    Disk.readSector_eq hok (by have := h.room; omega) one_pos
  have hword (buffer : Bytes) (a : ℕ) (ha : a + 4 ≤ 512) :
      readLE (copyBytes buffer 0 fs.disk.data (512 * 0) (512 * 1)) a 4 =
        readLE fs.disk.data a 4 := by
    have := (Window.load buffer fs.disk.data (512 * 0) (512 * 1)).readLE (o := a) (k := 4) ha
    rwa [Nat.mul_zero, Nat.zero_add] at this
  have hsignature := hword (memsetZero fs.buffer512 sectorSize) bootSignatureOffset (by decide)
  rw [h.signature] at hsignature
  refine ⟨copyBytes (memsetZero fs.buffer512 sectorSize) 0 fs.disk.data (512 * 0) (512 * 1), ?_⟩
  simp only [mount, hread, hsignature, one_ne_zero, if_false, ne_eq, not_true_eq_false]
  rw [hword _ _ (by decide), hword _ _ (by decide), hword _ _ (by decide),
    hword _ _ (by decide), h.linkSectorAddress, h.linkSectorCount, h.dataAddress]

/-- A failed transfer leaves everything but the buffers as it was. -/
theorem mount_fault (hfault : fs.disk.faults 0 = true) : ∃ buffer,
    fs.mount = (.error .mountFailMessage1, { fs with
      disk := fs.disk.next
      buffer512 := buffer
      buffer4096 := memsetZero fs.buffer4096 clusterSize }) := by
  have hcount (buffer : Bytes) : (fs.disk.readSector 1 0 buffer).count = 0 := by
    simp only [Disk.readSector, Disk.transferred, hfault, if_true]
  refine ⟨(fs.disk.readSector 1 0 (memsetZero fs.buffer512 sectorSize)).buffer, ?_⟩
  simp only [mount, hcount, if_true]
  rfl

theorem mount_mounted (h : Formatted fs.disk) (hok : fs.disk.faults 0 = false) :
    fs.mount.2.Mounted ∧ fs.mount.2.disk = fs.disk.next ∧ fs.mount.2.bestIdx = 0 := by
  obtain ⟨buffer, heq⟩ := mount_eq h hok
  rw [heq]
  exact ⟨⟨h.congr rfl fun _ _ => rfl, rfl, rfl, rfl, rfl, rfl, Nat.zero_lt_succ 127⟩, rfl, rfl⟩

namespace Mounted

variable (h : fs.Mounted) (hr : fs.disk.Reliable)
include h hr

theorem looked_stores (hl : fs.Looked fs') : fs.Stores fs' fs.disk.data := by
  refine ⟨hl.mounted h, ?_, ?_⟩ <;> obtain ⟨b, b', i, j, n, hj, -, rfl⟩ := hl
  · exact hr.skip_eq n
  · rfl

theorem readRoot_stores : fs.Stores fs.readRoot fs.disk.data :=
  h.looked_stores hr ⟨fs.buffer512, fs.readRoot.buffer4096, fs.bestIdx, fs.bestRootDirIdx, 1,
    h.cursor, by simp, rfl⟩

theorem setClusterLinkTable_stores (hc : c < fs.entries) (v : ℕ) :
    fs.Stores (fs.setClusterLinkTable c v)
      (writeLE fs.disk.data (fs.fatAddress + linkSize * c) 4 v) := by
  have hdisk := h.setClusterLinkTable_disk hr hc (v := v)
  have hfat := h.layout.1
  refine ⟨h.congr (by rw [hdisk]) (fun x hx => ?_) rfl rfl h.cursor, hdisk, rfl⟩
  rw [hdisk]
  exact writeLE_of_not_mem (by omega)

/-- Writing a cluster back: of `data` the buffer holds this cluster, and the rest is as on
the disk. -/
theorem writeCluster_stores (hc : fs.fatInfor.dataAddress + 8 * (c + 1) ≤ fs.disk.totalSector)
    {buffer : Bytes} (hwindow : Window buffer data (fs.rootAddress + clusterSize * c) clusterSize)
    (hout : ∀ x, x < fs.rootAddress + clusterSize * c ∨
      fs.rootAddress + clusterSize * c + clusterSize ≤ x → data x = fs.disk.data x) :
    fs.Stores (fs.writeCluster c buffer) data := by
  have hdisk := writeCluster_disk hr hc buffer
  rw [hwindow.store hout] at hdisk
  obtain ⟨hfat, hroot, -, -⟩ := h.layout
  refine ⟨h.congr (by rw [hdisk]) (fun x hx => ?_) rfl rfl h.cursor, hdisk, rfl⟩
  rw [hdisk]
  exact hout x (by omega)

/-- The same for the root directory and the buffer it is kept in. -/
theorem writeRoot_stores {buffer : Bytes} (hwindow : Window buffer data fs.rootAddress clusterSize)
    (hout : ∀ x, x < fs.rootAddress ∨ fs.rootAddress + clusterSize ≤ x →
      data x = fs.disk.data x) :
    fs.Stores (writeCluster { fs with buffer4096 := buffer } 0 buffer) data := by
  have hm : Mounted { fs with buffer4096 := buffer } :=
    h.congr rfl (fun _ _ => rfl) rfl rfl h.cursor
  have hstores : Stores { fs with buffer4096 := buffer }
      (writeCluster { fs with buffer4096 := buffer } 0 buffer) data := by
    refine hm.writeCluster_stores hr h.root_onDisk ?_ ?_
    · rw [Nat.mul_zero, Nat.add_zero]
      exact hwindow
    · rw [Nat.mul_zero, Nat.add_zero]
      exact hout
  exact ⟨hstores.mounted, hstores.disk, hstores.fatInfor⟩

/-- What `createFile` finds out, in terms of the disk. -/
theorem room_free (hroom : fs.RoomFound fileName d c) : fs.slot d = 0 ∧
    ∃ k, fs.FirstScanned fs.fatInfor.clusterLinkSectorCount k ∧ c = fs.bestIdx + k := by
  have hstores := h.readRoot_stores hr
  have hsearch : fs.atSearch = fs := by rw [atSearch, hr.skip_eq]
  have hfree := hroom.slot_free
  have hcluster := hroom.cluster
  rw [hstores.mounted.entryCluster_readRoot (hstores.reliable hr) hroom.slot_lt] at hfree
  have hdir : fs.readRoot.dir = fs.dir := hstores.dir_stays fun _ _ => rfl
  rw [hsearch] at hcluster
  rw [slot, hdir] at hfree
  exact ⟨hfree, hcluster⟩

/-- A new file: its FAT entry is marked and its directory entry written. -/
theorem createFile_stores (hroom : (fs.findRoom fileName).1 = .ok (d, c)) (hc : c < fs.entries) :
    fs.Stores (fs.createFile fileName).2
      (copyBytes (writeLE fs.disk.data (fs.fatAddress + linkSize * c) 4 0xFFFFFFFF)
        (fs.rootAddress + fileInformationSize * d) (newEntry fileName c) 0
        fileInformationSize) := by
  obtain ⟨hlooked, hfound⟩ := findRoom_spec h.cursor fileName
  have hd := (hfound d c hroom).slot_lt
  have hstores := h.looked_stores hr hlooked
  generalize hfs₁ : (fs.findRoom fileName).2 = fs₁ at hstores
  have hresult : fs.findRoom fileName = (.ok (d, c), fs₁) := Prod.ext hroom hfs₁
  have hset := hstores.mounted.setClusterLinkTable_stores (hstores.reliable hr)
    (hstores.entries_eq ▸ hc) 0xFFFFFFFF
  rw [hstores.fatAddress_eq, hstores.data_eq] at hset
  replace hset := hstores.trans hset
  rw [createFile, hresult]
  obtain ⟨buffer, hread, hwindow⟩ := hset.mounted.readRoot_eq (hset.reliable hr)
  have hroot := hset.mounted.readRoot_stores (hset.reliable hr)
  simp only
  generalize fs₁.setClusterLinkTable c 0xFFFFFFFF = fs₂ at *
  have hbuffer : fs₂.readRoot.buffer4096 = buffer := by rw [hread]
  rw [hbuffer]
  rw [hset.data_eq] at hroot hwindow
  refine (hset.trans hroot).trans (hroot.mounted.writeRoot_stores
    (hroot.reliable (hset.reliable hr)) ?_ fun x hx => ?_)
  · rw [hroot.rootAddress_eq, ← hset.rootAddress_eq]
    exact hwindow.copyBytes
  · rw [hroot.data_eq]
    rw [hroot.rootAddress_eq, hset.rootAddress_eq] at hx
    refine copyBytes_of_not_mem ?_
    simp only [fileInformationSize, maxFileCount, clusterSize] at *
    omega

/-- A deleted file: its FAT entry is cleared, its directory entry loses the cluster and the
first character of the name. -/
theorem deleteFile_stores (hname : fs.readRoot.findName fileName = some i)
    (hi : i < maxFileCount) (hslot : fs.slot i < fs.entries) :
    fs.Stores (fs.deleteFile fileName).2
      (writeLE (writeLE (writeLE fs.disk.data (fs.fatAddress + linkSize * fs.slot i) 4 0)
        (fs.rootAddress + (fileInformationSize * i + clusterIdxOffset)) 4 0)
        (fs.rootAddress + fileInformationSize * i) 1 0xE5) := by
  obtain ⟨buffer, hread, hwindow⟩ := h.readRoot_eq hr
  have hroot := h.readRoot_stores hr
  have hcluster := h.entryCluster_readRoot hr hi
  have hlayout := h.layout
  rw [deleteFile, if_neg (by simp [h.isMounted])]
  simp only [hname, hcluster]
  have hset := hroot.mounted.setClusterLinkTable_stores (hroot.reliable hr)
    (hroot.entries_eq ▸ hslot) 0
  rw [hroot.fatAddress_eq, hroot.data_eq] at hset
  replace hset := hroot.trans hset
  have hbuffer : (fs.readRoot.setClusterLinkTable (fs.slot i) 0).buffer4096 = buffer := by
    rw [hread]
    rfl
  rw [hbuffer]
  refine hset.trans (hset.mounted.writeRoot_stores (hset.reliable hr) ?_ fun x hx => ?_)
  · rw [hset.rootAddress_eq]
    refine (Window.writeLE ?_).writeLE
    refine hwindow.congr fun x hx hx' => writeLE_of_not_mem ?_
    simp only [linkSize, clusterSize] at *
    omega
  · rw [hset.rootAddress_eq] at hx
    simp only [fileInformationSize, clusterIdxOffset, linkSize, maxFileCount, clusterSize] at *
    rw [hset.data_eq, writeLE_of_not_mem (by omega), writeLE_of_not_mem (by omega)]

/-- A written file: its cluster holds the buffer, its directory entry the size. -/
theorem writeFile_stores (hname : fs.readRoot.findFile fileName = some i) (hi : i < maxFileCount)
    (hslot : fs.slot i ≠ 0)
    (hdisk : fs.fatInfor.dataAddress + 8 * (fs.slot i + 1) ≤ fs.disk.totalSector)
    (buffer : Bytes) (size : ℤ) : fs.Stores (fs.writeFile fileName buffer size).2
      (writeLE (copyBytes fs.disk.data (fs.rootAddress + clusterSize * fs.slot i) buffer 0
        clusterSize) (fs.rootAddress + (fileInformationSize * i + fileSizeOffset)) 4
        (dwordOf size)) := by
  obtain ⟨root, hread, hwindow⟩ := h.readRoot_eq hr
  have hroot := h.readRoot_stores hr
  have hcluster := h.entryCluster_readRoot hr hi
  have hlayout := h.layout
  rw [writeFile, if_neg (by simp [h.isMounted])]
  simp only [hname, hcluster]
  have hfirst : clusterSize ≤ clusterSize * fs.slot i :=
    Nat.le_mul_of_pos_right _ (Nat.pos_of_ne_zero hslot)
  have hwrite : fs.Stores (fs.readRoot.writeCluster (fs.slot i) buffer)
      (copyBytes fs.disk.data (fs.rootAddress + clusterSize * fs.slot i) buffer 0
        clusterSize) := by
    refine hroot.trans (hroot.mounted.writeCluster_stores (hroot.reliable hr)
      (by rw [hroot.fatInfor, hroot.disk]; exact hdisk) (fun x hx => ?_) fun x hx => ?_)
    · rw [hroot.rootAddress_eq, copyBytes_of_mem hx, Nat.zero_add]
    · rw [hroot.rootAddress_eq] at hx
      rw [hroot.data_eq, copyBytes_of_not_mem hx]
  have hbuffer : (fs.readRoot.writeCluster (fs.slot i) buffer).buffer4096 = root := by
    rw [hread]
    rfl
  rw [hbuffer]
  refine hwrite.trans (hwrite.mounted.writeRoot_stores (hwrite.reliable hr) ?_ fun x hx => ?_)
  · rw [hwrite.rootAddress_eq]
    refine Window.writeLE (hwindow.congr fun x hx hx' => copyBytes_of_not_mem (by omega))
  · rw [hwrite.rootAddress_eq] at hx
    rw [hwrite.data_eq]
    refine writeLE_of_not_mem ?_
    simp only [fileInformationSize, fileSizeOffset, maxFileCount, clusterSize] at *
    omega

/-- A further `mount` finds the same layout and resets the cursors. -/
theorem mount_stores : fs.Stores fs.mount.2 fs.disk.data := by
  obtain ⟨buffer, heq⟩ := mount_eq h.disk (hr 0)
  obtain ⟨hmounted, hdisk, -⟩ := mount_mounted h.disk (hr 0)
  refine ⟨hmounted, hdisk.trans hr.next_eq, ?_⟩
  rw [heq]
  exact (FatInformation.ext h.freeClusterCount h.linkSectorCount h.linkSectorAddress
    h.dataAddress).symm

/-! The same in terms of the table, the directory and the clusters. -/

theorem createFile_change (hroom : (fs.findRoom fileName).1 = .ok (d, c)) (hc : c < fs.entries) :
    (fs.createFile fileName).2.fat = Function.update fs.fat c 0xFFFFFFFF ∧
      (fs.createFile fileName).2.dir = Function.update fs.dir d (newEntry fileName c) := by
  have hstores := h.createFile_stores hr hroom hc
  have hd := ((findRoom_spec h.cursor fileName).2 d c hroom).slot_lt
  have hlayout := h.layout
  refine ⟨h.fat_writeLE hc 0xFFFFFFFF hstores fun x hx hx' => ?_,
    hstores.dir_update hd (fun x hx => newEntry_of_le hx) (fun x hx => ?_) fun x hx hout => ?_⟩
  · exact copyBytes_of_not_mem (by omega)
  · rw [← Nat.add_assoc, copyBytes_of_mem hx, Nat.zero_add]
  · simp only [fileInformationSize, linkSize] at *
    rw [copyBytes_of_not_mem (by omega), writeLE_of_not_mem (by omega)]

theorem deleteFile_change (hname : fs.readRoot.findName fileName = some i)
    (hi : i < maxFileCount) (hslot : fs.slot i < fs.entries) :
    (fs.deleteFile fileName).2.fat = Function.update fs.fat (fs.slot i) 0 ∧
      (fs.deleteFile fileName).2.dir = Function.update fs.dir i
        (writeLE (writeLE (fs.dir i) clusterIdxOffset 4 0) 0 1 0xE5) := by
  have hstores := h.deleteFile_stores hr hname hi hslot
  have hlayout := h.layout
  simp only [fileInformationSize, clusterIdxOffset, linkSize, maxFileCount] at *
  have hpre : Window (fs.dir i) (writeLE fs.disk.data (fs.fatAddress + 4 * fs.slot i) 4 0)
      (fs.rootAddress + 32 * i) 32 := fun x hx => by
    rw [dir, if_pos ⟨hi, hx⟩, writeLE_of_not_mem (by omega), Nat.add_assoc]
    rfl
  refine ⟨h.fat_writeLE hslot 0 hstores fun x hx hx' => ?_,
    hstores.dir_update hi (fun x hx => ?_) (fun x hx => ?_) fun x hx hout => ?_⟩
  · simp only [linkSize]
    rw [writeLE_of_not_mem (by omega), writeLE_of_not_mem (by omega)]
  · simp only [fileInformationSize] at hx
    rw [writeLE_of_not_mem (by omega), writeLE_of_not_mem (by omega), dir,
      if_neg fun hlt => absurd hlt.2 (by simp only [fileInformationSize]; omega)]
  · have hpost := (hpre.writeLE (o := 28) (k := 4) (v := 0)).writeLE (o := 0) (k := 1) (v := 0xE5)
    rw [hpost x hx]
    simp only [fileInformationSize, Nat.add_assoc, Nat.add_zero]
  · simp only [fileInformationSize, clusterSize] at hx hout
    rw [writeLE_of_not_mem (by omega), writeLE_of_not_mem (by omega),
      writeLE_of_not_mem (by omega)]

theorem writeFile_change (hname : fs.readRoot.findFile fileName = some i) (hi : i < maxFileCount)
    (hslot : fs.slot i ≠ 0)
    (hdisk : fs.fatInfor.dataAddress + 8 * (fs.slot i + 1) ≤ fs.disk.totalSector)
    (buffer : Bytes) (size : ℤ) :
    (fs.writeFile fileName buffer size).2.fat = fs.fat ∧
      (fs.writeFile fileName buffer size).2.dir =
        Function.update fs.dir i (writeLE (fs.dir i) fileSizeOffset 4 (dwordOf size)) ∧
      ∀ c ≠ 0, (fs.writeFile fileName buffer size).2.clusterData c =
        if c = fs.slot i then fun x => if x < clusterSize then buffer x else 0
        else fs.clusterData c := by
  have hstores := h.writeFile_stores hr hname hi hslot hdisk buffer size
  have hlayout := h.layout
  have hfirst : clusterSize ≤ clusterSize * fs.slot i :=
    Nat.le_mul_of_pos_right _ (Nat.pos_of_ne_zero hslot)
  simp only [fileInformationSize, fileSizeOffset, maxFileCount] at *
  simp only [clusterSize] at hfirst hstores
  have hpre : Window (fs.dir i) (copyBytes fs.disk.data (fs.rootAddress + 4096 * fs.slot i) buffer
      0 4096) (fs.rootAddress + 32 * i) 32 := fun x hx => by
    rw [dir, if_pos ⟨hi, hx⟩, copyBytes_of_not_mem (by omega), Nat.add_assoc]
    rfl
  refine ⟨h.fat_stays hstores fun x hx hx' => ?_,
    hstores.dir_update hi (fun x hx => ?_) (fun x hx => ?_) (fun x hx hout => ?_),
    fun c hc => funext fun x => ?_⟩
  · rw [writeLE_of_not_mem (by omega), copyBytes_of_not_mem (by omega)]
  · simp only [fileInformationSize] at hx
    rw [writeLE_of_not_mem (by omega), dir,
      if_neg fun hlt => absurd hlt.2 (by simp only [fileInformationSize]; omega)]
  · rw [hpre.writeLE (o := 24) (k := 4) (v := dwordOf size) x hx]
    simp only [fileInformationSize, Nat.add_assoc]
  · simp only [fileInformationSize, clusterSize] at hx hout
    rw [writeLE_of_not_mem (by omega), copyBytes_of_not_mem (by omega)]
  · rw [hstores.clusterData_eq]
    by_cases hx : x < clusterSize
    · have hx' : x < 4096 := hx
      rw [if_pos hx, writeLE_of_not_mem (by simp only [clusterSize]; omega)]
      split
      next heq =>
        simp only [if_pos hx]
        rw [heq, clusterSize, copyBytes_of_mem hx', Nat.zero_add]
      next hne =>
        have hapart : 4096 * c + 4096 ≤ 4096 * fs.slot i ∨ 4096 * fs.slot i + 4096 ≤ 4096 * c := by
          omega
        rw [clusterData, if_pos hx]
        exact copyBytes_of_not_mem (by simp only [clusterSize]; omega)
    · rw [if_neg hx]
      split
      · simp only [if_neg hx]
      · rw [clusterData, if_neg hx]

end Mounted

end FileSystem
end SkhuOS
