import SkhuOS.FS.Faults
import SkhuOS.FS.Clusters

/-! File operations and their areas of the disk, whatever transfers fail. The clusters in the
directory, and in the copies of it in memory, lie on the disk as long as the searches stop at
an entry that leads to such a cluster. -/
namespace SkhuOS
open Foundation

namespace FileSystem

variable {fs fs' : FileSystem} {op : Operation} {fileName : CString} {buffer : Bytes}
  {c d i v : ℕ} {x : ℕ}

/-- The data of cluster `c` lies on the disk. -/
def OnDisk (fs : FileSystem) (c : ℕ) : Prop :=
  fs.fatInfor.dataAddress + 8 * (c + 1) ≤ fs.disk.totalSector

instance (fs : FileSystem) (c : ℕ) : Decidable (fs.OnDisk c) :=
  inferInstanceAs (Decidable (_ ≤ _))

/-- All clusters in a copy of the directory do. -/
def SafeBuffer (fs : FileSystem) (buffer : Bytes) : Prop :=
  ∀ i < maxFileCount, fs.OnDisk (clusterIn buffer i)

structure Safe (fs : FileSystem) : Prop where
  mounted : fs.Mounted
  slots : ∀ i < maxFileCount, fs.OnDisk (fs.slot i)
  buffer : fs.SafeBuffer fs.buffer4096

/-- A state with the same layout that differs on the disk in the given range only. -/
structure Inside (fs fs' : FileSystem) (start stop : ℕ) : Prop where
  totalSector : fs'.disk.totalSector = fs.disk.totalSector
  fatInfor : fs'.fatInfor = fs.fatInfor
  data : ∀ x, x < start ∨ stop ≤ x → fs'.disk.data x = fs.disk.data x

theorem Inside.trans {fs'' : FileSystem} {a b : ℕ} (h : fs.Inside fs' a b)
    (h' : fs'.Inside fs'' a b) : fs.Inside fs'' a b :=
  ⟨h'.totalSector.trans h.totalSector, h'.fatInfor.trans h.fatInfor,
    fun x hx => (h'.data x hx).trans (h.data x hx)⟩

theorem Inside.mono {a b a' b' : ℕ} (h : fs.Inside fs' a b) (ha : a' ≤ a) (hb : b ≤ b') :
    fs.Inside fs' a' b' :=
  ⟨h.totalSector, h.fatInfor, fun x hx => h.data x (by omega)⟩

theorem Inside.onDisk {a b : ℕ} (h : fs.Inside fs' a b) : fs'.OnDisk c ↔ fs.OnDisk c := by
  rw [OnDisk, OnDisk, h.totalSector, h.fatInfor]

theorem Inside.mounted {a b : ℕ} (h : fs.Inside fs' a b) (hm : fs.Mounted) (ha : 512 ≤ a)
    (hmounted : fs'.isMounted = fs.isMounted) (hcursor : fs'.bestRootDirIdx < maxFileCount) :
    fs'.Mounted :=
  hm.congr h.totalSector (fun x hx => h.data x (by omega)) h.fatInfor hmounted hcursor

theorem Inside.slot_eq {a b : ℕ} (h : fs.Inside fs' a b)
    (hroot : b ≤ fs.rootAddress ∨ fs.rootAddress + clusterSize ≤ a) (hi : i < maxFileCount) :
    fs'.slot i = fs.slot i := by
  rw [FileSystem.slot_eq fs hi, FileSystem.slot_eq fs' hi, show fs'.rootAddress = fs.rootAddress by
    simp only [rootAddress, h.fatInfor]]
  simp only [fileInformationSize, clusterIdxOffset, maxFileCount, clusterSize] at *
  exact readLE_congr fun x hx hx' => h.data x (by omega)

/-- A cluster on the disk has an entry in the FAT: there is one for each data sector. -/
theorem Mounted.onDisk_lt (h : fs.Mounted) (hc : fs.OnDisk c) : c < fs.entries := by
  have hbound := (linkSectorCountFor_bounds fs.disk.totalSector).2
  rw [h.entries_eq, h.dataAddress]
  rw [OnDisk, h.dataAddress] at hc
  omega

namespace Safe

variable (h : fs.Safe)
include h

theorem readRoot_buffer : fs.SafeBuffer fs.readRoot.buffer4096 := by
  rcases h.mounted.readRoot_cases with ⟨-, hbuffer⟩ | ⟨-, hwindow⟩
  · rw [hbuffer]
    exact h.buffer
  · intro i hi
    rw [clusterIn_window hwindow hi, ← slot_eq fs hi]
    exact h.slots i hi

/-- Looking moves the buffer to a copy of the directory on the disk, at most. -/
theorem of_buffer (hinside : fs.Inside fs' 0 0) (hmounted : fs'.Mounted)
    (hbuffer : fs.SafeBuffer fs'.buffer4096) : fs'.Safe :=
  ⟨hmounted, fun i hi => hinside.onDisk.mpr (by
    rw [hinside.slot_eq (.inl (Nat.zero_le _)) hi]
    exact h.slots i hi), fun i hi => hinside.onDisk.mpr (hbuffer i hi)⟩

theorem readRoot : fs.readRoot.Safe :=
  h.of_buffer ⟨rfl, rfl, fun _ _ => rfl⟩ (h.mounted.congr rfl (fun _ _ => rfl) rfl rfl
    h.mounted.cursor) h.readRoot_buffer

theorem looked (hl : fs.Looked fs') : fs'.Safe := by
  have hmounted := hl.mounted h.mounted
  obtain ⟨b, b', i, j, n, hj, hb', rfl⟩ := hl
  refine h.of_buffer ⟨rfl, rfl, fun _ _ => rfl⟩ hmounted ?_
  rcases List.mem_cons.mp hb' with rfl | hb'
  · exact h.buffer
  rcases List.mem_cons.mp hb' with rfl | hb'
  · exact h.readRoot_buffer
  · rw [List.mem_singleton.mp hb']
    exact fun i hi => h.readRoot.readRoot_buffer i hi

/-- Setting a FAT entry of a cluster on the disk changes the FAT only. -/
theorem setClusterLinkTable (hc : fs.OnDisk c) :
    fs.Inside (fs.setClusterLinkTable c v) 512 fs.rootAddress ∧
      (fs.setClusterLinkTable c v).Safe := by
  have hlt := h.mounted.onDisk_lt hc
  have hend := (h.mounted.link_onDisk hlt).2
  rw [h.mounted.linkSectorAddress] at hend
  have hinside : fs.Inside (fs.setClusterLinkTable c v) 512 fs.rootAddress :=
    ⟨rfl, rfl, fun x hx => h.mounted.setClusterLinkTable_frame hlt (by omega)⟩
  refine ⟨hinside, hinside.mounted h.mounted (Nat.le_refl _) rfl h.mounted.cursor,
    fun i hi => hinside.onDisk.mpr ?_, h.buffer⟩
  rw [hinside.slot_eq (.inl (Nat.le_refl _)) hi]
  exact h.slots i hi

/-- Writing back a copy of the directory with clusters on the disk. -/
theorem writeRoot (hbuffer : fs.SafeBuffer buffer) :
    fs.Inside (writeCluster { fs with buffer4096 := buffer } 0 buffer) fs.rootAddress
      (fs.rootAddress + clusterSize) ∧
      (writeCluster { fs with buffer4096 := buffer } 0 buffer).Safe := by
  have hlayout := h.mounted.layout
  have hdata := h.mounted.writeRoot_data buffer
  have hinside : fs.Inside (FileSystem.writeCluster { fs with buffer4096 := buffer } 0 buffer)
      fs.rootAddress (fs.rootAddress + clusterSize) := by
    refine ⟨rfl, rfl, fun x hx => ?_⟩
    rw [hdata]
    split
    · rfl
    · exact copyBytes_of_not_mem hx
  refine ⟨hinside, hinside.mounted h.mounted (by omega) rfl h.mounted.cursor,
    fun i hi => hinside.onDisk.mpr ?_, fun i hi => hinside.onDisk.mpr (hbuffer i hi)⟩
  rw [slot_eq _ hi, hdata]
  split
  · have hold := h.slots i hi
    rw [slot_eq _ hi] at hold
    exact hold
  · have hwindow : Window buffer (Foundation.copyBytes fs.disk.data fs.rootAddress buffer 0
        clusterSize) fs.rootAddress clusterSize := fun x hx => by
      rw [copyBytes_of_mem hx, Nat.zero_add]
    have hnew := hbuffer i hi
    rw [clusterIn_window hwindow hi] at hnew
    exact hnew

/-- Writing a data cluster on the disk. -/
theorem writeCluster (buffer : Bytes) (hc : fs.OnDisk c) (hpos : c ≠ 0) : (fs.writeCluster c buffer).Safe := by
  have hlayout := h.mounted.layout
  have hfirst : clusterSize ≤ clusterSize * c := Nat.le_mul_of_pos_right _ (Nat.pos_of_ne_zero hpos)
  have hinside : fs.Inside (fs.writeCluster c buffer) (fs.rootAddress + clusterSize * c)
      (fs.rootAddress + clusterSize * c + clusterSize) :=
    ⟨rfl, rfl, fun x hx => writeCluster_frame hc buffer hx⟩
  refine ⟨hinside.mounted h.mounted (by omega) rfl h.mounted.cursor,
    fun i hi => hinside.onDisk.mpr ?_, h.buffer⟩
  rw [hinside.slot_eq (.inr (by omega)) hi]
  exact h.slots i hi

theorem empty (hzero : ∀ x < clusterSize, buffer x = 0) : fs.SafeBuffer buffer := fun i hi => by
  have hcluster : clusterIn buffer i = 0 := readLE_eq_zero.mpr fun x hx => hzero _ (by
    simp only [maxFileCount, fileInformationSize, clusterIdxOffset, clusterSize] at hi ⊢
    omega)
  rw [hcluster]
  exact h.mounted.root_onDisk

/-- A new entry in the copy. -/
theorem newEntry (fileName : CString) (hbuffer : fs.SafeBuffer buffer) (hc : fs.OnDisk c) :
    fs.SafeBuffer (copyBytes buffer (fileInformationSize * d) (newEntry fileName c) 0
      fileInformationSize) := fun i hi => by
  have hlt := (h.mounted.onDisk_lt hc).trans h.mounted.layout.2.2.2
  have hold := hbuffer i hi
  simp only [clusterIn, fileInformationSize] at hold ⊢
  by_cases hid : i = d
  · have hnew : readLE (FileSystem.newEntry fileName c) (0 + clusterIdxOffset) 4 = c := by
      rw [Nat.zero_add, newEntry_cluster hlt]
    rw [hid, readLE_copyBytes (by decide), hnew]
    exact hc
  · rw [readLE_copyBytes_disjoint (by simp only [clusterIdxOffset]; omega)]
    exact hold

omit h in
/-- A store into an entry that is no part of its cluster. -/
theorem otherField {a k : ℕ} (hbuffer : fs.SafeBuffer buffer)
    (ha : ∀ i, fileInformationSize * i + clusterIdxOffset + 4 ≤ a ∨
      a + k ≤ fileInformationSize * i + clusterIdxOffset) :
    fs.SafeBuffer (writeLE buffer a k v) := fun i hi => by
  rw [clusterIn, readLE_writeLE_disjoint (ha i)]
  exact hbuffer i hi

theorem clearedCluster (hbuffer : fs.SafeBuffer buffer) :
    fs.SafeBuffer (writeLE buffer (fileInformationSize * d + clusterIdxOffset) 4 0) := fun i hi => by
  have hold := hbuffer i hi
  simp only [clusterIn, fileInformationSize] at hold ⊢
  by_cases hid : i = d
  · rw [hid, readLE_writeLE]
    exact h.mounted.root_onDisk
  · rw [readLE_writeLE_disjoint (by simp only [clusterIdxOffset]; omega)]
    exact hold

end Safe

/-- A search that either meets an entry which leads to a cluster on the disk, or no zero
word at all while the cursor stays an `int`. -/
def SearchConfined (fs : FileSystem) : Operation → Prop
  | .createFile fileName => fs.Searches fileName →
    (fs.atSearch.NothingScanned fs.fatInfor.clusterLinkSectorCount ∧
      fs.bestIdx + fs.entries < 2 ^ 31) ∨
    ∃ e, fs.sectorStart ≤ e ∧ fs.atSearch.scanned (e - fs.sectorStart) = 0 ∧
      fs.OnDisk (e + fs.cursorOffset)
  | _ => True

theorem SearchConfined.room (h : fs.SearchConfined (.createFile fileName))
    (hfound : fs.RoomFound fileName d c) : fs.OnDisk c := by
  obtain ⟨k, hk, rfl⟩ := hfound.cluster
  rcases h hfound.searches with ⟨hnothing, -⟩ | ⟨e, hstart, hzero, hdisk⟩
  · exact absurd hk.zero (hnothing k hk.lt)
  · have hle : k ≤ e - fs.sectorStart := by
      by_contra hgt
      exact hk.first _ (by omega) hzero
    have hcursor := fs.bestIdx_eq
    simp only [OnDisk] at hdisk ⊢
    omega

namespace Safe

variable (h : fs.Safe)
include h

/-- `createFile` changes the FAT and the root directory only. -/
theorem createFile (hok : fs.SearchConfined (.createFile fileName)) :
    fs.Inside (fs.createFile fileName).2 512 (fs.rootAddress + clusterSize) ∧
      (fs.createFile fileName).2.Safe := by
  obtain ⟨hlooked, hfound⟩ := findRoom_spec h.mounted.cursor fileName
  have hsafe := h.looked hlooked
  have hinside : fs.Inside (fs.findRoom fileName).2 512 (fs.rootAddress + clusterSize) := by
    obtain ⟨b, b', i, j, n, -, -, heq⟩ := hlooked
    rw [heq]
    exact ⟨rfl, rfl, fun _ _ => rfl⟩
  cases hresult : (fs.findRoom fileName).1 with
  | error message =>
    rw [createFile_error hresult]
    exact ⟨hinside, hsafe⟩
  | ok room =>
    obtain ⟨d, c⟩ := room
    have hc := hinside.onDisk.mpr (hok.room (hfound d c hresult))
    have heq : fs.findRoom fileName = (.ok (d, c), (fs.findRoom fileName).2) :=
      Prod.ext hresult rfl
    rw [FileSystem.createFile, heq]
    generalize (fs.findRoom fileName).2 = fs₁ at hsafe hinside hc
    obtain ⟨hset, hsafe₂⟩ := hsafe.setClusterLinkTable hc (v := 0xFFFFFFFF)
    simp only
    generalize fs₁.setClusterLinkTable c 0xFFFFFFFF = fs₂ at hset hsafe₂
    have hsafe₃ := hsafe₂.readRoot
    have hc₃ : fs₂.readRoot.OnDisk c := hset.onDisk.mpr hc
    obtain ⟨hwrite, hdone⟩ := hsafe₃.writeRoot
      (hsafe₃.newEntry fileName hsafe₃.buffer hc₃ (d := d))
    have hroot : fs₂.readRoot.rootAddress = fs.rootAddress := by
      have hinfor : fs₂.readRoot.fatInfor = fs.fatInfor := hset.fatInfor.trans hinside.fatInfor
      rw [rootAddress, hinfor, rootAddress]
    have hlayout := h.mounted.layout
    have hroot₁ : fs₁.rootAddress = fs.rootAddress := by
      rw [rootAddress, hinside.fatInfor, rootAddress]
    rw [hroot] at hwrite
    rw [hroot₁] at hset
    have hread : fs₂.Inside fs₂.readRoot 512 (fs.rootAddress + clusterSize) :=
      ⟨rfl, rfl, fun _ _ => rfl⟩
    exact ⟨((hinside.trans (hset.mono (Nat.le_refl _) (by omega))).trans hread).trans
      (hwrite.mono (by omega) (Nat.le_refl _)), hdone⟩

theorem deleteFile : (fs.deleteFile fileName).2.Safe ∧
    ∀ i, fs.readRoot.findName fileName = some i → fs.OnDisk (fs.readRoot.entryCluster i) := by
  have hroot := h.readRoot
  have hcluster (i : ℕ) (hname : fs.readRoot.findName fileName = some i) :
      fs.OnDisk (fs.readRoot.entryCluster i) := hroot.buffer i (findName_some hname).1
  refine ⟨?_, hcluster⟩
  rw [FileSystem.deleteFile, if_neg (by simp [h.mounted.isMounted])]
  simp only
  split
  · exact hroot
  next i hname =>
    have hset := (hroot.setClusterLinkTable (hcluster i hname) (v := 0)).2
    refine (hset.writeRoot (otherField (hset.clearedCluster hset.buffer) fun j => ?_)).2
    simp only [fileInformationSize, clusterIdxOffset]
    omega

theorem writeFile (size : ℤ) : (fs.writeFile fileName buffer size).2.Safe := by
  have hroot := h.readRoot
  rw [FileSystem.writeFile, if_neg (by simp [h.mounted.isMounted])]
  simp only
  split
  · exact hroot
  next i hname =>
    obtain ⟨hi, hlive, -, -⟩ := findFile_some hname
    have hwrite := hroot.writeCluster buffer (hroot.buffer i hi) hlive
    refine (hwrite.writeRoot (otherField hwrite.buffer fun j => ?_)).2
    simp only [fileInformationSize, clusterIdxOffset, fileSizeOffset]
    omega

theorem mount : fs.mount.2.Safe := by
  have hbuffer : fs.SafeBuffer (memsetZero fs.buffer4096 clusterSize) :=
    h.empty fun x hx => if_pos hx
  cases hfault : fs.disk.faults 0 with
  | true =>
    obtain ⟨b, heq⟩ := mount_fault hfault
    rw [heq]
    exact h.of_buffer ⟨rfl, rfl, fun _ _ => rfl⟩ (h.mounted.congr rfl (fun _ _ => rfl) rfl rfl
      h.mounted.cursor) hbuffer
  | false =>
    obtain ⟨b, heq⟩ := mount_eq h.mounted.disk hfault
    have hmounted := (mount_mounted h.mounted.disk hfault).1
    rw [heq] at hmounted ⊢
    refine h.of_buffer ⟨rfl, ?_, fun _ _ => rfl⟩ hmounted hbuffer
    exact (FatInformation.ext h.mounted.freeClusterCount h.mounted.linkSectorCount
      h.mounted.linkSectorAddress h.mounted.dataAddress).symm

theorem operate (hok : fs.SearchConfined op) : (fs.operate op).Safe := by
  cases op with
  | mount => exact h.mount
  | createFile fileName => exact (h.createFile hok).2
  | deleteFile fileName => exact h.deleteFile.1
  | readFile fileName buffer =>
    simp only [FileSystem.operate, readFile, h.mounted.isMounted, Bool.not_true,
      Bool.false_eq_true, if_false]
    have hroot := h.readRoot
    split
    · exact hroot
    · exact hroot.of_buffer ⟨rfl, rfl, fun _ _ => rfl⟩ (hroot.mounted.congr rfl (fun _ _ => rfl)
        rfl rfl hroot.mounted.cursor) hroot.buffer
  | writeFile fileName buffer size => exact h.writeFile size

end Safe

/-- The state behind a successful `format` and `mount`. -/
theorem safe_of_format {fs₁ fs₂ : FileSystem} (hformat : fs.format = (true, fs₁))
    (hmount : fs₁.mount = (.ok (), fs₂)) : fs₂.Safe := by
  obtain ⟨hsame, hformatted, -, hrest, -⟩ := format_spec hformat
  have hok : fs₁.disk.faults 0 = false := by
    by_contra hfault
    obtain ⟨b, heq⟩ := mount_fault (Bool.eq_true_of_not_eq_false hfault)
    exact nomatch (congrArg Prod.fst heq).symm.trans (congrArg Prod.fst hmount)
  obtain ⟨b, heq⟩ := mount_eq hformatted hok
  obtain ⟨hmounted, hdisk, -⟩ := mount_mounted hformatted hok
  have hresult : fs₁.mount.2 = fs₂ := congrArg Prod.snd hmount
  rw [hresult] at hmounted hdisk
  have hslot (i : ℕ) (hi : i < maxFileCount) : fs₂.slot i = 0 := by
    rw [slot_eq _ hi, rootAddress, hmounted.dataAddress, hdisk, show
      fs₁.disk.next.totalSector = fs.disk.totalSector from hsame]
    refine readLE_eq_zero.mpr fun x hx => hrest _ ?_ ?_ <;>
      simp only [maxFileCount, fileInformationSize, clusterIdxOffset, sectorSize] at hi ⊢ <;>
      omega
  refine ⟨hmounted, fun i hi => by rw [hslot i hi]; exact hmounted.root_onDisk, fun i hi => ?_⟩
  have hzero : clusterIn fs₂.buffer4096 i = 0 := by
    rw [← hresult, heq]
    refine readLE_eq_zero.mpr fun x hx => if_pos ?_
    simp only [maxFileCount, fileInformationSize, clusterIdxOffset, clusterSize] at hi ⊢
    omega
  rw [hzero]
  exact hmounted.root_onDisk

/-- The sector of a FAT entry lies before the data area. -/
theorem Mounted.link_inFat (h : fs.Mounted) (hc : fs.OnDisk c) :
    c < fs.fatInfor.clusterLinkSectorCount * 128 ∧
      fs.fatInfor.clusterLinkSectorAddress + c / 128 < fs.fatInfor.dataAddress := by
  have hlt := h.onDisk_lt hc
  have hentries := h.entries_eq
  refine ⟨hlt, ?_⟩
  rw [h.linkSectorAddress]
  omega

/-- From a successful `format` and `mount` on, as long as every search meets the condition,
clusters lie in the FAT and on the disk, `setClusterLinkTable` writes sectors of the FAT and
`createFile` changes the FAT and the root directory only. -/
theorem files_confined {fs₁ fs₂ fs₃ : FileSystem} {history : List (Move FileSystem Operation)}
    (hformat : fs.format = (true, fs₁)) (hmount : fs₁.mount = (.ok (), fs₂))
    (hrun : Run step SearchConfined fs₂ history fs₃) :
    (∀ i, fs₃.slot i ≠ 0 → fs₃.slot i < fs₃.fatInfor.clusterLinkSectorCount * 128 ∧
      fs₃.fatInfor.dataAddress + 8 * (fs₃.slot i + 1) ≤ fs₃.disk.totalSector) ∧
    ∀ m ∈ history, ∀ fileName,
      (m.label = .createFile fileName → (∀ d c, (m.before.findRoom fileName).1 = .ok (d, c) →
          c < m.before.fatInfor.clusterLinkSectorCount * 128 ∧
          m.before.fatInfor.dataAddress + 8 * (c + 1) ≤ m.before.disk.totalSector ∧
          m.before.fatInfor.clusterLinkSectorAddress + c / 128 < m.before.fatInfor.dataAddress) ∧
        ∀ x, x < m.before.fatAddress ∨ m.before.rootAddress + clusterSize ≤ x →
          m.after.disk.data x = m.before.disk.data x) ∧
      (m.label = .deleteFile fileName → ∀ i, m.before.readRoot.findName fileName = some i →
        m.before.fatInfor.clusterLinkSectorAddress + m.before.readRoot.entryCluster i / 128 <
          m.before.fatInfor.dataAddress) := by
  obtain ⟨hbefore, hsafe⟩ := hrun.invariant_moves (safe_of_format hformat hmount)
    fun t op u hsafe hok hstep => Option.some.inj hstep ▸ hsafe.operate hok
  refine ⟨fun i hi => ?_, fun m hm fileName => ⟨fun hlabel => ⟨fun d c hroom => ?_, fun x hx => ?_⟩,
    fun hlabel i hname => ?_⟩⟩
  · have hdisk := hsafe.slots i (slot_lt hi)
    exact ⟨(hsafe.mounted.link_inFat hdisk).1, hdisk⟩
  all_goals
    have hm' := hbefore m hm
    obtain ⟨hok, hstep⟩ := hrun.move_mem hm
    rw [hlabel] at hok hstep
  · have hdisk := hok.room ((findRoom_spec hm'.mounted.cursor fileName).2 d c hroom)
    exact ⟨(hm'.mounted.link_inFat hdisk).1, hdisk, (hm'.mounted.link_inFat hdisk).2⟩
  · rw [← Option.some.inj hstep]
    rw [hm'.mounted.layout.1] at hx
    exact (hm'.createFile hok).1.data x hx
  · exact (hm'.mounted.link_inFat (hm'.deleteFile.2 i hname)).2

theorem files_confined_first : (small.operate (.createFile [0x61])).slot 0 <
      (small.operate (.createFile [0x61])).fatInfor.clusterLinkSectorCount * 128 ∧
    (small.operate (.createFile [0x61])).fatInfor.dataAddress +
      8 * ((small.operate (.createFile [0x61])).slot 0 + 1) ≤
        (small.operate (.createFile [0x61])).disk.totalSector := by
  have hok : small.SearchConfined (.createFile [0x61]) :=
    fun _ => .inr ⟨1, by decide +kernel⟩
  exact (files_confined small_format small_mount (.next .start hok rfl)).1 0 (by decide +kernel)

/-- A disk of 10 sectors has room for the root directory only, and `createFile` hands out
cluster 1 behind its end. -/
theorem cluster_offDisk : (blank 10 (by decide)).format.1 = true ∧
    (blank 10 (by decide)).format.2.mount.2.isMounted = true ∧
    ((blank 10 (by decide)).format.2.mount.2.operate (.createFile [0x61])).slot 0 = 1 ∧
    ((blank 10 (by decide)).format.2.mount.2.operate (.createFile [0x61])).disk.totalSector = 10 ∧
    ((blank 10 (by decide)).format.2.mount.2.operate (.createFile [0x61])).fatInfor.dataAddress = 2 := by
  decide +kernel

end FileSystem
end SkhuOS
