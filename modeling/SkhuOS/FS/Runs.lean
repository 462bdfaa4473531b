import SkhuOS.Foundation.Allocation
import SkhuOS.Foundation.Transition
import SkhuOS.FS.Names

/-! Runs of file operations on a mounted disk, and what one operation does to the FAT and
the directory. -/
namespace SkhuOS
open Foundation

namespace FileSystem

inductive Operation
  | mount
  | createFile (fileName : CString)
  | deleteFile (fileName : CString)
  | readFile (fileName : CString) (buffer : Bytes)
  | writeFile (fileName : CString) (buffer : Bytes) (size : ℤ)

/-- The state an operation leaves. -/
def operate (fs : FileSystem) : Operation → FileSystem
  | .mount => fs.mount.2
  | .createFile fileName => (fs.createFile fileName).2
  | .deleteFile fileName => (fs.deleteFile fileName).2
  | .readFile fileName buffer => (fs.readFile fileName buffer).2
  | .writeFile fileName buffer size => (fs.writeFile fileName buffer size).2

def step (fs : FileSystem) (op : Operation) : Option FileSystem := some (fs.operate op)

variable {fs fs' : FileSystem} {op : Operation} {fileName : CString} {c d e i k : ℕ}

/-- A mounted file system on a device that fails no transfer, whose live entries have their
clusters in the FAT. -/
structure Ready (fs : FileSystem) : Prop where
  mounted : fs.Mounted
  reliable : fs.disk.Reliable
  slot_lt : ∀ i, fs.slot i < fs.entries

/-- What an operation writes lies on the disk. -/
def WritesOnDisk (fs : FileSystem) : Operation → Prop
  | .writeFile fileName _ _ => ∀ i, fs.readRoot.findFile fileName = some i →
    fs.fatInfor.dataAddress + 8 * (fs.slot i + 1) ≤ fs.disk.totalSector
  | _ => True

/-- Where an operation marks a cluster, the cluster has an entry in the FAT. -/
def MarksInFat (fs : FileSystem) : Operation → Prop
  | .createFile fileName => ∀ d c, (fs.findRoom fileName).1 = .ok (d, c) → c < fs.entries
  | _ => True

/-- The operation gets as far as changing the disk. -/
def Changes (fs : FileSystem) : Operation → Prop
  | .createFile fileName => ∃ room, (fs.findRoom fileName).1 = .ok room
  | .deleteFile fileName => ∃ i, fs.readRoot.findName fileName = some i
  | .writeFile fileName _ _ => ∃ i, fs.readRoot.findFile fileName = some i
  | _ => False

/-- What an operation can do. -/
inductive Change (fs fs' : FileSystem) : Operation → Prop
  | still {op : Operation} (hquiet : ¬ fs.Changes op) (hdisk : fs'.disk = fs.disk) : Change fs fs' op
  | created {fileName : CString} {d c : ℕ} (hroom : (fs.findRoom fileName).1 = .ok (d, c))
      (hfound : fs.RoomFound fileName d c)
      (hfat : fs'.fat = Function.update fs.fat c 0xFFFFFFFF)
      (hdir : fs'.dir = Function.update fs.dir d (newEntry fileName c)) :
      Change fs fs' (.createFile fileName)
  | deleted {fileName : CString} {i : ℕ} (hname : fs.readRoot.findName fileName = some i)
      (hfat : fs'.fat = Function.update fs.fat (fs.slot i) 0)
      (hdir : fs'.dir = Function.update fs.dir i
        (writeLE (writeLE (fs.dir i) clusterIdxOffset 4 0) 0 1 0xE5)) :
      Change fs fs' (.deleteFile fileName)
  | written {fileName : CString} {buffer : Bytes} {size : ℤ} {i : ℕ}
      (hname : fs.readRoot.findFile fileName = some i)
      (hfat : fs'.fat = fs.fat)
      (hdir : fs'.dir = Function.update fs.dir i
        (writeLE (fs.dir i) fileSizeOffset 4 (dwordOf size))) :
      Change fs fs' (.writeFile fileName buffer size)

theorem fat_congr (hdisk : fs'.disk = fs.disk) (hinfor : fs'.fatInfor = fs.fatInfor) :
    fs'.fat = fs.fat := by
  funext c
  rw [fat, fat, hdisk, show fs'.entries = fs.entries by simp only [entries, hinfor],
    show fs'.fatAddress = fs.fatAddress by simp only [fatAddress, hinfor]]

theorem dir_congr (hdisk : fs'.disk = fs.disk) (hinfor : fs'.fatInfor = fs.fatInfor) :
    fs'.dir = fs.dir := by
  funext i x
  rw [dir, dir, hdisk, show fs'.rootAddress = fs.rootAddress by simp only [rootAddress, hinfor]]

/-- Reading a file only looks. -/
theorem Mounted.readFile_looked (h : fs.Mounted) (fileName : CString) (buffer : Bytes) :
    fs.Looked (fs.operate (.readFile fileName buffer)) := by
  simp only [operate, readFile, h.isMounted, Bool.not_true, Bool.false_eq_true, if_false]
  split
  · exact ⟨fs.buffer512, fs.readRoot.buffer4096, _, _, 1, h.cursor, by simp, rfl⟩
  · exact ⟨fs.buffer512, fs.readRoot.buffer4096, _, _, 2, h.cursor, by simp, rfl⟩

/-- One operation: what it keeps, and what it changes. -/
theorem Ready.operate_spec (h : fs.Ready) (hroom : fs.MarksInFat op) (hdisk : fs.WritesOnDisk op) :
    (∃ data, fs.Stores (fs.operate op) data) ∧ fs.Change (fs.operate op) op := by
  have hm := h.mounted
  have hr := h.reliable
  have hroot := hm.readRoot_stores hr
  cases op with
  | mount => exact ⟨⟨_, hm.mount_stores hr⟩, .still id (hm.mount_stores hr).disk⟩
  | createFile fileName =>
    obtain ⟨hlooked, hfound⟩ := findRoom_spec hm.cursor fileName
    cases hresult : (fs.findRoom fileName).1 with
    | error message =>
      have hstores := hm.looked_stores hr hlooked
      simp only [operate, createFile_error hresult]
      refine ⟨⟨_, hstores⟩, .still ?_ hstores.disk⟩
      rintro ⟨room, hroom⟩
      cases hresult.symm.trans hroom
    | ok room =>
      obtain ⟨d, c⟩ := room
      have hc := hroom d c hresult
      obtain ⟨hfat, hdir⟩ := hm.createFile_change hr hresult hc
      exact ⟨⟨_, hm.createFile_stores hr hresult hc⟩,
        .created hresult (hfound d c hresult) hfat hdir⟩
  | deleteFile fileName =>
    cases hname : fs.readRoot.findName fileName with
    | none =>
      have hdelete : fs.operate (.deleteFile fileName) = fs.readRoot := by
        simp only [operate, deleteFile, hm.isMounted, hname, Bool.not_true, Bool.false_eq_true,
          if_false]
      rw [hdelete]
      refine ⟨⟨_, hroot⟩, .still ?_ hroot.disk⟩
      rintro ⟨i, hi⟩
      cases hname.symm.trans hi
    | some i =>
      have hi := (findName_some hname).1
      obtain ⟨hfat, hdir⟩ := hm.deleteFile_change hr hname hi (h.slot_lt i)
      exact ⟨⟨_, hm.deleteFile_stores hr hname hi (h.slot_lt i)⟩, .deleted hname hfat hdir⟩
  | readFile fileName buffer =>
    have hstores := hm.looked_stores hr (hm.readFile_looked fileName buffer)
    exact ⟨⟨_, hstores⟩, .still id hstores.disk⟩
  | writeFile fileName buffer size =>
    cases hname : fs.readRoot.findFile fileName with
    | none =>
      have hwrite : fs.operate (.writeFile fileName buffer size) = fs.readRoot := by
        simp only [operate, writeFile, hm.isMounted, hname, Bool.not_true, Bool.false_eq_true,
          if_false]
      rw [hwrite]
      refine ⟨⟨_, hroot⟩, .still ?_ hroot.disk⟩
      rintro ⟨i, hi⟩
      cases hname.symm.trans hi
    | some i =>
      obtain ⟨hi, hlive, -, -⟩ := findFile_some hname
      rw [hm.entryCluster_readRoot hr hi] at hlive
      obtain ⟨hfat, hdir, -⟩ := hm.writeFile_change hr hname hi hlive (hdisk i hname) buffer size
      exact ⟨⟨_, hm.writeFile_stores hr hname hi hlive (hdisk i hname) buffer size⟩,
        .written hname hfat hdir⟩

/-- The clusters of the entries follow the directory. -/
theorem slot_of_dir {entry : Bytes} (hdir : fs'.dir = Function.update fs.dir i entry) :
    fs'.slot = Function.update fs.slot i (readLE entry clusterIdxOffset 4) := by
  funext j
  rw [slot, hdir]
  by_cases hji : j = i
  · rw [hji, Function.update_self, Function.update_self]
  · rw [Function.update_of_ne hji, Function.update_of_ne hji, slot]

theorem slot_created (hdir : fs'.dir = Function.update fs.dir d (newEntry fileName c))
    (hc : c < 2 ^ 32) : fs'.slot = Function.update fs.slot d c := by
  rw [slot_of_dir hdir, newEntry_cluster hc]

theorem slot_deleted (hdir : fs'.dir = Function.update fs.dir i
    (writeLE (writeLE (fs.dir i) clusterIdxOffset 4 0) 0 1 0xE5)) :
    fs'.slot = Function.update fs.slot i 0 := by
  rw [slot_of_dir hdir, readLE_writeLE_disjoint (by decide), readLE_writeLE]
  rfl

theorem slot_written {v : ℕ} (hdir : fs'.dir = Function.update fs.dir i
    (writeLE (fs.dir i) fileSizeOffset 4 v)) : fs'.slot = fs.slot := by
  rw [slot_of_dir hdir, readLE_writeLE_disjoint (by decide)]
  exact Function.update_eq_self i fs.slot

/-- A ready file system stays one. -/
theorem Ready.operate (h : fs.Ready) (hroom : fs.MarksInFat op) (hdisk : fs.WritesOnDisk op) :
    (fs.operate op).Ready := by
  obtain ⟨⟨data, hstores⟩, hchange⟩ := h.operate_spec hroom hdisk
  refine ⟨hstores.mounted, hstores.reliable h.reliable, ?_⟩
  rw [hstores.entries_eq]
  generalize fs.operate op = fs' at hstores hchange
  have hupdate {j v : ℕ} (hv : v < fs.entries) (i : ℕ) :
      Function.update fs.slot j v i < fs.entries := by
    rw [Function.update_apply]
    split
    · exact hv
    · exact h.slot_lt i
  cases hchange with
  | still _ hsame =>
    rw [show fs'.slot = fs.slot from funext fun i => by
      rw [slot, dir_congr hsame hstores.fatInfor, slot]]
    exact h.slot_lt
  | created hok hfound hfat hdir =>
    have hc := hroom _ _ hok
    rw [slot_created hdir (hc.trans h.mounted.layout.2.2.2)]
    exact hupdate hc
  | deleted hname hfat hdir =>
    rw [slot_deleted hdir]
    exact hupdate (Nat.zero_lt_of_lt (h.slot_lt 0))
  | written hname hfat hdir =>
    rw [slot_written hdir]
    exact h.slot_lt

/-- A system that has not mounted anything yet, with a disk of zeros. -/
def blank (totalSector : ℕ) (h : totalSector < 2 ^ 28) : FileSystem where
  disk :=
    { totalSector := totalSector, totalSector_lt := h, data := fun _ => 0, faults := fun _ => false }
  fatInfor := ⟨0, 0, 0, 0⟩
  bestIdx := 0
  bestRootDirIdx := 0
  isMounted := false
  buffer512 := fun _ => 0
  buffer4096 := fun _ => 0

/-- The state after a successful `format` and `mount`: nothing is allocated but cluster 0. -/
structure Fresh (fs : FileSystem) : Prop where
  ready : fs.Ready
  fat_eq : ∀ c, fs.fat c = if c = 0 then 0xFFFFFFFF else 0
  dir_eq : ∀ i x, fs.dir i x = 0
  bestIdx : fs.bestIdx = 0

theorem fresh_of_format {fs₁ fs₂ : FileSystem} (hr : fs.disk.Reliable)
    (hformat : fs.format = (true, fs₁)) (hmount : fs₁.mount = (.ok (), fs₂)) : fs₂.Fresh := by
  obtain ⟨hsame, hformatted, hmark, hrest, hfaults⟩ := format_spec hformat
  have hr₁ : fs₁.disk.Reliable := by
    rw [Disk.Reliable, hfaults, hr.skip_eq]
    exact hr
  have hresult : fs₁.mount.2 = fs₂ := congrArg Prod.snd hmount
  obtain ⟨hmounted, hdisk, hcursor⟩ := mount_mounted hformatted (hr₁ 0)
  rw [hresult] at hmounted hdisk hcursor
  rw [hr₁.next_eq] at hdisk
  rw [hr, if_neg Bool.false_ne_true] at hmark
  obtain ⟨hfatAddress, hroot, -, -⟩ := hmounted.layout
  have hcount : fs₂.fatInfor.dataAddress = 1 + linkSectorCountFor fs.disk.totalSector := by
    rw [hmounted.dataAddress, hdisk, hsame]
  have hentries : fs₂.entries = 128 * linkSectorCountFor fs.disk.totalSector := by
    rw [hmounted.entries_eq, hcount, Nat.add_sub_cancel_left]
  have hpos : 0 < fs₂.entries := by
    have hroom := hformatted.room
    have hbound := (linkSectorCountFor_bounds fs.disk.totalSector).2
    rw [hsame] at hroom
    simp only [sectorsPerCluster, clusterSize, sectorSize] at hroom
    omega
  have hdir (i x : ℕ) : fs₂.dir i x = 0 := by
    rw [dir]
    split
    next hix =>
      rw [hdisk]
      simp only [maxFileCount, fileInformationSize] at hix ⊢
      exact hrest _ (by omega) (by omega)
    · rfl
  have hslot (i : ℕ) : fs₂.slot i = 0 := readLE_eq_zero.mpr fun x _ => hdir i _
  refine ⟨⟨hmounted, hdisk ▸ hr₁, fun i => by rw [hslot]; exact hpos⟩, fun c => ?_, hdir, hcursor⟩
  rw [fat, hfatAddress, hdisk]
  simp only [linkSize]
  by_cases hc : c = 0
  · rw [if_pos (hc ▸ hpos), if_pos hc, hc, hmark]
  · rw [if_neg hc]
    split
    · exact readLE_eq_zero.mpr fun x hx => hrest _ (by omega) (by omega)
    · rfl

/-- The start of the cursor's sector in the FAT, and how far the cursor lies behind it. -/
def sectorStart (fs : FileSystem) : ℕ := linksPerSector * (fs.bestIdx / linksPerSector)
def cursorOffset (fs : FileSystem) : ℕ := fs.bestIdx % linksPerSector

theorem bestIdx_eq (fs : FileSystem) : fs.bestIdx = fs.sectorStart + fs.cursorOffset :=
  (Nat.div_add_mod _ _).symm

/-- `e` is the first free entry of the FAT from the start of the cursor's sector on. -/
structure FirstFree (fs : FileSystem) (e : ℕ) : Prop where
  start_le : fs.sectorStart ≤ e
  lt : e < fs.entries
  free : fs.fat e = 0
  first : ∀ x, fs.sectorStart ≤ x → x < e → fs.fat x ≠ 0

instance (fs : FileSystem) (e : ℕ) : Decidable (fs.FirstFree e) :=
  decidable_of_iff (fs.sectorStart ≤ e ∧ e < fs.entries ∧ fs.fat e = 0 ∧
      ∀ x < e, fs.sectorStart ≤ x → fs.fat x ≠ 0)
    ⟨fun ⟨hstart, hlt, hfree, hfirst⟩ => ⟨hstart, hlt, hfree, fun x hx hxe => hfirst x hxe hx⟩,
      fun h => ⟨h.start_le, h.lt, h.free, fun x hxe hx => h.first x hx hxe⟩⟩

/-- A search that stops in the FAT stops at its first free entry, but hands out the cluster
as far behind it as the cursor lies behind the start of its sector. -/
theorem Ready.search_firstFree (h : fs.Ready) (hfree : fs.FirstFree e)
    (hk : fs.FirstScanned fs.fatInfor.clusterLinkSectorCount k) :
    fs.bestIdx + k = e + fs.cursorOffset := by
  have hstart := hfree.start_le
  have hlt := hfree.lt
  have hscan (x : ℕ) (hx : fs.sectorStart + x < fs.entries) :
      fs.scanned x = fs.fat (fs.sectorStart + x) := h.mounted.scanned_eq h.reliable hx
  have heq : fs.sectorStart + k = e := by
    rcases Nat.lt_trichotomy (fs.sectorStart + k) e with hlt' | heq | hgt
    · have hne := hfree.first (fs.sectorStart + k) (by omega) hlt'
      rw [← hscan k (by omega)] at hne
      exact absurd hk.zero hne
    · exact heq
    · have hne := hk.first (e - fs.sectorStart) (by omega)
      rw [hscan _ (by omega), Nat.add_sub_cancel' hstart] at hne
      exact absurd hfree.free hne
  rw [fs.bestIdx_eq]
  omega

/-- `createFile` of this name reaches the search for a cluster: no entry in use has the name
and a directory entry is free, as far as the two reads of the root directory tell. -/
def Searches (fs : FileSystem) (fileName : CString) : Prop :=
  (∀ i < maxFileCount, fs.readRoot.entryCluster i ≠ 0 → fs.readRoot.entryCmp i fileName ≠ 0) ∧
    ∃ i < maxFileCount, fs.readRoot.readRoot.entryCluster i = 0

theorem RoomFound.searches (h : fs.RoomFound fileName d c) : fs.Searches fileName :=
  ⟨h.unknown, d, h.slot_lt, h.slot_free⟩

/-- The search reads no zero word, not even behind the FAT, and its cursor stays an `int`. -/
def FindsNothing (fs : FileSystem) : Prop :=
  fs.NothingScanned fs.fatInfor.clusterLinkSectorCount ∧ fs.bestIdx + fs.entries < 2 ^ 31

/-- The search for this name goes wrong nowhere but in the FAT: it meets no free entry at
all, or the first one it meets satisfies `good`. -/
def SearchMeets (good : FileSystem → ℕ → Prop) (fs : FileSystem) : Operation → Prop
  | .createFile fileName => fs.Searches fileName →
    fs.FindsNothing ∨ ∃ e, fs.FirstFree e ∧ good fs e
  | _ => True

theorem Ready.searchMeets {good : FileSystem → ℕ → Prop} (h : fs.Ready)
    (hmeets : SearchMeets good fs (.createFile fileName)) (hfound : fs.RoomFound fileName d c) :
    ∃ e, fs.FirstFree e ∧ good fs e ∧ c = e + fs.cursorOffset := by
  obtain ⟨-, k, hk, rfl⟩ := h.mounted.room_free h.reliable hfound
  rcases hmeets hfound.searches with ⟨hnothing, -⟩ | ⟨e, hfree, hgood⟩
  · exact absurd hk.zero (hnothing k hk.lt)
  · exact ⟨e, hfree, hgood, h.search_firstFree hfree hk⟩

end FileSystem
end SkhuOS
