import Mathlib.Data.List.Find
import SkhuOS.FS.EmptyFormat
import SkhuOS.FS.Reopen

/-! What the file system is for: a folder of named files. The answers of a run of file operations
are those of the folder, and `showDir` lists it. -/
namespace SkhuOS
open Foundation

/-- A file as its user sees it. -/
@[ext]
structure StoredFile where
  size : ℤ
  contents : Bytes

/-- The files by their names. -/
abbrev Folder := CString → Option StoredFile

namespace Folder

def empty : Folder := fun _ => none

/-- The folder with another file, or none, under the name. -/
def set (folder : Folder) (name : CString) (file : Option StoredFile) : Folder := fun other =>
  if SameName name other then file else folder other

/-- As many names as there are directory entries have a file. -/
def Full (folder : Folder) : Prop :=
  ∃ names : List CString, names.length = maxFileCount ∧
    names.Pairwise (fun name other => ¬ SameName name other) ∧ ∀ name ∈ names, folder name ≠ none

/-- What `showDir` prints for these names. -/
def listing (folder : Folder) (names : List CString) : List PrintCall :=
  .puts [0x2E] :: names.flatMap fun name => (folder name).elim [] fun file =>
    [.printString name, .printString [0x20], .printInt (BitVec.ofInt 32 file.size) 10,
      .printString [0x42, 0x79, 0x74, 0x65], .puts []]

/-- The calls list every file of the folder, once, and nothing else. -/
def Lists (folder : Folder) (calls : List PrintCall) : Prop :=
  ∃ names : List CString, names.Pairwise (fun name other => ¬ SameName name other) ∧
    (∀ name, folder name ≠ none ↔ ∃ listed ∈ names, SameName listed name) ∧
    calls = folder.listing names

end Folder

namespace FileSystem

/-- What an operation returns or prints. -/
inductive Reply
  | printed (message : Option Message)
  | returned (result : Except Message Unit)
  | delivered (result : Except Message (ℤ × Bytes))

def reply (fs : FileSystem) : Operation → Reply
  | .mount => .returned fs.mount.1
  | .createFile fileName => .printed (fs.createFile fileName).1
  | .deleteFile fileName => .printed (fs.deleteFile fileName).1
  | .readFile fileName buffer => .delivered (fs.readFile fileName buffer).1
  | .writeFile fileName buffer size => .returned (fs.writeFile fileName buffer size).1

end FileSystem

open FileSystem

/-- The answers of the folder. A new file has the size 0, but any contents; a full folder does not
tell that it takes no file. -/
inductive Folder.Answers (folder : Folder) : Operation → Reply → Folder → Prop
  | mounted : Answers folder .mount (.returned (.ok ())) folder
  | created {name : CString} {contents : Bytes} (hnew : folder name = none) :
      Answers folder (.createFile name) (.printed none) (folder.set name (some ⟨0, contents⟩))
  | full {name : CString} (hnew : folder name = none) (hfull : folder.Full) :
      Answers folder (.createFile name) (.printed none) folder
  | known {name : CString} {file : StoredFile} (hfile : folder name = some file) :
      Answers folder (.createFile name) (.printed (some .alreadyExistMessage)) folder
  | deleted {name : CString} {file : StoredFile} (hfile : folder name = some file) :
      Answers folder (.deleteFile name) (.printed none) (folder.set name none)
  | notDeleted {name : CString} (hnone : folder name = none) :
      Answers folder (.deleteFile name) (.printed (some .notFoundFileMessage)) folder
  | read {name : CString} {file : StoredFile} {buffer : Bytes} (hfile : folder name = some file) :
      Answers folder (.readFile name buffer) (.delivered (.ok (file.size, fun x =>
        if x < clusterSize then file.contents x else buffer x))) folder
  | notRead {name : CString} {buffer : Bytes} (hnone : folder name = none) :
      Answers folder (.readFile name buffer) (.delivered (.error .notFoundFileMessage)) folder
  | written {name : CString} {file : StoredFile} {buffer : Bytes} {size : ℤ}
      (hfile : folder name = some file) :
      Answers folder (.writeFile name buffer size) (.returned (.ok ()))
        (folder.set name (some ⟨size, fun x => if x < clusterSize then buffer x else 0⟩))
  | notWritten {name : CString} {buffer : Bytes} {size : ℤ} (hnone : folder name = none) :
      Answers folder (.writeFile name buffer size) (.returned (.error .notFoundFileMessage)) folder

/-- Calls with their answers, from an empty folder on. -/
inductive Folder.Served : List (Operation × Reply) → Folder → Prop
  | start : Served [] Folder.empty
  | next {calls : List (Operation × Reply)} {folder folder' : Folder} {op : Operation}
      {reply : Reply} (hcalls : Served calls folder) (hanswer : folder.Answers op reply folder') :
      Served (calls ++ [(op, reply)]) folder'

namespace FileSystem

/-- The file of a directory entry. -/
def file (fs : FileSystem) (i : ℕ) : StoredFile :=
  ⟨intOf (fs.sizeOf i), fs.clusterData (fs.slot i)⟩

/-- The folder that is on the disk. -/
def folder (fs : FileSystem) : Folder := fun name => (fs.readRoot.findFile name).map fs.file

/-- The name fits its field and is not taken for that of an entry that is not in use. -/
def PlainName (name : CString) : Prop :=
  0 < strlen name ∧ strlen name < maxFileName ∧ stringBytes name 0 ≠ 0xE5

instance (name : CString) : Decidable (PlainName name) :=
  inferInstanceAs (Decidable (_ ∧ _ ∧ _))

/-- The cluster behind the first free entry is free too and lies on the disk. -/
def RoomAhead (fs : FileSystem) (e : ℕ) : Prop :=
  fs.fat (e + fs.cursorOffset) = 0 ∧ fs.OnDisk (e + fs.cursorOffset)

/-- The calls that keep to what the folder promises: plain names, an `int` for a size, and free
clusters for new files. -/
def FolderStep (fs : FileSystem) : Operation → Prop
  | .mount => True
  | .createFile name => PlainName name ∧ (fs.Searches name → ∃ e, fs.FirstFree e ∧ fs.RoomAhead e)
  | .deleteFile name => PlainName name
  | .readFile _ _ => True
  | .writeFile _ _ size => -2 ^ 31 ≤ size ∧ size < 2 ^ 31

/-- Entries in use have names and clusters of their own, which are marked in the FAT; the others
have no plain name. -/
structure Orderly (fs : FileSystem) : Prop where
  intact : fs.Intact
  ended : ∀ i, fs.dir i (maxFileName - 1) = 0
  dead : ∀ i < maxFileCount, fs.slot i = 0 → fs.dir i 0 = 0 ∨ fs.dir i 0 = 0xE5
  marked : ∀ i, fs.slot i ≠ 0 → fs.fat (fs.slot i) ≠ 0
  root : fs.fat 0 ≠ 0

variable {fs fs' : FileSystem} {op : Operation} {name other : CString} {data entry : Bytes}
  {c d i j : ℕ} {size : ℤ}

theorem intOf_dwordOf_int (hlow : -2 ^ 31 ≤ size) (hint : size < 2 ^ 31) :
    intOf (dwordOf size) = size := by
  simp only [intOf, dwordOf]
  omega

theorem ofInt_intOf {n : ℕ} (hn : n < 2 ^ 32) :
    BitVec.ofInt 32 (intOf n) = BitVec.ofNat 32 n := by
  apply BitVec.eq_of_toNat_eq
  rw [BitVec.toNat_ofInt, BitVec.toNat_ofNat, intOf]
  split <;> omega

theorem flatMap_filter {α β : Type} {p : α → Bool} {f : α → List β} (l : List α) :
    (l.filter p).flatMap f = l.flatMap fun a => if p a then f a else [] := by
  induction l with
  | nil => rfl
  | cons a l ih =>
    rw [List.flatMap_cons, ← ih]
    by_cases ha : p a
    · rw [List.filter_cons_of_pos ha, List.flatMap_cons, if_pos ha]
    · rw [List.filter_cons_of_neg ha, if_neg ha, List.nil_append]

theorem sizeOf_lt (fs : FileSystem) (i : ℕ) : fs.sizeOf i < 2 ^ 32 := readLE_lt _ _ 4

theorem findFile_of_folder (hnone : fs.folder name = none) : fs.readRoot.findFile name = none :=
  Option.map_eq_none_iff.mp hnone

namespace Orderly

variable (h : fs.Orderly)
include h

theorem ready : fs.Ready where
  mounted := h.intact.mounted
  reliable := h.intact.reliable
  slot_lt i := by
    by_cases hi : fs.slot i = 0
    · rw [hi]
      by_contra hnone
      refine h.root ?_
      rw [fat, if_neg hnone]
    · exact h.intact.mounted.onDisk_lt (h.intact.onDisk i hi)

theorem short (hi : fs.Carries i name) : strlen name < maxFileName :=
  Nat.lt_of_le_of_lt (Spells.strlen_le_of_nul hi.2 (h.ended i)) (by decide)

/-- The lookup finds the only entry with the name. -/
theorem findFile_iff : fs.readRoot.findFile name = some i ↔ fs.Carries i name := by
  constructor
  · intro hfound
    obtain ⟨hi, hlive, hcmp, -⟩ := findFile_some hfound
    rw [h.ready.entryCluster hi] at hlive
    exact ⟨hlive, (h.ready.entryCmp_spells h.ended hi).mp hcmp⟩
  · intro hi
    exact h.intact.findFile_eq (h.short hi) hi

theorem folder_some (hi : fs.Carries i name) : fs.folder name = some (fs.file i) := by
  rw [folder, h.findFile_iff.mpr hi]
  rfl

theorem folder_none (hnone : ∀ i, ¬ fs.Carries i name) : fs.folder name = none := by
  rw [folder, Option.map_eq_none_iff]
  cases hfound : fs.readRoot.findFile name with
  | none => rfl
  | some i => exact absurd (h.findFile_iff.mp hfound) (hnone i)

theorem carries_of_folder {stored : StoredFile} (hfile : fs.folder name = some stored) :
    ∃ i, fs.Carries i name ∧ fs.file i = stored := by
  obtain ⟨i, hi, hstored⟩ := Option.map_eq_some_iff.mp hfile
  exact ⟨i, h.findFile_iff.mp hi, hstored⟩

/-- A plain name is not that of an entry that is not in use. -/
theorem findName_eq (hplain : PlainName name) :
    fs.readRoot.findName name = fs.readRoot.findFile name := by
  unfold findName findFile
  apply List.find?_congr
  intro i hi
  have hi := List.mem_range.mp hi
  rw [h.ready.entryCluster hi]
  by_cases hslot : fs.slot i = 0
  · have hcmp : fs.readRoot.entryCmp i name ≠ 0 := by
      intro hcmp
      have hfirst := (h.ready.entryCmp_spells h.ended hi).mp hcmp 0 (Nat.zero_le _)
      rcases h.dead i hi hslot with hzero | hfree
      · exact stringBytes_ne_zero hplain.1 (hfirst.symm.trans hzero)
      · exact hplain.2.2 (hfirst.symm.trans hfree)
    simp [hslot, hcmp]
  · simp [hslot]

/-- States with the same disk hold the same folder. -/
theorem looked (hstores : fs.Stores fs' fs.disk.data) : fs'.Orderly ∧ fs'.folder = fs.folder := by
  have hfat : fs'.fat = fs.fat := by
    funext c
    rw [hstores.fat_eq, fat]
  have horderly : fs'.Orderly := by
    constructor
    · exact h.intact.looked hstores
    · rw [hstores.dir_same]
      exact h.ended
    · rw [hstores.dir_same, hstores.slot_same]
      exact h.dead
    · rw [hstores.slot_same, hfat]
      exact h.marked
    · rw [hfat]
      exact h.root
  refine ⟨horderly, funext fun name => ?_⟩
  by_cases hname : ∃ i, fs.Carries i name
  · obtain ⟨i, hi⟩ := hname
    rw [h.folder_some hi, horderly.folder_some ((carries_of_dir hstores.dir_same).mpr hi), file,
      file, sizeOf, sizeOf, hstores.slot_same, hstores.clusterData_same, hstores.dir_same]
  · rw [h.folder_none (not_exists.mp hname), horderly.folder_none fun i hi =>
      hname ⟨i, (carries_of_dir hstores.dir_same).mp hi⟩]

/-- Another entry in the place of entry `j`: what the directory and the FAT must be like
afterwards. -/
theorem update {value : ℕ} (hstores : fs.Stores fs' data)
    (hdir : fs'.dir = Function.update fs.dir j entry)
    (hvalue : readLE entry clusterIdxOffset 4 = value) (hended : entry (maxFileName - 1) = 0)
    (hdead : value = 0 → entry 0 = 0 ∨ entry 0 = 0xE5)
    (hlive : value ≠ 0 → fs.OnDisk value ∧ fs'.fat value ≠ 0 ∧
      ∀ i, i ≠ j → fs.slot i ≠ value)
    (hnames : ∀ name, fs'.Carries j name → ∀ i, i ≠ j → ¬ fs.Carries i name)
    (hmarked : ∀ i, i ≠ j → fs.slot i ≠ 0 → fs'.fat (fs.slot i) ≠ 0) (hroot : fs'.fat 0 ≠ 0) :
    fs'.Orderly := by
  have hslot := slot_of_dir hdir
  rw [hvalue] at hslot
  have hself : fs'.slot j = value := by rw [hslot, Function.update_self]
  have hother {i : ℕ} (hi : i ≠ j) : fs'.slot i = fs.slot i := by
    rw [hslot, Function.update_of_ne hi]
  have hcarries {i : ℕ} (hi : i ≠ j) (name : CString) : fs'.Carries i name ↔ fs.Carries i name := by
    rw [carries_update hdir, if_neg hi]
  constructor
  · refine ⟨hstores.mounted, hstores.reliable h.intact.reliable, ?_, ?_, ?_⟩
    · intro i hi
      rw [hstores.onDisk]
      by_cases hij : i = j
      · rw [hij, hself] at hi ⊢
        exact (hlive hi).1
      · rw [hother hij] at hi ⊢
        exact h.intact.onDisk i hi
    · intro i k hi hik
      by_cases hij : i = j <;> by_cases hkj : k = j
      · rw [hij, hkj]
      · rw [hij, hself] at hi hik
        rw [hother hkj] at hik
        exact absurd hik.symm ((hlive hi).2.2 k hkj)
      · rw [hother hij] at hi hik
        rw [hkj, hself] at hik
        rw [hik] at hi
        exact absurd hik ((hlive hi).2.2 i hij)
      · rw [hother hij] at hi hik
        rw [hother hkj] at hik
        exact h.intact.cluster_unique i k hi hik
    · intro i k name hshort hi hk
      by_cases hij : i = j <;> by_cases hkj : k = j
      · rw [hij, hkj]
      · rw [hij] at hi
        exact absurd ((hcarries hkj name).mp hk) (hnames name hi k hkj)
      · rw [hkj] at hk
        exact absurd ((hcarries hij name).mp hi) (hnames name hk i hij)
      · exact h.intact.name_unique i k name hshort ((hcarries hij name).mp hi)
          ((hcarries hkj name).mp hk)
  · intro i
    rw [hdir, Function.update_apply]
    split
    · exact hended
    · exact h.ended i
  · intro i hi hfree
    by_cases hij : i = j
    · rw [hij, hdir, Function.update_self]
      rw [hij, hself] at hfree
      exact hdead hfree
    · rw [hdir, Function.update_of_ne hij]
      rw [hother hij] at hfree
      exact h.dead i hi hfree
  · intro i hi
    by_cases hij : i = j
    · rw [hij, hself] at hi ⊢
      exact (hlive hi).2.1
    · rw [hother hij] at hi ⊢
      exact hmarked i hij hi
  · exact hroot

/-- The folder follows the entry. -/
theorem folder_update (h' : fs'.Orderly) (hdir : fs'.dir = Function.update fs.dir j entry)
    (hdata : ∀ i, i ≠ j → fs.slot i ≠ 0 → fs'.clusterData (fs.slot i) = fs.clusterData (fs.slot i))
    {stored : Option StoredFile}
    (hnew : ∀ name, fs'.Carries j name → SameName other name ∧ stored = some (fs'.file j))
    (hold : ∀ name, ¬ fs'.Carries j name → SameName other name → stored = none ∧
      ∀ i, i ≠ j → ¬ fs.Carries i name)
    (hleft : ∀ name, fs.Carries j name → SameName other name) :
    fs'.folder = fs.folder.set other stored := by
  funext name
  have hcarries {i : ℕ} (hi : i ≠ j) : fs'.Carries i name ↔ fs.Carries i name := by
    rw [carries_update hdir, if_neg hi]
  rw [Folder.set]
  by_cases hj : fs'.Carries j name
  · obtain ⟨hsame, hstored⟩ := hnew name hj
    rw [if_pos hsame, h'.folder_some hj, hstored]
  · split
    next hsame =>
      obtain ⟨hstored, hnone⟩ := hold name hj hsame
      rw [hstored]
      apply h'.folder_none
      intro i hi
      by_cases hij : i = j
      · exact hj (hij ▸ hi)
      · exact hnone i hij ((hcarries hij).mp hi)
    next hdiffer =>
      by_cases hname : ∃ i, fs.Carries i name
      · obtain ⟨i, hi⟩ := hname
        have hij : i ≠ j := by
          rintro rfl
          exact hdiffer (hleft name hi)
        have hslot : fs'.slot i = fs.slot i := by
          rw [slot_of_dir hdir, Function.update_of_ne hij]
        rw [h'.folder_some ((hcarries hij).mpr hi), h.folder_some hi, file, file, sizeOf, sizeOf,
          hslot, hdata i hij hi.1, hdir, Function.update_of_ne hij]
      · rw [h.folder_none (not_exists.mp hname)]
        apply h'.folder_none
        intro i hi
        by_cases hij : i = j
        · exact hj (hij ▸ hi)
        · exact hname ⟨i, (hcarries hij).mp hi⟩

end Orderly

/-- Where `createFile` says nothing and makes no file, either all entries are in use or the search
for a cluster meets no free one. -/
theorem findRoom_silent (hnone : (fs.findRoom name).1 = .error none)
    (hcursor : fs.bestRootDirIdx < maxFileCount) :
    (∀ i < maxFileCount, fs.readRoot.readRoot.entryCluster i ≠ 0) ∨
      fs.Searches name ∧ fs.atSearch.NothingScanned fs.fatInfor.clusterLinkSectorCount := by
  unfold findRoom at hnone
  split at hnone
  · cases hnone
  simp only at hnone
  split at hnone
  · cases hnone
  next hunknown =>
  have hnew (i : ℕ) (hi : i < maxFileCount) (hlive : fs.readRoot.entryCluster i ≠ 0) :
      fs.readRoot.entryCmp i name ≠ 0 := by
    intro hcmp
    apply hunknown
    exact List.any_eq_true.mpr ⟨i, List.mem_range.mpr hi, by simp [hlive, hcmp]⟩
  rcases firstFreeSlot_or_none fs.readRoot.readRoot.buffer4096 hcursor with ⟨d, hd⟩ | hused
  · obtain ⟨n, hn, hplace, hfree, hfirst⟩ := hd
    have hslot := findFreeDirectoryEntryLoop_some fs.readRoot.readRoot hcursor hn
      (hplace ▸ hfree) hfirst
    refine .inr ⟨⟨hnew, d, hplace ▸ Nat.mod_lt _ (by decide), hfree⟩, ?_⟩
    rw [findFreeDirectoryEntryAndUpdate, hslot] at hnone
    simp only [findFreeClusterAndUpdate] at hnone
    have hread : searchRead { fs.readRoot.readRoot with
        bestRootDirIdx := (fs.readRoot.readRoot.bestRootDirIdx + n) % maxFileCount } =
        fs.atSearch.searchRead := by
      apply searchRead_congr
      · obtain ⟨buffer, hroot⟩ := fs.readRoot_eq
        obtain ⟨buffer', hroot'⟩ := fs.readRoot.readRoot_eq
        rw [hroot', hroot, atSearch, Disk.skip_skip]
      · rfl
      · rfl
      · rfl
    rcases firstScanned_or_nothing fs.atSearch fs.fatInfor.clusterLinkSectorCount with
      ⟨k, hk⟩ | hnothing
    · have hsearch := findFreeClusterLoop_some
        (n := fs.readRoot.readRoot.fatInfor.clusterLinkSectorCount) (hk.congr hread)
      dsimp only at hsearch
      rw [hsearch] at hnone
      cases hnone
    · exact hnothing
  · exact .inl hused

theorem createFile_printed {room : ℕ × ℕ} (hroom : (fs.findRoom name).1 = .ok room) :
    (fs.createFile name).1 = none := by
  have hresult : fs.findRoom name = (.ok room, (fs.findRoom name).2) := Prod.ext hroom rfl
  rw [createFile, hresult]

theorem findRoom_message {message : Message} (hmounted : fs.isMounted = true)
    (hroom : (fs.findRoom name).1 = .error (some message)) : message = .alreadyExistMessage := by
  unfold findRoom at hroom
  rw [hmounted] at hroom
  simp only [Bool.not_true, Bool.false_eq_true, if_false] at hroom
  split at hroom
  · cases hroom
    rfl
  · split at hroom
    · cases hroom
    · split at hroom <;> cases hroom

/-- The name in a directory entry. -/
def nameAt (fs : FileSystem) (i : ℕ) : CString := stringAt (fs.dir i) 0 maxFileName

namespace Orderly

variable (h : fs.Orderly)
include h

theorem nameAt_holds (i : ℕ) : Holds 0 (fs.dir i) (fs.nameAt i) := by
  have hnul : fs.dir i (0 + (maxFileName - 1)) = 0 := by
    rw [Nat.zero_add]
    exact h.ended i
  exact (stringAt_holds (n := maxFileName) (by decide) hnul).congr fun x _ =>
    congrArg (fs.dir i) (Nat.zero_add x).symm

theorem carries_nameAt (hi : fs.slot i ≠ 0) : fs.Carries i (fs.nameAt i) := by
  refine ⟨hi, fun x hx => ?_⟩
  rw [strlen_eq_length (h.nameAt_holds i).proper] at hx
  exact (h.nameAt_holds i).reads x hx

theorem nameAt_inj (hi : fs.slot i ≠ 0) (hj : fs.slot j ≠ 0)
    (hsame : SameName (fs.nameAt i) (fs.nameAt j)) : i = j := by
  have hcarries : fs.Carries i (fs.nameAt j) := ⟨hi, hsame.spells (h.carries_nameAt hi).2⟩
  exact h.intact.name_unique i j _ (h.short hcarries) hcarries (h.carries_nameAt hj)

/-- The names of the entries in use. -/
theorem names_pairwise {l : List ℕ} (hl : l.Nodup) (hlive : ∀ i ∈ l, fs.slot i ≠ 0) :
    (l.map fs.nameAt).Pairwise fun name other => ¬ SameName name other := by
  rw [List.pairwise_map]
  apply hl.imp_of_mem
  intro i j hi hj hne hsame
  exact hne (h.nameAt_inj (hlive i hi) (hlive j hj) hsame)

theorem full (hall : ∀ i < maxFileCount, fs.slot i ≠ 0) : fs.folder.Full := by
  have hlive : ∀ i ∈ List.range maxFileCount, fs.slot i ≠ 0 := by
    intro i hi
    exact hall i (List.mem_range.mp hi)
  refine ⟨(List.range maxFileCount).map fs.nameAt, ?_, h.names_pairwise List.nodup_range hlive, ?_⟩
  · rw [List.length_map, List.length_range]
  · intro name hname
    obtain ⟨i, hi, rfl⟩ := List.mem_map.mp hname
    rw [h.folder_some (h.carries_nameAt (hlive i hi))]
    exact Option.some_ne_none _

/-- A search that meets room finds a free cluster on the disk. -/
theorem room (hstep : fs.FolderStep (.createFile name))
    (hok : (fs.findRoom name).1 = .ok (d, c)) :
    fs.slot d = 0 ∧ c ≠ 0 ∧ fs.fat c = 0 ∧ fs.OnDisk c := by
  have hfound := (findRoom_spec h.intact.mounted.cursor name).2 d c hok
  have hmeets : SearchMeets RoomAhead fs (.createFile name) := fun hsearches =>
    .inr (hstep.2 hsearches)
  obtain ⟨e, -, ⟨hfree, hdisk⟩, rfl⟩ := h.ready.searchMeets hmeets hfound
  refine ⟨(h.intact.mounted.room_free h.intact.reliable hfound).1, ?_, hfree, hdisk⟩
  intro hzero
  exact h.root (hzero ▸ hfree)

theorem create_room (hstep : fs.FolderStep (.createFile name))
    (hok : (fs.findRoom name).1 = .ok (d, c)) : (fs.createFile name).2.Orderly ∧
      fs.folder.Answers (.createFile name) (.printed (fs.createFile name).1)
        (fs.createFile name).2.folder := by
  have hm := h.intact.mounted
  have hr := h.intact.reliable
  have hlayout := hm.layout
  have hplain := hstep.1
  obtain ⟨hunused, hpos, hfree, hdisk⟩ := h.room hstep hok
  have hc := hm.onDisk_lt hdisk
  have hfound := (findRoom_spec hm.cursor name).2 d c hok
  have hd := hfound.slot_lt
  have hstores := hm.createFile_stores hr hok hc
  obtain ⟨hfat, hdir⟩ := hm.createFile_change hr hok hc
  rw [createFile_printed hok]
  generalize (fs.createFile name).2 = fs' at hstores hfat hdir
  have hcluster : readLE (newEntry name c) clusterIdxOffset 4 = c :=
    newEntry_cluster (hc.trans hlayout.2.2.2)
  have hspells : Spells (newEntry name c) name := newEntry_spells hplain.2.1
  have hold (i : ℕ) (hi : i ≠ d) (other : CString) (hsame : SameName name other) :
      ¬ fs.Carries i other := by
    intro hcarries
    have hlt := slot_lt hcarries.1
    apply hfound.unknown i hlt
    · rw [h.ready.entryCluster hlt]
      exact hcarries.1
    · exact (h.ready.entryCmp_spells h.ended hlt).mpr (hsame.symm.spells hcarries.2)
  have hcarries (other : CString) : fs'.Carries d other ↔ SameName name other := by
    rw [carries_update hdir, if_pos rfl, hcluster]
    exact ⟨fun hother => hspells.sameName hother.2, fun hsame => ⟨hpos, hsame.spells hspells⟩⟩
  have horderly : fs'.Orderly := by
    apply h.update hstores hdir hcluster
    · rw [newEntry_name (by decide), if_neg fun hx => absurd hx.2 (Nat.lt_irrefl _)]
    · exact fun hzero => absurd hzero hpos
    · refine fun _ => ⟨hdisk, ?_, fun i _ hi => ?_⟩
      · rw [hfat, Function.update_self]
        decide
      · exact h.marked i (hi ▸ hpos) (hi ▸ hfree)
    · exact fun other hother i hi => hold i hi other ((hcarries other).mp hother)
    · intro i _ hi
      rw [hfat, Function.update_apply]
      split
      · decide
      · exact h.marked i hi
    · rw [hfat, Function.update_of_ne hpos.symm]
      exact h.root
  have hsize : fs'.sizeOf d = 0 := by
    rw [FileSystem.sizeOf, hdir, Function.update_self, newEntry, readLE_writeLE]
    rfl
  have hdata (i : ℕ) (hi : fs.slot i ≠ 0) :
      fs'.clusterData (fs.slot i) = fs.clusterData (fs.slot i) := by
    refine hstores.clusterData_behind (fun x hx => ?_) hi
    simp only [fileInformationSize, maxFileCount, linkSize, clusterSize] at *
    rw [copyBytes_of_not_mem (by omega), writeLE_of_not_mem (by omega)]
  have hfolder : fs'.folder = fs.folder.set name (some (fs'.file d)) := by
    apply h.folder_update horderly hdir fun i _ => hdata i
    · exact fun other hother => ⟨(hcarries other).mp hother, rfl⟩
    · exact fun other hother hsame => absurd ((hcarries other).mpr hsame) hother
    · exact fun other hother => absurd hunused hother.1
  refine ⟨horderly, ?_⟩
  rw [hfolder, file, hsize]
  apply Folder.Answers.created
  apply h.folder_none
  intro i hi
  have hid : i ≠ d := by
    rintro rfl
    exact hi.1 hunused
  exact hold i hid name ⟨rfl, fun _ _ => rfl⟩ hi

theorem create (hstep : fs.FolderStep (.createFile name)) : (fs.createFile name).2.Orderly ∧
    fs.folder.Answers (.createFile name) (.printed (fs.createFile name).1)
      (fs.createFile name).2.folder := by
  have hm := h.intact.mounted
  have hr := h.intact.reliable
  cases hresult : (fs.findRoom name).1 with
  | ok room => exact h.create_room hstep hresult
  | error message =>
    have hlooked := (findRoom_spec hm.cursor name).1
    obtain ⟨horderly, hfolder⟩ := h.looked (hm.looked_stores hr hlooked)
    rw [createFile_error hresult]
    refine ⟨horderly, ?_⟩
    rw [hfolder]
    cases message with
    | some message =>
      obtain rfl := findRoom_message hm.isMounted hresult
      obtain ⟨i, hi, hlive, hcmp⟩ := known_of_findRoom hresult
      rw [h.ready.entryCluster hi] at hlive
      exact .known (h.folder_some ⟨hlive, (h.ready.entryCmp_spells h.ended hi).mp hcmp⟩)
    | none =>
      have hnew : fs.folder name = none := by
        cases hfile : fs.folder name with
        | none => rfl
        | some stored =>
          obtain ⟨i, hi, -⟩ := h.carries_of_folder hfile
          have hlt := slot_lt hi.1
          have hknown := findRoom_known hm.isMounted hlt
            (by rw [h.ready.entryCluster hlt]; exact hi.1)
            ((h.ready.entryCmp_spells h.ended hlt).mpr hi.2)
          rw [hknown] at hresult
          cases hresult
      rcases findRoom_silent hresult hm.cursor with hall | ⟨hsearches, hnothing⟩
      · refine .full hnew (h.full fun i hi => ?_)
        have hstores := hm.readRoot_stores hr
        have hcluster := hstores.mounted.entryCluster_readRoot (hstores.reliable hr) hi
        rw [hstores.slot_same] at hcluster
        rw [← hcluster]
        exact hall i hi
      · obtain ⟨e, hfree, -⟩ := hstep.2 hsearches
        have hsearch : fs.atSearch = fs := by rw [atSearch, hr.skip_eq]
        rw [hsearch] at hnothing
        have hstart := hfree.start_le
        have hlt := hfree.lt
        have hplace : fs.sectorStart + (e - fs.sectorStart) = e := Nat.add_sub_of_le hstart
        have hscan : fs.scanned (e - fs.sectorStart) = fs.fat e := by
          rw [hm.scanned_eq hr (by rw [← sectorStart, hplace]; exact hlt)]
          exact congrArg fs.fat hplace
        refine absurd (hscan.trans hfree.free) (hnothing _ ?_)
        rw [entries, Nat.mul_comm] at hlt
        omega

/-- A lookup that fails only looks. -/
theorem missed (hnone : fs.folder name = none) :
    fs.readRoot.Orderly ∧ fs.readRoot.folder = fs.folder ∧ ∀ i, ¬ fs.Carries i name := by
  obtain ⟨horderly, hfolder⟩ := h.looked (h.intact.mounted.readRoot_stores h.intact.reliable)
  refine ⟨horderly, hfolder, fun i hi => ?_⟩
  rw [h.folder_some hi] at hnone
  cases hnone

theorem delete (hplain : PlainName name) : (fs.deleteFile name).2.Orderly ∧
    fs.folder.Answers (.deleteFile name) (.printed (fs.deleteFile name).1)
      (fs.deleteFile name).2.folder := by
  have hm := h.intact.mounted
  have hr := h.intact.reliable
  have hlayout := hm.layout
  have hsearch := h.findName_eq hplain
  cases hfile : fs.folder name with
  | none =>
    obtain ⟨horderly, hfolder, -⟩ := h.missed hfile
    rw [findFile_of_folder hfile] at hsearch
    have hdelete : fs.deleteFile name = (some .notFoundFileMessage, fs.readRoot) := by
      rw [deleteFile, if_neg (by simp [hm.isMounted])]
      simp only [hsearch]
    rw [hdelete]
    refine ⟨horderly, ?_⟩
    rw [hfolder]
    exact .notDeleted hfile
  | some stored =>
    obtain ⟨i, hi, -⟩ := h.carries_of_folder hfile
    rw [h.findFile_iff.mpr hi] at hsearch
    have hlt := slot_lt hi.1
    have hentry := h.ready.slot_lt i
    have hprinted : (fs.deleteFile name).1 = none := by
      rw [deleteFile, if_neg (by simp [hm.isMounted])]
      simp only [hsearch]
    have hstores := hm.deleteFile_stores hr hsearch hlt hentry
    obtain ⟨hfat, hdir⟩ := hm.deleteFile_change hr hsearch hlt hentry
    rw [hprinted]
    generalize (fs.deleteFile name).2 = fs' at hstores hfat hdir
    have hcluster : readLE (writeLE (writeLE (fs.dir i) clusterIdxOffset 4 0) 0 1 0xE5)
        clusterIdxOffset 4 = 0 := by
      rw [readLE_writeLE_disjoint (by decide), readLE_writeLE]
      rfl
    have hgone (other : CString) : ¬ fs'.Carries i other := by
      rw [carries_update hdir, if_pos rfl]
      exact fun hother => hother.1 hcluster
    have horderly : fs'.Orderly := by
      apply h.update hstores hdir hcluster
      · rw [writeLE_of_not_mem (by decide), writeLE_of_not_mem (by decide), h.ended]
      · exact fun _ => .inr rfl
      · exact fun hne => absurd rfl hne
      · exact fun other hother => absurd hother (hgone other)
      · intro j hj hlive
        have hapart : fs.slot j ≠ fs.slot i := fun heq =>
          hj (h.intact.cluster_unique j i hlive heq)
        rw [hfat, Function.update_of_ne hapart]
        exact h.marked j hlive
      · rw [hfat, Function.update_of_ne hi.1.symm]
        exact h.root
    have hfolder : fs'.folder = fs.folder.set name none := by
      apply h.folder_update horderly hdir
      · intro j _ hj
        refine hstores.clusterData_behind (fun x hx => ?_) hj
        simp only [fileInformationSize, maxFileCount, linkSize, clusterSize, clusterIdxOffset] at *
        rw [writeLE_of_not_mem (by omega), writeLE_of_not_mem (by omega),
          writeLE_of_not_mem (by omega)]
      · exact fun other hother => absurd hother (hgone other)
      · intro other _ hsame
        refine ⟨rfl, fun j hj hother => hj ?_⟩
        have hcarries : fs.Carries i other := ⟨hi.1, hsame.spells hi.2⟩
        exact h.intact.name_unique j i other (h.short hother) hother hcarries
      · exact fun other hother => Spells.sameName hi.2 hother.2
    refine ⟨horderly, ?_⟩
    rw [hfolder]
    exact .deleted hfile

theorem readFile (name : CString) (buffer : Bytes) : (fs.readFile name buffer).2.Orderly ∧
    fs.folder.Answers (.readFile name buffer) (.delivered (fs.readFile name buffer).1)
      (fs.readFile name buffer).2.folder := by
  have hm := h.intact.mounted
  have hlooked := hm.readFile_looked name buffer
  obtain ⟨horderly, hfolder⟩ := h.looked (hm.looked_stores h.intact.reliable hlooked)
  refine ⟨horderly, ?_⟩
  rw [operate] at hfolder
  rw [hfolder]
  cases hfile : fs.folder name with
  | none =>
    have hread : (fs.readFile name buffer).1 = .error .notFoundFileMessage := by
      rw [FileSystem.readFile, if_neg (by simp [hm.isMounted])]
      simp only [findFile_of_folder hfile]
    rw [hread]
    exact .notRead hfile
  | some stored =>
    obtain ⟨i, hi, hstored⟩ := h.carries_of_folder hfile
    rw [h.intact.readFile_eq (h.short hi) hi buffer]
    rw [← hstored] at hfile
    exact .read hfile

theorem writeFile (buffer : Bytes) (hlow : -2 ^ 31 ≤ size) (hint : size < 2 ^ 31) :
    (fs.writeFile name buffer size).2.Orderly ∧
      fs.folder.Answers (.writeFile name buffer size) (.returned (fs.writeFile name buffer size).1)
        (fs.writeFile name buffer size).2.folder := by
  have hm := h.intact.mounted
  have hr := h.intact.reliable
  cases hfile : fs.folder name with
  | none =>
    obtain ⟨horderly, hfolder, -⟩ := h.missed hfile
    have hwrite : fs.writeFile name buffer size = (.error .notFoundFileMessage, fs.readRoot) := by
      rw [FileSystem.writeFile, if_neg (by simp [hm.isMounted])]
      simp only [findFile_of_folder hfile]
    rw [hwrite]
    refine ⟨horderly, ?_⟩
    rw [hfolder]
    exact .notWritten hfile
  | some stored =>
    obtain ⟨i, hi, -⟩ := h.carries_of_folder hfile
    have hfound := h.findFile_iff.mpr hi
    have hlt := slot_lt hi.1
    have hdisk := h.intact.onDisk i hi.1
    have hreturned : (fs.writeFile name buffer size).1 = .ok () := by
      rw [FileSystem.writeFile, if_neg (by simp [hm.isMounted])]
      simp only [hfound]
    have hstores := hm.writeFile_stores hr hfound hlt hi.1 hdisk buffer size
    obtain ⟨hfat, hdir, hdata⟩ := hm.writeFile_change hr hfound hlt hi.1 hdisk buffer size
    rw [hreturned]
    generalize (fs.writeFile name buffer size).2 = fs' at hstores hfat hdir hdata
    have hcluster : readLE (writeLE (fs.dir i) fileSizeOffset 4 (dwordOf size))
        clusterIdxOffset 4 = fs.slot i := by
      rw [readLE_writeLE_disjoint (by decide), slot]
    have hended : writeLE (fs.dir i) fileSizeOffset 4 (dwordOf size) (maxFileName - 1) = 0 := by
      rw [writeLE_of_not_mem (by decide), h.ended]
    have hcarries (other : CString) : fs'.Carries i other ↔ fs.Carries i other := by
      rw [carries_update hdir, if_pos rfl, hcluster]
      have hfield (x : ℕ) (hx : x ≤ maxFileName - 1) :
          writeLE (fs.dir i) fileSizeOffset 4 (dwordOf size) x = fs.dir i x :=
        writeLE_of_not_mem (.inl (Nat.lt_of_le_of_lt hx (by decide)))
      exact and_congr_right fun _ =>
        ⟨fun hs => Spells.congr hs hended fun x hx => (hfield x hx).symm,
          fun hs => Spells.congr hs (h.ended i) hfield⟩
    have hsole (other : CString) (hother : fs.Carries i other) (j : ℕ) (hj : j ≠ i) :
        ¬ fs.Carries j other := fun hcarried =>
      hj (h.intact.name_unique j i other (h.short hother) hcarried hother)
    have horderly : fs'.Orderly := by
      apply h.update hstores hdir hcluster hended
      · exact fun hzero => absurd hzero hi.1
      · refine fun _ => ⟨hdisk, ?_, fun j hj heq => ?_⟩
        · rw [hfat]
          exact h.marked i hi.1
        · exact hj (h.intact.cluster_unique j i (heq ▸ hi.1) heq)
      · exact fun other hother => hsole other ((hcarries other).mp hother)
      · intro j _ hj
        rw [hfat]
        exact h.marked j hj
      · rw [hfat]
        exact h.root
    have hstored : fs'.file i = ⟨size, fun x => if x < clusterSize then buffer x else 0⟩ := by
      have hslot : fs'.slot i = fs.slot i := by rw [slot_written hdir]
      have hsize : fs'.sizeOf i = dwordOf size := by
        rw [FileSystem.sizeOf, hdir, Function.update_self, readLE_writeLE]
        exact Nat.mod_eq_of_lt (dwordOf_lt size)
      rw [file, hsize, intOf_dwordOf_int hlow hint, hslot, hdata _ hi.1, if_pos rfl]
    have hfolder : fs'.folder = fs.folder.set name
        (some ⟨size, fun x => if x < clusterSize then buffer x else 0⟩) := by
      apply h.folder_update horderly hdir
      · intro j hj hlive
        have hapart : fs.slot j ≠ fs.slot i := fun heq =>
          hj (h.intact.cluster_unique j i hlive heq)
        rw [hdata _ hlive, if_neg hapart]
      · intro other hother
        exact ⟨Spells.sameName hi.2 ((hcarries other).mp hother).2, congrArg some hstored.symm⟩
      · intro other hother hsame
        exact absurd ((hcarries other).mpr ⟨hi.1, hsame.spells hi.2⟩) hother
      · exact fun other hother => Spells.sameName hi.2 hother.2
    refine ⟨horderly, ?_⟩
    rw [hfolder]
    exact .written hfile

/-- One call: the folder answers it, and the directory stays in order. -/
theorem answers (hstep : fs.FolderStep op) : (fs.operate op).Orderly ∧
    fs.folder.Answers op (fs.reply op) (fs.operate op).folder := by
  cases op with
  | mount =>
    have hm := h.intact.mounted
    obtain ⟨horderly, hfolder⟩ := h.looked (hm.mount_stores h.intact.reliable)
    obtain ⟨buffer, heq⟩ := mount_eq hm.disk (h.intact.reliable 0)
    have hreturned : fs.mount.1 = .ok () := by rw [heq]
    refine ⟨horderly, ?_⟩
    rw [operate, hfolder, reply, hreturned]
    exact .mounted
  | createFile name => exact h.create hstep
  | deleteFile name => exact h.delete hstep
  | readFile name buffer => exact h.readFile name buffer
  | writeFile name buffer size => exact h.writeFile buffer hstep.1 hstep.2

/-- What a call has to keep to, so that it stays on the disk. -/
theorem operate_spec (hstep : fs.FolderStep op) :
    (∃ data, fs.Stores (fs.operate op) data) ∧ fs.Change (fs.operate op) op := by
  apply h.ready.operate_spec
  · cases op with
    | createFile name =>
      exact fun d c hroom => h.intact.mounted.onDisk_lt (h.room hstep hroom).2.2.2
    | _ => trivial
  · cases op with
    | writeFile name buffer size =>
      exact fun i hi => h.intact.onDisk i (h.findFile_iff.mp hi).1
    | _ => trivial

theorem size_buffer (hi : i < maxFileCount) :
    readLE fs.readRoot.buffer4096 (fileInformationSize * i + fileSizeOffset) 4 = fs.sizeOf i :=
  ((h.intact.mounted.readRoot_dir h.intact.reliable hi).readLE (by decide)).symm

/-- The copy of the directory in memory spells the same names. -/
theorem nameAt_buffer (hi : i < maxFileCount) :
    stringAt fs.readRoot.buffer4096 (fileInformationSize * i)
      (clusterSize - fileInformationSize * i) = fs.nameAt i := by
  have hdir := h.intact.mounted.readRoot_dir h.intact.reliable hi
  have hlen : (fs.nameAt i).length ≤ maxFileName - 1 := by
    by_contra hlong
    exact (h.nameAt_holds i).ne_nul (not_le.mp hlong) (h.ended i)
  have hfield : maxFileName - 1 < fileInformationSize := by decide
  have hspelled : Holds 0 (fun x => fs.readRoot.buffer4096 (fileInformationSize * i + x))
      (fs.nameAt i) := (h.nameAt_holds i).congr fun x hx => (hdir x (by omega)).symm
  have hroom : maxFileName - 1 < clusterSize - fileInformationSize * i := by
    simp only [maxFileName, clusterSize, maxFileCount, fileInformationSize] at hi ⊢
    omega
  have hread := stringAt_holds (n := clusterSize - fileInformationSize * i) hroom
    ((hdir _ hfield).symm.trans (h.ended i))
  exact hread.unique hspelled

/-- What `showDir` prints is the folder. -/
theorem showDir_lists : ∃ calls, fs.showDir.1 = .ok calls ∧ fs.folder.Lists calls := by
  have hm := h.intact.mounted
  have hlive : ∀ i ∈ (List.range maxFileCount).filter fun i => fs.slot i ≠ 0, fs.slot i ≠ 0 := by
    intro i hi
    exact of_decide_eq_true (List.mem_filter.mp hi).2
  refine ⟨fs.folder.listing (((List.range maxFileCount).filter fun i => fs.slot i ≠ 0).map
    fs.nameAt), ?_, _, h.names_pairwise (List.nodup_range.filter _) hlive, fun name => ?_, rfl⟩
  · rw [showDir, if_neg (by simp [hm.isMounted])]
    dsimp only
    rw [Folder.listing, List.flatMap_map]
    congr 2
    rw [flatMap_filter]
    apply List.flatMap_congr
    intro i hi
    have hi := List.mem_range.mp hi
    rw [h.ready.entryCluster hi]
    by_cases hused : fs.slot i = 0
    · simp [hused]
    · rw [h.folder_some (h.carries_nameAt hused), h.nameAt_buffer hi, h.size_buffer hi]
      simp only [hused, ne_eq, not_false_eq_true, if_true, decide_true, Option.elim_some, file]
      rw [ofInt_intOf (fs.sizeOf_lt i)]
  · constructor
    · intro hfile
      obtain ⟨stored, hstored⟩ := Option.ne_none_iff_exists'.mp hfile
      obtain ⟨i, hi, -⟩ := h.carries_of_folder hstored
      refine ⟨fs.nameAt i, List.mem_map.mpr ⟨i, ?_, rfl⟩, ?_⟩
      · exact List.mem_filter.mpr ⟨List.mem_range.mpr (slot_lt hi.1), decide_eq_true hi.1⟩
      · exact Spells.sameName (h.carries_nameAt hi.1).2 hi.2
    · rintro ⟨listed, hmem, hsame⟩
      obtain ⟨i, hi, rfl⟩ := List.mem_map.mp hmem
      have hcarries := h.carries_nameAt (hlive i hi)
      have hnamed : fs.Carries i name := ⟨hcarries.1, hsame.spells hcarries.2⟩
      rw [h.folder_some hnamed]
      exact Option.some_ne_none _

end Orderly

theorem Fresh.orderly (h : fs.Fresh) : fs.Orderly ∧ fs.folder = Folder.empty := by
  have hslot (i : ℕ) : fs.slot i = 0 := readLE_eq_zero.mpr fun x _ => h.dir_eq i _
  have horderly : fs.Orderly := by
    refine ⟨⟨h.ready.mounted, h.ready.reliable, ?_, ?_, ?_⟩, ?_, ?_, ?_, ?_⟩
    · exact fun i hi => absurd (hslot i) hi
    · exact fun i j hi => absurd (hslot i) hi
    · exact fun i j name _ hi => absurd (hslot i) hi.1
    · exact fun i => h.dir_eq i _
    · exact fun i _ _ => .inl (h.dir_eq i 0)
    · exact fun i hi => absurd (hslot i) hi
    · rw [h.fat_eq, if_pos rfl]
      decide
  refine ⟨horderly, funext fun name => horderly.folder_none fun i hi => hi.1 (hslot i)⟩

/-- What a run has answered, and the folder it has come to. -/
def Served (history : List (Move FileSystem Operation)) (fs : FileSystem) : Prop :=
  fs.Orderly ∧
    Folder.Served (history.map fun m => (m.label, m.before.reply m.label)) fs.folder

theorem Fresh.served (h : fs.Fresh) : fs.Served [] := by
  obtain ⟨hstart, hempty⟩ := h.orderly
  refine ⟨hstart, ?_⟩
  rw [hempty]
  exact .start

theorem Served.next {history : List (Move FileSystem Operation)} (h : fs.Served history)
    (hstep : fs.FolderStep op) :
    (fs.operate op).Served (history ++ [⟨fs, op, fs.operate op⟩]) := by
  obtain ⟨hnext, hanswer⟩ := h.1.answers hstep
  refine ⟨hnext, ?_⟩
  rw [List.map_append]
  exact .next h.2 hanswer

/-- A file can be created on the small disk. -/
theorem small_touch : small.FolderStep (.createFile [0x61]) := by
  obtain ⟨⟨hfree, hahead⟩, -⟩ := small_searches
  have hdisk : small.OnDisk (1 + small.cursorOffset) := by decide +kernel
  exact ⟨by decide, fun _ => ⟨1, hfree, hahead.2, hdisk⟩⟩

/-- From a successful `format` and `mount` on, every sequence of calls is answered as a folder
answers it that is empty at first, and `showDir` lists the folder that has come of them. -/
theorem folder_refined {fs₁ fs₂ fs₃ : FileSystem} {history : List (Move FileSystem Operation)}
    (hr : fs.disk.Reliable) (hformat : fs.format = (true, fs₁))
    (hmount : fs₁.mount = (.ok (), fs₂)) (hrun : Run step FolderStep fs₂ history fs₃) :
    Folder.Served (history.map fun m => (m.label, m.before.reply m.label)) fs₃.folder ∧
      ∃ calls, fs₃.showDir.1 = .ok calls ∧ fs₃.folder.Lists calls := by
  have hserved : fs₃.Served history := by
    refine hrun.history_invariant (P := fun past t => t.Served past)
      (fresh_of_format hr hformat hmount).served ?_
    rintro past t op u - h hok hstep
    obtain rfl : t.operate op = u := Option.some.inj hstep
    exact h.next hok
  exact ⟨hserved.2, hserved.1.showDir_lists⟩

/-- A file is created and written on a small disk. -/
theorem folder_refined_first : ∃ fs : FileSystem, Folder.Served
    [(.createFile [0x61], .printed none), (.writeFile [0x61] (fun _ => 7) 5, .returned (.ok ()))]
      fs.folder ∧ ∃ calls, fs.showDir.1 = .ok calls ∧ fs.folder.Lists calls := by
  have hwrite : (small.operate (.createFile [0x61])).FolderStep
      (.writeFile [0x61] (fun _ => 7) 5) := ⟨by decide, by decide⟩
  obtain ⟨hcreated, hwritten⟩ : (small.createFile [0x61]).1 = none ∧
      ((small.operate (.createFile [0x61])).writeFile [0x61] (fun _ => 7) 5).1 = .ok () := by
    decide +kernel
  have hserved := folder_refined (fun _ => rfl) small_format small_mount
    ((Run.start.next small_touch rfl).next hwrite rfl)
  simp only [List.nil_append, List.cons_append, List.map_cons, List.map_nil, reply, hcreated,
    hwritten] at hserved
  exact ⟨_, hserved⟩

end FileSystem
end SkhuOS
