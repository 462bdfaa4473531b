import SkhuOS.FS.Naming
import SkhuOS.FS.Confined

/-! A write is read back, by that name only: the other files, the FAT and the boot sector stay
as they were, and so does what later reads and mounts find. -/
namespace SkhuOS
open Foundation

namespace FileSystem

variable {fs fs' : FileSystem} {op : Operation} {fileName name : CString}
  {buffer target data : Bytes} {size : ℤ} {i j : ℕ}

/-- The name of a live entry; the field of the entry holds it with its NUL. -/
def LiveName (fs : FileSystem) (name : CString) : Prop :=
  strlen name < maxFileName ∧ ∃ i, fs.Carries i name

/-- A mounted disk whose files have names and clusters of their own. -/
structure Intact (fs : FileSystem) : Prop where
  mounted : fs.Mounted
  reliable : fs.disk.Reliable
  onDisk : ∀ i, fs.slot i ≠ 0 → fs.OnDisk (fs.slot i)
  cluster_unique : ∀ i j, fs.slot i ≠ 0 → fs.slot i = fs.slot j → i = j
  name_unique : ∀ i j name, strlen name < maxFileName → fs.Carries i name → fs.Carries j name →
    i = j

/-- What the file system shows, once `fileName` has been written in `fs`. -/
structure Shows (fs : FileSystem) (fileName : CString) (buffer : Bytes) (size : ℤ)
    (fs' : FileSystem) : Prop where
  written : ∀ target, ∃ bytes, (fs'.readFile fileName target).1 = .ok (size, bytes) ∧
    ∀ x < clusterSize, bytes x = buffer x
  others : ∀ name, fs.LiveName name → ¬ SameName name fileName →
    ∀ target, (fs'.readFile name target).1 = (fs.readFile name target).1
  liveName : ∀ name, fs'.LiveName name ↔ fs.LiveName name
  areas : ∀ x < fs.rootAddress, fs'.disk.data x = fs.disk.data x
  mount : fs'.mount.1 = .ok ()

/-- Operations that only look. -/
def Looks (_ : FileSystem) : Operation → Prop
  | .mount => True
  | .readFile _ _ => True
  | _ => False

theorem intOf_dwordOf (h : 0 ≤ size) (hint : size < 2 ^ 31) : intOf (dwordOf size) = size := by
  simp only [intOf, dwordOf]
  omega

theorem dwordOf_natCast {n : ℕ} (h : n < 2 ^ 32) : dwordOf n = n := by
  simp only [dwordOf]
  omega

theorem dwordOf_lt (size : ℤ) : dwordOf size < 2 ^ 32 := by
  simp only [dwordOf]
  omega

/-- What `readFile` delivers is in the directory and the data cluster. -/
theorem Mounted.readFile_eq (h : fs.Mounted) (hr : fs.disk.Reliable)
    (hname : fs.readRoot.findFile fileName = some i) (hdisk : fs.OnDisk (fs.slot i))
    (target : Bytes) : (fs.readFile fileName target).1 = .ok (intOf (fs.sizeOf i),
      fun x => if x < clusterSize then fs.clusterData (fs.slot i) x else target x) := by
  obtain ⟨hi, -⟩ := findFile_some hname
  have hroot := h.readRoot_stores hr
  have hsize : readLE fs.readRoot.buffer4096 (fileInformationSize * i + fileSizeOffset) 4 =
      fs.sizeOf i := ((h.readRoot_dir hr hi).readLE (by decide)).symm
  have hread := readCluster_eq (hroot.reliable hr) (c := fs.slot i)
    (by rw [hroot.fatInfor, hroot.disk]; exact hdisk) target
  rw [readFile, if_neg (by simp [h.isMounted])]
  simp only [hname, h.entryCluster_readRoot hr hi, hread, hsize]
  congr 2
  funext x
  rw [hroot.rootAddress_eq, hroot.data_eq, copyBytes, clusterData]
  simp only [Nat.zero_le, true_and, Nat.zero_add, Nat.sub_zero]
  split
  · rfl
  · rfl

namespace Intact

variable (h : fs.Intact)
include h

theorem findFile_eq (hname : strlen fileName < maxFileName) (hi : fs.Carries i fileName) :
    fs.readRoot.findFile fileName = some i := by
  have hm := h.mounted
  have hr := h.reliable
  have hshort : strlen fileName < fileInformationSize := hname.trans (by decide)
  have hlt := slot_lt hi.1
  obtain ⟨j, hj⟩ := findFile_isSome hlt (by rw [hm.entryCluster_readRoot hr hlt]; exact hi.1)
    ((hm.entryCmp_eq_zero hr hlt (.inl hshort)).mpr hi.2)
  obtain ⟨hjlt, hlive, hcmp, -⟩ := findFile_some hj
  rw [hm.entryCluster_readRoot hr hjlt] at hlive
  have hcarries : fs.Carries j fileName :=
    ⟨hlive, (hm.entryCmp_eq_zero hr hjlt (.inl hshort)).mp hcmp⟩
  rw [hj, h.name_unique j i fileName hname hcarries hi]

theorem readFile_eq (hname : strlen fileName < maxFileName) (hi : fs.Carries i fileName)
    (target : Bytes) : (fs.readFile fileName target).1 = .ok (intOf (fs.sizeOf i),
      fun x => if x < clusterSize then fs.clusterData (fs.slot i) x else target x) :=
  h.mounted.readFile_eq h.reliable (h.findFile_eq hname hi) (h.onDisk i hi.1) target

end Intact

/-- What a state shows is on its disk. -/
theorem Stores.dir_same (hstores : fs.Stores fs' fs.disk.data) : fs'.dir = fs.dir :=
  hstores.dir_stays fun _ _ => rfl

theorem Stores.clusterData_same (hstores : fs.Stores fs' fs.disk.data) :
    fs'.clusterData = fs.clusterData := by
  funext c x
  rw [hstores.clusterData_eq, clusterData]

theorem Stores.slot_same (hstores : fs.Stores fs' fs.disk.data) : fs'.slot = fs.slot := by
  funext i
  rw [slot, slot, hstores.dir_same]

theorem Stores.onDisk (hstores : fs.Stores fs' data) (c : ℕ) : fs'.OnDisk c ↔ fs.OnDisk c := by
  rw [OnDisk, OnDisk, hstores.fatInfor, hstores.disk]

theorem carries_of_dir (hdir : fs'.dir = fs.dir) : fs'.Carries i name ↔ fs.Carries i name := by
  rw [Carries, Carries, slot, slot, hdir]

/-- States with the same disk are intact together and show the same. -/
theorem Intact.looked (h : fs.Intact) (hstores : fs.Stores fs' fs.disk.data) : fs'.Intact := by
  have hcarries (i : ℕ) (name : CString) : fs'.Carries i name ↔ fs.Carries i name :=
    carries_of_dir hstores.dir_same
  refine ⟨hstores.mounted, hstores.reliable h.reliable, fun i hi => ?_, fun i j hi hij => ?_,
    fun i j name hname hi hj => ?_⟩
  · rw [hstores.slot_same] at hi ⊢
    exact (hstores.onDisk _).mpr (h.onDisk i hi)
  · rw [hstores.slot_same] at hi hij
    exact h.cluster_unique i j hi hij
  · exact h.name_unique i j name hname ((hcarries i name).mp hi) ((hcarries j name).mp hj)

/-- The state behind a write: the named entry has the size, its cluster the buffer. -/
structure Wrote (fs : FileSystem) (i : ℕ) (buffer : Bytes) (size : ℤ) (fs' : FileSystem) :
    Prop where
  intact : fs'.Intact
  carries : ∀ j name, strlen name < maxFileName → (fs'.Carries j name ↔ fs.Carries j name)
  slot : fs'.slot = fs.slot
  sizeOf : fs'.sizeOf = Function.update fs.sizeOf i (dwordOf size)
  clusterData : ∀ c ≠ 0, fs'.clusterData c =
    if c = fs.slot i then fun x => if x < clusterSize then buffer x else 0 else fs.clusterData c
  areas : ∀ x < fs.rootAddress, fs'.disk.data x = fs.disk.data x
  rootAddress : fs'.rootAddress = fs.rootAddress

theorem Wrote.looked {fs'' : FileSystem} (h : fs.Wrote i buffer size fs')
    (hstores : fs'.Stores fs'' fs'.disk.data) : fs.Wrote i buffer size fs'' where
  intact := h.intact.looked hstores
  carries j name hname := (carries_of_dir hstores.dir_same).trans (h.carries j name hname)
  slot := hstores.slot_same.trans h.slot
  sizeOf := by
    rw [← h.sizeOf]
    funext j
    rw [FileSystem.sizeOf, FileSystem.sizeOf, hstores.dir_same]
  clusterData c hc := by rw [hstores.clusterData_same, h.clusterData c hc]
  areas x hx := by rw [hstores.data_eq, h.areas x hx]
  rootAddress := hstores.rootAddress_eq.trans h.rootAddress

/-- The size of a file is not in the field of its name. -/
theorem carries_written {v : ℕ}
    (hdir : fs'.dir = Function.update fs.dir i (writeLE (fs.dir i) fileSizeOffset 4 v))
    (hlen : strlen name < maxFileName) : fs'.Carries j name ↔ fs.Carries j name := by
  rw [Carries, Carries, slot_written hdir]
  refine and_congr_right fun _ => forall₂_congr fun x hx => ?_
  have hfield : fs'.dir j x = fs.dir j x := by
    rw [hdir, Function.update_apply]
    split
    next hji =>
      rw [hji]
      refine writeLE_of_not_mem (.inl ?_)
      simp only [maxFileName, clusterSize, maxFileCount, fileSizeOffset] at hlen ⊢
      omega
    · rfl
  rw [hfield]

theorem Intact.writeFile_wrote (h : fs.Intact) (hname : strlen fileName < maxFileName)
    (hi : fs.Carries i fileName) (buffer : Bytes) (size : ℤ) :
    fs.Wrote i buffer size (fs.writeFile fileName buffer size).2 := by
  have hfind := h.findFile_eq hname hi
  have hlt := slot_lt hi.1
  have hdisk := h.onDisk i hi.1
  have hstores := h.mounted.writeFile_stores h.reliable hfind hlt hi.1 hdisk buffer size
  obtain ⟨-, hdir, hdata⟩ := h.mounted.writeFile_change h.reliable hfind hlt hi.1 hdisk buffer size
  have hlayout := h.mounted.layout
  generalize (fs.writeFile fileName buffer size).2 = fs' at hstores hdir hdata
  have hslot := slot_written hdir
  have hcarries (j : ℕ) (name : CString) (hlen : strlen name < maxFileName) :
      fs'.Carries j name ↔ fs.Carries j name := carries_written hdir hlen
  refine ⟨⟨hstores.mounted, hstores.reliable h.reliable, ?_, ?_, ?_⟩, hcarries, hslot, ?_, hdata,
    fun x hx => ?_, hstores.rootAddress_eq⟩
  · rw [hslot]
    exact fun j hj => (hstores.onDisk _).mpr (h.onDisk j hj)
  · rw [hslot]
    exact h.cluster_unique
  · exact fun j k name hlen hj hk => h.name_unique j k name hlen ((hcarries j name hlen).mp hj)
      ((hcarries k name hlen).mp hk)
  · funext j
    rw [FileSystem.sizeOf, hdir, Function.update_apply, Function.update_apply]
    split
    · rw [readLE_writeLE]
      exact Nat.mod_eq_of_lt (dwordOf_lt size)
    · rfl
  · rw [hstores.data_eq, writeLE_of_not_mem (by omega), copyBytes_of_not_mem (by omega)]

/-- Such a state shows what was written, and the other files as they were. -/
theorem Wrote.shows (h : fs.Intact) (hname : strlen fileName < maxFileName)
    (hi : fs.Carries i fileName) (hsize : 0 ≤ size) (hint : size < 2 ^ 31)
    (hw : fs.Wrote i buffer size fs') : fs.Shows fileName buffer size fs' where
  written target := by
    have hread := hw.intact.readFile_eq hname ((hw.carries i fileName hname).mpr hi) target
    rw [hw.sizeOf, Function.update_self, intOf_dwordOf hsize hint, hw.slot,
      hw.clusterData _ hi.1, if_pos rfl] at hread
    refine ⟨_, hread, fun x hx => ?_⟩
    simp only [if_pos hx]
  others name hlive hother target := by
    obtain ⟨hlen, j, hj⟩ := hlive
    have hne : j ≠ i := by
      rintro rfl
      exact hother (Spells.sameName hj.2 hi.2)
    have hapart : fs.slot j ≠ fs.slot i := fun heq => hne (h.cluster_unique j i hj.1 heq)
    rw [hw.intact.readFile_eq hlen ((hw.carries j name hlen).mpr hj) target,
      h.readFile_eq hlen hj target, hw.sizeOf, Function.update_of_ne hne, hw.slot,
      hw.clusterData _ hj.1, if_neg hapart]
  liveName name := and_congr_right fun hlen => exists_congr fun j => hw.carries j name hlen
  areas := hw.areas
  mount := by
    obtain ⟨buffer, heq⟩ := mount_eq hw.intact.mounted.disk (hw.intact.reliable 0)
    rw [heq]

/-- Looking stores nothing. -/
theorem Intact.looks_stores (h : fs.Intact) (hlooks : fs.Looks op) :
    fs.Stores (fs.operate op) fs.disk.data := by
  have hm := h.mounted
  cases op with
  | mount => exact hm.mount_stores h.reliable
  | readFile name target => exact hm.looked_stores h.reliable (hm.readFile_looked name target)
  | _ => exact hlooks.elim

/-- A write to a live file succeeds, and from then on, whatever is read and however often the
disk is mounted again, `readFile` delivers what was written, and of every other file what it
delivered before. -/
theorem read_after_write {history : List (Move FileSystem Operation)} (h : fs.Intact)
    (hlive : fs.LiveName fileName) (hsize : 0 ≤ size) (hint : size < 2 ^ 31)
    (hrun : Run step Looks (fs.writeFile fileName buffer size).2 history fs') :
    (fs.writeFile fileName buffer size).1 = .ok () ∧ fs.Shows fileName buffer size fs' := by
  obtain ⟨hname, i, hi⟩ := hlive
  constructor
  · rw [writeFile, if_neg (by simp [h.mounted.isMounted])]
    simp only [h.findFile_eq hname hi]
  · have hw : fs.Wrote i buffer size fs' := by
      refine hrun.invariant (h.writeFile_wrote hname hi buffer size) ?_
      rintro t op u ht hlooks hstep
      exact Option.some.inj hstep ▸ ht.looked (ht.intact.looks_stores hlooks)
    exact hw.shows h hname hi hsize hint

/-- A disk with one file. -/
theorem small_created : smallA.Intact := by
  have hready := (fresh_of_format (fun _ => rfl) small_format small_mount).ready
  obtain ⟨hsmall, -⟩ := small_searches
  have hstep : small.FreshStep (.createFile [0x61]) := ⟨fun _ => .inr ⟨1, hsmall⟩, trivial⟩
  obtain ⟨hmounted, hreliable, -⟩ := hready.operate (hready.freshStep_marks hstep) trivial
  obtain ⟨hfirst, hdisk⟩ : (∀ i < maxFileCount, smallA.slot i ≠ 0 → i = 0) ∧
      smallA.OnDisk (smallA.slot 0) := by decide +kernel
  have honly {i : ℕ} (hi : smallA.slot i ≠ 0) : i = 0 := hfirst i (slot_lt hi) hi
  refine ⟨hmounted, hreliable, fun i hi => ?_, fun i j hi hij => ?_, fun i j name _ hi hj => ?_⟩
  · rw [honly hi]
    exact hdisk
  · rw [honly hi]
    rw [hij] at hi
    exact (honly hi).symm
  · rw [honly hi.1, honly hj.1]

/-- A disk with two files. -/
theorem smallBC_intact : smallBC.Intact := by
  have hready : smallBC.Ready := by
    refine small_freshRun.invariant (fresh_of_format (fun _ => rfl) small_format small_mount).ready ?_
    intro t op u hready hstep hu
    exact Option.some.inj hu ▸ hready.operate (hready.freshStep_marks hstep) hstep.2
  obtain ⟨hnames, hdisk⟩ : smallBC.dir 1 0 ≠ smallBC.dir 2 0 ∧ smallBC.OnDisk 4 ∧
      smallBC.OnDisk 7 := by decide +kernel
  have hslots : ∀ i < maxFileCount, [0, 4, 7].getD i 0 ≠ 0 →
      (i = 1 ∨ i = 2) ∧ [0, 4, 7].getD i 0 = 1 + 3 * i := by decide
  have hslot {i : ℕ} (hi : smallBC.slot i ≠ 0) :
      (i = 1 ∨ i = 2) ∧ smallBC.slot i = 1 + 3 * i := by
    have htable := (small_slots i (slot_lt hi)).2
    rw [htable] at hi ⊢
    exact hslots i (slot_lt (htable ▸ hi)) hi
  refine ⟨hready.mounted, hready.reliable, fun i hi => ?_, fun i j hi hij => ?_,
    fun i j name _ hi hj => ?_⟩
  · obtain ⟨rfl | rfl, heq⟩ := hslot hi <;> rw [heq]
    · exact hdisk.1
    · exact hdisk.2
  · have hslotI := (hslot hi).2
    have hslotJ := (hslot (hij ▸ hi)).2
    omega
  · have hsame := (hi.2 0 (Nat.zero_le _)).trans (hj.2 0 (Nat.zero_le _)).symm
    obtain ⟨rfl | rfl, -⟩ := hslot hi.1 <;> obtain ⟨rfl | rfl, -⟩ := hslot hj.1
    · rfl
    · exact absurd hsame hnames
    · exact absurd hsame.symm hnames
    · rfl

theorem remount_run (fs : FileSystem) :
    Run step Looks fs [⟨fs, .mount, fs.operate .mount⟩] (fs.operate .mount) := by
  have hlooks : fs.Looks .mount := trivial
  exact Run.start.next hlooks rfl

/-- File `b` is written next to file `c`, and the disk mounted again. -/
theorem read_after_write_first :
    (smallBC.writeFile [0x62] (fun _ => 7) 5).1 = .ok () ∧
      smallBC.Shows [0x62] (fun _ => 7) 5
        ((smallBC.writeFile [0x62] (fun _ => 7) 5).2.operate .mount) :=
  have hslot : smallBC.slot 1 ≠ 0 := by
    rw [(small_slots 1 (by decide)).2]
    decide
  read_after_write smallBC_intact ⟨by decide, 1, hslot, by decide +kernel⟩
    (by decide) (by decide) (remount_run _)

end FileSystem
end SkhuOS
