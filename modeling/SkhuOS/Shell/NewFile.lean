import SkhuOS.Shell.Editor

/-! What a new file shows: its directory entry says that it is empty, but its cluster holds what
the disk held there before. -/
namespace SkhuOS
open Foundation

namespace FileSystem

variable {fs fs' : FileSystem} {name : CString} {c d i : ℕ}

/-- `readFile` of the new file returns 0, and the editor finds a NUL and an empty text in its
buffer. -/
def NewFileEmpty (fs : FileSystem) (name : CString) : Prop :=
  ∀ target screen, ∃ contents e,
    ((fs.operate (.createFile name)).readFile name target).1 = .ok (0, contents) ∧
    runEditor (fs.operate (.createFile name)) name target screen = some e ∧
    (∃ n < editorSize, e.buffer n = 0) ∧ stringAt e.buffer 0 editorSize = []

theorem newEntry_size : readLE (newEntry name c) fileSizeOffset 4 = 0 := by
  unfold newEntry
  rw [readLE_writeLE]
  rfl

/-- Where no entry in use had the name before, the new entry is the one that is found, unless its
cluster is 0. -/
theorem Mounted.findFile_created (h : fs.Mounted) (hr : fs.disk.Reliable)
    (hshort : strlen name < maxFileName) (hroom : (fs.findRoom name).1 = .ok (d, c))
    (hc : c < fs.entries) :
    (fs.operate (.createFile name)).readRoot.findFile name = if c = 0 then none else some d := by
  have hfound := (findRoom_spec h.cursor name).2 d c hroom
  have hstores := h.createFile_stores hr hroom hc
  obtain ⟨-, hdir⟩ := h.createFile_change hr hroom hc
  have hcluster : readLE (newEntry name c) clusterIdxOffset 4 = c :=
    newEntry_cluster (hc.trans h.layout.2.2.2)
  have hiff {j : ℕ} := hstores.mounted.findFile_iff (hstores.reliable hr) hshort (i := j)
  have hunknown (j : ℕ) : ¬ fs.Carries j name := by
    intro hcarries
    have hj := slot_lt hcarries.1
    have hlive : fs.readRoot.entryCluster j ≠ 0 :=
      ne_of_eq_of_ne (h.entryCluster_readRoot hr hj) hcarries.1
    have hlen : strlen name < fileInformationSize := hshort.trans (by decide)
    exact hfound.unknown j hj hlive ((h.entryCmp_eq_zero hr hj (.inl hlen)).mpr hcarries.2)
  have honly (j : ℕ) : (fs.createFile name).2.Carries j name ↔ j = d ∧ c ≠ 0 := by
    rw [carries_update hdir, hcluster]
    split
    next hjd => exact ⟨fun hnew => ⟨hjd, hnew.1⟩, fun hnew => ⟨hnew.2, newEntry_spells hshort⟩⟩
    next hjd => exact ⟨fun hold => absurd hold (hunknown j), fun hnew => absurd hnew.1 hjd⟩
  show (fs.createFile name).2.readRoot.findFile name = _
  split
  next hzero =>
    cases hfile : (fs.createFile name).2.readRoot.findFile name with
    | none => rfl
    | some j => exact absurd hzero ((honly j).mp (hiff.mp hfile).1).2
  next hpos =>
    refine hiff.mpr ⟨(honly d).mpr ⟨rfl, hpos⟩, fun j hj hcarries => ?_⟩
    exact absurd ((honly j).mp hcarries).1 hj.ne

/-- The cluster of a new file still holds what the disk held there. -/
theorem Mounted.readFile_created (h : fs.Mounted) (hr : fs.disk.Reliable)
    (hshort : strlen name < maxFileName) (hroom : (fs.findRoom name).1 = .ok (d, c))
    (hdisk : fs.OnDisk c) (hpos : c ≠ 0) (target : Bytes) :
    ((fs.operate (.createFile name)).readFile name target).1 =
      .ok (0, fun x => if x < clusterSize then fs.clusterData c x else target x) := by
  have hc := h.onDisk_lt hdisk
  have hfound := h.findFile_created hr hshort hroom hc
  rw [if_neg hpos] at hfound
  have hroomFound := (findRoom_spec h.cursor name).2 d c hroom
  have hstores := h.createFile_stores hr hroom hc
  obtain ⟨-, hdir⟩ := h.createFile_change hr hroom hc
  have hlayout := h.layout
  have hslot : (fs.createFile name).2.slot d = c := by
    rw [slot_of_dir hdir, Function.update_self]
    exact newEntry_cluster (hc.trans hlayout.2.2.2)
  have hsize : (fs.createFile name).2.sizeOf d = 0 := by
    rw [sizeOf, hdir, Function.update_self]
    exact newEntry_size
  have hdata : (fs.createFile name).2.clusterData c = fs.clusterData c := by
    refine hstores.clusterData_behind (fun x hx => ?_) hpos
    have hdlt := hroomFound.slot_lt
    simp only [fileInformationSize, maxFileCount, linkSize, clusterSize] at *
    rw [copyBytes_of_not_mem (by omega), writeLE_of_not_mem (by omega)]
  have hread := hstores.mounted.readFile_eq (hstores.reliable hr) hfound
    ((hstores.onDisk _).mpr (hslot ▸ hdisk)) target
  rw [hslot, hsize, hdata] at hread
  exact hread

/-- From a successful `format` of any disk on, as long as all searches lead to clusters on the
disk: a new file is empty exactly if its cluster is not the root directory's and starts with a
NUL on the disk. -/
theorem new_file_empty_iff {fs₁ fs₂ fs₃ : FileSystem}
    {history : List (Move FileSystem Operation)} (hformat : fs.format = (true, fs₁))
    (hmount : fs₁.mount = (.ok (), fs₂)) (hrun : Run step SearchConfined fs₂ history fs₃)
    (hr : fs₃.disk.Reliable) (hshort : strlen name < maxFileName)
    (hok : fs₃.SearchConfined (.createFile name)) (hroom : (fs₃.findRoom name).1 = .ok (d, c)) :
    fs₃.NewFileEmpty name ↔ c ≠ 0 ∧ fs₃.clusterData c 0 = 0 := by
  have hsafe : fs₃.Safe := by
    refine hrun.invariant (safe_of_format hformat hmount) ?_
    intro t op u hsafe hconfined hstep
    exact Option.some.inj hstep ▸ hsafe.operate hconfined
  have hm := hsafe.mounted
  have hdisk : fs₃.OnDisk c := hok.room ((findRoom_spec hm.cursor name).2 d c hroom)
  constructor
  · intro hempty
    obtain ⟨contents, e, hread, hstart, -, htext⟩ := hempty (fun _ => 0) ⟨0, fun _ => ⟨0, 0⟩⟩
    have hpos : c ≠ 0 := by
      intro hzero
      have hnone := hm.findFile_created hr hshort hroom (hm.onDisk_lt hdisk)
      rw [if_pos hzero] at hnone
      have hmounted : (fs₃.operate (.createFile name)).isMounted = true :=
        (hm.createFile_stores hr hroom (hm.onDisk_lt hdisk)).mounted.isMounted
      rw [readFile, if_neg (by simpa using hmounted)] at hread
      simp only [hnone] at hread
      cases hread
    refine ⟨hpos, ?_⟩
    have hcontents := hm.readFile_created hr hshort hroom hdisk hpos fun _ => 0
    have hbuffer := Editor.runEditor_eq ⟨0, fun _ => ⟨0, 0⟩⟩ (Prod.ext hcontents rfl) (by decide)
    obtain rfl := Option.some.inj (hbuffer.symm.trans hstart)
    have hnul := (stringAt_eq_nil (show 0 < editorSize by decide)).mp htext
    exact hnul
  · rintro ⟨hpos, hzero⟩ target screen
    have hread := hm.readFile_created hr hshort hroom hdisk hpos target
    have hfirst : (if 0 < clusterSize then fs₃.clusterData c 0 else target 0) = 0 := hzero
    refine ⟨_, _, hread, Editor.runEditor_eq screen (Prod.ext hread rfl) (by decide), ?_, ?_⟩
    · exact ⟨0, by decide, hfirst⟩
    · exact (stringAt_eq_nil (by decide)).mpr hfirst

/-- What the searches for `a`, `b`, `c` and `d` read first and hand out. -/
theorem small_scans :
    (small.sectorStart ≤ 1 ∧ small.atSearch.scanned (1 - small.sectorStart) = 0 ∧
      small.OnDisk (1 + small.cursorOffset)) ∧
    (smallA.sectorStart ≤ 2 ∧ smallA.atSearch.scanned (2 - smallA.sectorStart) = 0 ∧
      smallA.OnDisk (2 + smallA.cursorOffset)) ∧
    (smallAB.sectorStart ≤ 2 ∧ smallAB.atSearch.scanned (2 - smallAB.sectorStart) = 0 ∧
      smallAB.OnDisk (2 + smallAB.cursorOffset)) ∧
    (smallBC.sectorStart ≤ 1 ∧ smallBC.atSearch.scanned (1 - smallBC.sectorStart) = 0 ∧
      smallBC.OnDisk (1 + smallBC.cursorOffset)) := by
  decide +kernel

/-- File `d` behind `a`, `b` and `c`, of which `a` was deleted. -/
theorem new_file_empty_first :
    smallBC.NewFileEmpty [0x64] ↔ 9 ≠ 0 ∧ smallBC.clusterData 9 0 = 0 := by
  obtain ⟨hsmall, hsmallA, hsmallAB, hsmallBC⟩ := small_scans
  have hrun : Run step SearchConfined small _ smallBC := small_run
    (fun _ => .inr ⟨1, hsmall⟩) (fun _ => .inr ⟨2, hsmallA⟩) (fun _ => .inr ⟨2, hsmallAB⟩) trivial
  have hok : smallBC.SearchConfined (.createFile [0x64]) := fun _ => .inr ⟨1, hsmallBC⟩
  have hroom : (smallBC.findRoom [0x64]).1 = .ok (3, 9) := by decide +kernel
  exact new_file_empty_iff small_format small_mount hrun smallBC_intact.reliable (by decide) hok hroom

theorem hundred_sectors : 100 < 2 ^ 28 := by decide

/-- A disk full of `A`s from before. -/
def written : FileSystem :=
  { blank 100 hundred_sectors with
    disk := { (blank 100 hundred_sectors).disk with data := fun _ => 0x41 } }

/-- Its first file has size 0 and no NUL at its start. -/
theorem old_data_visible : written.format.1 = true ∧
    written.format.2.mount.1 = .ok () ∧
    (written.format.2.mount.2.findRoom [0x61]).1 = .ok (0, 1) ∧
    ¬ written.format.2.mount.2.NewFileEmpty [0x61] := by
  refine ⟨by decide +kernel, by decide +kernel, by decide +kernel, fun hempty => ?_⟩
  obtain ⟨contents, e, -, hstart, -, htext⟩ := hempty (fun _ => 0) ⟨0, fun _ => ⟨0, 0⟩⟩
  have hshown : (runEditor (written.format.2.mount.2.operate (.createFile [0x61])) [0x61]
      (fun _ => 0) ⟨0, fun _ => ⟨0, 0⟩⟩).map (fun e => e.buffer 0) = some 0x41 := by
    decide +kernel
  rw [hstart] at hshown
  have hnul : e.buffer 0 = 0 := (stringAt_eq_nil (by decide)).mp htext
  rw [Option.map_some, hnul] at hshown
  exact absurd hshown (by decide)

end FileSystem
end SkhuOS
