import SkhuOS.FS.Clusters

/-! The FAT as a mirror of the directory: it is exact as long as searches end in the FAT and
`deleteFile` meets a live entry, the only owner of its cluster. -/
namespace SkhuOS
open Foundation

namespace FileSystem

variable {fs fs' : FileSystem} {op : Operation} {fileName : CString}

/-- The cluster behind the first free entry has an entry in the FAT. -/
def EntryAhead (fs : FileSystem) (e : ℕ) : Prop := e + fs.cursorOffset < fs.entries

/-- The first entry with the name to delete, if there is one, is in use, and no other entry
has its cluster. -/
def DeletesSole (fs : FileSystem) : Operation → Prop
  | .deleteFile fileName => ∀ i, fs.readRoot.findName fileName = some i →
    fs.slot i ≠ 0 ∧ ∀ j, fs.slot j = fs.slot i → j = i
  | _ => True

def MirrorStep (fs : FileSystem) (op : Operation) : Prop :=
  SearchMeets EntryAhead fs op ∧ fs.DeletesSole op ∧ fs.WritesOnDisk op

/-- The root directory owns cluster 0, the files own exactly the other clusters in use. -/
structure Exact (fs : FileSystem) : Prop where
  ready : fs.Ready
  root : fs.fat 0 = 0xFFFFFFFF
  mirrored : fs.allocation.Mirrored

theorem Ready.mirrorStep_marks (h : fs.Ready) (hstep : fs.MirrorStep op) : fs.MarksInFat op := by
  cases op with
  | createFile fileName =>
    intro d c hok
    obtain ⟨e, -, hgood, rfl⟩ := h.searchMeets hstep.1
      ((findRoom_spec h.mounted.cursor fileName).2 d c hok)
    exact hgood
  | _ => trivial

theorem Exact.operate (h : fs.Exact) (hstep : fs.MirrorStep op) : (fs.operate op).Exact := by
  have hready := h.ready
  have hmarks := hready.mirrorStep_marks hstep
  refine ⟨hready.operate hmarks hstep.2.2, ?_, ?_⟩ <;>
    obtain ⟨⟨data, hstores⟩, hchange⟩ := hready.operate_spec hmarks hstep.2.2 <;>
    generalize fs.operate op = fs' at hstores hchange
  · cases hchange with
    | still _ hsame => rw [fat_congr hsame hstores.fatInfor, h.root]
    | created hok hfound hfat hdir =>
      obtain ⟨e, hfree, -, rfl⟩ := hready.searchMeets hstep.1 hfound
      have hne : 0 ≠ e + fs.cursorOffset := fun hzero => by
        have hfree0 := hfree.free
        rw [show e = 0 by omega, h.root] at hfree0
        exact nomatch hfree0
      rw [hfat, Function.update_of_ne hne, h.root]
    | deleted hname hfat hdir =>
      rw [hfat, Function.update_of_ne (hstep.2.1 _ hname).1.symm, h.root]
    | written hname hfat hdir => rw [hfat, h.root]
  · cases hchange with
    | still _ hsame =>
      have hslot (i : ℕ) : fs'.slot i = fs.slot i := by
        rw [slot, dir_congr hsame hstores.fatInfor, slot]
      have hsame : fs'.allocation = fs.allocation :=
        allocation_ext hslot fun c _ => congrFun (fat_congr hsame hstores.fatInfor) c
      rw [hsame]
      exact h.mirrored
    | created hok hfound hfat hdir =>
      have hc := hmarks _ _ hok
      have hd := (hready.mounted.room_free hready.reliable hfound).1
      rw [allocation_created hd hfat (slot_created hdir (hc.trans hready.mounted.layout.2.2.2))]
      split
      · exact h.mirrored
      · refine h.mirrored.take ?_
        simp only [allocation, hd, if_true]
    | deleted hname hfat hdir =>
      obtain ⟨hlive, hsole⟩ := hstep.2.1 _ hname
      rw [allocation_deleted hfat (slot_deleted hdir), if_neg hlive]
      exact h.mirrored.drop (held_eq_some.mpr ⟨hlive, rfl⟩) fun j hj =>
        hsole j (held_eq_some.mp hj).2
    | written hname hfat hdir =>
      have hsame : fs'.allocation = fs.allocation :=
        allocation_ext (congrFun (slot_written hdir)) fun c _ => congrFun hfat c
      rw [hsame]
      exact h.mirrored

/-- Deleting a name that no live entry carries leaves the disk alone. -/
theorem Ready.deleteFile_unknown (h : fs.Ready) (hsole : fs.DeletesSole (.deleteFile fileName))
    (hunknown : ∀ i, fs.slot i ≠ 0 → fs.readRoot.entryCmp i fileName ≠ 0) :
    (fs.operate (.deleteFile fileName)).disk = fs.disk := by
  cases hname : fs.readRoot.findName fileName with
  | none =>
    have hdelete : fs.operate (.deleteFile fileName) = fs.readRoot := by
      simp only [FileSystem.operate, deleteFile, h.mounted.isMounted, hname, Bool.not_true,
        Bool.false_eq_true, if_false]
    rw [hdelete]
    exact (h.mounted.readRoot_stores h.reliable).disk
  | some i => exact absurd (findName_some hname).2.1 (hunknown i (hsole i hname).1)

/-- From a successful `format` and `mount` on, as long as every step meets the condition, the
FAT mirrors the directory. -/
theorem fat_mirrors {fs₁ fs₂ fs₃ : FileSystem} {history : List (Move FileSystem Operation)}
    (hr : fs.disk.Reliable) (hformat : fs.format = (true, fs₁))
    (hmount : fs₁.mount = (.ok (), fs₂)) (hrun : Run step MirrorStep fs₂ history fs₃) :
    fs₃.fat 0 = 0xFFFFFFFF ∧
      (∀ c, 0 < c → c < fs₃.entries → (fs₃.fat c ≠ 0 ↔ ∃ i < maxFileCount, fs₃.slot i = c)) ∧
      ∀ m ∈ history, ∀ fileName, m.label = .deleteFile fileName →
        (∀ i, m.before.slot i ≠ 0 → m.before.readRoot.entryCmp i fileName ≠ 0) →
        m.after.disk = m.before.disk := by
  have hfresh := fresh_of_format hr hformat hmount
  have hstart : fs₂.Exact := by
    refine ⟨hfresh.ready, hfresh.fat_eq 0, fun c => ?_⟩
    have hfree : c ∉ fs₂.allocation.used := fun hused => by
      have hfat := hfresh.fat_eq c
      rw [if_neg hused.1] at hfat
      exact hused.2 hfat
    exact ⟨fun hused => absurd hused hfree, fun ⟨i, hi⟩ =>
      (nomatch (hfresh.allocation_held i).symm.trans hi)⟩
  obtain ⟨hbefore, hexact⟩ := hrun.invariant_moves hstart fun t op u hexact hok hstep =>
    Option.some.inj hstep ▸ hexact.operate hok
  refine ⟨hexact.root, fun c hc _ => ?_, fun m hm fileName hlabel hunknown => ?_⟩
  · have hmirror := hexact.mirrored c
    constructor
    · intro hused
      obtain ⟨i, hi⟩ := hmirror.mp ⟨hc.ne', hused⟩
      obtain ⟨hne, hslot⟩ := held_eq_some.mp hi
      exact ⟨i, slot_lt (hslot ▸ hne), hslot⟩
    · rintro ⟨i, -, hslot⟩
      exact (hmirror.mpr ⟨i, held_eq_some.mpr ⟨hc.ne', hslot⟩⟩).2
  · obtain ⟨hok, hstep⟩ := hrun.move_mem hm
    rw [hlabel] at hok hstep
    rw [← Option.some.inj hstep]
    exact (hbefore m hm).ready.deleteFile_unknown hok.2.1 hunknown

theorem small_deletesSole : smallABC.DeletesSole (.deleteFile [0x61]) := by
  have hname : smallABC.readRoot.findName [0x61] = some 0 := by decide +kernel
  intro i hi
  obtain rfl : 0 = i := Option.some.inj (hname.symm.trans hi)
  have hlive : smallABC.slot 0 = 1 := (small_slots 0 (by decide)).1
  refine ⟨by rw [hlive]; decide, fun j hj => ?_⟩
  rw [hlive] at hj
  rw [(small_slots j (slot_lt (by rw [hj]; decide))).1] at hj
  rcases j with _ | _ | _ | j
  · rfl
  all_goals simp at hj

/-- The FAT holds `b` and `c` after `a` was deleted. -/
theorem fat_mirrors_first : smallBC.fat 0 = 0xFFFFFFFF ∧ smallBC.fat 1 = 0 ∧ smallBC.fat 7 ≠ 0 := by
  obtain ⟨⟨hfree, hahead⟩, ⟨hfreeA, haheadA⟩, hfreeAB, haheadAB⟩ := small_searches
  have hrun : Run step MirrorStep small _ smallBC := small_run
    ⟨fun _ => .inr ⟨1, hfree, hahead.1⟩, trivial, trivial⟩
    ⟨fun _ => .inr ⟨2, hfreeA, haheadA.1⟩, trivial, trivial⟩
    ⟨fun _ => .inr ⟨2, hfreeAB, haheadAB.1⟩, trivial, trivial⟩
    ⟨trivial, small_deletesSole, trivial⟩
  obtain ⟨hroot, hmirror, -⟩ := fat_mirrors (fun _ => rfl) small_format small_mount hrun
  have hentries : 7 < smallBC.entries := by decide +kernel
  refine ⟨hroot, ?_, (hmirror 7 (by decide) hentries).mpr
    ⟨2, by decide, (small_slots 2 (by decide)).2⟩⟩
  by_contra hused
  obtain ⟨i, hi, hslot⟩ := (hmirror 1 (by decide) (by omega)).mp hused
  have hslots : ∀ i < maxFileCount, [0, 4, 7].getD i 0 ≠ 1 := by decide
  exact hslots i hi ((small_slots i hi).2.symm.trans hslot)

/-- `deleteFile` of the empty name meets a directory entry that was never used and frees
cluster 0, the root directory. -/
theorem root_freed : ∃ fs, follow step small [.deleteFile []] = some fs ∧ small.fat 0 = 0xFFFFFFFF ∧
    (∀ i < maxFileCount, small.slot i = 0) ∧ fs.fat 0 = 0 :=
  ⟨_, rfl, by decide +kernel⟩

end FileSystem
end SkhuOS
