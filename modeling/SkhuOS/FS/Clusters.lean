import SkhuOS.FS.Runs

/-! Who owns a cluster. The live directory entries hold the clusters, the FAT records which
are in use: searches with a free entry to hand keep the holders apart, deletions of live
entries keep the record exact. -/
namespace SkhuOS
open Foundation

namespace FileSystem

variable {fs fs' : FileSystem} {op : Operation} {fileName : CString} {c d e i : ℕ}

/-- The files and their clusters; cluster 0 is the root directory. -/
def allocation (fs : FileSystem) : Allocation ℕ ℕ where
  held i := if fs.slot i = 0 then none else some (fs.slot i)
  used := {c | c ≠ 0 ∧ fs.fat c ≠ 0}

theorem held_eq_some : fs.allocation.held i = some c ↔ c ≠ 0 ∧ fs.slot i = c := by
  simp only [allocation]
  split
  next h => exact ⟨fun heq => (nomatch heq), fun ⟨hc, hi⟩ => absurd (hi.symm.trans h) (hi ▸ hc)⟩
  next h => exact ⟨fun heq => Option.some.inj heq ▸ ⟨h, rfl⟩, fun ⟨_, hi⟩ => congrArg some hi⟩

theorem allocation_ext (hheld : ∀ i, fs'.slot i = fs.slot i)
    (hused : ∀ c ≠ 0, fs'.fat c = fs.fat c) : fs'.allocation = fs.allocation := by
  refine Allocation.ext (funext fun i => ?_) (Set.ext fun c => and_congr_right fun hc => ?_)
  · simp only [allocation, hheld]
  · rw [hused c hc]

/-- A new file takes its cluster, unless that is cluster 0. -/
theorem allocation_created (hfree : fs.slot d = 0)
    (hfat : fs'.fat = Function.update fs.fat c 0xFFFFFFFF)
    (hslot : fs'.slot = Function.update fs.slot d c) :
    fs'.allocation = if c = 0 then fs.allocation else fs.allocation.take d c := by
  split
  next hc =>
    refine allocation_ext (fun i => ?_) fun e he => ?_
    · rw [hslot, hc, ← hfree, Function.update_eq_self]
    · rw [hfat, Function.update_of_ne (hc ▸ he)]
  next hc =>
    have hheld : fs'.allocation.held = (fs.allocation.take d c).held := by
      funext i
      simp only [allocation, Allocation.take, hslot, Function.update_apply]
      by_cases hi : i = d
      · simp only [hi, if_true, if_neg hc]
      · simp only [if_neg hi]
    have hused : fs'.allocation.used = (fs.allocation.take d c).used := by
      refine Set.ext fun e => ?_
      simp only [allocation, Allocation.take, hfat, Set.mem_ofPred_eq, Set.mem_insert_iff]
      by_cases he : e = c
      · simp [he, hc]
      · simp only [Function.update_of_ne he, he, false_or]
    exact Allocation.ext hheld hused

/-- A deleted file drops its cluster, if it is one. -/
theorem allocation_deleted (hfat : fs'.fat = Function.update fs.fat (fs.slot i) 0)
    (hslot : fs'.slot = Function.update fs.slot i 0) : fs'.allocation =
      if fs.slot i = 0 then fs.allocation else fs.allocation.drop i (fs.slot i) := by
  split
  next hi =>
    refine allocation_ext (fun j => ?_) fun e he => ?_
    · rw [hslot, ← hi, Function.update_eq_self]
    · rw [hfat, Function.update_of_ne (hi ▸ he)]
  next hi =>
    have hheld : fs'.allocation.held = (fs.allocation.drop i (fs.slot i)).held := by
      funext j
      simp only [allocation, Allocation.drop, hslot, Function.update_apply]
      by_cases hj : j = i
      · simp only [hj, if_true]
      · simp only [if_neg hj]
    have hused : fs'.allocation.used = (fs.allocation.drop i (fs.slot i)).used := by
      refine Set.ext fun e => ?_
      simp only [allocation, Allocation.drop, hfat, Set.mem_ofPred_eq, Set.mem_sdiff,
        Set.mem_singleton_iff]
      by_cases he : e = fs.slot i
      · simp [he]
      · simp only [Function.update_of_ne he, he, not_false_eq_true, and_true]
    exact Allocation.ext hheld hused

/-- The cluster behind the first free entry, as far as the cursor lies in its sector, has a
free entry in the FAT too. -/
def FreeAhead (fs : FileSystem) (e : ℕ) : Prop :=
  e + fs.cursorOffset < fs.entries ∧ fs.fat (e + fs.cursorOffset) = 0

instance (fs : FileSystem) (e : ℕ) : Decidable (fs.FreeAhead e) :=
  inferInstanceAs (Decidable (_ ∧ _))

/-- The steps of a run in which every search meets such an entry, and transfers succeed. -/
def FreshStep (fs : FileSystem) (op : Operation) : Prop :=
  SearchMeets FreeAhead fs op ∧ fs.WritesOnDisk op

theorem Ready.fresh_room (h : fs.Ready) (hstep : fs.FreshStep (.createFile fileName))
    (hok : (fs.findRoom fileName).1 = .ok (d, c)) : c < fs.entries ∧ fs.fat c = 0 := by
  obtain ⟨e, -, hgood, rfl⟩ := h.searchMeets hstep.1
    ((findRoom_spec h.mounted.cursor fileName).2 d c hok)
  exact hgood

theorem Ready.freshStep_marks (h : fs.Ready) (hstep : fs.FreshStep op) : fs.MarksInFat op := by
  cases op with
  | createFile fileName => exact fun d c hok => (h.fresh_room hstep hok).1
  | _ => trivial

/-- Such a step keeps every cluster with one owner at most. -/
theorem Ready.exclusive_step (h : fs.Ready) (hstep : fs.FreshStep op)
    (hex : fs.allocation.Exclusive) : (fs.operate op).allocation.Exclusive := by
  have hmarks := h.freshStep_marks hstep
  obtain ⟨⟨data, hstores⟩, hchange⟩ := h.operate_spec hmarks hstep.2
  generalize fs.operate op = fs' at hstores hchange
  cases hchange with
  | still _ hsame =>
    have hslot (i : ℕ) : fs'.slot i = fs.slot i := by
      rw [slot, dir_congr hsame hstores.fatInfor, slot]
    have hsame : fs'.allocation = fs.allocation :=
      allocation_ext hslot fun c _ => congrFun (fat_congr hsame hstores.fatInfor) c
    rwa [hsame]
  | created hok hfound hfat hdir =>
    obtain ⟨hc, hfree⟩ := h.fresh_room hstep hok
    rw [allocation_created (h.mounted.room_free h.reliable hfound).1 hfat
      (slot_created hdir (hc.trans h.mounted.layout.2.2.2))]
    split
    · exact hex
    · exact hex.take fun hused => hused.2 hfree
  | deleted hname hfat hdir =>
    rw [allocation_deleted hfat (slot_deleted hdir)]
    split
    · exact hex
    next hi => exact hex.drop (held_eq_some.mpr ⟨hi, rfl⟩)
  | written hname hfat hdir =>
    have hsame : fs'.allocation = fs.allocation :=
      allocation_ext (congrFun (slot_written hdir)) fun c _ => congrFun hfat c
    rwa [hsame]

theorem Fresh.allocation_held (h : fs.Fresh) (i : ℕ) : fs.allocation.held i = none := by
  have hslot : fs.slot i = 0 := readLE_eq_zero.mpr fun x _ => h.dir_eq i _
  simp only [allocation, hslot, if_true]

/-- From a successful `format` and `mount` on, as long as every search that meets a free
entry meets one with a free entry ahead, the clusters handed out have a zero FAT entry and
no two live entries share a cluster. -/
theorem clusters_exclusive {fs₁ fs₂ fs₃ : FileSystem}
    {history : List (Move FileSystem Operation)} (hr : fs.disk.Reliable)
    (hformat : fs.format = (true, fs₁)) (hmount : fs₁.mount = (.ok (), fs₂))
    (hrun : Run step FreshStep fs₂ history fs₃) :
    (∀ m ∈ history, ∀ fileName d c, m.label = .createFile fileName →
      (m.before.findRoom fileName).1 = .ok (d, c) → c < m.before.entries ∧ m.before.fat c = 0) ∧
    ∀ i j, fs₃.slot i ≠ 0 → fs₃.slot i = fs₃.slot j → i = j := by
  have hfresh := fresh_of_format hr hformat hmount
  have hstart : fs₂.allocation.Exclusive :=
    ⟨fun i c hi => (nomatch (hfresh.allocation_held i).symm.trans hi),
      fun i j c hi => (nomatch (hfresh.allocation_held i).symm.trans hi)⟩
  obtain ⟨hbefore, -, hex⟩ := hrun.invariant_moves
    (P := fun fs => fs.Ready ∧ fs.allocation.Exclusive) ⟨hfresh.ready, hstart⟩
    fun t op u ⟨hready, hex⟩ hok hstep => Option.some.inj hstep ▸
      ⟨hready.operate (hready.freshStep_marks hok) hok.2, hready.exclusive_step hok hex⟩
  refine ⟨fun m hm fileName d c hlabel hok => ?_, fun i j hi hij => ?_⟩
  · have hstep := (hrun.move_mem hm).1
    rw [hlabel] at hstep
    exact (hbefore m hm).1.fresh_room hstep hok
  · exact hex.eq_of_held i j _ (held_eq_some.mpr ⟨hi, rfl⟩) (held_eq_some.mpr ⟨hi, hij.symm⟩)

/-- A disk of 100 sectors, formatted and mounted. -/
def small : FileSystem := (blank 100 (by decide)).format.2.mount.2

theorem small_format : (blank 100 (by decide)).format =
    (true, (blank 100 (by decide)).format.2) := Prod.ext (by decide +kernel) rfl

theorem small_mount : (blank 100 (by decide)).format.2.mount = (.ok (), small) :=
  Prod.ext (by decide +kernel) rfl

/-- The small disk with files `a`, `b` and `c` one after the other, and without `a` again. -/
def smallA : FileSystem := small.operate (.createFile [0x61])
def smallAB : FileSystem := smallA.operate (.createFile [0x62])
def smallABC : FileSystem := smallAB.operate (.createFile [0x63])
def smallBC : FileSystem := smallABC.operate (.deleteFile [0x61])

theorem small_searches : (small.FirstFree 1 ∧ small.FreeAhead 1) ∧
    (smallA.FirstFree 2 ∧ smallA.FreeAhead 2) ∧ smallAB.FirstFree 2 ∧ smallAB.FreeAhead 2 := by
  decide +kernel

theorem small_slots : ∀ j < maxFileCount,
    smallABC.slot j = [1, 4, 7].getD j 0 ∧ smallBC.slot j = [0, 4, 7].getD j 0 := by
  decide +kernel

/-- The runs that create the three files and delete the first. -/
theorem small_run {ok : FileSystem → Operation → Prop} (ha : ok small (.createFile [0x61]))
    (hb : ok smallA (.createFile [0x62])) (hc : ok smallAB (.createFile [0x63]))
    (hdelete : ok smallABC (.deleteFile [0x61])) : Run step ok small
      [⟨small, .createFile [0x61], smallA⟩, ⟨smallA, .createFile [0x62], smallAB⟩,
        ⟨smallAB, .createFile [0x63], smallABC⟩, ⟨smallABC, .deleteFile [0x61], smallBC⟩] smallBC :=
  (((Run.start.next ha rfl).next hb rfl).next hc rfl).next hdelete rfl

theorem small_freshRun : Run step FreshStep small
    [⟨small, .createFile [0x61], smallA⟩, ⟨smallA, .createFile [0x62], smallAB⟩,
      ⟨smallAB, .createFile [0x63], smallABC⟩, ⟨smallABC, .deleteFile [0x61], smallBC⟩] smallBC :=
  have ⟨hsmall, hsmallA, hsmallAB⟩ := small_searches
  small_run ⟨fun _ => .inr ⟨1, hsmall⟩, trivial⟩ ⟨fun _ => .inr ⟨2, hsmallA⟩, trivial⟩
    ⟨fun _ => .inr ⟨2, hsmallAB⟩, trivial⟩ ⟨trivial, trivial⟩

/-- `b` and `c` keep clusters of their own. -/
theorem clusters_exclusive_first : smallBC.slot 1 = 4 ∧ smallBC.slot 2 ≠ smallBC.slot 1 := by
  have hex := (clusters_exclusive (fun _ => rfl) small_format small_mount small_freshRun).2
  have hslot : smallBC.slot 1 = 4 := (small_slots 1 (by decide)).2
  refine ⟨hslot, fun hshared => ?_⟩
  have hsame : 2 = 1 := hex 2 1 (by rw [hshared, hslot]; decide) hshared
  exact absurd hsame (by decide)

/-- Two files come to share cluster 4: `a` and `b` take clusters 1 and 4, `a` is deleted and
the cursor reset, so that the search for `d` starts at cursor 2 with the first free entry. -/
theorem cluster_shared : ∃ fs, follow step small [.createFile [0x61], .createFile [0x62],
    .deleteFile [0x61], .mount, .createFile [0x63]] = some fs ∧
      (fs.findRoom [0x64]).1 = .ok (2, 4) ∧ fs.fat 4 = 0xFFFFFFFF ∧
      (fs.operate (.createFile [0x64])).slot 1 = 4 ∧
      (fs.operate (.createFile [0x64])).slot 2 = 4 :=
  ⟨_, rfl, by decide +kernel⟩

end FileSystem
end SkhuOS
