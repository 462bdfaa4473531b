import SkhuOS.FS.Folder

/-! A session without a second `mount`. The cursor of the search only moves on, and all behind it
has never been handed out: no condition on the FAT is needed. -/
namespace SkhuOS
open Foundation

namespace FileSystem

variable {fs fs' : FileSystem} {op : Operation} {name : CString} {c d e : ℕ}

/-- `createFile` of this name takes cluster `c`. -/
def HandsOut (fs : FileSystem) (op : Operation) (c : ℕ) : Prop :=
  ∃ name d, op = .createFile name ∧ (fs.findRoom name).1 = .ok (d, c)

/-- The calls of such a session: plain names, an `int` for a size, and a cursor that has not come
to the end of the disk. -/
def SessionStep (fs : FileSystem) : Operation → Prop
  | .mount => False
  | .createFile name => PlainName name ∧
    (fs.Searches name → ∃ e, fs.FirstFree e ∧ fs.OnDisk (e + fs.cursorOffset))
  | op => fs.FolderStep op

/-- Nothing from the cursor on is in use but the root directory. -/
def Unused (fs : FileSystem) : Prop := ∀ c, fs.bestIdx ≤ c → c ≠ 0 → fs.fat c = 0

theorem findFreeClusterLoop_bestIdx (fs : FileSystem) (n : ℕ) :
    fs.bestIdx ≤ (findFreeClusterLoop n fs).2.bestIdx ∧
      ∀ c, (findFreeClusterLoop n fs).1 = some c →
        fs.bestIdx ≤ c ∧ (findFreeClusterLoop n fs).2.bestIdx = c + 1 := by
  rcases firstScanned_or_nothing fs n with ⟨k, hk⟩ | hnothing
  · rw [findFreeClusterLoop_some hk]
    refine ⟨(by dsimp only; omega), fun c hc => ?_⟩
    obtain rfl := Option.some.inj hc
    exact ⟨Nat.le_add_right _ _, rfl⟩
  · obtain ⟨buffer, m, hsearch⟩ := findFreeClusterLoop_none hnothing
    rw [hsearch]
    refine ⟨Nat.le_add_right _ _, fun c hc => ?_⟩
    cases hc

theorem findRoom_bestIdx (hcursor : fs.bestRootDirIdx < maxFileCount) (name : CString) :
    fs.bestIdx ≤ (fs.findRoom name).2.bestIdx ∧
      ∀ d c, (fs.findRoom name).1 = .ok (d, c) →
        fs.bestIdx ≤ c ∧ (fs.findRoom name).2.bestIdx = c + 1 := by
  unfold findRoom
  split
  · exact ⟨le_rfl, fun _ _ h => by cases h⟩
  simp only
  split
  · exact ⟨le_rfl, fun _ _ h => by cases h⟩
  obtain ⟨j, hj, hmoved, -⟩ :=
    findFreeDirectoryEntryLoop_spec fs.readRoot.readRoot maxFileCount hcursor
  have hkept : fs.readRoot.findFreeDirectoryEntryAndUpdate.2.bestIdx = fs.bestIdx := by
    rw [findFreeDirectoryEntryAndUpdate, hmoved]
    rfl
  split
  next fs₂ heq =>
    rw [heq] at hkept
    exact ⟨hkept.ge, fun _ _ h => by cases h⟩
  next d fs₂ heq =>
    rw [heq] at hkept
    have hsearch := findFreeClusterLoop_bestIdx fs₂ fs₂.fatInfor.clusterLinkSectorCount
    rw [hkept] at hsearch
    unfold findFreeClusterAndUpdate
    split
    next fs₃ hnone =>
      rw [hnone] at hsearch
      exact ⟨hsearch.1, fun _ _ h => by cases h⟩
    next cluster fs₃ hsome =>
      rw [hsome] at hsearch
      refine ⟨hsearch.1, fun d' c h => ?_⟩
      cases h
      exact hsearch.2 cluster rfl

theorem createFile_bestIdx (fs : FileSystem) (name : CString) :
    (fs.createFile name).2.bestIdx = (fs.findRoom name).2.bestIdx := by
  cases hresult : (fs.findRoom name).1 with
  | error message => rw [createFile_error hresult]
  | ok room =>
    have heq : fs.findRoom name = (.ok room, (fs.findRoom name).2) := Prod.ext hresult rfl
    rw [createFile, heq]
    rfl

theorem readRoot_bestIdx (fs : FileSystem) : fs.readRoot.bestIdx = fs.bestIdx := rfl

theorem writeCluster_bestIdx (fs : FileSystem) (offset : ℕ) (buffer : Bytes) :
    (fs.writeCluster offset buffer).bestIdx = fs.bestIdx := rfl

theorem deleteFile_bestIdx (fs : FileSystem) (name : CString) :
    (fs.deleteFile name).2.bestIdx = fs.bestIdx := by
  unfold deleteFile
  split
  · rfl
  · dsimp only
    split <;> rfl

theorem readFile_bestIdx (fs : FileSystem) (name : CString) (buffer : Bytes) :
    (fs.readFile name buffer).2.bestIdx = fs.bestIdx := by
  unfold readFile
  split
  · rfl
  · dsimp only
    split <;> rfl

theorem writeFile_bestIdx (fs : FileSystem) (name : CString) (buffer : Bytes) (size : ℤ) :
    (fs.writeFile name buffer size).2.bestIdx = fs.bestIdx := by
  unfold writeFile
  split
  · rfl
  · dsimp only
    split
    · rfl
    · simp only [writeCluster_bestIdx, readRoot_bestIdx]

/-- No operation but `mount` moves the cursor back, and what is handed out lies behind it. -/
theorem operate_bestIdx (hcursor : fs.bestRootDirIdx < maxFileCount) (hop : op ≠ .mount) :
    fs.bestIdx ≤ (fs.operate op).bestIdx ∧
      ∀ c, fs.HandsOut op c → fs.bestIdx ≤ c ∧ c < (fs.operate op).bestIdx := by
  -- only `createFile` hands out a cluster
  have hstays (hother : ∀ name, op ≠ .createFile name)
      (hsame : (fs.operate op).bestIdx = fs.bestIdx) : fs.bestIdx ≤ (fs.operate op).bestIdx ∧
        ∀ c, fs.HandsOut op c → fs.bestIdx ≤ c ∧ c < (fs.operate op).bestIdx := by
    refine ⟨hsame.ge, ?_⟩
    rintro c ⟨name, d, hname, -⟩
    exact absurd hname (hother name)
  cases op with
  | mount => exact absurd rfl hop
  | createFile name =>
    obtain ⟨hgrows, hhanded⟩ := findRoom_bestIdx hcursor name
    rw [operate, createFile_bestIdx]
    refine ⟨hgrows, ?_⟩
    rintro c ⟨name', d, hname, hok⟩
    obtain rfl : name = name' := by
      cases hname
      rfl
    obtain ⟨hle, hnext⟩ := hhanded d c hok
    omega
  | deleteFile name => exact hstays (by rintro _ ⟨⟩) (deleteFile_bestIdx fs name)
  | readFile name buffer => exact hstays (by rintro _ ⟨⟩) (readFile_bestIdx fs name buffer)
  | writeFile name buffer size =>
    exact hstays (by rintro _ ⟨⟩) (writeFile_bestIdx fs name buffer size)

theorem SessionStep.not_mount (hstep : fs.SessionStep op) : op ≠ .mount := by
  rintro rfl
  exact hstep.elim

/-- With nothing in use from the cursor on, the search hands out a free cluster. -/
theorem SessionStep.folderStep (h : fs.Orderly) (hstep : fs.SessionStep op)
    (hunused : fs.Unused) : fs.FolderStep op := by
  cases op with
  | mount => exact hstep.elim
  | createFile name =>
    refine ⟨hstep.1, fun hsearches => ?_⟩
    obtain ⟨e, hfree, hdisk⟩ := hstep.2 hsearches
    have hpos : e ≠ 0 := by
      rintro rfl
      exact h.root hfree.free
    refine ⟨e, hfree, hunused _ ?_ (by omega), hdisk⟩
    rw [fs.bestIdx_eq]
    exact Nat.add_le_add_right hfree.start_le _
  | deleteFile name => exact hstep
  | readFile name buffer => exact hstep
  | writeFile name buffer size => exact hstep

theorem SessionStep.unused (h : fs.Orderly) (hstep : fs.SessionStep op) (hunused : fs.Unused) :
    (fs.operate op).Unused := by
  have hok := hstep.folderStep h hunused
  have hop := hstep.not_mount
  obtain ⟨hgrows, hhanded⟩ := operate_bestIdx h.intact.mounted.cursor hop
  obtain ⟨⟨data, hstores⟩, hchange⟩ := h.operate_spec hok
  intro c hc hpos
  have hbehind := hunused c (hgrows.trans hc) hpos
  generalize hafter : fs.operate op = fs' at hstores hchange hc hhanded
  cases hchange with
  | still _ hsame =>
    rw [fat_congr hsame hstores.fatInfor]
    exact hbehind
  | @created name d k hroom hfound hfat hdir =>
    have hlt := (hhanded k ⟨name, d, rfl, hroom⟩).2
    rw [hfat, Function.update_of_ne (by omega)]
    exact hbehind
  | deleted hname hfat hdir =>
    rw [hfat, Function.update_apply]
    split
    · rfl
    · exact hbehind
  | written hname hfat hdir =>
    rw [hfat]
    exact hbehind

/-- From a successful `format` and `mount` on, without a second `mount`, `createFile` hands out
the clusters in order, none of them twice, not even behind `deleteFile`, and all calls are answered
as a folder answers them that is empty at first. -/
theorem session_refined {fs₁ fs₂ fs₃ : FileSystem} {history : List (Move FileSystem Operation)}
    (hr : fs.disk.Reliable) (hformat : fs.format = (true, fs₁))
    (hmount : fs₁.mount = (.ok (), fs₂)) (hrun : Run step SessionStep fs₂ history fs₃) :
    history.Pairwise (fun m m' => ∀ c c', m.before.HandsOut m.label c →
      m'.before.HandsOut m'.label c' → c < c') ∧
      Folder.Served (history.map fun m => (m.label, m.before.reply m.label)) fs₃.folder := by
  have hfresh := fresh_of_format hr hformat hmount
  have hunused : fs₂.Unused := by
    intro c _ hpos
    rw [hfresh.fat_eq, if_neg hpos]
  have hall : (fs₃.Served history ∧ fs₃.Unused) ∧ ∀ m ∈ history,
      m.before.bestIdx ≤ m.after.bestIdx ∧
        ∀ c, m.before.HandsOut m.label c → m.before.bestIdx ≤ c ∧ c < m.after.bestIdx := by
    refine hrun.history_invariant (P := fun past t => (t.Served past ∧ t.Unused) ∧ ∀ m ∈ past,
      m.before.bestIdx ≤ m.after.bestIdx ∧
        ∀ c, m.before.HandsOut m.label c → m.before.bestIdx ≤ c ∧ c < m.after.bestIdx)
      ⟨⟨hfresh.served, hunused⟩, fun m hm => absurd hm List.not_mem_nil⟩ ?_
    rintro past t op u - ⟨⟨hserved, hunused⟩, hmoves⟩ hok hstep
    obtain rfl : t.operate op = u := Option.some.inj hstep
    refine ⟨⟨hserved.next (hok.folderStep hserved.1 hunused), hok.unused hserved.1 hunused⟩, ?_⟩
    intro m hm
    rcases List.mem_append.mp hm with hm | hm
    · exact hmoves m hm
    · rw [List.mem_singleton.mp hm]
      exact operate_bestIdx hserved.1.intact.mounted.cursor hok.not_mount
  exact ⟨(hrun.increasing hall.2).1, hall.1.1.2⟩

/-- A file deleted and another one created, on a small disk. -/
def afterDelete : FileSystem := smallA.operate (.deleteFile [0x61])

theorem session_refined_first : ∃ fs : FileSystem, Folder.Served
    [(.createFile [0x61], .printed none), (.deleteFile [0x61], .printed none),
      (.createFile [0x62], .printed none)] fs.folder ∧
    ∃ c c', small.HandsOut (.createFile [0x61]) c ∧ afterDelete.HandsOut (.createFile [0x62]) c' ∧
      c < c' := by
  obtain ⟨hsmall, hcreated, hdeleted, hroom⟩ : (small.FirstFree 1 ∧
      small.OnDisk (1 + small.cursorOffset)) ∧ (small.createFile [0x61]).1 = none ∧
      (smallA.deleteFile [0x61]).1 = none ∧ (small.findRoom [0x61]).1 = .ok (0, 1) := by
    decide +kernel
  obtain ⟨hafter, hagain, hroom'⟩ : (afterDelete.FirstFree 1 ∧
      afterDelete.OnDisk (1 + afterDelete.cursorOffset)) ∧
      (afterDelete.createFile [0x62]).1 = none ∧
      (afterDelete.findRoom [0x62]).1 = .ok (0, 3) := by
    decide +kernel
  have hfirst : small.SessionStep (.createFile [0x61]) := ⟨by decide, fun _ => ⟨1, hsmall⟩⟩
  have hdelete : smallA.SessionStep (.deleteFile [0x61]) := by
    change PlainName [0x61]
    decide
  have hsecond : afterDelete.SessionStep (.createFile [0x62]) := ⟨by decide, fun _ => ⟨1, hafter⟩⟩
  obtain ⟨hpairs, hserved⟩ := session_refined (fun _ => rfl) small_format small_mount
    (((Run.start.next hfirst rfl).next hdelete rfl).next hsecond rfl)
  simp only [List.nil_append, List.cons_append, List.map_cons, List.map_nil, reply, hcreated,
    hdeleted, hagain] at hserved
  have hout : small.HandsOut (.createFile [0x61]) 1 := ⟨_, _, rfl, hroom⟩
  have hout' : afterDelete.HandsOut (.createFile [0x62]) 3 := ⟨_, _, rfl, hroom'⟩
  refine ⟨_, hserved, 1, 3, hout, hout', ?_⟩
  exact (List.pairwise_cons.mp hpairs).1 ⟨afterDelete, .createFile [0x62], _⟩
    (List.mem_cons_of_mem _ (List.mem_singleton_self _)) 1 3 hout hout'

end FileSystem
end SkhuOS
