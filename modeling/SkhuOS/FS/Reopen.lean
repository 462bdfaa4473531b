import SkhuOS.FS.Isolation

/-! A file written under its name is found again with what was written, whatever the file
operations do to other names in between. -/
namespace SkhuOS
open Foundation

namespace FileSystem

variable {fs fs' : FileSystem} {op : Operation} {name : CString} {buffer data entry : Bytes}
  {size : ℤ} {i j : ℕ}

/-- `readFile` of the name finds entry `i`, whose cluster is on the disk and in no other entry. -/
structure Opens (fs : FileSystem) (name : CString) (i : ℕ) : Prop where
  mounted : fs.Mounted
  reliable : fs.disk.Reliable
  short : strlen name < maxFileName
  found : fs.readRoot.findFile name = some i
  onDisk : fs.OnDisk (fs.slot i)
  unshared : ∀ j, fs.slot j = fs.slot i → j = i

/-- Entry `i` has this size and its cluster these contents. -/
def HoldsFile (fs : FileSystem) (i : ℕ) (buffer : Bytes) (size : ℤ) : Prop :=
  fs.sizeOf i = dwordOf size ∧ ∀ x < clusterSize, fs.clusterData (fs.slot i) x = buffer x

/-- Operations on other names, whose transfers are on the disk and which hand out no cluster
twice. -/
def Elsewhere (name : CString) (i : ℕ) (fs : FileSystem) : Operation → Prop
  | .mount => True
  | .readFile _ _ => True
  | .createFile other => ¬ SameName other name ∧ strlen other < maxFileName ∧
      ∀ d c, (fs.findRoom other).1 = .ok (d, c) → c < fs.entries ∧ c ≠ fs.slot i
  | .deleteFile other => ¬ SameName other name ∧
      ∀ j, fs.readRoot.findName other = some j → fs.slot j < fs.entries
  | .writeFile other _ _ => ¬ SameName other name ∧
      ∀ j, fs.readRoot.findFile other = some j → fs.OnDisk (fs.slot j)

theorem Mounted.findFile_iff (h : fs.Mounted) (hr : fs.disk.Reliable)
    (hshort : strlen name < maxFileName) : fs.readRoot.findFile name = some i ↔
      fs.Carries i name ∧ ∀ j < i, ¬ fs.Carries j name := by
  have hlen : strlen name < fileInformationSize := hshort.trans (by decide)
  have hentry {j : ℕ} (hj : j < maxFileCount) : fs.Carries j name ↔
      fs.readRoot.entryCluster j ≠ 0 ∧ fs.readRoot.entryCmp j name = 0 := by
    rw [Carries, h.entryCluster_readRoot hr hj, h.entryCmp_eq_zero hr hj (.inl hlen)]
  constructor
  · intro hfound
    obtain ⟨hi, hlive, hcmp, hfirst⟩ := findFile_some hfound
    refine ⟨(hentry hi).mpr ⟨hlive, hcmp⟩, fun j hj hcarries => ?_⟩
    obtain ⟨hlive, hcmp⟩ := (hentry (hj.trans hi)).mp hcarries
    exact hfirst j hj hlive hcmp
  · rintro ⟨hcarries, hfirst⟩
    have hi := slot_lt hcarries.1
    obtain ⟨hlive, hcmp⟩ := (hentry hi).mp hcarries
    obtain ⟨k, hk⟩ := findFile_isSome hi hlive hcmp
    obtain ⟨hklt, hklive, hkcmp, hkfirst⟩ := findFile_some hk
    rcases lt_trichotomy k i with hlt | rfl | hgt
    · exact absurd ((hentry hklt).mpr ⟨hklive, hkcmp⟩) (hfirst k hlt)
    · exact hk
    · exact absurd hcmp (hkfirst i hgt hlive)

/-- The data clusters lie behind the root directory. -/
theorem Stores.clusterData_behind {c : ℕ} (hstores : fs.Stores fs' data)
    (hdata : ∀ x, fs.rootAddress + clusterSize ≤ x → data x = fs.disk.data x) (hc : c ≠ 0) :
    fs'.clusterData c = fs.clusterData c := by
  have hfirst : clusterSize ≤ clusterSize * c := Nat.le_mul_of_pos_right _ (Nat.pos_of_ne_zero hc)
  funext x
  rw [hstores.clusterData_eq, clusterData]
  split
  · exact hdata _ (by omega)
  · rfl

theorem Intact.opens (h : fs.Intact) (hshort : strlen name < maxFileName)
    (hi : fs.Carries i name) : fs.Opens name i where
  mounted := h.mounted
  reliable := h.reliable
  short := hshort
  found := h.findFile_eq hshort hi
  onDisk := h.onDisk i hi.1
  unshared j hj := h.cluster_unique j i (hj ▸ hi.1) hj

namespace Opens

variable (h : fs.Opens name i)
include h

theorem carries : fs.Carries i name := ((h.mounted.findFile_iff h.reliable h.short).mp h.found).1

theorem looked (hstores : fs.Stores fs' fs.disk.data) : fs'.Opens name i := by
  have hr := hstores.reliable h.reliable
  have hfound := (h.mounted.findFile_iff h.reliable h.short).mp h.found
  refine ⟨hstores.mounted, hr, h.short, ?_, ?_, ?_⟩
  · rw [hstores.mounted.findFile_iff hr h.short]
    simp only [carries_of_dir hstores.dir_same]
    exact hfound
  · rw [hstores.slot_same]
    exact (hstores.onDisk _).mpr h.onDisk
  · rw [hstores.slot_same]
    exact h.unshared

theorem still (hstores : fs.Stores fs' fs.disk.data) (hfile : fs.HoldsFile i buffer size) :
    fs'.Opens name i ∧ fs'.HoldsFile i buffer size := by
  refine ⟨h.looked hstores, ?_, ?_⟩
  · rw [sizeOf, hstores.dir_same]
    exact hfile.1
  · rw [hstores.slot_same, hstores.clusterData_same]
    exact hfile.2

/-- A change of another entry. -/
theorem apart (hstores : fs.Stores fs' data) (hdir : fs'.dir = Function.update fs.dir j entry)
    (hj : j ≠ i) (hcluster : readLE entry clusterIdxOffset 4 ≠ fs.slot i)
    (hname : fs'.Carries j name → fs.Carries j name)
    (hdata : fs'.clusterData (fs.slot i) = fs.clusterData (fs.slot i))
    (hfile : fs.HoldsFile i buffer size) : fs'.Opens name i ∧ fs'.HoldsFile i buffer size := by
  have hr := hstores.reliable h.reliable
  obtain ⟨hcarries, hfirst⟩ := (h.mounted.findFile_iff h.reliable h.short).mp h.found
  have hslot := slot_of_dir hdir
  have hsloti : fs'.slot i = fs.slot i := by rw [hslot, Function.update_of_ne hj.symm]
  have hdiri : fs'.dir i = fs.dir i := by rw [hdir, Function.update_of_ne hj.symm]
  refine ⟨⟨hstores.mounted, hr, h.short, ?_, ?_, ?_⟩, ?_, ?_⟩
  · rw [hstores.mounted.findFile_iff hr h.short]
    constructor
    · rw [Carries, hsloti, hdiri]
      exact hcarries
    · intro k hk hcarried
      apply hfirst k hk
      by_cases hkj : k = j
      · rw [hkj] at hcarried ⊢
        exact hname hcarried
      · rwa [Carries, hslot, hdir, Function.update_of_ne hkj, Function.update_of_ne hkj]
          at hcarried
  · rw [hsloti]
    exact (hstores.onDisk _).mpr h.onDisk
  · intro k hk
    rw [hsloti, hslot, Function.update_apply] at hk
    split at hk
    · exact absurd hk hcluster
    · exact h.unshared k hk
  · rw [sizeOf, hdiri]
    exact hfile.1
  · rw [hsloti, hdata]
    exact hfile.2

/-- An entry that another name finds is another entry. -/
theorem ne_of_cmp {other : CString} (hother : ¬ SameName other name) (hj : j < maxFileCount)
    (hcmp : fs.readRoot.entryCmp j other = 0) : j ≠ i := by
  rintro rfl
  have hspells := h.carries.2
  have hnul : fs.dir j (strlen name) = 0 := by
    rw [hspells _ le_rfl, stringBytes_strlen]
  have hended : Terminated (fs.dir j) := ⟨strlen name, h.short.trans (by decide), hnul⟩
  have hentry := (h.mounted.entryCmp_eq_zero h.reliable hj (.inr hended)).mp hcmp
  exact hother (Spells.sameName hentry hspells)

/-- What is written is there. -/
theorem writeFile (buffer : Bytes) (size : ℤ) : (fs.writeFile name buffer size).1 = .ok () ∧
    (fs.writeFile name buffer size).2.Opens name i ∧
    (fs.writeFile name buffer size).2.HoldsFile i buffer size := by
  have hlt := (findFile_some h.found).1
  have hlive := h.carries.1
  have hstores := h.mounted.writeFile_stores h.reliable h.found hlt hlive h.onDisk buffer size
  obtain ⟨-, hdir, hdata⟩ :=
    h.mounted.writeFile_change h.reliable h.found hlt hlive h.onDisk buffer size
  refine ⟨?_, ?_⟩
  · rw [FileSystem.writeFile, if_neg (by simp [h.mounted.isMounted])]
    simp only [h.found]
  generalize (fs.writeFile name buffer size).2 = fs' at hstores hdir hdata
  have hr := hstores.reliable h.reliable
  have hslot := slot_written hdir
  refine ⟨⟨hstores.mounted, hr, h.short, ?_, ?_, ?_⟩, ?_, ?_⟩
  · rw [hstores.mounted.findFile_iff hr h.short]
    simp only [carries_written hdir h.short]
    exact (h.mounted.findFile_iff h.reliable h.short).mp h.found
  · rw [hslot]
    exact (hstores.onDisk _).mpr h.onDisk
  · rw [hslot]
    exact h.unshared
  · rw [sizeOf, hdir, Function.update_self, readLE_writeLE]
    exact Nat.mod_eq_of_lt (dwordOf_lt size)
  · intro x hx
    rw [hslot, hdata _ hlive, if_pos rfl]
    exact if_pos hx

/-- Operations elsewhere leave the file alone. -/
theorem elsewhere (hop : fs.Elsewhere name i op) (hfile : fs.HoldsFile i buffer size) :
    (fs.operate op).Opens name i ∧ (fs.operate op).HoldsFile i buffer size := by
  have hm := h.mounted
  have hr := h.reliable
  have hlayout := hm.layout
  have hlive := h.carries.1
  cases op with
  | mount => exact h.still (hm.mount_stores hr) hfile
  | readFile other target =>
    exact h.still (hm.looked_stores hr (hm.readFile_looked other target)) hfile
  | createFile other =>
    obtain ⟨hother, hshort, hroom⟩ := hop
    obtain ⟨hlooked, hfound⟩ := findRoom_spec hm.cursor other
    cases hresult : (fs.findRoom other).1 with
    | error message =>
      simp only [operate, createFile_error hresult]
      exact h.still (hm.looked_stores hr hlooked) hfile
    | ok room =>
      obtain ⟨d, c⟩ := room
      obtain ⟨hc, hne⟩ := hroom d c hresult
      have hd := hfound d c hresult
      have hfree : fs.slot d = 0 := (hm.room_free hr hd).1
      have hcluster : readLE (newEntry other c) clusterIdxOffset 4 = c :=
        newEntry_cluster (hc.trans hlayout.2.2.2)
      have hstores := hm.createFile_stores hr hresult hc
      obtain ⟨-, hdir⟩ := hm.createFile_change hr hresult hc
      refine h.apart hstores hdir ?_ (ne_of_eq_of_ne hcluster hne) ?_ ?_ hfile
      · rintro rfl
        exact hlive hfree
      · intro hcarries
        have hspells := ((if_pos rfl ▸ carries_update hdir d).mp hcarries).2
        exact absurd ((newEntry_spells hshort).sameName hspells) hother
      · refine hstores.clusterData_behind (fun x hx => ?_) hlive
        have hdlt := hd.slot_lt
        simp only [fileInformationSize, maxFileCount, linkSize, clusterSize] at *
        rw [copyBytes_of_not_mem (by omega), writeLE_of_not_mem (by omega)]
  | deleteFile other =>
    obtain ⟨hother, hslot⟩ := hop
    cases hname : fs.readRoot.findName other with
    | none =>
      have hdelete : fs.operate (.deleteFile other) = fs.readRoot := by
        simp only [operate, FileSystem.deleteFile, hm.isMounted, hname, Bool.not_true,
          Bool.false_eq_true, if_false]
      rw [hdelete]
      exact h.still (hm.readRoot_stores hr) hfile
    | some j =>
      obtain ⟨hj, hcmp, -⟩ := findName_some hname
      have hstores := hm.deleteFile_stores hr hname hj (hslot j hname)
      obtain ⟨-, hdir⟩ := hm.deleteFile_change hr hname hj (hslot j hname)
      have hcluster : readLE (writeLE (writeLE (fs.dir j) clusterIdxOffset 4 0) 0 1 0xE5)
          clusterIdxOffset 4 = 0 := by
        rw [readLE_writeLE_disjoint (by decide), readLE_writeLE]
        rfl
      refine h.apart hstores hdir (h.ne_of_cmp hother hj hcmp)
        (ne_of_eq_of_ne hcluster hlive.symm) ?_ ?_ hfile
      · intro hcarries
        exact absurd hcluster ((if_pos rfl ▸ carries_update hdir j).mp hcarries).1
      · refine hstores.clusterData_behind (fun x hx => ?_) hlive
        have hentry := hslot j hname
        simp only [fileInformationSize, maxFileCount, linkSize, clusterSize, clusterIdxOffset] at *
        rw [writeLE_of_not_mem (by omega), writeLE_of_not_mem (by omega),
          writeLE_of_not_mem (by omega)]
  | writeFile other target bytes =>
    obtain ⟨hother, hslot⟩ := hop
    cases hname : fs.readRoot.findFile other with
    | none =>
      have hwrite : fs.operate (.writeFile other target bytes) = fs.readRoot := by
        simp only [operate, FileSystem.writeFile, hm.isMounted, hname, Bool.not_true,
          Bool.false_eq_true, if_false]
      rw [hwrite]
      exact h.still (hm.readRoot_stores hr) hfile
    | some j =>
      obtain ⟨hj, hjlive, hcmp, -⟩ := findFile_some hname
      rw [hm.entryCluster_readRoot hr hj] at hjlive
      have hji := h.ne_of_cmp hother hj hcmp
      have hdisk := hslot j hname
      have hstores := hm.writeFile_stores hr hname hj hjlive hdisk target bytes
      obtain ⟨-, hdir, hdata⟩ := hm.writeFile_change hr hname hj hjlive hdisk target bytes
      have hapart : fs.slot j ≠ fs.slot i := fun heq => hji (h.unshared j heq)
      refine h.apart hstores hdir hji ?_ (carries_written hdir h.short).mp ?_ hfile
      · rw [readLE_writeLE_disjoint (by decide)]
        exact hapart
      · exact (hdata _ hlive).trans (if_neg hapart.symm)

/-- Reading the file delivers its contents. -/
theorem readFile_eq (hfile : fs.HoldsFile i buffer size) (hsize : 0 ≤ size)
    (hint : size < 2 ^ 31) (target : Bytes) : (fs.readFile name target).1 =
      .ok (size, fun x => if x < clusterSize then buffer x else target x) := by
  rw [h.mounted.readFile_eq h.reliable h.found h.onDisk target, hfile.1, intOf_dwordOf hsize hint]
  congr 2
  funext x
  split
  next hx => exact hfile.2 x hx
  next => rfl

end Opens

/-- From a write on, operations on other names may come between it and the next look. -/
theorem Opens.reopened {history : List (Move FileSystem Operation)} (h : fs.Opens name i)
    (buffer : Bytes) (size : ℤ)
    (hrun : Run step (Elsewhere name i) (fs.writeFile name buffer size).2 history fs') :
    fs'.Opens name i ∧ fs'.HoldsFile i buffer size := by
  have hwritten := (h.writeFile buffer size).2
  refine hrun.invariant (P := fun t => t.Opens name i ∧ t.HoldsFile i buffer size) hwritten ?_
  rintro t op u ⟨hopens, hfile⟩ hop hstep
  obtain rfl : t.operate op = u := Option.some.inj hstep
  exact hopens.elsewhere hop hfile

end FileSystem
end SkhuOS
