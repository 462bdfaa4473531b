import SkhuOS.FS.FAT

/-! The search for a free cluster. The words it compares are counted from the start of the
cursor's sector, the cluster it hands out is counted from the cursor itself. -/
namespace SkhuOS
open Foundation

namespace FileSystem

variable (fs : FileSystem)

/-- The sector transfers of the search, one after the other. -/
def searchRead : ℕ → Transfer
  | 0 => fs.disk.readSector 1
      (fs.fatInfor.clusterLinkSectorAddress + fs.bestIdx / linksPerSector) fs.buffer512
  | i + 1 => (searchRead i).disk.readSector 1
      (fs.fatInfor.clusterLinkSectorAddress + (fs.bestIdx / linksPerSector + (i + 1)))
      (searchRead i).buffer

/-- Word `k` the search compares with zero. -/
def scanned (k : ℕ) : ℕ :=
  readLE (fs.searchRead (k / linksPerSector)).buffer (linkSize * (k % linksPerSector)) 4

/-- The first zero word of a search over `n` sectors. -/
structure FirstScanned (n k : ℕ) : Prop where
  lt : k < linksPerSector * n
  zero : fs.scanned k = 0
  first : ∀ i < k, fs.scanned i ≠ 0

/-- A search over `n` sectors meets no zero word. -/
def NothingScanned (n : ℕ) : Prop := ∀ k < linksPerSector * n, fs.scanned k ≠ 0

variable {fs} {buffer : Bytes} {n j t k b : ℕ}

theorem firstScanned_or_nothing (fs : FileSystem) (n : ℕ) :
    (∃ k, fs.FirstScanned n k) ∨ fs.NothingScanned n := by
  by_cases h : ∃ k < linksPerSector * n, fs.scanned k = 0
  · exact .inl ⟨Nat.find h, (Nat.find_spec h).1, (Nat.find_spec h).2, fun i hi hz =>
      Nat.find_min h hi ⟨hi.trans (Nat.find_spec h).1, hz⟩⟩
  · exact .inr fun k hk hz => h ⟨k, hk, hz⟩

theorem scanSector_some (ht : t < n) (hzero : readLE buffer (linkSize * (j + t)) 4 = 0)
    (hfirst : ∀ i < t, readLE buffer (linkSize * (j + i)) 4 ≠ 0) :
    scanSector buffer n j b = (some (b + t), b + t + 1) := by
  induction n generalizing j t b with
  | zero => omega
  | succ n ih =>
    cases t with
    | zero =>
      rw [Nat.add_zero] at hzero
      rw [scanSector, if_pos hzero]
      rfl
    | succ t =>
      have hhead : readLE buffer (linkSize * j) 4 ≠ 0 := hfirst 0 (by omega)
      rw [scanSector, if_neg hhead, ih (j := j + 1) (t := t) (by omega)]
      · simp only [Nat.add_assoc, Nat.add_comm 1]
      · rwa [Nat.add_assoc, Nat.add_comm 1]
      · intro i hi
        rw [Nat.add_assoc, Nat.add_comm 1]
        exact hfirst (i + 1) (by omega)

theorem scanSector_none (h : ∀ i < n, readLE buffer (linkSize * (j + i)) 4 ≠ 0) :
    scanSector buffer n j b = (none, b + n) := by
  induction n generalizing j b with
  | zero => rfl
  | succ n ih =>
    have hhead : readLE buffer (linkSize * j) 4 ≠ 0 := h 0 (by omega)
    rw [scanSector, if_neg hhead, ih]
    · simp only [Nat.add_assoc, Nat.add_comm 1]
    · intro i hi
      rw [Nat.add_assoc, Nat.add_comm 1]
      exact h (i + 1) (by omega)

/-- The transfers leave the contents of the disk alone. -/
theorem searchRead_disk (fs : FileSystem) (i : ℕ) : (fs.searchRead i).disk = fs.disk.skip (i + 1) := by
  induction i with
  | zero => rfl
  | succ i ih =>
    rw [searchRead, ih]
    exact Disk.skip_skip (i + 1) 1

/-- The state in which the search goes on behind a sector without a zero word. -/
def nextSector (fs : FileSystem) : FileSystem :=
  { fs with
    disk := (fs.searchRead 0).disk
    buffer512 := (fs.searchRead 0).buffer
    bestIdx := fs.bestIdx + linksPerSector }

theorem searchRead_nextSector (i : ℕ) : fs.nextSector.searchRead i = fs.searchRead (i + 1) := by
  have hidx : fs.nextSector.bestIdx / linksPerSector = fs.bestIdx / linksPerSector + 1 :=
    Nat.add_div_right _ (by decide)
  induction i with
  | zero =>
    rw [searchRead, hidx]
    rfl
  | succ i ih =>
    rw [searchRead, hidx, ih, Nat.add_assoc, Nat.add_comm 1]
    rfl

theorem scanned_nextSector (k : ℕ) : fs.nextSector.scanned k = fs.scanned (linksPerSector + k) := by
  rw [scanned, scanned, searchRead_nextSector, Nat.add_comm linksPerSector,
    Nat.add_div_right _ (by decide), Nat.add_mod_right]

theorem scanned_head (hk : k < linksPerSector) :
    readLE (fs.searchRead 0).buffer (linkSize * (0 + k)) 4 = fs.scanned k := by
  rw [scanned, Nat.div_eq_of_lt hk, Nat.mod_eq_of_lt hk, Nat.zero_add]

/-- One round of the outer loop. -/
theorem findFreeClusterLoop_succ (n : ℕ) (fs : FileSystem) : findFreeClusterLoop (n + 1) fs =
    match scanSector (fs.searchRead 0).buffer linksPerSector 0 fs.bestIdx with
    | (some cluster, bestIdx) => (some cluster, { fs.nextSector with bestIdx := bestIdx })
    | (none, bestIdx) => findFreeClusterLoop n { fs.nextSector with bestIdx := bestIdx } := by
  rcases hfound : scanSector (fs.searchRead 0).buffer linksPerSector 0 fs.bestIdx with
    ⟨_ | cluster, bestIdx⟩ <;>
    · rw [searchRead] at hfound
      simp only [findFreeClusterLoop, hfound, nextSector, searchRead]

theorem findFreeClusterLoop_next (h : ∀ k < linksPerSector, fs.scanned k ≠ 0) (n : ℕ) :
    findFreeClusterLoop (n + 1) fs = findFreeClusterLoop n fs.nextSector := by
  have hscan : scanSector (fs.searchRead 0).buffer linksPerSector 0 fs.bestIdx =
      (none, fs.bestIdx + linksPerSector) := scanSector_none fun k hk => by
    rw [scanned_head hk]
    exact h k hk
  rw [findFreeClusterLoop_succ, hscan]
  rfl

/-- The search hands out what lies as far behind the cursor as the first zero word lies
behind the start of the cursor's sector. -/
theorem findFreeClusterLoop_some (h : fs.FirstScanned n k) :
    findFreeClusterLoop n fs = (some (fs.bestIdx + k),
      { fs with
        disk := fs.disk.skip (k / linksPerSector + 1)
        buffer512 := (fs.searchRead (k / linksPerSector)).buffer
        bestIdx := fs.bestIdx + k + 1 }) := by
  induction n generalizing fs k with
  | zero => exact absurd h.lt (by simp)
  | succ n ih =>
    have hdisk := fs.searchRead_disk 0
    by_cases hk : k < linksPerSector
    · have hscan : scanSector (fs.searchRead 0).buffer linksPerSector 0 fs.bestIdx =
          (some (fs.bestIdx + k), fs.bestIdx + k + 1) := by
        refine scanSector_some hk ((scanned_head hk).trans h.zero) fun i hi => ?_
        rw [scanned_head (hi.trans hk)]
        exact h.first i hi
      rw [findFreeClusterLoop_succ, hscan, nextSector, hdisk, Nat.div_eq_of_lt hk]
    · obtain ⟨i, rfl⟩ := Nat.exists_eq_add_of_le (Nat.le_of_not_lt hk)
      have hnext : fs.nextSector.FirstScanned n i := by
        refine ⟨?_, (scanned_nextSector i).trans h.zero, fun x hx => ?_⟩
        · have := h.lt
          rw [Nat.mul_succ] at this
          omega
        · rw [scanned_nextSector]
          exact h.first _ (by omega)
      have hdiv : (linksPerSector + i) / linksPerSector = i / linksPerSector + 1 :=
        Nat.add_div_left i (by decide)
      rw [findFreeClusterLoop_next fun x hx => h.first x (by omega), ih hnext,
        searchRead_nextSector, hdiv, nextSector, hdisk, Disk.skip_skip]
      simp only [Nat.add_assoc, Nat.add_comm 1, Nat.zero_add]

theorem findFreeClusterLoop_none (h : fs.NothingScanned n) : ∃ buffer m,
    findFreeClusterLoop n fs = (none,
      { fs with
        disk := fs.disk.skip m
        buffer512 := buffer
        bestIdx := fs.bestIdx + linksPerSector * n }) := by
  induction n generalizing fs with
  | zero => exact ⟨fs.buffer512, 0, rfl⟩
  | succ n ih =>
    have hnext : fs.nextSector.NothingScanned n := fun k hk => by
      rw [scanned_nextSector]
      exact h _ (by rw [Nat.mul_succ]; omega)
    obtain ⟨buffer, m, heq⟩ := ih hnext
    refine ⟨buffer, 1 + m, ?_⟩
    rw [findFreeClusterLoop_next fun x hx => h x (by rw [Nat.mul_succ]; omega), heq,
      Nat.mul_succ, Nat.add_comm (linksPerSector * n), ← Nat.add_assoc, nextSector,
      fs.searchRead_disk, Disk.skip_skip]

/-- The `clusterIdx` of entry `i` in a copy of the root directory. -/
def clusterIn (buffer : Bytes) (i : ℕ) : ℕ :=
  readLE buffer (fileInformationSize * i + clusterIdxOffset) 4

/-- The first free entry in a copy of the root directory, from the cursor on and around. -/
def FirstFreeSlot (copy : Bytes) (cursor d : ℕ) : Prop :=
  ∃ n < maxFileCount, d = (cursor + n) % maxFileCount ∧ clusterIn copy d = 0 ∧
    ∀ m < n, clusterIn copy ((cursor + m) % maxFileCount) ≠ 0

theorem FirstFreeSlot.lt {copy : Bytes} {cursor d : ℕ} (h : FirstFreeSlot copy cursor d) :
    d < maxFileCount := by
  obtain ⟨n, -, rfl, -⟩ := h
  exact Nat.mod_lt _ (by decide)

/-- Going around, the search for a free entry looks at each. -/
theorem firstFreeSlot_or_none (copy : Bytes) {cursor : ℕ} (hcursor : cursor < maxFileCount) :
    (∃ d, FirstFreeSlot copy cursor d) ∨ ∀ i < maxFileCount, clusterIn copy i ≠ 0 := by
  by_cases h : ∃ n < maxFileCount, clusterIn copy ((cursor + n) % maxFileCount) = 0
  · refine .inl ⟨_, Nat.find h, (Nat.find_spec h).1, rfl, (Nat.find_spec h).2, fun m hm hfree => ?_⟩
    exact Nat.find_min h hm ⟨hm.trans (Nat.find_spec h).1, hfree⟩
  · refine .inr fun i hi hfree => h ?_
    have hplace : (cursor + (i + maxFileCount - cursor) % maxFileCount) % maxFileCount = i := by
      simp only [maxFileCount] at hi hcursor ⊢
      omega
    exact ⟨_, Nat.mod_lt _ (by decide), hplace.symm ▸ hfree⟩

/-- The loop stops at the first free entry it comes to. -/
theorem findFreeDirectoryEntryLoop_some (fs : FileSystem) {m : ℕ} (hcursor : fs.bestRootDirIdx < maxFileCount)
    (hm : m < n) (hfree : fs.entryCluster ((fs.bestRootDirIdx + m) % maxFileCount) = 0)
    (hfirst : ∀ i < m, fs.entryCluster ((fs.bestRootDirIdx + i) % maxFileCount) ≠ 0) :
    findFreeDirectoryEntryLoop n fs = (some ((fs.bestRootDirIdx + m) % maxFileCount),
      { fs with bestRootDirIdx := (fs.bestRootDirIdx + m) % maxFileCount }) := by
  induction n generalizing fs m with
  | zero => omega
  | succ n ih =>
    have hhere : (fs.bestRootDirIdx + 0) % maxFileCount = fs.bestRootDirIdx :=
      Nat.mod_eq_of_lt hcursor
    cases m with
    | zero =>
      rw [hhere] at hfree ⊢
      rw [findFreeDirectoryEntryLoop, if_pos hfree]
    | succ m =>
      have hused := hfirst 0 (Nat.zero_lt_succ m)
      rw [hhere] at hused
      have hplace (i : ℕ) : ((fs.bestRootDirIdx + 1) % maxFileCount + i) % maxFileCount =
          (fs.bestRootDirIdx + (i + 1)) % maxFileCount := by
        rw [Nat.mod_add_mod, Nat.add_assoc, Nat.add_comm 1]
      have hrest := ih { fs with bestRootDirIdx := (fs.bestRootDirIdx + 1) % maxFileCount }
        (m := m) (Nat.mod_lt _ (by decide)) (by omega) ((congrArg _ (hplace m)).trans hfree)
        fun i hi => (congrArg _ (hplace i)).trans_ne (hfirst (i + 1) (by omega))
      rw [findFreeDirectoryEntryLoop, if_neg hused, hrest, hplace]

/-- The search for a directory slot: it moves nothing but its cursor. -/
theorem findFreeDirectoryEntryLoop_spec (fs : FileSystem) (n : ℕ)
    (hcursor : fs.bestRootDirIdx < maxFileCount) :
    ∃ i < maxFileCount, (findFreeDirectoryEntryLoop n fs).2 = { fs with bestRootDirIdx := i } ∧
      ((findFreeDirectoryEntryLoop n fs).1 = none ∨
        (findFreeDirectoryEntryLoop n fs).1 = some i ∧ fs.entryCluster i = 0) := by
  induction n generalizing fs with
  | zero => exact ⟨_, hcursor, rfl, .inl rfl⟩
  | succ n ih =>
    by_cases hfree : fs.entryCluster fs.bestRootDirIdx = 0
    · rw [findFreeDirectoryEntryLoop, if_pos hfree]
      exact ⟨_, hcursor, rfl, .inr ⟨rfl, hfree⟩⟩
    · rw [findFreeDirectoryEntryLoop, if_neg hfree]
      exact ih { fs with bestRootDirIdx := (fs.bestRootDirIdx + 1) % maxFileCount }
        (Nat.mod_lt _ (by decide))

theorem readRoot_eq (fs : FileSystem) : ∃ buffer,
    fs.readRoot = { fs with disk := fs.disk.skip 1, buffer4096 := buffer } := ⟨_, rfl⟩

/-- `createFile` reads the root directory twice before it searches the FAT. -/
def atSearch (fs : FileSystem) : FileSystem := { fs with disk := fs.disk.skip 2 }

/-- The search depends on the disk, the cursor and its own buffer. -/
theorem searchRead_congr {fs' : FileSystem} (hdisk : fs'.disk = fs.disk)
    (hinfor : fs'.fatInfor = fs.fatInfor) (hcursor : fs'.bestIdx = fs.bestIdx)
    (hbuffer : fs'.buffer512 = fs.buffer512) : fs'.searchRead = fs.searchRead := by
  funext n
  induction n with
  | zero => rw [searchRead, searchRead, hdisk, hinfor, hcursor, hbuffer]
  | succ n ih => rw [searchRead, ih, searchRead, hinfor, hcursor]

theorem FirstScanned.congr {fs' : FileSystem} (h : fs.FirstScanned n k)
    (hread : fs'.searchRead = fs.searchRead) : fs'.FirstScanned n k := by
  have hscan (x : ℕ) : fs'.scanned x = fs.scanned x := by rw [scanned, hread, scanned]
  exact ⟨h.lt, (hscan k).trans h.zero, fun i hi => hscan i ▸ h.first i hi⟩

theorem NothingScanned.congr {fs' : FileSystem} (h : fs.NothingScanned n)
    (hread : fs'.searchRead = fs.searchRead) : fs'.NothingScanned n := fun k hk => by
  rw [scanned, hread]
  exact h k hk

/-- What `createFile` has found out when there is room for a new file. -/
structure RoomFound (fs : FileSystem) (fileName : CString) (d c : ℕ) : Prop where
  isMounted : fs.isMounted = true
  unknown : ∀ i < maxFileCount, fs.readRoot.entryCluster i ≠ 0 →
    fs.readRoot.entryCmp i fileName ≠ 0
  slot_lt : d < maxFileCount
  slot_free : fs.readRoot.readRoot.entryCluster d = 0
  cluster : ∃ k, fs.atSearch.FirstScanned fs.fatInfor.clusterLinkSectorCount k ∧
    c = fs.bestIdx + k

/-- Up to there only cursors and buffers move, and `buffer4096` is as the last read of the
root directory left it. -/
def Looked (fs fs' : FileSystem) : Prop := ∃ buffer512 buffer4096 i j n, j < maxFileCount ∧
  buffer4096 ∈ [fs.buffer4096, fs.readRoot.buffer4096, fs.readRoot.readRoot.buffer4096] ∧
  fs' = { fs with
    disk := fs.disk.skip n
    buffer512 := buffer512
    buffer4096 := buffer4096
    bestIdx := i
    bestRootDirIdx := j }

theorem findRoom_spec (hcursor : fs.bestRootDirIdx < maxFileCount) (fileName : CString) :
    fs.Looked (fs.findRoom fileName).2 ∧
      ∀ d c, (fs.findRoom fileName).1 = .ok (d, c) → fs.RoomFound fileName d c := by
  unfold findRoom
  split
  · exact ⟨⟨fs.buffer512, fs.buffer4096, fs.bestIdx, fs.bestRootDirIdx, 0, hcursor, by simp, rfl⟩,
      fun _ _ h => nomatch h⟩
  next hmounted =>
  obtain ⟨buffer, hroot⟩ := fs.readRoot_eq
  have hbuffer : fs.readRoot.buffer4096 = buffer := by rw [hroot]
  simp only
  split
  · rw [hroot]
    exact ⟨⟨fs.buffer512, buffer, fs.bestIdx, fs.bestRootDirIdx, 1, hcursor, by simp [hbuffer],
      rfl⟩, fun _ _ h => nomatch h⟩
  next hunknown =>
  obtain ⟨buffer', hroot'⟩ := fs.readRoot.readRoot_eq
  have hmem : buffer' ∈
      [fs.buffer4096, fs.readRoot.buffer4096, fs.readRoot.readRoot.buffer4096] := by
    have hbuffer' : fs.readRoot.readRoot.buffer4096 = buffer' := by rw [hroot']
    simp [hbuffer']
  obtain ⟨j, hj, hmoved, hslot⟩ :=
    findFreeDirectoryEntryLoop_spec fs.readRoot.readRoot maxFileCount hcursor
  have hstate : fs.readRoot.findFreeDirectoryEntryAndUpdate.2 = { fs with
      disk := fs.disk.skip 2, buffer4096 := buffer', bestRootDirIdx := j } := by
    rw [findFreeDirectoryEntryAndUpdate, hmoved, hroot', hroot, Disk.skip_skip]
  split
  next fs₂ heq =>
    obtain rfl : _ = fs₂ := congrArg Prod.snd heq
    rw [hstate]
    exact ⟨⟨fs.buffer512, buffer', fs.bestIdx, j, 2, hj, hmem, rfl⟩, fun _ _ h => nomatch h⟩
  next d fs₂ heq =>
    obtain rfl : _ = fs₂ := congrArg Prod.snd heq
    have hd : (findFreeDirectoryEntryLoop maxFileCount fs.readRoot.readRoot).1 = some d :=
      congrArg Prod.fst heq
    rcases hslot with hnone | ⟨hsome, hfree⟩
    · exact nomatch hnone.symm.trans hd
    obtain rfl : j = d := Option.some.inj (hsome.symm.trans hd)
    rw [hstate, findFreeClusterAndUpdate]
    have hread : searchRead { fs with
        disk := fs.disk.skip 2, buffer4096 := buffer', bestRootDirIdx := j } =
        fs.atSearch.searchRead := by apply searchRead_congr <;> rfl
    rcases firstScanned_or_nothing fs.atSearch fs.fatInfor.clusterLinkSectorCount with
      ⟨k, hk⟩ | hnothing
    · rw [findFreeClusterLoop_some (hk.congr hread), hread]
      refine ⟨⟨(fs.atSearch.searchRead (k / linksPerSector)).buffer, buffer', fs.bestIdx + k + 1, j,
        2 + (k / linksPerSector + 1), hj, hmem, ?_⟩, fun d c h => ?_⟩
      · rw [Disk.skip_skip]
      · cases h
        refine ⟨by simpa using hmounted, fun i hi hne hcmp => hunknown ?_, hj, hfree, k, hk, rfl⟩
        exact List.any_eq_true.mpr ⟨i, List.mem_range.mpr hi, by simp [hne, hcmp]⟩
    · obtain ⟨b, m, hsearch⟩ := findFreeClusterLoop_none (hnothing.congr hread)
      rw [hsearch]
      refine ⟨⟨b, buffer', fs.bestIdx + linksPerSector * fs.fatInfor.clusterLinkSectorCount, j,
        2 + m, hj, hmem, ?_⟩, fun d c h => nomatch h⟩
      rw [Disk.skip_skip]

end FileSystem
end SkhuOS
