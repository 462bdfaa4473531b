import SkhuOS.FS.Clusters

/-! Names identify files: what the lookups find, told from the history of a run. -/
namespace SkhuOS
open Foundation

/-- Two arguments are the same C string. -/
def SameName (s t : CString) : Prop :=
  strlen s = strlen t ∧ ∀ x < strlen s, stringBytes s x = stringBytes t x

instance (s t : CString) : Decidable (SameName s t) :=
  inferInstanceAs (Decidable (_ ∧ _))

/-- The bytes begin with the string and its NUL. -/
def Spells (entry : Bytes) (s : CString) : Prop := ∀ x ≤ strlen s, entry x = stringBytes s x

theorem Spells.strlen_le {entry : Bytes} {s t : CString} (hs : Spells entry s)
    (ht : Spells entry t) : strlen t ≤ strlen s := by
  by_contra hlt
  have hnul := hs (strlen s) (Nat.le_refl _)
  rw [ht (strlen s) (by omega), stringBytes_strlen] at hnul
  exact stringBytes_ne_zero (by omega) hnul

theorem Spells.sameName {entry : Bytes} {s t : CString} (hs : Spells entry s)
    (ht : Spells entry t) : SameName s t := by
  refine ⟨Nat.le_antisymm (ht.strlen_le hs) (hs.strlen_le ht), fun x hx => ?_⟩
  rw [← hs x (by omega), ht x (by have := hs.strlen_le ht; have := ht.strlen_le hs; omega)]

theorem SameName.spells {entry : Bytes} {s t : CString} (h : SameName s t)
    (hs : Spells entry s) : Spells entry t := fun x hx => by
  rcases Nat.lt_or_eq_of_le hx with hlt | heq
  · rw [hs x (by have := h.1; omega), h.2 x (by have := h.1; omega)]
  · rw [heq, stringBytes_strlen, ← h.1, hs _ (Nat.le_refl _), stringBytes_strlen]

/-- A NUL ends the name. -/
theorem Spells.strlen_le_of_nul {entry : Bytes} {s : CString} {t : ℕ} (h : Spells entry s)
    (hnul : entry t = 0) : strlen s ≤ t := by
  by_contra hlt
  exact stringBytes_ne_zero (by omega) ((h t (by omega)).symm.trans hnul)

/-- Only the bytes up to a NUL matter. -/
theorem Spells.congr {entry entry' : Bytes} {s : CString} {t : ℕ} (h : Spells entry s)
    (hnul : entry t = 0) (hsame : ∀ x ≤ t, entry' x = entry x) : Spells entry' s := fun x hx => by
  rw [hsame x (hx.trans (h.strlen_le_of_nul hnul)), h x hx]

theorem SameName.symm {s t : CString} (h : SameName s t) : SameName t s :=
  ⟨h.1.symm, fun x hx => (h.2 x (h.1 ▸ hx)).symm⟩

namespace FileSystem

variable {fs fs' : FileSystem} {op : Operation} {fileName name : CString} {c d i : ℕ}

/-- The directory entry a move added, if it added one. -/
def addedEntry (m : Move FileSystem Operation) : Option ℕ :=
  (List.range maxFileCount).find? fun i => m.before.slot i = 0 ∧ m.after.slot i ≠ 0

/-- What one move does to the entry that the name stands for: a `createFile` that adds an entry
sets it, every `deleteFile` of the name removes it. -/
def trackEntry (name : CString) (entry : Option ℕ) (m : Move FileSystem Operation) : Option ℕ :=
  match m.label with
  | .createFile fileName => if SameName fileName name then (addedEntry m).or entry else entry
  | .deleteFile fileName => if SameName fileName name then none else entry
  | _ => entry

/-- The directory entry a name stands for after a history. -/
def entryOf (history : List (Move FileSystem Operation)) (name : CString) : Option ℕ :=
  history.foldl (trackEntry name) none

/-- The cluster behind the first free entry has an entry in the FAT and is not cluster 0. -/
def FileAhead (fs : FileSystem) (e : ℕ) : Prop :=
  0 < e + fs.cursorOffset ∧ e + fs.cursorOffset < fs.entries

/-- Where `createFile` finds room, its name fits the field and its cluster is one. Where
`deleteFile` is given the name of a file, the first entry with that name is in use. -/
def NamingStep (fs : FileSystem) : Operation → Prop
  | .createFile fileName => fs.Searches fileName →
    fs.FindsNothing ∨ strlen fileName < maxFileName ∧ ∃ e, fs.FirstFree e ∧ fs.FileAhead e
  | .deleteFile fileName => (∃ j, fs.Carries j fileName) →
    ∀ i, fs.readRoot.findName fileName = some i → fs.slot i ≠ 0
  | op => fs.WritesOnDisk op

/-- A directory whose names end within their field, and that the history tells. -/
structure Indexed (history : List (Move FileSystem Operation)) (fs : FileSystem) : Prop where
  ready : fs.Ready
  ended : ∀ i, fs.dir i (maxFileName - 1) = 0
  entry : ∀ name i, entryOf history name = some i ↔ fs.Carries i name

theorem Ready.naming_room (h : fs.Ready) (hstep : fs.NamingStep (.createFile fileName))
    (hok : (fs.findRoom fileName).1 = .ok (d, c)) :
    strlen fileName < maxFileName ∧ 0 < c ∧ c < fs.entries := by
  have hfound := (findRoom_spec h.mounted.cursor fileName).2 d c hok
  obtain ⟨-, k, hk, rfl⟩ := h.mounted.room_free h.reliable hfound
  rcases hstep hfound.searches with ⟨hnothing, -⟩ | ⟨hname, e, hfree, hgood⟩
  · exact absurd hk.zero (hnothing k hk.lt)
  · rw [h.search_firstFree hfree hk]
    exact ⟨hname, hgood⟩

theorem Ready.naming_marks (h : fs.Ready) (hstep : fs.NamingStep op) : fs.MarksInFat op := by
  cases op with
  | createFile fileName => exact fun d c hok => (h.naming_room hstep hok).2.2
  | _ => trivial

theorem NamingStep.writes (hstep : fs.NamingStep op) : fs.WritesOnDisk op := by
  cases op with
  | writeFile fileName buffer size => exact hstep
  | _ => trivial

/-- Comparing an argument with the entries of such a directory. -/
theorem Ready.entryCmp_spells (h : fs.Ready) (hended : ∀ i, fs.dir i (maxFileName - 1) = 0)
    (hi : i < maxFileCount) :
    fs.readRoot.entryCmp i fileName = 0 ↔ Spells (fs.dir i) fileName :=
  h.mounted.entryCmp_eq_zero h.reliable hi (.inr ⟨maxFileName - 1, by decide, hended i⟩)

theorem Ready.entryCluster (h : fs.Ready) (hi : i < maxFileCount) :
    fs.readRoot.entryCluster i = fs.slot i :=
  h.mounted.entryCluster_readRoot h.reliable hi

/-- The name a new entry spells. -/
theorem newEntry_spells (hlen : strlen fileName < maxFileName) :
    Spells (newEntry fileName c) fileName := fun x hx => by
  rw [newEntry_name (by omega)]
  split
  · rfl
  next hout =>
    have heq : x = strlen fileName := by
      simp only [maxFileName, clusterSize, maxFileCount] at *
      omega
    rw [heq, stringBytes_strlen]

theorem carries_update {entry : Bytes} (hdir : fs'.dir = Function.update fs.dir i entry) (j : ℕ) :
    fs'.Carries j name ↔ if j = i then readLE entry clusterIdxOffset 4 ≠ 0 ∧ Spells entry name
      else fs.Carries j name := by
  have hslot := slot_of_dir hdir
  split
  next hji =>
    rw [Carries, hslot, hdir, hji, Function.update_self, Function.update_self]
    rfl
  next hji =>
    rw [Carries, hslot, hdir, Function.update_of_ne hji, Function.update_of_ne hji]
    rfl

namespace Indexed

variable {history : List (Move FileSystem Operation)}

theorem unique (h : fs.Indexed history) {j : ℕ} (hi : fs.Carries i name)
    (hj : fs.Carries j name) : i = j :=
  Option.some.inj (((h.entry name i).mpr hi).symm.trans ((h.entry name j).mpr hj))

/-- `findFile` finds the entry the history tells. -/
theorem findFile (h : fs.Indexed history) (name : CString) :
    fs.readRoot.findFile name = entryOf history name := by
  cases hname : fs.readRoot.findFile name with
  | some i =>
    obtain ⟨hi, hlive, hcmp, -⟩ := findFile_some hname
    rw [h.ready.entryCluster hi] at hlive
    exact ((h.entry name i).mpr ⟨hlive, (h.ready.entryCmp_spells h.ended hi).mp hcmp⟩).symm
  | none =>
    cases hentry : entryOf history name with
    | none => rfl
    | some i =>
      obtain ⟨hlive, hspells⟩ := (h.entry name i).mp hentry
      have hi := slot_lt hlive
      refine absurd ((h.ready.entryCmp_spells h.ended hi).mpr hspells) (findFile_none hname hi ?_)
      rwa [h.ready.entryCluster hi]

/-- Where the directory stays, no entry was added. -/
theorem addedEntry_still (hslot : fs'.slot = fs.slot) : addedEntry ⟨fs, op, fs'⟩ = none := by
  rw [addedEntry, List.find?_eq_none]
  intro i _
  simp [hslot]

theorem addedEntry_update (hd : d < maxFileCount) (hfree : fs.slot d = 0) (hc : c ≠ 0)
    (hslot : fs'.slot = Function.update fs.slot d c) : addedEntry ⟨fs, op, fs'⟩ = some d := by
  have hadded (i : ℕ) : (fs.slot i = 0 ∧ fs'.slot i ≠ 0) ↔ i = d := by
    rw [hslot, Function.update_apply]
    by_cases hi : i = d
    · simp [hi, hfree, hc]
    · simp [hi]
  simp only [addedEntry, hadded]
  rw [List.find?_range_eq_some]
  refine ⟨by simp, List.mem_range.mpr hd, fun j hj => ?_⟩
  simpa using hj.ne

/-- Where the operation does not touch the disk, nothing about the names changes. -/
theorem trackEntry_quiet (h : fs.Indexed history) (hquiet : ¬ fs.Changes op)
    (hslot : fs'.slot = fs.slot) (name : CString) :
    trackEntry name (entryOf history name) ⟨fs, op, fs'⟩ = entryOf history name := by
  cases op with
  | createFile fileName =>
    simp only [trackEntry, addedEntry_still hslot, Option.none_or, ite_self]
  | deleteFile fileName =>
    simp only [trackEntry]
    split
    next hsame =>
      cases hentry : entryOf history name with
      | none => rfl
      | some i =>
        obtain ⟨hlive, hspells⟩ := (h.entry name i).mp hentry
        have hi := slot_lt hlive
        have hcmp := (h.ready.entryCmp_spells h.ended hi).mpr (hsame.symm.spells hspells)
        cases hname : fs.readRoot.findName fileName with
        | none => exact absurd hcmp (findName_none hname hi)
        | some j => exact absurd ⟨j, hname⟩ hquiet
    next => rfl
  | _ => rfl

/-- A new file: its name stands for the new entry. -/
theorem created (h : fs.Indexed history) (hstep : fs.NamingStep (.createFile fileName))
    (hok : (fs.findRoom fileName).1 = .ok (d, c))
    (hdir : fs'.dir = Function.update fs.dir d (newEntry fileName c)) (name : CString) (i : ℕ) :
    trackEntry name (entryOf history name) ⟨fs, .createFile fileName, fs'⟩ = some i ↔
      fs'.Carries i name := by
  obtain ⟨hlen, hpos, hc⟩ := h.ready.naming_room hstep hok
  have hfound := (findRoom_spec h.ready.mounted.cursor fileName).2 d c hok
  have hfree := (h.ready.mounted.room_free h.ready.reliable hfound).1
  have hspells := newEntry_spells hlen (c := c)
  have hcluster : readLE (newEntry fileName c) clusterIdxOffset 4 = c :=
    newEntry_cluster (hc.trans h.ready.mounted.layout.2.2.2)
  have hunused : ¬ fs.Carries d name := fun hcarries => hcarries.1 hfree
  have hslot := slot_created hdir (hc.trans h.ready.mounted.layout.2.2.2)
  simp only [trackEntry, addedEntry_update hfound.slot_lt hfree hpos.ne' hslot, Option.some_or]
  rw [carries_update hdir, hcluster]
  by_cases hsame : SameName fileName name
  · rw [if_pos hsame]
    split
    next hid => exact ⟨fun _ => ⟨hpos.ne', hsame.spells hspells⟩, fun _ => congrArg some hid.symm⟩
    next hid =>
      refine ⟨fun heq => absurd (Option.some.inj heq).symm hid, fun hcarries => ?_⟩
      have hi := slot_lt hcarries.1
      have hcmp := (h.ready.entryCmp_spells h.ended hi).mpr (hsame.symm.spells hcarries.2)
      exact absurd hcmp (hfound.unknown i hi (by rw [h.ready.entryCluster hi]; exact hcarries.1))
  · rw [if_neg hsame, h.entry name i]
    split
    next hid =>
      rw [hid]
      exact ⟨fun hcarries => absurd hcarries hunused,
        fun hcarries => absurd (hspells.sameName hcarries.2) hsame⟩
    next => rfl

/-- A deleted entry: its name stands for nothing. -/
theorem deleted (h : fs.Indexed history) (hstep : fs.NamingStep (.deleteFile fileName)) {i : ℕ}
    (hname : fs.readRoot.findName fileName = some i)
    (hdir : fs'.dir = Function.update fs.dir i
      (writeLE (writeLE (fs.dir i) clusterIdxOffset 4 0) 0 1 0xE5)) (name : CString) (j : ℕ) :
    trackEntry name (entryOf history name) ⟨fs, .deleteFile fileName, fs'⟩ = some j ↔
      fs'.Carries j name := by
  obtain ⟨hi, hcmp, -⟩ := findName_some hname
  have hspells := (h.ready.entryCmp_spells h.ended hi).mp hcmp
  have hcluster : readLE (writeLE (writeLE (fs.dir i) clusterIdxOffset 4 0) 0 1 0xE5)
      clusterIdxOffset 4 = 0 := by
    rw [readLE_writeLE_disjoint (by decide), readLE_writeLE]
    rfl
  rw [carries_update hdir, hcluster]
  simp only [trackEntry, ne_eq, not_true_eq_false, false_and, if_false_left]
  by_cases hsame : SameName fileName name
  · rw [if_pos hsame]
    refine ⟨fun heq => (nomatch heq), fun ⟨hji, hcarries⟩ => absurd ?_ hji⟩
    have hlive := hstep ⟨j, hcarries.1, hsame.symm.spells hcarries.2⟩ i hname
    exact h.unique hcarries ⟨hlive, hsame.spells hspells⟩
  · rw [if_neg hsame, h.entry name j]
    refine ⟨fun hcarries => ⟨fun hji => hsame ?_, hcarries⟩, And.right⟩
    exact hspells.sameName (hji ▸ hcarries.2)

theorem step (h : fs.Indexed history) (hstep : fs.NamingStep op) :
    (fs.operate op).Indexed (history ++ [⟨fs, op, fs.operate op⟩]) := by
  have hmarks := h.ready.naming_marks hstep
  obtain ⟨⟨data, hstores⟩, hchange⟩ := h.ready.operate_spec hmarks hstep.writes
  have hready := h.ready.operate hmarks hstep.writes
  generalize fs.operate op = fs' at hstores hchange hready
  have hsnoc (name : CString) : entryOf (history ++ [⟨fs, op, fs'⟩]) name =
      trackEntry name (entryOf history name) ⟨fs, op, fs'⟩ := by
    rw [entryOf, List.foldl_append]
    rfl
  have hended {i : ℕ} {entry : Bytes} (hentry : entry (maxFileName - 1) = 0)
      (hdir : fs'.dir = Function.update fs.dir i entry) (j : ℕ) :
      fs'.dir j (maxFileName - 1) = 0 := by
    rw [hdir, Function.update_apply]
    split
    · exact hentry
    · exact h.ended j
  cases hchange with
  | still hquiet hsame =>
    have hdir := dir_congr hsame hstores.fatInfor
    have hslot : fs'.slot = fs.slot := funext fun i => by rw [slot, slot, hdir]
    refine ⟨hready, fun i => hdir ▸ h.ended i, fun name i => ?_⟩
    rw [hsnoc, h.trackEntry_quiet hquiet hslot, h.entry, Carries, Carries, hslot, hdir]
  | created hok hfound hfat hdir =>
    refine ⟨hready, hended ?_ hdir, fun name i => by rw [hsnoc]; exact h.created hstep hok hdir name i⟩
    rw [newEntry_name (by decide), if_neg fun hx => absurd hx.2 (Nat.lt_irrefl _)]
  | @deleted fileName i hname hfat hdir =>
    refine ⟨hready, hended ?_ hdir, fun name j => by rw [hsnoc]; exact h.deleted hstep hname hdir name j⟩
    rw [writeLE_of_not_mem (by decide), writeLE_of_not_mem (by decide), h.ended]
  | @written fileName buffer size i hname hfat hdir =>
    have hlast : writeLE (fs.dir i) fileSizeOffset 4 (dwordOf size) (maxFileName - 1) = 0 := by
      rw [writeLE_of_not_mem (by decide), h.ended]
    refine ⟨hready, hended hlast hdir, fun name j => ?_⟩
    rw [hsnoc, show trackEntry name (entryOf history name) _ = entryOf history name from rfl,
      h.entry, carries_update hdir, readLE_writeLE_disjoint (by decide)]
    split
    next hji =>
      rw [hji]
      have hfield (x : ℕ) (hx : x ≤ maxFileName - 1) :
          writeLE (fs.dir i) fileSizeOffset 4 (dwordOf size) x = fs.dir i x :=
        writeLE_of_not_mem (.inl (Nat.lt_of_le_of_lt hx (by decide)))
      exact and_congr_right fun _ => ⟨fun hs => Spells.congr hs (h.ended i) hfield,
        fun hs => hs.congr hlast fun x hx => (hfield x hx).symm⟩
    next => rfl

end Indexed

theorem Fresh.indexed (h : fs.Fresh) : fs.Indexed [] := by
  refine ⟨h.ready, fun i => h.dir_eq i _, fun name i => ⟨fun heq => (nomatch heq), fun hcarries => ?_⟩⟩
  exact absurd (readLE_eq_zero.mpr fun x _ => h.dir_eq i _) hcarries.1

/-- From a successful `format` and `mount` on, as long as new names fit their field and get a
cluster and no file is hidden from `deleteFile`, no two live entries store the same name, and
the lookups of a name find the entry that the history of `createFile` and `deleteFile` tells. -/
theorem names_identify {fs₁ fs₂ fs₃ : FileSystem} {history : List (Move FileSystem Operation)}
    (hr : fs.disk.Reliable) (hformat : fs.format = (true, fs₁))
    (hmount : fs₁.mount = (.ok (), fs₂)) (hrun : Run step NamingStep fs₂ history fs₃) :
    (∀ i j name, fs₃.Carries i name → fs₃.Carries j name → i = j) ∧
    ∀ name, fs₃.readRoot.findFile name = entryOf history name ∧
      (∀ i, entryOf history name = some i →
        (∀ buffer, ∃ contents,
          (fs₃.readFile name buffer).1 = .ok (intOf (fs₃.sizeOf i), contents)) ∧
        (∀ buffer size, (fs₃.writeFile name buffer size).1 = .ok ()) ∧
        (fs₃.createFile name).1 = some .alreadyExistMessage ∧
        (fs₃.createFile name).2.disk = fs₃.disk) ∧
      (entryOf history name = none →
        (∀ buffer, (fs₃.readFile name buffer).1 = .error .notFoundFileMessage) ∧
        (∀ buffer size, (fs₃.writeFile name buffer size).1 = .error .notFoundFileMessage) ∧
        (fs₃.createFile name).1 ≠ some .alreadyExistMessage) := by
  have hindexed : fs₃.Indexed history := by
    refine hrun.history_invariant (fresh_of_format hr hformat hmount).indexed
      fun past t op u _ hindexed hok hstep => ?_
    obtain rfl : t.operate op = u := Option.some.inj hstep
    exact hindexed.step hok
  have hready := hindexed.ready
  have hmounted := hready.mounted.isMounted
  refine ⟨fun i j name hi hj => hindexed.unique hi hj, fun name => ⟨hindexed.findFile name,
    fun i hentry => ?_, fun hentry => ?_⟩⟩
  · have hfile := (hindexed.findFile name).trans hentry
    obtain ⟨hi, hlive, hcmp, -⟩ := findFile_some hfile
    have hknown := findRoom_known hmounted hi hlive hcmp
    refine ⟨fun buffer => ?_, fun buffer size => ?_, ?_, ?_⟩
    · have hsize : readLE fs₃.readRoot.buffer4096 (fileInformationSize * i + fileSizeOffset) 4 =
          fs₃.sizeOf i := ((hready.mounted.readRoot_dir hready.reliable hi).readLE (by decide)).symm
      refine ⟨(fs₃.readRoot.readCluster (fs₃.readRoot.entryCluster i) buffer).1, ?_⟩
      simp only [readFile, hmounted, Bool.not_true, Bool.false_eq_true, if_false, hfile, ← hsize]
      rfl
    · simp only [writeFile, hmounted, Bool.not_true, Bool.false_eq_true, if_false, hfile]
    · rw [createFile, hknown]
    · rw [createFile, hknown]
      exact (hready.mounted.readRoot_stores hready.reliable).disk
  · have hfile := (hindexed.findFile name).trans hentry
    refine ⟨fun buffer => ?_, fun buffer size => ?_, fun hmessage => ?_⟩
    · simp only [readFile, hmounted, Bool.not_true, Bool.false_eq_true, if_false, hfile]
    · simp only [writeFile, hmounted, Bool.not_true, Bool.false_eq_true, if_false, hfile]
    · have hroom : (fs₃.findRoom name).1 = .error (some .alreadyExistMessage) := by
        cases hresult : (fs₃.findRoom name).1 with
        | error message =>
          rw [createFile_error hresult] at hmessage
          exact congrArg Except.error hmessage
        | ok room =>
          rw [createFile, show fs₃.findRoom name = (.ok room, (fs₃.findRoom name).2) from
            Prod.ext hresult rfl] at hmessage
          cases hmessage
      obtain ⟨i, hi, hlive, hcmp⟩ := known_of_findRoom hroom
      exact findFile_none hfile hi hlive hcmp

/-- After `a` was deleted its name finds nothing, while `c` is found. -/
theorem names_identify_first : smallBC.readRoot.findFile [0x61] = none ∧
    smallBC.readRoot.findFile [0x63] = some 2 := by
  obtain ⟨⟨hfree, hahead⟩, ⟨hfreeA, haheadA⟩, hfreeAB, haheadAB⟩ := small_searches
  have hname : smallABC.readRoot.findName [0x61] = some 0 := by decide +kernel
  have hlive : smallABC.slot 0 = 1 := (small_slots 0 (by decide)).1
  have hrun : Run FileSystem.step NamingStep small _ smallBC := small_run
    (fun _ => .inr ⟨by decide, 1, hfree, Nat.add_pos_left (by decide) _, hahead.1⟩)
    (fun _ => .inr ⟨by decide, 2, hfreeA, Nat.add_pos_left (by decide) _, haheadA.1⟩)
    (fun _ => .inr ⟨by decide, 2, hfreeAB, Nat.add_pos_left (by decide) _, haheadAB.1⟩)
    fun _ i hi => by
      obtain rfl : 0 = i := Option.some.inj (hname.symm.trans hi)
      rw [hlive]
      decide
  have hfound := (names_identify (fun _ => rfl) small_format small_mount hrun).2
  constructor
  · rw [(hfound [0x61]).1]
    decide +kernel
  · rw [(hfound [0x63]).1]
    decide +kernel

/-- A name of 24 characters is cut to 23, and a second `createFile` of it stores them again. -/
theorem name_stored_twice : ∃ fs, follow step small
    [.createFile (List.replicate 24 0x61), .createFile (List.replicate 24 0x61)] = some fs ∧
      fs.slot 0 ≠ 0 ∧ fs.slot 1 ≠ 0 ∧ (∀ x < 23, fs.dir 0 x = 0x61 ∧ fs.dir 1 x = 0x61) ∧
      fs.dir 0 23 = 0 ∧ fs.dir 1 23 = 0 :=
  ⟨_, rfl, by decide +kernel⟩

end FileSystem
end SkhuOS
