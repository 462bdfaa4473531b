import SkhuOS.FS.Format

/-! How the operations find an entry by its name. -/
namespace SkhuOS
open Foundation

variable {mem : Bytes} {a x : ℕ}

theorem stringBytes_ne_zero {str : CString} (hx : x < strlen str) : stringBytes str x ≠ 0 := by
  induction str generalizing x with
  | nil => exact absurd hx (Nat.not_lt_zero x)
  | cons c cs ih =>
    rw [strlen] at hx
    split at hx
    · exact absurd hx (Nat.not_lt_zero x)
    next hc =>
      cases x with
      | zero => exact hc
      | succ x => exact ih (by omega)

theorem stringBytes_strlen (str : CString) : stringBytes str (strlen str) = 0 := by
  induction str with
  | nil => rfl
  | cons c cs ih =>
    rw [strlen]
    split
    next hc => exact hc
    · exact ih

/-- `strcmp` finds equality if the memory spells the string and its NUL. -/
theorem strcmp_eq_zero {str : CString} :
    strcmp mem a str = 0 ↔ ∀ x ≤ strlen str, mem (a + x) = stringBytes str x := by
  induction str generalizing a with
  | nil =>
    rw [strcmp, strlen]
    constructor
    · intro h x hx
      have hnul : mem a = 0 := BitVec.eq_of_toInt_eq (by simpa using h)
      rw [Nat.le_zero.mp hx]
      exact hnul
    · intro h
      rw [show mem a = 0 from h 0 (Nat.le_refl 0)]
      rfl
  | cons c cs ih =>
    rw [strcmp, strlen]
    by_cases hc : mem a = c
    · rw [if_neg (by rw [hc]; omega)]
      by_cases hzero : c = 0
      · rw [if_pos hzero, if_pos hzero]
        refine ⟨fun _ x hx => ?_, fun _ => rfl⟩
        rw [Nat.le_zero.mp hx]
        exact hc
      · rw [if_neg hzero, if_neg hzero, ih]
        constructor
        · intro h x hx
          cases x with
          | zero => exact hc
          | succ x =>
            rw [← Nat.add_assoc, Nat.add_right_comm]
            exact h x (by omega)
        · intro h x hx
          have := h (x + 1) (by omega)
          rwa [← Nat.add_assoc, Nat.add_right_comm] at this
    · have hne : (mem a).toInt - c.toInt ≠ 0 := fun h =>
        hc (BitVec.eq_of_toInt_eq (by omega))
      rw [if_pos hne]
      refine ⟨fun h => absurd h hne, fun h => absurd ?_ hc⟩
      exact h 0 (Nat.zero_le _)

namespace FileSystem

variable {fs : FileSystem} {fileName : CString} {i : ℕ}

/-- A directory entry whose name ends before its 32 bytes do. -/
def Terminated (entry : Bytes) : Prop := ∃ t < fileInformationSize, entry t = 0

/-- Comparing an argument with an entry compares it with the name stored there, unless both
are longer than the entry. -/
theorem Mounted.entryCmp_eq_zero (h : fs.Mounted) (hr : fs.disk.Reliable) (hi : i < maxFileCount)
    (hend : strlen fileName < fileInformationSize ∨ Terminated (fs.dir i)) :
    fs.readRoot.entryCmp i fileName = 0 ↔
      ∀ x ≤ strlen fileName, fs.dir i x = stringBytes fileName x := by
  have hdir := h.readRoot_dir hr hi
  rw [entryCmp, strcmp_eq_zero]
  have hshort (entry : Bytes) (hentry : ∀ x < fileInformationSize, entry x = fs.dir i x)
      (heq : ∀ x ≤ strlen fileName, entry x = stringBytes fileName x) :
      strlen fileName < fileInformationSize := by
    rcases hend with hlt | ⟨t, ht, hzero⟩
    · exact hlt
    · by_contra hge
      refine stringBytes_ne_zero (show t < strlen fileName by omega) ?_
      rw [← heq t (by omega), hentry t ht, hzero]
  constructor
  · intro heq
    have hlt := hshort (fun x => fs.readRoot.buffer4096 (fileInformationSize * i + x))
      (fun x hx => (hdir x hx).symm) heq
    intro x hx
    rw [hdir x (by omega), heq x hx]
  · intro heq
    have hlt := hshort (fs.dir i) (fun _ _ => rfl) heq
    intro x hx
    rw [← hdir x (by omega), heq x hx]

/-- The first entry with the name. -/
theorem findName_some (hname : fs.findName fileName = some i) : i < maxFileCount ∧
    fs.entryCmp i fileName = 0 ∧ ∀ j < i, fs.entryCmp j fileName ≠ 0 := by
  obtain ⟨hcmp, hi, hfirst⟩ := List.find?_range_eq_some.mp hname
  exact ⟨List.mem_range.mp hi, by simpa using hcmp, fun j hj => by simpa using hfirst j hj⟩

theorem findName_none (hname : fs.findName fileName = none) (hi : i < maxFileCount) :
    fs.entryCmp i fileName ≠ 0 := by
  simpa using List.find?_range_eq_none.mp hname i hi

/-- The first such entry in use. -/
theorem findFile_some (hname : fs.findFile fileName = some i) : i < maxFileCount ∧
    fs.entryCluster i ≠ 0 ∧ fs.entryCmp i fileName = 0 ∧
      ∀ j < i, fs.entryCluster j ≠ 0 → fs.entryCmp j fileName ≠ 0 := by
  obtain ⟨hcmp, hi, hfirst⟩ := List.find?_range_eq_some.mp hname
  rw [Bool.and_eq_true] at hcmp
  exact ⟨List.mem_range.mp hi, by simpa using hcmp.1, by simpa using hcmp.2,
    fun j hj hne => by simpa [hne] using hfirst j hj⟩

theorem findFile_none (hname : fs.findFile fileName = none) (hi : i < maxFileCount)
    (hlive : fs.entryCluster i ≠ 0) : fs.entryCmp i fileName ≠ 0 := by
  simpa [hlive] using List.find?_range_eq_none.mp hname i hi

/-- An entry in use that carries the name is found. -/
theorem findFile_isSome (hi : i < maxFileCount) (hlive : fs.entryCluster i ≠ 0)
    (hcmp : fs.entryCmp i fileName = 0) : ∃ j, fs.findFile fileName = some j := by
  cases hname : fs.findFile fileName with
  | none => exact absurd hcmp (findFile_none hname hi hlive)
  | some j => exact ⟨j, rfl⟩

/-- `createFile` refuses a name that an entry in use carries. -/
theorem findRoom_known (hmounted : fs.isMounted = true) (hi : i < maxFileCount)
    (hlive : fs.readRoot.entryCluster i ≠ 0) (hcmp : fs.readRoot.entryCmp i fileName = 0) :
    fs.findRoom fileName = (.error (some .alreadyExistMessage), fs.readRoot) := by
  rw [findRoom, if_neg (by simp [hmounted])]
  simp only
  rw [if_pos]
  exact List.any_eq_true.mpr ⟨i, List.mem_range.mpr hi, by simp [hlive, hcmp]⟩

theorem known_of_findRoom
    (h : (fs.findRoom fileName).1 = .error (some .alreadyExistMessage)) : ∃ i < maxFileCount,
      fs.readRoot.entryCluster i ≠ 0 ∧ fs.readRoot.entryCmp i fileName = 0 := by
  unfold findRoom at h
  split at h
  · exact nomatch h
  simp only at h
  split at h
  next hknown =>
    obtain ⟨i, hi, hmatch⟩ := List.any_eq_true.mp hknown
    rw [Bool.and_eq_true] at hmatch
    exact ⟨i, List.mem_range.mp hi, by simpa using hmatch.1, by simpa using hmatch.2⟩
  · split at h
    · exact nomatch h
    · split at h <;> exact nomatch h

/-- Where `createFile` finds no room it only looks. -/
theorem createFile_error {message : Option Message}
    (hroom : (fs.findRoom fileName).1 = .error message) :
    fs.createFile fileName = (message, (fs.findRoom fileName).2) := by
  have hresult : fs.findRoom fileName = (.error message, (fs.findRoom fileName).2) :=
    Prod.ext hroom rfl
  rw [createFile, hresult]

end FileSystem
end SkhuOS
