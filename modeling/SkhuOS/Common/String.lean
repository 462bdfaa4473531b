import SkhuOS.Common.Type
import SkhuOS.Foundation.LittleEndian
import SkhuOS.Foundation.Text

/-! Strings and memory of `common/String.c`. -/
namespace SkhuOS
open Foundation

def memsetZero (mem : Bytes) (size : ℕ) : Bytes := fun x => if x < size then 0 else mem x

/-- A string argument: the bytes up to the NUL. -/
abbrev CString := List BYTE

def strlen : CString → ℕ
  | [] => 0
  | c :: cs => if c = 0 then 0 else strlen cs + 1

/-- `strcmp` of the string at `a` with an argument; characters are signed. -/
def strcmp (mem : Bytes) (a : ℕ) : CString → ℤ
  | [] => (mem a).toInt
  | c :: cs =>
    if (mem a).toInt - c.toInt ≠ 0 then (mem a).toInt - c.toInt
    else if c = 0 then 0 else strcmp mem (a + 1) cs

/-- The bytes of a string argument in memory, its NUL included. -/
def stringBytes (str : CString) : Bytes := fun i => str.getD i 0

/-- The string at `a`, or the first `n` bytes of it. -/
def stringAt (mem : Bytes) (a : ℕ) : ℕ → CString
  | 0 => []
  | n + 1 => if mem a = 0 then [] else mem a :: stringAt mem (a + 1) n

theorem strlen_eq_length {str : CString} (h : 0 ∉ str) : strlen str = str.length := by
  induction str with
  | nil => rfl
  | cons c cs ih =>
    rw [List.mem_cons, not_or] at h
    unfold strlen
    rw [if_neg (Ne.symm h.1), ih h.2]
    rfl

theorem stringAt_eq_nil {mem : Bytes} {a n : ℕ} (hn : 0 < n) :
    stringAt mem a n = [] ↔ mem a = 0 := by
  obtain ⟨n, rfl⟩ := Nat.exists_eq_succ_of_ne_zero hn.ne'
  unfold stringAt
  split
  next hend => exact ⟨fun _ => hend, fun _ => rfl⟩
  next hne => exact ⟨(nomatch ·), fun hend => absurd hend hne⟩

/-- A NUL among the bytes ends the string that they start with. -/
theorem stringAt_holds {mem : Bytes} {a n k : ℕ} (hk : k < n) (hnul : mem (a + k) = 0) :
    Holds 0 (fun i => mem (a + i)) (stringAt mem a n) := by
  induction n generalizing a k with
  | zero => omega
  | succ n ih =>
    unfold stringAt
    split
    next hend => exact .nil hend
    next hne =>
      have hk0 : k ≠ 0 := by
        rintro rfl
        exact hne hnul
      obtain ⟨k, rfl⟩ := Nat.exists_eq_succ_of_ne_zero hk0
      apply Holds.cons hne rfl
      have htail := ih (a := a + 1) (k := k) (by omega) (by rw [← hnul]; congr 1; omega)
      exact htail.congr fun i _ => congrArg mem (by omega)

/-- A string that does not fill its place has found its NUL. -/
theorem stringAt_nul {mem : Bytes} {a n : ℕ} (hlen : (stringAt mem a n).length < n) :
    mem (a + (stringAt mem a n).length) = 0 := by
  induction n generalizing a with
  | zero => exact absurd hlen (Nat.not_lt_zero _)
  | succ n ih =>
    unfold stringAt at hlen ⊢
    split
    next hend => exact hend
    next hne =>
      rw [if_neg hne, List.length_cons] at hlen
      rw [List.length_cons, ← ih (a := a + 1) (by omega)]
      congr 1
      omega

/-- A text that fits is the string at its place. -/
theorem stringAt_eq {mem : Bytes} {text : CString} {n : ℕ} (h : Holds 0 mem text)
    (hlen : text.length < n) : stringAt mem 0 n = text := by
  have hnul : mem (0 + text.length) = 0 := by
    rw [Nat.zero_add]
    exact h.end_eq
  have hread := (stringAt_holds hlen hnul).congr fun i _ => congrArg mem (Nat.zero_add i).symm
  exact hread.unique h

/-- The same anywhere in memory. -/
theorem stringAt_text {mem : Bytes} {text : CString} {a n : ℕ}
    (h : Holds 0 (fun i => mem (a + i)) text) (hlen : text.length < n) : stringAt mem a n = text :=
  (stringAt_holds hlen h.end_eq).unique h

end SkhuOS
