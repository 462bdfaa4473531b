import Mathlib.Data.List.Find
import SkhuOS.FS.Names
import SkhuOS.Shell.Shell

/-! A command line is a word and an argument: what the loops of `executeCommand` find in it. -/
namespace SkhuOS
open Foundation

/-- The first word of a command line, and what stands behind the space after it. -/
def commandWord (line : List BYTE) : CString := line.takeWhile fun ch => ch ≠ 0x20
def argument (line : List BYTE) : CString := (line.dropWhile fun ch => ch ≠ 0x20).tail

/-- The command a line is taken for, with its argument. -/
def commandOf (line : List BYTE) : Option (Command × CString) :=
  (commandTable.find? fun entry => commandWord line = entry.1).map fun entry =>
    (entry.2, argument line)

variable {cmd : Bytes} {line word : List BYTE}

/-- The word ends at a space or with the line, and the argument is behind the space. -/
theorem commandWord_split (line : List BYTE) : ∃ rest, line = commandWord line ++ rest ∧
    0x20 ∉ commandWord line ∧ argument line = rest.tail ∧
      (rest = [] ∨ ∃ tail, rest = 0x20 :: tail) := by
  induction line with
  | nil => exact ⟨[], rfl, List.not_mem_nil, rfl, .inl rfl⟩
  | cons c cs ih =>
    obtain ⟨rest, hline, hword, hargument, hrest⟩ := ih
    by_cases hc : c = 0x20
    · have hnil : commandWord (c :: cs) = [] := List.takeWhile_cons_of_neg (by rw [hc]; decide)
      have htail : argument (c :: cs) = cs := by
        rw [argument, List.dropWhile_cons_of_neg (by rw [hc]; decide)]
        rfl
      rw [hnil]
      exact ⟨c :: cs, rfl, List.not_mem_nil, htail, .inr ⟨cs, by rw [hc]⟩⟩
    · have hcons : commandWord (c :: cs) = c :: commandWord cs :=
        List.takeWhile_cons_of_pos (decide_eq_true hc)
      have hdrop : (c :: cs).dropWhile (fun ch => ch ≠ 0x20) = cs.dropWhile fun ch => ch ≠ 0x20 :=
        List.dropWhile_cons_of_pos (decide_eq_true hc)
      rw [hcons, argument, hdrop]
      refine ⟨rest, congrArg (c :: ·) hline, ?_, hargument, hrest⟩
      exact List.not_mem_cons_of_ne_of_not_mem (Ne.symm hc) hword

/-- The character behind the word. -/
theorem commandWord_end (h : Holds 0 cmd line) {rest : List BYTE}
    (hline : line = commandWord line ++ rest) : cmd (commandWord line).length = rest.headD 0 := by
  rw [h.reads _ (by rw [congrArg List.length hline, List.length_append]; omega)]
  nth_rewrite 1 [hline]
  rw [List.getD_eq_getElem?_getD, List.getElem?_append_right le_rfl, Nat.sub_self]
  cases rest with
  | nil => rfl
  | cons c cs => rfl

theorem commandWord_reads (h : Holds 0 cmd line) {i : ℕ} (hi : i < (commandWord line).length) :
    cmd i = (commandWord line)[i] ∧ cmd i ≠ 0x20 ∧ cmd i ≠ 0 := by
  obtain ⟨rest, hline, hword, -, -⟩ := commandWord_split line
  have hlt : i < line.length := by
    rw [congrArg List.length hline, List.length_append]
    omega
  have hread : cmd i = (commandWord line)[i] := by
    rw [h.reads_lt hlt]
    exact (List.takeWhile_prefix _).getElem hi ▸ rfl
  refine ⟨hread, fun hspace => hword ?_, h.ne_nul hlt⟩
  rw [← hspace, hread]
  exact List.getElem_mem hi

/-- The copying loop copies the word, and a NUL behind it. -/
theorem copyName_word (h : Holds 0 cmd line) (rounds : ℕ) (p : ParsedName)
    (hidx : p.idx ≤ (commandWord line).length)
    (hrounds : (commandWord line).length < p.idx + rounds)
    (hname : ∀ i (hi : i < (commandWord line).length), i < p.idx →
      p.name i = (commandWord line)[i]) :
    (copyName cmd rounds p).idx = (commandWord line).length ∧
      Holds 0 (copyName cmd rounds p).name (commandWord line) := by
  induction rounds generalizing p with
  | zero => omega
  | succ rounds ih =>
    unfold copyName
    split
    next hgo =>
      have hlt : p.idx < (commandWord line).length := by
        refine lt_of_le_of_ne hidx fun heq => ?_
        obtain ⟨rest, hline, -, -, hrest⟩ := commandWord_split line
        have hend := commandWord_end h hline
        rw [← heq] at hend
        rcases hrest with rfl | ⟨tail, rfl⟩
        · exact hgo.2 hend
        · exact hgo.1 hend
      apply ih
      · exact hlt
      · show (commandWord line).length < p.idx + 1 + rounds
        omega
      · intro i hi hin
        show Function.update p.name p.idx (cmd p.idx) i = _
        rw [Function.update_apply]
        split
        next heq =>
          rw [← heq]
          exact (commandWord_reads h hi).1
        next hne => exact hname i hi (lt_of_le_of_ne (Nat.le_of_lt_succ hin) hne)
    next hstop =>
      have heq : p.idx = (commandWord line).length := by
        by_contra hne
        exact hstop (commandWord_reads h (lt_of_le_of_ne hidx hne)).2
      refine ⟨heq, fun i hi => ?_, fun hmem => ?_⟩
      · show Function.update p.name p.idx 0 i = _
        rw [heq, Function.update_apply, List.getD_eq_getElem?_getD]
        split
        next hlast =>
          rw [hlast, List.getElem?_eq_none le_rfl]
          rfl
        next hne =>
          have hlt := lt_of_le_of_ne hi hne
          rw [List.getElem?_eq_getElem hlt]
          exact hname i hlt (heq ▸ hlt)
      · exact h.proper ((List.takeWhile_prefix _).subset hmem)

theorem strcmp_word {name : Bytes} {str : CString} (h : Holds 0 name word) (hstr : 0 ∉ str) :
    strcmp name 0 str = 0 ↔ word = str := by
  rw [strcmp_eq_zero, strlen_eq_length hstr]
  constructor
  · intro hsame
    refine h.unique ⟨fun i hi => ?_, hstr⟩
    have hread := hsame i hi
    rwa [Nat.zero_add] at hread
  · rintro rfl x hx
    rw [Nat.zero_add]
    exact h.reads x hx

theorem commandTable_proper : ∀ entry ∈ commandTable, 0 ∉ entry.1 ∧ entry.1 ≠ [] := by decide

/-- The parser looks up the word of the line. -/
theorem find_command {name : Bytes} (h : Holds 0 name word) :
    (commandTable.find? fun entry => strcmp name 0 entry.1 = 0) =
      commandTable.find? fun entry => word = entry.1 := by
  apply List.find?_congr
  intro entry hentry
  exact decide_eq_decide.mpr (strcmp_word h (commandTable_proper entry hentry).1)

/-- A line without a word is no command. -/
theorem commandOf_blank (hblank : commandWord line = []) : commandOf line = none := by
  have hnone : commandTable.find? (fun entry => commandWord line = entry.1) = none := by
    rw [hblank]
    decide
  rw [commandOf, hnone]
  rfl

end SkhuOS
