import SkhuOS.Common.Number
import SkhuOS.Foundation.Sheet

/-! What the screen of `Print.c` shows: the last lines of an endless sheet, as long as it keeps
up with the line feeds made on its last line. -/
namespace SkhuOS
open Foundation

/-- The output routines. -/
inductive PrintCall where
  | printString (str : CString)
  | puts (str : CString)
  | printInt (num : DWORD) (radix : Radix)
  | printHex (num : QWORD)
  | moveToNextLine

namespace Screen

variable (s : Screen)

def print : PrintCall → Screen
  | .printString str => s.printString str
  | .puts str => s.puts str
  | .printInt num radix => s.printInt num radix
  | .printHex num => s.printHex num
  | .moveToNextLine => s.moveToNextLine

def printAll (calls : List PrintCall) : Screen := calls.foldl print s

/-- One call of `viewCharacter` or `moveToNextLine`. -/
def emit : Output BYTE → Screen
  | .symbol ch => s.viewCharacter ch
  | .lineFeed => s.moveToNextLine

def emitAll (outputs : List (Output BYTE)) : Screen := outputs.foldl emit s

/-- The cells `viewCharacter` stores to. -/
def viewed (s : Screen) : List (Output BYTE) → List ℤ
  | [] => []
  | .symbol ch :: rest => s.advance.1 :: viewed (s.viewCharacter ch) rest
  | .lineFeed :: rest => viewed s.moveToNextLine rest

end Screen

/-- A string breaks its line exactly at the character for a new line. -/
def stringOutputs : CString → List (Output BYTE)
  | [] => []
  | c :: cs =>
    if c = 0 then []
    else (if c = 0x0A then .lineFeed else .symbol c) :: stringOutputs cs

def PrintCall.outputs : PrintCall → List (Output BYTE)
  | .printString str => stringOutputs str
  | .puts str => stringOutputs str ++ [.lineFeed]
  | .printInt num radix =>
    if num = 0 then [.symbol 0x30]
    else
      let charNum := charDigits radix 32 (if num.toInt < 0 then -num else num).toInt.toNat
      (if num.toInt < 0 then [.symbol 0x2D] else []) ++
        (reverseArray charNum charNum.length).map .symbol
  | .printHex num =>
    if num = 0 then [.symbol 0x30]
    else
      let charNum := charDigits 16 16 num.toNat
      (reverseArray charNum charNum.length).map .symbol
  | .moveToNextLine => [.lineFeed]

/-- The strings of the call hold no back space. -/
def PrintCall.Plain : PrintCall → Prop
  | .printString str | .puts str => backSpace ∉ str
  | _ => True

namespace Screen

variable {s : Screen}

theorem emitAll_append (os os' : List (Output BYTE)) :
    s.emitAll (os ++ os') = (s.emitAll os).emitAll os' := List.foldl_append

theorem printString_eq (str : CString) : s.printString str = s.emitAll (stringOutputs str) := by
  induction str generalizing s with
  | nil => rfl
  | cons c cs ih =>
    unfold printString stringOutputs
    split
    · rfl
    · split
      · exact ih
      · exact ih

theorem viewCharacters_eq (chars : List BYTE) :
    s.viewCharacters chars = s.emitAll (chars.map .symbol) := by
  unfold emitAll viewCharacters
  rw [List.foldl_map]
  rfl

/-- The routines do nothing but view characters and move to the next line. -/
theorem print_eq (call : PrintCall) : s.print call = s.emitAll call.outputs := by
  cases call with
  | printString str => exact printString_eq str
  | puts str =>
    show (s.printString str).moveToNextLine = _
    rw [printString_eq, PrintCall.outputs, emitAll_append]
    rfl
  | printInt num radix =>
    simp only [print, printInt, PrintCall.outputs]
    split
    · rfl
    · split
      · rw [emitAll_append, viewCharacters_eq]
        rfl
      · rw [viewCharacters_eq]
        rfl
  | printHex num =>
    simp only [print, printHex, PrintCall.outputs]
    split
    · rfl
    · exact viewCharacters_eq _
  | moveToNextLine => rfl

theorem printAll_eq (calls : List PrintCall) :
    s.printAll calls = s.emitAll (calls.flatMap PrintCall.outputs) := by
  induction calls generalizing s with
  | nil => rfl
  | cons call calls ih =>
    rw [List.flatMap_cons, emitAll_append, ← print_eq]
    exact ih

end Screen

/-- A character that `viewCharacter` stores as it is and that leaves its cell not empty. -/
def Visible (c : BYTE) : Prop := c ≠ backSpace ∧ c ≠ 0

instance : DecidablePred Visible := fun _ => inferInstanceAs (Decidable (_ ∧ _))

theorem digitChar_visible (digit : ℕ) : Visible (digitChar digit) := by
  have hall {arr : List BYTE} (h : ∀ c ∈ arr, Visible c) : Visible (arr.getD digit 0x30) := by
    rw [List.getD_eq_getElem?_getD]
    cases hk : arr[digit]? with
    | none => decide
    | some c => exact h c (List.mem_of_getElem? hk)
  exact hall (by decide)

theorem charDigits_visible {radix fuel num : ℕ} : ∀ c ∈ charDigits radix fuel num, Visible c := by
  induction fuel generalizing num with
  | zero => simp [charDigits]
  | succ fuel ih =>
    unfold charDigits
    split
    · intro c hc
      rcases List.mem_cons.mp hc with rfl | hc
      · exact digitChar_visible _
      · exact ih c hc
    · simp

theorem stringOutputs_visible {str : CString} (h : backSpace ∉ str) :
    ∀ c, .symbol c ∈ stringOutputs str → Visible c := by
  induction str with
  | nil => simp [stringOutputs]
  | cons d cs ih =>
    obtain ⟨hd, hcs⟩ := not_or.mp (List.mem_cons.not.mp h)
    intro c hc
    unfold stringOutputs at hc
    split at hc
    next => cases hc
    next hzero =>
      rcases List.mem_cons.mp hc with hc | hc
      · split at hc
        · cases hc
        · cases hc
          exact ⟨Ne.symm hd, hzero⟩
      · exact ih hcs c hc

/-- A plain call views visible characters only. -/
theorem PrintCall.Plain.outputs_visible {call : PrintCall} (h : call.Plain) :
    ∀ c, .symbol c ∈ call.outputs → Visible c := by
  have hdigits {radix fuel num : ℕ} (c : BYTE) (hc : Output.symbol c ∈
      (reverseArray (charDigits radix fuel num) (charDigits radix fuel num).length).map
        Output.symbol) : Visible c := by
    obtain ⟨d, hd, hdc⟩ := List.mem_map.mp hc
    cases hdc
    rw [reverseArray_eq] at hd
    exact charDigits_visible c (List.mem_reverse.mp hd)
  intro c hc
  cases call with
  | printString str => exact stringOutputs_visible h c hc
  | puts str =>
    rcases List.mem_append.mp hc with hc | hc
    · exact stringOutputs_visible h c hc
    · simp at hc
  | printInt num radix =>
    simp only [outputs] at hc
    split at hc
    · obtain rfl : c = 0x30 := by simpa using hc
      decide
    · rcases List.mem_append.mp hc with hc | hc
      · split at hc
        · obtain rfl : c = 0x2D := by simpa using hc
          decide
        · cases hc
      · exact hdigits c hc
  | printHex num =>
    simp only [outputs] at hc
    split at hc
    · obtain rfl : c = 0x30 := by simpa using hc
      decide
    · exact hdigits c hc
  | moveToNextLine => simp [outputs] at hc

/-- The cells of the 25 lines of 80 characters. -/
def InWindow (a : ℤ) : Prop := ∃ i < lineCount, ∃ j < lineWidth, a = cellAddr i j

theorem cellAddr_eq (i j : ℤ) : cellAddr i j = 753664 + 160 * i + 2 * j := by
  simp only [cellAddr, videoMemoryAddr, oneLineSize]
  omega

theorem lineCount_eq : lineCount = 25 := rfl

theorem lineWidth_eq : lineWidth = 80 := rfl

namespace Screen

variable {s : Screen} {t : Sheet BYTE} {c : BYTE} {behind : ℕ}

/-- The screen shows the lines of the sheet from `behind` lines above its window on. The sheet is
blank below them. A cursor behind line feeds that the screen did not follow is below it. -/
structure Shows (s : Screen) (t : Sheet BYTE) (behind : ℕ) : Prop where
  col_lt : t.col < lineWidth
  row : t.top ≤ t.row ∧ t.row < t.top + lineCount
  behind_le : behind ≤ t.top
  bottom : behind ≠ 0 → t.row + 1 = t.top + lineCount ∧ t.col = 0
  cursor : s.currentPoint = cellAddr (t.row + behind - t.top : ℕ) t.col
  cells : ∀ i < lineCount, ∀ j < lineWidth,
    (s.cell (cellAddr i j)).character = t.line (t.top - behind + i) j
  blank : ∀ i, t.top - behind + lineCount ≤ i → ∀ j, t.line i j = 0

/-- The characters on the screen are those of the window. -/
def SameCells (s : Screen) (t : Sheet BYTE) : Prop :=
  ∀ i < lineCount, ∀ j < lineWidth, (s.cell (cellAddr i j)).character = t.window i j

/-- No cell of the screen holds a character. -/
def Empty (s : Screen) : Prop :=
  ∀ i < lineCount, ∀ j < lineWidth, (s.cell (cellAddr i j)).character = 0

theorem Shows.moveToNextLine (h : s.Shows t behind) : s.moveToNextLine.Shows (t.feed lineCount)
    (if t.row + 1 = t.top + lineCount then behind + 1 else behind) := by
  obtain ⟨hcol, hrow, hbehind, hbottom, hcursor, hcells, hblank⟩ := h
  have hcount := lineCount_eq
  have hwidth := lineWidth_eq
  have htop : (t.feed lineCount).top = max t.top (t.row + 2 - lineCount) := rfl
  have hnext : (t.feed lineCount).row = t.row + 1 ∧ (t.feed lineCount).col = 0 := ⟨rfl, rfl⟩
  generalize hn : (if t.row + 1 = t.top + lineCount then behind + 1 else behind) = behind'
  have hfirst : (t.feed lineCount).top - behind' = t.top - behind ∧ behind' ≤ (t.feed lineCount).top ∧
      (behind' ≠ 0 → t.row + 1 = t.top + lineCount) := by
    split at hn <;> omega
  obtain ⟨hfirst, hle, hlast⟩ := hfirst
  refine ⟨by omega, by omega, hle, by omega, ?_, ?_, ?_⟩
  · show s.currentPoint + ((oneLineSize : ℤ) - (s.currentPoint - videoMemoryAddr).tmod
      oneLineSize) = cellAddr ((t.feed lineCount).row + behind' - (t.feed lineCount).top : ℕ) (0 : ℕ)
    rw [hcursor, cellAddr_eq, cellAddr_eq]
    simp only [videoMemoryAddr, oneLineSize]
    rw [Int.tmod_eq_emod_of_nonneg (by omega)]
    omega
  · rw [hfirst]
    exact hcells
  · rw [hfirst]
    exact hblank

theorem advance_inside (h : s.currentPoint + 2 < cellAddr lineCount 0) :
    s.advance = (s.currentPoint, { s with currentPoint := s.currentPoint + oneCharSize }) := by
  unfold advance
  dsimp only
  rw [if_neg]
  rw [cellAddr_eq] at h
  simp only [videoMemoryAddr, oneLineSize, lineCount, oneCharSize] at *
  omega

/-- Scrolling moves every line up and leaves the last one blank. -/
theorem advance_scroll (h : cellAddr lineCount 0 ≤ s.currentPoint + 2) :
    s.advance.1 = s.currentPoint - 160 ∧ s.advance.2.currentPoint = s.currentPoint + 2 - 160 ∧
      ∀ i < lineCount, ∀ j < lineWidth, (s.advance.2.cell (cellAddr i j)).character =
        if i + 1 < lineCount then (s.cell (cellAddr (i + 1 : ℕ) j)).character else 0 := by
  have hscroll : s.currentPoint + (oneCharSize : ℤ) ≥
      (videoMemoryAddr + oneLineSize * lineCount : ℕ) := by
    rw [cellAddr_eq] at h
    simp only [videoMemoryAddr, oneLineSize, lineCount, oneCharSize] at *
    omega
  unfold advance
  dsimp only
  rw [if_pos hscroll]
  refine ⟨rfl, rfl, fun i hi j hj => ?_⟩
  rw [lineWidth_eq] at hj
  have haddr := cellAddr_eq i j
  simp only [fillLastLineBlank, copyLinesUp]
  by_cases hlast : i + 1 < lineCount
  · have hnext : cellAddr i j + (oneLineSize : ℤ) = cellAddr (i + 1 : ℕ) j := by
      rw [cellAddr_eq, cellAddr_eq]
      simp only [oneLineSize]
      omega
    rw [if_neg, if_pos, if_pos hlast, hnext]
    all_goals
      simp only [videoMemoryAddr, oneLineSize, lineCount] at *
      omega
  · rw [if_pos, if_neg hlast]
    simp only [videoMemoryAddr, oneLineSize, lineCount] at *
    omega

theorem viewCharacter_eq (hc : c ≠ backSpace) :
    s.viewCharacter c = s.advance.2.setCharacter s.advance.1 c := if_neg hc

/-- A character that fits on the screen with its cursor behind it. -/
theorem Shows.view_inside (h : s.Shows t behind) (hc : c ≠ backSpace)
    (hlt : s.currentPoint + 2 < cellAddr lineCount 0) :
    InWindow s.advance.1 ∧ (s.viewCharacter c).Shows (t.put lineWidth lineCount c) 0 := by
  obtain ⟨hcol, hrow, hbehind, hbottom, hcursor, hcells, hblank⟩ := h
  have hput := t.put_cursor lineWidth lineCount c
  have hline := t.put_line lineWidth lineCount c
  have hcount := lineCount_eq
  have hwidth := lineWidth_eq
  have hinside : behind = 0 ∧ ¬ (t.row - t.top = 24 ∧ t.col = 79) := by
    rw [hcursor, cellAddr_eq, cellAddr_eq] at hlt
    omega
  obtain ⟨rfl, hlast⟩ := hinside
  generalize t.put lineWidth lineCount c = t' at hput hline
  have htop : t'.top = t.top := by omega
  rw [viewCharacter_eq hc, advance_inside hlt]
  refine ⟨⟨_, by omega, _, hcol, hcursor⟩, by omega, by omega, by omega, by omega, ?_, ?_, ?_⟩
  · show s.currentPoint + (oneCharSize : ℤ) = _
    rw [hcursor, cellAddr_eq, cellAddr_eq]
    simp only [oneCharSize]
    omega
  · intro i hi j hj
    have hsame : cellAddr i j = s.currentPoint ↔ t.top + i = t.row ∧ j = t.col := by
      rw [hcursor, cellAddr_eq, cellAddr_eq]
      omega
    rw [hline, htop, Nat.sub_zero]
    simp only [setCharacter, Function.update_apply, hsame]
    split
    · rfl
    · exact hcells i hi j hj
  · intro i hi j
    rw [hline, if_neg (by omega)]
    exact hblank i (by omega) j

/-- A character that makes the screen scroll and catch up. -/
theorem Shows.view_scroll (h : s.Shows t behind) (hc : c ≠ backSpace)
    (hge : cellAddr lineCount 0 ≤ s.currentPoint + 2) (hbehind' : behind ≤ 1) :
    InWindow s.advance.1 ∧ (s.viewCharacter c).Shows (t.put lineWidth lineCount c) 0 := by
  obtain ⟨hcol, hrow, hbehind, hbottom, hcursor, hcells, hblank⟩ := h
  have hput := t.put_cursor lineWidth lineCount c
  have hline := t.put_line lineWidth lineCount c
  obtain ⟨hcell, hpoint, hmoved⟩ := advance_scroll hge
  have hcount := lineCount_eq
  have hwidth := lineWidth_eq
  have hlast : t.row = t.top + 24 ∧ (behind = 0 ∧ t.col = 79 ∨ behind = 1 ∧ t.col = 0) := by
    rw [hcursor, cellAddr_eq, cellAddr_eq] at hge
    omega
  generalize t.put lineWidth lineCount c = t' at hput hline
  have htop : t'.top = t.top - behind + 1 := by omega
  have haddr : s.advance.1 = cellAddr (23 + behind : ℕ) t.col := by
    rw [hcell, hcursor, cellAddr_eq, cellAddr_eq]
    omega
  rw [viewCharacter_eq hc]
  refine ⟨⟨_, by omega, _, hcol, haddr⟩, by omega, by omega, by omega, by omega, ?_, ?_, ?_⟩
  · show s.advance.2.currentPoint = _
    rw [hpoint, hcursor, cellAddr_eq, cellAddr_eq]
    omega
  · intro i hi j hj
    have hsame : cellAddr i j = s.advance.1 ↔ t'.top + i = t.row ∧ j = t.col := by
      rw [haddr, cellAddr_eq, cellAddr_eq]
      omega
    rw [hline, Nat.sub_zero]
    simp only [setCharacter, Function.update_apply, hsame]
    split
    · rfl
    · rw [hmoved i hi j hj, htop, Nat.add_assoc, Nat.add_comm 1 i]
      split
      next hlast => exact hcells (i + 1) hlast j hj
      next hlast => exact (hblank _ (by omega) j).symm
  · intro i hi j
    rw [hline, if_neg (by omega)]
    exact hblank i (by omega) j

theorem Shows.viewCharacter (h : s.Shows t behind) (hc : c ≠ backSpace) (hbehind : behind ≤ 1) :
    InWindow s.advance.1 ∧ (s.viewCharacter c).Shows (t.put lineWidth lineCount c) 0 := by
  rcases lt_or_ge (s.currentPoint + 2) (cellAddr lineCount 0) with hlt | hge
  · exact h.view_inside hc hlt
  · exact h.view_scroll hc hge hbehind

/-- Two lines below the screen a character misses it. -/
theorem Shows.view_outside (h : s.Shows t behind) (hbehind : 2 ≤ behind) :
    ¬ InWindow s.advance.1 := by
  have hbottom := h.bottom (by omega)
  have hcount := lineCount_eq
  have hwidth := lineWidth_eq
  have hge : cellAddr lineCount 0 ≤ s.currentPoint + 2 := by
    rw [h.cursor, cellAddr_eq, cellAddr_eq]
    omega
  rintro ⟨i, hi, j, hj, ha⟩
  rw [(advance_scroll hge).1, h.cursor, cellAddr_eq, cellAddr_eq] at ha
  omega

/-- A screen that is behind shows the window of the sheet only where both are empty. -/
theorem Shows.sameCells_iff (h : s.Shows t behind) : s.SameCells t ↔ behind = 0 ∨ s.Empty := by
  obtain ⟨-, -, hle, -, -, hcells, hblank⟩ := h
  constructor
  · intro hsame
    by_cases hzero : behind = 0
    · exact .inl hzero
    -- From the last line up, each line equals one further down.
    have hup (k : ℕ) : ∀ i < lineCount, lineCount - k ≤ i → ∀ j < lineWidth,
        t.line (t.top - behind + i) j = 0 := by
      induction k with
      | zero => omega
      | succ k ih =>
        intro i hi hik j hj
        have hnext : t.line (t.top - behind + i) j = t.line (t.top + i) j :=
          (hcells i hi j hj).symm.trans (hsame i hi j hj)
        rw [hnext]
        by_cases hshown : i + behind < lineCount
        · have hih := ih (i + behind) hshown (by omega) j hj
          rwa [show t.top - behind + (i + behind) = t.top + i by omega] at hih
        · exact hblank _ (by omega) j
    exact .inr fun i hi j hj => (hcells i hi j hj).trans (hup lineCount i hi (by omega) j hj)
  · rintro (rfl | hempty) i hi j hj
    · exact hcells i hi j hj
    · rw [hempty i hi j hj, Sheet.window]
      by_cases hshown : behind + i < lineCount
      · have hcell := (hcells (behind + i) hshown j hj).symm.trans (hempty _ hshown j hj)
        rw [← hcell, show t.top - behind + (behind + i) = t.top + i by omega]
      · exact (hblank _ (by omega) j).symm

/-- A character that was put on the screen is there. -/
theorem not_empty_viewCharacter (hc : Visible c) (hin : InWindow s.advance.1) :
    ¬ (s.viewCharacter c).Empty := by
  obtain ⟨i, hi, j, hj, ha⟩ := hin
  intro hempty
  have hcell := hempty i hi j hj
  rw [viewCharacter_eq hc.1, ← ha] at hcell
  simp only [setCharacter, Function.update_self] at hcell
  exact hc.2 hcell

/-- The screen follows the sheet exactly while it keeps up, or if it stays empty. -/
theorem Shows.emitAll_iff (h : s.Shows t behind) {outputs : List (Output BYTE)}
    (hplain : ∀ c, .symbol c ∈ outputs → Visible c) :
    ((∀ a ∈ s.viewed outputs, InWindow a) ∧
        (s.emitAll outputs).SameCells (outputs.foldl (Sheet.write lineWidth lineCount) t)) ↔
      Sheet.KeptUp lineWidth lineCount behind outputs t ∨
        (∀ c, .symbol c ∉ outputs) ∧ s.Empty := by
  induction outputs generalizing s t behind with
  | nil =>
    simp only [viewed, List.not_mem_nil, not_false_eq_true, false_imp_iff, implies_true, true_and,
      Sheet.KeptUp]
    exact h.sameCells_iff
  | cons output outputs ih =>
    have hrest (c : BYTE) (hc : .symbol c ∈ outputs) : Visible c :=
      hplain c (List.mem_cons_of_mem _ hc)
    cases output with
    | lineFeed =>
      have hnone : (∀ c : BYTE, Output.symbol c ∉ Output.lineFeed :: outputs) ↔
          ∀ c : BYTE, Output.symbol c ∉ outputs := by simp
      rw [hnone]
      exact ih h.moveToNextLine hrest
    | symbol c =>
      have hc := hplain c List.mem_cons_self
      have hsome : ¬ ∀ c' : BYTE, Output.symbol c' ∉ Output.symbol c :: outputs :=
        fun hall => hall c List.mem_cons_self
      by_cases hbehind : behind ≤ 1
      · obtain ⟨hin, hshows⟩ := h.viewCharacter hc.1 hbehind
        have hih := ih hshows hrest
        have hlit := not_empty_viewCharacter hc hin
        simp only [hlit, and_false, or_false] at hih
        simp only [viewed, Sheet.KeptUp, List.forall_mem_cons, hin, hbehind, hsome, true_and,
          false_and, or_false]
        exact hih
      · have hout := h.view_outside (by omega)
        simp only [viewed, Sheet.KeptUp, List.forall_mem_cons, hout, hbehind, hsome, false_and,
          or_false]

/-- What is on the screen when the cursor is at cell `x` of a line. -/
def sheet (s : Screen) (line x : ℕ) : Sheet BYTE where
  line := fun i j => if i < lineCount then (s.cell (cellAddr i j)).character else 0
  row := line
  col := x
  top := 0

theorem shows_sheet {line x : ℕ} (hline : line < lineCount) (hx : x < lineWidth)
    (hcursor : s.currentPoint = cellAddr line x) : s.Shows (s.sheet line x) 0 := by
  have hsheet (i j : ℕ) : (s.sheet line x).line i j =
      if i < lineCount then (s.cell (cellAddr i j)).character else 0 := rfl
  refine ⟨hx, ⟨Nat.zero_le _, hline.trans_eq (Nat.zero_add _).symm⟩, le_rfl,
    fun hne => absurd rfl hne, hcursor, fun i hi j _ => ?_, fun i hi j => ?_⟩
  · have htop : (s.sheet line x).top - 0 + i = i := Nat.zero_add i
    rw [hsheet, htop, if_pos hi]
  · have hi : 0 - 0 + lineCount ≤ i := hi
    rw [hsheet, if_neg (by omega)]

/-- All that a sequence of calls writes stays on the screen, and the screen shows the last 25
lines of the output, exactly if it keeps up: no character is written behind two line feeds made on
the last line, and none of these is the end. An empty screen on which nothing but line feeds is
written stays right as well. -/
theorem output_stays_iff {line x : ℕ} (hline : line < lineCount) (hx : x < lineWidth)
    (hcursor : s.currentPoint = cellAddr line x) {calls : List PrintCall}
    (hplain : ∀ call ∈ calls, call.Plain) :
    ((∀ a ∈ s.viewed (calls.flatMap PrintCall.outputs), InWindow a) ∧
        (s.printAll calls).SameCells ((calls.flatMap PrintCall.outputs).foldl
          (Sheet.write lineWidth lineCount) (s.sheet line x))) ↔
      Sheet.KeptUp lineWidth lineCount 0 (calls.flatMap PrintCall.outputs) (s.sheet line x) ∨
        (∀ c, .symbol c ∉ calls.flatMap PrintCall.outputs) ∧ s.Empty := by
  rw [printAll_eq]
  apply (shows_sheet hline hx hcursor).emitAll_iff
  intro c hc
  obtain ⟨call, hcall, hc⟩ := List.mem_flatMap.mp hc
  exact (hplain call hcall).outputs_visible c hc

/-- A blank screen with the cursor behind a prompt on the last line. -/
def bottom : Screen := ⟨cellAddr 24 4, fun _ => ⟨0, 0x07⟩⟩

/-- What the shell prints when Enter is pressed behind its prompt. -/
def emptyCommand : List PrintCall := [.puts [], .puts [], .printString [0x4E, 0x48, 0x57]]

/-- A command and the number 12 on the next line, from the last line on. -/
theorem output_stays_iff_bottom :
    let calls : List PrintCall := [.puts [0x6C, 0x73], .printInt 12 10]
    (∀ a ∈ bottom.viewed (calls.flatMap PrintCall.outputs), InWindow a) ∧
      (bottom.printAll calls).SameCells ((calls.flatMap PrintCall.outputs).foldl
        (Sheet.write lineWidth lineCount) (bottom.sheet 24 4)) := by
  intro calls
  have hplain : ∀ call ∈ calls, call.Plain := by
    simp [calls, PrintCall.Plain, backSpace]
  have houtputs : calls.flatMap PrintCall.outputs =
      [.symbol 0x6C, .symbol 0x73, .lineFeed, .symbol 0x31, .symbol 0x32] := rfl
  refine (output_stays_iff (by decide) (by decide) rfl hplain).mpr (.inl ?_)
  rw [houtputs]
  exact ⟨by decide, by decide, by decide, by decide, rfl⟩

/-- On the last line the next prompt starts below the screen. -/
theorem prompt_below_screen :
    bottom.currentPoint = cellAddr (24 : ℕ) (4 : ℕ) ∧ (∀ call ∈ emptyCommand, call.Plain) ∧
      ¬ ∀ a ∈ bottom.viewed (emptyCommand.flatMap PrintCall.outputs), InWindow a := by
  refine ⟨rfl, ?_, fun hall => ?_⟩
  · simp [emptyCommand, PrintCall.Plain, backSpace]
  · have hfirst : cellAddr 25 0 ∈ bottom.viewed (emptyCommand.flatMap PrintCall.outputs) := by
      decide +kernel
    obtain ⟨i, hi, j, hj, ha⟩ := hall _ hfirst
    rw [cellAddr_eq, cellAddr_eq] at ha
    rw [lineCount_eq] at hi
    rw [lineWidth_eq] at hj
    omega

end Screen
end SkhuOS
