import SkhuOS.Common.Scrolling

/-! The copy of the screen in `Print.c`, and when two screens look the same. -/
namespace SkhuOS
open Foundation

/-- The size of `vc`. -/
def cellCount : ℕ := oneLineSize * lineCount / oneCharSize

/-- The address of `videoMemory[i]`. -/
def videoCell (i : ℕ) : ℤ := videoMemoryAddr + oneCharSize * i

structure Monitor where
  vc : ℕ → VideoCharacter
  cp : ℤ

/-- One call of a routine that changes the screen. -/
inductive Shown where
  | print (call : PrintCall)
  | viewCharacter (ch : BYTE)
  | viewCharacterXY (ch : BYTE) (line x : ℤ)
  | clear
  | cursorLine (line : ℤ)

namespace Screen

variable (s : Screen)

def saveVideoMemory (monitor : Monitor) : Monitor :=
  (List.range cellCount).foldl (fun monitor i =>
    { monitor with vc := Function.update monitor.vc i (s.cell (videoCell i)) })
    { monitor with cp := s.currentPoint }

def loadVideoMemory (monitor : Monitor) : Screen :=
  { (List.range cellCount).foldl (fun s i =>
      { s with cell := Function.update s.cell (videoCell i) (monitor.vc i) }) s with
    currentPoint := monitor.cp }

def apply : Shown → Screen
  | .print call => s.print call
  | .viewCharacter ch => s.viewCharacter ch
  | .viewCharacterXY ch line x => s.viewCharacterXY ch line x
  | .clear => s.clear
  | .cursorLine line => s.cursorLine line

def applyAll (items : List Shown) : Screen := items.foldl apply s

variable {s} {t u : Screen}

theorem applyAll_append (items items' : List Shown) :
    s.applyAll (items ++ items') = (s.applyAll items).applyAll items' := List.foldl_append

/-- The screens have the same cursor and the same cells in the video memory; what was stored
beside it does not matter. -/
structure Same (s t : Screen) : Prop where
  cursor : s.currentPoint = t.currentPoint
  cells : ∀ i < cellCount, s.cell (videoCell i) = t.cell (videoCell i)

theorem videoCell_eq (i : ℕ) : videoCell i = 753664 + 2 * i := rfl

theorem cellCount_eq : cellCount = 2000 := rfl

theorem videoCell_inj {i j : ℕ} : videoCell i = videoCell j ↔ i = j := by
  rw [videoCell_eq, videoCell_eq]
  omega

theorem saveVideoMemory_vc (s : Screen) (monitor : Monitor) {i : ℕ} (hi : i < cellCount) :
    (s.saveVideoMemory monitor).vc i = s.cell (videoCell i) := by
  have hloop (n : ℕ) (m : Monitor) : ((List.range n).foldl (fun monitor i =>
      { monitor with vc := Function.update monitor.vc i (s.cell (videoCell i)) }) m).vc i =
        if i < n then s.cell (videoCell i) else m.vc i := by
    induction n with
    | zero => rfl
    | succ n ih =>
      rw [List.range_succ, List.foldl_append, List.foldl_cons, List.foldl_nil]
      simp only [Function.update_apply, ih]
      by_cases hin : i = n
      · rw [if_pos hin, if_pos (by omega), hin]
      · rw [if_neg hin]
        exact if_congr (by omega) rfl rfl
  rw [saveVideoMemory, hloop, if_pos hi]

theorem saveVideoMemory_cp (s : Screen) (monitor : Monitor) :
    (s.saveVideoMemory monitor).cp = s.currentPoint := by
  unfold saveVideoMemory
  induction cellCount with
  | zero => rfl
  | succ n ih =>
    rw [List.range_succ, List.foldl_append, List.foldl_cons, List.foldl_nil]
    exact ih

theorem loadVideoMemory_cell (s : Screen) (monitor : Monitor) {i : ℕ} (hi : i < cellCount) :
    (s.loadVideoMemory monitor).cell (videoCell i) = monitor.vc i := by
  have hloop (n : ℕ) : ((List.range n).foldl (fun (s : Screen) i =>
      { s with cell := Function.update s.cell (videoCell i) (monitor.vc i) }) s).cell
        (videoCell i) = if i < n then monitor.vc i else s.cell (videoCell i) := by
    induction n with
    | zero => rfl
    | succ n ih =>
      rw [List.range_succ, List.foldl_append, List.foldl_cons, List.foldl_nil]
      simp only [Function.update_apply, ih, videoCell_inj]
      by_cases hin : i = n
      · rw [if_pos hin, if_pos (by omega), hin]
      · rw [if_neg hin]
        exact if_congr (by omega) rfl rfl
  unfold loadVideoMemory
  dsimp only
  rw [hloop, if_pos hi]

theorem loadVideoMemory_currentPoint (s : Screen) (monitor : Monitor) :
    (s.loadVideoMemory monitor).currentPoint = monitor.cp := by
  unfold loadVideoMemory
  rfl

/-- What has been saved looks the same again, whatever was shown in between. -/
theorem loadVideoMemory_same (s t : Screen) (monitor : Monitor) :
    (t.loadVideoMemory (s.saveVideoMemory monitor)).Same s := by
  constructor
  · rw [loadVideoMemory_currentPoint, saveVideoMemory_cp]
  · intro i hi
    rw [loadVideoMemory_cell _ _ hi, saveVideoMemory_vc _ _ hi]

namespace Same

theorem refl (s : Screen) : s.Same s := ⟨rfl, fun _ _ => rfl⟩

theorem trans (h : s.Same t) (h' : t.Same u) : s.Same u :=
  ⟨h.cursor.trans h'.cursor, fun i hi => (h.cells i hi).trans (h'.cells i hi)⟩

variable (h : s.Same t)
include h

theorem moveTo (a : ℤ) : Same { s with currentPoint := a } { t with currentPoint := a } :=
  ⟨rfl, h.cells⟩

theorem setCharacter (a : ℤ) (ch : BYTE) : (s.setCharacter a ch).Same (t.setCharacter a ch) := by
  refine ⟨h.cursor, fun i hi => ?_⟩
  simp only [Screen.setCharacter, Function.update_apply]
  split
  next ha => rw [← ha, h.cells i hi]
  next => exact h.cells i hi

theorem moveToNextLine : s.moveToNextLine.Same t.moveToNextLine := by
  unfold Screen.moveToNextLine
  rw [h.cursor]
  exact h.moveTo _

theorem cursorLine (line : ℤ) : (s.cursorLine line).Same (t.cursorLine line) := h.moveTo _

theorem clear : s.clear.Same t.clear := by
  refine ⟨rfl, fun i hi => ?_⟩
  simp only [Screen.clear, cursorInit]
  split
  · rfl
  · exact h.cells i hi

theorem copyLinesUp : s.copyLinesUp.Same t.copyLinesUp := by
  refine ⟨h.cursor, fun i hi => ?_⟩
  simp only [Screen.copyLinesUp]
  split
  next hin =>
    have hnext : videoCell i + (oneLineSize : ℤ) = videoCell (i + 80) := by
      rw [videoCell_eq, videoCell_eq]
      simp only [oneLineSize]
      omega
    rw [hnext]
    apply h.cells
    rw [videoCell_eq] at hin
    simp only [videoMemoryAddr, oneLineSize, lineCount] at hin
    rw [cellCount_eq]
    omega
  next => exact h.cells i hi

theorem fillLastLineBlank : s.fillLastLineBlank.Same t.fillLastLineBlank := by
  refine ⟨h.cursor, fun i hi => ?_⟩
  simp only [Screen.fillLastLineBlank, h.cells i hi]

theorem advance : s.advance.1 = t.advance.1 ∧ s.advance.2.Same t.advance.2 := by
  have hmoved := h.moveTo (t.currentPoint + oneCharSize)
  unfold Screen.advance
  dsimp only
  rw [h.cursor]
  split
  · exact ⟨rfl, hmoved.copyLinesUp.fillLastLineBlank.moveTo _⟩
  · exact ⟨rfl, hmoved⟩

theorem viewCharacter (ch : BYTE) : (s.viewCharacter ch).Same (t.viewCharacter ch) := by
  unfold Screen.viewCharacter
  rw [h.cursor]
  split
  · exact (h.setCharacter _ 0).moveTo _
  · rw [h.advance.1]
    exact h.advance.2.setCharacter _ ch

theorem viewCharacterXY (ch : BYTE) (line x : ℤ) :
    (s.viewCharacterXY ch line x).Same (t.viewCharacterXY ch line x) := by
  unfold Screen.viewCharacterXY
  rw [h.cursor]
  split
  · exact (h.setCharacter _ 0).moveTo _
  · refine ⟨rfl, fun i hi => ?_⟩
    simp only [Function.update_apply, h.cells i hi]

theorem emitAll (outputs : List (Output BYTE)) : (s.emitAll outputs).Same (t.emitAll outputs) := by
  induction outputs generalizing s t with
  | nil => exact h
  | cons output outputs ih =>
    cases output with
    | symbol ch => exact ih (h.viewCharacter ch)
    | lineFeed => exact ih h.moveToNextLine

theorem apply (item : Shown) : (s.apply item).Same (t.apply item) := by
  cases item with
  | print call =>
    rw [Screen.apply, Screen.apply, print_eq, print_eq]
    exact h.emitAll _
  | viewCharacter ch => exact h.viewCharacter ch
  | viewCharacterXY ch line x => exact h.viewCharacterXY ch line x
  | clear => exact h.clear
  | cursorLine line => exact h.cursorLine line

/-- Screens that look the same still do after the same calls. -/
theorem applyAll (items : List Shown) : (s.applyAll items).Same (t.applyAll items) := by
  induction items generalizing s t with
  | nil => exact h
  | cons item items ih => exact ih (h.apply item)

end Same
end Screen
end SkhuOS
