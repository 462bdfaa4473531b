import Mathlib.Logic.Function.Basic
import Mathlib.Data.Nat.Notation

/-! An endless sheet of lines that is written from left to right and from top to bottom, and
the window that a scrolling terminal of fixed height shows of it. -/
namespace SkhuOS.Foundation

/-- What is on every line, where the next symbol goes, and the first line of the window. -/
structure Sheet (A : Type*) where
  line : ℕ → ℕ → A
  row : ℕ
  col : ℕ
  top : ℕ

/-- What a writer asks for. -/
inductive Output (A : Type*) where
  | symbol (a : A)
  | lineFeed

namespace Sheet

variable {A : Type*} (width height : ℕ) (s : Sheet A)

/-- The window moves just as far as the new line asks for. -/
def feed : Sheet A where
  line := s.line
  row := s.row + 1
  col := 0
  top := max s.top (s.row + 2 - height)

/-- A line that is full ends with a line feed of its own. -/
def put (a : A) : Sheet A :=
  let written : Sheet A :=
    { s with line := Function.update s.line s.row (Function.update (s.line s.row) s.col a) }
  if s.col + 1 = width then written.feed height else { written with col := s.col + 1 }

def write : Output A → Sheet A
  | .symbol a => s.put width height a
  | .lineFeed => s.feed height

/-- Symbol `j` on line `i` of the window. -/
def window (i j : ℕ) : A := s.line (s.top + i) j

/-- A display that moves its window one line for a symbol and never for a line feed keeps up:
no symbol finds it more than one line behind, and it is not behind in the end. -/
def KeptUp : ℕ → List (Output A) → Sheet A → Prop
  | behind, [], _ => behind = 0
  | behind, .symbol a :: rest, s => behind ≤ 1 ∧ KeptUp 0 rest (s.put width height a)
  | behind, .lineFeed :: rest, s =>
    KeptUp (if s.row + 1 = s.top + height then behind + 1 else behind) rest (s.feed height)

variable {width height s}

theorem put_line (width height : ℕ) (s : Sheet A) (a : A) (i j : ℕ) :
    (s.put width height a).line i j = if i = s.row ∧ j = s.col then a else s.line i j := by
  have hline : (s.put width height a).line =
      Function.update s.line s.row (Function.update (s.line s.row) s.col a) := by
    unfold put
    split <;> rfl
  rw [hline, Function.update_apply]
  by_cases hi : i = s.row
  · simp [hi, Function.update_apply]
  · simp [hi]

/-- Where the next symbol goes, and how far the window moves for it. -/
theorem put_cursor (width height : ℕ) (s : Sheet A) (a : A) :
    s.col + 1 = width ∧ (s.put width height a).row = s.row + 1 ∧
        (s.put width height a).col = 0 ∧
        (s.put width height a).top = max s.top (s.row + 2 - height) ∨
      s.col + 1 ≠ width ∧ (s.put width height a).row = s.row ∧
        (s.put width height a).col = s.col + 1 ∧ (s.put width height a).top = s.top := by
  unfold put
  by_cases hfull : s.col + 1 = width
  · rw [if_pos hfull]
    exact .inl ⟨hfull, rfl, rfl, rfl⟩
  · rw [if_neg hfull]
    exact .inr ⟨hfull, rfl, rfl, rfl⟩

end Sheet
end SkhuOS.Foundation
