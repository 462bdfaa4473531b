import SkhuOS.Common.String
import SkhuOS.Common.Type

/-! The screen of `common/Print.c`: text video memory and one cursor. -/
namespace SkhuOS
open Foundation

def oneLineSize : ℕ := 160
def videoMemoryAddr : ℕ := 0xB8000
def oneCharSize : ℕ := 2
def lineCount : ℕ := 25
def backSpace : BYTE := 0x08

/-- The number of cells in a line. -/
def lineWidth : ℕ := oneLineSize / oneCharSize

structure VideoCharacter where
  character : BYTE
  attributeByte : BYTE

/-- `currentPoint` and the cells by their addresses. -/
structure Screen where
  currentPoint : ℤ
  cell : ℤ → VideoCharacter

/-- The address of cell `x` of a line. -/
def cellAddr (line x : ℤ) : ℤ := videoMemoryAddr + line * oneLineSize + 2 * x

namespace Screen

variable (s : Screen)

def setCharacter (a : ℤ) (ch : BYTE) : Screen :=
  { s with cell := Function.update s.cell a { s.cell a with character := ch } }

def moveToNextLine : Screen :=
  let xIdx := (s.currentPoint - videoMemoryAddr).tmod oneLineSize
  { s with currentPoint := s.currentPoint + (oneLineSize - xIdx) }

def fillLastLineBlank : Screen :=
  { s with cell := fun a =>
      if (videoMemoryAddr + oneLineSize * (lineCount - 1) : ℕ) ≤ a ∧
          a < (videoMemoryAddr + oneLineSize * lineCount : ℕ) then
        { s.cell a with character := 0 }
      else s.cell a }

/-- The `memcpy` of all lines but the first one line up. It copies upwards, so what it reads is
not overwritten yet. -/
def copyLinesUp : Screen :=
  { s with cell := fun a =>
      if videoMemoryAddr ≤ a ∧ a < (videoMemoryAddr + oneLineSize * (lineCount - 1) : ℕ) then
        s.cell (a + oneLineSize)
      else s.cell a }

/-- The part of `viewCharacter` before its store: the cell it stores to, and the screen with
the cursor behind that cell, scrolled if the cursor has left the screen. -/
def advance : ℤ × Screen :=
  let videoMemory := s.currentPoint
  let s : Screen := { s with currentPoint := s.currentPoint + oneCharSize }
  if s.currentPoint ≥ (videoMemoryAddr + oneLineSize * lineCount : ℕ) then
    let s := s.copyLinesUp.fillLastLineBlank
    (videoMemory - oneLineSize, { s with currentPoint := s.currentPoint - oneLineSize })
  else (videoMemory, s)

def viewCharacter (ch : BYTE) : Screen :=
  if ch = backSpace then
    { s.setCharacter (s.currentPoint - oneCharSize) 0 with
      currentPoint := s.currentPoint - oneCharSize }
  else s.advance.2.setCharacter s.advance.1 ch

def viewCharacterXY (ch : BYTE) (line x : ℤ) : Screen :=
  if ch = backSpace then
    { s.setCharacter (cellAddr line x - oneCharSize) 0 with
      currentPoint := s.currentPoint - oneCharSize }
  else { s with cell := Function.update s.cell (cellAddr line x) ⟨ch, 0x0A⟩ }

def printString (s : Screen) : CString → Screen
  | [] => s
  | c :: cs =>
    if c = 0 then s
    else if c = 0x0A then printString s.moveToNextLine cs
    else printString (s.viewCharacter c) cs

def puts (str : CString) : Screen := (s.printString str).moveToNextLine

def cursorInit : Screen := { s with currentPoint := videoMemoryAddr }

def cursorLine (line : ℤ) : Screen :=
  { s with currentPoint := videoMemoryAddr + oneLineSize * line }

def clear : Screen :=
  { s with cell := fun a =>
      if videoMemoryAddr ≤ a ∧ a < (videoMemoryAddr + oneLineSize * lineCount : ℕ) then ⟨0, 0x07⟩
      else s.cell a }.cursorInit

end Screen

/-- The number systems that `"0123456789ABCDEF"` has digits for and in which `num /= radix` ends. -/
abbrev Radix := { radix : ℕ // 2 ≤ radix ∧ radix ≤ 16 }

instance : OfNat Radix 10 := ⟨⟨10, by decide⟩⟩

/-- `"0123456789ABCDEF"[digit]`. -/
def digitChar (digit : ℕ) : BYTE :=
  [0x30, 0x31, 0x32, 0x33, 0x34, 0x35, 0x36, 0x37, 0x38, 0x39, 0x41, 0x42, 0x43, 0x44, 0x45,
    0x46].getD digit 0x30

/-- The loop that fills `charNum`, lowest digit first; `charNum` has room for `fuel` digits. -/
def charDigits (radix : ℕ) : ℕ → ℕ → List BYTE
  | 0, _ => []
  | fuel + 1, num =>
    if num > 0 then digitChar (num % radix) :: charDigits radix fuel (num / radix) else []

/-- `swapChar(&arr[i], &arr[j])`. -/
def swapChar (arr : List BYTE) (i j : ℕ) : List BYTE :=
  (arr.set i (arr.getD j 0)).set j (arr.getD i 0)

def reverseArray (arr : List BYTE) (count : ℕ) : List BYTE :=
  (List.range (count / 2)).foldl (fun arr i => swapChar arr i (count - i - 1)) arr

namespace Screen

variable (s : Screen)

/-- The loop over `charNum` at the end of `printInt` and `printHex`. -/
def viewCharacters (s : Screen) (chars : List BYTE) : Screen :=
  chars.foldl (fun s ch => s.viewCharacter ch) s

def printInt (num : DWORD) (radix : Radix) : Screen :=
  if num = 0 then s.viewCharacter 0x30
  else
    let (s, num) := if num.toInt < 0 then (s.viewCharacter 0x2D, -num) else (s, num)
    let charNum := charDigits radix 32 num.toInt.toNat
    s.viewCharacters (reverseArray charNum charNum.length)

def printHex (num : QWORD) : Screen :=
  if num = 0 then s.viewCharacter 0x30
  else
    let charNum := charDigits 16 16 num.toNat
    s.viewCharacters (reverseArray charNum charNum.length)

end Screen
end SkhuOS
