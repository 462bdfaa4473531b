import SkhuOS.Common.Print
import SkhuOS.Drivers.Keyboard
import SkhuOS.FS.Reopen
import SkhuOS.Foundation.Text
import Mathlib.Data.List.Induction

/-! The text editor of `kernel/shell/editor.c`: its buffer of 4096 bytes, the command line of 80
bytes, and the indices of all accesses to both. -/
namespace SkhuOS
open Foundation

/-- The sizes of `buffer` and `stateBuffer`. -/
def editorSize : ℕ := 4096
def stateSize : ℕ := 80
def maxLength : ℕ := 24 * 80

/-- Which of the loops of `runEditor` waits for a key, with the variables of the inner one, or
whether it has returned, after a `writeFile` or without. -/
inductive Mode where
  | text
  | command (stateIdx : ℕ) (stateBuffer : Bytes)
  | closed (saved : Bool)

/-- `runEditor` between two keys, with all its accesses to `buffer` and `stateBuffer`. -/
structure Editor where
  mode : Mode
  strIdx : ℕ
  buffer : Bytes
  screen : Screen
  fs : FileSystem
  accesses : List ℕ
  stateAccesses : List ℕ

namespace Editor

/-- `strlen(buffer)`, which looks at all bytes up to the NUL. -/
def textLength (buffer : Bytes) : ℕ := strlen (stringAt buffer 0 editorSize)

/-- `runEditor` from its call of `clear` on. -/
def start (fs : FileSystem) (buffer : Bytes) (screen : Screen) : Editor :=
  let strIdx := textLength buffer
  let shown := List.range (min maxLength strIdx)
  { mode := .text
    strIdx := strIdx
    buffer := buffer
    screen := shown.foldl (fun screen i => screen.viewCharacter (buffer i)) screen.clear
    fs := fs
    accesses := List.range clusterSize ++ List.range (strIdx + 1) ++ shown
    stateAccesses := [] }

@[simp] theorem start_buffer (fs : FileSystem) (buffer : Bytes) (screen : Screen) :
    (start fs buffer screen).buffer = buffer := rfl

variable (e : Editor)

def store (i : ℕ) (ch : BYTE) : Editor :=
  { e with buffer := Function.update e.buffer i ch, accesses := e.accesses ++ [i] }

def accessState (is : List ℕ) : Editor := { e with stateAccesses := e.stateAccesses ++ is }

/-- The loop that fills up a line; the first argument is the number of its rounds. -/
def padSpaces : ℕ → Editor → Editor
  | 0, e => e
  | n + 1, e => padSpaces n { e.store e.strIdx 0x20 with strIdx := e.strIdx + 1 }

/-- A key of the outer loop. -/
def textKey (data : BYTE) : Editor :=
  if data = keyEnter then
    let strIdxNew := e.strIdx - e.strIdx % 80 + 80
    if strIdxNew > editorSize - 1 then e
    else
      let e := padSpaces (strIdxNew - e.strIdx) e
      let e := e.store e.strIdx 0
      { e with screen := e.screen.moveToNextLine }
  else if data = keyBackspace then
    if e.strIdx = 0 then e
    else
      let e := { e with strIdx := e.strIdx - 1 }.store (e.strIdx - 1) 0
      { e with screen := e.screen.viewCharacter data }
  else if data = keyEsc then
    { e with mode := .command 0 fun _ => 0 }.accessState (List.range stateSize)
  else if data ≠ 0 then
    if e.strIdx ≥ editorSize - 1 then e
    else
      let e := { e with strIdx := e.strIdx + 1 }.store e.strIdx data |>.store (e.strIdx + 1) 0
      { e with screen := e.screen.viewCharacter data }
  else { e with screen := e.screen.viewCharacter data }

/-- A key of the inner loop. Leaving it with Escape, `runEditor` goes on behind the branch that
it is in, and shows the key. -/
def commandKey (name : CString) (stateIdx : ℕ) (stateBuffer : Bytes) (data : BYTE) : Editor :=
  if data = keyEsc then
    let screen := (List.range 80).foldl (fun screen i => screen.viewCharacterXY 0 24 i) e.screen
    { e with mode := .text, screen := screen.viewCharacter data }
  else if data = keyEnter then
    let e := e.accessState [0]
    if stateBuffer 0 = ascii 'w' then
      let size := textLength e.buffer
      { e with
        mode := .closed true
        fs := (e.fs.writeFile name e.buffer size).2
        accesses := e.accesses ++ List.range (size + 1) ++ List.range clusterSize }
    else
      let e := e.accessState [0]
      if stateBuffer 0 = ascii 'q' then { e with mode := .closed false } else e
  else if data = keyBackspace then
    if stateIdx = 0 then e
    else
      { e with
        mode := .command (stateIdx - 1) (Function.update stateBuffer (stateIdx - 1) 0)
        screen := e.screen.viewCharacterXY 0 24 (stateIdx - 1 : ℕ) }.accessState [stateIdx - 1]
  else if data ≠ 0 ∧ stateIdx < stateSize - 1 then
    { e with
      mode := .command (stateIdx + 1)
        (Function.update (Function.update stateBuffer stateIdx data) (stateIdx + 1) 0)
      screen := e.screen.viewCharacterXY data 24 stateIdx }.accessState [stateIdx, stateIdx + 1]
  else e

/-- A key that `getKey` returns. -/
def key (name : CString) (data : BYTE) : Editor :=
  match e.mode with
  | .text => e.textKey data
  | .command stateIdx stateBuffer => e.commandKey name stateIdx stateBuffer data
  | .closed _ => e

def keys (name : CString) (ks : List BYTE) : Editor :=
  ks.foldl (fun e data => e.key name data) e

end Editor

/-- `runEditor` up to its first `getKey`, unless it returns at once. -/
def runEditor (fs : FileSystem) (name : CString) (buffer : Bytes) (screen : Screen) :
    Option Editor :=
  match fs.readFile name buffer with
  | (.error _, _) => none
  | (.ok (size, buffer), fs) => if size = -1 then none else some (.start fs buffer screen)

/-- What is edited: the text, and the command line while one is typed. -/
inductive Session where
  | editing (text : List BYTE)
  | commanding (text line : List BYTE)
  | ended (text : List BYTE) (saved : Bool)
  deriving DecidableEq

namespace Session

def text : Session → List BYTE
  | editing text => text
  | commanding text _ => text
  | ended text _ => text

/-- A key applied to a text. -/
def edit (text : List BYTE) (data : BYTE) : List BYTE :=
  if data = keyEnter then
    let padded := (text.length / 80 + 1) * 80
    if padded ≤ 4095 then text ++ List.replicate (padded - text.length) 0x20 else text
  else if data = keyBackspace then text.dropLast
  else if data = keyEsc ∨ data = 0 then text
  else if text.length < 4095 then text ++ [data]
  else text

/-- A key applied to a command line. -/
def command (line : List BYTE) (data : BYTE) : List BYTE :=
  if data = keyBackspace then line.dropLast
  else if data ≠ 0 ∧ line.length < 79 then line ++ [data]
  else line

def key : Session → BYTE → Session
  | editing text, data =>
    if data = keyEsc then commanding text [] else editing (edit text data)
  | commanding text line, data =>
    if data = keyEsc then editing text
    else if data = keyEnter then
      if line.head? = some (ascii 'w') then ended text true
      else if line.head? = some (ascii 'q') then ended text false
      else commanding text line
    else commanding text (command line data)
  | ended text saved, _ => ended text saved

def keys (s : Session) (ks : List BYTE) : Session := ks.foldl key s

theorem key_editing_text (text : List BYTE) (data : BYTE) :
    ((editing text).key data).text = edit text data := by
  unfold key
  dsimp only
  split
  next hesc =>
    rw [hesc]
    rfl
  next => rfl

/-- The keys of the command mode change nothing. -/
theorem key_commanding_text (text line : List BYTE) (data : BYTE) :
    ((commanding text line).key data).text = text := by
  unfold key
  dsimp only
  split_ifs <;> rfl

end Session

/-- The loop that waits is the one the session is in. -/
def Mode.Follows : Mode → Session → Prop
  | .text, .editing _ => True
  | .command stateIdx stateBuffer, .commanding _ line =>
    stateIdx = line.length ∧ line.length < stateSize ∧ Holds 0 stateBuffer line
  | .closed saved, .ended _ saved' => saved = saved'
  | _, _ => False

theorem Mode.Follows.ended {mode : Mode} {text : List BYTE} {saved : Bool}
    (h : mode.Follows (.ended text saved)) : mode = .closed saved := by
  cases mode with
  | closed saved' => exact congrArg Mode.closed h
  | _ => exact h.elim

namespace Editor

variable {e : Editor} {s : Session} {name : CString} {text line : List BYTE} {data : BYTE}

/-- The buffer holds the text, and all accesses have been inside the arrays. -/
structure Keeps (e : Editor) (text : List BYTE) : Prop where
  index : e.strIdx = text.length
  bound : e.strIdx ≤ 4095
  buffer : Holds 0 e.buffer text
  accesses : ∀ i ∈ e.accesses, i < editorSize
  stateAccesses : ∀ i ∈ e.stateAccesses, i < stateSize

theorem store_buffer (e : Editor) (i : ℕ) (ch : BYTE) :
    (e.store i ch).buffer = Function.update e.buffer i ch := rfl

theorem padSpaces_spec (n : ℕ) (e : Editor) :
    (padSpaces n e).mode = e.mode ∧ (padSpaces n e).strIdx = e.strIdx + n ∧
      (padSpaces n e).screen = e.screen ∧ (padSpaces n e).fs = e.fs ∧
      (padSpaces n e).stateAccesses = e.stateAccesses ∧
      (∀ i, (padSpaces n e).buffer i =
        if e.strIdx ≤ i ∧ i < e.strIdx + n then 0x20 else e.buffer i) ∧
      ∀ i ∈ (padSpaces n e).accesses, i ∈ e.accesses ∨ i < e.strIdx + n := by
  induction n generalizing e with
  | zero =>
    refine ⟨rfl, rfl, rfl, rfl, rfl, fun i => ?_, fun i hi => .inl hi⟩
    rw [if_neg (by omega)]
    rfl
  | succ n ih =>
    obtain ⟨hmode, hidx, hscreen, hfs, hstate, hbuffer, haccesses⟩ :=
      ih { e.store e.strIdx 0x20 with strIdx := e.strIdx + 1 }
    unfold padSpaces
    refine ⟨hmode, hidx.trans (by dsimp only; omega), hscreen, hfs, hstate, fun i => ?_,
      fun i hi => ?_⟩
    · rw [hbuffer]
      simp only [store, Function.update_apply]
      by_cases hi : i = e.strIdx
      · rw [if_neg (by omega), if_pos hi, if_pos (by omega)]
      · rw [if_neg hi]
        exact if_congr (by omega) rfl rfl
    · rcases haccesses i hi with hold | hnew
      · rcases List.mem_append.mp hold with hold | hlast
        · exact .inl hold
        · have := List.mem_singleton.mp hlast
          exact .inr (by omega)
      · exact .inr (by dsimp only at hnew; omega)

theorem textKey_mode (e : Editor) (data : BYTE) : (e.textKey data).mode =
    if data = keyEsc then .command 0 fun _ => 0 else e.mode := by
  unfold textKey
  by_cases henter : data = keyEnter
  · have hesc : data ≠ keyEsc := henter ▸ (by decide)
    rw [if_pos henter, if_neg hesc]
    dsimp only
    split
    · rfl
    · exact (padSpaces_spec _ e).1
  by_cases hback : data = keyBackspace
  · have hesc : data ≠ keyEsc := hback ▸ (by decide)
    rw [if_neg henter, if_pos hback, if_neg hesc]
    split <;> rfl
  rw [if_neg henter, if_neg hback]
  split
  · rfl
  · split
    · split <;> rfl
    · rfl

/-- One more access. -/
theorem accesses_lt {i : ℕ} {is : List ℕ} (his : ∀ j ∈ is, j < editorSize) (hi : i < editorSize) :
    ∀ j ∈ is ++ [i], j < editorSize := by
  intro j hj
  rcases List.mem_append.mp hj with hj | hj
  · exact his j hj
  · exact List.mem_singleton.mp hj ▸ hi

namespace Keeps

variable (h : e.Keeps text)
include h

/-- A line filled up with spaces. -/
theorem pad {n : ℕ} (hn : text.length + n ≤ 4095) :
    ((padSpaces n e).store (padSpaces n e).strIdx 0).Keeps (text ++ List.replicate n 0x20) := by
  obtain ⟨-, hlast, -, -, hstate, hbuffer, haccesses⟩ := padSpaces_spec n e
  rw [h.index] at hlast hbuffer haccesses
  rw [hlast]
  have hsize : editorSize = 4096 := rfl
  constructor
  · rw [List.length_append, List.length_replicate]
    exact hlast
  · exact hlast.trans_le hn
  · apply h.buffer.extend
    · intro hmem
      exact absurd (List.eq_of_mem_replicate hmem) (by decide)
    · intro i hi
      rw [store_buffer, Function.update_of_ne (by omega), hbuffer, if_neg (by omega)]
    · intro i hi
      rw [List.length_replicate] at hi
      rw [store_buffer, Function.update_of_ne (by omega), hbuffer, if_pos (by omega),
        List.getElem_replicate]
    · rw [List.length_replicate]
      exact Function.update_self _ _ _
  · refine accesses_lt (fun i hi => ?_) (by omega)
    rcases haccesses i hi with hold | hnew
    · exact h.accesses i hold
    · omega
  · intro i hi
    exact h.stateAccesses i (hstate ▸ hi)

theorem dropLast (hne : text ≠ []) :
    ({ e with strIdx := e.strIdx - 1 }.store (e.strIdx - 1) 0).Keeps text.dropLast := by
  have hbound := h.bound
  constructor
  · rw [List.length_dropLast, ← h.index]
    rfl
  · exact (Nat.sub_le _ _).trans hbound
  · rw [h.index]
    exact h.buffer.dropLast hne
  · refine accesses_lt h.accesses ?_
    rw [editorSize]
    omega
  · exact h.stateAccesses

theorem append (hnul : data ≠ 0) (hfits : text.length < 4095) :
    (({ e with strIdx := e.strIdx + 1 }.store e.strIdx data).store (e.strIdx + 1) 0).Keeps
      (text ++ [data]) := by
  have hsize : editorSize = 4096 := rfl
  have hidx := h.index
  constructor
  · rw [List.length_append, ← hidx]
    rfl
  · show e.strIdx + 1 ≤ 4095
    omega
  · show Holds 0 (Function.update (Function.update e.buffer e.strIdx data) (e.strIdx + 1) 0) _
    rw [hidx]
    exact h.buffer.append hnul
  · exact accesses_lt (accesses_lt h.accesses (by omega)) (by omega)
  · exact h.stateAccesses

/-- What a key of the outer loop does to the buffer. -/
theorem textKey (data : BYTE) : (e.textKey data).Keeps (Session.edit text data) := by
  have hidx := h.index
  have hsize : editorSize - 1 = 4095 := rfl
  unfold Editor.textKey Session.edit
  by_cases henter : data = keyEnter
  · simp only [if_pos henter, hsize]
    have hround : e.strIdx - e.strIdx % 80 + 80 = (text.length / 80 + 1) * 80 := by omega
    rw [hround]
    by_cases hfits : (text.length / 80 + 1) * 80 ≤ 4095
    · rw [if_neg (by omega), if_pos hfits, hidx]
      have hpad := h.pad (n := (text.length / 80 + 1) * 80 - text.length) (by omega)
      exact ⟨hpad.index, hpad.bound, hpad.buffer, hpad.accesses, hpad.stateAccesses⟩
    · rw [if_pos (by omega), if_neg hfits]
      exact h
  simp only [if_neg henter]
  by_cases hback : data = keyBackspace
  · simp only [if_pos hback]
    by_cases hzero : e.strIdx = 0
    · obtain rfl : text = [] := List.eq_nil_of_length_eq_zero (hidx.symm.trans hzero)
      rw [if_pos hzero]
      exact h
    · have hne : text ≠ [] := by
        rintro rfl
        exact hzero hidx
      rw [if_neg hzero]
      have hdrop := h.dropLast hne
      exact ⟨hdrop.index, hdrop.bound, hdrop.buffer, hdrop.accesses, hdrop.stateAccesses⟩
  simp only [if_neg hback]
  by_cases hesc : data = keyEsc
  · rw [if_pos hesc, if_pos (.inl hesc)]
    refine ⟨hidx, h.bound, h.buffer, h.accesses, fun i hi => ?_⟩
    rcases List.mem_append.mp hi with hi | hi
    · exact h.stateAccesses i hi
    · exact List.mem_range.mp hi
  by_cases hnul : data = 0
  · rw [if_neg hesc, if_neg (not_not.mpr hnul), if_pos (.inr hnul)]
    exact ⟨hidx, h.bound, h.buffer, h.accesses, h.stateAccesses⟩
  rw [if_neg hesc, if_pos hnul, if_neg (not_or_intro hesc hnul), hsize]
  by_cases hfits : text.length < 4095
  · rw [if_neg (by omega), if_pos hfits]
    have happend := h.append hnul hfits
    exact ⟨happend.index, happend.bound, happend.buffer, happend.accesses, happend.stateAccesses⟩
  · rw [if_pos (by omega), if_neg hfits]
    exact h

/-- The command mode leaves the text alone. -/
theorem accessState {is : List ℕ} (his : ∀ i ∈ is, i < stateSize) :
    (e.accessState is).Keeps text := by
  refine ⟨h.index, h.bound, h.buffer, h.accesses, fun i hi => ?_⟩
  rcases List.mem_append.mp hi with hi | hi
  · exact h.stateAccesses i hi
  · exact his i hi

theorem textLength_eq : textLength e.buffer = text.length := by
  have hlen : text.length < editorSize := by
    rw [← h.index, editorSize]
    exact Nat.lt_succ_of_le h.bound
  rw [textLength, stringAt_eq h.buffer hlen, strlen_eq_length h.buffer.proper]

end Keeps

/-- The session the editor is in: it has its text, and the loop and the variables it needs. -/
structure Exact (e : Editor) (s : Session) : Prop where
  mode : e.mode.Follows s
  keeps : e.Keeps s.text

/-- A command is the first character of the line. -/
theorem command_iff {stateBuffer : Bytes} (h : Holds 0 stateBuffer line) {ch : BYTE}
    (hch : ch ≠ 0) : stateBuffer 0 = ch ↔ line.head? = some ch := by
  rw [h.reads 0 (Nat.zero_le _)]
  cases line with
  | nil => exact ⟨fun heq => absurd heq.symm hch, (nomatch ·)⟩
  | cons c cs => exact Option.some_inj.symm

/-- What a key of the inner loop does to the command line. -/
theorem Keeps.commandKey {stateIdx : ℕ} {stateBuffer : Bytes} (h : e.Keeps text)
    (hmode : e.mode = .command stateIdx stateBuffer)
    (hline : (Mode.command stateIdx stateBuffer).Follows (.commanding text line)) (data : BYTE) :
    (e.commandKey name stateIdx stateBuffer data).Exact
      ((Session.commanding text line).key data) := by
  obtain ⟨rfl, hroom, hholds⟩ := hline
  have hstate : stateSize - 1 = 79 := rfl
  have hfirst : ∀ i ∈ [0], i < stateSize := by decide
  unfold Editor.commandKey Session.key Session.command
  by_cases hesc : data = keyEsc
  · simp only [if_pos hesc]
    exact ⟨trivial, h.index, h.bound, h.buffer, h.accesses, h.stateAccesses⟩
  simp only [if_neg hesc]
  by_cases henter : data = keyEnter
  · simp only [if_pos henter, command_iff hholds (show ascii 'w' ≠ 0 by decide),
      command_iff hholds (show ascii 'q' ≠ 0 by decide)]
    have hread := h.accessState hfirst
    by_cases hw : line.head? = some (ascii 'w')
    · rw [if_pos hw, if_pos hw]
      refine ⟨rfl, h.index, h.bound, h.buffer, fun i hi => ?_, hread.stateAccesses⟩
      have hi : i ∈ e.accesses ++ List.range (textLength e.buffer + 1) ++
        List.range clusterSize := hi
      rw [h.textLength_eq, ← h.index] at hi
      have hbound := h.bound
      have hcluster : clusterSize = editorSize := rfl
      have hsize : editorSize = 4096 := rfl
      rcases List.mem_append.mp hi with hi | hi
      · rcases List.mem_append.mp hi with hi | hi
        · exact h.accesses i hi
        · have := List.mem_range.mp hi
          omega
      · exact List.mem_range.mp hi
    rw [if_neg hw, if_neg hw]
    have hagain := hread.accessState hfirst
    by_cases hq : line.head? = some (ascii 'q')
    · rw [if_pos hq, if_pos hq]
      exact ⟨rfl, hagain.index, hagain.bound, hagain.buffer, hagain.accesses,
        hagain.stateAccesses⟩
    · rw [if_neg hq, if_neg hq]
      refine ⟨?_, hagain⟩
      show e.mode.Follows _
      rw [hmode]
      exact ⟨rfl, hroom, hholds⟩
  simp only [if_neg henter]
  by_cases hback : data = keyBackspace
  · simp only [if_pos hback]
    by_cases hzero : line.length = 0
    · obtain rfl : line = [] := List.eq_nil_of_length_eq_zero hzero
      rw [if_pos hzero]
      refine ⟨?_, h⟩
      rw [hmode]
      exact ⟨rfl, hroom, hholds⟩
    · have hne : line ≠ [] := fun heq => hzero (congrArg List.length heq)
      rw [if_neg hzero]
      have hread : (e.accessState [line.length - 1]).Keeps text := h.accessState fun i hi => by
        rw [List.mem_singleton.mp hi]
        omega
      refine ⟨⟨List.length_dropLast.symm, ?_, hholds.dropLast hne⟩, hread.index, hread.bound,
        hread.buffer, hread.accesses, hread.stateAccesses⟩
      rw [List.length_dropLast]
      omega
  rw [if_neg hback, hstate]
  simp only [if_neg hback]
  by_cases hfits : data ≠ 0 ∧ line.length < 79
  · rw [if_pos hfits, if_pos hfits]
    have hread : (e.accessState [line.length, line.length + 1]).Keeps text := by
      refine h.accessState fun i hi => ?_
      have hi : i = line.length ∨ i = line.length + 1 := by simpa using hi
      rw [stateSize]
      omega
    refine ⟨⟨?_, ?_, hholds.append hfits.1⟩, hread.index, hread.bound, hread.buffer,
      hread.accesses, hread.stateAccesses⟩
    · rw [List.length_append]
      rfl
    · rw [List.length_append, stateSize]
      exact Nat.succ_lt_succ hfits.2
  · rw [if_neg hfits, if_neg hfits]
    refine ⟨?_, h⟩
    rw [hmode]
    exact ⟨rfl, hroom, hholds⟩

/-- The editor follows the session key by key. -/
theorem Exact.key (name : CString) (h : e.Exact s) (data : BYTE) : (e.key name data).Exact (s.key data) := by
  obtain ⟨hmode, hkeeps⟩ := h
  unfold Editor.key
  cases hloop : e.mode with
  | text =>
    rw [hloop] at hmode
    cases s with
    | editing text =>
      have hnextMode := textKey_mode e data
      rw [hloop] at hnextMode
      refine ⟨?_, (Session.key_editing_text text data) ▸ hkeeps.textKey data⟩
      unfold Session.key
      dsimp only
      rw [hnextMode]
      split
      · exact ⟨rfl, by decide, .nil rfl⟩
      · trivial
    | _ => exact hmode.elim
  | command stateIdx stateBuffer =>
    rw [hloop] at hmode
    cases s with
    | commanding text line => exact hkeeps.commandKey hloop hmode data
    | _ => exact hmode.elim
  | closed saved =>
    have hended := hloop ▸ hmode
    cases s with
    | ended text saved' => exact ⟨hmode, hkeeps⟩
    | _ => exact hended.elim

theorem Exact.keys (name : CString) (h : e.Exact s) (ks : List BYTE) : (e.keys name ks).Exact (s.keys ks) := by
  induction ks generalizing e s with
  | nil => exact h
  | cons data ks ih => exact ih (h.key name data)

/-- What is on the disk behind the keys, if `before` was there when the editor was started. -/
def stored (before : FileSystem) (name : CString) (e : Editor) : FileSystem :=
  match e.mode with
  | .closed true => (before.writeFile name e.buffer e.strIdx).2
  | _ => before

theorem textKey_fs (e : Editor) (data : BYTE) : (e.textKey data).fs = e.fs := by
  unfold textKey
  dsimp only
  split
  · split
    · rfl
    · exact (padSpaces_spec _ e).2.2.2.1
  · split
    · split <;> rfl
    · split
      · rfl
      · split
        · split <;> rfl
        · rfl

/-- Only the command that saves writes. -/
theorem Exact.key_stored {before : FileSystem} (h : e.Exact s) (hfs : e.fs = stored before name e)
    (data : BYTE) : (e.key name data).fs = stored before name (e.key name data) := by
  have hlen := h.keeps.textLength_eq.trans h.keeps.index.symm
  unfold Editor.key
  cases hloop : e.mode with
  | text =>
    have hnextMode := textKey_mode e data
    rw [hloop] at hnextMode
    have hbefore : e.fs = before := by rw [hfs, stored, hloop]
    have hstored : stored before name (e.textKey data) = before := by
      rw [stored, hnextMode]
      split_ifs <;> rfl
    rw [hstored]
    exact (textKey_fs e data).trans hbefore
  | command stateIdx stateBuffer =>
    have hbefore : e.fs = before := by rw [hfs, stored, hloop]
    dsimp only
    unfold commandKey
    dsimp only
    split
    · exact hbefore
    · split
      · split
        · show (e.fs.writeFile name e.buffer (textLength e.buffer)).2 =
            (before.writeFile name e.buffer e.strIdx).2
          rw [hbefore, hlen]
        · split
          · exact hbefore
          · exact hfs
      · split
        · split
          · exact hfs
          · exact hbefore
        · split
          · exact hbefore
          · exact hfs
  | closed saved => exact hfs

theorem Exact.keys_stored {before : FileSystem} (h : e.Exact s)
    (hfs : e.fs = stored before name e) (ks : List BYTE) :
    (e.keys name ks).fs = stored before name (e.keys name ks) := by
  induction ks generalizing e s with
  | nil => exact hfs
  | cons data ks ih => exact ih (h.key name data) (h.key_stored hfs data)

/-- Any buffer with a NUL in it starts an editor that holds the text before the NUL. -/
theorem start_exact (fs : FileSystem) {buffer : Bytes} (screen : Screen)
    (hnul : ∃ n < editorSize, buffer n = 0) :
    (start fs buffer screen).Exact (.editing (stringAt buffer 0 editorSize)) := by
  obtain ⟨n, hn, hzero⟩ := hnul
  have hzero : buffer (0 + n) = 0 := by rwa [Nat.zero_add]
  have hholds : Holds 0 buffer (stringAt buffer 0 editorSize) :=
    (stringAt_holds hn hzero).congr fun i _ => congrArg buffer (Nat.zero_add i).symm
  have hlen : (stringAt buffer 0 editorSize).length ≤ n := by
    by_contra hlt
    exact hholds.ne_nul (Nat.lt_of_not_le hlt) (by rwa [Nat.zero_add] at hzero)
  have hidx : textLength buffer = (stringAt buffer 0 editorSize).length :=
    strlen_eq_length hholds.proper
  have hsize : editorSize = 4096 := rfl
  have hcluster : clusterSize = 4096 := rfl
  refine ⟨trivial, hidx, ?_, hholds, fun i hi => ?_, fun i hi => absurd hi List.not_mem_nil⟩
  · show textLength buffer ≤ 4095
    omega
  · have hi : i ∈ List.range clusterSize ++ List.range (textLength buffer + 1) ++
      List.range (min maxLength (textLength buffer)) := hi
    rcases List.mem_append.mp hi with hi | hi
    · rcases List.mem_append.mp hi with hi | hi
      · have := List.mem_range.mp hi
        omega
      · have := List.mem_range.mp hi
        omega
    · have := List.mem_range.mp hi
      omega

theorem runEditor_eq {fs fs' : FileSystem} {target buffer : Bytes} {size : ℤ} (screen : Screen)
    (hread : fs.readFile name target = (.ok (size, buffer), fs')) (hsize : size ≠ -1) :
    runEditor fs name target screen = some (start fs' buffer screen) := by
  rw [runEditor, hread]
  exact if_neg hsize

theorem runEditor_some {fs : FileSystem} {target : Bytes} {screen : Screen}
    (hstart : runEditor fs name target screen = some e) :
    ∃ buffer, e = start (fs.operate (.readFile name target)) buffer screen := by
  unfold runEditor at hstart
  cases hread : fs.readFile name target with
  | mk result fs' =>
    rw [hread] at hstart
    have hfs : fs.operate (.readFile name target) = fs' := congrArg Prod.snd hread
    rw [hfs]
    cases result with
    | error message => exact nomatch hstart
    | ok read =>
      obtain ⟨size, buffer⟩ := read
      dsimp only at hstart
      split at hstart
      · exact nomatch hstart
      · exact ⟨buffer, (Option.some.inj hstart).symm⟩

/-- The text of the editor is the text the keys make of the text in the file, and saving keeps
it: whatever happens to other names, the next editor of the file starts with it. -/
theorem text_exact {fs : FileSystem} {target : Bytes} {screen : Screen}
    (hstart : runEditor fs name target screen = some e)
    (hnul : ∃ n < editorSize, e.buffer n = 0) (ks : List BYTE) :
    (e.keys name ks).Exact ((Session.editing (stringAt e.buffer 0 editorSize)).keys ks) ∧
      ((e.keys name ks).mode = .closed true → ∀ i, fs.Opens name i →
        (e.keys name ks).fs.sizeOf i = (e.keys name ks).strIdx ∧
        ∀ history fs', Run FileSystem.step (FileSystem.Elsewhere name i)
            (e.keys name ks).fs history fs' →
          ∀ target screen, ∃ again, runEditor fs' name target screen = some again ∧
            again.Exact (.editing
              ((Session.editing (stringAt e.buffer 0 editorSize)).keys ks).text)) := by
  obtain ⟨buffer, rfl⟩ := runEditor_some hstart
  simp only [start_buffer] at hnul ⊢
  have hexact := start_exact (fs.operate (.readFile name target)) screen hnul
  have hend : ((start _ buffer screen).keys name ks).Exact _ := hexact.keys _ ks
  have hfs : ((start _ buffer screen).keys name ks).fs =
      stored (fs.operate (.readFile name target)) name _ := hexact.keys_stored rfl ks
  generalize (start _ buffer screen).keys name ks = t at hend hfs ⊢
  generalize (Session.editing (stringAt buffer 0 editorSize)).keys ks = u at hend ⊢
  refine ⟨hend, fun hclosed i hopens => ?_⟩
  have hlooked := hopens.mounted.readFile_looked name target
  have hread := hopens.looked (hopens.mounted.looked_stores hopens.reliable hlooked)
  rw [stored, hclosed] at hfs
  have hbound := hend.keeps.bound
  rw [hfs]
  refine ⟨?_, fun history fs' hrun target' screen' => ?_⟩
  · rw [(hread.writeFile t.buffer t.strIdx).2.2.1, FileSystem.dwordOf_natCast (by omega)]
  · obtain ⟨hagain, hfile⟩ := hread.reopened t.buffer t.strIdx hrun
    have hdelivered := hagain.readFile_eq hfile (by omega) (by omega) target'
    refine ⟨_, runEditor_eq screen' (Prod.ext hdelivered rfl) (by omega), ?_⟩
    have hlen : u.text.length < editorSize := by
      rw [← hend.keeps.index, editorSize]
      omega
    have hholds : Holds 0 (fun x => if x < clusterSize then t.buffer x else target' x) u.text :=
      hend.keeps.buffer.congr fun i hi => if_pos (hi.trans_lt hlen)
    rw [← stringAt_eq hholds hlen]
    exact start_exact _ screen' ⟨_, hlen, hholds.end_eq⟩

/-- An `a` typed into a new file and saved is there when the file is opened again. -/
theorem text_exact_first : ∃ e, runEditor (FileSystem.small.operate (.createFile [0x61])) [0x61]
      (fun _ => 0) ⟨0, fun _ => ⟨0, 0⟩⟩ = some e ∧
    ∃ again, runEditor (e.keys [0x61] [ascii 'a', keyEsc, ascii 'w', keyEnter]).fs [0x61]
      (fun _ => 0) ⟨0, fun _ => ⟨0, 0⟩⟩ = some again ∧ again.Exact (.editing [ascii 'a']) := by
  have hintact := FileSystem.small_created
  have hcarries : (FileSystem.small.operate (.createFile [0x61])).Carries 0 [0x61] := by
    constructor <;> decide +kernel
  obtain ⟨e, hstart, hempty⟩ : ∃ e, runEditor (FileSystem.small.operate (.createFile [0x61])) [0x61]
      (fun _ => 0) ⟨0, fun _ => ⟨0, 0⟩⟩ = some e ∧ e.buffer 0 = 0 := by
    have hread := hintact.readFile_eq (by decide) hcarries fun _ => 0
    refine ⟨_, runEditor_eq _ (Prod.ext hread rfl) (by decide +kernel), ?_⟩
    rw [start_buffer]
    decide +kernel
  obtain ⟨hend, hsaved⟩ := text_exact hstart ⟨0, by decide, hempty⟩
    [ascii 'a', keyEsc, ascii 'w', keyEnter]
  have hkeys : (Session.editing []).keys [ascii 'a', keyEsc, ascii 'w', keyEnter] =
    .ended [ascii 'a'] true := by decide
  rw [stringAt_eq (.nil hempty) (by decide), hkeys] at hend hsaved
  have hclosed := hend.mode.ended
  obtain ⟨again, hagain⟩ := (hsaved hclosed 0 (hintact.opens (by decide) hcarries)).2 [] _ .start
    (fun _ => 0) ⟨0, fun _ => ⟨0, 0⟩⟩
  exact ⟨e, hstart, again, hagain⟩

end Editor
end SkhuOS
