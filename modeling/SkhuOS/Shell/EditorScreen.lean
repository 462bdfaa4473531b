import SkhuOS.Common.Scrolling
import SkhuOS.Shell.Editor
import Mathlib.Data.List.Infix

/-! The screen while `runEditor` edits a text that fits on it: the cursor of the screen counts
along with the length of the text, except where the editor views a key that it does not store. -/
namespace SkhuOS
open Foundation

/-- The address of the cell for character `i` of a text. -/
def textCell (i : ℕ) : ℤ := cellAddr (i / lineWidth : ℕ) (i % lineWidth : ℕ)

/-- A cell shows a character, or nothing for a space. -/
def Displays (shown ch : BYTE) : Prop := shown = ch ∨ ch = 0x20 ∧ shown = 0

theorem textCell_eq (i : ℕ) : textCell i = 753664 + 2 * i := by
  rw [textCell, cellAddr_eq, lineWidth_eq]
  omega

namespace Screen

variable {s : Screen} {text : List BYTE} {ch : BYTE}

/-- The cursor is behind the text, the cells show the text, and the rest of their 24 lines is
blank. -/
structure Aligned (s : Screen) (text : List BYTE) : Prop where
  cursor : s.currentPoint = textCell text.length
  cells : ∀ i (hi : i < text.length), Displays (s.cell (textCell i)).character text[i]
  blank : ∀ i, text.length ≤ i → i < maxLength → (s.cell (textCell i)).character = 0

theorem clear_aligned (s : Screen) : s.clear.Aligned [] := by
  constructor
  · rfl
  · intro i hi
    exact absurd hi (Nat.not_lt_zero i)
  · intro i _ hi
    have hmax : maxLength = 1920 := rfl
    have hin : (videoMemoryAddr : ℤ) ≤ textCell i ∧
        textCell i < (videoMemoryAddr + oneLineSize * lineCount : ℕ) := by
      rw [textCell_eq]
      simp only [videoMemoryAddr, oneLineSize, lineCount]
      omega
    exact congrArg VideoCharacter.character (if_pos hin)

/-- A character behind a text that does not fill the 24 lines. -/
theorem view_at {n : ℕ} (hcursor : s.currentPoint = textCell n) (hn : n < maxLength)
    (hch : ch ≠ backSpace) : s.viewCharacter ch =
      { s.setCharacter (textCell n) ch with currentPoint := textCell (n + 1) } := by
  have hmax : maxLength = 1920 := rfl
  have hcount := lineCount_eq
  have hin : s.currentPoint + 2 < cellAddr lineCount 0 := by
    rw [hcursor, textCell_eq, cellAddr_eq]
    omega
  rw [viewCharacter_eq hch, advance_inside hin]
  have hnext : s.currentPoint + (oneCharSize : ℤ) = textCell (n + 1) := by
    rw [hcursor, textCell_eq, textCell_eq]
    simp only [oneCharSize]
    omega
  dsimp only
  rw [hnext, hcursor]
  rfl

theorem textCell_inj {i j : ℕ} : textCell i = textCell j ↔ i = j := by
  rw [textCell_eq, textCell_eq]
  omega

theorem setCharacter_textCell (s : Screen) (i j : ℕ) (ch : BYTE) :
    ((s.setCharacter (textCell i) ch).cell (textCell j)).character =
      if j = i then ch else (s.cell (textCell j)).character := by
  simp only [setCharacter, Function.update_apply, textCell_inj]
  split
  · rfl
  · rfl

namespace Aligned

variable (h : s.Aligned text)
include h

theorem view (hch : ch ≠ backSpace) (hfits : text.length < maxLength) :
    (s.viewCharacter ch).Aligned (text ++ [ch]) := by
  rw [view_at h.cursor hfits hch]
  constructor
  · rw [List.length_append]
    rfl
  · intro i hi
    rw [List.length_append, List.length_singleton] at hi
    rw [setCharacter_textCell]
    rcases Nat.lt_or_eq_of_le (Nat.le_of_lt_succ hi) with hlt | rfl
    · rw [if_neg (by omega), List.getElem_append_left hlt]
      exact h.cells i hlt
    · rw [if_pos rfl, List.getElem_concat_length rfl]
      exact .inl rfl
  · intro i hi hin
    rw [List.length_append, List.length_singleton] at hi
    rw [setCharacter_textCell, if_neg (by omega)]
    exact h.blank i (by omega) hin

theorem back (hne : text ≠ []) : (s.viewCharacter backSpace).Aligned text.dropLast := by
  have hpos := List.length_pos_of_ne_nil hne
  have hlast : s.currentPoint - (oneCharSize : ℤ) = textCell (text.length - 1) := by
    rw [h.cursor, textCell_eq, textCell_eq]
    simp only [oneCharSize]
    omega
  unfold viewCharacter
  rw [if_pos rfl, hlast]
  constructor
  · rw [List.length_dropLast]
  · intro i hi
    rw [List.length_dropLast] at hi
    rw [setCharacter_textCell, if_neg (by omega), List.getElem_dropLast]
    exact h.cells i (by omega)
  · intro i hi hin
    rw [List.length_dropLast] at hi
    rw [setCharacter_textCell]
    split
    · rfl
    · exact h.blank i (by omega) hin

/-- The rest of the line stays blank, where the text gets spaces. -/
theorem feed (hfits : text.length < maxLength) : s.moveToNextLine.Aligned
    (text ++ List.replicate ((text.length / 80 + 1) * 80 - text.length) 0x20) := by
  have hmax : maxLength = 1920 := rfl
  constructor
  · show s.currentPoint + ((oneLineSize : ℤ) - (s.currentPoint - videoMemoryAddr).tmod
      oneLineSize) = _
    rw [h.cursor, List.length_append, List.length_replicate, textCell_eq, textCell_eq]
    simp only [videoMemoryAddr, oneLineSize]
    rw [Int.tmod_eq_emod_of_nonneg (by omega)]
    omega
  · intro i hi
    show Displays (s.cell (textCell i)).character _
    rw [List.length_append, List.length_replicate] at hi
    by_cases hlt : i < text.length
    · rw [List.getElem_append_left hlt]
      exact h.cells i hlt
    · rw [List.getElem_append_right (by omega), List.getElem_replicate]
      exact .inr ⟨rfl, h.blank i (by omega) (by omega)⟩
  · intro i hi hin
    rw [List.length_append] at hi
    exact h.blank i (by omega) hin

/-- The last line of the screen is not one of the 24. -/
theorem viewXY (hfits : text.length ≤ maxLength) (hch : ch ≠ backSpace) (x : ℕ) :
    (s.viewCharacterXY ch 24 x).Aligned text := by
  have hmax : maxLength = 1920 := rfl
  unfold viewCharacterXY
  rw [if_neg hch]
  have hsame (i : ℕ) (hi : i < maxLength) :
      Function.update s.cell (cellAddr 24 x) ⟨ch, 0x0A⟩ (textCell i) = s.cell (textCell i) := by
    apply Function.update_of_ne
    rw [textCell_eq, cellAddr_eq]
    omega
  constructor
  · exact h.cursor
  · intro i hi
    show Displays (Function.update s.cell (cellAddr 24 x) ⟨ch, 0x0A⟩ (textCell i)).character _
    rw [hsame i (by omega)]
    exact h.cells i hi
  · intro i hi hin
    show (Function.update s.cell (cellAddr 24 x) ⟨ch, 0x0A⟩ (textCell i)).character = 0
    rw [hsame i hin]
    exact h.blank i hi hin

end Aligned

/-- Clearing the last line, character by character. -/
theorem Aligned.blankLine (h : s.Aligned text) (hfits : text.length ≤ maxLength) (xs : List ℕ) :
    (xs.foldl (fun screen i => screen.viewCharacterXY 0 24 i) s).Aligned text := by
  induction xs generalizing s with
  | nil => exact h
  | cons x xs ih => exact ih (h.viewXY hfits (by decide) x)

/-- A text viewed on a cleared screen stands there if it has no back space in it; one back space
leaves the cursor behind for good. -/
theorem viewText (s : Screen) {text : List BYTE} (hfits : text.length ≤ maxLength) :
    (text.foldl (fun screen ch => screen.viewCharacter ch) s.clear).currentPoint ≤
        textCell text.length ∧
      ((text.foldl (fun screen ch => screen.viewCharacter ch) s.clear).currentPoint =
        textCell text.length ↔ backSpace ∉ text) ∧
      (backSpace ∉ text →
        (text.foldl (fun screen ch => screen.viewCharacter ch) s.clear).Aligned text) := by
  induction text using List.reverseRecOn with
  | nil => exact ⟨le_rfl, ⟨fun _ => List.not_mem_nil, fun _ => rfl⟩, fun _ => s.clear_aligned⟩
  | append_singleton text ch ih =>
    rw [List.length_append, List.length_singleton] at hfits
    obtain ⟨hle, hiff, haligned⟩ := ih (by omega)
    rw [List.foldl_append, List.foldl_cons, List.foldl_nil, List.length_append,
      List.length_singleton]
    generalize text.foldl (fun screen ch => screen.viewCharacter ch) s.clear = t at *
    have hnext := textCell_eq (text.length + 1)
    have hhere := textCell_eq text.length
    by_cases hch : ch = backSpace
    · have hcursor : (t.viewCharacter ch).currentPoint = t.currentPoint - 2 :=
        congrArg currentPoint (if_pos hch)
      have hmem : backSpace ∈ text ++ [ch] := hch ▸ List.mem_append_right _ List.mem_cons_self
      refine ⟨by omega, ⟨fun heq => by omega, fun hnot => absurd hmem hnot⟩,
        fun hnot => absurd hmem hnot⟩
    · have hcount := lineCount_eq
      have hmax : maxLength = 1920 := rfl
      have hin : t.currentPoint + 2 < cellAddr lineCount 0 := by
        rw [cellAddr_eq]
        omega
      have hcursor : (t.viewCharacter ch).currentPoint = t.currentPoint + 2 := by
        rw [viewCharacter_eq hch, advance_inside hin]
        rfl
      have hmem : backSpace ∉ text ++ [ch] ↔ backSpace ∉ text := by
        rw [List.mem_append, List.mem_singleton, not_or]
        exact and_iff_left (Ne.symm hch)
      rw [hmem]
      refine ⟨by omega, ?_, fun hnot => (haligned hnot).view hch (by omega)⟩
      rw [← hiff]
      omega

end Screen

/-- Where a key makes the editor view a character that it does not store. -/
def Session.Slips : Session → BYTE → Prop
  | editing _, data => data = 0
  | commanding _ _, data => data = keyEsc
  | ended _ _, _ => False

instance (s : Session) (data : BYTE) : Decidable (s.Slips data) :=
  match s with
  | .editing _ => inferInstanceAs (Decidable (data = 0))
  | .commanding _ _ => inferInstanceAs (Decidable (data = keyEsc))
  | .ended _ _ => inferInstanceAs (Decidable False)

namespace Editor

variable {e : Editor} {s : Session} {name : CString} {data : BYTE}

/-- The cursor is at the cell behind the text, and the cells before show the buffer. -/
structure ShowsText (e : Editor) : Prop where
  cursor : e.screen.currentPoint = textCell e.strIdx
  cells : ∀ i < e.strIdx, Displays (e.screen.cell (textCell i)).character (e.buffer i)

theorem Exact.showsText (h : e.Exact s) (haligned : e.screen.Aligned s.text) : e.ShowsText := by
  have hidx := h.keeps.index
  constructor
  · rw [hidx]
    exact haligned.cursor
  · intro i hi
    rw [hidx] at hi
    rw [h.keeps.buffer.reads_lt hi]
    exact haligned.cells i hi

theorem padSpaces_screen (n : ℕ) (e : Editor) : (padSpaces n e).screen = e.screen :=
  (padSpaces_spec n e).2.2.1

/-- In the text mode the screen follows every key but 0. -/
theorem textKey_aligned {text : List BYTE} (h : e.Keeps text) (haligned : e.screen.Aligned text)
    (hshort : text.length < maxLength) (hdata : data ≠ 0) :
    (e.textKey data).screen.Aligned (Session.edit text data) := by
  have hidx := h.index
  have hmax : maxLength = 1920 := rfl
  have hsize : editorSize - 1 = 4095 := rfl
  unfold textKey Session.edit
  dsimp only
  by_cases henter : data = keyEnter
  · rw [if_pos henter, if_pos henter, if_neg (by omega), if_pos (by omega)]
    show (padSpaces _ e).screen.moveToNextLine.Aligned _
    rw [padSpaces_screen]
    exact haligned.feed hshort
  rw [if_neg henter, if_neg henter]
  by_cases hback : data = keyBackspace
  · rw [if_pos hback, if_pos hback]
    by_cases hzero : e.strIdx = 0
    · obtain rfl : text = [] := List.eq_nil_of_length_eq_zero (hidx.symm.trans hzero)
      rw [if_pos hzero]
      exact haligned
    · have hne : text ≠ [] := by
        rintro rfl
        exact hzero hidx
      rw [if_neg hzero, hback]
      exact haligned.back hne
  rw [if_neg hback, if_neg hback]
  by_cases hesc : data = keyEsc
  · rw [if_pos hesc, if_pos (.inl hesc)]
    exact haligned
  rw [if_neg hesc, if_pos hdata, if_neg (not_or_intro hesc hdata), if_neg (by omega),
    if_pos (by omega)]
  exact haligned.view hback hshort

/-- In the command mode only Escape moves the cursor. -/
theorem commandKey_aligned {text : List BYTE} {stateIdx : ℕ} {stateBuffer : Bytes}
    (haligned : e.screen.Aligned text) (hshort : text.length ≤ maxLength) (hdata : data ≠ keyEsc) :
    (e.commandKey name stateIdx stateBuffer data).screen.Aligned text := by
  unfold commandKey
  dsimp only
  rw [if_neg hdata]
  split
  · split
    · exact haligned
    · split
      · exact haligned
      · exact haligned
  · split
    · split
      · exact haligned
      · exact haligned.viewXY hshort (show (0 : BYTE) ≠ backSpace by decide) _
    next hback =>
      split
      · exact haligned.viewXY hshort hback _
      · exact haligned

/-- One key: the screen goes on following the text, unless the key slips. -/
theorem Exact.key_aligned (h : e.Exact s) (haligned : e.screen.Aligned s.text)
    (hshort : s.text.length < maxLength) (hok : ¬ s.Slips data) :
    (e.key name data).screen.Aligned (s.key data).text := by
  obtain ⟨hmode, hkeeps⟩ := h
  unfold Editor.key
  cases hloop : e.mode with
  | text =>
    rw [hloop] at hmode
    cases s with
    | editing text =>
      rw [Session.key_editing_text]
      exact textKey_aligned hkeeps haligned hshort hok
    | _ => exact hmode.elim
  | command stateIdx stateBuffer =>
    rw [hloop] at hmode
    cases s with
    | commanding text line =>
      rw [Session.key_commanding_text]
      exact commandKey_aligned haligned hshort.le hok
    | _ => exact hmode.elim
  | closed saved =>
    rw [hloop] at hmode
    cases s with
    | ended text saved' => exact haligned
    | _ => exact hmode.elim

/-- A slip leaves the text as it is and moves the cursor. -/
theorem Exact.key_slips (name : CString) (h : e.Exact s) (haligned : e.screen.Aligned s.text)
    (hshort : s.text.length < maxLength) (hslips : s.Slips data) :
    (e.key name data).mode = .text ∧ ¬ (e.key name data).ShowsText := by
  have hnext := h.key name data
  have hidx := h.keeps.index
  obtain ⟨hmode, hkeeps⟩ := h
  have hmoved (t : Editor) (hidx' : t.strIdx = e.strIdx)
      (hcursor : t.screen.currentPoint = textCell (s.text.length + 1)) : ¬ t.ShowsText := by
    intro hshows
    have := Screen.textCell_inj.mp (hshows.cursor.symm.trans hcursor)
    omega
  unfold Editor.key
  cases hloop : e.mode with
  | text =>
    rw [hloop] at hmode
    cases s with
    | editing text =>
      obtain rfl : data = 0 := hslips
      refine ⟨(textKey_mode e 0).trans hloop, hmoved _ rfl ?_⟩
      exact congrArg Screen.currentPoint (Screen.view_at haligned.cursor hshort (by decide))
    | _ => exact hmode.elim
  | command stateIdx stateBuffer =>
    rw [hloop] at hmode
    cases s with
    | commanding text line =>
      obtain rfl : data = keyEsc := hslips
      have hblank := haligned.blankLine hshort.le (List.range 80)
      refine ⟨rfl, hmoved _ rfl ?_⟩
      exact congrArg Screen.currentPoint (Screen.view_at hblank.cursor hshort (by decide))
    | _ => exact hmode.elim
  | closed saved =>
    rw [hloop] at hmode
    cases s with
    | ended text saved' => exact hslips.elim
    | _ => exact hmode.elim

theorem keys_snoc (e : Editor) (ks : List BYTE) (data : BYTE) :
    e.keys name (ks ++ [data]) = (e.keys name ks).key name data := by
  simp [keys]

theorem session_keys_snoc (s : Session) (ks : List BYTE) (data : BYTE) :
    s.keys (ks ++ [data]) = (s.keys ks).key data := by
  simp [Session.keys]

/-- The screen at the start. -/
theorem start_aligned (fs : FileSystem) {buffer : Bytes} (screen : Screen) {text : List BYTE}
    (hholds : Holds 0 buffer text) (hlen : text.length < maxLength) :
    ((start fs buffer screen).ShowsText ↔ backSpace ∉ text) ∧
      (backSpace ∉ text → (start fs buffer screen).screen.Aligned text) := by
  have hmax : maxLength = 1920 := rfl
  have hsize : editorSize = 4096 := rfl
  have htext : stringAt buffer 0 editorSize = text := stringAt_eq hholds (by omega)
  have hexact := start_exact fs screen ⟨text.length, by omega, hholds.end_eq⟩
  rw [htext] at hexact
  have hidx : textLength buffer = text.length := hexact.keeps.index
  have hshown : (List.range (min maxLength (textLength buffer))).map buffer = text := by
    rw [hidx, Nat.min_eq_right hlen.le]
    apply List.ext_getElem
    · simp
    · intro i hi hi'
      rw [List.getElem_map, List.getElem_range]
      exact hholds.reads_lt hi'
  have hscreen : (start fs buffer screen).screen =
      text.foldl (fun screen ch => screen.viewCharacter ch) screen.clear := by
    rw [← hshown, List.foldl_map]
    rfl
  obtain ⟨-, hcursor, haligned⟩ := screen.viewText hlen.le
  rw [← hscreen] at hcursor haligned
  refine ⟨⟨fun hshows => hcursor.mp ?_, fun hnot => hexact.showsText (haligned hnot)⟩, haligned⟩
  rw [← hidx]
  exact hshows.cursor

/-- Whenever the editor waits for a key of the text, the screen shows it. -/
def KeepsShowing (e : Editor) (name : CString) (ks : List BYTE) : Prop :=
  ∀ past, past <+: ks → (e.keys name past).mode = .text → (e.keys name past).ShowsText

/-- No key of the sequence slips. -/
def NoSlip (s : Session) (ks : List BYTE) : Prop :=
  ∀ past data, past ++ [data] <+: ks → ¬ (s.keys past).Slips data

theorem noSlip_nil (s : Session) : NoSlip s [] := fun past data hpast => by
  simp at hpast

theorem noSlip_snoc (s : Session) (ks : List BYTE) (data : BYTE) :
    NoSlip s (ks ++ [data]) ↔ NoSlip s ks ∧ ¬ (s.keys ks).Slips data := by
  unfold NoSlip
  simp only [List.prefix_concat_iff]
  constructor
  · intro h
    exact ⟨fun past d hpast => h past d (.inr hpast), h ks data (.inl rfl)⟩
  · rintro ⟨hpast, hlast⟩ past d (heq | hprefix)
    · obtain ⟨rfl, heq⟩ := List.append_inj' heq rfl
      obtain rfl : d = data := by simpa using heq
      exact hlast
    · exact hpast past d hprefix

theorem keepsShowing_snoc (e : Editor) (ks : List BYTE) (data : BYTE) :
    e.KeepsShowing name (ks ++ [data]) ↔ e.KeepsShowing name ks ∧
      ((e.keys name (ks ++ [data])).mode = .text → (e.keys name (ks ++ [data])).ShowsText) := by
  unfold KeepsShowing
  simp only [List.prefix_concat_iff]
  constructor
  · intro h
    exact ⟨fun past hpast => h past (.inr hpast), h _ (.inl rfl)⟩
  · rintro ⟨hpast, hlast⟩ past (rfl | hprefix)
    · exact hlast
    · exact hpast past hprefix

/-- From a start that shows its text exactly if `plain` holds. -/
theorem Exact.keeps_showing_iff {plain : Prop} (h : e.Exact s) (hmode : e.mode = .text)
    (hstart : e.ShowsText ↔ plain) (haligned : plain → e.screen.Aligned s.text) (ks : List BYTE)
    (hshort : ∀ past, past <+: ks → (s.keys past).text.length < maxLength) :
    (e.KeepsShowing name ks ↔ plain ∧ NoSlip s ks) ∧
      (plain ∧ NoSlip s ks → (e.keys name ks).screen.Aligned (s.keys ks).text) := by
  induction ks using List.reverseRecOn with
  | nil =>
    refine ⟨⟨fun hall => ⟨hstart.mp (hall [] List.nil_prefix hmode), noSlip_nil s⟩, ?_⟩,
      fun hok => haligned hok.1⟩
    rintro ⟨hplain, -⟩ past hpast -
    obtain rfl := List.prefix_nil.mp hpast
    exact hstart.mpr hplain
  | append_singleton ks data ih =>
    have hpast (past : List BYTE) (hp : past <+: ks) : past <+: ks ++ [data] :=
      hp.trans (List.prefix_append _ _)
    obtain ⟨hiff, hfollows⟩ := ih fun past hp => hshort past (hpast past hp)
    have hexact := h.keys name ks
    have hfits := hshort ks (hpast ks (List.prefix_refl _))
    rw [keepsShowing_snoc, noSlip_snoc, hiff, ← and_assoc, keys_snoc, session_keys_snoc]
    refine ⟨and_congr_right fun hok => ⟨fun hlast hslips => ?_, fun hok' _ => ?_⟩, ?_⟩
    · obtain ⟨hmode, hnot⟩ := hexact.key_slips name (hfollows hok) hfits hslips
      exact hnot (hlast hmode)
    · exact (hexact.key name data).showsText (hexact.key_aligned (hfollows hok) hfits hok')
    · rintro ⟨hok, hok'⟩
      exact hexact.key_aligned (hfollows hok) hfits hok'

/-- The screen shows a text of less than 1900 characters whenever the editor waits for a key of
the text, exactly as long as no back space is in the file, no key is 0, and Escape is not used
to leave the command mode. -/
theorem screen_follows_iff (fs : FileSystem) (name : CString) (buffer : Bytes) (screen : Screen)
    (ks : List BYTE) (hshort : ∀ past, past <+: ks →
      ((Session.editing (stringAt buffer 0 editorSize)).keys past).text.length < 1900) :
    (start fs buffer screen).KeepsShowing name ks ↔
      backSpace ∉ stringAt buffer 0 editorSize ∧
        NoSlip (.editing (stringAt buffer 0 editorSize)) ks := by
  have hmax : 1900 < maxLength := by decide
  have hsize : 1900 < editorSize := by decide
  have hlen : (stringAt buffer 0 editorSize).length < 1900 := hshort [] List.nil_prefix
  have hnul := stringAt_nul (hlen.trans hsize)
  rw [Nat.zero_add] at hnul
  have hexact := start_exact fs screen ⟨_, hlen.trans hsize, hnul⟩
  obtain ⟨hstart, haligned⟩ := start_aligned fs screen hexact.keeps.buffer (hlen.trans hmax)
  exact (hexact.keeps_showing_iff rfl hstart haligned ks fun past hpast =>
    (hshort past hpast).trans hmax).1

/-- In an empty file, without leaving the command mode. -/
theorem screen_follows_first : (start FileSystem.small (fun _ => 0)
    ⟨0, fun _ => ⟨0, 0⟩⟩).KeepsShowing [0x61] [ascii 'a', keyEnter, keyBackspace] := by
  have hempty : stringAt (fun _ => 0) 0 editorSize = [] := stringAt_eq (.nil rfl) (by decide)
  refine (screen_follows_iff _ _ _ _ _ fun past hpast => ?_).mpr ⟨?_, ?_⟩
  · have hall : ∀ past ∈ [ascii 'a', keyEnter, keyBackspace].inits,
        ((Session.editing []).keys past).text.length < 1900 := by decide
    rw [hempty]
    exact hall past ((List.mem_inits _ _).mpr hpast)
  · rw [hempty]
    exact List.not_mem_nil
  · rw [hempty]
    have hone := (noSlip_snoc (.editing []) [] (ascii 'a')).mpr ⟨noSlip_nil _, by decide⟩
    have htwo := (noSlip_snoc (.editing []) [ascii 'a'] keyEnter).mpr ⟨hone, by decide⟩
    exact (noSlip_snoc (.editing []) [ascii 'a', keyEnter] keyBackspace).mpr ⟨htwo, by decide⟩

/-- Escape, pressed twice, leaves the cursor behind an empty text. -/
theorem escape_moves_cursor : (∀ past, past <+: [keyEsc, keyEsc] →
      ((Session.editing (stringAt (fun _ => 0) 0 editorSize)).keys past).text.length < 1900) ∧
    ¬ (start FileSystem.small (fun _ => 0) ⟨0, fun _ => ⟨0, 0⟩⟩).KeepsShowing [0x61]
      [keyEsc, keyEsc] := by
  have hempty : stringAt (fun _ => 0) 0 editorSize = [] := stringAt_eq (.nil rfl) (by decide)
  constructor
  · intro past hpast
    have hall : ∀ past ∈ [keyEsc, keyEsc].inits,
        ((Session.editing []).keys past).text.length < 1900 := by decide
    rw [hempty]
    exact hall past ((List.mem_inits _ _).mpr hpast)
  · intro hshows
    have hcursor := (hshows _ (List.prefix_refl _) rfl).cursor
    revert hcursor
    decide +kernel

end Editor
end SkhuOS
