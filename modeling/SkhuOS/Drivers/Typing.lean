import SkhuOS.Foundation.Transducer
import SkhuOS.Proc.KeyQueue

/-! What text the keyboard types: the scan codes of set 1, the characters a US keyboard
means by them, and the characters that reach the reader of the key queue. -/
namespace SkhuOS
open Foundation

/-- A scan code as the controller sends it, with the bytes behind its prefix. -/
inductive Scan where
  | single (code : BYTE) (h : code ≠ 0xE0 ∧ code ≠ 0xE1)
  | e0 (code : BYTE)
  | e1 (code code' : BYTE)

namespace Scan

def bytes : Scan → List BYTE
  | single code _ => [code]
  | e0 code => [0xE0, code]
  | e1 code code' => [0xE1, code, code']

def first : Scan → BYTE
  | single code _ => code
  | e0 _ => 0xE0
  | e1 _ _ => 0xE1

end Scan

/-- The bytes the interrupt handler finds first when `scanToASCII` reads those behind them;
the number tells how many of these are still to come. -/
def handled : ℕ → List BYTE → List BYTE
  | _, [] => []
  | 0, code :: rest => code :: handled (scanLength code - 1) rest
  | n + 1, _ :: rest => handled n rest

/-- Rows of character keys: the scan code of the first one, what they type, and what they
type with shift. -/
def characterRows : List (ℕ × List BYTE × List BYTE) :=
  [(0x02, ['1', '2', '3', '4', '5', '6', '7', '8', '9', '0', '-', '='].map ascii,
      ['!', '@', '#', '$', '%', '^', '&', '*', '(', ')', '_', '+'].map ascii),
   (0x10, ['q', 'w', 'e', 'r', 't', 'y', 'u', 'i', 'o', 'p', '[', ']'].map ascii,
      ['Q', 'W', 'E', 'R', 'T', 'Y', 'U', 'I', 'O', 'P', '{', '}'].map ascii),
   (0x1E, ['a', 's', 'd', 'f', 'g', 'h', 'j', 'k', 'l', ';'].map ascii ++ [0x27, 0x60],
      ['A', 'S', 'D', 'F', 'G', 'H', 'J', 'K', 'L', ':'].map ascii ++ [0x22, ascii '~']),
   (0x2B, 0x5C :: ['z', 'x', 'c', 'v', 'b', 'n', 'm', ',', '.', '/'].map ascii,
      ['|', 'Z', 'X', 'C', 'V', 'B', 'N', 'M', '<', '>', '?'].map ascii),
   (0x37, [ascii '*'], [ascii '*']),
   (0x39, [ascii ' '], [ascii ' ']),
   (0x4A, [ascii '-'], [ascii '-']),
   (0x4E, [ascii '+'], [ascii '+']),
   -- the keypad navigates and types its digits with shift
   (0x47, [], ['7', '8', '9'].map ascii),
   (0x4B, [], ['4', '5', '6'].map ascii),
   (0x4F, [], ['1', '2', '3', '0', '.'].map ascii)]

def characterOf (held : Bool) (code : BYTE) : Option BYTE :=
  characterRows.findSome? fun (start, plain, shifted) =>
    if start ≤ code.toNat then (if held then shifted else plain)[code.toNat - start]? else none

/-- Which shift keys are held. -/
structure Shifts where
  left : Bool
  right : Bool

namespace Shifts

def held (shifts : Shifts) : Bool := shifts.left || shifts.right

def press (shifts : Shifts) (code : BYTE) : Shifts :=
  if code = 0x2A then { shifts with left := true }
  else if code = 0xAA then { shifts with left := false }
  else if code = 0x36 then { shifts with right := true }
  else if code = 0xB6 then { shifts with right := false }
  else shifts

end Shifts

/-- The character a scan code means, and the shift keys behind it. -/
def meant (shifts : Shifts) : Scan → List BYTE × Shifts
  | .single code _ => ((characterOf shifts.held code).toList, shifts.press code)
  | .e0 code => (if code = 0x35 then [ascii '/'] else [], shifts)
  | .e1 _ _ => ([], shifts)

def printable (key : BYTE) : Bool := decide (0x20 ≤ key) && decide (key ≤ 0x7E)

/-- The key a scan code puts into the queue, and the shift state behind it. -/
def keyStep (shiftOn : Bool) (code : BYTE) : List BYTE × Bool :=
  (if (scanToASCII shiftOn code).1 = 0 then [] else [(scanToASCII shiftOn code).1],
    (scanToASCII shiftOn code).2)

/-- The same for the printable keys and a whole scan code. -/
def printed (shiftOn : Bool) (scan : Scan) : List BYTE × Bool :=
  ((keyStep shiftOn scan.first).1.filter printable, (keyStep shiftOn scan.first).2)

/-- Ctrl, right shift, Alt, Caps Lock, F1 to F10, Num Lock, Scroll Lock, F11 and F12. -/
def specialKeys : List BYTE :=
  [0x1D, 0x36, 0x38, 0x3A, 0x3B, 0x3C, 0x3D, 0x3E, 0x3F, 0x40, 0x41, 0x42, 0x43, 0x44, 0x45, 0x46,
    0x57, 0x58]

/-- The keys of the keypad, apart from Down, `-` and `+`. -/
def keypadKeys : List BYTE := [0x47, 0x48, 0x49, 0x4B, 0x4C, 0x4D, 0x4F, 0x51, 0x52, 0x53]

/-- The key is no special key and, unless a shift key is held, not one of the keypad. -/
def PlainKey (held : Bool) (code : BYTE) : Prop :=
  code ∉ specialKeys ∧ (held = false → code ∉ keypadKeys)

instance (held : Bool) (code : BYTE) : Decidable (PlainKey held code) :=
  inferInstanceAs (Decidable (_ ∧ _))

/-- The scan code comes from a plain key, and not from the slash of the keypad. -/
def PlainTyping (held : Bool) : Scan → Prop
  | .single code _ => PlainKey held code
  | .e0 code => code ≠ 0x35
  | .e1 _ _ => True

instance (held : Bool) : ∀ scan, Decidable (PlainTyping held scan)
  | .single code _ => inferInstanceAs (Decidable (PlainKey held code))
  | .e0 _ => inferInstanceAs (Decidable (_ ≠ _))
  | .e1 _ _ => inferInstanceAs (Decidable True)

/-- Special keys deliver letters and brackets, and what gets lost is `/` or `2`. -/
def keyWeight (key : BYTE) : ℤ :=
  if key = 0x2F ∨ key = 0x3F ∨ key = 0x32 ∨ key = 0x40 then -1
  else if 0x5B ≤ key ∧ key ≠ 0x5E ∧ key ≠ 0x5F then 1 else 0

def textWeight (keys : List BYTE) : ℤ := (keys.map keyWeight).sum

theorem textWeight_append (l l' : List BYTE) :
    textWeight (l ++ l') = textWeight l + textWeight l' := by
  simp [textWeight]

theorem keyStep_shift (shiftOn : Bool) (code : BYTE) : (keyStep shiftOn code).2 =
    if code = 0x2A then true else if code = 0xAA then false else shiftOn := by
  change _ = if code = keyShiftDown then true else if code = keyShiftUp then false else shiftOn
  simp only [keyStep, scanToASCII]
  split
  · rfl
  · split
    · rfl
    · split
      · rfl
      · split <;> rfl

theorem press_left (shifts : Shifts) (code : BYTE) :
    (shifts.press code).left = (keyStep shifts.left code).2 := by
  rw [keyStep_shift]
  simp only [Shifts.press]
  by_cases hdown : code = 0x2A
  · rw [if_pos hdown, if_pos hdown]
  · rw [if_neg hdown, if_neg hdown]
    by_cases hup : code = 0xAA
    · rw [if_pos hup, if_pos hup]
    · rw [if_neg hup, if_neg hup]
      split_ifs <;> rfl

/-- Codes behind the table type nothing, and no key has one. -/
theorem keyStep_unmapped {shiftOn : Bool} {code : BYTE} (h : code ≠ 0xE0 ∧ code ≠ 0xE1)
    (hcode : 89 ≤ code.toNat) : (keyStep shiftOn code).1 = [] := by
  have hnone : keyMappingTable[code.toNat]? = none := List.getElem?_eq_none hcode
  have hdown : code ≠ keyShiftDown := fun he => by
    rw [he] at hcode
    exact absurd hcode (by decide)
  refine if_pos ?_
  simp only [scanToASCII, if_neg hdown, if_neg h.1, if_neg h.2, hnone]

theorem characterOf_unmapped (held : Bool) {code : BYTE} (hcode : 89 ≤ code.toNat) :
    characterOf held code = none := by
  have hrows : ∀ row ∈ characterRows, row.1 + row.2.1.length ≤ 89 ∧
      row.1 + row.2.2.length ≤ 89 := by decide
  refine List.findSome?_eq_none_iff.mpr fun row hrow => ?_
  obtain ⟨hplain, hshifted⟩ := hrows row hrow
  dsimp only
  split
  · cases held
    · exact List.getElem?_eq_none (Nat.le_sub_of_add_le' (hplain.trans hcode))
    · exact List.getElem?_eq_none (Nat.le_sub_of_add_le' (hshifted.trans hcode))
  · rfl

theorem plainKey_unmapped (held : Bool) {code : BYTE} (hcode : 89 ≤ code.toNat) :
    PlainKey held code := by
  have hspecial : ∀ key ∈ specialKeys ++ keypadKeys, key.toNat < 89 := by decide
  refine ⟨fun hmem => ?_, fun _ hmem => ?_⟩
  · have := hspecial code (List.mem_append_left _ hmem)
    omega
  · have := hspecial code (List.mem_append_right _ hmem)
    omega

theorem mapped_synced : ∀ (left : Bool), ∀ n < 89,
    if PlainKey left (BitVec.ofNat 8 n) then
      (keyStep left (BitVec.ofNat 8 n)).1.filter printable =
        (characterOf left (BitVec.ofNat 8 n)).toList
    else textWeight (characterOf left (BitVec.ofNat 8 n)).toList <
      textWeight ((keyStep left (BitVec.ofNat 8 n)).1.filter printable) := by
  decide +kernel

/-- With the right shift key up, a plain key types its character and any other key more. -/
theorem single_synced (left : Bool) {code : BYTE} (h : code ≠ 0xE0 ∧ code ≠ 0xE1) :
    if PlainKey left code then
      (keyStep left code).1.filter printable = (characterOf left code).toList
    else textWeight (characterOf left code).toList <
      textWeight ((keyStep left code).1.filter printable) := by
  rcases Nat.lt_or_ge code.toNat 89 with hcode | hcode
  · have hmapped := mapped_synced left code.toNat hcode
    rwa [BitVec.ofNat_toNat, BitVec.setWidth_eq] at hmapped
  · rw [if_pos (plainKey_unmapped left hcode), keyStep_unmapped h hcode,
      characterOf_unmapped left hcode]
    rfl

theorem mapped_shifted : ∀ n < 89,
    textWeight (characterOf true (BitVec.ofNat 8 n)).toList ≤
      textWeight ((keyStep false (BitVec.ofNat 8 n)).1.filter printable) := by
  decide +kernel

/-- With only the right shift key down, the wrong case weighs no less. -/
theorem single_shifted {code : BYTE} (h : code ≠ 0xE0 ∧ code ≠ 0xE1) :
    textWeight (characterOf true code).toList ≤
      textWeight ((keyStep false code).1.filter printable) := by
  rcases Nat.lt_or_ge code.toNat 89 with hcode | hcode
  · have hmapped := mapped_shifted code.toNat hcode
    rwa [BitVec.ofNat_toNat, BitVec.setWidth_eq] at hmapped
  · rw [keyStep_unmapped h hcode, characterOf_unmapped true hcode]
    exact le_rfl

theorem single_weight_le (left right : Bool) {code : BYTE} (h : code ≠ 0xE0 ∧ code ≠ 0xE1) :
    textWeight (characterOf (left || right) code).toList ≤
      textWeight ((keyStep left code).1.filter printable) := by
  have hsynced := single_synced left h
  have hsame : textWeight (characterOf left code).toList ≤
      textWeight ((keyStep left code).1.filter printable) := by
    split at hsynced
    · rw [hsynced]
    · exact hsynced.le
  cases left with
  | true => exact hsame
  | false =>
    cases right with
    | false => exact hsame
    | true => exact single_shifted h

theorem printed_e0 (shiftOn : Bool) (code : BYTE) :
    printed shiftOn (.e0 code) = ([], shiftOn) := by
  cases shiftOn <;> rfl

theorem printed_e1 (shiftOn : Bool) (code code' : BYTE) :
    printed shiftOn (.e1 code code') = ([], shiftOn) := by
  cases shiftOn <;> rfl

theorem slash_weight : textWeight [ascii '/'] < textWeight [] := by decide

/-- The driver follows the left shift key; apart from that it gains weight or stays even. -/
theorem printed_weight (shiftOn : Bool) (shifts : Shifts) (scan : Scan)
    (h : shifts.left = shiftOn) :
    textWeight (meant shifts scan).1 ≤ textWeight (printed shiftOn scan).1 ∧
      (meant shifts scan).2.left = (printed shiftOn scan).2 := by
  obtain ⟨left, right⟩ := shifts
  obtain rfl : left = shiftOn := h
  cases scan with
  | single code hcode => exact ⟨single_weight_le left right hcode, press_left _ code⟩
  | e0 code =>
    rw [printed_e0]
    refine ⟨?_, rfl⟩
    rw [meant]
    split
    · exact slash_weight.le
    · exact le_rfl
  | e1 code code' =>
    rw [printed_e1]
    exact ⟨le_rfl, rfl⟩

theorem printed_plain (shiftOn : Bool) (scan : Scan) (h : PlainTyping shiftOn scan) :
    (printed shiftOn scan).1 = (meant ⟨shiftOn, false⟩ scan).1 ∧
      (meant ⟨shiftOn, false⟩ scan).2 = ⟨(printed shiftOn scan).2, false⟩ := by
  have hleft := (printed_weight shiftOn ⟨shiftOn, false⟩ scan rfl).2
  cases scan with
  | single code hcode =>
    have hplain : PlainKey shiftOn code := h
    have hkeys := single_synced shiftOn hcode
    rw [if_pos hplain] at hkeys
    have hright : (Shifts.press ⟨shiftOn, false⟩ code).right = false := by
      have hne : code ≠ 0x36 := fun he => hplain.1 (he ▸ by decide)
      simp only [Shifts.press]
      split_ifs <;> rfl
    rw [← hleft]
    exact ⟨hkeys.trans (by rw [meant, Shifts.held, Bool.or_false]), congrArg (Shifts.mk _) hright⟩
  | e0 code =>
    rw [printed_e0, meant, if_neg h]
    exact ⟨rfl, rfl⟩
  | e1 code code' =>
    rw [printed_e1]
    exact ⟨rfl, rfl⟩

theorem printed_special (shiftOn : Bool) (scan : Scan) (h : ¬ PlainTyping shiftOn scan) :
    textWeight (meant ⟨shiftOn, false⟩ scan).1 < textWeight (printed shiftOn scan).1 := by
  cases scan with
  | single code hcode =>
    have hspecial : ¬ PlainKey shiftOn code := h
    have hlt := single_synced shiftOn hcode
    rw [if_neg hspecial] at hlt
    rwa [meant, Shifts.held, Bool.or_false]
  | e0 code =>
    rw [printed_e0, meant, if_pos (not_not.mp h)]
    exact slash_weight
  | e1 code code' => exact absurd trivial h

/-- What a sequence of scan codes types on a US keyboard. -/
def textOf (scans : List Scan) : List BYTE := outputs meant ⟨false, false⟩ scans

/-- No scan code of the sequence comes from one of the keys the table mixes up. -/
def PlainText (scans : List Scan) : Prop :=
  AllFine meant (fun shifts scan => PlainTyping shifts.held scan) ⟨false, false⟩ scans

instance (scans : List Scan) : Decidable (PlainText scans) :=
  inferInstanceAs (Decidable (AllFine _ _ _ _))

theorem printed_eq_iff (scans : List Scan) :
    outputs printed false scans = textOf scans ↔ PlainText scans := by
  refine outputs_eq_iff (fun shiftOn shifts => shifts.left = shiftOn)
    (fun shiftOn shifts => shifts = ⟨shiftOn, false⟩) textWeight_append
    (fun s t a h => printed_weight s t a h) (fun s t h => by rw [h]) ?_ ?_ rfl scans
  · rintro s _ a rfl h
    exact printed_plain s a (by simpa [Shifts.held] using h)
  · rintro s _ a rfl h
    exact printed_special s a (by simpa [Shifts.held] using h)

theorem handled_scans (scans : List Scan) :
    handled 0 (scans.flatMap Scan.bytes) = scans.map Scan.first := by
  induction scans with
  | nil => rfl
  | cons scan scans ih =>
    cases scan with
    | single code hcode =>
      have hlength : scanLength code = 1 := by rw [scanLength, if_neg hcode.2, if_neg hcode.1]
      simp [Scan.bytes, handled, hlength, ih, Scan.first]
    | e0 code => simpa [Scan.bytes, handled, scanLength, Scan.first] using ih
    | e1 code code' => simpa [Scan.bytes, handled, scanLength, Scan.first] using ih

namespace Kernel

variable {k k' : Kernel} {a : Action} {q : ℕ} {history : List (Move Kernel Action)}

/-- The scan code an action hands to the driver, if it does. -/
def scanned : Action → Option BYTE
  | .keyboard scanCode _ => scanCode
  | _ => none

def scannedCodes (history : List (Move Kernel Action)) : List BYTE :=
  history.filterMap fun move => scanned move.label

/-- No key meets a full queue. -/
def QueueNeverFull (history : List (Move Kernel Action)) : Prop :=
  ∀ m ∈ history, (m.before.typed m.label).isSome →
    m.before.pendingKeys.length < queueCount - 1

theorem typed_eq (k : Kernel) (a : Action) :
    (k.typed a).toList = outputs keyStep k.shiftOn (scanned a).toList := by
  cases a with
  | keyboard scanCode _ =>
    cases scanCode with
    | none => rfl
    | some code =>
      simp only [typed, scanned, Option.toList_some, outputs, keyStep, List.append_nil]
      split <;> rfl
  | _ => rfl

theorem getKeyLoop_shiftOn (k : Kernel) (preIf : Bool) (regs : ProcessContext) :
    (k.getKeyLoop preIf regs).2.shiftOn = k.shiftOn := by
  simp only [Kernel.getKeyLoop]
  split <;> rfl

theorem keyboardInterruptHandler_shiftOn (k : Kernel) (scanCode : Option BYTE) :
    (k.keyboardInterruptHandler scanCode).shiftOn =
      stateAfter keyStep k.shiftOn scanCode.toList := by
  cases scanCode with
  | none => rfl
  | some code =>
    simp only [Kernel.keyboardInterruptHandler, Kernel.inputQueue]
    split <;> rfl

theorem Valid.shiftOn_step (h : k.Valid) (hstep : k.step a = some k') :
    k'.shiftOn = stateAfter keyStep k.shiftOn (scanned a).toList := by
  by_cases hkey : k.HandlesKeys a
  · cases a with
    | timer _ | disk _ _ | collect _ => exact hkey.elim
    | keyboard scanCode frame =>
      simp only [Kernel.step, Option.ite_none_right_eq_some, Option.some.injEq] at hstep
      obtain ⟨-, rfl⟩ := hstep
      exact keyboardInterruptHandler_shiftOn _ scanCode
    | call c regs =>
      simp only [Kernel.step, Option.ite_none_right_eq_some, Option.some.injEq] at hstep
      obtain ⟨-, rfl⟩ := hstep
      cases c with
      | getKey => exact getKeyLoop_shiftOn _ _ regs
      | getQueue => rfl
      | _ => exact hkey.elim
    | resume regs =>
      obtain ⟨preIf, hat⟩ := hkey
      simp only [Kernel.step, Kernel.resumeCall, hat, Option.some.injEq] at hstep
      subst hstep
      exact getKeyLoop_shiftOn _ preIf regs
  · rw [(h.keyFrame hstep hkey).shift]
    cases a with
    | keyboard _ _ => exact absurd trivial hkey
    | _ => rfl

theorem typed_run {b : Boot} (hrun : KernelRun anyStep b history k) :
    k.shiftOn = stateAfter keyStep b.start.shiftOn (scannedCodes history) ∧
      (history.filterMap fun m => m.before.typed m.label) =
        outputs keyStep b.start.shiftOn (scannedCodes history) := by
  refine (hrun.history_invariant (P := fun past t => t.Valid ∧
    t.shiftOn = stateAfter keyStep b.start.shiftOn (scannedCodes past) ∧
      (past.filterMap fun m => m.before.typed m.label) =
        outputs keyStep b.start.shiftOn (scannedCodes past)) ⟨b.start_valid, rfl, rfl⟩
    fun past t a u _ ⟨hvalid, hshift, htyped⟩ _ hstep => ⟨hvalid.step hstep, ?_, ?_⟩).2
  · have hscanned : scannedCodes (past ++ [⟨t, a, u⟩]) =
        scannedCodes past ++ (scanned a).toList := by
      cases hc : scanned a <;> simp [scannedCodes, hc]
    rw [hscanned, stateAfter_append, ← hshift]
    exact hvalid.shiftOn_step hstep
  · have hscanned : scannedCodes (past ++ [⟨t, a, u⟩]) =
        scannedCodes past ++ (scanned a).toList := by
      cases hc : scanned a <;> simp [scannedCodes, hc]
    rw [hscanned, outputs_append, ← hshift, ← typed_eq, ← htyped, List.filterMap_append]
    cases hc : t.typed a <;> simp [hc]

/-- What `getKey` delivers, with what is still in the queue, is the text the keyboard means
exactly when every scan code comes from a plain key. -/
theorem text_typed_iff {b : Boot} {scans : List Scan}
    (hrun : KernelRun (OneConsumer q) b history k) (hfull : QueueNeverFull history)
    (hscans : scannedCodes history = handled 0 (scans.flatMap Scan.bytes)) :
    (deliveredKeys history ++ k.pendingKeys).filter printable = textOf scans ↔
      PlainText scans := by
  have haccepted : acceptedKeys history = history.filterMap fun m => m.before.typed m.label := by
    refine List.filterMap_congr fun m hm => ?_
    cases htyped : m.before.typed m.label with
    | none => rw [accepted, htyped, ite_self]
    | some c => rw [accepted, if_pos (hfull m hm (by rw [htyped]; rfl)), htyped]
  have hshift : b.start.shiftOn = false := by
    rw [b.start_eq]
    rfl
  have hkeys : deliveredKeys history ++ k.pendingKeys =
      outputs keyStep false (scans.map Scan.first) := by
    rw [← accepted_run hrun, haccepted, (typed_run (hrun.mono fun _ _ _ => trivial)).2, hshift,
      hscans, handled_scans]
  rw [hkeys, outputs_filter, outputs_map]
  exact printed_eq_iff scans

/-- F1 is pressed while the shell waits for a key. -/
def afterF1 : Kernel :=
  (Boot.zero.start.setIf true).2.interrupt (fun _ => 0) fun k =>
    k.keyboardInterruptHandler (some 0x3B)

def f1History : List (Move Kernel Action) :=
  [⟨Boot.zero.start, .call (.setIf true) fun _ => 0, (Boot.zero.start.setIf true).2⟩,
   ⟨(Boot.zero.start.setIf true).2, .keyboard (some 0x3B) fun _ => 0, afterF1⟩,
   ⟨afterF1, .call .getKey fun _ => 0, (afterF1.getKey fun _ => 0).2⟩]

theorem f1_run : KernelRun (OneConsumer 0) Boot.zero f1History (afterF1.getKey fun _ => 0).2 := by
  have hsetIf : Boot.zero.start.step (.call (.setIf true) fun _ => 0) =
      some (Boot.zero.start.setIf true).2 := by
    simp only [Kernel.step]
    exact if_pos (by decide +kernel)
  have hpress : (Boot.zero.start.setIf true).2.step (.keyboard (some 0x3B) fun _ => 0) =
      some afterF1 := by
    simp only [Kernel.step]
    exact if_pos (by decide +kernel)
  have hgetKey : afterF1.step (.call .getKey fun _ => 0) =
      some (afterF1.getKey fun _ => 0).2 := by
    simp only [Kernel.step]
    exact if_pos (by decide +kernel)
  have hrunning : afterF1.sched.runningProcess = 0 := by decide +kernel
  exact .next (.next (.next .start trivial hsetIf) trivial hpress) hrunning hgetKey

theorem text_typed_iff_f1 : (deliveredKeys f1History ++
      (afterF1.getKey fun _ => 0).2.pendingKeys).filter printable =
    textOf [.single 0x3B (by decide)] ↔ PlainText [.single 0x3B (by decide)] :=
  text_typed_iff f1_run (by unfold QueueNeverFull f1History; decide +kernel) (by decide +kernel)

/-- Pressing F1 types an `a`. -/
theorem f1_types_a : KernelRun (OneConsumer 0) Boot.zero f1History
      (afterF1.getKey fun _ => 0).2 ∧
    scannedCodes f1History = handled 0 (Scan.single 0x3B (by decide)).bytes ∧
    deliveredKeys f1History = [ascii 'a'] ∧ textOf [.single 0x3B (by decide)] = [] :=
  ⟨f1_run, by decide +kernel, by decide +kernel, by decide +kernel⟩

end Kernel
end SkhuOS
