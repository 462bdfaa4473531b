import SkhuOS.Common.Print
import SkhuOS.Drivers.Keyboard
import SkhuOS.Foundation.Text
import Mathlib.Data.List.Induction
import Mathlib.Data.List.Forall2

/-! The input loop and the command parser of `kernel/shell/Shell.c`, with the indices of all
stores to their arrays of 100 bytes. -/
namespace SkhuOS
open Foundation

/-- The functions of `commandTable`. -/
inductive Command where
  | help | clearCommand | memUsed | reboot | printDiskCapacity | multiTasking | mountCommand
  | formatting | ls | touch | rm | editor | ring3
  deriving DecidableEq

def cString (str : String) : CString := str.toList.map ascii

def commandTable : List (CString × Command) :=
  [(cString "help", .help), (cString "clear", .clearCommand), (cString "memUsed", .memUsed),
   (cString "reboot", .reboot), (cString "diskCapacity", .printDiskCapacity),
   (cString "multiTasking", .multiTasking), (cString "mount", .mountCommand),
   (cString "formatting", .formatting), (cString "ls", .ls), (cString "touch", .touch),
   (cString "rm", .rm), (cString "editor", .editor), (cString "ring3", .ring3)]

def accountName : CString := cString "NHW"

def Screen.printAccountName (s : Screen) (str : CString) : Screen :=
  (s.printString str).printString (cString ">")

/-- The size of `commandBuffer` and of `name`. -/
def commandSize : ℕ := 100

/-- What `executeCommand` parses: where the name ends, the array `name`, and its stores. -/
structure ParsedName where
  idx : ℕ
  name : Bytes
  stores : List ℕ

/-- The loop that copies the name, which ends it with a NUL. The first argument bounds its
rounds. -/
def copyName (cmd : Bytes) : ℕ → ParsedName → ParsedName
  | 0, p => p
  | n + 1, p =>
    if cmd p.idx ≠ 0x20 ∧ cmd p.idx ≠ 0 then
      copyName cmd n ⟨p.idx + 1, Function.update p.name p.idx (cmd p.idx), p.stores ++ [p.idx]⟩
    else ⟨p.idx, Function.update p.name p.idx 0, p.stores ++ [p.idx]⟩

/-- `startShell` between two keys, with what its callees leave behind: the stores to
`commandBuffer`, the stores to `name`, and the command lines `executeCommand` was called with. -/
structure Shell where
  bufferIndex : ℕ
  commandBuffer : Bytes
  screen : Screen
  stores : List ℕ
  nameStores : List ℕ
  executed : List Bytes

namespace Shell

variable (s : Shell)

def store (i : ℕ) (ch : BYTE) : Shell :=
  { s with commandBuffer := Function.update s.commandBuffer i ch, stores := s.stores ++ [i] }

/-- The commands are functions of their own; `run` is what they do to the screen. -/
def executeCommand (run : Command → CString → Screen → Screen) : Shell :=
  let cmd := s.commandBuffer
  let p := copyName cmd (s.bufferIndex + 1) ⟨0, fun _ => 0, []⟩
  let s := { s with nameStores := s.nameStores ++ p.stores, executed := s.executed ++ [cmd] }
  if p.idx = 0 then s
  else
    let arg := if cmd p.idx = 0x20 then p.idx + 1 else p.idx
    match commandTable.find? fun entry => strcmp p.name 0 entry.1 = 0 with
    | some entry =>
      { s with screen := run entry.2 (stringAt cmd arg (s.bufferIndex + 1 - arg)) s.screen }
    | none =>
      let screen := s.screen.printString (stringAt cmd 0 (s.bufferIndex + 1))
      { s with screen := screen.printString (cString " is not found!") }

/-- One round of the loop of `startShell` for the key that `getKey` returns. -/
def key (run : Command → CString → Screen → Screen) (data : BYTE) : Shell :=
  if data = keyEnter then
    let s := { s with screen := s.screen.puts [] }
    let s := s.executeCommand run
    let s := { s with bufferIndex := 0 }.store 0 0
    { s with screen := (s.screen.puts []).printAccountName accountName }
  else if data = keyBackspace then
    if s.bufferIndex = 0 then s
    else
      let s := { s with bufferIndex := s.bufferIndex - 1 }.store (s.bufferIndex - 1) 0
      { s with screen := s.screen.viewCharacter data }
  else
    let s :=
      if data ≠ 0 then
        { s with bufferIndex := s.bufferIndex + 1 }.store s.bufferIndex data
          |>.store (s.bufferIndex + 1) 0
      else s
    { s with screen := s.screen.viewCharacter data }

/-- The entry of `startShell`; `stack` is what lies behind the cleared array. -/
def start (screen : Screen) (stack : Bytes) : Shell where
  bufferIndex := 0
  commandBuffer := memsetZero stack commandSize
  screen := screen.printAccountName accountName
  stores := List.range commandSize
  nameStores := []
  executed := []

def keys (run : Command → CString → Screen → Screen) (ks : List BYTE) : Shell :=
  ks.foldl (fun s data => s.key run data) s

end Shell

/-- A key applied to the text of a command line. -/
def typeKey (text : List BYTE) (data : BYTE) : List BYTE :=
  if data = keyEnter then []
  else if data = keyBackspace then text.dropLast
  else if data ≠ 0 then text ++ [data]
  else text

/-- What has been typed since the last Enter. -/
def typedLine (ks : List BYTE) : List BYTE := ks.foldl typeKey []

/-- The lines that were typed before each Enter. -/
def enteredLines : List BYTE → List BYTE → List (List BYTE)
  | _, [] => []
  | text, data :: ks =>
    if data = keyEnter then text :: enteredLines [] ks else enteredLines (typeKey text data) ks

theorem enteredLines_snoc (text ks : List BYTE) (data : BYTE) :
    enteredLines text (ks ++ [data]) = enteredLines text ks ++
      if data = keyEnter then [ks.foldl typeKey text] else [] := by
  induction ks generalizing text with
  | nil =>
    simp only [List.nil_append, enteredLines, List.foldl_nil]
  | cons k ks ih =>
    simp only [List.cons_append, enteredLines, List.foldl_cons]
    split
    next hk =>
      have hnil : typeKey text k = [] := if_pos hk
      rw [ih, hnil]
      rfl
    next => exact ih _

/-- In a command line of `n` characters the copying loop ends at a space or at the NUL, and all
its stores are at most that far. -/
theorem copyName_spec {cmd : Bytes} {n : ℕ} (hnul : cmd n = 0) (rounds : ℕ) (p : ParsedName)
    (hrounds : p.idx + rounds = n + 1) (hpos : 0 < rounds) (hstores : ∀ i ∈ p.stores, i ≤ n) :
    ((cmd (copyName cmd rounds p).idx = 0x20 ∨ cmd (copyName cmd rounds p).idx = 0) ∧
      ∀ i ∈ (copyName cmd rounds p).stores, i ≤ n) := by
  have hsnoc : ∀ i ∈ p.stores ++ [p.idx], i ≤ n := by
    intro i hi
    rcases List.mem_append.mp hi with hi | hi
    · exact hstores i hi
    · have := List.mem_singleton.mp hi
      omega
  induction rounds generalizing p with
  | zero => omega
  | succ rounds ih =>
    unfold copyName
    split
    next hgo =>
      have hlt : p.idx ≠ n := fun he => hgo.2 (he ▸ hnul)
      apply ih
      · show p.idx + 1 + rounds = n + 1
        omega
      · omega
      · exact hsnoc
      · intro i hi
        rcases List.mem_append.mp hi with hi | hi
        · exact hsnoc i hi
        · have : i = p.idx + 1 := List.mem_singleton.mp hi
          omega
    next hstop =>
      refine ⟨?_, hsnoc⟩
      rcases Decidable.not_and_iff_not_or_not.mp hstop with hspace | hend
      · exact .inl (not_not.mp hspace)
      · exact .inr (not_not.mp hend)

namespace Shell

variable (run : Command → CString → Screen → Screen) {s : Shell} {text : List BYTE}

/-- The array holds the text, and the index is behind it. -/
structure Typed (s : Shell) (text : List BYTE) : Prop where
  index : s.bufferIndex = text.length
  buffer : Holds 0 s.commandBuffer text

/-- The parser leaves the array of the shell alone. -/
theorem executeCommand_spec (h : s.Typed text) :
    (s.executeCommand run).commandBuffer = s.commandBuffer ∧
      (s.executeCommand run).stores = s.stores ∧
      (s.executeCommand run).executed = s.executed ++ [s.commandBuffer] ∧
      ∃ stores, (s.executeCommand run).nameStores = s.nameStores ++ stores ∧
        ∀ i ∈ stores, i ≤ text.length := by
  have hparsed := (copyName_spec h.buffer.end_eq (s.bufferIndex + 1) ⟨0, fun _ => 0, []⟩
    (by rw [h.index]; exact Nat.zero_add _) (by omega) (by simp)).2
  unfold executeCommand
  dsimp only
  split
  · exact ⟨rfl, rfl, rfl, _, rfl, hparsed⟩
  · split
    · exact ⟨rfl, rfl, rfl, _, rfl, hparsed⟩
    · exact ⟨rfl, rfl, rfl, _, rfl, hparsed⟩

/-- A key does to the array what it does to the text. Its stores stay inside 100 bytes where
the text does. -/
theorem Typed.key (h : s.Typed text) (data : BYTE) :
    (s.key run data).Typed (typeKey text data) ∧
      (s.key run data).executed = s.executed ++
        (if data = keyEnter then [s.commandBuffer] else []) ∧
      ∃ stores nameStores, (s.key run data).stores = s.stores ++ stores ∧
        (s.key run data).nameStores = s.nameStores ++ nameStores ∧
        (text.length < commandSize →
          (((∀ i ∈ stores, i < commandSize) ∧ ∀ i ∈ nameStores, i < commandSize) ↔
            (typeKey text data).length < commandSize)) := by
  have hsize : 0 < commandSize := by decide
  unfold Shell.key typeKey
  by_cases henter : data = keyEnter
  · simp only [if_pos henter]
    have hshown : Typed { s with screen := s.screen.puts [] } text := ⟨h.index, h.buffer⟩
    obtain ⟨hbuffer, hstores, hexecuted, names, hnames, hle⟩ :=
      executeCommand_spec run hshown
    refine ⟨⟨rfl, .clear 0 _⟩, hexecuted, [0], names, ?_, hnames, fun hlt => ?_⟩
    · exact congrArg (· ++ [0]) hstores
    · refine ⟨fun _ => hsize, fun _ => ⟨by simp [hsize], fun i hi => ?_⟩⟩
      exact (hle i hi).trans_lt hlt
  · simp only [if_neg henter]
    by_cases hback : data = keyBackspace
    · simp only [if_pos hback]
      by_cases hempty : s.bufferIndex = 0
      · have hnil : text = [] := List.eq_nil_of_length_eq_zero (h.index.symm.trans hempty)
        subst hnil
        rw [if_pos hempty]
        refine ⟨h, by simp, [], [], by simp, by simp, fun _ => by simp [hsize]⟩
      · have hne : text ≠ [] := by
          rintro rfl
          exact hempty h.index
        have hlen : text.dropLast.length = text.length - 1 := List.length_dropLast
        rw [if_neg hempty]
        refine ⟨⟨?_, ?_⟩, by simp [store], [s.bufferIndex - 1], [], rfl, by simp [store],
          fun hlt => ?_⟩
        · show s.bufferIndex - 1 = _
          rw [h.index, hlen]
        · show Holds 0 (Function.update s.commandBuffer (s.bufferIndex - 1) 0) _
          rw [h.index]
          exact h.buffer.dropLast hne
        · have hidx := h.index
          simp only [List.mem_singleton, forall_eq, List.not_mem_nil, false_implies, implies_true,
            and_true]
          omega
    · simp only [if_neg hback]
      by_cases hzero : data ≠ 0
      · simp only [if_pos hzero]
        refine ⟨⟨?_, ?_⟩, by simp [store], [s.bufferIndex, s.bufferIndex + 1], [],
          by simp [store], by simp [store], fun hlt => ?_⟩
        · show s.bufferIndex + 1 = _
          rw [h.index, List.length_append, List.length_singleton]
        · show Holds 0 (Function.update (Function.update s.commandBuffer s.bufferIndex data)
            (s.bufferIndex + 1) 0) _
          rw [h.index]
          exact h.buffer.append hzero
        · have hidx := h.index
          simp only [List.forall_mem_cons, List.not_mem_nil, false_implies, implies_true,
            and_true, List.length_append, List.length_singleton]
          omega
      · simp only [if_neg hzero]
        refine ⟨⟨h.index, h.buffer⟩, by simp, [], [], by simp, by simp, fun hlt => ?_⟩
        simpa using hlt

/-- All stores stay inside the arrays, `commandBuffer` holds what has been typed since the last
Enter, with a NUL behind it, and each call of `executeCommand` has got the line typed before. -/
structure InputStays (s : Shell) (ks : List BYTE) : Prop where
  stores : ∀ i ∈ s.stores, i < commandSize
  nameStores : ∀ i ∈ s.nameStores, i < commandSize
  buffer : Holds 0 s.commandBuffer (typedLine ks)
  executed : List.Forall₂ (Holds 0) s.executed (enteredLines [] ks)

theorem keys_snoc (ks : List BYTE) (data : BYTE) :
    s.keys run (ks ++ [data]) = (s.keys run ks).key run data := by
  simp [keys]

theorem typedLine_snoc (ks : List BYTE) (data : BYTE) :
    typedLine (ks ++ [data]) = typeKey (typedLine ks) data := by
  simp [typedLine]

/-- Apart from the bounds the loop is right for all keys. -/
theorem keys_typed (screen : Screen) (stack : Bytes) (ks : List BYTE) :
    ((start screen stack).keys run ks).Typed (typedLine ks) ∧
      List.Forall₂ (Holds 0) ((start screen stack).keys run ks).executed (enteredLines [] ks) := by
  induction ks using List.reverseRecOn with
  | nil =>
    refine ⟨⟨rfl, fun i hi => ?_, by simp [typedLine]⟩, .nil⟩
    obtain rfl : i = 0 := by simpa [typedLine] using hi
    rfl
  | append_singleton ks data ih =>
    obtain ⟨htyped, hexecuted⟩ := ih
    obtain ⟨hnext, hlines, -⟩ := htyped.key run data
    rw [keys_snoc, typedLine_snoc, enteredLines_snoc, hlines]
    refine ⟨hnext, List.rel_append hexecuted ?_⟩
    split
    · exact .cons htyped.buffer .nil
    · exact .nil

/-- The stores of a sequence of keys are inside the arrays exactly if every line fits. -/
theorem keys_stores_iff (screen : Screen) (stack : Bytes) (ks : List BYTE) :
    ((∀ i ∈ ((start screen stack).keys run ks).stores, i < commandSize) ∧
        ∀ i ∈ ((start screen stack).keys run ks).nameStores, i < commandSize) ↔
      ∀ past, past <+: ks → (typedLine past).length < commandSize := by
  induction ks using List.reverseRecOn with
  | nil =>
    refine ⟨fun _ past hpast => ?_, fun _ => ⟨fun i hi => List.mem_range.mp hi, by
      simp [keys, start]⟩⟩
    obtain rfl := List.prefix_nil.mp hpast
    decide
  | append_singleton ks data ih =>
    obtain ⟨-, -, stores, names, hstores, hnames, hiff⟩ :=
      (keys_typed run screen stack ks).1.key run data
    rw [keys_snoc, hstores, hnames]
    simp only [List.forall_mem_append, List.prefix_concat_iff]
    constructor
    · rintro ⟨⟨hold, hnew⟩, holdn, hnewn⟩ past (rfl | hpast)
      · rw [typedLine_snoc]
        exact (hiff (ih.mp ⟨hold, holdn⟩ ks (List.prefix_refl ks))).mp ⟨hnew, hnewn⟩
      · exact ih.mp ⟨hold, holdn⟩ past hpast
    · intro hall
      have hpast := ih.mpr fun past hpast => hall past (.inr hpast)
      have hlast := hall _ (.inl rfl)
      rw [typedLine_snoc] at hlast
      have hlt := hall ks (.inr (List.prefix_refl ks))
      have hnew := (hiff hlt).mpr hlast
      exact ⟨⟨hpast.1, hnew.1⟩, hpast.2, hnew.2⟩

/-- Shell input stays in its buffers exactly as long as no line has more than 99 characters. -/
theorem input_stays_iff (run : Command → CString → Screen → Screen) (screen : Screen)
    (stack : Bytes) (ks : List BYTE) : InputStays ((start screen stack).keys run ks) ks ↔
      ∀ past, past <+: ks → (typedLine past).length < commandSize := by
  obtain ⟨htyped, hexecuted⟩ := keys_typed run screen stack ks
  rw [← keys_stores_iff run screen stack ks]
  exact ⟨fun h => ⟨h.stores, h.nameStores⟩, fun h => ⟨h.1, h.2, htyped.buffer, hexecuted⟩⟩

/-- The hundredth character of a line makes the NUL behind it miss the array. -/
theorem input_overflows : ¬ InputStays ((start ⟨0, fun _ => ⟨0, 0⟩⟩ fun _ => 0).keys
    (fun _ _ screen => screen) (List.replicate 100 0x61)) (List.replicate 100 0x61) := by
  intro h
  have hlines := (keys_stores_iff _ _ _ _).mp ⟨h.stores, h.nameStores⟩ _ (List.prefix_refl _)
  revert hlines
  decide +kernel

end Shell
end SkhuOS
