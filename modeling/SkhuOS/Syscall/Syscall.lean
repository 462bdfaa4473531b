import SkhuOS.Common.Print
import SkhuOS.Proc.System

/-! The system calls of `kernel/syscall/Syscall.c` and the routine of `common/Print.c` that
writes a character to a cell of the screen. -/
namespace SkhuOS
open Foundation

def syscallWriteXY : QWORD := 1
def syscallSleep : QWORD := 2
def syscallGetpid : QWORD := 3
def syscallExit : QWORD := 4
def syscallFail : QWORD := -1

/-- The kernel with the rest of the memory, the screen in it, and the cursor. -/
structure Machine where
  kernel : Kernel
  memory : Bytes
  currentPoint : DWORD

namespace Machine

variable (m : Machine)

def byte (a : ℕ) : BYTE :=
  if userMemoryBase ≤ a ∧ a < userMemoryEnd then m.kernel.userMemory a else m.memory a

def store (a : ℕ) (v : BYTE) : Machine :=
  if userMemoryBase ≤ a ∧ a < userMemoryEnd then
    { m with kernel := { m.kernel with userMemory := Function.update m.kernel.userMemory a v } }
  else { m with memory := Function.update m.memory a v }

def viewCharacterXY (ch : BYTE) (line x : ℤ) : Machine :=
  let videoMemory := videoMemoryAddr + line * oneLineSize + 2 * x
  if ch = backSpace then
    let m := m.store (videoMemory - oneCharSize).toNat 0
    { m with currentPoint := m.currentPoint - BitVec.ofNat 32 oneCharSize }
  else (m.store (videoMemory + 1).toNat 0x0A).store videoMemory.toNat ch

/-- The loop of `isUserString`, with `n` bytes left in the user area. The second component
lists the addresses it reads. -/
def scanString : ℕ → ℕ → Bool × List ℕ
  | 0, _ => (false, [])
  | n + 1, addr =>
    if m.byte addr = 0 then (true, [addr])
    else
      let (ok, reads) := scanString n (addr + 1)
      (ok, addr :: reads)

def isUserString (str : QWORD) : Bool × List ℕ :=
  if str.toNat < userMemoryBase ∨ str.toNat ≥ userMemoryEnd then (false, [])
  else m.scanString (userMemoryEnd - str.toNat) str.toNat

/-- The loop of `writeXY` from column `x` on, with `n` columns left in the line. The byte is
read before the column is compared. -/
def display (line : ℕ) : ℕ → ℕ → ℕ → Machine → Machine × List ℕ
  | 0, _, addr, m => (m, [addr])
  | n + 1, x, addr, m =>
    if m.byte addr = 0 then (m, [addr])
    else
      let (m, reads) := display line n (x + 1) (addr + 1) (m.viewCharacterXY (m.byte addr) line x)
      (m, addr :: reads)

def writeXY (line column str : QWORD) : QWORD × Machine × List ℕ :=
  if line.toNat ≥ lineCount ∨ column.toNat ≥ lineWidth then (syscallFail, m, [])
  else
    let (ok, reads) := m.isUserString str
    if !ok then (syscallFail, m, reads)
    else
      let (m, reads') :=
        display line.toNat (lineWidth - column.toNat) column.toNat str.toNat m
      (0, m, reads ++ reads')

/-- The value is `none` while the process does not come back from the call. -/
def dispatchSyscall (number arg1 arg2 arg3 : QWORD) (regs : ProcessContext) :
    Option QWORD × Machine × List ℕ :=
  if number = syscallWriteXY then
    let (value, m, reads) := m.writeXY arg1 arg2 arg3
    (some value, m, reads)
  else if number = syscallSleep then
    (none, { m with kernel := m.kernel.sleepProcess arg1 regs }, [])
  else if number = syscallGetpid then
    (some (BitVec.ofInt 64 m.kernel.getRunningPid), m, [])
  else if number = syscallExit then
    (none, { m with kernel := m.kernel.exitProcess regs }, [])
  else (some syscallFail, m, [])

end Machine

/-- What a process in ring 3 does between and in its calls. -/
inductive UserAction where
  | store (a : ℕ) (v : BYTE)
  | writeXY (line column str : QWORD) (regs : ProcessContext)

namespace Machine

/-- Page protection lets the process store in the user area only. -/
def step (m : Machine) : UserAction → Option Machine
  | .store a v => if userMemoryBase ≤ a ∧ a < userMemoryEnd then some (m.store a v) else none
  | .writeXY line column str regs =>
    some (m.dispatchSyscall syscallWriteXY line column str regs).2.1

/-- Both machines hold the same in the user area. -/
def UserAgree (m m' : Machine) : Prop :=
  ∀ a, userMemoryBase ≤ a → a < userMemoryEnd → m'.byte a = m.byte a

/-- Each byte is either left alone in both machines or the same behind the call. -/
structure SameEffect (m₁ m₂ m₁' m₂' : Machine) : Prop where
  byte : ∀ a, m₁'.byte a = m₂'.byte a ∨ m₁'.byte a = m₁.byte a ∧ m₂'.byte a = m₂.byte a
  cursor : m₁'.currentPoint - m₁.currentPoint = m₂'.currentPoint - m₂.currentPoint

/-- The bytes of the cells of a line from a column on. -/
def InLine (line column : QWORD) (a : ℕ) : Prop :=
  videoMemoryAddr + line.toNat * oneLineSize + oneCharSize * column.toNat ≤ a ∧
    a < videoMemoryAddr + (line.toNat + 1) * oneLineSize

/-- The call fails without effect or changes its part of the line only, it reads user
memory only, and nothing else matters to it. -/
structure Confined (m : Machine) (line column str : QWORD) (regs : ProcessContext) : Prop where
  outcome :
    (m.dispatchSyscall syscallWriteXY line column str regs).1 = some syscallFail ∧
        (m.dispatchSyscall syscallWriteXY line column str regs).2.1 = m ∨
      (m.dispatchSyscall syscallWriteXY line column str regs).1 = some 0 ∧
        (m.dispatchSyscall syscallWriteXY line column str regs).2.1.kernel = m.kernel ∧
        (m.dispatchSyscall syscallWriteXY line column str regs).2.1.currentPoint =
          m.currentPoint ∧
        ∀ a, ¬ InLine line column a →
          (m.dispatchSyscall syscallWriteXY line column str regs).2.1.byte a = m.byte a
  reads : ∀ a ∈ (m.dispatchSyscall syscallWriteXY line column str regs).2.2,
    userMemoryBase ≤ a ∧ a < userMemoryEnd
  depends : ∀ m' : Machine, m.UserAgree m' →
    (m'.dispatchSyscall syscallWriteXY line column str regs).1 =
        (m.dispatchSyscall syscallWriteXY line column str regs).1 ∧
      (m'.dispatchSyscall syscallWriteXY line column str regs).2.2 =
        (m.dispatchSyscall syscallWriteXY line column str regs).2.2 ∧
      SameEffect m m' (m.dispatchSyscall syscallWriteXY line column str regs).2.1
        (m'.dispatchSyscall syscallWriteXY line column str regs).2.1

/-- The characters before the end of the string, at most `n`. -/
def characters (m : Machine) : ℕ → ℕ → List BYTE
  | 0, _ => []
  | n + 1, addr => if m.byte addr = 0 then [] else m.byte addr :: characters m n (addr + 1)

/-- The call passes the checks. -/
def Accepts (m : Machine) (line column str : QWORD) : Prop :=
  line.toNat < lineCount ∧ column.toNat < lineWidth ∧ (m.isUserString str).1 = true

/-- The characters the call displays. -/
def displayed (m : Machine) (column str : QWORD) : List BYTE :=
  m.characters (lineWidth - column.toNat) str.toNat

/-- No back space among the characters of an accepted call. -/
def Plain (m : Machine) (line column str : QWORD) : Prop :=
  m.Accepts line column str → backSpace ∉ m.displayed column str

variable {m m' m₁ m₂ m₁' m₂' : Machine} {line x addr n N : ℕ} {ch : BYTE}

/-- The address of a cell of the screen. -/
def cell (line x : ℕ) : ℕ := videoMemoryAddr + line * oneLineSize + oneCharSize * x

theorem store_byte (m : Machine) (a : ℕ) (v : BYTE) (y : ℕ) :
    (m.store a v).byte y = if y = a then v else m.byte y := by
  simp only [byte, store]
  by_cases ha : userMemoryBase ≤ a ∧ a < userMemoryEnd
  · rw [if_pos ha]
    by_cases hy : y = a
    · simp [hy, ha]
    · simp [hy]
  · rw [if_neg ha]
    by_cases hy : y = a
    · simp [hy, ha]
    · simp [hy]

theorem store_currentPoint (m : Machine) (a : ℕ) (v : BYTE) :
    (m.store a v).currentPoint = m.currentPoint := by
  unfold store
  split <;> rfl

theorem store_kernel (m : Machine) {a : ℕ} (ha : a < userMemoryBase) (v : BYTE) :
    (m.store a v).kernel = m.kernel := by
  rw [store, if_neg (by omega)]

theorem viewCharacterXY_cell (m : Machine) (ch : BYTE) (line x : ℕ) :
    m.viewCharacterXY ch line x =
      if ch = backSpace then
        { m.store (cell line x - oneCharSize) 0 with
          currentPoint := m.currentPoint - BitVec.ofNat 32 oneCharSize }
      else (m.store (cell line x + 1) 0x0A).store (cell line x) ch := by
  have hcell : (videoMemoryAddr : ℤ) + (line : ℤ) * (oneLineSize : ℕ) + 2 * (x : ℤ) =
      (cell line x : ℕ) := by
    simp only [cell, oneCharSize]
    push_cast
    rfl
  simp only [viewCharacterXY, hcell, store_currentPoint, Int.toNat_sub]
  rfl

theorem cell_lt (hline : line < lineCount) (hx : x < lineWidth) :
    cell line x + 1 < userMemoryBase := by
  simp only [cell, lineCount, lineWidth, oneLineSize, oneCharSize, videoMemoryAddr,
    userMemoryBase] at *
  omega

/-- A plain character changes its cell only. -/
theorem viewCharacterXY_plain (hline : line < lineCount) (hx : x < lineWidth)
    (hch : ch ≠ backSpace) : (m.viewCharacterXY ch line x).kernel = m.kernel ∧
      (m.viewCharacterXY ch line x).currentPoint = m.currentPoint ∧
      ∀ a, a < cell line x ∨ cell line x + 1 < a →
        (m.viewCharacterXY ch line x).byte a = m.byte a := by
  have hlt := cell_lt hline hx
  rw [viewCharacterXY_cell, if_neg hch]
  refine ⟨?_, ?_, fun a ha => ?_⟩
  · rw [store_kernel _ (by omega), store_kernel _ hlt]
  · rw [store_currentPoint, store_currentPoint]
  · rw [store_byte, if_neg (by omega), store_byte, if_neg (by omega)]

theorem viewCharacterXY_currentPoint (m : Machine) (ch : BYTE) (line x : ℕ) :
    (m.viewCharacterXY ch line x).currentPoint =
      m.currentPoint - BitVec.ofNat 32 (oneCharSize * [ch].count backSpace) := by
  rw [viewCharacterXY_cell]
  split
  next h => simp [h]
  next h => simp [store_currentPoint, h]

/-- Whatever the character, the user area keeps its bytes. -/
theorem viewCharacterXY_agree (hline : line < lineCount) (hx : x < lineWidth) (ch : BYTE) :
    m.UserAgree (m.viewCharacterXY ch line x) := fun a ha _ => by
  have hlt := cell_lt hline hx
  rw [viewCharacterXY_cell]
  split
  · show (m.store _ 0).byte a = _
    rw [store_byte, if_neg (by omega)]
  · rw [store_byte, if_neg (by omega), store_byte, if_neg (by omega)]

theorem viewCharacterXY_sameEffect (m₁ m₂ : Machine) (ch : BYTE) (line x : ℕ) :
    SameEffect m₁ m₂ (m₁.viewCharacterXY ch line x) (m₂.viewCharacterXY ch line x) := by
  refine ⟨fun a => ?_, ?_⟩
  · rw [viewCharacterXY_cell, viewCharacterXY_cell]
    split
    · show (m₁.store _ 0).byte a = (m₂.store _ 0).byte a ∨
        (m₁.store _ 0).byte a = _ ∧ (m₂.store _ 0).byte a = _
      rw [store_byte, store_byte]
      split
      · exact .inl rfl
      · exact .inr ⟨rfl, rfl⟩
    · rw [store_byte, store_byte, store_byte, store_byte]
      split
      · exact .inl rfl
      · split
        · exact .inl rfl
        · exact .inr ⟨rfl, rfl⟩
  · rw [viewCharacterXY_currentPoint, viewCharacterXY_currentPoint]
    bv_omega

theorem UserAgree.trans {m'' : Machine} (h : m.UserAgree m') (h' : m'.UserAgree m'') :
    m.UserAgree m'' := fun a ha hlt => (h' a ha hlt).trans (h a ha hlt)

theorem SameEffect.trans {m₁'' m₂'' : Machine} (h : SameEffect m₁ m₂ m₁' m₂')
    (h' : SameEffect m₁' m₂' m₁'' m₂'') : SameEffect m₁ m₂ m₁'' m₂'' := by
  refine ⟨fun a => ?_, ?_⟩
  · rcases h'.byte a with hsame | ⟨h₁, h₂⟩
    · exact .inl hsame
    · rw [h₁, h₂]
      exact h.byte a
  · have hfirst := h.cursor
    have hsecond := h'.cursor
    bv_omega

theorem SameEffect.refl (m₁ m₂ : Machine) : SameEffect m₁ m₂ m₁ m₂ :=
  ⟨fun _ => .inr ⟨rfl, rfl⟩, by bv_omega⟩

/-- The string that starts at the address ends in the user area. -/
structure EndsInUser (m : Machine) (addr : ℕ) : Prop where
  base : userMemoryBase ≤ addr
  ends : ∃ k, addr + k < userMemoryEnd ∧ m.byte (addr + k) = 0

namespace EndsInUser

theorem lt (h : m.EndsInUser addr) : addr < userMemoryEnd := by
  obtain ⟨k, hk, -⟩ := h.ends
  omega

theorem agree (h : m.EndsInUser addr) (hagree : m.UserAgree m') : m'.EndsInUser addr := by
  obtain ⟨k, hk, hnul⟩ := h.ends
  exact ⟨h.base, k, hk, (hagree _ (le_add_right h.base) hk).trans hnul⟩

theorem next (h : m.EndsInUser addr) (hne : m.byte addr ≠ 0) : m.EndsInUser (addr + 1) := by
  obtain ⟨k, hk, hnul⟩ := h.ends
  cases k with
  | zero => exact absurd hnul hne
  | succ k => exact ⟨le_add_right h.base, k, by omega, by rwa [Nat.add_right_comm]⟩

end EndsInUser

theorem scanString_ends (m : Machine) (n addr : ℕ) (h : (m.scanString n addr).1 = true) :
    ∃ k < n, m.byte (addr + k) = 0 := by
  induction n generalizing addr with
  | zero => exact nomatch h
  | succ n ih =>
    simp only [scanString] at h
    split at h
    next hnul => exact ⟨0, Nat.succ_pos n, hnul⟩
    next =>
      obtain ⟨k, hk, hnul⟩ := ih (addr + 1) h
      exact ⟨k + 1, by omega, by rwa [Nat.add_comm k 1, ← Nat.add_assoc]⟩

theorem scanString_reads (m : Machine) (n addr : ℕ) :
    ∀ a ∈ (m.scanString n addr).2, addr ≤ a ∧ a < addr + n := by
  induction n generalizing addr with
  | zero => exact fun a ha => nomatch ha
  | succ n ih =>
    intro a ha
    simp only [scanString] at ha
    split at ha
    · rw [List.mem_singleton.mp ha]
      omega
    · rcases List.mem_cons.mp ha with rfl | ha
      · omega
      · have := ih (addr + 1) a ha
        omega

theorem scanString_agree (hagree : m.UserAgree m') (n addr : ℕ) (hbase : userMemoryBase ≤ addr)
    (hend : addr + n ≤ userMemoryEnd) : m'.scanString n addr = m.scanString n addr := by
  induction n generalizing addr with
  | zero => rfl
  | succ n ih =>
    simp only [scanString, hagree addr hbase (by omega), ih (addr + 1) (by omega) (by omega)]

theorem isUserString_ends {str : QWORD} (h : (m.isUserString str).1 = true) :
    m.EndsInUser str.toNat := by
  unfold isUserString at h
  split at h
  next => exact nomatch h
  next hin =>
    obtain ⟨k, hk, hnul⟩ := scanString_ends m _ _ h
    exact ⟨by omega, k, by omega, hnul⟩

theorem isUserString_reads (m : Machine) (str : QWORD) :
    ∀ a ∈ (m.isUserString str).2, userMemoryBase ≤ a ∧ a < userMemoryEnd := by
  intro a ha
  unfold isUserString at ha
  split at ha
  next => exact nomatch ha
  next hin =>
    have := scanString_reads m _ _ a ha
    omega

theorem isUserString_agree (hagree : m.UserAgree m') (str : QWORD) :
    m'.isUserString str = m.isUserString str := by
  unfold isUserString
  split
  · rfl
  · exact scanString_agree hagree _ _ (by omega) (by omega)

section Display

variable (hline : line < lineCount) (hx : x + n ≤ lineWidth)
include hline hx

/-- Displaying leaves the user area alone and stays within the string. -/
theorem display_reads (h : m.EndsInUser addr) : m.UserAgree (display line n x addr m).1 ∧
    ∀ a ∈ (display line n x addr m).2, userMemoryBase ≤ a ∧ a < userMemoryEnd := by
  have hread (a : ℕ) (ha : a ∈ [addr]) : userMemoryBase ≤ a ∧ a < userMemoryEnd := by
    rw [List.mem_singleton.mp ha]
    exact ⟨h.base, h.lt⟩
  induction n generalizing x addr m with
  | zero => exact ⟨fun _ _ _ => rfl, hread⟩
  | succ n ih =>
    simp only [display]
    split
    · exact ⟨fun _ _ _ => rfl, hread⟩
    next hne =>
      have hagree := viewCharacterXY_agree (m := m) hline (by omega : x < lineWidth) (m.byte addr)
      have hnext := (h.next hne).agree hagree
      obtain ⟨hlater, hreads⟩ := ih (x := x + 1) (by omega) hnext fun a ha => by
        rw [List.mem_singleton.mp ha]
        exact ⟨hnext.base, hnext.lt⟩
      refine ⟨hagree.trans hlater, fun a ha => ?_⟩
      rcases List.mem_cons.mp ha with rfl | ha
      · exact ⟨h.base, h.lt⟩
      · exact hreads a ha

/-- The effect depends on the user area only. -/
theorem display_sameEffect (h : m₁.EndsInUser addr) (hagree : m₁.UserAgree m₂) :
    (display line n x addr m₂).2 = (display line n x addr m₁).2 ∧
      SameEffect m₁ m₂ (display line n x addr m₁).1 (display line n x addr m₂).1 := by
  induction n generalizing x addr m₁ m₂ with
  | zero => exact ⟨rfl, .refl m₁ m₂⟩
  | succ n ih =>
    have hbyte := hagree addr h.base h.lt
    simp only [display, hbyte]
    split
    · exact ⟨rfl, .refl m₁ m₂⟩
    next hne =>
      have hview (m : Machine) := viewCharacterXY_agree (m := m) hline (by omega : x < lineWidth)
        (m₁.byte addr)
      have hagree' : (m₁.viewCharacterXY (m₁.byte addr) line x).UserAgree
          (m₂.viewCharacterXY (m₁.byte addr) line x) := fun a ha hlt => by
        rw [hview m₂ a ha hlt, hview m₁ a ha hlt, hagree a ha hlt]
      obtain ⟨hreads, heffect⟩ := ih (x := x + 1) (by omega) ((h.next hne).agree (hview m₁)) hagree'
      exact ⟨congrArg (addr :: ·) hreads,
        (viewCharacterXY_sameEffect m₁ m₂ _ line x).trans heffect⟩

omit hline hx in
theorem characters_agree (h : m.EndsInUser addr) (hagree : m.UserAgree m') (n : ℕ) :
    m'.characters n addr = m.characters n addr := by
  induction n generalizing addr with
  | zero => rfl
  | succ n ih =>
    simp only [characters, hagree addr h.base h.lt]
    split
    · rfl
    next hne => rw [ih (h.next hne)]

/-- Each back space takes the cursor one cell back. -/
theorem display_currentPoint (h : m.EndsInUser addr) :
    (display line n x addr m).1.currentPoint = m.currentPoint -
      BitVec.ofNat 32 (oneCharSize * (m.characters n addr).count backSpace) := by
  induction n generalizing x addr m with
  | zero => simp [display, characters]
  | succ n ih =>
    simp only [display, characters]
    split
    · simp
    next hne =>
      have hagree := viewCharacterXY_agree (m := m) hline (by omega : x < lineWidth) (m.byte addr)
      have hnext := h.next hne
      rw [ih (x := x + 1) (by omega) (hnext.agree hagree), characters_agree hnext hagree,
        viewCharacterXY_currentPoint, BitVec.sub_sub, ← BitVec.ofNat_add, ← Nat.mul_add,
        ← List.count_append, List.singleton_append]

/-- Without a back space only the cells of the line from the first column on change. -/
theorem display_plain (h : m.EndsInUser addr) (hplain : backSpace ∉ m.characters n addr) :
    (display line n x addr m).1.kernel = m.kernel ∧
      ∀ a, a < cell line x ∨ videoMemoryAddr + (line + 1) * oneLineSize ≤ a →
        (display line n x addr m).1.byte a = m.byte a := by
  induction n generalizing x addr m with
  | zero => exact ⟨rfl, fun _ _ => rfl⟩
  | succ n ih =>
    simp only [display]
    simp only [characters] at hplain
    split
    · exact ⟨rfl, fun _ _ => rfl⟩
    next hne =>
      rw [if_neg hne] at hplain
      have hagree := viewCharacterXY_agree (m := m) hline (by omega : x < lineWidth) (m.byte addr)
      have hnext := h.next hne
      obtain ⟨hkernel, -, hbyte⟩ := viewCharacterXY_plain (m := m) hline
        (by omega : x < lineWidth) (List.ne_of_not_mem_cons hplain).symm
      obtain ⟨hkernel', hbyte'⟩ := ih (x := x + 1) (by omega) (hnext.agree hagree) (by
        rw [characters_agree hnext hagree]
        exact List.not_mem_of_not_mem_cons hplain)
      refine ⟨hkernel'.trans hkernel, fun a ha => ?_⟩
      have hcell : cell line x + oneCharSize = cell line (x + 1) := by
        simp only [cell]
        ring
      have hlast : cell line x + 1 < videoMemoryAddr + (line + 1) * oneLineSize := by
        simp only [cell, lineWidth, oneLineSize, oneCharSize] at *
        omega
      simp only [oneCharSize] at hcell
      rw [hbyte' a (by omega), hbyte a (by omega)]

end Display

theorem characters_length (m : Machine) (n addr : ℕ) : (m.characters n addr).length ≤ n := by
  induction n generalizing addr with
  | zero => exact le_rfl
  | succ n ih =>
    simp only [characters]
    split
    · exact Nat.zero_le _
    · exact Nat.succ_le_succ (ih (addr + 1))

variable {column str : QWORD} {lineArg : QWORD}

theorem writeXY_accepted (h : m.Accepts lineArg column str) : m.writeXY lineArg column str =
    (0, (display lineArg.toNat (lineWidth - column.toNat) column.toNat str.toNat m).1,
      (m.isUserString str).2 ++
        (display lineArg.toNat (lineWidth - column.toNat) column.toNat str.toNat m).2) := by
  obtain ⟨hline, hcolumn, hok⟩ := h
  simp only [writeXY]
  rw [if_neg (by omega), hok]
  rfl

theorem writeXY_rejected (h : ¬ m.Accepts lineArg column str) :
    (m.writeXY lineArg column str).1 = syscallFail ∧
      (m.writeXY lineArg column str).2.1 = m ∧
      ∀ a ∈ (m.writeXY lineArg column str).2.2, userMemoryBase ≤ a ∧ a < userMemoryEnd := by
  simp only [writeXY]
  split
  next => exact ⟨rfl, rfl, fun a ha => nomatch ha⟩
  next hin =>
    have hno : (m.isUserString str).1 = false :=
      Bool.eq_false_iff.mpr fun hok => h ⟨by omega, by omega, hok⟩
    rw [hno]
    exact ⟨rfl, rfl, isUserString_reads m str⟩

theorem accepts_agree (hagree : m.UserAgree m') :
    m'.Accepts lineArg column str ↔ m.Accepts lineArg column str := by
  rw [Accepts, Accepts, isUserString_agree hagree]

theorem writeXY_depends (lineArg column str : QWORD) (hagree : m.UserAgree m') :
    (m'.writeXY lineArg column str).1 = (m.writeXY lineArg column str).1 ∧
      (m'.writeXY lineArg column str).2.2 = (m.writeXY lineArg column str).2.2 ∧
      SameEffect m m' (m.writeXY lineArg column str).2.1 (m'.writeXY lineArg column str).2.1 := by
  by_cases hacc : m.Accepts lineArg column str
  · obtain ⟨hreads, heffect⟩ := display_sameEffect hacc.1
      (by have := hacc.2.1; omega : column.toNat + (lineWidth - column.toNat) ≤ lineWidth)
      (isUserString_ends hacc.2.2) hagree
    rw [writeXY_accepted hacc, writeXY_accepted ((accepts_agree hagree).mpr hacc),
      isUserString_agree hagree, hreads]
    exact ⟨rfl, rfl, heffect⟩
  · have hrej := writeXY_rejected hacc
    have hrej' := writeXY_rejected fun hacc' => hacc ((accepts_agree hagree).mp hacc')
    refine ⟨hrej'.1.trans hrej.1.symm, ?_, ?_⟩
    · simp only [writeXY, isUserString_agree hagree]
      split
      · rfl
      next hin =>
        have hno : (m.isUserString str).1 = false :=
          Bool.eq_false_iff.mpr fun hok => hacc ⟨by omega, by omega, hok⟩
        simp [hno]
    · rw [hrej.2.1, hrej'.2.1]
      exact .refl m m'

/-- One call is confined exactly when it displays no back space. -/
theorem confined_iff (m : Machine) (line column str : QWORD) (regs : ProcessContext) :
    m.Confined line column str regs ↔ m.Plain line column str := by
  have hcall : m.dispatchSyscall syscallWriteXY line column str regs =
      (some (m.writeXY line column str).1, (m.writeXY line column str).2) := rfl
  have hdepends (m' : Machine) (hagree : m.UserAgree m') :=
    writeXY_depends line column str hagree
  by_cases hacc : m.Accepts line column str
  · have hcolumn : column.toNat + (lineWidth - column.toNat) ≤ lineWidth := by
      have := hacc.2.1
      omega
    have hends := isUserString_ends hacc.2.2
    have hcursor := display_currentPoint hacc.1 hcolumn hends
    constructor
    · -- a back space moves the cursor
      intro hconf _ hmem
      have houtcome := hconf.outcome
      rw [hcall, writeXY_accepted hacc] at houtcome
      rcases houtcome with ⟨hfail, -⟩ | ⟨-, -, hsame, -⟩
      · have hvalue : (0 : QWORD) = syscallFail := Option.some.inj hfail
        exact absurd hvalue (by decide)
      · dsimp only at hsame
        rw [hcursor] at hsame
        have hpos := List.count_pos_iff.mpr hmem
        have hle := (List.count_le_length (a := backSpace)).trans
          (m.characters_length (lineWidth - column.toNat) str.toNat)
        have hwidth : lineWidth - column.toNat ≤ 80 := Nat.sub_le _ _
        simp only [displayed, oneCharSize] at hpos hle hsame
        bv_omega
    · intro hplain
      obtain ⟨hkernel, hbyte⟩ := display_plain hacc.1 hcolumn hends (hplain hacc)
      refine ⟨?_, ?_, fun m' hagree => ?_⟩
      · rw [hcall, writeXY_accepted hacc]
        refine .inr ⟨rfl, hkernel, ?_, fun a ha => hbyte a ?_⟩
        · dsimp only
          have hnone : (m.characters (lineWidth - column.toNat) str.toNat).count backSpace = 0 :=
            List.count_eq_zero_of_not_mem (hplain hacc)
          rw [hcursor, hnone]
          simp
        · rw [InLine, not_and_or, not_le, not_lt] at ha
          exact ha
      · rw [hcall, writeXY_accepted hacc]
        intro a ha
        rcases List.mem_append.mp ha with ha | ha
        · exact isUserString_reads m str a ha
        · exact (display_reads hacc.1 hcolumn hends).2 a ha
      · obtain ⟨hvalue, hreads, heffect⟩ := hdepends m' hagree
        exact ⟨congrArg some hvalue, hreads, heffect⟩
  · obtain ⟨hvalue, hstate, hreads⟩ := writeXY_rejected hacc
    refine iff_of_true ⟨?_, ?_, fun m' hagree => ?_⟩ fun h => absurd h hacc
    · rw [hcall]
      exact .inl ⟨congrArg some hvalue, hstate⟩
    · rw [hcall]
      exact hreads
    · obtain ⟨hvalue', hreads', heffect⟩ := hdepends m' hagree
      exact ⟨congrArg some hvalue', hreads', heffect⟩

/-- The user area keeps its bytes in every call. -/
theorem writeXY_agree (m : Machine) (line column str : QWORD) :
    m.UserAgree (m.writeXY line column str).2.1 := by
  by_cases hacc : m.Accepts line column str
  · rw [writeXY_accepted hacc]
    exact (display_reads hacc.1 (by have := hacc.2.1; omega) (isUserString_ends hacc.2.2)).1
  · rw [(writeXY_rejected hacc).2.1]
    exact fun _ _ _ => rfl

end Machine

namespace UserAction

/-- The call an action makes is plain. -/
def Plain (m : Machine) : UserAction → Prop
  | .store _ _ => True
  | .writeXY line column str _ => m.Plain line column str

/-- It is confined. -/
def Confined (m : Machine) : UserAction → Prop
  | .store _ _ => True
  | .writeXY line column str regs => m.Confined line column str regs

/-- The part of the screen an action may change. -/
def Covers (a : ℕ) : UserAction → Prop
  | .store _ _ => False
  | .writeXY line column _ _ => Machine.InLine line column a

/-- What the process gets back from it. -/
def answer (m : Machine) : UserAction → Option QWORD
  | .store _ _ => none
  | .writeXY line column str regs =>
    (m.dispatchSyscall syscallWriteXY line column str regs).1

end UserAction

namespace Machine

variable {m m' m₁ m₂ : Machine} {action : UserAction} {history : List (Move Machine UserAction)}

/-- Nothing changed but the user area and the cells the actions cover. -/
structure Framed (m m' : Machine) (actions : List UserAction) : Prop where
  kernel : ∀ w, { m'.kernel with userMemory := w } = { m.kernel with userMemory := w }
  cursor : m'.currentPoint = m.currentPoint
  byte : ∀ a, ¬ (userMemoryBase ≤ a ∧ a < userMemoryEnd) → (∀ action ∈ actions, ¬ action.Covers a) →
    m'.byte a = m.byte a

theorem step_framed (hplain : action.Plain m) (hstep : m.step action = some m') :
    Framed m m' [action] := by
  cases action with
  | store a v =>
    simp only [step, Option.ite_none_right_eq_some, Option.some.injEq] at hstep
    obtain ⟨ha, rfl⟩ := hstep
    refine ⟨fun w => ?_, store_currentPoint m a v, fun x hx _ => ?_⟩
    · rw [store, if_pos ha]
    · rw [store_byte, if_neg fun he : x = a => hx (he ▸ ha)]
  | writeXY line column str regs =>
    cases hstep
    rcases ((confined_iff m line column str regs).mpr hplain).outcome with
      ⟨-, hsame⟩ | ⟨-, hkernel, hcursor, hbyte⟩
    · rw [hsame]
      exact ⟨fun _ => rfl, rfl, fun _ _ _ => rfl⟩
    · exact ⟨fun w => by rw [hkernel], hcursor,
        fun a _ ha => hbyte a (ha _ (List.mem_singleton_self _))⟩

/-- Two machines with the same user area answer alike and change alike. -/
theorem step_depends (hagree : m₁.UserAgree m₂) (hstep : m₁.step action = some m') :
    ∃ m₂', m₂.step action = some m₂' ∧ m'.UserAgree m₂' ∧
      action.answer m₂ = action.answer m₁ ∧ SameEffect m₁ m₂ m' m₂' := by
  cases action with
  | store a v =>
    simp only [step, Option.ite_none_right_eq_some, Option.some.injEq] at hstep
    obtain ⟨ha, rfl⟩ := hstep
    refine ⟨m₂.store a v, if_pos ha, fun x hx hlt => ?_, rfl, fun x => ?_, ?_⟩
    · rw [store_byte, store_byte, hagree x hx hlt]
    · rw [store_byte, store_byte]
      split
      · exact .inl rfl
      · exact .inr ⟨rfl, rfl⟩
    · rw [store_currentPoint, store_currentPoint]
      bv_omega
  | writeXY line column str regs =>
    cases hstep
    obtain ⟨hvalue, -, heffect⟩ :=
      writeXY_depends line column str hagree
    refine ⟨_, rfl, fun a ha hlt => ?_, congrArg some hvalue, heffect⟩
    exact (writeXY_agree m₂ line column str a ha hlt).trans
      ((hagree a ha hlt).trans (writeXY_agree m₁ line column str a ha hlt).symm)

/-- All calls are confined, nothing changes but the user area and the lines written to, and
a machine with the same user area goes through the same sequence with the same answers. -/
structure SequenceConfined (m : Machine) (history : List (Move Machine UserAction))
    (m' : Machine) : Prop where
  calls : ∀ move ∈ history, move.label.Confined move.before
  framed : Framed m m' (history.map Move.label)
  depends : ∀ m₂, m.UserAgree m₂ → ∃ history₂ m₂', Run step anyStep m₂ history₂ m₂' ∧
    history₂.map Move.label = history.map Move.label ∧
    (history₂.map fun move => move.label.answer move.before) =
      (history.map fun move => move.label.answer move.before) ∧
    SameEffect m m₂ m' m₂'

theorem run_framed (hrun : Run step anyStep m history m')
    (hplain : ∀ move ∈ history, move.label.Plain move.before) :
    Framed m m' (history.map Move.label) := by
  refine hrun.history_invariant (P := fun past t =>
    (∀ move ∈ past, move.label.Plain move.before) → Framed m t (past.map Move.label))
    (fun _ => ⟨fun _ => rfl, rfl, fun _ _ _ => rfl⟩) (fun past t a u _ ih _ hstep hall => ?_) hplain
  have hpast := ih fun move hm => hall move (List.mem_append_left _ hm)
  have hlast := step_framed (hall ⟨t, a, u⟩ (by simp)) hstep
  refine ⟨fun w => (hlast.kernel w).trans (hpast.kernel w), hlast.cursor.trans hpast.cursor,
    fun x hx hout => ?_⟩
  have hout' (action : UserAction) (hmem : action ∈ past.map Move.label ++ [a]) :
      ¬ action.Covers x := hout action (by simpa using hmem)
  exact (hlast.byte x hx fun action hm => hout' action (List.mem_append_right _ hm)).trans
    (hpast.byte x hx fun action hm => hout' action (List.mem_append_left _ hm))

theorem run_depends (hrun : Run step anyStep m history m') (hagree : m.UserAgree m₂) :
    ∃ history₂ m₂', Run step anyStep m₂ history₂ m₂' ∧ m'.UserAgree m₂' ∧
      history₂.map Move.label = history.map Move.label ∧
      (history₂.map fun move => move.label.answer move.before) =
        (history.map fun move => move.label.answer move.before) ∧
      SameEffect m m₂ m' m₂' := by
  refine hrun.history_invariant (P := fun past t => ∃ past₂ t₂, Run step anyStep m₂ past₂ t₂ ∧
    t.UserAgree t₂ ∧ past₂.map Move.label = past.map Move.label ∧
      (past₂.map fun move => move.label.answer move.before) =
        (past.map fun move => move.label.answer move.before) ∧ SameEffect m m₂ t t₂)
    ⟨[], m₂, .start, hagree, rfl, rfl, .refl m m₂⟩ ?_
  rintro past t a u - ⟨past₂, t₂, hrun₂, hagree, hlabels, hanswers, heffect⟩ - hstep
  obtain ⟨u₂, hstep₂, hagree', hanswer, heffect'⟩ := step_depends hagree hstep
  refine ⟨_, u₂, .next hrun₂ trivial hstep₂, hagree', ?_, ?_, heffect.trans heffect'⟩
  · simp [hlabels]
  · simp [hanswers, hanswer]

/-- A sequence of actions of a process is confined exactly when no call displays a back
space. -/
theorem writes_confined_iff (hrun : Run step anyStep m history m') :
    SequenceConfined m history m' ↔ ∀ move ∈ history, move.label.Plain move.before := by
  have hcall (action : UserAction) (m : Machine) : action.Confined m ↔ action.Plain m := by
    cases action with
    | store _ _ => exact Iff.rfl
    | writeXY line column str regs => exact confined_iff m line column str regs
  refine ⟨fun h move hmove => (hcall _ _).mp (h.calls move hmove), fun h => ?_⟩
  refine ⟨fun move hmove => (hcall _ _).mpr (h move hmove), run_framed hrun h, fun m₂ hagree => ?_⟩
  obtain ⟨history₂, m₂', hrun₂, -, hrest⟩ := run_depends hrun hagree
  exact ⟨history₂, m₂', hrun₂, hrest⟩

/-- A machine whose memory holds ones, with a back space in the user area. -/
def backSpaceAtBase : Machine where
  kernel := { Boot.zero.start with
    userMemory := Function.update (fun _ => 0) userMemoryBase backSpace }
  memory := fun _ => 1
  currentPoint := BitVec.ofNat 32 videoMemoryAddr

def backSpaceCall : UserAction := .writeXY 0 0 (BitVec.ofNat 64 userMemoryBase) fun _ => 0

def afterBackSpace : Machine :=
  (backSpaceAtBase.dispatchSyscall syscallWriteXY 0 0 (BitVec.ofNat 64 userMemoryBase)
    fun _ => 0).2.1

def backSpaceHistory : List (Move Machine UserAction) :=
  [⟨backSpaceAtBase, backSpaceCall, afterBackSpace⟩]

theorem back_space_run : Run step anyStep backSpaceAtBase backSpaceHistory afterBackSpace :=
  .next .start trivial rfl

theorem writes_confined_iff_back_space :
    SequenceConfined backSpaceAtBase backSpaceHistory afterBackSpace ↔
      ∀ move ∈ backSpaceHistory, move.label.Plain move.before :=
  writes_confined_iff back_space_run

/-- The back space in the first cell moves the cursor and clears a byte before the screen. -/
theorem back_space_escapes :
    Run step anyStep backSpaceAtBase backSpaceHistory afterBackSpace ∧
    afterBackSpace.currentPoint ≠ backSpaceAtBase.currentPoint ∧
    backSpaceAtBase.byte (videoMemoryAddr - 2) = 1 ∧
    afterBackSpace.byte (videoMemoryAddr - 2) = 0 ∧
    ¬ SequenceConfined backSpaceAtBase backSpaceHistory afterBackSpace := by
  have hcursor : afterBackSpace.currentPoint ≠ backSpaceAtBase.currentPoint := by
    decide +kernel
  exact ⟨back_space_run, hcursor, by decide +kernel, by decide +kernel,
    fun h => hcursor h.framed.cursor⟩

end Machine
end SkhuOS
