import SkhuOS.Arch.Instruction
import SkhuOS.Proc.Process

/-! `arch/ContextSwitching.asm` and the stubs of `arch/Handler.asm`, and the layout of the 24
words that they save registers to and load them from. -/
namespace SkhuOS
open Foundation

/-- The instructions that `SAVEREG` has in both files. -/
def pushRegisters : List Instr :=
  [Gpr.r15, .r14, .r13, .r12, .r11, .r10, .r9, .r8, .rbp, .rdi, .rsi, .rdx, .rcx, .rbx, .rax].map
    .push ++
  [.movAxSeg .ds, .push .rax, .movAxSeg .es, .push .rax, .pushSeg .fs, .pushSeg .gs]

/-- Those of `LOADLEG` in the one file and `LOADREG` in the other. -/
def popRegisters : List Instr :=
  [.popSeg .gs, .popSeg .fs, .pop .rax, .movSegAx .es, .pop .rax, .movSegAx .ds,
    .pop .rax, .pop .rbx, .pop .rcx, .pop .rdx, .pop .rsi, .pop .rdi, .pop .rbp, .pop .r8, .pop .r9,
    .pop .r10, .pop .r11, .pop .r12, .pop .r13, .pop .r14, .pop .r15]

namespace ContextSwitching

def saveReg : List Instr := pushRegisters

def loadLeg : List Instr := popRegisters

/-- Up to the test for a null `current`. -/
def compareCurrent : List Instr :=
  [.push .rbp, .mov .rbp .rsp, .pushfq, .cmp .rdi 0]

/-- The slots that `SAVEREG` does not fill, and the end of the others as the stack. -/
def saveFrame : List Instr :=
  [.popfq, .push .rax,
    .movAxSeg .ss, .store .rdi (8 * 23) .rax,
    .mov .rax .rbp, .add .rax 16, .store .rdi (8 * 22) .rax,
    .pushfq, .pop .rax, .store .rdi (8 * 21) .rax,
    .movAxSeg .cs, .store .rdi (8 * 20) .rax,
    .load .rax .rbp 8, .store .rdi (8 * 19) .rax,
    .pop .rax, .pop .rbp,
    .add .rdi (19 * 8), .mov .rsp .rdi, .sub .rdi (19 * 8)]

def loadContext : List Instr := .mov .rsp .rsi :: loadLeg ++ [.iretq]

def switchContext (c : Core) : Core :=
  let c := execAll c compareCurrent
  -- `je loadContext`
  if c.regs.rflags &&& rflagsZF ≠ 0 then execAll c loadContext
  else execAll c (saveFrame ++ saveReg ++ loadContext)

end ContextSwitching

namespace Handler

def saveReg : List Instr :=
  pushRegisters ++ [.movAx 0x08, .movSegAx .ds, .movSegAx .es, .movSegAx .gs, .movSegAx .fs]

def loadReg : List Instr := popRegisters

/-- The stub of a vector up to the call of `dispatchInterrupt` and behind it. -/
def isrEntry (vector : QWORD) : List Instr := saveReg ++ [.movImm .rdi vector]

def isrExit : List Instr := loadReg ++ [.iretq]

/-- The stub of the system calls up to the call of `dispatchSyscall` and behind it. -/
def syscallEntry : List Instr :=
  saveReg ++ [.load .rdi .rsp (4 * 8), .load .rsi .rsp (9 * 8), .load .rdx .rsp (8 * 8),
    .load .rcx .rsp (7 * 8)]

def syscallExit : List Instr := .store .rsp (4 * 8) .rax :: loadReg ++ [.iretq]

end Handler

/-- The 24 words from address `a` on. -/
def readContext (m : Bytes) (a : ℕ) : ProcessContext := fun i => readQword m (a + 8 * i)

/-- The words of `REG_GS` to `REG_R15`, as they are saved. The words of DS and ES keep the rest
of RAX. -/
def savedRegisters (r : Registers) : List QWORD :=
  let ds := withAx (r.gpr .rax) (r.seg .ds)
  [(r.seg .gs).setWidth 64, (r.seg .fs).setWidth 64, withAx ds (r.seg .es), ds, r.gpr .rax,
    r.gpr .rbx, r.gpr .rcx, r.gpr .rdx, r.gpr .rsi, r.gpr .rdi, r.gpr .rbp, r.gpr .r8, r.gpr .r9,
    r.gpr .r10, r.gpr .r11, r.gpr .r12, r.gpr .r13, r.gpr .r14, r.gpr .r15]

/-- All words as an interrupt saves them. -/
def interruptContext (r : Registers) : ProcessContext := fun i =>
  (savedRegisters r ++ [r.rip, (r.seg .cs).setWidth 64, r.rflags, r.gpr .rsp,
    (r.seg .ss).setWidth 64]).getD i 0

/-- The registers that are loaded from the words. -/
def loadedRegisters (context : ProcessContext) : Registers :=
  Registers.dropSegments
    { gpr := fun
        | .rax => context regRAX | .rbx => context regRBX | .rcx => context regRCX
        | .rdx => context regRDX | .rsi => context regRSI | .rdi => context regRDI
        | .rbp => context regRBP | .rsp => context regRSP | .r8 => context regR8
        | .r9 => context regR9 | .r10 => context regR10 | .r11 => context regR11
        | .r12 => context regR12 | .r13 => context regR13 | .r14 => context regR14
        | .r15 => context regR15
      seg := fun
        | .cs => (context regCS).setWidth 16 | .ss => (context regSS).setWidth 16
        | .ds => (context regDS).setWidth 16 | .es => (context regES).setWidth 16
        | .fs => (context regFS).setWidth 16 | .gs => (context regGS).setWidth 16
      rip := context regRIP
      rflags := context regRFLAGS }

namespace Core

/-- The core with the stack at `a`. -/
def atStack (c : Core) (a : ℕ) : Core := c.setGpr .rsp (BitVec.ofNat 64 a)

variable {c : Core} {a : ℕ}

theorem atStack_rsp (c : Core) (h : c.rsp = BitVec.ofNat 64 a) : c = c.atStack a := by
  unfold atStack setGpr
  rw [← h, rsp, Registers.setGpr_same]

theorem atStack_top (h : a < 2 ^ 64) : (c.atStack a).top = readQword c.memory a := by
  have hrsp : (c.atStack a).rsp = BitVec.ofNat 64 a := Registers.setGpr_self _ _
  have hmemory : (c.atStack a).memory = c.memory := rfl
  rw [top, hrsp, hmemory, BitVec.toNat_ofNat, Nat.mod_eq_of_lt h]

theorem atStack_drop (c : Core) (a : ℕ) : (c.atStack a).drop = c.atStack (a + 8) := by
  have hrsp : (c.atStack a).rsp + 8 = BitVec.ofNat 64 (a + 8) := by
    rw [rsp, atStack, setGpr, Registers.setGpr_self, BitVec.ofNat_add]
    rfl
  unfold drop
  rw [hrsp]
  unfold atStack setGpr
  rw [Registers.setGpr_setGpr]

theorem atStack_setGpr {g : Gpr} (h : g ≠ .rsp) (v : QWORD) :
    (c.atStack a).setGpr g v = (c.setGpr g v).atStack a := by
  unfold atStack setGpr Registers.setGpr
  dsimp only
  rw [Function.update_comm h]

theorem atStack_setSeg (s : Seg) (v : WORD) :
    (c.atStack a).setSeg s v = (c.setSeg s v).atStack a := rfl

theorem atStack_gpr {g : Gpr} (h : g ≠ .rsp) : (c.atStack a).regs.gpr g = c.regs.gpr g :=
  Registers.setGpr_of_ne _ _ h

theorem exec_pop (ha : a < 2 ^ 64) {g : Gpr} (h : g ≠ .rsp) :
    exec (c.atStack a) (.pop g) = (c.setGpr g (readQword c.memory a)).atStack (a + 8) := by
  unfold exec
  dsimp only
  rw [atStack_drop, atStack_top ha, atStack_setGpr h]

theorem exec_popSeg (ha : a < 2 ^ 64) (s : Seg) : exec (c.atStack a) (.popSeg s) =
    (c.setSeg s ((readQword c.memory a).setWidth 16)).atStack (a + 8) := by
  unfold exec
  dsimp only
  rw [atStack_drop, atStack_top ha, atStack_setSeg]

theorem exec_movSegAx (s : Seg) : exec (c.atStack a) (.movSegAx s) =
    (c.setSeg s ((c.regs.gpr .rax).setWidth 16)).atStack a := by
  unfold exec
  dsimp only
  rw [atStack_gpr (by decide), atStack_setSeg]

theorem exec_iretq (ha : a + 40 ≤ 2 ^ 64) : exec (c.atStack a) .iretq =
    { regs := Registers.dropSegments
        { gpr := Function.update c.regs.gpr .rsp (readQword c.memory (a + 24))
          seg := Function.update (Function.update c.regs.seg .cs
            ((readQword c.memory (a + 8)).setWidth 16)) .ss
            ((readQword c.memory (a + 32)).setWidth 16)
          rip := readQword c.memory a
          rflags := readQword c.memory (a + 16) }
      memory := c.memory } := by
  unfold exec iretq
  dsimp only
  have hrip (v : QWORD) (c : Core) (b : ℕ) : (c.atStack b).setRip v = (c.setRip v).atStack b := rfl
  have hflags (v : QWORD) (c : Core) (b : ℕ) :
      (c.atStack b).setFlags v = (c.setFlags v).atStack b := rfl
  rw [atStack_top (by omega), atStack_drop, hrip, atStack_top (by omega), atStack_drop, atStack_setSeg,
    atStack_top (by omega), atStack_drop, hflags, atStack_top (by omega), atStack_drop,
    atStack_top (by omega)]
  unfold atStack setGpr setSeg setFlags setRip
  simp only [Registers.setGpr, Registers.setSeg, Function.update_idem]


theorem push_setGpr {g : Gpr} (h : g ≠ .rsp) (v w : QWORD) :
    (c.setGpr g v).push w = (c.push w).setGpr g v := by
  have hrsp : (c.setGpr g v).rsp = c.rsp := Registers.setGpr_of_ne _ _ h.symm
  have hcomm : Function.update (Function.update c.regs.gpr g v) .rsp (c.rsp - 8) =
      Function.update (Function.update c.regs.gpr .rsp (c.rsp - 8)) g v :=
    Function.update_comm h _ _ _
  unfold push
  rw [hrsp]
  unfold setGpr Registers.setGpr
  dsimp only
  rw [hcomm]

end Core

/-- Both load paths: the 24 words from address `a` on fill every register. -/
theorem execAll_load {c : Core} {a : ℕ} (ha : a + 192 ≤ 2 ^ 64) :
    execAll (c.atStack a) (popRegisters ++ [.iretq]) =
      ⟨loadedRegisters (readContext c.memory a), c.memory⟩ := by
  have hgpr (c : Core) (g : Gpr) (v : QWORD) : (c.setGpr g v).memory = c.memory := rfl
  have hseg (c : Core) (s : Seg) (v : WORD) : (c.setSeg s v).memory = c.memory := rfl
  unfold execAll popRegisters
  simp (disch := first | omega | decide) only [List.cons_append, List.nil_append, List.foldl_cons,
    List.foldl_nil, Core.exec_pop, Core.exec_popSeg, Core.exec_movSegAx, Core.exec_iretq, hgpr, hseg,
    Nat.add_assoc, Nat.reduceAdd]
  unfold loadedRegisters
  congr 2
  · congr 1
    · funext g
      cases g <;> rfl
    · funext s
      cases s <;> rfl

/-- `SAVEREG`, apart from the selectors of the second file: one `push` for each word, the highest
word first. -/
theorem execAll_pushRegisters (c : Core) : execAll c pushRegisters =
    (c.pushes (savedRegisters c.regs).reverse).setGpr .rax
      (withAx (withAx (c.regs.gpr .rax) (c.regs.seg .ds)) (c.regs.seg .es)) := by
  have hfirst := @execAll_push c [.r15, .r14, .r13, .r12, .r11, .r10, .r9, .r8, .rbp, .rdi, .rsi,
    .rdx, .rcx, .rbx, .rax] (by decide)
  have hset (d : Core) (v w : QWORD) : (d.setGpr .rax v).setGpr .rax w = d.setGpr .rax w := by
    unfold Core.setGpr
    rw [Registers.setGpr_setGpr]
  have hrax (d : Core) (v : QWORD) : (d.setGpr .rax v).regs.gpr .rax = v :=
    Registers.setGpr_self _ _
  have hseg (d : Core) (v : QWORD) : (d.setGpr .rax v).regs.seg = d.regs.seg := rfl
  have hpush (d : Core) (v : QWORD) : (d.push v).regs.seg = d.regs.seg := rfl
  unfold pushRegisters
  rw [execAll_append, hfirst]
  unfold execAll
  simp only [List.foldl_cons, List.foldl_nil, exec, hrax, hset, hseg, hpush,
    Core.push_setGpr (show Gpr.rax ≠ .rsp by decide)]
  rfl

end SkhuOS
