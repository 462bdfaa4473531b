import Mathlib.Tactic.IntervalCases
import SkhuOS.Common.Type
import SkhuOS.Foundation.LittleEndian

/-! The instructions that the assembly files of the kernel are written in, on the registers of
one core and a byte-addressed memory. The addresses of the instructions themselves do not matter:
`rip` is what an interrupt found in it until `iretq` loads another value. -/
namespace SkhuOS
open Foundation

inductive Gpr where
  | rax | rbx | rcx | rdx | rsi | rdi | rbp | rsp
  | r8 | r9 | r10 | r11 | r12 | r13 | r14 | r15
  deriving DecidableEq

inductive Seg where
  | cs | ss | ds | es | fs | gs
  deriving DecidableEq

structure Registers where
  gpr : Gpr → QWORD
  seg : Seg → WORD
  rip : QWORD
  rflags : QWORD

structure Core where
  regs : Registers
  memory : Bytes

def rflagsCF : QWORD := 0x1
def rflagsPF : QWORD := 0x4
def rflagsAF : QWORD := 0x10
def rflagsZF : QWORD := 0x40
def rflagsSF : QWORD := 0x80
def rflagsOF : QWORD := 0x800

/-- The flags that arithmetic sets. -/
def arithmeticFlags : QWORD :=
  rflagsCF ||| rflagsPF ||| rflagsAF ||| rflagsZF ||| rflagsSF ||| rflagsOF

/-- `pushfq` leaves RF and VM out. -/
def pushedFlags : QWORD := 0xFCFFFF

def readQword (m : Bytes) (a : ℕ) : QWORD := BitVec.ofNat 64 (readLE m a 8)

def writeQword (m : Bytes) (a : ℕ) (v : QWORD) : Bytes := writeLE m a 8 v.toNat

/-- `mov ax, v`: the rest of the register stays. -/
def withAx (rax : QWORD) (v : WORD) : QWORD := (rax &&& ~~~0xFFFF) ||| v.setWidth 64

/-- The number of ones in the low byte is even. -/
def evenParity (result : QWORD) : Bool :=
  (List.range 8).countP (fun i => result.getLsbD i) % 2 = 0

def withArithmetic (rflags result : QWORD) (carry adjust overflow : Bool) : QWORD :=
  let flag (b : Bool) (mask : QWORD) : QWORD := if b then mask else 0
  (rflags &&& ~~~arithmeticFlags) |||
    (flag carry rflagsCF ||| flag (evenParity result) rflagsPF ||| flag adjust rflagsAF |||
      flag (result = 0) rflagsZF ||| flag result.msb rflagsSF ||| flag overflow rflagsOF)

def addFlags (rflags a b : QWORD) : QWORD :=
  withArithmetic rflags (a + b) (a.toNat + b.toNat ≥ 2 ^ 64) (a.toNat % 16 + b.toNat % 16 ≥ 16)
    (a.msb = b.msb ∧ (a + b).msb ≠ a.msb)

def subFlags (rflags a b : QWORD) : QWORD :=
  withArithmetic rflags (a - b) (a.toNat < b.toNat) (a.toNat % 16 < b.toNat % 16)
    (a.msb ≠ b.msb ∧ (a - b).msb ≠ a.msb)

namespace Registers

variable (r : Registers)

def setGpr (g : Gpr) (v : QWORD) : Registers := { r with gpr := Function.update r.gpr g v }

def setSeg (s : Seg) (v : WORD) : Registers := { r with seg := Function.update r.seg s v }

/-- The code segment is one of ring 3. -/
def ring3 : Prop := r.seg .cs &&& 3 = 3

instance : Decidable r.ring3 := inferInstanceAs (Decidable (_ = _))

/-- User code may hold a null selector and those of the two user segments. -/
def openToUser (selector : WORD) : Bool :=
  selector.toNat / 8 = 0 ∨ selector.toNat / 8 = 3 ∨ selector.toNat / 8 = 4

/-- A return to ring 3 clears the data segments that are closed to it. -/
def dropSegments : Registers :=
  if r.ring3 then
    { r with seg := fun s =>
        if s = .cs ∨ s = .ss then r.seg s else if openToUser (r.seg s) then r.seg s else 0 }
  else r

end Registers

namespace Core

variable (c : Core)

def setGpr (g : Gpr) (v : QWORD) : Core := { c with regs := c.regs.setGpr g v }

def setSeg (s : Seg) (v : WORD) : Core := { c with regs := c.regs.setSeg s v }

def setFlags (rflags : QWORD) : Core := { c with regs := { c.regs with rflags := rflags } }

def setRip (rip : QWORD) : Core := { c with regs := { c.regs with rip := rip } }

def rsp : QWORD := c.regs.gpr .rsp

def push (v : QWORD) : Core :=
  { c.setGpr .rsp (c.rsp - 8) with memory := writeQword c.memory (c.rsp - 8).toNat v }

/-- The word at the top of the stack. -/
def top : QWORD := readQword c.memory c.rsp.toNat

def drop : Core := c.setGpr .rsp (c.rsp + 8)

def pushes (vs : List QWORD) : Core := vs.foldl push c

/-- All five words are loaded, whatever the ring. -/
def iretq : Core :=
  let c := c.drop.setRip c.top
  let c := c.drop.setSeg .cs (c.top.setWidth 16)
  let c := c.drop.setFlags c.top
  let rsp := c.top
  let c := c.drop
  let c := c.setSeg .ss (c.top.setWidth 16)
  let c := c.setGpr .rsp rsp
  { c with regs := c.regs.dropSegments }

/-- An interrupt on the stack that ends at `stack`, which is the end the tables give, aligned down to
16 bytes: the processor saves SS, RSP, RFLAGS, CS and RIP, and clears TF, IF, NT and RF. From ring 3
it loads a null SS. -/
def enter (stack : QWORD) : Core :=
  let r := c.regs
  let c := (c.setGpr .rsp stack).pushes [(r.seg .ss).setWidth 64, c.rsp, r.rflags,
    (r.seg .cs).setWidth 64, r.rip]
  let c := if r.ring3 then c.setSeg .ss 0 else c
  (c.setSeg .cs 0x10).setFlags (r.rflags &&& ~~~0x14300)

end Core

inductive Instr where
  | push (r : Gpr)
  | pop (r : Gpr)
  | pushSeg (s : Seg)
  | popSeg (s : Seg)
  | pushfq
  | popfq
  | movAxSeg (s : Seg)
  | movSegAx (s : Seg)
  | movAx (v : WORD)
  | mov (dst src : Gpr)
  | movImm (dst : Gpr) (v : QWORD)
  | add (dst : Gpr) (v : QWORD)
  | sub (dst : Gpr) (v : QWORD)
  | cmp (r : Gpr) (v : QWORD)
  | load (dst base : Gpr) (disp : QWORD)
  | store (base : Gpr) (disp : QWORD) (src : Gpr)
  | iretq

def exec (c : Core) : Instr → Core
  | .push r => c.push (c.regs.gpr r)
  | .pop r => c.drop.setGpr r c.top
  | .pushSeg s => c.push ((c.regs.seg s).setWidth 64)
  | .popSeg s => c.drop.setSeg s (c.top.setWidth 16)
  | .pushfq => c.push (c.regs.rflags &&& pushedFlags)
  | .popfq => c.drop.setFlags c.top
  | .movAxSeg s => c.setGpr .rax (withAx (c.regs.gpr .rax) (c.regs.seg s))
  | .movSegAx s => c.setSeg s ((c.regs.gpr .rax).setWidth 16)
  | .movAx v => c.setGpr .rax (withAx (c.regs.gpr .rax) v)
  | .mov dst src => c.setGpr dst (c.regs.gpr src)
  | .movImm dst v => c.setGpr dst v
  | .add dst v =>
    (c.setGpr dst (c.regs.gpr dst + v)).setFlags (addFlags c.regs.rflags (c.regs.gpr dst) v)
  | .sub dst v =>
    (c.setGpr dst (c.regs.gpr dst - v)).setFlags (subFlags c.regs.rflags (c.regs.gpr dst) v)
  | .cmp r v => c.setFlags (subFlags c.regs.rflags (c.regs.gpr r) v)
  | .load dst base disp => c.setGpr dst (readQword c.memory (c.regs.gpr base + disp).toNat)
  | .store base disp src =>
    { c with memory := writeQword c.memory (c.regs.gpr base + disp).toNat (c.regs.gpr src) }
  | .iretq => c.iretq

/-- Straight-line code. -/
def execAll (c : Core) (code : List Instr) : Core := code.foldl exec c

section Words

variable {m m' : Bytes} {a b x : ℕ} {v : QWORD}

theorem readQword_congr (h : ∀ x, a ≤ x → x < a + 8 → m' x = m x) :
    readQword m' a = readQword m a := by
  unfold readQword
  rw [readLE_congr h]

theorem readQword_writeQword : readQword (writeQword m a v) a = v := by
  unfold readQword writeQword
  rw [readLE_writeLE, Nat.mod_eq_of_lt (show v.toNat < 256 ^ 8 from v.isLt), BitVec.ofNat_toNat,
    BitVec.setWidth_eq]

theorem writeQword_outside (h : x < a ∨ a + 8 ≤ x) : writeQword m a v x = m x :=
  writeLE_of_not_mem h

theorem readQword_writeQword_apart (h : b + 8 ≤ a ∨ a + 8 ≤ b) :
    readQword (writeQword m a v) b = readQword m b :=
  readQword_congr fun _ _ _ => writeQword_outside (by omega)

theorem withAx_low (rax : QWORD) (v : WORD) : (withAx rax v).setWidth 16 = v := by
  apply BitVec.eq_of_getLsbD_eq
  intro i hi
  have hmask : (0xFFFF : QWORD).getLsbD i = true := by
    interval_cases i <;> rfl
  rw [BitVec.getLsbD_setWidth, withAx, BitVec.getLsbD_or, BitVec.getLsbD_and, BitVec.getLsbD_not,
    hmask, BitVec.getLsbD_setWidth, decide_eq_true hi, decide_eq_true (show i < 64 by omega)]
  simp

end Words

section Stack

variable {c : Core} {top : ℕ} {vs : List QWORD}

namespace Registers

variable (r : Registers) {g g' : Gpr} (v w : QWORD)

theorem setGpr_self : (r.setGpr g v).gpr g = v := by
  unfold setGpr
  exact Function.update_self _ _ _

theorem setGpr_of_ne (h : g' ≠ g) : (r.setGpr g v).gpr g' = r.gpr g' := by
  unfold setGpr
  exact Function.update_of_ne h _ _

theorem setGpr_setGpr : (r.setGpr g v).setGpr g w = r.setGpr g w := by
  unfold setGpr
  rw [Function.update_idem]

theorem setGpr_same (g : Gpr) : r.setGpr g (r.gpr g) = r := by
  unfold setGpr
  rw [Function.update_eq_self]

end Registers

theorem push_regs (v : QWORD) : (c.push v).regs = c.regs.setGpr .rsp (c.rsp - 8) := rfl

theorem push_memory (v : QWORD) :
    (c.push v).memory = writeQword c.memory (c.rsp - 8).toNat v := rfl

theorem pushes_cons (v : QWORD) (vs : List QWORD) : c.pushes (v :: vs) = (c.push v).pushes vs := rfl

/-- An address below the end of a stack. -/
theorem stack_down {k : ℕ} (hk : k ≤ top) (htop : top < 2 ^ 64) :
    BitVec.ofNat 64 top - BitVec.ofNat 64 k = BitVec.ofNat 64 (top - k) := by
  apply BitVec.eq_of_toNat_eq
  rw [BitVec.toNat_sub, BitVec.toNat_ofNat, BitVec.toNat_ofNat, BitVec.toNat_ofNat]
  omega

/-- The words pushed on a stack that ends at `top`, the last one lowest, and all else. -/
structure Pushed (c : Core) (top : ℕ) (vs : List QWORD) (c' : Core) : Prop where
  regs : c'.regs = c.regs.setGpr .rsp (BitVec.ofNat 64 (top - 8 * vs.length))
  words : ∀ i (hi : i < vs.length), readQword c'.memory (top - 8 * (i + 1)) = vs[i]
  outside : ∀ x, x < top - 8 * vs.length ∨ top ≤ x → c'.memory x = c.memory x

theorem pushes_spec (hrsp : c.rsp = BitVec.ofNat 64 top) (hroom : 8 * vs.length ≤ top)
    (htop : top < 2 ^ 64) : Pushed c top vs (c.pushes vs) := by
  induction vs generalizing c top with
  | nil =>
    refine ⟨?_, fun i hi => absurd hi (Nat.not_lt_zero i), fun x _ => rfl⟩
    rw [List.length_nil, Nat.mul_zero, Nat.sub_zero, ← hrsp, Core.rsp, Registers.setGpr_same]
    rfl
  | cons v vs ih =>
    rw [List.length_cons] at hroom
    have hdown : c.rsp - 8 = BitVec.ofNat 64 (top - 8) := by
      rw [hrsp, ← stack_down (show 8 ≤ top by omega) htop]
      rfl
    have hat : (c.rsp - 8).toNat = top - 8 := by
      rw [hdown, BitVec.toNat_ofNat]
      omega
    have hpushed : (c.push v).rsp = BitVec.ofNat 64 (top - 8) := by
      rw [← hdown]
      exact Registers.setGpr_self _ _
    obtain ⟨hregs, hwords, houtside⟩ := ih hpushed (by omega) (by omega)
    rw [← pushes_cons] at hregs hwords houtside
    rw [push_memory, hat] at houtside
    constructor
    · rw [hregs, push_regs, Registers.setGpr_setGpr, List.length_cons]
      congr 2
      omega
    · intro i hi
      cases i with
      | zero =>
        have hkept : readQword ((c.push v).pushes vs).memory (top - 8) =
            readQword (writeQword c.memory (top - 8) v) (top - 8) :=
          readQword_congr fun x hx _ => houtside x (.inr hx)
        exact hkept.trans readQword_writeQword
      | succ i =>
        have hnext : top - 8 * (i + 1 + 1) = top - 8 - 8 * (i + 1) := by omega
        rw [List.getElem_cons_succ, hnext]
        exact hwords i (by simpa using hi)
    · intro x hx
      rw [List.length_cons] at hx
      rw [houtside x (by omega), writeQword_outside (by omega)]

/-- A run of `push` instructions. -/
theorem execAll_push {rs : List Gpr} (hrs : Gpr.rsp ∉ rs) :
    execAll c (rs.map .push) = c.pushes (rs.map c.regs.gpr) := by
  induction rs generalizing c with
  | nil => rfl
  | cons r rs ih =>
    have hrest : rs.map (c.push (c.regs.gpr r)).regs.gpr = rs.map c.regs.gpr := by
      apply List.map_congr_left
      intro g hg
      have hne : g ≠ .rsp := fun heq => hrs (List.mem_cons_of_mem r (heq ▸ hg))
      exact Registers.setGpr_of_ne _ _ hne
    have hafter := ih (c := c.push (c.regs.gpr r)) fun hmem => hrs (List.mem_cons_of_mem r hmem)
    rw [hrest] at hafter
    exact hafter

theorem execAll_append (code code' : List Instr) :
    execAll c (code ++ code') = execAll (execAll c code) code' := List.foldl_append

end Stack

end SkhuOS
