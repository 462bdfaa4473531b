import Mathlib.Data.BitVec
import SkhuOS.Arch.Handler

/-! `switchContext` of `arch/ContextSwitching.asm`: the context it saves for its caller, and that
loading this context is a return to the caller. -/
namespace SkhuOS
open Foundation

section Flags

variable {rflags result : QWORD} {carry adjust overflow : Bool}

theorem withArithmetic_bit {i : ℕ} (hi : i < 64) (h : arithmeticFlags.getLsbD i = false) :
    (withArithmetic rflags result carry adjust overflow).getLsbD i = rflags.getLsbD i := by
  unfold arithmeticFlags at h
  simp only [BitVec.getLsbD_or, Bool.or_eq_false_iff] at h
  obtain ⟨⟨⟨⟨⟨hcf, hpf⟩, haf⟩, hzf⟩, hsf⟩, hof⟩ := h
  have hflag (b : Bool) {mask : QWORD} (hmask : mask.getLsbD i = false) :
      (if b then mask else 0 : QWORD).getLsbD i = false := by
    split
    · exact hmask
    · exact BitVec.getLsbD_zero
  have hkept : (~~~arithmeticFlags).getLsbD i = true := by
    rw [BitVec.getLsbD_not, decide_eq_true hi]
    unfold arithmeticFlags
    simp only [BitVec.getLsbD_or, hcf, hpf, haf, hzf, hsf, hof]
    rfl
  unfold withArithmetic
  simp only [BitVec.getLsbD_or, BitVec.getLsbD_and, hkept, hflag _ hcf, hflag _ hpf, hflag _ haf,
    hflag _ hsf, hflag _ hof, Bool.and_true, Bool.or_false]
  rw [hflag (decide (result = 0)) hzf, Bool.or_false, Bool.or_false]

/-- The test of `je`. -/
theorem withArithmetic_zero : withArithmetic rflags result carry adjust overflow &&& rflagsZF ≠ 0 ↔
    result = 0 := by
  have hbit (v : QWORD) : v &&& rflagsZF ≠ 0 ↔ v.getLsbD 6 = true := by
    rw [show rflagsZF = BitVec.twoPow 64 6 from rfl, BitVec.and_twoPow]
    split
    next h => exact ⟨fun _ => h, fun _ => by decide⟩
    next h => exact ⟨fun h' => absurd rfl h', fun h' => absurd h' h⟩
  have hflag (b : Bool) {mask : QWORD} (hmask : mask.getLsbD 6 = false) :
      (if b then mask else 0 : QWORD).getLsbD 6 = false := by
    split
    · exact hmask
    · exact BitVec.getLsbD_zero
  have hset (b : Bool) : (if b then rflagsZF else 0 : QWORD).getLsbD 6 = b := by
    cases b <;> rfl
  rw [hbit]
  unfold withArithmetic
  simp only [BitVec.getLsbD_or, BitVec.getLsbD_and]
  rw [hflag carry rfl, hflag (evenParity result) rfl, hflag adjust rfl, hset, hflag result.msb rfl,
    hflag overflow rfl, show (~~~arithmeticFlags).getLsbD 6 = false from rfl]
  simp

end Flags

/-- The registers that `switchContext` uses before it saves all of them. -/
def scratch (c : Core) (rsp rbp rax rdi rflags : QWORD) (memory : Bytes) : Core where
  regs :=
    { gpr := fun | .rsp => rsp | .rbp => rbp | .rax => rax | .rdi => rdi | g => c.regs.gpr g
      seg := c.regs.seg
      rip := c.regs.rip
      rflags := rflags }
  memory := memory

section Scratch

variable {c : Core} {rsp rbp rax rdi rflags v : QWORD} {memory : Bytes}

theorem scratch_self (c : Core) : c = scratch c c.rsp (c.regs.gpr .rbp) (c.regs.gpr .rax)
    (c.regs.gpr .rdi) c.regs.rflags c.memory := by
  obtain ⟨⟨gpr, seg, rip, rflags⟩, memory⟩ := c
  unfold scratch
  congr 2
  funext g
  cases g <;> rfl

theorem scratch_setRsp : (scratch c rsp rbp rax rdi rflags memory).setGpr .rsp v =
    scratch c v rbp rax rdi rflags memory := by
  unfold scratch Core.setGpr Registers.setGpr
  congr 2
  funext g
  cases g <;> rfl

theorem scratch_setRbp : (scratch c rsp rbp rax rdi rflags memory).setGpr .rbp v =
    scratch c rsp v rax rdi rflags memory := by
  unfold scratch Core.setGpr Registers.setGpr
  congr 2
  funext g
  cases g <;> rfl

theorem scratch_setRax : (scratch c rsp rbp rax rdi rflags memory).setGpr .rax v =
    scratch c rsp rbp v rdi rflags memory := by
  unfold scratch Core.setGpr Registers.setGpr
  congr 2
  funext g
  cases g <;> rfl

theorem scratch_setRdi : (scratch c rsp rbp rax rdi rflags memory).setGpr .rdi v =
    scratch c rsp rbp rax v rflags memory := by
  unfold scratch Core.setGpr Registers.setGpr
  congr 2
  funext g
  cases g <;> rfl

theorem scratch_setFlags : (scratch c rsp rbp rax rdi rflags memory).setFlags v =
    scratch c rsp rbp rax rdi v memory := rfl

/-- An address in 64 bits. -/
theorem address_add {a k : ℕ} {disp : QWORD} (hdisp : disp = BitVec.ofNat 64 k)
    (h : a + k < 2 ^ 64) : (BitVec.ofNat 64 a + disp).toNat = a + k := by
  rw [hdisp, ← BitVec.ofNat_add, BitVec.toNat_ofNat, Nat.mod_eq_of_lt h]

variable {s : ℕ}

theorem scratch_push (h8 : 8 ≤ s) (hs : s < 2 ^ 64) :
    (scratch c (BitVec.ofNat 64 s) rbp rax rdi rflags memory).push v =
      scratch c (BitVec.ofNat 64 (s - 8)) rbp rax rdi rflags (writeQword memory (s - 8) v) := by
  have hdown : BitVec.ofNat 64 s - 8 = BitVec.ofNat 64 (s - 8) := stack_down h8 hs
  have hat : (BitVec.ofNat 64 (s - 8)).toNat = s - 8 := by
    rw [BitVec.toNat_ofNat, Nat.mod_eq_of_lt (by omega)]
  have hset : (scratch c (BitVec.ofNat 64 s) rbp rax rdi rflags memory).setGpr .rsp
      (BitVec.ofNat 64 (s - 8)) =
        scratch c (BitVec.ofNat 64 (s - 8)) rbp rax rdi rflags memory := scratch_setRsp
  have hrsp : (scratch c (BitVec.ofNat 64 s) rbp rax rdi rflags memory).rsp =
    BitVec.ofNat 64 s := rfl
  unfold Core.push
  rw [hrsp, hdown, hset, hat]
  rfl

theorem scratch_drop : (scratch c (BitVec.ofNat 64 s) rbp rax rdi rflags memory).drop =
    scratch c (BitVec.ofNat 64 (s + 8)) rbp rax rdi rflags memory := by
  have hup : BitVec.ofNat 64 s + 8 = BitVec.ofNat 64 (s + 8) := by
    rw [BitVec.ofNat_add]
    rfl
  rw [← hup]
  exact scratch_setRsp

theorem scratch_top (hs : s < 2 ^ 64) :
    (scratch c (BitVec.ofNat 64 s) rbp rax rdi rflags memory).top = readQword memory s := by
  have hat : (BitVec.ofNat 64 s).toNat = s := by
    rw [BitVec.toNat_ofNat, Nat.mod_eq_of_lt hs]
  have htop : (scratch c (BitVec.ofNat 64 s) rbp rax rdi rflags memory).top =
    readQword memory (BitVec.ofNat 64 s).toNat := rfl
  rw [htop, hat]

theorem scratch_gpr :
    (scratch c rsp rbp rax rdi rflags memory).regs.gpr .rsp = rsp ∧
    (scratch c rsp rbp rax rdi rflags memory).regs.gpr .rbp = rbp ∧
    (scratch c rsp rbp rax rdi rflags memory).regs.gpr .rax = rax ∧
    (scratch c rsp rbp rax rdi rflags memory).regs.gpr .rdi = rdi := ⟨rfl, rfl, rfl, rfl⟩

theorem scratch_rest :
    (scratch c rsp rbp rax rdi rflags memory).regs.rflags = rflags ∧
    (scratch c rsp rbp rax rdi rflags memory).regs.seg = c.regs.seg ∧
    (scratch c rsp rbp rax rdi rflags memory).memory = memory := ⟨rfl, rfl, rfl⟩

theorem scratch_store (memory' : Bytes) :
    { scratch c rsp rbp rax rdi rflags memory with memory := memory' } =
      scratch c rsp rbp rax rdi rflags memory' := rfl

/-- The caller's RBP, flags and RAX on the stack. -/
theorem exec_compareCurrent (hs : 16 ≤ s) (hs' : s < 2 ^ 64) :
    execAll (scratch c (BitVec.ofNat 64 s) rbp rax rdi rflags memory)
      (ContextSwitching.compareCurrent ++ [.popfq, .push .rax]) =
    scratch c (BitVec.ofNat 64 (s - 16)) (BitVec.ofNat 64 (s - 8)) rax rdi (rflags &&& pushedFlags)
      (writeQword (writeQword (writeQword memory (s - 8) rbp) (s - 16) (rflags &&& pushedFlags))
        (s - 16) rax) := by
  have h16 : s - 8 - 8 = s - 16 := by omega
  have h8 : s - 16 + 8 = s - 8 := by omega
  unfold execAll ContextSwitching.compareCurrent
  simp (disch := omega) only [List.cons_append, List.nil_append, List.foldl_cons, List.foldl_nil,
    exec, scratch_gpr, scratch_rest, scratch_push, scratch_drop, scratch_top, scratch_setRbp,
    scratch_setFlags, readQword_writeQword, h16, h8]

/-- The stores into `current`, between `push rax` and `pop rax`. -/
def storeFrame : List Instr :=
  [.movAxSeg .ss, .store .rdi (8 * 23) .rax,
    .mov .rax .rbp, .add .rax 16, .store .rdi (8 * 22) .rax,
    .pushfq, .pop .rax, .store .rdi (8 * 21) .rax,
    .movAxSeg .cs, .store .rdi (8 * 20) .rax,
    .load .rax .rbp 8, .store .rdi (8 * 19) .rax]

variable {cur : ℕ}

theorem exec_storeFrame (hs : 24 ≤ s) (hs' : s + 8 ≤ 2 ^ 64) (hcur : cur + 192 ≤ 2 ^ 64)
    (hapart : cur + 192 ≤ s - 24 ∨ s + 8 ≤ cur) {sum : QWORD}
    (hsum : sum = addFlags rflags (BitVec.ofNat 64 (s - 8)) 16 &&& pushedFlags) :
    execAll (scratch c (BitVec.ofNat 64 (s - 16)) (BitVec.ofNat 64 (s - 8)) rax
      (BitVec.ofNat 64 cur) rflags memory) storeFrame =
    scratch c (BitVec.ofNat 64 (s - 16)) (BitVec.ofNat 64 (s - 8)) (readQword memory s)
      (BitVec.ofNat 64 cur) (addFlags rflags (BitVec.ofNat 64 (s - 8)) 16)
      (writeQword (writeQword (writeQword (writeQword (writeQword (writeQword memory
        (cur + 184) (withAx rax (c.regs.seg .ss)))
        (cur + 176) (BitVec.ofNat 64 (s + 8)))
        (s - 24) sum)
        (cur + 168) sum)
        (cur + 160) (withAx sum (c.regs.seg .cs)))
        (cur + 152) (readQword memory s)) := by
  have h23 : (BitVec.ofNat 64 cur + 8 * 23).toNat = cur + 184 := address_add rfl (by omega)
  have h22 : (BitVec.ofNat 64 cur + 8 * 22).toNat = cur + 176 := address_add rfl (by omega)
  have h21 : (BitVec.ofNat 64 cur + 8 * 21).toNat = cur + 168 := address_add rfl (by omega)
  have h20 : (BitVec.ofNat 64 cur + 8 * 20).toNat = cur + 160 := address_add rfl (by omega)
  have h19 : (BitVec.ofNat 64 cur + 8 * 19).toNat = cur + 152 := address_add rfl (by omega)
  have h8 : (BitVec.ofNat 64 (s - 8) + 8).toNat = s := by
    have hup : (BitVec.ofNat 64 (s - 8) + 8).toNat = s - 8 + 8 := address_add rfl (by omega)
    omega
  have h16 : BitVec.ofNat 64 (s - 8) + 16 = BitVec.ofNat 64 (s + 8) := by
    have hup : s + 8 = s - 8 + 16 := by omega
    rw [hup, BitVec.ofNat_add]
    rfl
  have hdown : s - 16 - 8 = s - 24 := by omega
  have hback : s - 24 + 8 = s - 16 := by omega
  unfold execAll storeFrame
  simp (disch := omega) only [List.foldl_cons, List.foldl_nil, exec, scratch_gpr, scratch_rest,
    scratch_push, scratch_drop, scratch_top, scratch_setRax, scratch_setFlags, scratch_store,
    readQword_writeQword, readQword_writeQword_apart, ← hsum, h23, h22, h21, h20, h19, h8, h16,
    hdown, hback]

/-- The caller's RAX and RBP again, and the end of the registers in `current` as the stack. -/
theorem exec_turnStack (hs : 16 ≤ s) (hs' : s < 2 ^ 64) (hcur : cur + 192 ≤ 2 ^ 64) :
    ∃ rflags', execAll (scratch c (BitVec.ofNat 64 (s - 16)) rbp rax (BitVec.ofNat 64 cur) rflags
        memory) [.pop .rax, .pop .rbp, .add .rdi (19 * 8), .mov .rsp .rdi, .sub .rdi (19 * 8)] =
      scratch c (BitVec.ofNat 64 (cur + 152)) (readQword memory (s - 8))
        (readQword memory (s - 16)) (BitVec.ofNat 64 cur) rflags' memory := by
  have hup : BitVec.ofNat 64 cur + 19 * 8 = BitVec.ofNat 64 (cur + 152) := by
    rw [BitVec.ofNat_add]
    rfl
  have hdown : BitVec.ofNat 64 (cur + 152) - 19 * 8 = BitVec.ofNat 64 cur := by
    have h := stack_down (show 152 ≤ cur + 152 by omega) (show cur + 152 < 2 ^ 64 by omega)
    rwa [Nat.add_sub_cancel] at h
  have h8 : s - 16 + 8 = s - 8 := by omega
  refine ⟨subFlags (addFlags rflags (BitVec.ofNat 64 cur) (19 * 8)) (BitVec.ofNat 64 (cur + 152))
    (19 * 8), ?_⟩
  unfold execAll
  simp (disch := omega) only [List.foldl_cons, List.foldl_nil, exec, scratch_gpr, scratch_rest,
    scratch_drop, scratch_top, scratch_setRax, scratch_setRbp, scratch_setRsp, scratch_setRdi,
    scratch_setFlags, hup, hdown, h8]

end Scratch

/-- The flags in the context of a caller: those of `add rax, 16`. -/
def callFlags (c : Core) : QWORD :=
  addFlags (c.regs.rflags &&& pushedFlags) (c.rsp - 8) 16 &&& pushedFlags

/-- The words that `switchContext` saves for its caller, who is to continue behind the call. -/
def callContext (c : Core) : ProcessContext := fun i =>
  (savedRegisters c.regs ++ [readQword c.memory c.rsp.toNat,
    withAx (callFlags c) (c.regs.seg .cs), callFlags c, c.rsp + 8,
    withAx (c.regs.gpr .rax) (c.regs.seg .ss)]).getD i 0

/-- The caller's stack holds the return address at `s`, below it there is room for three words,
and `current` is at `cur`, apart from these. -/
structure CallSite (c : Core) (s cur : ℕ) : Prop where
  rsp : c.rsp = BitVec.ofNat 64 s
  rdi : c.regs.gpr .rdi = BitVec.ofNat 64 cur
  room : 24 ≤ s
  stack : s + 8 ≤ 2 ^ 64
  current : 0 < cur
  fits : cur + 192 ≤ 2 ^ 64
  apart : cur + 192 ≤ s - 24 ∨ s + 8 ≤ cur

/-- `switchContext` before `SAVEREG`: the five words that this does not fill are saved, and the
registers are those of the caller again. -/
structure FrameSaved (c : Core) (s cur : ℕ) (e : Core) : Prop where
  rsp : e.rsp = BitVec.ofNat 64 (cur + 152)
  gpr : ∀ g ≠ .rsp, e.regs.gpr g = c.regs.gpr g
  seg : e.regs.seg = c.regs.seg
  words : ∀ i, 19 ≤ i → i < 24 → readQword e.memory (cur + 8 * i) = callContext c (Fin.ofNat 24 i)
  outside : ∀ x, x < s - 24 ∨ s ≤ x → x < cur + 152 ∨ cur + 192 ≤ x → e.memory x = c.memory x

theorem CallSite.saves {c : Core} {s cur : ℕ} (h : CallSite c s cur) : FrameSaved c s cur
    (execAll c (ContextSwitching.compareCurrent ++ ContextSwitching.saveFrame)) := by
  obtain ⟨hrsp, hrdi, hroom, hstack, -, hfits, hapart⟩ := h
  have hsplit : ContextSwitching.compareCurrent ++ ContextSwitching.saveFrame =
      ContextSwitching.compareCurrent ++ [.popfq, .push .rax] ++ storeFrame ++
        [.pop .rax, .pop .rbp, .add .rdi (19 * 8), .mov .rsp .rdi, .sub .rdi (19 * 8)] := rfl
  have hdown : c.rsp - 8 = BitVec.ofNat 64 (s - 8) := by
    rw [hrsp]
    exact stack_down (show 8 ≤ s by omega) (show s < 2 ^ 64 by omega)
  have hup : c.rsp + 8 = BitVec.ofNat 64 (s + 8) := by
    rw [hrsp, BitVec.ofNat_add]
    rfl
  have hat : c.rsp.toNat = s := by
    rw [hrsp, BitVec.toNat_ofNat, Nat.mod_eq_of_lt (by omega)]
  have hsum : callFlags c =
      addFlags (c.regs.rflags &&& pushedFlags) (BitVec.ofNat 64 (s - 8)) 16 &&& pushedFlags := by
    rw [callFlags, hdown]
  have hself := scratch_self c
  rw [hrsp, hrdi] at hself
  rw [hsplit, execAll_append, execAll_append]
  conv in execAll c _ => rw [hself]
  rw [exec_compareCurrent (by omega) (by omega),
    exec_storeFrame hroom hstack hfits hapart hsum]
  obtain ⟨rflags, hturn⟩ := @exec_turnStack c (BitVec.ofNat 64 (s - 8)) (readQword _ s)
    (addFlags (c.regs.rflags &&& pushedFlags) (BitVec.ofNat 64 (s - 8)) 16) _ s cur (by omega)
    (by omega) hfits
  have hret : callContext c 19 = readQword c.memory s := congrArg (readQword c.memory) hat
  have hrsp' : callContext c 22 = BitVec.ofNat 64 (s + 8) := hup
  have hcs : callContext c 20 = withAx (callFlags c) (c.regs.seg .cs) := rfl
  have hflags : callContext c 21 = callFlags c := rfl
  have hss : callContext c 23 = withAx (c.regs.gpr .rax) (c.regs.seg .ss) := rfl
  rw [hturn]
  constructor
  · rfl
  · intro g hg
    cases g with
    | rsp => exact absurd rfl hg
    | rbp =>
      show readQword _ (s - 8) = c.regs.gpr .rbp
      simp (disch := omega) only [readQword_writeQword, readQword_writeQword_apart]
    | rax =>
      show readQword _ (s - 16) = c.regs.gpr .rax
      simp (disch := omega) only [readQword_writeQword, readQword_writeQword_apart]
    | rdi => exact hrdi.symm
    | _ => rfl
  · rfl
  · intro i hi hi'
    show readQword _ _ = _
    interval_cases i
    · rw [show Fin.ofNat 24 19 = 19 from rfl, hret]
      simp (disch := omega) only [scratch_rest, readQword_writeQword, readQword_writeQword_apart]
    · rw [show Fin.ofNat 24 20 = 20 from rfl, hcs]
      simp (disch := omega) only [scratch_rest, readQword_writeQword, readQword_writeQword_apart]
    · rw [show Fin.ofNat 24 21 = 21 from rfl, hflags]
      simp (disch := omega) only [scratch_rest, readQword_writeQword, readQword_writeQword_apart]
    · rw [show Fin.ofNat 24 22 = 22 from rfl, hrsp']
      simp (disch := omega) only [scratch_rest, readQword_writeQword, readQword_writeQword_apart]
    · rw [show Fin.ofNat 24 23 = 23 from rfl, hss]
      simp (disch := omega) only [scratch_rest, readQword_writeQword, readQword_writeQword_apart]
  · intro x hx hx'
    show writeQword _ _ _ x = _
    simp (disch := omega) only [writeQword_outside]

/-- What a call of `switchContext` from `current` to `next` does. -/
structure Switched (c : Core) (s cur next : ℕ) (c' : Core) : Prop where
  saved : readContext c'.memory cur = callContext c
  loaded : c'.regs = loadedRegisters (readContext c'.memory next)
  outside : ∀ x, x < s - 24 ∨ s ≤ x → x < cur ∨ cur + 192 ≤ x → c'.memory x = c.memory x

/-- `SAVEREG` alone: its words from `top` downwards, and RSI as it was. -/
theorem pushRegisters_spec {e : Core} {top : ℕ} (hrsp : e.rsp = BitVec.ofNat 64 top)
    (hroom : 152 ≤ top) (htop : top < 2 ^ 64) :
    (∀ i : ℕ, i < 19 → readQword (execAll e pushRegisters).memory (top - 152 + 8 * i) =
      (savedRegisters e.regs).getD i 0) ∧
    (∀ x, x < top - 152 ∨ top ≤ x → (execAll e pushRegisters).memory x = e.memory x) ∧
    (execAll e pushRegisters).regs.gpr .rsi = e.regs.gpr .rsi := by
  have hset (d : Core) (v : QWORD) : (d.setGpr .rax v).memory = d.memory ∧
      (d.setGpr .rax v).regs.gpr .rsi = d.regs.gpr .rsi := ⟨rfl, rfl⟩
  have hlength : (savedRegisters e.regs).length = 19 := rfl
  have hpushed : Pushed e top (savedRegisters e.regs).reverse _ :=
    pushes_spec hrsp (by rw [List.length_reverse]; omega) htop
  obtain ⟨hregs, hwords, houtside⟩ := hpushed
  rw [List.length_reverse, hlength] at houtside
  rw [execAll_pushRegisters, (hset _ _).1, (hset _ _).2, hregs]
  refine ⟨fun i hi => ?_, houtside, Registers.setGpr_of_ne _ _ (by decide)⟩
  have hword := hwords (18 - i) (by rw [List.length_reverse]; omega)
  have hat : top - 8 * (18 - i + 1) = top - 152 + 8 * i := by omega
  have hback : (savedRegisters e.regs).length - 1 - (18 - i) = i := by omega
  rw [hat, List.getElem_reverse] at hword
  rw [hword, List.getD_eq_getElem?_getD, List.getElem?_eq_getElem (by omega), Option.getD_some]
  congr 1

theorem exec_loadContext {d : Core} {next : ℕ} (hrsi : d.regs.gpr .rsi = BitVec.ofNat 64 next)
    (hnext : next + 192 ≤ 2 ^ 64) : execAll d ContextSwitching.loadContext =
      ⟨loadedRegisters (readContext d.memory next), d.memory⟩ := by
  have hstart : exec d (.mov .rsp .rsi) = d.atStack next := by
    unfold exec Core.atStack
    dsimp only
    rw [hrsi]
  have hcons (code : List Instr) : execAll d (.mov .rsp .rsi :: code) =
      execAll (exec d (.mov .rsp .rsi)) code := rfl
  unfold ContextSwitching.loadContext ContextSwitching.loadLeg
  rw [List.cons_append, hcons, hstart, execAll_load hnext]

/-- `SAVEREG` and the load path behind it. -/
theorem FrameSaved.switches {c e : Core} {s cur next : ℕ} (h : FrameSaved c s cur e)
    (hcur : cur + 192 ≤ 2 ^ 64) (hrsi : c.regs.gpr .rsi = BitVec.ofNat 64 next)
    (hnext : next + 192 ≤ 2 ^ 64) : Switched c s cur next
      (execAll e (ContextSwitching.saveReg ++ ContextSwitching.loadContext)) := by
  have hsaved : savedRegisters e.regs = savedRegisters c.regs := by
    unfold savedRegisters
    rw [h.seg]
    simp only [h.gpr _ (show Gpr.rax ≠ .rsp by decide), h.gpr _ (show Gpr.rbx ≠ .rsp by decide),
      h.gpr _ (show Gpr.rcx ≠ .rsp by decide), h.gpr _ (show Gpr.rdx ≠ .rsp by decide),
      h.gpr _ (show Gpr.rsi ≠ .rsp by decide), h.gpr _ (show Gpr.rdi ≠ .rsp by decide),
      h.gpr _ (show Gpr.rbp ≠ .rsp by decide), h.gpr _ (show Gpr.r8 ≠ .rsp by decide),
      h.gpr _ (show Gpr.r9 ≠ .rsp by decide), h.gpr _ (show Gpr.r10 ≠ .rsp by decide),
      h.gpr _ (show Gpr.r11 ≠ .rsp by decide), h.gpr _ (show Gpr.r12 ≠ .rsp by decide),
      h.gpr _ (show Gpr.r13 ≠ .rsp by decide), h.gpr _ (show Gpr.r14 ≠ .rsp by decide),
      h.gpr _ (show Gpr.r15 ≠ .rsp by decide)]
  obtain ⟨hwords, houtside, hsi⟩ := pushRegisters_spec h.rsp (by omega) (by omega)
  rw [Nat.add_sub_cancel] at hwords houtside
  rw [hsaved] at hwords
  rw [h.gpr .rsi (by decide), hrsi] at hsi
  have hload : execAll e (ContextSwitching.saveReg ++ ContextSwitching.loadContext) =
      ⟨loadedRegisters (readContext (execAll e pushRegisters).memory next),
        (execAll e pushRegisters).memory⟩ := by
    unfold ContextSwitching.saveReg
    rw [execAll_append]
    exact exec_loadContext hsi hnext
  rw [hload]
  generalize execAll e pushRegisters = d at hwords houtside ⊢
  refine ⟨?_, rfl, ?_⟩
  · funext i
    by_cases hi : (i : ℕ) < 19
    · have hin : (i : ℕ) < (savedRegisters c.regs).length := hi
      unfold readContext callContext
      dsimp only
      rw [hwords i hi, List.getD_eq_getElem?_getD, List.getD_eq_getElem?_getD,
        List.getElem?_append_left hin]
    · have hword := h.words i (by omega) i.isLt
      rw [Fin.ofNat_val_eq_self i] at hword
      rw [← hword]
      exact readQword_congr fun x hx _ => houtside x (.inr (by omega))
  · intro x hx hx'
    rw [← h.outside x hx (by omega)]
    exact houtside x (by omega)

theorem CallSite.switchContext {c : Core} {s cur next : ℕ} (h : CallSite c s cur)
    (hrsi : c.regs.gpr .rsi = BitVec.ofNat 64 next) (hnext : next + 192 ≤ 2 ^ 64) :
    Switched c s cur next (ContextSwitching.switchContext c) := by
  have hflags : (execAll c ContextSwitching.compareCurrent).regs.rflags =
      subFlags c.regs.rflags (c.regs.gpr .rdi) 0 := rfl
  have hnot : ¬ (subFlags c.regs.rflags (c.regs.gpr .rdi) 0 &&& rflagsZF ≠ 0) := by
    unfold subFlags
    rw [withArithmetic_zero, h.rdi]
    intro hzero
    have hfits := h.fits
    have hnat := congrArg BitVec.toNat hzero
    rw [show (0 : QWORD) = 0#64 from rfl, BitVec.sub_zero, BitVec.toNat_ofNat,
      Nat.mod_eq_of_lt (by omega)] at hnat
    exact absurd hnat h.current.ne'
  unfold ContextSwitching.switchContext
  dsimp only
  have hsaves := h.saves
  rw [execAll_append] at hsaves
  rw [hflags, if_neg hnot, List.append_assoc, execAll_append]
  exact hsaves.switches h.fits hrsi hnext

/-- The registers of a caller of `switchContext` behind the call. The arithmetic flags and the two
flags that `pushfq` leaves out are not kept. -/
structure Returned (c : Core) (r : Registers) : Prop where
  gpr : ∀ g ≠ .rsp, r.gpr g = c.regs.gpr g
  rsp : r.gpr .rsp = c.rsp + 8
  seg : r.seg = c.regs.seg
  rip : r.rip = readQword c.memory c.rsp.toNat
  flags : ∀ i < 64, arithmeticFlags.getLsbD i = false →
    r.rflags.getLsbD i = (c.regs.rflags.getLsbD i && pushedFlags.getLsbD i)

/-- Loading the context of a caller in the kernel returns to it. -/
theorem loadedRegisters_callContext {c : Core} (hkernel : ¬ c.regs.ring3) :
    Returned c (loadedRegisters (callContext c)) := by
  have hword (v : WORD) : (v.setWidth 64).setWidth 16 = v := by
    rw [BitVec.setWidth_setWidth_of_le _ (by decide), BitVec.setWidth_eq]
  have hcs : (callContext c regCS).setWidth 16 = c.regs.seg .cs := withAx_low _ _
  have hdrop : loadedRegisters (callContext c) =
      { gpr := fun
          | .rsp => c.rsp + 8
          | g => c.regs.gpr g
        seg := c.regs.seg
        rip := readQword c.memory c.rsp.toNat
        rflags := callFlags c } := by
    unfold loadedRegisters
    refine (Registers.dropSegments_kernel ?_).trans ?_
    · show ¬ (callContext c regCS).setWidth 16 &&& 3 = 3
      rw [hcs]
      exact hkernel
    congr 1
    · funext g
      cases g <;> rfl
    · funext s
      cases s with
      | cs => exact hcs
      | ss => exact withAx_low _ _
      | ds => exact withAx_low _ _
      | es => exact withAx_low _ _
      | fs => exact hword _
      | gs => exact hword _
  rw [hdrop]
  constructor
  · intro g hg
    cases g with
    | rsp => exact absurd rfl hg
    | _ => rfl
  · rfl
  · rfl
  · rfl
  · intro i hi harith
    show (callFlags c).getLsbD i = _
    unfold callFlags addFlags
    rw [BitVec.getLsbD_and, withArithmetic_bit hi harith, BitVec.getLsbD_and, Bool.and_assoc,
      Bool.and_self]

/-- A switch from `current` to another process, and the way back. -/
structure SwitchResumes (c : Core) (s cur next : ℕ) (c' : Core) : Prop where
  /-- The other process gets the registers of its own context. -/
  leaves : c'.regs = loadedRegisters (readContext c.memory next)
  outside : ∀ x, x < s - 24 ∨ s ≤ x → x < cur ∨ cur + 192 ≤ x → c'.memory x = c.memory x
  /-- Whoever switches to `current` while its context is still there returns to the caller. -/
  resumes : ∀ d : Core, d.regs.gpr .rsi = BitVec.ofNat 64 cur →
    (∀ x, cur ≤ x → x < cur + 192 → d.memory x = c'.memory x) →
      Returned c (execAll d ContextSwitching.loadContext).regs
  /-- So does a stub that finds a copy of the context in its frame. -/
  resumesFrame : ∀ (d : Core) (a : ℕ), a + 192 ≤ 2 ^ 64 → d.rsp = BitVec.ofNat 64 a →
    readContext d.memory a = readContext c'.memory cur →
      Returned c (execAll d Handler.isrExit).regs

theorem switch_resumes {c : Core} {s cur next : ℕ} (h : CallSite c s cur)
    (hkernel : ¬ c.regs.ring3) (hrsi : c.regs.gpr .rsi = BitVec.ofNat 64 next)
    (hnext : next + 192 ≤ 2 ^ 64) (hother : next + 192 ≤ cur ∨ cur + 192 ≤ next)
    (hstack : next + 192 ≤ s - 24 ∨ s ≤ next) :
    SwitchResumes c s cur next (ContextSwitching.switchContext c) := by
  have hswitched := h.switchContext hrsi hnext
  have hback := loadedRegisters_callContext hkernel
  rw [← hswitched.saved] at hback
  generalize ContextSwitching.switchContext c = c' at hswitched hback ⊢
  refine ⟨?_, hswitched.outside, fun d hd hkept => ?_, fun d a ha hd hframe => ?_⟩
  · rw [hswitched.loaded, readContext_congr fun x hx hx' =>
      hswitched.outside x (by omega) (by omega)]
  · rw [exec_loadContext hd h.fits, readContext_congr hkept]
    exact hback
  · rw [exec_exit hd ha, hframe]
    exact hback

theorem switch_resumes_pcbs : SwitchResumes
    ⟨⟨fun | .rsp => 0x2004F00 | .rdi => 0x100002D | .rsi => 0x100011A | _ => 0, fun _ => 0x10, 0, 2⟩,
      fun _ => 0⟩ 0x2004F00 0x100002D 0x100011A
    (ContextSwitching.switchContext
      ⟨⟨fun | .rsp => 0x2004F00 | .rdi => 0x100002D | .rsi => 0x100011A | _ => 0, fun _ => 0x10, 0,
        2⟩, fun _ => 0⟩) :=
  switch_resumes ⟨rfl, rfl, by decide, by decide, by decide, by decide, by decide⟩ (by decide) rfl
    (by decide) (by decide) (by decide)

end SkhuOS
