import SkhuOS.Arch.ContextSwitching

/-! The stubs of `arch/Handler.asm`: what an interrupt or a system call leaves on its stack, and
what the registers are when the stub returns. -/
namespace SkhuOS
open Foundation

section Pushes

variable {c : Core} {top : ℕ}

theorem pushes_append (vs ws : List QWORD) : c.pushes (vs ++ ws) = (c.pushes vs).pushes ws :=
  List.foldl_append

theorem pushes_setSeg (s : Seg) (v : WORD) (vs : List QWORD) :
    (c.setSeg s v).pushes vs = (c.pushes vs).setSeg s v := by
  induction vs generalizing c with
  | nil => rfl
  | cons w vs ih => exact ih (c := c.push w)

theorem pushes_setFlags (rflags : QWORD) (vs : List QWORD) :
    (c.setFlags rflags).pushes vs = (c.pushes vs).setFlags rflags := by
  induction vs generalizing c with
  | nil => rfl
  | cons w vs ih => exact ih (c := c.push w)

theorem pushes_seg (vs : List QWORD) : (c.pushes vs).regs.seg = c.regs.seg := by
  induction vs generalizing c with
  | nil => rfl
  | cons w vs ih => exact ih (c := c.push w)

theorem pushes_rflags (vs : List QWORD) : (c.pushes vs).regs.rflags = c.regs.rflags := by
  induction vs generalizing c with
  | nil => rfl
  | cons w vs ih => exact ih (c := c.push w)

end Pushes

/-- The words that the processor pushes, the lowest first. -/
def interruptFrame (c : Core) : List QWORD :=
  [c.regs.rip, (c.regs.seg .cs).setWidth 64, c.regs.rflags, c.rsp, (c.regs.seg .ss).setWidth 64]

theorem interruptContext_eq (c : Core) (i : Fin 24) : interruptContext c.regs i =
    (savedRegisters c.regs ++ interruptFrame c).getD i 0 := rfl

/-- A stub behind its `SAVEREG`, on the stack that ends at `top`: the frame has the layout of a
`ProcessContext`, and the handler runs on kernel segments with interrupts off. -/
structure Entered (c : Core) (top : ℕ) (c' : Core) : Prop where
  rsp : c'.rsp = BitVec.ofNat 64 (top - 192)
  frame : readContext c'.memory (top - 192) = interruptContext c.regs
  outside : ∀ x, x < top - 192 ∨ top ≤ x → c'.memory x = c.memory x
  segments : ∀ s ≠ .ss, c'.regs.seg s = if s = .cs then 0x10 else 0x08
  off : c'.regs.rflags.getLsbD 9 = false

/-- The processor and `SAVEREG` fill the frame from its end downwards. -/
theorem enter_pushRegisters {c : Core} {top : ℕ} :
    (execAll (c.enter (BitVec.ofNat 64 top)) pushRegisters).memory =
      ((c.atStack top).pushes (savedRegisters c.regs ++ interruptFrame c).reverse).memory ∧
    (execAll (c.enter (BitVec.ofNat 64 top)) pushRegisters).rsp =
      ((c.atStack top).pushes (savedRegisters c.regs ++ interruptFrame c).reverse).rsp := by
  have hsaved : savedRegisters (c.enter (BitVec.ofNat 64 top)).regs = savedRegisters c.regs := by
    unfold Core.enter
    dsimp only
    split <;> rfl
  have hframe : (c.atStack top).pushes (interruptFrame c).reverse =
      (c.setGpr .rsp (BitVec.ofNat 64 top)).pushes [(c.regs.seg .ss).setWidth 64, c.rsp,
        c.regs.rflags, (c.regs.seg .cs).setWidth 64, c.regs.rip] := rfl
  -- selectors and flags do not matter for what is pushed
  have hsame (d : Core) (v rflags : QWORD) (cs : WORD) :
      (((d.setSeg .cs cs).setFlags rflags).setGpr .rax v).memory = d.memory ∧
        (((d.setSeg .cs cs).setFlags rflags).setGpr .rax v).rsp = d.rsp := ⟨rfl, rfl⟩
  have hss (d : Core) : (d.setSeg .ss 0).memory = d.memory ∧ (d.setSeg .ss 0).rsp = d.rsp :=
    ⟨rfl, rfl⟩
  rw [execAll_pushRegisters, hsaved, List.reverse_append, pushes_append, hframe]
  unfold Core.enter
  dsimp only
  rw [pushes_setFlags, pushes_setSeg, (hsame _ _ _ _).1, (hsame _ _ _ _).2]
  split
  · rw [pushes_setSeg]
    exact hss _
  · exact ⟨rfl, rfl⟩

theorem Entered.setGpr {c c' : Core} {top : ℕ} (h : Entered c top c') {g : Gpr} (hg : g ≠ .rsp)
    (v : QWORD) : Entered c top (c'.setGpr g v) where
  rsp := (Registers.setGpr_of_ne _ _ hg.symm).trans h.rsp
  frame := h.frame
  outside := h.outside
  segments := h.segments
  off := h.off

/-- The words of the frame, by their index in a `ProcessContext`. -/
theorem pushes_frame {c d : Core} {top : ℕ} (h192 : 192 ≤ top) (htop : top < 2 ^ 64)
    (hd : d.memory = ((c.atStack top).pushes (savedRegisters c.regs ++ interruptFrame c).reverse).memory) :
    readContext d.memory (top - 192) = interruptContext c.regs ∧
      ∀ x, x < top - 192 ∨ top ≤ x → d.memory x = c.memory x := by
  have hlength : (savedRegisters c.regs ++ interruptFrame c).reverse.length = 24 := rfl
  have hrsp : (c.atStack top).rsp = BitVec.ofNat 64 top := Registers.setGpr_self _ _
  have hpushed : Pushed _ top (savedRegisters c.regs ++ interruptFrame c).reverse _ :=
    pushes_spec hrsp (by omega) htop
  obtain ⟨-, hwords, houtside⟩ := hpushed
  rw [hd]
  constructor
  · funext i
    have hi := hwords (23 - i) (by omega)
    have hat : top - 8 * (23 - i + 1) = top - 192 + 8 * i := by omega
    have hback : 24 - 1 - (23 - (i : ℕ)) = i := by omega
    rw [hat, List.getElem_reverse] at hi
    rw [interruptContext_eq, readContext, hi, List.getD_eq_getElem?_getD,
      List.getElem?_eq_getElem (by simp [savedRegisters, interruptFrame])]
    congr 1
  · intro x hx
    exact houtside x (by omega)

theorem pushRegisters_kept (c : Core) : (execAll c pushRegisters).regs.seg = c.regs.seg ∧
    (execAll c pushRegisters).regs.rflags = c.regs.rflags := by
  have hkept (d : Core) (v : QWORD) : (d.setGpr .rax v).regs.seg = d.regs.seg ∧
      (d.setGpr .rax v).regs.rflags = d.regs.rflags := ⟨rfl, rfl⟩
  rw [execAll_pushRegisters, (hkept _ _).1, (hkept _ _).2]
  exact ⟨pushes_seg _, pushes_rflags _⟩

/-- The kernel selectors that the stubs load behind the saved registers. -/
theorem loadSelectors_spec (d : Core) :
    let d' := execAll d [.movAx 0x08, .movSegAx .ds, .movSegAx .es, .movSegAx .gs, .movSegAx .fs]
    d'.rsp = d.rsp ∧ d'.memory = d.memory ∧ d'.regs.rflags = d.regs.rflags ∧
      ∀ s ≠ .ss, d'.regs.seg s = if s = .cs then d.regs.seg .cs else 0x08 := by
  have hax : (withAx (d.regs.gpr .rax) 0x08).setWidth 16 = 0x08 := withAx_low _ _
  refine ⟨rfl, rfl, rfl, fun s hs => ?_⟩
  cases s with
  | cs => rfl
  | ss => exact absurd rfl hs
  | ds => exact hax
  | es => exact hax
  | fs => exact hax
  | gs => exact hax

/-- `SAVEREG` of the stubs, on the stack that ends at `top`. -/
theorem entered_saveReg {c : Core} {top : ℕ} (h192 : 192 ≤ top) (htop : top < 2 ^ 64) :
    Entered c top (execAll (c.enter (BitVec.ofNat 64 top)) Handler.saveReg) := by
  obtain ⟨hmemory, hrsp⟩ := @enter_pushRegisters c top
  obtain ⟨hframe, houtside⟩ := pushes_frame h192 htop hmemory
  obtain ⟨hseg, hflags⟩ := pushRegisters_kept (c.enter (BitVec.ofNat 64 top))
  have hpushed : Pushed (c.atStack top) top (savedRegisters c.regs ++ interruptFrame c).reverse _ :=
    pushes_spec (Registers.setGpr_self _ _) (show 8 * 24 ≤ top by omega) htop
  have hlast := hpushed.regs
  have hcs : (c.enter (BitVec.ofNat 64 top)).regs.seg .cs = 0x10 := rfl
  have hmask : (c.enter (BitVec.ofNat 64 top)).regs.rflags = c.regs.rflags &&& ~~~0x14300 := rfl
  unfold Handler.saveReg
  rw [execAll_append]
  rw [hmask] at hflags
  rw [Core.rsp, Core.rsp, hlast, Registers.setGpr_self] at hrsp
  generalize execAll (c.enter (BitVec.ofNat 64 top)) pushRegisters = d at *
  obtain ⟨hrsp', hmemory', hflags', hseg'⟩ := loadSelectors_spec d
  constructor
  · exact hrsp'.trans hrsp
  · rw [hmemory', hframe]
  · rw [hmemory']
    exact houtside
  · rwa [hseg, hcs] at hseg'
  · rw [hflags', hflags, BitVec.getLsbD_and]
    simp

namespace Registers

/-- In ring 3 no data segment is one of the kernel: such a selector cannot be loaded there. -/
def Usable (r : Registers) : Prop :=
  r.ring3 → ∀ s ≠ .cs, s ≠ .ss → openToUser (r.seg s) = true

theorem Usable.dropSegments {r : Registers} (h : r.Usable) : r.dropSegments = r := by
  unfold Registers.dropSegments
  split
  next hring =>
    congr 1
    funext s
    split
    · rfl
    next hs =>
      rw [not_or] at hs
      rw [if_pos (h hring s hs.1 hs.2)]
  · rfl

theorem dropSegments_kernel {r : Registers} (h : ¬ r.ring3) : r.dropSegments = r := if_neg h

/-- What `iretq` leaves in the segments is usable. -/
theorem dropSegments_usable (r : Registers) : r.dropSegments.Usable := by
  unfold Registers.dropSegments
  split
  next hring =>
    intro _ s hcs hss
    dsimp only
    rw [if_neg (by simp [hcs, hss])]
    split
    next hopen => exact hopen
    · rfl
  next hring =>
    intro hring'
    exact absurd hring' hring

end Registers

/-- The frame of an interrupt gives the registers back. -/
theorem loadedRegisters_interruptContext {r : Registers} (h : r.Usable) :
    loadedRegisters (interruptContext r) = r := by
  have hword (v : WORD) : (v.setWidth 64).setWidth 16 = v := by
    rw [BitVec.setWidth_setWidth_of_le _ (by decide), BitVec.setWidth_eq]
  refine Eq.trans ?_ h.dropSegments
  unfold loadedRegisters
  congr 1
  obtain ⟨gpr, seg, rip, rflags⟩ := r
  congr 1
  · funext g
    cases g <;> rfl
  · funext s
    cases s with
    | cs => exact hword _
    | ss => exact hword _
    | ds => exact withAx_low _ _
    | es => exact withAx_low _ _
    | fs => exact hword _
    | gs => exact hword _

theorem exec_exit {d : Core} {a : ℕ} (hrsp : d.rsp = BitVec.ofNat 64 a) (ha : a + 192 ≤ 2 ^ 64) :
    execAll d Handler.isrExit = ⟨loadedRegisters (readContext d.memory a), d.memory⟩ := by
  have hat := d.atStack_rsp hrsp
  have hmemory : (d.atStack a).memory = d.memory := rfl
  have hload := execAll_load (c := d) ha
  rw [← hat] at hload
  exact hload

/-- What an interrupt stub does for the code it interrupts, on the stack that ends at `top`. -/
structure StubTransparent (c : Core) (top : ℕ) (vector : QWORD) (entered : Core) : Prop where
  enters : Entered c top entered
  passes : entered.regs.gpr .rdi = vector
  /-- The dispatcher returned, and left another context in the frame. -/
  loads : ∀ d : Core, d.rsp = entered.rsp → execAll d Handler.isrExit =
    ⟨loadedRegisters (readContext d.memory (top - 192)), d.memory⟩
  /-- The dispatcher returned, and left the frame as it was. -/
  restores : ∀ d : Core, d.rsp = entered.rsp →
    (∀ x, top - 192 ≤ x → x < top → d.memory x = entered.memory x) →
      execAll d Handler.isrExit = ⟨c.regs, d.memory⟩

theorem readContext_congr {m m' : Bytes} {a : ℕ} (h : ∀ x, a ≤ x → x < a + 192 → m' x = m x) :
    readContext m' a = readContext m a := by
  funext i
  exact readQword_congr fun x hx hx' => h x (by omega) (by omega)

theorem entered_isrEntry {c : Core} {top : ℕ} (h192 : 192 ≤ top) (htop : top < 2 ^ 64)
    (vector : QWORD) :
    Entered c top (execAll (c.enter (BitVec.ofNat 64 top)) (Handler.isrEntry vector)) := by
  unfold Handler.isrEntry
  rw [execAll_append]
  exact (entered_saveReg h192 htop).setGpr (by decide) vector

theorem interrupt_transparent {c : Core} {top : ℕ} (h192 : 192 ≤ top) (htop : top < 2 ^ 64)
    (husable : c.regs.Usable) (vector : QWORD) : StubTransparent c top vector
      (execAll (c.enter (BitVec.ofNat 64 top)) (Handler.isrEntry vector)) := by
  have hentered : Entered c top _ := entered_isrEntry h192 htop vector
  have hpasses : (execAll (c.enter (BitVec.ofNat 64 top))
      (Handler.isrEntry vector)).regs.gpr .rdi = vector := by
    unfold Handler.isrEntry
    rw [execAll_append]
    exact Registers.setGpr_self _ _
  have hloads (d : Core) (hd : d.rsp = _) := exec_exit (hd.trans hentered.rsp)
    (show top - 192 + 192 ≤ 2 ^ 64 by omega)
  refine ⟨hentered, hpasses, hloads, fun d hd hkept => ?_⟩
  rw [hloads d hd, readContext_congr fun x hx hx' => hkept x hx (by omega), hentered.frame,
    loadedRegisters_interruptContext husable]

theorem interrupt_transparent_iret : StubTransparent
    ⟨⟨fun _ => 0, fun _ => 0x10, 0x600000, 0x202⟩, fun _ => 0⟩ 0xC00000 0x20
    (execAll (Core.enter ⟨⟨fun _ => 0, fun _ => 0x10, 0x600000, 0x202⟩, fun _ => 0⟩ 0xC00000)
      (Handler.isrEntry 0x20)) :=
  interrupt_transparent (by decide) (by decide) (fun h => absurd h (by decide)) 0x20

/-- A store into one word of a frame. -/
theorem readContext_writeQword (m : Bytes) (a : ℕ) (i : Fin 24) (v : QWORD) :
    readContext (writeQword m (a + 8 * i) v) a = Function.update (readContext m a) i v := by
  funext j
  rw [Function.update_apply]
  split
  next hji =>
    subst hji
    exact readQword_writeQword
  next hji =>
    have hne : (j : ℕ) ≠ i := fun h => hji (Fin.ext h)
    exact readQword_writeQword_apart (by omega)

theorem dropSegments_setGpr (r : Registers) (g : Gpr) (v : QWORD) :
    (r.setGpr g v).dropSegments = r.dropSegments.setGpr g v := by
  have hring : (r.setGpr g v).ring3 ↔ r.ring3 := Iff.rfl
  unfold Registers.dropSegments
  by_cases h : r.ring3
  · rw [if_pos h, if_pos (hring.mpr h)]
    rfl
  · rw [if_neg h, if_neg (hring.not.mpr h)]

theorem loadedRegisters_rax (context : ProcessContext) (v : QWORD) :
    loadedRegisters (Function.update context regRAX v) =
      (loadedRegisters context).setGpr .rax v := by
  unfold loadedRegisters
  rw [← dropSegments_setGpr]
  congr 1
  unfold Registers.setGpr
  congr 1
  funext g
  cases g <;> rfl

/-- What the stub of the system calls does for its caller: the dispatcher gets the number and the
arguments, and the caller gets its result. -/
structure SyscallTransparent (c : Core) (top : ℕ) (entered : Core) : Prop where
  enters : Entered c top entered
  number : entered.regs.gpr .rdi = c.regs.gpr .rax
  arg1 : entered.regs.gpr .rsi = c.regs.gpr .rdi
  arg2 : entered.regs.gpr .rdx = c.regs.gpr .rsi
  arg3 : entered.regs.gpr .rcx = c.regs.gpr .rdx
  returns : ∀ d : Core, d.rsp = entered.rsp →
    (∀ x, top - 192 ≤ x → x < top → d.memory x = entered.memory x) →
      execAll d Handler.syscallExit = ⟨c.regs.setGpr .rax (d.regs.gpr .rax),
        writeQword d.memory (top - 192 + 8 * 4) (d.regs.gpr .rax)⟩

/-- The four loads of the stub behind `SAVEREG`. -/
theorem loadArguments_spec {d : Core} {a : ℕ} (hrsp : d.rsp = BitVec.ofNat 64 a)
    (ha : a + 192 ≤ 2 ^ 64) :
    execAll d [.load .rdi .rsp (4 * 8), .load .rsi .rsp (9 * 8), .load .rdx .rsp (8 * 8),
      .load .rcx .rsp (7 * 8)] =
    (((d.setGpr .rdi (readContext d.memory a regRAX)).setGpr .rsi
      (readContext d.memory a regRDI)).setGpr .rdx (readContext d.memory a regRSI)).setGpr .rcx
      (readContext d.memory a regRDX) := by
  have hat (i : Fin 24) (disp : QWORD) (hdisp : disp = BitVec.ofNat 64 (8 * i)) :
      (d.rsp + disp).toNat = a + 8 * i := by
    rw [hrsp, hdisp, ← BitVec.ofNat_add, BitVec.toNat_ofNat]
    omega
  have hload (e : Core) (hmemory : e.memory = d.memory) (hsame : e.rsp = d.rsp) (g : Gpr)
      (i : Fin 24) (disp : QWORD) (hdisp : disp = BitVec.ofNat 64 (8 * i)) :
      exec e (.load g .rsp disp) = e.setGpr g (readContext d.memory a i) := by
    have hbase : e.regs.gpr .rsp = d.rsp := hsame
    unfold exec readContext
    dsimp only
    rw [hbase, hat i disp hdisp, hmemory]
  unfold execAll
  simp only [List.foldl_cons, List.foldl_nil]
  rw [hload d rfl rfl .rdi regRAX (4 * 8) rfl]
  set e₁ := d.setGpr .rdi (readContext d.memory a regRAX)
  rw [hload e₁ rfl rfl .rsi regRDI (9 * 8) rfl]
  set e₂ := e₁.setGpr .rsi (readContext d.memory a regRDI)
  rw [hload e₂ rfl rfl .rdx regRSI (8 * 8) rfl]
  set e₃ := e₂.setGpr .rdx (readContext d.memory a regRSI)
  rw [hload e₃ rfl rfl .rcx regRDX (7 * 8) rfl]

/-- `syscallExit` with the frame at `a`: the result goes into the word of RAX. -/
theorem exec_syscallExit {d : Core} {a : ℕ} (hrsp : d.rsp = BitVec.ofNat 64 a)
    (ha : a + 192 ≤ 2 ^ 64) : execAll d Handler.syscallExit =
      ⟨(loadedRegisters (readContext d.memory a)).setGpr .rax (d.regs.gpr .rax),
        writeQword d.memory (a + 8 * 4) (d.regs.gpr .rax)⟩ := by
  have hat : (d.regs.gpr .rsp + 4 * 8).toNat = a + 8 * 4 := by
    have hgpr : d.regs.gpr .rsp = BitVec.ofNat 64 a := hrsp
    have h32 : (4 * 8 : QWORD) = BitVec.ofNat 64 32 := rfl
    rw [hgpr, h32, ← BitVec.ofNat_add, BitVec.toNat_ofNat]
    omega
  have hsplit : Handler.syscallExit = [.store .rsp (4 * 8) .rax] ++ Handler.isrExit := rfl
  have hstore : execAll d [.store .rsp (4 * 8) .rax] =
      { d with memory := writeQword d.memory (a + 8 * 4) (d.regs.gpr .rax) } := by
    rw [← hat]
    rfl
  have hrsp' : Core.rsp { d with memory := writeQword d.memory (a + 8 * 4) (d.regs.gpr .rax) } =
      BitVec.ofNat 64 a := hrsp
  rw [hsplit, execAll_append, hstore, exec_exit hrsp' ha, ← loadedRegisters_rax]
  have hframe : readContext (writeQword d.memory (a + 8 * 4) (d.regs.gpr .rax)) a =
      Function.update (readContext d.memory a) regRAX (d.regs.gpr .rax) :=
    readContext_writeQword d.memory a regRAX _
  rw [hframe]

/-- The C function finds its arguments in their registers. -/
theorem execAll_syscallEntry {c : Core} {top : ℕ} (h192 : 192 ≤ top) (htop : top < 2 ^ 64) :
    execAll (c.enter (BitVec.ofNat 64 top)) Handler.syscallEntry =
      ((((execAll (c.enter (BitVec.ofNat 64 top)) Handler.saveReg).setGpr .rdi
        (interruptContext c.regs regRAX)).setGpr .rsi (interruptContext c.regs regRDI)).setGpr .rdx
        (interruptContext c.regs regRSI)).setGpr .rcx (interruptContext c.regs regRDX) := by
  have hsaved : Entered c top _ := entered_saveReg h192 htop
  unfold Handler.syscallEntry
  rw [execAll_append, loadArguments_spec hsaved.rsp (by omega), hsaved.frame]

theorem entered_syscallEntry {c : Core} {top : ℕ} (h192 : 192 ≤ top) (htop : top < 2 ^ 64) :
    Entered c top (execAll (c.enter (BitVec.ofNat 64 top)) Handler.syscallEntry) := by
  rw [execAll_syscallEntry h192 htop]
  have hsaved : Entered c top _ := entered_saveReg h192 htop
  exact (((hsaved.setGpr (by decide) _).setGpr (by decide) _).setGpr (by decide) _).setGpr
    (by decide) _

theorem syscall_transparent {c : Core} {top : ℕ} (h192 : 192 ≤ top) (htop : top < 2 ^ 64)
    (husable : c.regs.Usable) : SyscallTransparent c top
      (execAll (c.enter (BitVec.ofNat 64 top)) Handler.syscallEntry) := by
  have hentered : Entered c top _ := entered_syscallEntry h192 htop
  rw [execAll_syscallEntry h192 htop] at hentered ⊢
  refine ⟨hentered, rfl, rfl, rfl, rfl, fun d hd hkept => ?_⟩
  rw [exec_syscallExit (hd.trans hentered.rsp) (by omega),
    readContext_congr fun x hx hx' => hkept x hx (by omega), hentered.frame,
    loadedRegisters_interruptContext husable]

theorem syscall_transparent_ring3 : SyscallTransparent
    ⟨⟨fun _ => 0, fun _ => 0x23, 0x3000000, 0x202⟩, fun _ => 0⟩ 0x2005000
    (execAll (Core.enter ⟨⟨fun _ => 0, fun _ => 0x23, 0x3000000, 0x202⟩, fun _ => 0⟩ 0x2005000)
      Handler.syscallEntry) :=
  syscall_transparent (by decide) (by decide) fun _ _ _ _ =>
    show Registers.openToUser 0x23 = true by decide

end SkhuOS
