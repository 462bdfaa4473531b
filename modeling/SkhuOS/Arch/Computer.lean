import Mathlib.Logic.Relation
import SkhuOS.Arch.Switch
import SkhuOS.Proc.Contexts
import SkhuOS.Proc.InterruptFlag

/-! The kernel on its core: the assembly of `arch/ContextSwitching.asm` and `arch/Handler.asm` and
the copies of `timeoutSchedule` are executed, on the memory that holds the contexts of all
processes. Of the compiled code it is assumed how it calls and what it leaves alone, and this only
as long as it got the registers back that it is owed. -/
namespace SkhuOS
open Foundation

/-- The address of `context.reg` in the PCB of slot `p`. -/
def contextAt (p : ℕ) : ℕ := pcbPoolAddress + pcbSize * p + pcbContextOffset

/-- The frame of an interrupt, and that of a system call of process `p`. -/
def istTop : ℕ := istStartAddress + istSize
def istFrame : ℕ := istTop - 192
def callFrame (p : ℕ) : ℕ := stackTop p - 192

/-- IF. -/
def Registers.flag (r : Registers) : Bool := r.rflags.getLsbD 9

/-- What a run says of a process: `call` are its registers at the entry of the system call it is
in, `owed` is what its registers are to be when the processor comes back to it, and `intact` that
they always were. -/
structure Thread where
  call : Option Registers
  owed : Registers → Prop
  intact : Prop

def Thread.new : Thread := ⟨none, fun _ => True, True⟩

structure Computer where
  kernel : Kernel
  core : Core
  threads : ℕ → Thread

namespace Computer

variable (s : Computer)

def running : ℕ := s.kernel.sched.runningProcess

/-- The running process has always got its registers back. -/
def Intact : Prop := (s.threads s.running).intact

/-- The memory `m'` has the words of a context or frame at `a` that `m` has at `b`. -/
def SameWords (m' : Bytes) (a : ℕ) (m : Bytes) (b : ℕ) : Prop :=
  ∀ i < 192, m' (a + i) = m (b + i)

/-- From `m` to `m'` nothing is stored into the contexts of the processes nor into the frames of
their system calls. -/
structure Kept (m m' : Bytes) : Prop where
  contexts : ∀ p, s.kernel.allocProcessTable p = true → SameWords m' (contextAt p) m (contextAt p)
  frames : ∀ p, s.kernel.allocProcessTable p = true → (s.threads p).call.isSome →
    SameWords m' (callFrame p) m (callFrame p)

/-- The word at `top` is on the stack of the running process, with room for three words below it,
and below the frame of its system call. The stack of the shell lies before the interrupt stack. -/
structure OnStack (top : ℕ) : Prop where
  shell : s.running = 0 → 24 ≤ top ∧ top + 8 ≤ istStartAddress
  process : s.running ≠ 0 → processStackBase + processStackInterval * s.running + 24 ≤ top ∧
    top + 8 ≤ stackTop s.running
  frame : (s.threads s.running).call.isSome → top ≤ callFrame s.running

/-- The running process executes code of its own. -/
structure Ran (c : Core) : Prop where
  kept : s.Kept s.core.memory c.memory
  cs : c.regs.seg .cs = s.core.regs.seg .cs
  flag : c.regs.flag = s.core.regs.flag
  usable : c.regs.Usable

/-- It makes a kernel call that comes back. `createProcess` stores a context in a free slot. -/
structure Called (k' : Kernel) (c : Core) : Prop where
  kept : s.Kept s.core.memory c.memory
  created : ∀ p, s.kernel.allocProcessTable p = false → k'.allocProcessTable p = true →
    readContext c.memory (contextAt p) = k'.sched.cpu.context p
  cs : c.regs.seg .cs = s.core.regs.seg .cs
  flag : c.regs.flag = k'.sched.interruptFlag
  usable : c.regs.Usable

/-- It calls `switchContext` from kernel code with interrupts off, on its own stack, with the
addresses of its context and that of `next`. -/
structure Switches (next : ℕ) (c : Core) : Prop where
  kept : s.Kept s.core.memory c.memory
  kernel : ¬ c.regs.ring3
  off : c.regs.flag = false
  rdi : c.regs.gpr .rdi = BitVec.ofNat 64 (contextAt s.running)
  rsi : c.regs.gpr .rsi = BitVec.ofNat 64 (contextAt next)
  stack : ∃ top, c.rsp = BitVec.ofNat 64 top ∧ s.OnStack top

/-- `dispatchSyscall` comes back to the stub that called it. -/
structure Returns (d : Core) : Prop where
  kept : s.Kept s.core.memory d.memory
  rsp : d.rsp = BitVec.ofNat 64 (callFrame s.running)

/-- What `timeoutSchedule` copies when it gives the processor to `next`: the frame of the interrupt
to the context of the running process, and that of `next` to the frame. -/
def handled (next : ℕ) (m : Bytes) : Bytes :=
  if next = s.running then m
  else
    let saved := copyBytes m (contextAt s.running) m istFrame 192
    copyBytes saved istFrame saved (contextAt next) 192

/-- `dispatchInterrupt` was called in `e` and comes back in `d`. -/
structure Handles (next : ℕ) (e d : Core) : Prop where
  kept : s.Kept (s.handled next e.memory) d.memory
  frame : SameWords d.memory istFrame (s.handled next e.memory) istFrame
  rsp : d.rsp = e.rsp

/-- A new process in a slot owes nothing to the ones before it. -/
def fresh : ℕ → Thread := fun p => if s.kernel.allocProcessTable p then s.threads p else .new

/-- The processor goes from the running process, which is owed `owes`, to that of `k'`. -/
def handOver (owes : Registers → Prop) (k' : Kernel) (c' : Core) : Computer :=
  let owed p := if p = s.running then owes else (s.threads p).owed
  ⟨k', c', fun p =>
    ⟨(s.threads p).call, owed p,
      (s.threads p).intact ∧ (p = k'.sched.runningProcess → owed p c'.regs)⟩⟩

/-- The running process enters or leaves a system call. -/
def setCall (call : Option Registers) : ℕ → Thread :=
  Function.update s.threads s.running { s.threads s.running with call := call }

inductive Event where
  | own
  | call
  | switch (c : Core)
  | interrupt
  | syscall
  | sysret (d : Core)

/-- What the registers of the running process are to be when it gets the processor back, for the
event that takes it. -/
def Expected (s : Computer) : Event → Registers → Prop
  | .switch c => Returned c
  | _ => fun r => r = s.core.regs

/-- The core behind the entry of a stub with an interrupt. -/
def entered (vector : QWORD) : Core :=
  execAll (s.core.enter (BitVec.ofNat 64 istTop)) (Handler.isrEntry vector)

/-- One step. In `own` the running process executes code of its own; in `call` a kernel call that
does not switch; in `switch` one that calls `switchContext` with the registers and the memory of
`c`; in `interrupt` a stub with its dispatcher; in `syscall` and `sysret` the two halves of the stub
of the system calls. -/
inductive Step : Event → Computer → Prop
  | own {c : Core} (hcode : s.Intact → s.Ran c) : Step .own { s with core := c }
  | call {a : Action} {k' : Kernel} {c : Core} (ha : a.isInterrupt = false)
      (hstep : s.kernel.step a = some k') (hrun : k'.sched.runningProcess = s.running)
      (hcode : s.Intact → s.Called k' c) : Step .call ⟨k', c, s.fresh⟩
  | switch {a : Action} {k' : Kernel} {c : Core} (ha : a.isInterrupt = false)
      (hregs : a.regs = callContext c) (hstep : s.kernel.step a = some k')
      (hrun : k'.sched.runningProcess ≠ s.running)
      (hcode : s.Intact → s.Switches k'.sched.runningProcess c) :
      Step (.switch c) (s.handOver (s.Expected (.switch c)) k' (ContextSwitching.switchContext c))
  | interrupt {a : Action} {k' : Kernel} {vector : QWORD} {d : Core} (ha : a.isInterrupt = true)
      (hregs : a.regs = interruptContext s.core.regs) (hstep : s.kernel.step a = some k')
      (hcode : s.Handles k'.sched.runningProcess (s.entered vector) d) :
      Step .interrupt (s.handOver (s.Expected .interrupt) k' (execAll d Handler.isrExit))
  | syscall {k' : Kernel} {regs : ProcessContext} (hring : s.core.regs.ring3)
      (hshell : s.running ≠ 0) (hfree : (s.threads s.running).call = none)
      (hstep : s.kernel.step (.call (.setIf false) regs) = some k') :
      Step .syscall ⟨k', execAll (s.core.enter s.kernel.sched.rsp0) Handler.syscallEntry,
        s.setCall (some s.core.regs)⟩
  | sysret {k' : Kernel} {regs : ProcessContext} {r : Registers} {d : Core}
      (hcall : (s.threads s.running).call = some r)
      (hstep : s.kernel.step (.call (.setIf r.flag) regs) = some k')
      (hcode : s.Intact → s.Returns d) :
      Step (.sysret d) ⟨k', execAll d Handler.syscallExit, s.setCall none⟩

/-- The memory holds the contexts of the kernel and the frames of the system calls, and every
process has got what it is owed, or its context holds it. -/
structure Sound : Prop where
  valid : s.kernel.Valid
  flags : s.kernel.FlagsOff
  ownStacks : s.kernel.StacksSet
  usable : s.core.regs.Usable
  flag : s.core.regs.flag = s.kernel.sched.interruptFlag
  contexts : ∀ p, s.kernel.allocProcessTable p = true → p ≠ s.running →
    readContext s.core.memory (contextAt p) = s.kernel.sched.cpu.context p
  frames : ∀ p r, s.kernel.allocProcessTable p = true → (s.threads p).call = some r →
    p ≠ 0 ∧ r.Usable ∧ readContext s.core.memory (callFrame p) = interruptContext r
  intact : ∀ p, s.kernel.allocProcessTable p = true → (s.threads p).intact
  owed : ∀ p, s.kernel.allocProcessTable p = true → p ≠ s.running →
    (s.threads p).owed (loadedRegisters (s.kernel.sched.cpu.context p))

variable {s} {m m' : Bytes} {a b : ℕ}

theorem SameWords.readContext (h : SameWords m' a m b) : readContext m' a = readContext m b := by
  funext i
  have hbytes : readLE m' (a + 8 * i) 8 = readLE m (b + 8 * i) 8 :=
    blockRead_readLE 8 m' m (a + 8 * i) (b + 8 * i) fun j hj => by
      rw [Nat.add_assoc, Nat.add_assoc]
      exact h (8 * i + j) (by omega)
  unfold SkhuOS.readContext readQword
  rw [hbytes]

theorem SameWords.trans {m'' : Bytes} {c : ℕ} (h : SameWords m'' a m' b) (h' : SameWords m' b m c) :
    SameWords m'' a m c := fun i hi => (h i hi).trans (h' i hi)

theorem sameWords_of_outside (h : ∀ x, a ≤ x → x < a + 192 → m' x = m x) : SameWords m' a m a :=
  fun i hi => h (a + i) (by omega) (by omega)

/-- Contexts lie in the PCB pool, apart from each other, the interrupt stack and the kernel
stacks. -/
theorem contextAt_apart {p q : ℕ} (hne : p ≠ q) :
    contextAt p + 192 ≤ contextAt q ∨ contextAt q + 192 ≤ contextAt p := by
  unfold contextAt pcbPoolAddress pcbSize pcbContextOffset
  omega

theorem contextAt_between {p : ℕ} (hp : p < processMaxCount) :
    istTop ≤ contextAt p ∧ contextAt p + 192 ≤ processStackBase ∧ 0 < contextAt p := by
  unfold processMaxCount at hp
  unfold contextAt pcbPoolAddress pcbSize pcbContextOffset processStackBase istTop istStartAddress
    istSize
  omega

theorem callFrame_between {p : ℕ} (hp : p < processMaxCount) :
    processStackBase ≤ callFrame p ∧ callFrame p + 192 = stackTop p ∧ stackTop p < 2 ^ 32 := by
  unfold processMaxCount at hp
  unfold callFrame stackTop processStackBase processStackInterval processStackSize
  omega

theorem callFrame_apart {p q : ℕ} (hne : p ≠ q) :
    callFrame p + 192 ≤ callFrame q ∨ callFrame q + 192 ≤ callFrame p := by
  unfold callFrame stackTop processStackBase processStackInterval processStackSize
  omega

theorem withIf_contextIf {context : ProcessContext} {flag : Bool} (h : contextIf context = flag) :
    withIf context flag = context := by
  have hbit : (context regRFLAGS).getLsbD 9 = flag := h
  have hmask : rflagsIF = BitVec.twoPow 64 9 := rfl
  have hword : (if flag then context regRFLAGS ||| rflagsIF else context regRFLAGS &&& ~~~rflagsIF) =
      context regRFLAGS := by
    apply BitVec.eq_of_getLsbD_eq
    intro i hi
    cases flag with
    | true =>
      rw [if_pos rfl, BitVec.getLsbD_or, hmask, BitVec.getLsbD_twoPow]
      by_cases h9 : 9 = i
      · subst h9
        rw [hbit, Bool.true_or]
      · simp [h9]
    | false =>
      rw [if_neg (by decide), BitVec.getLsbD_and, BitVec.getLsbD_not, hmask,
        BitVec.getLsbD_twoPow]
      by_cases h9 : 9 = i
      · subst h9
        rw [hbit, Bool.false_and]
      · simp [h9, hi]
  unfold withIf
  rw [hword, Function.update_eq_self]

theorem loadedRegisters_flag (context : ProcessContext) :
    (loadedRegisters context).flag = contextIf context := by
  unfold loadedRegisters Registers.dropSegments
  split <;> rfl

/-- The kernel side of a step. -/
theorem Sound.kernel_step (h : s.Sound) {a : Action} {k' : Kernel}
    (hstep : s.kernel.step a = some k') : k'.Valid ∧ k'.FlagsOff ∧ k'.StacksSet := by
  have hcpu := h.valid.cpuStep h.flags.running hstep
  exact ⟨h.valid.step hstep, h.flags.step hcpu, h.ownStacks.step h.valid hcpu hstep⟩

theorem Sound.context_same (h : s.Sound) {a : Action} {k' : Kernel} {p : ℕ}
    (hstep : s.kernel.step a = some k') (halloc : s.kernel.allocProcessTable p = true)
    (hne : p ≠ s.running) : k'.sched.cpu.context p = s.kernel.sched.cpu.context p :=
  (h.valid.cpuStep h.flags.running hstep).context_same halloc hne

theorem Sound.running_lt (h : s.Sound) : s.running < processMaxCount :=
  h.valid.alloc_lt _ h.valid.running_alloc

theorem Sound.running_intact (h : s.Sound) : s.Intact := h.intact _ h.valid.running_alloc

theorem Kept.refl (m : Bytes) : s.Kept m m := ⟨fun _ _ _ _ => rfl, fun _ _ _ _ _ => rfl⟩

/-- Contexts and frames that a step leaves. -/
theorem Sound.contexts_kept (h : s.Sound) (hkept : s.Kept s.core.memory m) {p : ℕ}
    (halloc : s.kernel.allocProcessTable p = true) (hne : p ≠ s.running) :
    readContext m (contextAt p) = s.kernel.sched.cpu.context p :=
  (hkept.contexts p halloc).readContext.trans (h.contexts p halloc hne)

theorem Sound.frames_kept (h : s.Sound) {p : ℕ} {r : Registers}
    (halloc : s.kernel.allocProcessTable p = true) (hcall : (s.threads p).call = some r)
    (hkept : SameWords m (callFrame p) s.core.memory (callFrame p)) :
    p ≠ 0 ∧ r.Usable ∧ readContext m (callFrame p) = interruptContext r := by
  obtain ⟨hne, husable, hframe⟩ := h.frames p r halloc hcall
  exact ⟨hne, husable, hkept.readContext.trans hframe⟩

theorem Sound.own (h : s.Sound) {c : Core} (hcode : s.Ran c) : Sound { s with core := c } where
  valid := h.valid
  flags := h.flags
  ownStacks := h.ownStacks
  usable := hcode.usable
  flag := hcode.flag.trans h.flag
  contexts p halloc hne := h.contexts_kept hcode.kept halloc hne
  frames p r halloc hr := h.frames_kept halloc hr (hcode.kept.frames p halloc (by rw [hr]; rfl))
  intact := h.intact
  owed := h.owed

theorem Sound.call (h : s.Sound) {a : Action} {k' : Kernel} {c : Core}
    (hstep : s.kernel.step a = some k') (hrun : k'.sched.runningProcess = s.running)
    (hcode : s.Called k' c) : Sound ⟨k', c, s.fresh⟩ := by
  obtain ⟨hvalid, hflags, hstacks⟩ := h.kernel_step hstep
  have hthread (p : ℕ) : s.fresh p = s.threads p ∧ s.kernel.allocProcessTable p = true ∨
      s.fresh p = .new ∧ s.kernel.allocProcessTable p = false := by
    unfold fresh
    cases s.kernel.allocProcessTable p with
    | true => exact .inl ⟨rfl, rfl⟩
    | false => exact .inr ⟨rfl, rfl⟩
  refine ⟨hvalid, hflags, hstacks, hcode.usable, hcode.flag, fun p halloc hne => ?_,
    fun p r halloc hcall => ?_, fun p halloc => ?_, fun p halloc hne => ?_⟩
  all_goals rcases hthread p with ⟨hp, hbefore⟩ | ⟨hp, hbefore⟩
  · have hne' : p ≠ s.running := fun heq => hne (heq.trans hrun.symm)
    exact (h.contexts_kept hcode.kept hbefore hne').trans
      (h.context_same hstep hbefore hne').symm
  · exact hcode.created p hbefore halloc
  · have hr : (s.threads p).call = some r := by
      rw [← hp]
      exact hcall
    exact h.frames_kept hbefore hr (hcode.kept.frames p hbefore (by rw [hr]; rfl))
  · have hnone : (s.fresh p).call = some r := hcall
    rw [hp] at hnone
    cases hnone
  · show (s.fresh p).intact
    rw [hp]
    exact h.intact p hbefore
  · show (s.fresh p).intact
    rw [hp]
    trivial
  · have hne' : p ≠ s.running := fun heq => hne (heq.trans hrun.symm)
    show (s.fresh p).owed (loadedRegisters (k'.sched.cpu.context p))
    rw [hp, h.context_same hstep hbefore hne']
    exact h.owed p hbefore hne'
  · show (s.fresh p).owed (loadedRegisters (k'.sched.cpu.context p))
    rw [hp]
    trivial

/-- What the core must be when the processor is handed over: the registers are those of the context
of the process that gets it, or, if this is the one that had it, those it is owed. -/
structure HandedOver (s : Computer) (owes : Registers → Prop) (k' : Kernel) (c' : Core) : Prop where
  usable : c'.regs.Usable
  flag : c'.regs.flag = k'.sched.interruptFlag
  contexts : ∀ p, s.kernel.allocProcessTable p = true → p ≠ k'.sched.runningProcess →
    readContext c'.memory (contextAt p) = k'.sched.cpu.context p
  frames : ∀ p, s.kernel.allocProcessTable p = true → (s.threads p).call.isSome →
    SameWords c'.memory (callFrame p) s.core.memory (callFrame p)
  loads : k'.sched.runningProcess ≠ s.running →
    c'.regs = loadedRegisters (s.kernel.sched.cpu.context k'.sched.runningProcess)
  saves : k'.sched.runningProcess ≠ s.running →
    owes (loadedRegisters (k'.sched.cpu.context s.running))
  returns : k'.sched.runningProcess = s.running → owes c'.regs

theorem Sound.handOver (h : s.Sound) {a : Action} {k' : Kernel} {c' : Core}
    {owes : Registers → Prop} (hstep : s.kernel.step a = some k')
    (hnone : a.isInterrupt = true ∨ k'.sched.runningProcess ≠ s.running)
    (hover : HandedOver s owes k' c') : (s.handOver owes k' c').Sound := by
  obtain ⟨hvalid, hflags, hstacks⟩ := h.kernel_step hstep
  have hbefore {p : ℕ} : k'.allocProcessTable p = true → s.kernel.allocProcessTable p = true :=
    h.valid.alloc_before hstep hnone
  refine ⟨hvalid, hflags, hstacks, hover.usable, hover.flag,
    fun p halloc hne => hover.contexts p (hbefore halloc) hne, fun p r halloc hcall => ?_,
    fun p halloc => ⟨h.intact p (hbefore halloc), fun hnext => ?_⟩, fun p halloc hne => ?_⟩
  · exact h.frames_kept (hbefore halloc) hcall
      (hover.frames p (hbefore halloc) (by
        rw [show (s.threads p).call = some r from hcall]
        rfl))
  · -- the process that gets the processor
    show (if p = s.running then owes else (s.threads p).owed) c'.regs
    by_cases hp : p = s.running
    · rw [if_pos hp]
      exact hover.returns (hnext.symm.trans hp)
    · rw [if_neg hp, hover.loads (hnext ▸ hp), ← hnext]
      exact h.owed p (hbefore halloc) hp
  · -- those that wait
    show (if p = s.running then owes else (s.threads p).owed)
      (loadedRegisters (k'.sched.cpu.context p))
    by_cases hp : p = s.running
    · rw [if_pos hp, hp]
      exact hover.saves fun heq => hne (hp.trans heq.symm)
    · rw [if_neg hp, h.context_same hstep (hbefore halloc) hp]
      exact h.owed p (hbefore halloc) hp

/-- The stack of the running process is apart from the contexts and the frames. -/
theorem OnStack.apart {top : ℕ} (h : s.OnStack top) (hsound : s.Sound) :
    24 ≤ top ∧ top + 8 ≤ 2 ^ 64 ∧
    (∀ p < processMaxCount, contextAt p + 192 ≤ top - 24 ∨ top + 8 ≤ contextAt p) ∧
    ∀ p, s.kernel.allocProcessTable p = true → (s.threads p).call.isSome →
      callFrame p + 192 ≤ top - 24 ∨ top ≤ callFrame p := by
  have hlt := hsound.running_lt
  have hframe (p : ℕ) (halloc : s.kernel.allocProcessTable p = true)
      (hcall : (s.threads p).call.isSome) : p ≠ 0 := by
    obtain ⟨r, hr⟩ := Option.isSome_iff_exists.mp hcall
    exact (hsound.frames p r halloc hr).1
  by_cases hzero : s.running = 0
  · obtain ⟨hroom, htop⟩ := h.shell hzero
    refine ⟨hroom, ?_, fun p hp => .inr ?_, fun p halloc _ => .inr ?_⟩
    · unfold istStartAddress at htop
      omega
    · have := contextAt_between hp
      unfold istTop at this
      omega
    · have := callFrame_between (hsound.valid.alloc_lt p halloc)
      unfold istStartAddress at htop
      unfold processStackBase at this
      omega
  · obtain ⟨hroom, htop⟩ := h.process hzero
    have hown := callFrame_between hlt
    refine ⟨by omega, by omega, fun p hp => .inl ?_, fun p halloc hcall => ?_⟩
    · have := contextAt_between hp
      omega
    · by_cases hp : p = s.running
      · subst hp
        exact .inr (h.frame hcall)
      · have := hframe p halloc hcall
        unfold callFrame stackTop processStackSize processStackInterval at *
        omega

/-- The flag that `switchContext` saves. -/
theorem callContext_flag (c : Core) : contextIf (callContext c) = c.regs.flag := by
  show (callFlags c).getLsbD 9 = c.regs.rflags.getLsbD 9
  unfold callFlags addFlags
  rw [BitVec.getLsbD_and, withArithmetic_bit (by decide) (by decide), BitVec.getLsbD_and]
  simp [pushedFlags]

/-- `switchContext` does what the kernel's step says. -/
theorem Sound.switch (h : s.Sound) {a : Action} {k' : Kernel} {c : Core}
    (ha : a.isInterrupt = false) (hregs : a.regs = callContext c)
    (hstep : s.kernel.step a = some k') (hrun : k'.sched.runningProcess ≠ s.running)
    (hcode : s.Switches k'.sched.runningProcess c) :
    HandedOver s (Returned c) k' (ContextSwitching.switchContext c) := by
  obtain ⟨hvalid, -, -⟩ := h.kernel_step hstep
  obtain ⟨hkept, hkernel, hoff, hrdi, hrsi, top, hrsp, hstack⟩ := hcode
  obtain ⟨hroom, htop, hcontexts, hframes⟩ := hstack.apart h
  have hnext := h.valid.alloc_before hstep (.inr hrun) hvalid.running_alloc
  have hlt' : k'.sched.runningProcess < processMaxCount := h.valid.alloc_lt _ hnext
  have hbetween := contextAt_between h.running_lt
  have hbetween' := contextAt_between hlt'
  have hsmall : processStackBase < 2 ^ 32 := by decide
  have hsite : CallSite c top (contextAt s.running) :=
    ⟨hrsp, hrdi, hroom, htop, hbetween.2.2, by omega, hcontexts _ h.running_lt⟩
  have hswitched := hsite.switchContext hrsi (by omega)
  generalize ContextSwitching.switchContext c = c' at hswitched ⊢
  have hother (p : ℕ) (halloc : s.kernel.allocProcessTable p = true) (hne : p ≠ s.running) :
      readContext c'.memory (contextAt p) = s.kernel.sched.cpu.context p := by
    have hapart := contextAt_apart hne
    have hout : SameWords c'.memory (contextAt p) c.memory (contextAt p) :=
      sameWords_of_outside fun x hx hx' => by
        have := hcontexts p (h.valid.alloc_lt p halloc)
        exact hswitched.outside x (by omega) (by omega)
    exact hout.readContext.trans (h.contexts_kept hkept halloc hne)
  have hloaded : c'.regs = loadedRegisters (s.kernel.sched.cpu.context k'.sched.runningProcess) := by
    rw [hswitched.loaded, hother _ hnext hrun]
  obtain ⟨hcontext, hflag⟩ := (h.valid.callMove h.flags.running ha hstep).switched hrun
  rw [hregs, withIf_contextIf ((callContext_flag c).trans hoff)] at hcontext
  refine ⟨?_, ?_, fun p halloc hne => ?_, fun p halloc hcall => ?_, fun _ => hloaded, fun _ => ?_,
    fun heq => absurd heq hrun⟩
  · rw [hloaded]
    exact Registers.dropSegments_usable _
  · rw [hloaded, hflag]
    exact loadedRegisters_flag _
  · rw [hcontext, Function.update_apply]
    split
    next heq => exact heq ▸ hswitched.saved
    next hne' => exact hother p halloc hne'
  · have hbelow := callFrame_between (h.valid.alloc_lt p halloc)
    refine SameWords.trans (sameWords_of_outside fun x hx hx' => ?_) (hkept.frames p halloc hcall)
    have := hframes p halloc hcall
    exact hswitched.outside x (by omega) (by omega)
  · have hsaved : k'.sched.cpu.context s.running = callContext c := by
      rw [hcontext]
      exact Function.update_self _ _ _
    rw [hsaved]
    exact loadedRegisters_callContext hkernel

/-- The copies leave the contexts of the other processes, and put that of `next` into the frame. -/
theorem handled_spec {next : ℕ} (hrun : s.running < processMaxCount) (hnext : next < processMaxCount)
    (hne : next ≠ s.running) (m : Bytes) :
    SameWords (s.handled next m) (contextAt s.running) m istFrame ∧
      SameWords (s.handled next m) istFrame m (contextAt next) ∧
      ∀ a, istTop ≤ a → a + 192 ≤ contextAt s.running ∨ contextAt s.running + 192 ≤ a →
        SameWords (s.handled next m) a m a := by
  have hist : istFrame + 192 = istTop := rfl
  have hbetween := contextAt_between hrun
  have hbetween' := contextAt_between hnext
  have hapart := contextAt_apart hne
  unfold handled
  rw [if_neg hne]
  refine ⟨fun i hi => ?_, fun i hi => ?_, fun a ha hout => sameWords_of_outside fun x hx hx' => ?_⟩
  · rw [copyBytes_of_not_mem (by omega), copyBytes_of_mem hi]
  · rw [copyBytes_of_mem hi, copyBytes_of_not_mem (by omega)]
  · rw [copyBytes_of_not_mem (by omega), copyBytes_of_not_mem (by omega)]

/-- What the memory holds when the dispatcher comes back. -/
structure Dispatched (s : Computer) (next : ℕ) (m : Bytes) : Prop where
  frame : readContext m istFrame =
    if next = s.running then interruptContext s.core.regs else s.kernel.sched.cpu.context next
  left : next ≠ s.running → readContext m (contextAt s.running) = interruptContext s.core.regs
  contexts : ∀ p, s.kernel.allocProcessTable p = true → p ≠ s.running →
    readContext m (contextAt p) = s.kernel.sched.cpu.context p
  frames : ∀ p, s.kernel.allocProcessTable p = true → (s.threads p).call.isSome →
    SameWords m (callFrame p) s.core.memory (callFrame p)

/-- The entry of a stub stores the registers in the frame, below the top of the interrupt stack. -/
theorem Sound.dispatched (h : s.Sound) {next : ℕ} {e d : Core}
    (hentered : Entered s.core istTop e) (hnext : s.kernel.allocProcessTable next = true)
    (hcode : s.Handles next e d) : s.Dispatched next d.memory := by
  obtain ⟨hkept, hframe, -⟩ := hcode
  have hentry {a : ℕ} (ha : istTop ≤ a) : SameWords e.memory a s.core.memory a :=
    sameWords_of_outside fun x hx _ => hentered.outside x (.inr (by omega))
  have hbefore (p : ℕ) (halloc : s.kernel.allocProcessTable p = true) (hne : p ≠ s.running) :
      readContext e.memory (contextAt p) = s.kernel.sched.cpu.context p :=
    (hentry (contextAt_between (h.valid.alloc_lt p halloc)).1).readContext.trans
      (h.contexts p halloc hne)
  have hstacks (p : ℕ) (halloc : s.kernel.allocProcessTable p = true) :
      istTop ≤ callFrame p ∧ contextAt s.running + 192 ≤ callFrame p := by
    have hbetween := contextAt_between h.running_lt
    have hbetween' := callFrame_between (h.valid.alloc_lt p halloc)
    have hist : istTop ≤ processStackBase := by decide
    omega
  by_cases hrun : next = s.running
  · -- nothing was copied
    have hsame : s.handled next e.memory = e.memory := if_pos hrun
    rw [hsame] at hkept hframe
    refine ⟨?_, fun hne => absurd hrun hne, fun p halloc hne => ?_, fun p halloc hcall => ?_⟩
    · rw [if_pos hrun]
      exact hframe.readContext.trans hentered.frame
    · exact (hkept.contexts p halloc).readContext.trans (hbefore p halloc hne)
    · exact (hkept.frames p halloc hcall).trans (hentry (hstacks p halloc).1)
  · obtain ⟨hleft, hloaded, hothers⟩ :=
      handled_spec h.running_lt (h.valid.alloc_lt _ hnext) hrun e.memory
    refine ⟨?_, fun _ => ?_, fun p halloc hne => ?_, fun p halloc hcall => ?_⟩
    · rw [if_neg hrun]
      exact (hframe.trans hloaded).readContext.trans (hbefore _ hnext hrun)
    · exact ((hkept.contexts _ h.valid.running_alloc).trans hleft).readContext.trans hentered.frame
    · have hkeeps := hothers (contextAt p) (contextAt_between (h.valid.alloc_lt p halloc)).1
        (contextAt_apart hne)
      exact ((hkept.contexts p halloc).trans hkeeps).readContext.trans (hbefore p halloc hne)
    · obtain ⟨hist, hbehind⟩ := hstacks p halloc
      exact ((hkept.frames p halloc hcall).trans (hothers _ hist (.inr hbehind))).trans (hentry hist)

/-- A stub with its dispatcher does what the kernel's interrupt says. -/
theorem Sound.interrupt (h : s.Sound) {a : Action} {k' : Kernel} {vector : QWORD} {d : Core}
    (ha : a.isInterrupt = true) (hregs : a.regs = interruptContext s.core.regs)
    (hstep : s.kernel.step a = some k')
    (hcode : s.Handles k'.sched.runningProcess (s.entered vector) d) :
    HandedOver s (fun r => r = s.core.regs) k' (execAll d Handler.isrExit) := by
  obtain ⟨hvalid, -, -⟩ := h.kernel_step hstep
  have hnext := h.valid.alloc_before hstep (.inl ha) hvalid.running_alloc
  have hentered : Entered s.core istTop (s.entered vector) :=
    entered_isrEntry (by decide) (by decide) vector
  obtain ⟨hframe, hleft, hcontexts, hframes⟩ := h.dispatched hentered hnext hcode
  have hexit : execAll d Handler.isrExit =
      ⟨loadedRegisters (readContext d.memory istFrame), d.memory⟩ :=
    exec_exit (hcode.rsp.trans hentered.rsp) (by decide)
  rw [hexit]
  obtain ⟨hon, hmove⟩ := Kernel.interruptMove ha hstep
  have hsaved : withIf a.regs true = interruptContext s.core.regs := by
    rw [hregs]
    exact withIf_contextIf (h.flag.trans hon)
  by_cases hrun : k'.sched.runningProcess = s.running
  · rw [if_pos hrun] at hframe
    have hflag := hmove.same hrun
    rw [hsaved] at hflag
    refine ⟨Registers.dropSegments_usable _, ?_, fun p halloc hne => ?_, hframes,
      fun hne => absurd hrun hne, fun hne => absurd hrun hne, fun _ => ?_⟩
    · exact (loadedRegisters_flag _).trans (by rw [hframe, hflag])
    · have hne' : p ≠ s.running := fun heq => hne (heq.trans hrun.symm)
      exact (hcontexts p halloc hne').trans (h.context_same hstep halloc hne').symm
    · dsimp only
      rw [hframe, loadedRegisters_interruptContext h.usable]
  · rw [if_neg hrun] at hframe
    obtain ⟨hleaves, hflag⟩ := hmove.switched hrun
    have hcontext : k'.sched.cpu.context s.running = interruptContext s.core.regs :=
      hleaves.trans hsaved
    rw [h.context_same hstep hnext hrun] at hflag
    refine ⟨Registers.dropSegments_usable _, ?_, fun p halloc hne => ?_, hframes, fun _ => ?_,
      fun _ => ?_, fun heq => absurd heq hrun⟩
    · exact (loadedRegisters_flag _).trans (by rw [hframe, hflag])
    · by_cases hp : p = s.running
      · rw [hp]
        exact (hleft hrun).trans hcontext.symm
      · exact (hcontexts p halloc hp).trans (h.context_same hstep halloc hp).symm
    · dsimp only
      rw [hframe]
    · rw [hcontext, loadedRegisters_interruptContext h.usable]

theorem setIf_step {k k' : Kernel} {interrupt : Bool} {regs : ProcessContext}
    (hstep : k.step (.call (.setIf interrupt) regs) = some k') : k' = (k.setIf interrupt).2 := by
  simp only [Kernel.step, Option.ite_none_right_eq_some, Option.some.injEq] at hstep
  exact hstep.2.symm

/-- What entering or leaving a call changes of the threads. -/
theorem setCall_cases {call : Option Registers} (p : ℕ) :
    (s.setCall call p).intact = (s.threads p).intact ∧ (s.setCall call p).owed = (s.threads p).owed ∧
      (s.setCall call p).call = if p = s.running then call else (s.threads p).call := by
  unfold setCall
  rw [Function.update_apply]
  split
  next heq => exact ⟨heq ▸ rfl, heq ▸ rfl, rfl⟩
  · exact ⟨rfl, rfl, rfl⟩

/-- A system call enters on the stack of its process. -/
theorem Sound.syscall (h : s.Sound) {k' : Kernel} {regs : ProcessContext} (hshell : s.running ≠ 0)
    (hstep : s.kernel.step (.call (.setIf false) regs) = some k') :
    Sound ⟨k', execAll (s.core.enter s.kernel.sched.rsp0) Handler.syscallEntry,
      s.setCall (some s.core.regs)⟩ := by
  obtain ⟨hvalid, hflags, hstacks⟩ := h.kernel_step hstep
  obtain rfl := setIf_step hstep
  obtain ⟨hbase, hend, hsmall⟩ := callFrame_between h.running_lt
  have hrsp0 : s.kernel.sched.rsp0 = BitVec.ofNat 64 (stackTop s.running) := by
    have htop : s.kernel.sched.rsp0.toNat = stackTop s.running :=
      h.ownStacks.rsp0_toNat h.valid hshell
    rw [← htop, BitVec.ofNat_toNat, BitVec.setWidth_eq]
  have hentered : Entered s.core (stackTop s.running) _ :=
    entered_syscallEntry (by omega) (by omega)
  rw [hrsp0]
  generalize execAll (s.core.enter (BitVec.ofNat 64 (stackTop s.running)))
    Handler.syscallEntry = e at hentered ⊢
  have houtside {a : ℕ} (ha : a + 192 ≤ callFrame s.running ∨ stackTop s.running ≤ a) :
      SameWords e.memory a s.core.memory a :=
    sameWords_of_outside fun x hx hx' =>
      hentered.outside x (by unfold callFrame at ha; omega)
  refine ⟨hvalid, hflags, hstacks, ?_, hentered.off, fun p halloc hne => ?_,
    fun p r halloc hcall => ?_, fun p halloc => ?_, fun p halloc hne => ?_⟩
  · intro hring
    have hcs : e.regs.seg .cs = 0x10 := hentered.segments .cs (by decide)
    unfold Registers.ring3 at hring
    rw [hcs] at hring
    exact absurd hring (by decide)
  · have hbetween := contextAt_between (h.valid.alloc_lt p halloc)
    exact (houtside (.inl (by omega))).readContext.trans (h.contexts p halloc hne)
  · show p ≠ 0 ∧ r.Usable ∧ readContext e.memory (callFrame p) = interruptContext r
    have hcall' : (s.setCall (some s.core.regs) p).call = some r := hcall
    rw [(setCall_cases p).2.2] at hcall'
    split at hcall'
    next heq =>
      obtain rfl := heq
      obtain rfl : s.core.regs = r := Option.some.inj hcall'
      exact ⟨hshell, h.usable, hentered.frame⟩
    next hne =>
      have hbetween := callFrame_between (h.valid.alloc_lt p halloc)
      have hapart := callFrame_apart hne
      exact h.frames_kept halloc hcall' (houtside (by omega))
  · show (s.setCall _ p).intact
    rw [(setCall_cases p).1]
    exact h.intact p halloc
  · show (s.setCall _ p).owed _
    rw [(setCall_cases p).2.1]
    exact h.owed p halloc hne

/-- A system call returns to the registers it was made with, apart from its result. -/
theorem Sound.sysret (h : s.Sound) {k' : Kernel} {regs : ProcessContext} {r : Registers} {d : Core}
    (hcall : (s.threads s.running).call = some r)
    (hstep : s.kernel.step (.call (.setIf r.flag) regs) = some k') (hcode : s.Returns d) :
    Sound ⟨k', execAll d Handler.syscallExit, s.setCall none⟩ ∧
      (execAll d Handler.syscallExit).regs = r.setGpr .rax (d.regs.gpr .rax) := by
  obtain ⟨hvalid, hflags, hstacks⟩ := h.kernel_step hstep
  obtain rfl := setIf_step hstep
  have halloc : s.kernel.allocProcessTable s.running = true := h.valid.running_alloc
  obtain ⟨hbase, hend, hsmall⟩ := callFrame_between h.running_lt
  have hsome : (s.threads s.running).call.isSome := by rw [hcall]; rfl
  obtain ⟨-, husable, hframe⟩ := h.frames_kept halloc hcall (hcode.kept.frames _ halloc hsome)
  have hexit := exec_syscallExit hcode.rsp (by omega)
  rw [hframe, loadedRegisters_interruptContext husable] at hexit
  rw [hexit]
  have houtside {a : ℕ} (ha : a + 192 ≤ callFrame s.running ∨ stackTop s.running ≤ a) :
      SameWords (writeQword d.memory (callFrame s.running + 8 * 4) (d.regs.gpr .rax)) a
        d.memory a :=
    sameWords_of_outside fun x hx hx' => writeQword_outside (by omega)
  refine ⟨⟨hvalid, hflags, hstacks, husable, rfl, fun p halloc hne => ?_,
    fun p r' halloc' hcall' => ?_, fun p halloc => ?_, fun p halloc hne => ?_⟩, rfl⟩
  · have hbetween := contextAt_between (h.valid.alloc_lt p halloc)
    exact (houtside (.inl (by omega))).readContext.trans (h.contexts_kept hcode.kept halloc hne)
  · have hcall'' : (s.setCall none p).call = some r' := hcall'
    rw [(setCall_cases p).2.2] at hcall''
    split at hcall''
    · cases hcall''
    next hne =>
      have hsome : (s.threads p).call.isSome := by rw [hcall'']; rfl
      exact h.frames_kept halloc' hcall'' ((houtside (by have := callFrame_apart hne; omega)).trans
        (hcode.kept.frames p halloc' hsome))
  · show (s.setCall _ p).intact
    rw [(setCall_cases p).1]
    exact h.intact p halloc
  · show (s.setCall _ p).owed _
    rw [(setCall_cases p).2.1]
    exact h.owed p halloc hne

variable {s' : Computer} {e : Event}

theorem Sound.step (h : s.Sound) (hstep : Step s e s') : s'.Sound := by
  have hintact := h.running_intact
  cases hstep with
  | own hcode => exact h.own (hcode hintact)
  | call _ hstep hrun hcode => exact h.call hstep hrun (hcode hintact)
  | switch ha hregs hstep hrun hcode =>
    exact h.handOver hstep (.inr hrun) (h.switch ha hregs hstep hrun (hcode hintact))
  | interrupt ha hregs hstep hcode =>
    exact h.handOver hstep (.inl ha) (h.interrupt ha hregs hstep hcode)
  | syscall _ hshell _ hstep => exact h.syscall hshell hstep
  | sysret hcall hstep hcode => exact (h.sysret hcall hstep (hcode hintact)).1

/-- The memory of the shell's start: the contexts of the processes that `initScheduler` made are
in their PCBs. -/
structure Started (s : Computer) : Prop where
  kernel : ∃ b : Boot, s.kernel = b.start
  usable : s.core.regs.Usable
  flag : s.core.regs.flag = s.kernel.sched.interruptFlag
  contexts : ∀ p, s.kernel.allocProcessTable p = true → p ≠ s.running →
    readContext s.core.memory (contextAt p) = s.kernel.sched.cpu.context p
  threads : ∀ p, s.threads p = .new

/-- A state that some steps lead to. -/
def Reached (s : Computer) : Prop :=
  ∃ s₀, Started s₀ ∧ Relation.ReflTransGen (fun t t' => ∃ e, Step t e t') s₀ s

theorem Started.sound (h : Started s) : s.Sound := by
  obtain ⟨⟨b, hb⟩, husable, hflag, hcontexts, hthreads⟩ := h
  refine ⟨?_, ?_, ?_, husable, hflag, hcontexts, fun p r _ hr => ?_, fun p _ => ?_, fun p _ _ => ?_⟩
  · rw [hb]
    exact b.start_valid
  · rw [hb]
    exact b.start_flagsOff
  · rw [hb]
    exact b.start_stacksSet
  · rw [hthreads] at hr
    cases hr
  · rw [hthreads]
    trivial
  · rw [hthreads]
    trivial

theorem Reached.sound (h : Reached s) : s.Sound := by
  obtain ⟨s₀, hstarted, hsteps⟩ := h
  induction hsteps with
  | refl => exact hstarted.sound
  | tail _ hstep ih =>
    obtain ⟨e, hstep⟩ := hstep
    exact ih.step hstep

theorem Reached.step (h : Reached s) (hstep : Step s e s') : Reached s' := by
  obtain ⟨s₀, hstarted, hsteps⟩ := h
  exact ⟨s₀, hstarted, hsteps.tail ⟨e, hstep⟩⟩

end Computer
end SkhuOS
