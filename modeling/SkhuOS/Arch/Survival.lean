import SkhuOS.Arch.Computer

/-! What a process finds when the processor comes back to it: behind an interrupt, behind a call of
`switchContext`, and behind a system call. -/
namespace SkhuOS
open Foundation

namespace Computer

variable {s s' : Computer} {e : Event} {p : ℕ} {owes : Registers → Prop}

/-- Process `p` waits and is owed `owes`, and will run again. -/
structure Waiting (p : ℕ) (owes : Registers → Prop) (s : Computer) : Prop where
  away : s.running ≠ p
  alloc : s.kernel.allocProcessTable p = true
  alive : s.kernel.resumePoint p ≠ .exitProcess
  owed : (s.threads p).owed = owes

theorem Sound.alive_step (h : s.Sound) {a : Action} {k' : Kernel} (hw : Waiting p owes s)
    (hstep : s.kernel.step a = some k') :
    k'.allocProcessTable p = true ∧ k'.resumePoint p ≠ .exitProcess := by
  have haside := h.valid.step_aside hstep hw.away.symm hw.alloc hw.alive
  have hpoint : k'.resumePoint p = s.kernel.resumePoint p := by
    have hpoint := haside.point
    cases a <;> exact hpoint
  exact ⟨h.valid.slot_kept hstep hw.alloc hw.alive, hpoint ▸ hw.alive⟩

/-- A hand-over leaves a waiting process waiting, or gives it what it is owed. -/
theorem Waiting.handOver (hw : Waiting p owes s) {owes' : Registers → Prop} {k' : Kernel} {c' : Core}
    (halive : k'.allocProcessTable p = true ∧ k'.resumePoint p ≠ .exitProcess)
    (hsound : (s.handOver owes' k' c').Sound) :
    Waiting p owes (s.handOver owes' k' c') ∨ k'.sched.runningProcess = p ∧ owes c'.regs := by
  have hp : p ≠ s.running := hw.away.symm
  by_cases hrun : k'.sched.runningProcess = p
  · have hgot : (if p = s.running then owes' else (s.threads p).owed) c'.regs :=
      (hsound.intact p halive.1).2 hrun.symm
    rw [if_neg hp, hw.owed] at hgot
    exact .inr ⟨hrun, hgot⟩
  · exact .inl ⟨hrun, halive.1, halive.2, (if_neg hp).trans hw.owed⟩

/-- So does every step. -/
theorem Sound.waiting_step (h : s.Sound) (hw : Waiting p owes s) (hstep : Step s e s') :
    Waiting p owes s' ∨ s'.running = p ∧ owes s'.core.regs := by
  have hsound := h.step hstep
  cases hstep with
  | own => exact .inl ⟨hw.away, hw.alloc, hw.alive, hw.owed⟩
  | call _ hstep hrun =>
    obtain ⟨halloc, halive⟩ := h.alive_step hw hstep
    have hfresh : s.fresh p = s.threads p := if_pos hw.alloc
    exact .inl ⟨fun heq => hw.away (hrun.symm.trans heq), halloc, halive,
      (congrArg Thread.owed hfresh).trans hw.owed⟩
  | switch _ _ hstep => exact hw.handOver (h.alive_step hw hstep) hsound
  | interrupt _ _ hstep => exact hw.handOver (h.alive_step hw hstep) hsound
  | syscall _ _ _ hstep =>
    obtain ⟨halloc, halive⟩ := h.alive_step hw hstep
    obtain rfl := setIf_step hstep
    exact .inl ⟨hw.away, halloc, halive, (setCall_cases p).2.1.trans hw.owed⟩
  | sysret _ hstep =>
    obtain ⟨halloc, halive⟩ := h.alive_step hw hstep
    obtain rfl := setIf_step hstep
    exact .inl ⟨hw.away, halloc, halive, (setCall_cases p).2.1.trans hw.owed⟩

/-- A process that gives the processor up waits for what it is to find. -/
theorem Sound.departs (h : s.Sound) (hstep : Step s e s') (haway : s'.running ≠ s.running)
    (halive : s'.kernel.resumePoint s.running ≠ .exitProcess) :
    Waiting s.running (s.Expected e) s' := by
  have halloc {a : Action} {k' : Kernel} (hstep : s.kernel.step a = some k') :
      k'.allocProcessTable s.running = true :=
    h.valid.slot_kept hstep h.valid.running_alloc h.valid.running_not_exited
  cases hstep with
  | own => exact absurd rfl haway
  | call _ _ hrun => exact absurd hrun haway
  | switch _ _ hstep => exact ⟨haway, halloc hstep, halive, if_pos rfl⟩
  | interrupt _ _ hstep => exact ⟨haway, halloc hstep, halive, if_pos rfl⟩
  | syscall _ _ _ hstep => exact absurd (by rw [setIf_step hstep]; rfl) haway
  | sysret _ hstep => exact absurd (by rw [setIf_step hstep]; rfl) haway

section Runs

theorem call_step {k : Kernel} {c : Call} (hmay : k.MayCall c) (regs : ProcessContext) :
    k.step (.call c regs) = some (k.runCall c regs) := by
  simp only [Kernel.step]
  exact if_pos hmay

/-- A memory with the contexts `context` in the PCBs. -/
def layOut (context : ℕ → ProcessContext) : Bytes := fun x =>
  let p := (x - contextAt 0) / pcbSize
  let i := (x - contextAt 0) % pcbSize
  byteOf (context p ⟨i / 8 % 24, Nat.mod_lt _ (by decide)⟩).toNat (i % 8)

theorem layOut_at (context : ℕ → ProcessContext) (p : ℕ) {i : ℕ} (hi : i < 192) :
    layOut context (contextAt p + i) =
      byteOf (context p ⟨i / 8, by omega⟩).toNat (i % 8) := by
  have hslot : (contextAt p + i - contextAt 0) / pcbSize = p := by
    unfold contextAt pcbSize
    omega
  have hword : (contextAt p + i - contextAt 0) % pcbSize = i := by
    unfold contextAt pcbSize
    omega
  have hmod : i / 8 % 24 = i / 8 := Nat.mod_eq_of_lt (by omega)
  unfold layOut
  simp only [hslot, hword, hmod]

theorem readContext_layOut (context : ℕ → ProcessContext) (p : ℕ) :
    readContext (layOut context) (contextAt p) = context p := by
  funext i
  have hbytes : readLE (layOut context) (contextAt p + 8 * i) 8 = (context p i).toNat % 256 ^ 8 := by
    apply readLE_of_bytes
    intro j hj
    have hdiv : (8 * (i : ℕ) + j) / 8 = i := by omega
    have hmod : (8 * (i : ℕ) + j) % 8 = j := by omega
    rw [Nat.add_assoc, layOut_at context p (by omega)]
    simp only [hdiv, hmod]
  have hlt : (context p i).toNat < 256 ^ 8 := (context p i).isLt
  unfold readContext readQword
  rw [hbytes, Nat.mod_eq_of_lt hlt, BitVec.ofNat_toNat, BitVec.setWidth_eq]

/-- Registers of kernel code with the given flag. -/
def kernelRegs (flag : Bool) : Registers :=
  ⟨fun _ => 0, fun _ => 0x10, 0x600000, if flag then rflagsIF else 0⟩

theorem kernelRegs_spec (flag : Bool) :
    (kernelRegs flag).flag = flag ∧ (kernelRegs flag).Usable ∧ ¬ (kernelRegs flag).ring3 := by
  have hring : ¬ (kernelRegs flag).ring3 := by
    cases flag <;> decide
  refine ⟨by cases flag <;> decide, fun h => absurd h hring, hring⟩

/-- Each start of the shell is one of a computer. -/
def starting (b : Boot) : Computer :=
  ⟨b.start, ⟨kernelRegs b.start.sched.interruptFlag, layOut b.start.sched.cpu.context⟩,
    fun _ => .new⟩

theorem started (b : Boot) : Started (starting b) where
  kernel := ⟨b, rfl⟩
  usable := (kernelRegs_spec _).2.1
  flag := (kernelRegs_spec _).1
  contexts p _ _ := readContext_layOut _ p
  threads _ := rfl

theorem starting_reached (b : Boot) : Reached (starting b) := ⟨_, started b, .refl⟩

variable (s)

/-- The computer behind a kernel call that comes back with the memory `m`. -/
def after (k' : Kernel) (m : Bytes) : Computer :=
  ⟨k', ⟨kernelRegs k'.sched.interruptFlag, m⟩, s.fresh⟩

/-- The kernel behind a timer interrupt, and the computer behind it. -/
def tickKernel : Kernel :=
  s.kernel.interrupt (interruptContext s.core.regs) fun k =>
    { k with sched := k.sched.timerInterruptHandler }

def tick : Computer :=
  s.handOver (s.Expected .interrupt) s.tickKernel (execAll ⟨(s.entered 0).regs,
    s.handled s.tickKernel.sched.runningProcess (s.entered 0).memory⟩ Handler.isrExit)

/-- The core of kernel code that calls `switchContext` for `next` with its stack at `top`. -/
def calling (next top : ℕ) : Core :=
  ⟨(((kernelRegs false).setGpr .rdi (BitVec.ofNat 64 (contextAt s.running))).setGpr .rsi
    (BitVec.ofNat 64 (contextAt next))).setGpr .rsp (BitVec.ofNat 64 top), s.core.memory⟩

/-- The kernel and the computer when this is in `schedule`. -/
def scheduleKernel (next top : ℕ) : Kernel :=
  s.kernel.runCall .schedule (callContext (s.calling next top))

def schedule (next top : ℕ) : Computer :=
  s.handOver (s.Expected (.switch (s.calling next top))) (s.scheduleKernel next top)
    (ContextSwitching.switchContext (s.calling next top))

/-- The computer in a system call. -/
def enterCall : Computer :=
  ⟨(s.kernel.setIf false).2, execAll (s.core.enter s.kernel.sched.rsp0) Handler.syscallEntry,
    s.setCall (some s.core.regs)⟩

variable {s}

theorem after_step {a : Action} {k' : Kernel} {m : Bytes} (ha : a.isInterrupt = false)
    (hstep : s.kernel.step a = some k') (hrun : k'.sched.runningProcess = s.running)
    (hcs : s.core.regs.seg .cs = 0x10) (hkept : s.Kept s.core.memory m)
    (hcreated : ∀ p, s.kernel.allocProcessTable p = false → k'.allocProcessTable p = true →
      readContext m (contextAt p) = k'.sched.cpu.context p) : Step s .call (s.after k' m) :=
  .call ha hstep hrun fun _ =>
    ⟨hkept, hcreated, hcs.symm, (kernelRegs_spec _).1, (kernelRegs_spec _).2.1⟩

theorem tick_step (hif : s.kernel.sched.interruptFlag = true) : Step s .interrupt s.tick := by
  have hstep : s.kernel.step (.timer (interruptContext s.core.regs)) = some s.tickKernel := by
    simp only [Kernel.step, hif, ↓reduceIte]
    rfl
  have hrsp (c : Core) (m : Bytes) : (⟨c.regs, m⟩ : Core).rsp = c.rsp := rfl
  exact .interrupt rfl rfl hstep ⟨Kept.refl _, fun _ _ => rfl, hrsp (s.entered 0) _⟩

theorem schedule_step {next top : ℕ} (hmay : s.kernel.MayCall .schedule)
    (hnext : (s.scheduleKernel next top).sched.runningProcess = next) (haway : next ≠ s.running)
    (hstack : s.OnStack top) :
    Step s (.switch (s.calling next top)) (s.schedule next top) := by
  refine .switch rfl rfl (call_step hmay _) (by rw [hnext]; exact haway) fun _ =>
    ⟨.refl _, (kernelRegs_spec false).2.2, (kernelRegs_spec false).1, ?_, ?_, top, ?_, hstack⟩
  · unfold calling
    simp [Registers.setGpr_of_ne, Registers.setGpr_self]
  · rw [hnext]
    unfold calling
    simp [Registers.setGpr_of_ne, Registers.setGpr_self]
  · unfold calling Core.rsp
    simp [Registers.setGpr_self]

theorem enterCall_step (hring : s.core.regs.ring3) (hshell : s.running ≠ 0)
    (hfree : (s.threads s.running).call = none) (hmay : s.kernel.MayCall (.setIf false)) :
    Step s .syscall s.enterCall :=
  .syscall hring hshell hfree (call_step hmay fun _ => 0)

theorem sysret_step {r : Registers} (value : QWORD) (hcall : (s.threads s.running).call = some r)
    (hmay : s.kernel.MayCall (.setIf r.flag)) :
    ∃ d s', Step s (.sysret d) s' ∧ d.regs.gpr .rax = value := by
  let d : Core := ⟨((kernelRegs false).setGpr .rax value).setGpr .rsp
    (BitVec.ofNat 64 (callFrame s.running)), s.core.memory⟩
  have hrax : d.regs.gpr .rax = value :=
    (Registers.setGpr_of_ne _ _ (by decide)).trans (Registers.setGpr_self _ _)
  exact ⟨d, _, .sysret hcall (call_step hmay fun _ => 0) fun _ =>
    ⟨Kept.refl _, Registers.setGpr_self _ _⟩, hrax⟩

end Runs

/-- Steps during which process `p` does not get the processor. -/
def Away (p : ℕ) : Computer → Computer → Prop :=
  Relation.ReflTransGen fun t t' => (∃ e, Step t e t') ∧ t'.running ≠ p

/-- Whatever runs meanwhile: a process that lost the processor to an interrupt gets it back with
all its registers, and one that called `switchContext` behind that call. -/
theorem contexts_survive {s₁ s₂ s₃ : Computer} {e' : Event} (hreached : Reached s)
    (hdeparts : Step s e s₁) (halive : s₁.kernel.resumePoint s.running ≠ .exitProcess)
    (haway₁ : s₁.running ≠ s.running) (haway : Away s.running s₁ s₂) (hback : Step s₂ e' s₃)
    (hrun : s₃.running = s.running) : s.Expected e s₃.core.regs := by
  have hsound := hreached.sound
  have hwaits : s₂.Sound ∧ Waiting s.running (s.Expected e) s₂ := by
    clear hback
    induction haway with
    | refl => exact ⟨hsound.step hdeparts, hsound.departs hdeparts haway₁ halive⟩
    | tail _ hmove ih =>
      obtain ⟨⟨e, hmove⟩, hne⟩ := hmove
      obtain ⟨hs, hw⟩ := ih
      refine ⟨hs.step hmove, ?_⟩
      rcases hs.waiting_step hw hmove with hw' | ⟨hrun', -⟩
      · exact hw'
      · exact absurd hrun' hne
  rcases hwaits.1.waiting_step hwaits.2 hback with hw' | ⟨-, hgot⟩
  · exact absurd hrun hw'.away
  · exact hgot

/-- The shell turns interrupts on. -/
def shellOn : Computer :=
  (starting Boot.zero).after (Boot.zero.start.setIf true).2 (starting Boot.zero).core.memory

/-- It gives the processor to the collector. -/
def shellCalls : Computer := (starting Boot.zero).schedule 1 0x9000

theorem shellOn_reached : Reached shellOn := by
  have hmay : Boot.zero.start.MayCall (.setIf true) := by decide +kernel
  exact (starting_reached Boot.zero).step (after_step rfl (call_step hmay fun _ => 0) rfl rfl
    (.refl _)
    fun p hfree halloc => absurd (hfree.symm.trans halloc) (by decide))

theorem shell_spec : (shellOn.kernel.sched.interruptFlag = true ∧ shellOn.running = 0 ∧
      shellOn.tick.running = 1 ∧ shellOn.tick.kernel.sched.interruptFlag = true ∧
      shellOn.tick.kernel.resumePoint 0 ≠ .exitProcess ∧ shellOn.tick.tick.running = 0) ∧
    (starting Boot.zero).kernel.MayCall .schedule ∧ (starting Boot.zero).running = 0 ∧
      ((starting Boot.zero).scheduleKernel 1 0x9000).sched.runningProcess = 1 ∧
      shellCalls.kernel.sched.interruptFlag = true ∧
      shellCalls.kernel.resumePoint 0 ≠ .exitProcess ∧ shellCalls.tick.running = 0 := by
  decide +kernel

theorem shellCalls_step : Step (starting Boot.zero) (.switch ((starting Boot.zero).calling 1 0x9000))
    shellCalls := by
  obtain ⟨-, hmay, hrun, hnext, -⟩ := shell_spec
  exact schedule_step hmay hnext (by rw [hrun]; decide)
    ⟨fun _ => by decide, fun hne => absurd hrun hne, fun hcall => by cases hcall⟩

/-- The timer takes the processor from the shell for the collector and gives it back, and so it does
when the shell has called `switchContext`. -/
theorem contexts_survive_schedule : shellOn.tick.tick.core.regs = shellOn.core.regs ∧
    Returned ((starting Boot.zero).calling 1 0x9000) shellCalls.tick.core.regs := by
  obtain ⟨⟨hif, hrun, hrun₁, hif₁, halive, hback⟩, -, hrun', hnext, hif', halive', hback'⟩ :=
    shell_spec
  refine ⟨contexts_survive shellOn_reached (tick_step hif) (by rw [hrun]; exact halive)
    (by rw [hrun, hrun₁]; decide) .refl (tick_step hif₁) (hback.trans hrun.symm), ?_⟩
  have haway : shellCalls.running ≠ (starting Boot.zero).running := by
    rw [hrun', show shellCalls.running = 1 from hnext]
    decide
  exact contexts_survive (starting_reached Boot.zero) shellCalls_step (by rw [hrun']; exact halive')
    haway .refl (tick_step hif') (hback'.trans hrun'.symm)

/-- Steps while process `p` stays in its slot and does not return from its system call. -/
def InCall (p : ℕ) : Computer → Computer → Prop :=
  Relation.ReflTransGen fun t t' => ∃ e, Step t e t' ∧ t.kernel.allocProcessTable p = true ∧
    ∀ d, e = .sysret d → t.running ≠ p

theorem call_kept {r : Registers} (hstep : Step s e s')
    (halloc : s.kernel.allocProcessTable p = true) (hcall : (s.threads p).call = some r)
    (hinside : ∀ d, e = .sysret d → s.running ≠ p) : (s'.threads p).call = some r := by
  cases hstep with
  | own => exact hcall
  | call =>
    have hfresh : s.fresh p = s.threads p := if_pos halloc
    exact (congrArg Thread.call hfresh).trans hcall
  | switch => exact hcall
  | interrupt => exact hcall
  | syscall _ _ hfree =>
    have hne : p ≠ s.running := by
      rintro rfl
      rw [hfree] at hcall
      cases hcall
    exact ((setCall_cases p).2.2.trans (if_neg hne)).trans hcall
  | sysret => exact ((setCall_cases p).2.2.trans (if_neg (hinside _ rfl).symm)).trans hcall

theorem InCall.kept {s₁ s₂ : Computer} {r : Registers} (hinside : InCall p s₁ s₂)
    (hsound : s₁.Sound) (hcall : (s₁.threads p).call = some r) :
    s₂.Sound ∧ (s₂.threads p).call = some r := by
  induction hinside with
  | refl => exact ⟨hsound, hcall⟩
  | tail _ hmove ih =>
    obtain ⟨e, hmove, halloc, hinside⟩ := hmove
    exact ⟨ih.1.step hmove, call_kept hmove halloc ih.2 hinside⟩

/-- A system call of a user process, whatever runs before it returns: its registers are those of
its `int`, but for the result in RAX. -/
theorem syscalls_return {s₁ s₂ s₃ : Computer} {d : Core} (hreached : Reached s)
    (hcall : Step s .syscall s₁) (hinside : InCall s.running s₁ s₂)
    (hret : Step s₂ (.sysret d) s₃) (hrun : s₂.running = s.running) :
    s₃.core.regs = s.core.regs.setGpr .rax (d.regs.gpr .rax) := by
  have hsound := hreached.sound
  have hentered : (s₁.threads s.running).call = some s.core.regs := by
    cases hcall with
    | syscall => exact (setCall_cases _).2.2.trans (if_pos rfl)
  obtain ⟨hsound₂, hregs⟩ := hinside.kept (hsound.step hcall) hentered
  rw [← hrun] at hregs
  cases hret with
  | sysret hcall₂ hstep hcode =>
    obtain rfl := Option.some.inj (hcall₂.symm.trans hregs)
    exact (hsound₂.sysret hcall₂ hstep (hcode hsound₂.running_intact)).2

/-- The shell starts a user process and turns interrupts on; the timer gives the processor to the
collector, and then to the process. -/
def userMade : Computer :=
  let k' := Boot.zero.start.runCall (.createUserProcess 0x400000 0) fun _ => 0
  (starting Boot.zero).after k' (layOut k'.sched.cpu.context)

def userOn : Computer := userMade.after (userMade.kernel.setIf true).2 userMade.core.memory

def userRuns : Computer := userOn.tick.tick

/-- It makes a system call, which gives the processor to the shell; after two interrupts the process
is back, and its `schedule` returns. -/
def userCalls : Computer := userRuns.enterCall

def userAway : Computer := userCalls.schedule 0 (callFrame 3 - 8)

def userBack : Computer := userAway.tick.tick

def userReturns : Computer :=
  userBack.after ((userBack.kernel.setResumePoint 3 .code).setIf false).2 userBack.core.memory

theorem userOn_reached : Reached userOn := by
  have hmay : Boot.zero.start.MayCall (.createUserProcess 0x400000 0) := by decide +kernel
  have hcall := call_step hmay fun _ => 0
  have hshell : ∀ i, userMade.kernel.sched.cpu.context 0 i =
      (starting Boot.zero).kernel.sched.cpu.context 0 i := by decide +kernel
  have hrun : (starting Boot.zero).running = 0 := rfl
  have hmade : Step (starting Boot.zero) .call userMade := by
    refine after_step rfl hcall (by decide +kernel) rfl ⟨fun p halloc i hi => ?_, fun p _ hcall => ?_⟩
      fun p _ _ => readContext_layOut _ p
    · have hsame : userMade.kernel.sched.cpu.context p =
          (starting Boot.zero).kernel.sched.cpu.context p := by
        by_cases hp : p = (starting Boot.zero).running
        · rw [hp, hrun]
          exact funext hshell
        · exact (starting_reached Boot.zero).sound.context_same hcall halloc hp
      exact (layOut_at _ p hi).trans ((congrArg (fun context : ProcessContext =>
        byteOf (context _).toNat _) hsame).trans (layOut_at _ p hi).symm)
    · cases hcall
  have hmay' : userMade.kernel.MayCall (.setIf true) := by decide +kernel
  exact ((starting_reached Boot.zero).step hmade).step (after_step rfl
    (call_step hmay' fun _ => 0) rfl rfl (.refl _)
    fun p hfree halloc => absurd (hfree.symm.trans halloc) (by decide))

theorem user_spec : (userOn.kernel.sched.interruptFlag = true ∧
      userOn.tick.kernel.sched.interruptFlag = true ∧ userRuns.running = 3 ∧
      userRuns.core.regs.ring3 ∧ userRuns.kernel.MayCall (.setIf false)) ∧
    (userCalls.running = 3 ∧ userCalls.kernel.MayCall .schedule ∧
      (userCalls.scheduleKernel 0 (callFrame 3 - 8)).sched.runningProcess = 0) ∧
    (userAway.kernel.sched.interruptFlag = true ∧ userAway.tick.kernel.sched.interruptFlag = true ∧
      userBack.running = 3 ∧ userBack.kernel.resumePoint 3 = .schedule false ∧
      userBack.core.regs.seg .cs = 0x10) ∧
    userReturns.running = 3 ∧ userReturns.kernel.MayCall (.setIf userRuns.core.regs.flag) := by
  decide +kernel

theorem user_alloc : userCalls.kernel.allocProcessTable 3 = true ∧
    userAway.kernel.allocProcessTable 3 = true ∧ userAway.tick.kernel.allocProcessTable 3 = true ∧
    userBack.kernel.allocProcessTable 3 = true := by
  decide +kernel

theorem userRuns_reached : Reached userRuns := by
  obtain ⟨⟨hif, hif', -⟩, -⟩ := user_spec
  exact (userOn_reached.step (tick_step hif)).step (tick_step hif')

theorem userCalls_step : Step userRuns .syscall userCalls := by
  obtain ⟨⟨-, -, hrun, hring, hmay⟩, -⟩ := user_spec
  exact enterCall_step hring (by rw [hrun]; decide) (by rw [hrun]; rfl) hmay

theorem userAway_step :
    Step userCalls (.switch (userCalls.calling 0 (callFrame 3 - 8))) userAway := by
  obtain ⟨-, ⟨hrun, hmay, hnext⟩, -⟩ := user_spec
  refine schedule_step hmay hnext (by rw [hrun]; decide) ⟨fun hzero => ?_, fun _ => ?_, fun _ => ?_⟩
  · rw [hrun] at hzero
    cases hzero
  · rw [hrun]
    decide
  · rw [hrun]
    decide

theorem userReturns_step : Step userBack .call userReturns := by
  obtain ⟨-, -, ⟨-, -, hrun, hpoint, hcs⟩, hrun', -⟩ := user_spec
  have hstep : userBack.kernel.step (.resume fun _ => 0) = some userReturns.kernel := by
    have hrunning : userBack.kernel.sched.runningProcess = 3 := hrun
    simp only [Kernel.step, Kernel.resumeCall, hrunning, hpoint]
    rfl
  exact after_step rfl hstep (hrun'.trans hrun.symm) hcs (.refl _)
    fun p hfree halloc => absurd (hfree.symm.trans halloc) (by decide)

theorem userReturns_inCall : InCall 3 userCalls userReturns := by
  obtain ⟨-, -, ⟨hif, hif', -⟩, -⟩ := user_spec
  obtain ⟨halloc, halloc₁, halloc₂, halloc₃⟩ := user_alloc
  have haway : InCall 3 userCalls userAway :=
    .tail .refl ⟨_, userAway_step, halloc, fun d hd => by cases hd⟩
  have hback : InCall 3 userCalls userBack :=
    (haway.tail ⟨_, tick_step hif, halloc₁, fun d hd => by cases hd⟩).tail
      ⟨_, tick_step hif', halloc₂, fun d hd => by cases hd⟩
  exact hback.tail ⟨_, userReturns_step, halloc₃, fun d hd => by cases hd⟩

/-- A system call in which the process gives the processor to the shell and gets it back from an
interrupt, and that returns 7. -/
theorem syscalls_return_schedules : ∃ d s', Step userRuns .syscall userCalls ∧
    Step userCalls (.switch (userCalls.calling 0 (callFrame 3 - 8))) userAway ∧
    InCall userRuns.running userCalls userReturns ∧ Step userReturns (.sysret d) s' ∧
    s'.core.regs = userRuns.core.regs.setGpr .rax 7 := by
  obtain ⟨⟨-, -, hrun, -⟩, -, -, hrun', hmay⟩ := user_spec
  have hinside : InCall userRuns.running userCalls userReturns := by
    rw [hrun]
    exact userReturns_inCall
  have hcall : (userReturns.threads userReturns.running).call = some userRuns.core.regs := by
    rw [hrun', ← hrun]
    exact (hinside.kept (userRuns_reached.step userCalls_step).sound
      ((setCall_cases _).2.2.trans (if_pos rfl))).2
  obtain ⟨d, s', hret, hrax⟩ := sysret_step 7 hcall hmay
  have hreturned := syscalls_return userRuns_reached userCalls_step hinside hret
    (hrun'.trans hrun.symm)
  rw [hrax] at hreturned
  exact ⟨d, s', userCalls_step, userAway_step, hinside, hret, hreturned⟩

end Computer
end SkhuOS
