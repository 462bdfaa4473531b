import SkhuOS.Proc.KernelStack

/-! What a step does to the saved registers, by the kind of the step: an interrupt handler
switches through the interrupt stack, a call through the context of its caller. -/
namespace SkhuOS
namespace Kernel

variable {k k' j : Kernel} {a : Action} {interrupt : Bool} {regs : ProcessContext}

/-- The moves of a step that is no interrupt. -/
inductive CallMove (k : Kernel) (regs : ProcessContext) (k' : Kernel) : Prop
  | stays (interrupt : Bool) (hcpu : k'.sched.cpu = k.sched.cpu.setIf interrupt)
  | creates (p : ℕ) (context : ProcessContext) (hfree : k.allocProcessTable p = false)
      (hcpu : k'.sched.cpu = k.sched.cpu.create p context)
  | switches (next : ℕ) (hcpu : k'.sched.cpu = (k.sched.cpu.setIf false).switch next regs)

/-- The moves of an interrupt. -/
inductive InterruptMove (k : Kernel) (frame : ProcessContext) (k' : Kernel) : Prop
  | returns (hcpu : k'.sched.cpu = (k.sched.cpu.interrupt frame).iret)
  | preempts (next : ℕ) (hcpu : k'.sched.cpu = ((k.sched.cpu.interrupt frame).preempt next).iret)

theorem Section.callMove (h : j.Section k' interrupt regs)
    (hcpu : j.sched.cpu = k.sched.cpu.setIf false) : CallMove k regs k' := by
  rcases h with ⟨hcpu', -⟩ | ⟨next, point, hcpu', -, -⟩
  · exact .stays interrupt (by rw [hcpu', hcpu, Cpu.setIf_setIf])
  · exact .switches next (by rw [hcpu', hcpu])

theorem Creates.callMove {α : Type} {call : Option α × Kernel} {result : Option ℕ}
    (h : k.Creates result call.2) : CallMove k regs (orForever call) := by
  have hforever : (orForever call).sched.cpu = call.2.sched.cpu := by
    obtain ⟨value, k'⟩ := call
    cases value <;> rfl
  cases result with
  | some p =>
    obtain ⟨context, hfree, hcpu, -⟩ := h
    exact .creates p context hfree (hforever.trans hcpu)
  | none => exact .stays false (hforever.trans h.1)

theorem Valid.runCall_callMove (h : k.Valid) {c : Call} (hmay : k.MayCall c)
    (regs : ProcessContext) : CallMove k regs (k.runCall c regs) := by
  have hcode := hmay.1
  cases c with
  | setIf interrupt => exact .stays interrupt rfl
  | createProcess entryPoint arg => exact (h.createProcess_creates entryPoint arg).callMove
  | createUserProcess entryPoint arg => exact (h.createUserProcess_creates entryPoint arg).callMove
  | runUserProgram image size arg =>
    rcases Nat.lt_or_ge userCodeSize size with hbig | hfits
    · rw [Kernel.runCall, runUserProgram_null arg hbig]
      exact .stays k.sched.interruptFlag rfl
    · exact (h.runUserProgram_creates image size arg hfits).callMove
  | sleepProcess ms => exact (k.sleepProcess_section ms regs).callMove rfl
  | acquireLock m => exact (acquireLock_section hcode m regs).callMove rfl
  | releaseLock m => exact (releaseLock_section hcode m regs).callMove rfl
  | getKey => exact ((k.setIf false).2.getKeyLoop_section _ regs).callMove rfl
  | getQueue => exact (getQueue_section hcode regs).callMove rfl
  | clearDiskInterruptFlag isPrimary => exact .stays k.sched.interruptFlag rfl
  | waitInterrupt isPrimary => exact (waitInterrupt_section hcode isPrimary regs).callMove rfl
  | schedule => exact (schedule_section hcode regs).callMove rfl
  | exitProcess =>
    have hwoken := (k.setIf false).2.sched.wakeupProcess_cpu k.collectorProcess
    have hexit := (((k.setIf false).2.sched.wakeupProcess k.collectorProcess).2).setState_cpu
      k.sched.runningProcess .exit
    obtain ⟨next, hcpu⟩ := ((((k.setIf false).2.sched.wakeupProcess
      k.collectorProcess).2).setState k.sched.runningProcess .exit).scheduleBlocked_cpu regs
    rw [hexit, hwoken] at hcpu
    exact .switches next hcpu

/-- The rest of a call runs with interrupts off. -/
theorem resumeCall_callMove
    (hoff : k.resumePoint k.sched.runningProcess ≠ .code → k.sched.interruptFlag = false)
    (hstep : k.resumeCall (k.resumePoint k.sched.runningProcess) regs = some k') :
    CallMove k regs k' := by
  have hcpu (hne : k.resumePoint k.sched.runningProcess ≠ .code) :
      k.sched.cpu = k.sched.cpu.setIf false :=
    Cpu.ext rfl rfl (hoff hne) rfl rfl rfl rfl
  cases hat : k.resumePoint k.sched.runningProcess with
  | code => simp [Kernel.resumeCall, hat] at hstep
  | exitProcess => simp [Kernel.resumeCall, hat] at hstep
  | createProcess => simp [Kernel.resumeCall, hat] at hstep
  | sleepProcess preIf =>
    simp only [Kernel.resumeCall, hat, Option.some.injEq] at hstep
    exact hstep ▸ .stays preIf rfl
  | schedule preIf =>
    simp only [Kernel.resumeCall, hat, Option.some.injEq] at hstep
    exact hstep ▸ .stays preIf rfl
  | acquireLock m preIf =>
    simp only [Kernel.resumeCall, hat, Option.some.injEq] at hstep
    exact hstep ▸ .stays preIf rfl
  | getKey preIf =>
    simp only [Kernel.resumeCall, hat, Option.some.injEq] at hstep
    subst hstep
    exact (getKeyLoop_section _ preIf regs).callMove (hcpu (by simp [hat]))
  | waitInterrupt isPrimary deadline =>
    simp only [Kernel.resumeCall, hat, Option.some.injEq] at hstep
    subst hstep
    exact (waitLoop_section _ isPrimary deadline regs).callMove (hcpu (by simp [hat]))
  | garbageProcessCollector preIf =>
    simp only [Kernel.resumeCall, hat, Option.some.injEq] at hstep
    subst hstep
    exact (collectLoop_section _ preIf regs).callMove (hcpu (by simp [hat]))

theorem Valid.callMove (h : k.Valid)
    (hoff : k.resumePoint k.sched.runningProcess ≠ .code → k.sched.interruptFlag = false)
    (hcall : a.isInterrupt = false) (hstep : k.step a = some k') : CallMove k a.regs k' := by
  cases a with
  | timer frame => exact absurd hcall (by simp [Action.isInterrupt])
  | keyboard scanCode frame => exact absurd hcall (by simp [Action.isInterrupt])
  | disk isPrimary frame => exact absurd hcall (by simp [Action.isInterrupt])
  | call c regs =>
    simp only [Kernel.step, Option.ite_none_right_eq_some, Option.some.injEq] at hstep
    obtain ⟨hmay, rfl⟩ := hstep
    exact h.runCall_callMove hmay regs
  | resume regs => exact resumeCall_callMove hoff hstep
  | collect regs =>
    simp only [Kernel.step, Option.ite_none_right_eq_some, Option.some.injEq] at hstep
    obtain ⟨-, rfl⟩ := hstep
    exact ((k.setIf false).2.collectLoop_section _ regs).callMove rfl

/-- A handler switches at most once, and the flag afterwards is that of the frame it leaves. -/
theorem interruptMove (hinterrupt : a.isInterrupt = true) (hstep : k.step a = some k') :
    k.sched.interruptFlag = true ∧ InterruptMove k a.regs k' := by
  have hhandler (frame : ProcessContext) {handler : Kernel → Kernel}
      (hcpu : ∀ j, (handler j).sched.cpu = j.sched.cpu ∨
        ∃ next, (handler j).sched.cpu = j.sched.cpu.preempt next) :
      InterruptMove k frame (k.interrupt frame handler) := by
    unfold interrupt
    dsimp only
    set j : Kernel := { k with sched :=
      { k.sched with ist := withIf frame true, interruptFlag := false } }
    have hiret : ({ (handler j).sched with
        interruptFlag := contextIf (handler j).sched.ist } : Scheduler).cpu =
        (handler j).sched.cpu.iret := rfl
    rcases hcpu j with hsame | ⟨next, hnext⟩
    · exact .returns (hiret.trans (congrArg Cpu.iret hsame))
    · exact .preempts next (hiret.trans (congrArg Cpu.iret hnext))
  cases a with
  | timer frame =>
    simp only [Kernel.step, Option.ite_none_right_eq_some, Option.some.injEq] at hstep
    obtain ⟨hif, rfl⟩ := hstep
    exact ⟨hif, hhandler frame fun j => j.sched.timerInterruptHandler_cpu⟩
  | keyboard scanCode frame =>
    simp only [Kernel.step, Option.ite_none_right_eq_some, Option.some.injEq] at hstep
    obtain ⟨hif, rfl⟩ := hstep
    exact ⟨hif, hhandler frame (keyboard_cpu scanCode)⟩
  | disk isPrimary frame =>
    simp only [Kernel.step, Option.ite_none_right_eq_some, Option.some.injEq] at hstep
    obtain ⟨hif, rfl⟩ := hstep
    exact ⟨hif, hhandler frame fun j =>
      j.sched.wakeupProcessInInterrupt_cpu (j.diskWaiter isPrimary)⟩
  | call c regs => exact absurd hinterrupt (by simp [Action.isInterrupt])
  | resume regs => exact absurd hinterrupt (by simp [Action.isInterrupt])
  | collect regs => exact absurd hinterrupt (by simp [Action.isInterrupt])

/-- A call that gives the processor away saves the context of its caller with the flag off. -/
theorem CallMove.switched (h : CallMove k regs k')
    (hne : k'.sched.runningProcess ≠ k.sched.runningProcess) :
    k'.sched.cpu.context =
        Function.update k.sched.cpu.context k.sched.runningProcess (withIf regs false) ∧
      k'.sched.interruptFlag = contextIf (k.sched.cpu.context k'.sched.runningProcess) := by
  cases h with
  | stays interrupt hcpu => exact absurd (congrArg Cpu.running hcpu) hne
  | creates p context hfree hcpu => exact absurd (congrArg Cpu.running hcpu) hne
  | switches next hcpu =>
    obtain rfl : k'.sched.runningProcess = next := congrArg Cpu.running hcpu
    have hcontext : k'.sched.cpu.context =
        Function.update k.sched.cpu.context k.sched.runningProcess (withIf regs false) := by
      rw [hcpu]
      rfl
    have hloads : k'.sched.interruptFlag =
        contextIf (k'.sched.cpu.context k'.sched.runningProcess) :=
      (congrArg Cpu.interruptFlag hcpu).trans (by rw [hcpu]; rfl)
    exact ⟨hcontext, by rw [hloads, hcontext, Function.update_of_ne hne]⟩

/-- An interrupt without a switch returns with the flag on, and one with a switch saves the frame. -/
theorem InterruptMove.same {frame : ProcessContext} (h : InterruptMove k frame k')
    (heq : k'.sched.runningProcess = k.sched.runningProcess) :
    k'.sched.interruptFlag = contextIf (withIf frame true) := by
  cases h with
  | returns hcpu => exact congrArg Cpu.interruptFlag hcpu
  | preempts next hcpu =>
    obtain rfl : k'.sched.runningProcess = next := congrArg Cpu.running hcpu
    have hcontext : k'.sched.cpu.context k.sched.runningProcess = withIf frame true := by
      rw [hcpu]
      exact Function.update_self _ _ _
    rw [← hcontext, ← heq]
    exact (congrArg Cpu.interruptFlag hcpu).trans (by rw [hcpu]; rfl)

theorem InterruptMove.switched {frame : ProcessContext} (h : InterruptMove k frame k')
    (hne : k'.sched.runningProcess ≠ k.sched.runningProcess) :
    k'.sched.cpu.context k.sched.runningProcess = withIf frame true ∧
      k'.sched.interruptFlag = contextIf (k'.sched.cpu.context k'.sched.runningProcess) := by
  cases h with
  | returns hcpu => exact absurd (congrArg Cpu.running hcpu) hne
  | preempts next hcpu =>
    obtain rfl : k'.sched.runningProcess = next := congrArg Cpu.running hcpu
    refine ⟨?_, (congrArg Cpu.interruptFlag hcpu).trans (by rw [hcpu]; rfl)⟩
    rw [hcpu]
    exact Function.update_self _ _ _

/-- A creation leaves the running process. -/
theorem Creates.running {result : Option ℕ} (h : k.Creates result k') :
    k'.sched.runningProcess = k.sched.runningProcess := by
  cases result with
  | some p =>
    obtain ⟨context, -, hcpu, -⟩ := h
    exact congrArg Cpu.running hcpu
  | none => exact congrArg Cpu.running h.1

theorem Valid.created_running (h : k.Valid) (hstep : k.step a = some k')
    (hcreated : (k.created a).isSome) : k'.sched.runningProcess = k.sched.runningProcess := by
  have hforever {α : Type} (call : Option α × Kernel) :
      (Kernel.orForever call).sched.runningProcess = call.2.sched.runningProcess := by
    obtain ⟨value, j⟩ := call
    cases value <;> rfl
  cases a with
  | call c regs =>
    simp only [Kernel.step, Option.ite_none_right_eq_some, Option.some.injEq] at hstep
    obtain ⟨-, rfl⟩ := hstep
    cases c with
    | createProcess entryPoint arg =>
      exact (hforever _).trans (h.createProcess_creates entryPoint arg).running
    | createUserProcess entryPoint arg =>
      exact (hforever _).trans (h.createUserProcess_creates entryPoint arg).running
    | runUserProgram image size arg =>
      rcases Nat.lt_or_ge userCodeSize size with hbig | hfits
      · rw [Kernel.runCall, runUserProgram_null arg hbig]
        rfl
      · exact (hforever _).trans (h.runUserProgram_creates image size arg hfits).running
    | _ => cases hcreated
  | _ => cases hcreated

/-- A step that gives the processor to another process, or an interrupt, fills no slot. -/
theorem Valid.alloc_before (h : k.Valid) (hstep : k.step a = some k')
    (hnone : a.isInterrupt = true ∨ k'.sched.runningProcess ≠ k.sched.runningProcess) {p : ℕ}
    (halloc : k'.allocProcessTable p = true) : k.allocProcessTable p = true := by
  have hcreated : k.created a = none := by
    rcases hnone with ha | hne
    · cases a with
      | timer | keyboard | disk => rfl
      | _ => cases ha
    · cases hcreated : k.created a with
      | none => rfl
      | some q => exact absurd (h.created_running hstep (by rw [hcreated]; rfl)) hne
  rcases h.slot_step hstep with ⟨hfills, -⟩ | ⟨-, q, -, hfreed⟩
  · rw [hcreated] at hfills
    have hsame : k'.allocProcessTable = k.allocProcessTable := hfills
    rw [← hsame, halloc]
  · rw [hfreed, Function.update_apply] at halloc
    split at halloc
    · cases halloc
    · exact halloc

/-- A step leaves the saved context of a process that does not run. -/
theorem CpuStep.context_same (h : CpuStep k a k') {p : ℕ} (halloc : k.allocProcessTable p = true)
    (hne : p ≠ k.sched.runningProcess) : k'.sched.cpu.context p = k.sched.cpu.context p := by
  have hne' : p ≠ k.sched.cpu.running := hne
  cases h with
  | stays interrupt point hcpu =>
    rw [hcpu]
    rfl
  | creates q context hfree hcpu =>
    have hq : p ≠ q := by
      rintro rfl
      rw [halloc] at hfree
      cases hfree
    rw [hcpu]
    exact Function.update_of_ne hq _ _
  | switches next point hcpu =>
    rw [hcpu]
    exact Function.update_of_ne hne' _ _
  | interrupted hif hcpu =>
    rw [hcpu]
    rfl
  | preempted next hif hcpu =>
    rw [hcpu]
    exact Function.update_of_ne hne' _ _

end Kernel
end SkhuOS
