import SkhuOS.Proc.Steps

/-! What a switch moves: the registers saved for each slot, the top of the interrupt stack, the
interrupt flag and TSS.rsp[0]. A step of the kernel is one of a few moves of these. -/
namespace SkhuOS
open Foundation

/-- The part of the state that the processor and its switches see. -/
@[ext] structure Cpu where
  running : ℕ
  rsp0 : QWORD
  interruptFlag : Bool
  ist : ProcessContext
  context : ℕ → ProcessContext
  stackAddress : ℕ → QWORD
  stackSize : ℕ → QWORD

namespace Cpu

variable (c : Cpu)

def setIf (interrupt : Bool) : Cpu := { c with interruptFlag := interrupt }

/-- The choice of the next process, with its kernel stack. -/
def choose (next : ℕ) : Cpu :=
  { c with running := next, rsp0 := c.stackAddress next + c.stackSize next }

def save (p : ℕ) (context : ProcessContext) : Cpu :=
  { c with context := Function.update c.context p context }

/-- A switch the running process makes itself. -/
def switch (next : ℕ) (regs : ProcessContext) : Cpu :=
  let c := (c.save c.running (withIf regs c.interruptFlag)).choose next
  { c with interruptFlag := contextIf (c.context next) }

/-- A switch in an interrupt handler. -/
def preempt (next : ℕ) : Cpu :=
  let c := (c.save c.running c.ist).choose next
  { c with ist := c.context next }

def interrupt (frame : ProcessContext) : Cpu :=
  { c with ist := withIf frame true, interruptFlag := false }

def iret : Cpu := { c with interruptFlag := contextIf c.ist }

/-- A new process in slot `p`. -/
def create (p : ℕ) (context : ProcessContext) : Cpu :=
  { c with
    context := Function.update c.context p context
    stackAddress := Function.update c.stackAddress p
      (BitVec.ofNat 64 (processStackBase + processStackInterval * p))
    stackSize := Function.update c.stackSize p (BitVec.ofNat 64 processStackSize) }

@[simp] theorem setIf_setIf (b b' : Bool) : (c.setIf b).setIf b' = c.setIf b' := rfl

theorem create_save (p : ℕ) (context context' : ProcessContext) :
    (c.create p context).save p context' = c.create p context' :=
  Cpu.ext rfl rfl rfl rfl (Function.update_idem _ _ _) rfl rfl

/-- Without a switch the interrupted process goes on, with interrupts enabled. -/
theorem interrupt_iret (frame : ProcessContext) :
    (c.interrupt frame).iret = { c with ist := withIf frame true, interruptFlag := true } := by
  unfold iret interrupt
  rw [contextIf_withIf]

end Cpu

namespace Scheduler

variable (s : Scheduler)

def cpu : Cpu where
  running := s.runningProcess
  rsp0 := s.rsp0
  interruptFlag := s.interruptFlag
  ist := s.ist
  context p := (s.pcb p).context
  stackAddress p := (s.pcb p).stackAddress
  stackSize p := (s.pcb p).stackSize

variable {s}

theorem modifyPcb_cpu (p : ℕ) (f : PCB → PCB) : (s.modifyPcb p f).cpu =
    { s.cpu with
      context := Function.update s.cpu.context p (f (s.pcb p)).context
      stackAddress := Function.update s.cpu.stackAddress p (f (s.pcb p)).stackAddress
      stackSize := Function.update s.cpu.stackSize p (f (s.pcb p)).stackSize } := by
  have hfield {β : Type} (field : PCB → β) : (fun q => field ((s.modifyPcb p f).pcb q)) =
      Function.update (fun q => field (s.pcb q)) p (field (f (s.pcb p))) := by
    funext q
    rw [modifyPcb_pcb, Function.update_apply]
    split <;> rfl
  exact Cpu.ext rfl rfl rfl rfl (hfield PCB.context) (hfield PCB.stackAddress)
    (hfield PCB.stackSize)

/-- An edit of a PCB that leaves its context and its stack. -/
theorem modifyPcb_cpu_same {p : ℕ} {f : PCB → PCB}
    (hcontext : (f (s.pcb p)).context = (s.pcb p).context)
    (haddress : (f (s.pcb p)).stackAddress = (s.pcb p).stackAddress)
    (hsize : (f (s.pcb p)).stackSize = (s.pcb p).stackSize) : (s.modifyPcb p f).cpu = s.cpu := by
  rw [modifyPcb_cpu, hcontext, haddress, hsize]
  exact Cpu.ext rfl rfl rfl rfl (Function.update_eq_self _ _) (Function.update_eq_self _ _)
    (Function.update_eq_self _ _)

/-- The save of a context into a PCB. -/
theorem modifyPcb_cpu_context (p : ℕ) (context : PCB → ProcessContext) :
    (s.modifyPcb p fun pcb => { pcb with context := context pcb }).cpu =
      s.cpu.save p (context (s.pcb p)) := by
  rw [modifyPcb_cpu]
  exact Cpu.ext rfl rfl rfl rfl rfl (Function.update_eq_self _ _) (Function.update_eq_self _ _)

variable (s)

@[simp] theorem setState_cpu (p : ℕ) (state : ProcessState) : (s.setState p state).cpu = s.cpu :=
  modifyPcb_cpu_same rfl rfl rfl

@[simp] theorem insertList_cpu (name : ListName) (p : ℕ) : (s.insertList name p).cpu = s.cpu := rfl

@[simp] theorem removeList_cpu (name : ListName) (id : ℤ) :
    (s.removeList name id).2.cpu = s.cpu := rfl

@[simp] theorem headRemove_cpu (name : ListName) : (s.headRemove name).2.cpu = s.cpu := rfl

theorem makeRunning_cpu (next : ℕ) : (s.makeRunning next).cpu = s.cpu.choose next := by
  have hstate := s.setState_cpu next .running
  have haddress := congrFun (congrArg Cpu.stackAddress hstate) next
  have hsize := congrFun (congrArg Cpu.stackSize hstate) next
  unfold makeRunning updateTSSRsp0 Cpu.choose
  rw [← hstate]
  rfl

/-- `switchContext` completes the choice of `next` to a switch. -/
theorem switchContext_cpu (next : ℕ) (regs : ProcessContext) :
    ((s.makeRunning next).switchContext s.runningProcess next regs).cpu =
      s.cpu.switch next regs := by
  have hsaved := modifyPcb_cpu_context (s := s.makeRunning next) s.runningProcess
    fun _ => withIf regs s.interruptFlag
  rw [makeRunning_cpu] at hsaved
  have hload (t : Scheduler) : ({ t with interruptFlag := contextIf (t.pcb next).context } :
      Scheduler).cpu = { t.cpu with interruptFlag := contextIf (t.cpu.context next) } := rfl
  refine (hload _).trans ?_
  rw [show (s.makeRunning next).interruptFlag = s.interruptFlag from rfl, hsaved]
  rfl

theorem scheduleBlocked_cpu (regs : ProcessContext) :
    ∃ next, (s.scheduleBlocked regs).cpu = s.cpu.switch next regs := by
  have hhead := s.headRemove_cpu .processList
  unfold scheduleBlocked
  dsimp only
  use (s.headRemove .processList).1.getD (s.headRemove .processList).2.idleProcess
  rw [← hhead]
  exact switchContext_cpu (s.headRemove .processList).2 _ regs

theorem blockRunningProcess_cpu (regs : ProcessContext) :
    ∃ next, (s.blockRunningProcess regs).cpu = s.cpu.switch next regs := by
  unfold blockRunningProcess
  have hblocked := (s.setState s.runningProcess .blocked).scheduleBlocked_cpu regs
  rwa [setState_cpu] at hblocked

theorem sleepUntilTick_cpu (tick : QWORD) (regs : ProcessContext) :
    ∃ next, (s.sleepUntilTick tick regs).cpu = s.cpu.switch next regs := by
  have htick : (s.modifyPcb s.runningProcess fun pcb => { pcb with wakeupTick := tick }).cpu =
      s.cpu := modifyPcb_cpu_same rfl rfl rfl
  unfold sleepUntilTick
  have hblocked := ((s.modifyPcb s.runningProcess fun pcb =>
    { pcb with wakeupTick := tick }).insertList .sleepList s.runningProcess).blockRunningProcess_cpu
    regs
  rwa [insertList_cpu, htick] at hblocked

@[simp] theorem wakeupProcess_cpu (pcb : Option ℕ) : (s.wakeupProcess pcb).2.cpu = s.cpu := by
  unfold wakeupProcess
  split
  · rfl
  · split
    · rfl
    · simp

/-- Nothing to switch to, or a switch. -/
theorem timeoutSchedule_cpu :
    s.timeoutSchedule.cpu = s.cpu ∨ ∃ next, s.timeoutSchedule.cpu = s.cpu.preempt next := by
  unfold timeoutSchedule
  split
  · exact .inl rfl
  · have hhead := headRemove_cpu s .processList
    split
    next t heq =>
      rw [heq] at hhead
      exact .inl hhead
    next next t heq =>
      rw [heq] at hhead
      right
      use next
      have hsave := modifyPcb_cpu_context (s := t) t.runningProcess fun _ => t.ist
      have hload (u : Scheduler) : ({ u.makeRunning next with
          ist := ((u.makeRunning next).pcb next).context } : Scheduler).cpu =
          { u.cpu.choose next with ist := u.cpu.context next } := by
        have hmade := u.makeRunning_cpu next
        calc ({ u.makeRunning next with
              ist := ((u.makeRunning next).pcb next).context } : Scheduler).cpu
            = { (u.makeRunning next).cpu with ist := (u.makeRunning next).cpu.context next } := rfl
          _ = { u.cpu.choose next with ist := u.cpu.context next } := by rw [hmade]; rfl
      dsimp only
      rw [hload, ← hhead]
      split
      · rw [insertList_cpu, setState_cpu, hsave]
        rfl
      · rw [hsave]
        rfl

theorem wakeupProcessInInterrupt_cpu (pcb : Option ℕ) :
    (s.wakeupProcessInInterrupt pcb).cpu = s.cpu ∨
      ∃ next, (s.wakeupProcessInInterrupt pcb).cpu = s.cpu.preempt next := by
  have hwoken := s.wakeupProcess_cpu pcb
  unfold wakeupProcessInInterrupt
  dsimp only
  split
  · rw [← hwoken]
    exact timeoutSchedule_cpu _
  · exact .inl hwoken

theorem wakeExpiredLoop_cpu (fuel : ℕ) (cur : Option ℕ) (s : Scheduler) :
    (wakeExpiredLoop fuel cur s).cpu = s.cpu := by
  induction fuel generalizing cur s with
  | zero => rfl
  | succ fuel ih =>
    cases cur with
    | none => rfl
    | some p =>
      rw [wakeExpiredLoop, ih]
      split
      · exact wakeupProcess_cpu s (some p)
      · rfl

theorem timerInterruptHandler_cpu : s.timerInterruptHandler.cpu = s.cpu ∨
    ∃ next, s.timerInterruptHandler.cpu = s.cpu.preempt next := by
  have hwoken : ({ s with tickCount := s.tickCount + 1 } : Scheduler).wakeExpiredProcess.cpu =
      s.cpu := wakeExpiredLoop_cpu _ _ _
  unfold timerInterruptHandler
  dsimp only
  rw [← hwoken]
  exact timeoutSchedule_cpu _

theorem yieldTo_cpu (h : (s.headRemove .processList).1 ≠ none) (regs : ProcessContext) :
    ∃ next, (s.yieldTo regs).cpu = s.cpu.switch next regs := by
  have hhead := headRemove_cpu s .processList
  unfold yieldTo
  split
  next t heq => exact absurd (congrArg Prod.fst heq) h
  next next t heq =>
    rw [heq] at hhead
    use next
    have hqueued : ((t.setState t.runningProcess .ready).insertList .processList
        t.runningProcess).cpu = t.cpu := by simp
    rw [← hhead, ← hqueued]
    exact switchContext_cpu _ next regs

theorem addProcess_cpu (p : ℕ) (entryPoint arg : QWORD) : ∃ context,
    (s.addProcess p entryPoint arg).cpu = s.cpu.create p context := by
  unfold addProcess setUpProcess
  dsimp only
  rw [insertList_cpu, setState_cpu, modifyPcb_cpu_context, modifyPcb_cpu]
  exact ⟨_, s.cpu.create_save p _ _⟩

end Scheduler

/-- The flag a call sets when it goes on behind this point and returns. -/
def ResumePoint.Restores (interrupt : Bool) : ResumePoint → Prop
  | .sleepProcess preIf | .schedule preIf | .acquireLock _ preIf | .getKey preIf
  | .garbageProcessCollector preIf => preIf = interrupt
  | .waitInterrupt _ _ => interrupt = true
  | .code | .exitProcess | .createProcess => False

/-- The register file in the label of an action. -/
def Action.regs : Action → ProcessContext
  | .timer frame | .keyboard _ frame | .disk _ frame => frame
  | .call _ regs | .resume regs | .collect regs => regs

namespace Kernel

/-- A call behind its `setIf(FALSE)` returns with the flag restored, or gives the processor up
at a point behind which the flag will be restored. -/
def Section (k k' : Kernel) (interrupt : Bool) (regs : ProcessContext) : Prop :=
  (k'.sched.cpu = k.sched.cpu.setIf interrupt ∧
    k'.resumePoint = Function.update k.resumePoint k.sched.runningProcess .code) ∨
  ∃ next point, k'.sched.cpu = k.sched.cpu.switch next regs ∧ point.Restores interrupt ∧
    k'.resumePoint = Function.update k.resumePoint k.sched.runningProcess point

variable {k k' : Kernel} {a : Action} {interrupt : Bool} {regs : ProcessContext}

/-- A return of a call that did not block: its caller is still in its own code. -/
theorem Section.returns (hcode : k.resumePoint k.sched.runningProcess = .code)
    (hcpu : k'.sched.cpu = k.sched.cpu.setIf interrupt) (hpoint : k'.resumePoint = k.resumePoint) :
    k.Section k' interrupt regs :=
  .inl ⟨hcpu, by rw [hpoint, ← hcode, Function.update_eq_self]⟩

theorem sleepProcess_section (k : Kernel) (ms : QWORD) (regs : ProcessContext) :
    (k.setIf false).2.Section (k.sleepProcess ms regs) k.sched.interruptFlag regs := by
  obtain ⟨next, hcpu⟩ := (k.setIf false).2.sched.sleepUntilTick_cpu
    (k.sched.tickCount + (ms + slotTime - 1) / slotTime) regs
  right
  exact ⟨next, .sleepProcess k.sched.interruptFlag, hcpu, rfl, rfl⟩

theorem acquireLock_section (hcode : k.resumePoint k.sched.runningProcess = .code) (m : ℕ)
    (regs : ProcessContext) :
    (k.setIf false).2.Section (k.acquireLock m regs) k.sched.interruptFlag regs := by
  unfold acquireLock
  dsimp only
  split
  · exact .returns hcode rfl rfl
  · split
    · exact .returns hcode rfl rfl
    · obtain ⟨next, hcpu⟩ := ((k.setIf false).2.sched.insertList (.waitList m)
        k.sched.runningProcess).blockRunningProcess_cpu regs
      right
      exact ⟨next, .acquireLock m k.sched.interruptFlag, hcpu, rfl, rfl⟩

theorem releaseLock_section (hcode : k.resumePoint k.sched.runningProcess = .code) (m : ℕ)
    (regs : ProcessContext) :
    (k.setIf false).2.Section (k.releaseLock m) k.sched.interruptFlag regs := by
  have hhead := (k.setIf false).2.sched.headRemove_cpu (.waitList m)
  unfold releaseLock
  dsimp only
  split
  · exact .returns hcode rfl rfl
  · split
    · split
      next s heq =>
        have hs : s.cpu = _ := (congrArg (fun r => r.2.cpu) heq).symm.trans hhead
        exact .returns hcode (congrArg (fun c => c.setIf k.sched.interruptFlag) hs) rfl
      next next s heq =>
        have hs : s.cpu = _ := (congrArg (fun r => r.2.cpu) heq).symm.trans hhead
        have hwoken := (s.wakeupProcess_cpu (some next)).trans hs
        exact .returns hcode (congrArg (fun c => c.setIf k.sched.interruptFlag) hwoken) rfl
    · exact .returns hcode rfl rfl

theorem getQueue_section (hcode : k.resumePoint k.sched.runningProcess = .code)
    (regs : ProcessContext) :
    (k.setIf false).2.Section k.getQueue.2 k.sched.interruptFlag regs :=
  .returns hcode rfl rfl

theorem getKeyLoop_section (k : Kernel) (preIf : Bool) (regs : ProcessContext) :
    k.Section (k.getKeyLoop preIf regs).2 preIf regs := by
  unfold getKeyLoop
  dsimp only
  split
  · exact .inl ⟨rfl, rfl⟩
  · obtain ⟨next, hcpu⟩ := k.sched.blockRunningProcess_cpu regs
    right
    exact ⟨next, .getKey preIf, hcpu, rfl, rfl⟩

theorem waitLoop_section (k : Kernel) (isPrimary : Bool) (deadline : QWORD)
    (regs : ProcessContext) : k.Section (k.waitLoop isPrimary deadline regs).2 true regs := by
  unfold waitLoop
  split
  · exact .inl ⟨rfl, rfl⟩
  · split
    · exact .inl ⟨rfl, rfl⟩
    · obtain ⟨next, hcpu⟩ := k.sched.sleepUntilTick_cpu deadline regs
      right
      exact ⟨next, .waitInterrupt isPrimary deadline, hcpu, rfl, rfl⟩

theorem waitInterrupt_section (hcode : k.resumePoint k.sched.runningProcess = .code)
    (isPrimary : Bool) (regs : ProcessContext) :
    (k.setIf false).2.Section (k.waitInterrupt isPrimary regs).2 k.sched.interruptFlag regs := by
  unfold waitInterrupt
  dsimp only
  cases hif : k.sched.interruptFlag with
  | false =>
    rw [if_pos (by simp [Kernel.setIf, Scheduler.setIf, hif])]
    exact .returns hcode rfl rfl
  | true =>
    rw [if_neg (by simp [Kernel.setIf, Scheduler.setIf, hif])]
    exact (k.setIf false).2.waitLoop_section isPrimary _ regs

theorem schedule_section (hcode : k.resumePoint k.sched.runningProcess = .code)
    (regs : ProcessContext) :
    (k.setIf false).2.Section (k.schedule regs) k.sched.interruptFlag regs := by
  unfold schedule
  dsimp only
  split
  · exact .returns hcode rfl rfl
  next hsome =>
    obtain ⟨next, hcpu⟩ := (k.setIf false).2.sched.yieldTo_cpu hsome regs
    right
    exact ⟨next, .schedule k.sched.interruptFlag, hcpu, rfl, rfl⟩

theorem collectLoop_section (k : Kernel) (preIf : Bool) (regs : ProcessContext) :
    k.Section (k.collectLoop preIf regs) preIf regs := by
  unfold collectLoop
  split
  · obtain ⟨next, hcpu⟩ := k.sched.blockRunningProcess_cpu regs
    right
    exact ⟨next, .garbageProcessCollector preIf, hcpu, rfl, rfl⟩
  · exact .inl ⟨rfl, rfl⟩

/-- What a creation makes of the processor's part: nothing, or a new process. -/
def Creates (k : Kernel) (result : Option ℕ) (k' : Kernel) : Prop :=
  match result with
  | some p => ∃ context, k.allocProcessTable p = false ∧ k'.sched.cpu = k.sched.cpu.create p context ∧
    k'.resumePoint = Function.update k.resumePoint p .code
  | none => k'.sched.cpu = k.sched.cpu.setIf false ∧ k'.resumePoint = k.resumePoint

theorem Valid.createProcess_creates (h : k.Valid) (entryPoint arg : QWORD) :
    k.Creates (k.createProcess entryPoint arg).1 (k.createProcess entryPoint arg).2 := by
  rcases h.createProcess_cases entryPoint arg with ⟨p, hfree, -, heq⟩ | ⟨p, heq⟩
  · rw [heq]
    obtain ⟨context, hcpu⟩ := (k.setIf false).2.sched.addProcess_cpu p entryPoint arg
    exact ⟨context, hfree, congrArg (fun c => c.setIf k.sched.interruptFlag) hcpu, rfl⟩
  · rw [heq]
    exact ⟨rfl, rfl⟩

theorem Valid.createUserProcess_creates (h : k.Valid) (entryPoint arg : QWORD) :
    k.Creates (k.createUserProcess entryPoint arg).1 (k.createUserProcess entryPoint arg).2 := by
  have hmade := (h.setIf false).createProcess_creates entryPoint arg
  simp only [Kernel.createUserProcess]
  split
  next k₁ heq =>
    rw [heq] at hmade
    exact hmade
  next p k₁ heq =>
    rw [heq] at hmade
    obtain ⟨context, hfree, hcpu, hpoint⟩ := hmade
    have huser := Scheduler.modifyPcb_cpu_context (s := k₁.sched) p fun pcb =>
      setUserContext (BitVec.ofNat 64 (userStackBase + userStackInterval * p)) pcb.context
    rw [hcpu, Cpu.create_save] at huser
    exact ⟨_, hfree, congrArg (fun c => c.setIf k.sched.interruptFlag) huser, hpoint⟩

theorem Valid.runUserProgram_creates (h : k.Valid) (image : Bytes) (size : ℕ) (arg : QWORD)
    (hsize : size ≤ userCodeSize) :
    k.Creates (k.runUserProgram image size arg).1.join (k.runUserProgram image size arg).2 := by
  have hmade := ((h.setIf false).copyImage image size).createUserProcess_creates
    (BitVec.ofNat 64 userCodeAddress) arg
  simp only [Kernel.runUserProgram]
  rw [if_neg (by omega)]
  split
  next k₁ heq =>
    rw [heq] at hmade
    exact hmade
  next p k₁ heq =>
    rw [heq] at hmade
    obtain ⟨context, hfree, hcpu, hpoint⟩ := hmade
    exact ⟨context, hfree, congrArg (fun c => c.setIf k.sched.interruptFlag) hcpu, hpoint⟩

theorem runUserProgram_null {image : Bytes} {size : ℕ} (arg : QWORD) (hbig : userCodeSize < size) :
    k.runUserProgram image size arg = (some none, k) := by
  unfold runUserProgram
  exact if_pos hbig

/-- A program that fits is started, or the call does not return. -/
theorem runUserProgram_isSome {image : Bytes} {size : ℕ} (arg : QWORD) (hfits : size ≤ userCodeSize) :
    (k.runUserProgram image size arg).1.join.isSome = (k.runUserProgram image size arg).1.isSome := by
  unfold runUserProgram
  rw [if_neg (by omega)]
  dsimp only
  split <;> rfl

/-- The moves of the processor's part. A call that does not return leaves its caller at a point
with interrupts off. -/
inductive CpuStep (k : Kernel) (a : Action) (k' : Kernel) : Prop
  | stays (interrupt : Bool) (point : ResumePoint)
      (hcpu : k'.sched.cpu = k.sched.cpu.setIf interrupt)
      (hpoint : k'.resumePoint = Function.update k.resumePoint k.sched.runningProcess point)
      (hoff : point ≠ .code → interrupt = false)
  | creates (p : ℕ) (context : ProcessContext) (hfree : k.allocProcessTable p = false)
      (hcpu : k'.sched.cpu = k.sched.cpu.create p context)
      (hpoint : k'.resumePoint = Function.update k.resumePoint p .code)
  | switches (next : ℕ) (point : ResumePoint)
      (hcpu : k'.sched.cpu = (k.sched.cpu.setIf false).switch next a.regs)
      (hpoint : k'.resumePoint = Function.update k.resumePoint k.sched.runningProcess point)
  | interrupted (hif : k.sched.interruptFlag = true)
      (hcpu : k'.sched.cpu = (k.sched.cpu.interrupt a.regs).iret)
      (hpoint : k'.resumePoint = k.resumePoint)
  | preempted (next : ℕ) (hif : k.sched.interruptFlag = true)
      (hcpu : k'.sched.cpu = ((k.sched.cpu.interrupt a.regs).preempt next).iret)
      (hpoint : k'.resumePoint = k.resumePoint)

theorem Section.cpuStep {j : Kernel} (h : j.Section k' interrupt regs)
    (hcpu : j.sched.cpu = k.sched.cpu.setIf false) (hpoint : j.resumePoint = k.resumePoint)
    (hregs : a.regs = regs) : CpuStep k a k' := by
  subst hregs
  have hrun : j.sched.runningProcess = k.sched.runningProcess := congrArg Cpu.running hcpu
  rcases h with ⟨hcpu', hpoint'⟩ | ⟨next, point, hcpu', -, hpoint'⟩
  · refine .stays interrupt .code ?_ ?_ (absurd rfl)
    · rw [hcpu', hcpu, Cpu.setIf_setIf]
    · rw [hpoint', hpoint, hrun]
  · refine .switches next point ?_ ?_
    · rw [hcpu', hcpu]
    · rw [hpoint', hpoint, hrun]

/-- A creating call returns with a process, or stays in its error loop. -/
theorem Creates.cpuStep {α : Type} {call : Option α × Kernel} {result : Option ℕ}
    (h : k.Creates result call.2) (hsome : result.isSome = call.1.isSome) :
    CpuStep k a (orForever call) := by
  obtain ⟨value, k'⟩ := call
  cases value with
  | some _ =>
    cases result with
    | none => exact nomatch hsome
    | some p =>
      obtain ⟨context, hfree, hcpu, hpoint⟩ := h
      exact .creates p context hfree hcpu hpoint
  | none =>
    cases result with
    | some p => exact nomatch hsome
    | none =>
      obtain ⟨hcpu, hpoint⟩ := h
      refine .stays false .createProcess hcpu ?_ fun _ => rfl
      show Function.update k'.resumePoint k'.sched.runningProcess .createProcess = _
      rw [hpoint, show k'.sched.runningProcess = k.sched.runningProcess from
        congrArg Cpu.running hcpu]

theorem exitProcess_cpuStep (k : Kernel) (regs : ProcessContext) :
    CpuStep k (.call .exitProcess regs) (k.exitProcess regs) := by
  have hwoken := (k.setIf false).2.sched.wakeupProcess_cpu k.collectorProcess
  have hexit := (((k.setIf false).2.sched.wakeupProcess k.collectorProcess).2).setState_cpu
    k.sched.runningProcess .exit
  obtain ⟨next, hcpu⟩ := ((((k.setIf false).2.sched.wakeupProcess k.collectorProcess).2).setState
    k.sched.runningProcess .exit).scheduleBlocked_cpu regs
  rw [hexit, hwoken] at hcpu
  exact .switches next .exitProcess hcpu rfl

theorem Valid.runCall_cpuStep (h : k.Valid) {c : Call} (hmay : k.MayCall c)
    (regs : ProcessContext) : CpuStep k (.call c regs) (k.runCall c regs) := by
  have hcode := hmay.1
  have hsame : k.resumePoint = Function.update k.resumePoint k.sched.runningProcess .code := by
    rw [← hcode, Function.update_eq_self]
  cases c with
  | setIf interrupt => exact .stays interrupt .code rfl hsame (absurd rfl)
  | createProcess entryPoint arg => exact (h.createProcess_creates entryPoint arg).cpuStep rfl
  | createUserProcess entryPoint arg => exact (h.createUserProcess_creates entryPoint arg).cpuStep rfl
  | runUserProgram image size arg =>
    rcases Nat.lt_or_ge userCodeSize size with hbig | hfits
    · rw [Kernel.runCall, runUserProgram_null arg hbig]
      exact .stays k.sched.interruptFlag .code rfl hsame (absurd rfl)
    · exact (h.runUserProgram_creates image size arg hfits).cpuStep (runUserProgram_isSome arg hfits)
  | sleepProcess ms => exact (k.sleepProcess_section ms regs).cpuStep rfl rfl rfl
  | acquireLock m => exact (acquireLock_section hcode m regs).cpuStep rfl rfl rfl
  | releaseLock m => exact (releaseLock_section hcode m regs).cpuStep rfl rfl rfl
  | getKey => exact ((k.setIf false).2.getKeyLoop_section _ regs).cpuStep rfl rfl rfl
  | getQueue => exact (getQueue_section hcode regs).cpuStep rfl rfl rfl
  | clearDiskInterruptFlag isPrimary =>
    exact .stays k.sched.interruptFlag .code rfl hsame (absurd rfl)
  | waitInterrupt isPrimary => exact (waitInterrupt_section hcode isPrimary regs).cpuStep rfl rfl rfl
  | schedule => exact (schedule_section hcode regs).cpuStep rfl rfl rfl
  | exitProcess => exact k.exitProcess_cpuStep regs

/-- The rest of a call runs with interrupts off. -/
theorem resumeCall_cpuStep
    (hoff : k.resumePoint k.sched.runningProcess ≠ .code → k.sched.interruptFlag = false)
    (hstep : k.resumeCall (k.resumePoint k.sched.runningProcess) regs = some k') :
    CpuStep k (.resume regs) k' := by
  have hcpu (hne : k.resumePoint k.sched.runningProcess ≠ .code) :
      k.sched.cpu = k.sched.cpu.setIf false :=
    Cpu.ext rfl rfl (hoff hne) rfl rfl rfl rfl
  have hdone (preIf : Bool) : CpuStep k (.resume regs)
      ((k.setResumePoint k.sched.runningProcess .code).setIf preIf).2 :=
    .stays preIf .code rfl rfl (absurd rfl)
  cases hat : k.resumePoint k.sched.runningProcess with
  | code => simp [Kernel.resumeCall, hat] at hstep
  | exitProcess => simp [Kernel.resumeCall, hat] at hstep
  | createProcess => simp [Kernel.resumeCall, hat] at hstep
  | sleepProcess preIf =>
    simp only [Kernel.resumeCall, hat, Option.some.injEq] at hstep
    exact hstep ▸ hdone preIf
  | schedule preIf =>
    simp only [Kernel.resumeCall, hat, Option.some.injEq] at hstep
    exact hstep ▸ hdone preIf
  | acquireLock m preIf =>
    simp only [Kernel.resumeCall, hat, Option.some.injEq] at hstep
    exact hstep ▸ hdone preIf
  | getKey preIf =>
    simp only [Kernel.resumeCall, hat, Option.some.injEq] at hstep
    subst hstep
    exact (getKeyLoop_section _ preIf regs).cpuStep (hcpu (by simp [hat])) rfl rfl
  | waitInterrupt isPrimary deadline =>
    simp only [Kernel.resumeCall, hat, Option.some.injEq] at hstep
    subst hstep
    exact (waitLoop_section _ isPrimary deadline regs).cpuStep (hcpu (by simp [hat])) rfl rfl
  | garbageProcessCollector preIf =>
    simp only [Kernel.resumeCall, hat, Option.some.injEq] at hstep
    subst hstep
    exact (collectLoop_section _ preIf regs).cpuStep (hcpu (by simp [hat])) rfl rfl

/-- A handler switches at most once. -/
theorem interrupt_cpuStep (hif : k.sched.interruptFlag = true) {handler : Kernel → Kernel}
    (hregs : a.regs = regs)
    (hcpu : ∀ j, (handler j).sched.cpu = j.sched.cpu ∨
      ∃ next, (handler j).sched.cpu = j.sched.cpu.preempt next)
    (hpoint : ∀ j, (handler j).resumePoint = j.resumePoint) :
    CpuStep k a (k.interrupt regs handler) := by
  subst hregs
  unfold interrupt
  dsimp only
  set j : Kernel := { k with sched :=
    { k.sched with ist := withIf a.regs true, interruptFlag := false } } with hj
  have hiret : ({ (handler j).sched with
      interruptFlag := contextIf (handler j).sched.ist } : Scheduler).cpu =
      (handler j).sched.cpu.iret := rfl
  rcases hcpu j with hsame | ⟨next, hnext⟩
  · exact .interrupted hif (hiret.trans (congrArg Cpu.iret hsame)) (hpoint j)
  · exact .preempted next hif (hiret.trans (congrArg Cpu.iret hnext)) (hpoint j)

theorem keyboard_cpu (scanCode : Option BYTE) (j : Kernel) :
    ((j.keyboardInterruptHandler scanCode).sched.cpu = j.sched.cpu ∨
      ∃ next, (j.keyboardInterruptHandler scanCode).sched.cpu = j.sched.cpu.preempt next) := by
  cases scanCode with
  | none => exact .inl rfl
  | some scanCode =>
    have hwoken := (j.setIf false).2.sched.wakeupProcessInInterrupt_cpu j.keyWaiter
    unfold keyboardInterruptHandler inputQueue
    dsimp only
    split
    · rcases hwoken with hsame | ⟨next, hnext⟩
      · exact .inl (congrArg (fun c => c.setIf j.sched.interruptFlag) hsame)
      · exact .inr ⟨next, congrArg (fun c => c.setIf j.sched.interruptFlag) hnext⟩
    · exact .inl rfl

theorem keyboard_resumePoint (scanCode : Option BYTE) (j : Kernel) :
    (j.keyboardInterruptHandler scanCode).resumePoint = j.resumePoint := by
  unfold keyboardInterruptHandler inputQueue
  split
  · rfl
  · dsimp only
    split <;> rfl

/-- Every step is a move of the processor's part. -/
theorem Valid.cpuStep (h : k.Valid)
    (hoff : k.resumePoint k.sched.runningProcess ≠ .code → k.sched.interruptFlag = false)
    (hstep : k.step a = some k') : CpuStep k a k' := by
  cases a with
  | timer frame =>
    simp only [Kernel.step, Option.ite_none_right_eq_some, Option.some.injEq] at hstep
    obtain ⟨hif, rfl⟩ := hstep
    exact interrupt_cpuStep hif rfl (fun j => j.sched.timerInterruptHandler_cpu) fun _ => rfl
  | keyboard scanCode frame =>
    simp only [Kernel.step, Option.ite_none_right_eq_some, Option.some.injEq] at hstep
    obtain ⟨hif, rfl⟩ := hstep
    exact interrupt_cpuStep hif rfl (keyboard_cpu scanCode) (keyboard_resumePoint scanCode)
  | disk isPrimary frame =>
    simp only [Kernel.step, Option.ite_none_right_eq_some, Option.some.injEq] at hstep
    obtain ⟨hif, rfl⟩ := hstep
    exact interrupt_cpuStep hif rfl
      (fun j => j.sched.wakeupProcessInInterrupt_cpu (j.diskWaiter isPrimary)) fun _ => rfl
  | call c regs =>
    simp only [Kernel.step, Option.ite_none_right_eq_some, Option.some.injEq] at hstep
    obtain ⟨hmay, rfl⟩ := hstep
    exact h.runCall_cpuStep hmay regs
  | resume regs => exact resumeCall_cpuStep hoff hstep
  | collect regs =>
    simp only [Kernel.step, Option.ite_none_right_eq_some, Option.some.injEq] at hstep
    obtain ⟨⟨-, hcode⟩, rfl⟩ := hstep
    exact ((k.setIf false).2.collectLoop_section _ regs).cpuStep rfl rfl rfl

/-- Inside a call interrupts are off: the flag is, or the saved registers say so. -/
structure FlagsOff (k : Kernel) : Prop where
  running : k.resumePoint k.sched.runningProcess ≠ .code → k.sched.interruptFlag = false
  saved : ∀ p ≠ k.sched.runningProcess, k.resumePoint p ≠ .code →
    contextIf (k.sched.cpu.context p) = false

/-- After a switch the flag is the one saved for the process that runs. -/
theorem FlagsOff.loaded {next : ℕ} {context : ℕ → ProcessContext} {flag : Bool}
    (hrun : k'.sched.cpu.running = next) (hflag : k'.sched.cpu.interruptFlag = flag)
    (hcontext : k'.sched.cpu.context = context) (hload : flag = contextIf (context next))
    (hoff : ∀ p, k'.resumePoint p ≠ .code → contextIf (context p) = false) : k'.FlagsOff := by
  have hrun' : k'.sched.runningProcess = next := hrun
  constructor
  · intro hne
    rw [hrun'] at hne
    exact hflag.trans (hload.trans (hoff next hne))
  · intro p _ hne
    rw [hcontext]
    exact hoff p hne

theorem FlagsOff.step (h : k.FlagsOff) (hstep : CpuStep k a k') : k'.FlagsOff := by
  cases hstep with
  | stays interrupt point hcpu hpoint hoff =>
    have hrun : k'.sched.runningProcess = k.sched.runningProcess := congrArg Cpu.running hcpu
    have hcontext : k'.sched.cpu.context = k.sched.cpu.context := by rw [hcpu]; rfl
    constructor
    · intro hne
      rw [hrun, hpoint, Function.update_self] at hne
      exact (congrArg Cpu.interruptFlag hcpu).trans (hoff hne)
    · intro p hp hne
      rw [hrun] at hp
      rw [hpoint, Function.update_of_ne hp] at hne
      rw [hcontext]
      exact h.saved p hp hne
  | creates p context hfree hcpu hpoint =>
    have hrun : k'.sched.runningProcess = k.sched.runningProcess := congrArg Cpu.running hcpu
    have hcontext : k'.sched.cpu.context = Function.update k.sched.cpu.context p context :=
      congrArg Cpu.context hcpu
    have hne_of {q : ℕ} (hne : k'.resumePoint q ≠ .code) : q ≠ p ∧ k.resumePoint q ≠ .code := by
      rw [hpoint, Function.update_apply] at hne
      split at hne
      · exact absurd rfl hne
      next hq => exact ⟨hq, hne⟩
    constructor
    · intro hne
      rw [hrun] at hne
      exact (congrArg Cpu.interruptFlag hcpu).trans (h.running (hne_of hne).2)
    · intro q hq hne
      rw [hrun] at hq
      rw [hcontext, Function.update_of_ne (hne_of hne).1]
      exact h.saved q hq (hne_of hne).2
  | switches next point hcpu hpoint =>
    refine FlagsOff.loaded (congrArg Cpu.running hcpu)
      (congrArg Cpu.interruptFlag hcpu) (congrArg Cpu.context hcpu) rfl fun p hne => ?_
    show contextIf (Function.update k.sched.cpu.context k.sched.runningProcess _ p) = false
    rw [hpoint] at hne
    by_cases hp : p = k.sched.runningProcess
    · rw [hp, Function.update_self, contextIf_withIf]
      rfl
    · rw [Function.update_of_ne hp] at hne ⊢
      exact h.saved p hp hne
  | interrupted hif hcpu hpoint =>
    have hrun : k'.sched.runningProcess = k.sched.runningProcess := congrArg Cpu.running hcpu
    have hcontext : k'.sched.cpu.context = k.sched.cpu.context := by rw [hcpu]; rfl
    constructor
    · intro hne
      rw [hrun, hpoint] at hne
      exact nomatch hif.symm.trans (h.running hne)
    · intro p hp hne
      rw [hrun] at hp
      rw [hpoint] at hne
      rw [hcontext]
      exact h.saved p hp hne
  | preempted next hif hcpu hpoint =>
    refine FlagsOff.loaded (congrArg Cpu.running hcpu)
      (congrArg Cpu.interruptFlag hcpu) (congrArg Cpu.context hcpu) rfl fun p hne => ?_
    show contextIf (Function.update k.sched.cpu.context k.sched.runningProcess _ p) = false
    rw [hpoint] at hne
    -- an interrupted process is in its own code
    have hp : p ≠ k.sched.runningProcess := by
      rintro rfl
      exact nomatch hif.symm.trans (h.running hne)
    rw [Function.update_of_ne hp]
    exact h.saved p hp hne

end Kernel

theorem Boot.start_flagsOff (b : Boot) : b.start.FlagsOff := by
  constructor
  · intro hne
    rw [b.start_resumePoint] at hne
    exact absurd rfl hne
  · intro p _ hne
    rw [b.start_resumePoint] at hne
    exact absurd rfl hne

namespace Kernel

variable {k k' : Kernel} {b : Boot} {history : List (Move Kernel Action)}

/-- Every move of a run is a move of the processor's part. -/
theorem cpu_run (hrun : KernelRun anyStep b history k) :
    k.Valid ∧ k.FlagsOff ∧ ∀ m ∈ history, CpuStep m.before m.label m.after := by
  refine hrun.history_invariant
    (P := fun past t => t.Valid ∧ t.FlagsOff ∧ ∀ m ∈ past, CpuStep m.before m.label m.after)
    ⟨b.start_valid, b.start_flagsOff, by simp⟩ ?_
  intro past t a u _ ⟨hvalid, hflags, hmoves⟩ _ hstep
  have hcpu := hvalid.cpuStep hflags.running hstep
  refine ⟨hvalid.step hstep, hflags.step hcpu, fun m hm => ?_⟩
  rcases List.mem_append.mp hm with hm | hm
  · exact hmoves m hm
  · rw [List.mem_singleton.mp hm]
    exact hcpu

end Kernel

theorem Reachable.flagsOff {k : Kernel} (h : Reachable k) : k.FlagsOff := by
  obtain ⟨b, history, hrun⟩ := h
  exact (Kernel.cpu_run hrun).2.1

end SkhuOS
