import SkhuOS.Proc.Steps

/-! What one step does to the processes: the lists, their states and the processor change
by one deed, and each action can do few of them. -/
namespace SkhuOS
open Foundation

/-- What a section with interrupts off can do to the processes. -/
inductive Deed where
  | nothing
  /-- A new process becomes ready. -/
  | create (p : ℕ)
  /-- The running process blocks, in a list or in none. -/
  | block (name : Option ListName)
  /-- The first waiter of a mutex gets the lock. -/
  | handOver (m next : ℕ)
  /-- An interrupt wakes the process that waits for it. -/
  | wake (p : ℕ)
  /-- The timer wakes those that are due and takes the processor away. -/
  | tick (due : ℕ → Bool)
  | yield
  /-- The running process exits and the collector wakes up. -/
  | exit (collector : ℕ)

namespace Plan

variable (π : Plan)

/-- The woken process replaces the idle process at once. -/
def wakeInInterrupt (p : ℕ) : Plan :=
  if π.states p = .blocked ∧ π.running = π.idle then (π.wakeup p).timeout else π.wakeup p

def after : Deed → Plan
  | .nothing => π
  | .create p =>
    ({ π with ids := Function.update π.ids p p }.setState p .ready).append .processList p
  | .block none => (π.setState π.running .blocked).dispatch
  | .block (some name) => ((π.append name π.running).setState π.running .blocked).dispatch
  | .handOver m next => (π.behead (.waitList m)).wakeup next
  | .wake p => π.wakeInInterrupt p
  | .tick due => (π.wakeAll due (π.roster .sleepList)).timeout
  | .yield => π.rotate
  | .exit collector => ((π.wakeup collector).setState π.running .exit).dispatch

end Plan

namespace Kernel

/-- The processes whose time has come when the next tick is counted. -/
def dueNext (k : Kernel) (p : ℕ) : Bool :=
  decide (k.sched.tickCount + 1 ≥ (k.sched.pcb p).wakeupTick)

/-- Which deeds an action can do. -/
def Does (k : Kernel) (a : Action) : Deed → Prop
  | .nothing => ∀ frame, a ≠ .timer frame
  | .create p => k.sched.runningProcess ≠ k.sched.idleProcess ∧
      k.allocProcessTable p = false ∧ ∃ c regs, a = .call c regs ∧ c.Creates
  | .block name => k.sched.runningProcess ≠ k.sched.idleProcess ∧ name ≠ some .processList ∧
      ∀ frame, a ≠ .timer frame
  | .handOver m next => k.sched.runningProcess ≠ k.sched.idleProcess ∧
      (∃ rest, k.sched.roster (.waitList m) = next :: rest) ∧
        ∃ regs, a = .call (.releaseLock m) regs
  | .wake p => (∃ scanCode frame, a = .keyboard scanCode frame ∧ k.keyWaiter = some p) ∨
      ∃ isPrimary frame, a = .disk isPrimary frame ∧ k.diskWaiter isPrimary = some p
  | .tick due => (∃ frame, a = .timer frame) ∧ due = k.dueNext
  | .yield => k.sched.runningProcess ≠ k.sched.idleProcess ∧ ∃ regs, a = .call .schedule regs
  | .exit collector => k.sched.runningProcess ≠ k.sched.idleProcess ∧
      k.collectorProcess = some collector ∧ ∃ regs, a = .call .exitProcess regs

/-- One deed of the action leads from the plan of `k` to that of `k'`. -/
def Performs (k : Kernel) (a : Action) (k' : Kernel) : Prop :=
  ∃ d, k.Does a d ∧ k'.sched.plan = k.sched.plan.after d

variable {k k' : Kernel} {a : Action}

/-- The lists, the states and the processor stay as they are. -/
theorem Performs.of_plan (hplan : k'.sched.plan = k.sched.plan)
    (ha : ∀ frame, a ≠ .timer frame) : k.Performs a k' :=
  ⟨.nothing, ha, hplan⟩

namespace Valid

/-- Waking a registered waiter from an interrupt. -/
theorem wakeupProcessInInterrupt_plan (h : k.Valid) {p : ℕ} (hp : k.roles.member p)
    (hw : k.roles.waits p = none ∨ k.roles.waits p = some .sleepList) :
    (k.sched.wakeupProcessInInterrupt (some p)).plan = k.sched.plan.wakeInInterrupt p := by
  have hset : (k.sched.wakeupProcess (some p)).2.Settled k.roles := by
    apply h.settled.wakeupProcess
    intro q hq
    cases hq
    exact ⟨hp, hw⟩
  have hplan := (h.settled.wakeupProcess_refines hp hw).2
  have hwoken : (k.sched.wakeupProcess (some p)).1 = decide (k.sched.plan.states p = .blocked) := by
    show (k.sched.wakeupProcess (some p)).1 = decide ((k.sched.pcb p).state = .blocked)
    by_cases hs : (k.sched.pcb p).state = .blocked
    · simp [Scheduler.wakeupProcess, hs]
    · simp [Scheduler.wakeupProcess, hs]
  have hrunning : (k.sched.wakeupProcess (some p)).2.runningProcess = k.sched.runningProcess :=
    (congrArg Plan.running hplan).trans Plan.wakeup_running
  have hidle : (k.sched.wakeupProcess (some p)).2.idleProcess = k.sched.idleProcess :=
    (congrArg Plan.idle hplan).trans Plan.wakeup_idle
  unfold Plan.wakeInInterrupt
  simp only [Scheduler.wakeupProcessInInterrupt, hwoken, hrunning, hidle, Bool.and_eq_true,
    decide_eq_true_eq, beq_iff_eq]
  show Scheduler.plan (if k.sched.plan.states p = .blocked ∧
    k.sched.plan.running = k.sched.plan.idle then _ else _) = _
  split
  · rw [hset.timeoutSchedule_refines.2, hplan]
  · exact hplan

theorem timerInterruptHandler_plan (h : k.Valid) : k.sched.timerInterruptHandler.plan =
    (k.sched.plan.wakeAll k.dueNext (k.sched.plan.roster .sleepList)).timeout := by
  have htick : { k.sched with tickCount := k.sched.tickCount + 1 }.Settled k.roles :=
    h.settled.congr rfl rfl rfl
  simp only [Scheduler.timerInterruptHandler]
  rw [htick.wakeExpiredProcess.timeoutSchedule_refines.2,
    (Scheduler.wakeExpiredProcess_refines htick.linked).2]
  rfl

theorem wakeRegistered (h : k.Valid) (pcb : Option ℕ) (hpcb : ∀ p, pcb = some p →
      k.roles.member p ∧ (k.roles.waits p = none ∨ k.roles.waits p = some .sleepList))
    (hdoes : ∀ p, pcb = some p → k.Does a (.wake p)) (ha : ∀ frame, a ≠ .timer frame)
    (hplan : k'.sched.plan = (k.sched.wakeupProcessInInterrupt pcb).plan) : k.Performs a k' := by
  cases pcb with
  | none => exact .of_plan hplan ha
  | some p =>
    refine ⟨.wake p, hdoes p rfl, ?_⟩
    rw [hplan, h.wakeupProcessInInterrupt_plan (hpcb p rfl).1 (hpcb p rfl).2]
    rfl

/-- The running process blocks in no list. -/
theorem block_performs (h : k.Valid) (hrun : k.sched.runningProcess ≠ k.sched.idleProcess)
    (ha : ∀ frame, a ≠ .timer frame) (regs : ProcessContext)
    (hplan : k'.sched.plan = (k.sched.blockRunningProcess regs).plan) : k.Performs a k' := by
  refine ⟨.block none, ⟨hrun, by simp, ha⟩, ?_⟩
  rw [hplan]
  exact (Scheduler.blockRunningProcess_refines h.settled.linked regs).2

/-- The running process blocks in the sleep list. -/
theorem sleep_performs (h : k.Valid) (hrun : k.sched.runningProcess ≠ k.sched.idleProcess)
    (ha : ∀ frame, a ≠ .timer frame) (tick : QWORD) (regs : ProcessContext)
    (hplan : k'.sched.plan = (k.sched.sleepUntilTick tick regs).plan) : k.Performs a k' := by
  refine ⟨.block (some .sleepList), ⟨hrun, by simp, ha⟩, ?_⟩
  rw [hplan]
  exact h.settled.sleepUntilTick_refines hrun tick regs

theorem getKeyLoop_performs (h : k.Valid) (hrun : k.sched.runningProcess ≠ k.sched.idleProcess)
    (ha : ∀ frame, a ≠ .timer frame) (preIf : Bool) (regs : ProcessContext) :
    k.Performs a (k.getKeyLoop preIf regs).2 := by
  unfold Kernel.getKeyLoop
  dsimp only
  split
  · exact .of_plan rfl ha
  · exact h.block_performs hrun ha regs rfl

theorem waitLoop_performs (h : k.Valid) (hrun : k.sched.runningProcess ≠ k.sched.idleProcess)
    (ha : ∀ frame, a ≠ .timer frame) (isPrimary : Bool) (deadline : QWORD)
    (regs : ProcessContext) : k.Performs a (k.waitLoop isPrimary deadline regs).2 := by
  unfold Kernel.waitLoop
  split
  · exact .of_plan rfl ha
  · split
    · exact .of_plan rfl ha
    · exact h.sleep_performs hrun ha deadline regs rfl

theorem collectLoop_performs (h : k.Valid) (hrun : k.sched.runningProcess ≠ k.sched.idleProcess)
    (ha : ∀ frame, a ≠ .timer frame) (preIf : Bool) (regs : ProcessContext) :
    k.Performs a (k.collectLoop preIf regs) := by
  unfold Kernel.collectLoop
  split
  · exact h.block_performs hrun ha regs rfl
  · exact .of_plan rfl ha

theorem createProcess_performs (h : k.Valid) {c : Call} (hc : c.Creates)
    (hrun : k.sched.runningProcess ≠ k.sched.idleProcess) (entryPoint arg : QWORD)
    (regs : ProcessContext) :
    k.Performs (.call c regs) (k.createProcess entryPoint arg).2 := by
  rcases h.createProcess_cases entryPoint arg with ⟨p, hfree, -, heq⟩ | ⟨p, heq⟩
  · rw [heq]
    exact ⟨.create p, ⟨hrun, hfree, c, regs, rfl, hc⟩,
      (h.setIf false).createAt_plan hfree entryPoint arg⟩
  · rw [heq]
    exact .of_plan rfl (by simp)

theorem createUserProcess_performs (h : k.Valid) {c : Call} (hc : c.Creates)
    (hrun : k.sched.runningProcess ≠ k.sched.idleProcess) (entryPoint arg : QWORD) (regs : ProcessContext) :
    k.Performs (.call c regs) (k.createUserProcess entryPoint arg).2 := by
  have hcreate := (h.setIf false).createProcess_performs hc hrun entryPoint arg regs
  unfold Kernel.createUserProcess
  dsimp only
  split
  next k₁ heq =>
    rw [heq] at hcreate
    exact hcreate
  next p k₁ heq =>
    rw [heq] at hcreate
    obtain ⟨d, hd, hplan⟩ := hcreate
    have hsame : (k₁.sched.modifyPcb p fun pcb => { pcb with
        context := setUserContext (BitVec.ofNat 64 (userStackBase + userStackInterval * p))
          pcb.context }).plan = k₁.sched.plan := Scheduler.modifyPcb_plan rfl
    exact ⟨d, hd, hsame.trans hplan⟩

theorem runUserProgram_performs (h : k.Valid) {c : Call} (hc : c.Creates)
    (hrun : k.sched.runningProcess ≠ k.sched.idleProcess) (image : Bytes) (size : ℕ)
    (arg : QWORD) (regs : ProcessContext) :
    k.Performs (.call c regs) (k.runUserProgram image size arg).2 := by
  unfold Kernel.runUserProgram
  split
  · exact .of_plan rfl (by simp)
  · have hcreate := ((h.setIf false).copyImage image size).createUserProcess_performs hc hrun
      (BitVec.ofNat 64 userCodeAddress) arg regs
    dsimp only
    split
    next k₁ heq =>
      rw [heq] at hcreate
      exact hcreate
    next p k₁ heq =>
      rw [heq] at hcreate
      exact hcreate

end Valid

/-- A call that goes on does not depend on the waiters the drivers know. -/
theorem Performs.of_cleared {k₁ : Kernel} {regs : ProcessContext}
    (h : k₁.Performs (.resume regs) k') (hsched : k₁.sched = k.sched) :
    k.Performs (.resume regs) k' := by
  obtain ⟨d, hd, hplan⟩ := h
  rw [hsched] at hplan
  refine ⟨d, ?_, hplan⟩
  cases d with
  | nothing => exact hd
  | create p =>
    obtain ⟨-, -, c, regs, ha, -⟩ := hd
    cases ha
  | block name =>
    rw [Does, hsched] at hd
    exact hd
  | handOver m next =>
    obtain ⟨-, -, regs, ha⟩ := hd
    cases ha
  | wake p => rcases hd with ⟨_, _, ha, -⟩ | ⟨_, _, ha, -⟩ <;> cases ha
  | tick due =>
    obtain ⟨⟨frame, ha⟩, -⟩ := hd
    cases ha
  | yield =>
    obtain ⟨-, regs, ha⟩ := hd
    cases ha
  | exit collector =>
    obtain ⟨-, -, regs, ha⟩ := hd
    cases ha

theorem Performs.orForever {α : Type} {result : Option α × Kernel} (h : k.Performs a result.2) :
    k.Performs a (Kernel.orForever result) := by
  obtain ⟨value, k'⟩ := result
  cases value with
  | some _ => exact h
  | none => exact h

namespace Valid

theorem acquireLock_performs (h : k.Valid) {m : ℕ} (hmay : k.MayCall (.acquireLock m))
    (regs : ProcessContext) :
    k.Performs (.call (.acquireLock m) regs) (k.acquireLock m regs) := by
  rcases h.acquireLock_cases hmay regs with ⟨-, heq⟩ | ⟨-, heq⟩ | ⟨-, -, preIf, heq⟩
  · exact .of_plan (congrArg Parts.plan heq) (by simp)
  · exact .of_plan (congrArg Parts.plan heq) (by simp)
  · exact ⟨.block (some (.waitList m)), ⟨hmay.2.1, by simp, by simp⟩, congrArg Parts.plan heq⟩

theorem releaseLock_performs (h : k.Valid) {m : ℕ} (hmay : k.MayCall (.releaseLock m))
    (regs : ProcessContext) : k.Performs (.call (.releaseLock m) regs) (k.releaseLock m) := by
  rcases h.releaseLock_cases hmay with ⟨-, heq⟩ | ⟨-, -, heq⟩ | ⟨-, -, -, heq⟩ |
    ⟨next, rest, -, -, hfirst, heq⟩
  · exact .of_plan (by rw [heq]) (by simp)
  · exact .of_plan (congrArg Parts.plan heq) (by simp)
  · exact .of_plan (congrArg Parts.plan heq) (by simp)
  · exact ⟨.handOver m next, ⟨hmay.2.1, ⟨rest, hfirst⟩, regs, rfl⟩, congrArg Parts.plan heq⟩

theorem schedule_performs (h : k.Valid) (hmay : k.MayCall .schedule) (regs : ProcessContext) :
    k.Performs (.call .schedule regs) (k.schedule regs) := by
  unfold Kernel.schedule
  dsimp only
  split
  · exact .of_plan rfl (by simp)
  · have hoff := (h.setIf false).settled
    refine ⟨.yield, ⟨hmay.2.1, regs, rfl⟩, ?_⟩
    exact (Scheduler.yieldTo_refines hoff.linked regs (fun _ => hoff.running_not_mem)
      (hoff.running_id hmay.2.1)).2

theorem exitProcess_performs (h : k.Valid) (hmay : k.MayCall .exitProcess)
    (regs : ProcessContext) : k.Performs (.call .exitProcess regs) (k.exitProcess regs) := by
  obtain ⟨c, hc, -⟩ := h.collector
  exact ⟨.exit c, ⟨hmay.2.1, hc, regs, rfl⟩, h.exitProcess_plan hc regs⟩

theorem runCall_performs (h : k.Valid) {c : Call} (hmay : k.MayCall c) (regs : ProcessContext) :
    k.Performs (.call c regs) (k.runCall c regs) := by
  cases c with
  | setIf interrupt => exact .of_plan rfl (by simp)
  | createProcess entryPoint arg =>
    exact (h.createProcess_performs (c := .createProcess entryPoint arg) trivial hmay.2.1
      entryPoint arg regs).orForever
  | createUserProcess entryPoint arg =>
    exact (h.createUserProcess_performs (c := .createUserProcess entryPoint arg) trivial
      hmay.2.1 entryPoint arg regs).orForever
  | runUserProgram image size arg =>
    exact (h.runUserProgram_performs (c := .runUserProgram image size arg) trivial hmay.2.1
      image size arg regs).orForever
  | sleepProcess ms => exact (h.setIf false).sleep_performs hmay.2.1 (by simp) _ regs rfl
  | acquireLock m => exact h.acquireLock_performs hmay regs
  | releaseLock m => exact h.releaseLock_performs hmay regs
  | getKey => exact (h.setIf false).getKeyLoop_performs hmay.2.1 (by simp) _ regs
  | getQueue => exact .of_plan rfl (by simp)
  | clearDiskInterruptFlag isPrimary => exact .of_plan rfl (by simp)
  | waitInterrupt isPrimary =>
    simp only [Kernel.runCall, Kernel.waitInterrupt]
    split
    · exact .of_plan rfl (by simp)
    · exact (h.setIf false).waitLoop_performs hmay.2.1 (by simp) _ _ regs
  | schedule => exact h.schedule_performs hmay regs
  | exitProcess => exact h.exitProcess_performs hmay regs

theorem resumeCall_performs (h : k.Valid) {regs : ProcessContext}
    (hstep : k.resumeCall (k.resumePoint k.sched.runningProcess) regs = some k') :
    k.Performs (.resume regs) k' := by
  cases hat : k.resumePoint k.sched.runningProcess with
  | code | exitProcess | createProcess => simp [Kernel.resumeCall, hat] at hstep
  | sleepProcess preIf | schedule preIf | acquireLock m preIf =>
    simp only [Kernel.resumeCall, hat, Option.some.injEq] at hstep
    subst hstep
    exact .of_plan rfl (by simp)
  | getKey preIf =>
    simp only [Kernel.resumeCall, hat, Option.some.injEq] at hstep
    subst hstep
    have hcleared := h.clear_keyWaiter.getKeyLoop_performs (a := .resume regs)
      (h.running_ne_idle (by simp [hat])) (by simp) preIf regs
    exact hcleared.of_cleared rfl
  | waitInterrupt isPrimary deadline =>
    simp only [Kernel.resumeCall, hat, Option.some.injEq] at hstep
    subst hstep
    have hcleared := (h.clear_diskWaiter isPrimary).waitLoop_performs (a := .resume regs)
      (h.running_ne_idle (by simp [hat])) (by simp) isPrimary deadline regs
    exact hcleared.of_cleared rfl
  | garbageProcessCollector preIf =>
    simp only [Kernel.resumeCall, hat, Option.some.injEq] at hstep
    subst hstep
    exact h.collectLoop_performs (h.running_ne_idle (by simp [hat])) (by simp) preIf regs

theorem collector_ne_idle (h : k.Valid)
    (hcol : some k.sched.runningProcess = k.collectorProcess) :
    k.sched.runningProcess ≠ k.sched.idleProcess := by
  obtain ⟨c, hc, hmem, -⟩ := h.collector
  obtain rfl : k.sched.runningProcess = c := Option.some.inj (hcol.trans hc)
  exact hmem.2

theorem interrupt_entry (h : k.Valid) (frame : ProcessContext) :
    { k with sched := { k.sched with
      ist := withIf frame true, interruptFlag := false } }.Valid :=
  h.of_sched (h.settled.congr rfl rfl rfl)

/-- Every step performs one of the deeds of its action. -/
theorem performs (h : k.Valid) (hstep : k.step a = some k') : k.Performs a k' := by
  cases a with
  | timer frame =>
    simp only [Kernel.step, Option.ite_none_right_eq_some, Option.some.injEq] at hstep
    obtain ⟨-, rfl⟩ := hstep
    exact ⟨.tick k.dueNext, ⟨⟨frame, rfl⟩, rfl⟩,
      (h.interrupt_entry frame).timerInterruptHandler_plan⟩
  | keyboard scanCode frame =>
    simp only [Kernel.step, Option.ite_none_right_eq_some, Option.some.injEq] at hstep
    obtain ⟨-, rfl⟩ := hstep
    cases scanCode with
    | none => exact .of_plan rfl (by simp)
    | some scanCode =>
      by_cases hcode : (scanToASCII k.shiftOn scanCode).1 = 0
      · refine .of_plan ?_ (by simp)
        simp only [Kernel.interrupt, Kernel.keyboardInterruptHandler, Kernel.inputQueue, hcode,
          ne_eq, not_true_eq_false, if_false]
        rfl
      · have hentry := (h.interrupt_entry frame).setIf false
        refine hentry.wakeRegistered k.keyWaiter h.keyWaiter_place
          (fun p hp => .inl ⟨some scanCode, frame, rfl, hp⟩) (by simp) ?_
        simp only [Kernel.interrupt, Kernel.keyboardInterruptHandler, Kernel.inputQueue, ne_eq,
          hcode, not_false_eq_true, if_true]
        rfl
  | disk isPrimary frame =>
    simp only [Kernel.step, Option.ite_none_right_eq_some, Option.some.injEq] at hstep
    obtain ⟨-, rfl⟩ := hstep
    exact (h.interrupt_entry frame).wakeRegistered (k.diskWaiter isPrimary)
      (h.diskWaiter_place isPrimary) (fun p hp => .inr ⟨isPrimary, frame, rfl, hp⟩) (by simp) rfl
  | call c regs =>
    simp only [Kernel.step, Option.ite_none_right_eq_some, Option.some.injEq] at hstep
    obtain ⟨hmay, rfl⟩ := hstep
    exact h.runCall_performs hmay regs
  | resume regs => exact h.resumeCall_performs hstep
  | collect regs =>
    simp only [Kernel.step, Option.ite_none_right_eq_some, Option.some.injEq] at hstep
    obtain ⟨⟨hcol, -⟩, rfl⟩ := hstep
    exact (h.setIf false).collectLoop_performs (h.collector_ne_idle hcol) (by simp) _ regs

end Valid
end Kernel
end SkhuOS
