import SkhuOS.Proc.RoundRobin

/-! What a step leaves alone of a process that does not run: its slot, the place where it
continues, its wake-up time, and whether it is blocked. -/
namespace SkhuOS
open Foundation

namespace Scheduler

variable (s : Scheduler)

/-- The tick count and the wake-up times. -/
def clock : QWORD × (ℕ → QWORD) := (s.tickCount, fun p => (s.pcb p).wakeupTick)

variable {s}

theorem modifyPcb_clock {p : ℕ} {f : PCB → PCB}
    (hf : (f (s.pcb p)).wakeupTick = (s.pcb p).wakeupTick) : (s.modifyPcb p f).clock = s.clock := by
  unfold clock
  congr 1
  funext q
  rw [modifyPcb_pcb]
  split
  next hq => rw [hf, hq]
  next => rfl

variable (s)

@[simp] theorem setState_clock (p : ℕ) (state : ProcessState) :
    (s.setState p state).clock = s.clock := modifyPcb_clock rfl

@[simp] theorem insertList_clock (name : ListName) (p : ℕ) :
    (s.insertList name p).clock = s.clock := rfl

@[simp] theorem removeList_clock (name : ListName) (id : ℤ) :
    (s.removeList name id).2.clock = s.clock := rfl

@[simp] theorem headRemove_clock (name : ListName) : (s.headRemove name).2.clock = s.clock := rfl

@[simp] theorem makeRunning_clock (next : ℕ) : (s.makeRunning next).clock = s.clock :=
  setState_clock s next .running

@[simp] theorem switchContext_clock (current next : ℕ) (regs : ProcessContext) :
    (s.switchContext current next regs).clock = s.clock := by
  have hsave : (s.modifyPcb current fun pcb =>
      { pcb with context := withIf regs s.interruptFlag }).clock = s.clock := modifyPcb_clock rfl
  exact hsave

@[simp] theorem scheduleBlocked_clock (regs : ProcessContext) :
    (s.scheduleBlocked regs).clock = s.clock := by
  unfold scheduleBlocked
  simp

@[simp] theorem blockRunningProcess_clock (regs : ProcessContext) :
    (s.blockRunningProcess regs).clock = s.clock := by
  unfold blockRunningProcess
  simp

@[simp] theorem wakeupProcess_clock (pcb : Option ℕ) : (s.wakeupProcess pcb).2.clock = s.clock := by
  unfold wakeupProcess
  split
  · rfl
  · split
    · rfl
    · simp

@[simp] theorem timeoutSchedule_clock : s.timeoutSchedule.clock = s.clock := by
  unfold timeoutSchedule
  split
  · rfl
  · have hhead := headRemove_clock s .processList
    split
    next t heq =>
      rw [heq] at hhead
      exact hhead
    next next t heq =>
      rw [heq] at hhead
      have hsave : (t.modifyPcb t.runningProcess fun pcb =>
          { pcb with context := t.ist }).clock = t.clock := modifyPcb_clock rfl
      have hload (u : Scheduler) : ({ u.makeRunning next with
          ist := ((u.makeRunning next).pcb next).context } : Scheduler).clock = u.clock :=
        makeRunning_clock u next
      rw [← hhead, ← hsave]
      dsimp only
      split
      · exact (hload _).trans ((insertList_clock _ _ _).trans (setState_clock _ _ _))
      · exact hload _

@[simp] theorem wakeupProcessInInterrupt_clock (pcb : Option ℕ) :
    (s.wakeupProcessInInterrupt pcb).clock = s.clock := by
  unfold wakeupProcessInInterrupt
  dsimp only
  split <;> simp

theorem wakeExpiredLoop_clock (fuel : ℕ) (cur : Option ℕ) (s : Scheduler) :
    (wakeExpiredLoop fuel cur s).clock = s.clock := by
  induction fuel generalizing cur s with
  | zero => rfl
  | succ fuel ih =>
    cases cur with
    | none => rfl
    | some p =>
      rw [wakeExpiredLoop, ih]
      split
      · exact wakeupProcess_clock s (some p)
      · rfl

theorem timerInterruptHandler_clock :
    s.timerInterruptHandler.clock = (s.tickCount + 1, s.clock.2) := by
  unfold timerInterruptHandler
  dsimp only
  rw [timeoutSchedule_clock, wakeExpiredProcess, wakeExpiredLoop_clock]
  rfl

theorem sleepUntilTick_clock (tick : QWORD) (regs : ProcessContext) :
    (s.sleepUntilTick tick regs).clock =
      (s.tickCount, Function.update s.clock.2 s.runningProcess tick) := by
  unfold sleepUntilTick
  dsimp only
  rw [blockRunningProcess_clock, insertList_clock]
  unfold clock
  congr 1
  funext q
  rw [modifyPcb_pcb, Function.update_apply]
  split <;> rfl

@[simp] theorem yieldTo_clock (regs : ProcessContext) : (s.yieldTo regs).clock = s.clock := by
  have hhead := headRemove_clock s .processList
  unfold yieldTo
  split
  next t heq =>
    rw [heq] at hhead
    exact hhead
  next next t heq =>
    rw [heq] at hhead
    rw [← hhead]
    simp

@[simp] theorem addProcess_clock (p : ℕ) (entryPoint arg : QWORD) :
    (s.addProcess p entryPoint arg).clock = s.clock := by
  unfold addProcess setUpProcess
  dsimp only
  rw [insertList_clock, setState_clock, modifyPcb_clock rfl, modifyPcb_clock rfl]
  rfl

/-- The tick count and the wake-up time of one process. -/
def time (p : ℕ) : QWORD × QWORD := (s.tickCount, (s.pcb p).wakeupTick)

variable {s}

theorem time_congr {t : Scheduler} {p : ℕ} (h : t.clock = s.clock) : t.time p = s.time p :=
  congrArg (fun c => (c.1, c.2 p)) h

theorem sleepUntilTick_time {p : ℕ} (hp : p ≠ s.runningProcess) (tick : QWORD)
    (regs : ProcessContext) : (s.sleepUntilTick tick regs).time p = s.time p := by
  have hclock := congrArg (fun c => (c.1, c.2 p)) (s.sleepUntilTick_clock tick regs)
  dsimp only at hclock
  rw [Function.update_of_ne hp] at hclock
  exact hclock

end Scheduler

namespace Kernel

/-- What a step leaves alone of process `p`, and the time. -/
structure Aside (p : ℕ) (k k' : Kernel) : Prop where
  point : k'.resumePoint p = k.resumePoint p
  alloc : k'.allocProcessTable p = k.allocProcessTable p
  time : k'.sched.time p = k.sched.time p

variable {k k' : Kernel} {a : Action} {p : ℕ}

theorem Aside.trans {k'' : Kernel} (h : Aside p k k') (h' : Aside p k' k'') : Aside p k k'' :=
  ⟨h'.point.trans h.point, h'.alloc.trans h.alloc, h'.time.trans h.time⟩

/-- Only the running process moves on. -/
theorem Aside.of_running (hp : p ≠ k.sched.runningProcess) {point : ResumePoint}
    (hpoint : k'.resumePoint = Function.update k.resumePoint k.sched.runningProcess point)
    (halloc : k'.allocProcessTable = k.allocProcessTable)
    (htime : k'.sched.time p = k.sched.time p) : Aside p k k' :=
  ⟨by rw [hpoint, Function.update_of_ne hp], by rw [halloc], htime⟩

theorem Aside.of_same (hpoint : k'.resumePoint = k.resumePoint)
    (halloc : k'.allocProcessTable = k.allocProcessTable)
    (hclock : k'.sched.clock = k.sched.clock) : Aside p k k' :=
  ⟨by rw [hpoint], by rw [halloc], Scheduler.time_congr hclock⟩

section Steps

variable (hp : p ≠ k.sched.runningProcess)

include hp

theorem sleepProcess_aside (ms : QWORD) (regs : ProcessContext) :
    Aside p k (k.sleepProcess ms regs) := by
  unfold sleepProcess
  dsimp only
  refine .of_running hp rfl rfl ?_
  exact Scheduler.sleepUntilTick_time
    (s := ((k.setIf false).2.setResumePoint k.sched.runningProcess
      (.sleepProcess (k.setIf false).1)).sched) hp _ regs

theorem getKeyLoop_aside (preIf : Bool) (regs : ProcessContext) :
    Aside p k (k.getKeyLoop preIf regs).2 := by
  unfold getKeyLoop
  dsimp only
  split
  · exact .of_running hp rfl rfl rfl
  · refine .of_running hp rfl rfl ?_
    exact Scheduler.time_congr (Scheduler.blockRunningProcess_clock _ regs)

theorem waitLoop_aside (isPrimary : Bool) (deadline : QWORD) (regs : ProcessContext) :
    Aside p k (k.waitLoop isPrimary deadline regs).2 := by
  unfold waitLoop
  split
  · exact .of_running hp rfl rfl rfl
  · split
    · exact .of_running hp rfl rfl rfl
    · exact .of_running hp rfl rfl (Scheduler.sleepUntilTick_time hp deadline regs)

/-- The collector frees the slot of an exited process. -/
theorem Valid.collectLoop_aside (h : k.Valid) (hlive : k.resumePoint p ≠ .exitProcess)
    (preIf : Bool) (regs : ProcessContext) : Aside p k (k.collectLoop preIf regs) := by
  unfold Kernel.collectLoop
  split
  · refine .of_running hp rfl rfl ?_
    exact Scheduler.time_congr (Scheduler.blockRunningProcess_clock _ regs)
  next hempty =>
    have hfirst := h.deQueue_pid (by simpa using hempty)
    have hmem : pidAt (deQueue k.exitProcessQueue fun _ => 0).2.1 0 ∈
        k.exitProcessQueue.contents pidAt := by
      rw [hfirst]
      exact List.mem_cons_self
    have hne : p ≠ pidAt (deQueue k.exitProcessQueue fun _ => 0).2.1 0 := by
      rintro rfl
      exact hlive (h.queued.2 _ hmem).2
    exact ⟨Function.update_of_ne hp _ _, Function.update_of_ne hne _ _, rfl⟩

theorem schedule_aside (regs : ProcessContext) : Aside p k (k.schedule regs) := by
  unfold schedule
  dsimp only
  split
  · exact .of_same rfl rfl rfl
  · refine .of_running hp rfl rfl ?_
    exact Scheduler.time_congr (Scheduler.yieldTo_clock _ regs)

theorem acquireLock_aside (m : ℕ) (regs : ProcessContext) : Aside p k (k.acquireLock m regs) := by
  unfold acquireLock
  dsimp only
  split
  · exact .of_same rfl rfl rfl
  · split
    · exact .of_same rfl rfl rfl
    · refine .of_running hp rfl rfl ?_
      exact Scheduler.time_congr (Scheduler.blockRunningProcess_clock _ regs)

theorem exitProcess_aside (regs : ProcessContext) : Aside p k (k.exitProcess regs) := by
  have hrunning : ((k.setIf false).2.sched.wakeupProcess k.collectorProcess).2.runningProcess =
      k.sched.runningProcess := by
    cases k.collectorProcess with
    | none => rfl
    | some c =>
      unfold Scheduler.wakeupProcess
      dsimp only
      split <;> rfl
  unfold exitProcess
  refine .of_running hp rfl rfl ?_
  refine (Scheduler.time_congr (Scheduler.scheduleBlocked_clock _ regs)).trans ?_
  refine (Scheduler.time_congr (Scheduler.setState_clock _ _ .exit)).trans ?_
  exact Scheduler.time_congr (Scheduler.wakeupProcess_clock _ k.collectorProcess)

end Steps

theorem releaseLock_aside (m : ℕ) : Aside p k (k.releaseLock m) := by
  unfold releaseLock
  dsimp only
  split
  · exact .of_same rfl rfl rfl
  · split
    · have hhead := Scheduler.headRemove_clock (k.setIf false).2.sched (.waitList m)
      split
      next s heq =>
        have heq : (k.setIf false).2.sched.headRemove (.waitList m) = (none, s) := heq
        rw [heq] at hhead
        exact .of_same rfl rfl hhead
      next next s heq =>
        have heq : (k.setIf false).2.sched.headRemove (.waitList m) = (some next, s) := heq
        rw [heq] at hhead
        exact .of_same rfl rfl ((Scheduler.wakeupProcess_clock s (some next)).trans hhead)
    · exact .of_same rfl rfl rfl

section Creation

variable (halloc : k.allocProcessTable p = true)

include halloc

theorem createAt_aside {q : ℕ} (hfree : k.allocProcessTable q = false) (entryPoint arg : QWORD) :
    Aside p k (k.createAt q entryPoint arg) := by
  have hne : p ≠ q := by
    rintro rfl
    rw [hfree] at halloc
    cases halloc
  exact ⟨Function.update_of_ne hne _ _, Function.update_of_ne hne _ _,
    Scheduler.time_congr (Scheduler.addProcess_clock _ q entryPoint arg)⟩

theorem Valid.createProcess_aside (h : k.Valid) (entryPoint arg : QWORD) :
    Aside p k (k.createProcess entryPoint arg).2 := by
  rcases h.createProcess_cases entryPoint arg with ⟨q, hfree, -, heq⟩ | ⟨q, heq⟩
  · rw [heq]
    have hat : Aside p (k.setIf false).2 ((k.setIf false).2.createAt q entryPoint arg) :=
      createAt_aside (k := (k.setIf false).2) halloc hfree entryPoint arg
    exact ⟨hat.point, hat.alloc, hat.time⟩
  · rw [heq]
    exact .of_same rfl rfl rfl

theorem Valid.createUserProcess_aside (h : k.Valid) (entryPoint arg : QWORD) :
    Aside p k (k.createUserProcess entryPoint arg).2 := by
  have hcreate : Aside p (k.setIf false).2 _ :=
    (h.setIf false).createProcess_aside (k := (k.setIf false).2) halloc entryPoint arg
  unfold Kernel.createUserProcess
  dsimp only
  split
  next k₁ heq =>
    rw [heq] at hcreate
    exact ⟨hcreate.point, hcreate.alloc, hcreate.time⟩
  next q k₁ heq =>
    rw [heq] at hcreate
    have hsame : (k₁.sched.modifyPcb q fun pcb => { pcb with
        context := setUserContext (BitVec.ofNat 64 (userStackBase + userStackInterval * q))
          pcb.context }).clock = k₁.sched.clock := Scheduler.modifyPcb_clock rfl
    exact ⟨hcreate.point, hcreate.alloc,
      (Scheduler.time_congr hsame).trans hcreate.time⟩

theorem Valid.runUserProgram_aside (h : k.Valid) (image : Bytes) (size : ℕ) (arg : QWORD) :
    Aside p k (k.runUserProgram image size arg).2 := by
  unfold Kernel.runUserProgram
  split
  · exact .of_same rfl rfl rfl
  · have hcreate : Aside p ((k.setIf false).2.copyImage image size) _ :=
      ((h.setIf false).copyImage image size).createUserProcess_aside
        (k := (k.setIf false).2.copyImage image size) halloc (BitVec.ofNat 64 userCodeAddress) arg
    dsimp only
    split
    next k₁ heq =>
      rw [heq] at hcreate
      exact ⟨hcreate.point, hcreate.alloc, hcreate.time⟩
    next q k₁ heq =>
      rw [heq] at hcreate
      exact ⟨hcreate.point, hcreate.alloc, hcreate.time⟩

end Creation

theorem Aside.orForever {α : Type} {result : Option α × Kernel} (h : Aside p k result.2)
    (hp : p ≠ k.sched.runningProcess) (hfail : result.1 = none → k.SameProcesses result.2) :
    Aside p k (Kernel.orForever result) := by
  obtain ⟨value, k'⟩ := result
  cases value with
  | some _ => exact h
  | none =>
    obtain ⟨-, hrunning, -⟩ := hfail rfl
    have hp' : p ≠ k'.sched.runningProcess := fun he => hp (he.trans hrunning)
    exact h.trans (.of_running hp' rfl rfl rfl)

/-- The timer counts a tick before anything else. -/
def ticked (k : Kernel) : Action → Kernel
  | .timer _ => { k with sched := { k.sched with tickCount := k.sched.tickCount + 1 } }
  | _ => k

theorem interrupt_aside (frame : ProcessContext) {handler : Kernel → Kernel}
    (hhandler : ∀ k : Kernel, Aside p k (handler k)) : Aside p k (k.interrupt frame handler) := by
  have hentry := hhandler { k with sched := { k.sched with
    ist := withIf frame true, interruptFlag := false } }
  exact ⟨hentry.point, hentry.alloc, hentry.time⟩

theorem keyboard_aside (scanCode : Option BYTE) (k : Kernel) :
    Aside p k (k.keyboardInterruptHandler scanCode) := by
  cases scanCode with
  | none => exact .of_same rfl rfl rfl
  | some scanCode =>
    unfold keyboardInterruptHandler inputQueue
    dsimp only
    split
    · exact .of_same rfl rfl (Scheduler.wakeupProcessInInterrupt_clock _ k.keyWaiter)
    · exact .of_same rfl rfl rfl

namespace Valid

theorem runCall_aside (h : k.Valid) (hp : p ≠ k.sched.runningProcess)
    (halloc : k.allocProcessTable p = true) (c : Call) (regs : ProcessContext) :
    Aside p k (k.runCall c regs) := by
  cases c with
  | setIf interrupt => exact .of_same rfl rfl rfl
  | createProcess entryPoint arg =>
    exact (h.createProcess_aside halloc entryPoint arg).orForever hp createProcess_failed
  | createUserProcess entryPoint arg =>
    exact (h.createUserProcess_aside halloc entryPoint arg).orForever hp createUserProcess_failed
  | runUserProgram image size arg =>
    exact (h.runUserProgram_aside halloc image size arg).orForever hp runUserProgram_failed
  | sleepProcess ms => exact sleepProcess_aside hp ms regs
  | acquireLock m => exact acquireLock_aside hp m regs
  | releaseLock m => exact releaseLock_aside m
  | getKey =>
    have hloop := getKeyLoop_aside (k := (k.setIf false).2) hp (k.setIf false).1 regs
    exact ⟨hloop.point, hloop.alloc, hloop.time⟩
  | getQueue => exact .of_same rfl rfl rfl
  | clearDiskInterruptFlag isPrimary => exact .of_same rfl rfl rfl
  | waitInterrupt isPrimary =>
    simp only [Kernel.runCall, Kernel.waitInterrupt]
    split
    · exact .of_same rfl rfl rfl
    · have hloop := waitLoop_aside (k := (k.setIf false).2) hp isPrimary
        (k.sched.tickCount + (waitTimeoutMs + slotTime - 1) / slotTime) regs
      exact ⟨hloop.point, hloop.alloc, hloop.time⟩
  | schedule => exact schedule_aside hp regs
  | exitProcess => exact exitProcess_aside hp regs

theorem resumeCall_aside (h : k.Valid) (hp : p ≠ k.sched.runningProcess)
    (hlive : k.resumePoint p ≠ .exitProcess) {regs : ProcessContext}
    (hstep : k.resumeCall (k.resumePoint k.sched.runningProcess) regs = some k') :
    Aside p k k' := by
  cases hat : k.resumePoint k.sched.runningProcess with
  | code | exitProcess | createProcess => simp [Kernel.resumeCall, hat] at hstep
  | sleepProcess preIf | schedule preIf | acquireLock m preIf =>
    simp only [Kernel.resumeCall, hat, Option.some.injEq] at hstep
    subst hstep
    exact .of_running hp rfl rfl rfl
  | getKey preIf =>
    simp only [Kernel.resumeCall, hat, Option.some.injEq] at hstep
    subst hstep
    have hloop := getKeyLoop_aside (k := { k with keyWaiter := none }) hp preIf regs
    exact ⟨hloop.point, hloop.alloc, hloop.time⟩
  | waitInterrupt isPrimary deadline =>
    simp only [Kernel.resumeCall, hat, Option.some.injEq] at hstep
    subst hstep
    have hloop := waitLoop_aside (k := { k with
      diskWaiter := Function.update k.diskWaiter isPrimary none }) hp isPrimary deadline regs
    exact ⟨hloop.point, hloop.alloc, hloop.time⟩
  | garbageProcessCollector preIf =>
    simp only [Kernel.resumeCall, hat, Option.some.injEq] at hstep
    subst hstep
    exact h.collectLoop_aside hp hlive preIf regs

/-- An interrupt leaves even the process it interrupts alone. -/
theorem interrupt_step_aside (ha : a.isInterrupt = true) (hstep : k.step a = some k') (p : ℕ) :
    Aside p (k.ticked a) k' := by
  cases a with
  | timer frame =>
    simp only [Kernel.step, Option.ite_none_right_eq_some, Option.some.injEq] at hstep
    obtain ⟨-, rfl⟩ := hstep
    refine ⟨rfl, rfl, ?_⟩
    exact congrArg (fun c => (c.1, c.2 p)) (Scheduler.timerInterruptHandler_clock
      { k.sched with ist := withIf frame true, interruptFlag := false })
  | keyboard scanCode frame =>
    simp only [Kernel.step, Option.ite_none_right_eq_some, Option.some.injEq] at hstep
    obtain ⟨-, rfl⟩ := hstep
    exact interrupt_aside frame fun j => keyboard_aside scanCode j
  | disk isPrimary frame =>
    simp only [Kernel.step, Option.ite_none_right_eq_some, Option.some.injEq] at hstep
    obtain ⟨-, rfl⟩ := hstep
    refine interrupt_aside frame fun j => .of_same rfl rfl ?_
    exact Scheduler.wakeupProcessInInterrupt_clock _ (j.diskWaiter isPrimary)
  | call | resume | collect => cases ha

/-- A step leaves alone every process in use that neither runs nor has exited. -/
theorem step_aside (h : k.Valid) (hstep : k.step a = some k') (hp : p ≠ k.sched.runningProcess)
    (halloc : k.allocProcessTable p = true) (hlive : k.resumePoint p ≠ .exitProcess) :
    Aside p (k.ticked a) k' := by
  cases a with
  | timer | keyboard | disk => exact interrupt_step_aside rfl hstep p
  | call c regs =>
    simp only [Kernel.step, Option.ite_none_right_eq_some, Option.some.injEq] at hstep
    obtain ⟨-, rfl⟩ := hstep
    exact h.runCall_aside hp halloc c regs
  | resume regs => exact h.resumeCall_aside hp hlive hstep
  | collect regs =>
    simp only [Kernel.step, Option.ite_none_right_eq_some, Option.some.injEq] at hstep
    obtain ⟨-, rfl⟩ := hstep
    have hloop := (h.setIf false).collectLoop_aside (k := (k.setIf false).2) hp hlive
      (k.setIf false).1 regs
    exact ⟨hloop.point, hloop.alloc, hloop.time⟩

/-- Only the timer moves the tick count. The idle process witnesses that, since it runs no calls. -/
theorem step_tickCount (h : k.Valid) (hstep : k.step a = some k') :
    k'.sched.tickCount = (k.ticked a).sched.tickCount := by
  cases ha : a.isInterrupt with
  | true => exact congrArg Prod.fst (interrupt_step_aside ha hstep k.sched.idleProcess).time
  | false =>
    by_cases hrun : k.sched.idleProcess = k.sched.runningProcess
    · have hcode : k.resumePoint k.sched.runningProcess = .code := hrun ▸ h.idle_code.2
      cases a with
      | timer | keyboard | disk => cases ha
      | call c regs =>
        simp only [Kernel.step, Option.ite_none_right_eq_some] at hstep
        exact absurd hrun.symm hstep.1.2.1
      | resume regs => simp [Kernel.step, hcode, Kernel.resumeCall] at hstep
      | collect regs =>
        simp only [Kernel.step, Option.ite_none_right_eq_some] at hstep
        exact absurd hrun.symm (h.collector_ne_idle hstep.1.1)
    · exact congrArg Prod.fst
        (h.step_aside hstep hrun h.idle_code.1 (by simp [h.idle_code.2])).time

/-- The slot, the place and the wake-up time of a process that a step leaves alone. -/
theorem aside_kept (h : k.Valid) (hstep : k.step a = some k') (haside : Aside p (k.ticked a) k')
    (hmember : k.roles.member p) :
    k'.roles.member p ∧ k'.resumePoint p = k.resumePoint p ∧
      (k'.sched.pcb p).wakeupTick = (k.sched.pcb p).wakeupTick := by
  have hsame : (k.ticked a).resumePoint p = k.resumePoint p ∧
      (k.ticked a).allocProcessTable p = k.allocProcessTable p ∧
      ((k.ticked a).sched.pcb p).wakeupTick = (k.sched.pcb p).wakeupTick := by
    cases a <;> exact ⟨rfl, rfl, rfl⟩
  refine ⟨⟨haside.alloc.trans (hsame.2.1.trans hmember.1), ?_⟩, haside.point.trans hsame.1,
    (congrArg Prod.snd haside.time).trans hsame.2.2⟩
  rw [(h.step_turn hstep).2]
  exact hmember.2

/-- An interrupt blocks nobody. -/
theorem interrupt_blocked (h : k.Valid) (ha : a.isInterrupt = true) (hstep : k.step a = some k')
    (hs : k'.sched.plan.states p = .blocked) : k.sched.plan.states p = .blocked := by
  cases a with
  | timer frame =>
    simp only [Kernel.step, Option.ite_none_right_eq_some, Option.some.injEq] at hstep
    obtain ⟨-, rfl⟩ := hstep
    have hquiet := (h.interrupt_entry frame).timerInterruptHandler_quiet fun _ => False
    exact (hquiet.blocked p hs).resolve_right id
  | keyboard scanCode frame =>
    simp only [Kernel.step, Option.ite_none_right_eq_some, Option.some.injEq] at hstep
    obtain ⟨-, rfl⟩ := hstep
    cases scanCode with
    | none => exact hs
    | some scanCode =>
      simp only [Kernel.interrupt, Kernel.keyboardInterruptHandler, Kernel.inputQueue] at hs
      split at hs
      · have hquiet := ((h.interrupt_entry frame).setIf false).wakeupProcessInInterrupt_quiet _
          h.keyWaiter_place fun _ => False
        exact (hquiet.blocked p hs).resolve_right id
      · exact hs
  | disk isPrimary frame =>
    simp only [Kernel.step, Option.ite_none_right_eq_some, Option.some.injEq] at hstep
    obtain ⟨-, rfl⟩ := hstep
    have hquiet := (h.interrupt_entry frame).wakeupProcessInInterrupt_quiet _
      (h.diskWaiter_place isPrimary) fun _ => False
    exact (hquiet.blocked p hs).resolve_right id
  | call | resume | collect => cases ha

end Valid

end Kernel

namespace Plan

/-- The sleeping processes a deed wakes. -/
def Wakes (π : Plan) : Deed → ℕ → Prop
  | .handOver _ next, p => p = next
  | .wake q, p => p = q
  | .tick due, p => due p = true ∧ p ∈ π.roster .sleepList
  | .exit collector, p => p = collector
  | _, _ => False

variable {π : Plan} {p q : ℕ}

theorem setState_states_of_ne (hp : p ≠ q) (state : ProcessState) :
    (π.setState q state).states p = π.states p := Function.update_of_ne hp _ _

theorem dispatch_states (π : Plan) (hp : p ∉ π.roster .processList) (hidle : p ≠ π.idle) :
    π.dispatch.states p = π.states p := by
  unfold dispatch
  apply setState_states_of_ne
  cases hready : π.roster .processList with
  | nil => exact hidle
  | cons next rest =>
    rintro rfl
    exact hp (by simp [hready])

theorem rotate_states (hp : p ∉ π.roster .processList) (hrun : p ≠ π.running) :
    π.rotate.states p = π.states p := by
  unfold rotate
  split
  · rfl
  next next rest hready =>
    have hnext : p ≠ next := by
      rintro rfl
      exact hp (by simp [hready])
    simp [run, setState, append, behead, hnext, hrun]

theorem timeout_states (hp : p ∉ π.roster .processList) (hrun : p ≠ π.running) :
    π.timeout.states p = π.states p := by
  unfold timeout
  split
  · rfl
  next next rest hready =>
    split
    · apply setState_states_of_ne
      rintro rfl
      exact hp (by simp [hready])
    · exact rotate_states hp hrun

/-- The timer changes the states of the two processes that swap the processor only. -/
theorem timeout_states_of_ne (hnew : p ≠ π.timeout.running) (hrun : p ≠ π.running) :
    π.timeout.states p = π.states p := by
  unfold timeout at hnew ⊢
  split
  · rfl
  next next rest hready =>
    simp only [hready] at hnew
    split
    next hidle =>
      rw [if_pos hidle] at hnew
      exact setState_states_of_ne hnew .running
    next hidle =>
      rw [if_neg hidle] at hnew
      have hnext : p ≠ next := by
        simpa [rotate, hready] using hnew
      simp [rotate, hready, run, setState, append, behead, hnext, hrun]

theorem wakeup_states_of_ne (π : Plan) (hp : p ≠ q) : (π.wakeup q).states p = π.states p := by
  unfold wakeup
  split
  · exact setState_states_of_ne hp .ready
  · rfl

theorem wakeup_states_self (hs : π.states p = .blocked) : (π.wakeup p).states p = .ready := by
  simp [wakeup, hs, append, setState]

/-- Waking in order changes the states of the blocked processes that are due, to ready. -/
theorem wakeAll_states (due : ℕ → Bool) (ps : List ℕ) (π : Plan) (p : ℕ) :
    (π.wakeAll due ps).states p =
      if p ∈ ps ∧ due p = true ∧ π.states p = .blocked then .ready else π.states p := by
  induction ps generalizing π with
  | nil => simp [wakeAll]
  | cons q ps ih =>
    show ((if due q then π.wakeup q else π).wakeAll due ps).states p = _
    rw [ih]
    by_cases hpq : p = q
    · subst hpq
      cases hdue : due p with
      | false => simp
      | true =>
        by_cases hs : π.states p = .blocked
        · simp [wakeup_states_self hs, hs]
        · simp [wakeup, hs]
    · have hsame : (if due q then π.wakeup q else π).states p = π.states p := by
        split
        · exact wakeup_states_of_ne _ hpq
        · rfl
      rw [hsame]
      simp [hpq]

/-- Nobody but the running process becomes blocked. -/
theorem blocked_of_after (hp : p ≠ π.running) {d : Deed} (hs : (π.after d).states p = .blocked) :
    π.states p = .blocked := by
  have hrefl (π' : Plan) := Quiet.refl (fun q => q = π.running) π'
  cases d with
  | nothing => exact hs
  | create q =>
    have hready := ((hrefl _).setState q .ready (by simp) (by simp)).blocked p hs
    exact hready.resolve_right hp
  | block name =>
    cases name with
    | none =>
      have hblock := ((hrefl π).setState π.running .blocked (fun _ => rfl) (by simp)).dispatch
      exact (hblock.blocked p hs).resolve_right hp
    | some name =>
      have hblock := ((hrefl (π.append name π.running)).setState π.running .blocked
        (fun _ => rfl) (by simp)).dispatch
      exact (hblock.blocked p hs).resolve_right hp
  | handOver m next =>
    exact (((hrefl (π.behead (.waitList m))).wakeup next).blocked p hs).resolve_right hp
  | wake q =>
    have hwoken := (hrefl π).wakeup q
    simp only [after, wakeInInterrupt] at hs
    split at hs
    · exact (hwoken.timeout.blocked p hs).resolve_right hp
    · exact (hwoken.blocked p hs).resolve_right hp
  | tick due =>
    exact (((hrefl π).wakeAll due _).timeout.blocked p hs).resolve_right hp
  | yield => exact ((hrefl π).rotate.blocked p hs).resolve_right hp
  | exit c =>
    have hdispatch := (hrefl ((π.wakeup c).setState π.running .exit)).dispatch
    have hexit := (hdispatch.blocked p hs).resolve_right hp
    rw [setState_states_of_ne hp] at hexit
    exact (((hrefl π).wakeup c).blocked p hexit).resolve_right hp

theorem wakeInInterrupt_self (hs : π.states p = .blocked) :
    (π.wakeInInterrupt p).states p ≠ .blocked := by
  have hready := wakeup_states_self hs
  intro hblocked
  unfold wakeInInterrupt at hblocked
  split at hblocked
  · have hbefore := ((Quiet.refl (fun _ => False) (π.wakeup p)).timeout.blocked p hblocked)
    rw [hbefore.resolve_right id] at hready
    cases hready
  · rw [hready] at hblocked
    cases hblocked

theorem Settled.blocked_not_ready {r : Roles} (h : π.Settled r) (hs : π.states p = .blocked) :
    p ∉ π.roster .processList := by
  intro hp
  rw [h.placed.states_of_ready hp] at hs
  cases hs

end Plan

namespace Kernel

variable {k k' : Kernel} {a : Action} {p : ℕ}

theorem Valid.blocked_ne_running (h : k.Valid) (hp : k.roles.member p)
    (hs : k.sched.plan.states p = .blocked) : p ≠ k.sched.runningProcess := by
  rintro rfl
  rw [(h.settled.plan.placed.running_iff _ hp).mpr rfl] at hs
  cases hs

/-- Who is blocked and not woken stays blocked. -/
theorem Valid.after_blocked (h : k.Valid) {d : Deed} (hd : k.Does a d) (hp : k.roles.member p)
    (hs : k.sched.plan.states p = .blocked) (hw : ¬ k.sched.plan.Wakes d p) :
    (k.sched.plan.after d).states p = .blocked := by
  have hset := h.settled.plan
  have hrun : p ≠ k.sched.plan.running := h.blocked_ne_running hp hs
  have hready := hset.blocked_not_ready hs
  have hwake (q : ℕ) (hq : k.roles.member q ∧
      (k.roles.waits q = none ∨ k.roles.waits q = some .sleepList)) (hne : p ≠ q) :
      (k.sched.plan.wakeInInterrupt q).states p = .blocked := by
    have hsame := (k.sched.plan.wakeup_states_of_ne hne).trans hs
    unfold Plan.wakeInInterrupt
    split
    · rw [Plan.timeout_states ((h.wakeup_settled hq).blocked_not_ready hsame)
        (by rwa [Plan.wakeup_running]), hsame]
    · exact hsame
  cases d with
  | nothing => exact hs
  | create q =>
    have hne : p ≠ q := by
      rintro rfl
      exact absurd (hp.1.symm.trans hd.2.1) (by simp)
    exact (Plan.setState_states_of_ne hne .ready).trans hs
  | block name =>
    have hparked (π : Plan) (hsame : π.states = k.sched.plan.states) :
        (π.setState k.sched.plan.running .blocked).states p = .blocked := by
      rw [Plan.setState_states_of_ne hrun, hsame, hs]
    cases name with
    | none =>
      exact (Plan.dispatch_states (k.sched.plan.setState k.sched.plan.running .blocked)
        hready hp.2).trans (hparked _ rfl)
    | some name =>
      refine (Plan.dispatch_states _ ?_ hp.2).trans (hparked _ rfl)
      have hname : ListName.processList ≠ name := fun he => hd.2.1 (he ▸ rfl)
      simpa [Plan.append, Plan.setState, hname] using hready
  | handOver m next => exact (Plan.wakeup_states_of_ne _ hw).trans hs
  | wake q =>
    rcases hd with ⟨_, _, -, hq⟩ | ⟨isPrimary, _, -, hq⟩
    · exact hwake q (h.keyWaiter_place q hq) hw
    · exact hwake q (h.diskWaiter_place isPrimary q hq) hw
  | tick due =>
    have hsame : (k.sched.plan.wakeAll due (k.sched.plan.roster .sleepList)).states p = .blocked := by
      rw [Plan.wakeAll_states, if_neg (fun hall => hw ⟨hall.2.1, hall.1⟩), hs]
    refine (Plan.timeout_states ((hset.wakeAll due).blocked_not_ready hsame) ?_).trans hsame
    rwa [(Plan.wakeAll_same _ _ _).1]
  | yield => exact (Plan.rotate_states hready hrun).trans hs
  | exit c =>
    have hplace := h.collector_place c hd.2.1
    have hsame := (k.sched.plan.wakeup_states_of_ne hw).trans hs
    have hout := (h.wakeup_settled hplace).blocked_not_ready hsame
    have hidle : p ≠ (k.sched.plan.wakeup c).idle := by
      rw [Plan.wakeup_idle]
      exact hp.2
    exact (Plan.dispatch_states
      ((k.sched.plan.wakeup c).setState k.sched.plan.running .exit) hout hidle).trans
        ((Plan.setState_states_of_ne hrun .exit).trans hsame)

end Kernel
end SkhuOS
