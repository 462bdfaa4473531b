import SkhuOS.Proc.Placement

/-! What one step of the kernel can do. Apart from the mutex calls, creation, exit and
the collector, a step leaves alone all that the later properties speak of. -/
namespace SkhuOS
open Foundation

/-- The points that only the mutex calls, `exitProcess` and the collector reach. -/
def ResumePoint.Special : ResumePoint → Prop
  | .acquireLock _ _ | .garbageProcessCollector _ | .exitProcess => True
  | .code | .sleepProcess _ | .schedule _ | .getKey _ | .waitInterrupt _ _ | .createProcess => False

/-- The parts of the state that the properties of steps and runs are about. -/
structure Parts where
  plan : Plan
  resumePoint : ℕ → ResumePoint
  mutex : ℕ → Mutex
  queue : Queue
  collector : Option ℕ
  alloc : ℕ → Bool

def Kernel.parts (k : Kernel) : Parts :=
  ⟨k.sched.plan, k.resumePoint, k.mutex, k.exitProcessQueue, k.collectorProcess,
    k.allocProcessTable⟩

/-- What a step leaves alone unless it is a mutex call, an exit or a collection. -/
structure Parts.Frame (k k' : Parts) : Prop where
  mutex : k'.mutex = k.mutex
  queue : k'.queue = k.queue
  collector : k'.collector = k.collector
  waitList : ∀ m, k'.plan.roster (.waitList m) = k.plan.roster (.waitList m)
  special : ∀ p, (k'.resumePoint p).Special → k'.resumePoint p = k.resumePoint p
  blocked : ∀ p, k'.plan.states p = .blocked →
    k.plan.states p = .blocked ∨ ¬ (k'.resumePoint p).Special
  exits : ∀ p, k'.plan.states p = .exit → k.plan.states p = .exit

/-- What the mutex calls leave alone: only the caller may block. -/
structure Parts.Calm (k k' : Parts) : Prop where
  queue : k'.queue = k.queue
  collector : k'.collector = k.collector
  alloc : k'.alloc = k.alloc
  blocked : ∀ p, k'.plan.states p = .blocked → k.plan.states p = .blocked ∨ p = k.plan.running
  exits : ∀ p, k'.plan.states p = .exit → k.plan.states p = .exit

/-- A step that also creates no process. -/
structure Parts.Still (k k' : Parts) : Prop extends Frame k k' where
  alloc : k'.alloc = k.alloc

/-- A call that creates fills one free slot, or changes no slot at all. -/
structure Parts.Made (k k' : Parts) : Prop extends Frame k k' where
  alloc : k'.alloc = k.alloc ∨ ∃ p, k.alloc p = false ∧
    k'.alloc = Function.update k.alloc p true ∧ k'.resumePoint p = .code ∧
      k'.plan.states p = .ready

namespace Parts

variable {k k' : Parts} {p : ℕ}

/-- The scheduler moves quietly and no process changes its point. -/
theorem Frame.of_plan (hplan : k.plan.Quiet (fun _ => False) k'.plan)
    (hpoint : k'.resumePoint = k.resumePoint) (hmutex : k'.mutex = k.mutex)
    (hqueue : k'.queue = k.queue) (hcol : k'.collector = k.collector) : k.Frame k' :=
  ⟨hmutex, hqueue, hcol, hplan.waitList, fun p _ => by rw [hpoint],
    fun p hp => .inl ((hplan.blocked p hp).resolve_right id), hplan.exits⟩

/-- The running process goes to an ordinary point and may block there. -/
theorem Frame.of_running (point : ResumePoint) (hspecial : ¬ point.Special)
    (hplan : k.plan.Quiet (fun p => p = k.plan.running) k'.plan)
    (hpoint : k'.resumePoint = Function.update k.resumePoint k.plan.running point)
    (hmutex : k'.mutex = k.mutex) (hqueue : k'.queue = k.queue)
    (hcol : k'.collector = k.collector) : k.Frame k' := by
  refine ⟨hmutex, hqueue, hcol, hplan.waitList, fun p hp => ?_, fun p hp => ?_, hplan.exits⟩
  · by_cases hpr : p = k.plan.running
    · rw [hpr, hpoint, Function.update_self] at hp
      exact absurd hp hspecial
    · rw [hpoint, Function.update_of_ne hpr]
  · refine (hplan.blocked p hp).imp_right fun hpr => ?_
    rw [hpr, hpoint, Function.update_self]
    exact hspecial

theorem Made.congr {k'' : Parts} (h : k.Made k') (hplan : k''.plan = k'.plan)
    (hpoint : k''.resumePoint = k'.resumePoint) (hmutex : k''.mutex = k'.mutex)
    (hqueue : k''.queue = k'.queue) (hcol : k''.collector = k'.collector)
    (halloc : k''.alloc = k'.alloc) : k.Made k'' := by
  refine ⟨⟨?_, ?_, ?_, ?_, ?_, ?_, ?_⟩, ?_⟩
  · rw [hmutex]; exact h.mutex
  · rw [hqueue]; exact h.queue
  · rw [hcol]; exact h.collector
  · rw [hplan]; exact h.waitList
  · rw [hpoint]; exact h.special
  · rw [hplan, hpoint]; exact h.blocked
  · rw [hplan]; exact h.exits
  · rw [halloc, hpoint, hplan]; exact h.alloc

end Parts

namespace Kernel

abbrev Still (k k' : Kernel) : Prop := k.parts.Still k'.parts ∧ k'.page = k.page

abbrev Made (k k' : Kernel) : Prop := k.parts.Made k'.parts

variable {k k' : Kernel} {p : ℕ}

theorem Still.of_plan (hplan : k.sched.plan.Quiet (fun _ => False) k'.sched.plan)
    (hpoint : k'.resumePoint = k.resumePoint) (hmutex : k'.mutex = k.mutex)
    (hqueue : k'.exitProcessQueue = k.exitProcessQueue)
    (hcol : k'.collectorProcess = k.collectorProcess)
    (halloc : k'.allocProcessTable = k.allocProcessTable) (hpage : k'.page = k.page) :
    k.Still k' :=
  ⟨⟨.of_plan hplan hpoint hmutex hqueue hcol, halloc⟩, hpage⟩

theorem Still.of_running (point : ResumePoint) (hspecial : ¬ point.Special)
    (hplan : k.sched.plan.Quiet (fun p => p = k.sched.runningProcess) k'.sched.plan)
    (hpoint : k'.resumePoint = Function.update k.resumePoint k.sched.runningProcess point)
    (hmutex : k'.mutex = k.mutex) (hqueue : k'.exitProcessQueue = k.exitProcessQueue)
    (hcol : k'.collectorProcess = k.collectorProcess)
    (halloc : k'.allocProcessTable = k.allocProcessTable) (hpage : k'.page = k.page) :
    k.Still k' :=
  ⟨⟨.of_running point hspecial hplan hpoint hmutex hqueue hcol, halloc⟩, hpage⟩

namespace Valid

variable {k k' : Kernel}

theorem wakeupProcess_quiet (h : k.Valid) (pcb : Option ℕ) (hpcb : ∀ p, pcb = some p →
    k.roles.member p ∧ (k.roles.waits p = none ∨ k.roles.waits p = some .sleepList))
    (off : ℕ → Prop) : k.sched.plan.Quiet off (k.sched.wakeupProcess pcb).2.plan := by
  cases pcb with
  | none => exact .refl _ _
  | some p =>
    obtain ⟨hp, hw⟩ := hpcb p rfl
    rw [(h.settled.wakeupProcess_refines hp hw).2]
    exact (Plan.Quiet.refl _ _).wakeup p

theorem wakeupProcessInInterrupt_quiet (h : k.Valid) (pcb : Option ℕ) (hpcb : ∀ p, pcb = some p →
    k.roles.member p ∧ (k.roles.waits p = none ∨ k.roles.waits p = some .sleepList))
    (off : ℕ → Prop) : k.sched.plan.Quiet off (k.sched.wakeupProcessInInterrupt pcb).plan := by
  have hwoken := h.wakeupProcess_quiet pcb hpcb off
  simp only [Scheduler.wakeupProcessInInterrupt]
  split
  · rw [(h.settled.wakeupProcess pcb hpcb).timeoutSchedule_refines.2]
    exact hwoken.timeout
  · exact hwoken

theorem timerInterruptHandler_quiet (h : k.Valid) (off : ℕ → Prop) :
    k.sched.plan.Quiet off k.sched.timerInterruptHandler.plan := by
  have htick : { k.sched with tickCount := k.sched.tickCount + 1 }.Settled k.roles :=
    h.settled.congr rfl rfl rfl
  simp only [Scheduler.timerInterruptHandler]
  rw [htick.wakeExpiredProcess.timeoutSchedule_refines.2,
    (Scheduler.wakeExpiredProcess_refines htick.linked).2]
  exact ((Plan.Quiet.refl off k.sched.plan).wakeAll _ _).timeout

/-- An interrupt is quiet when its handler is. -/
theorem interrupt_still (h : k.Valid) (frame : ProcessContext) {handler : Kernel → Kernel}
    (hhandler : ∀ k : Kernel, k.Valid → k.Still (handler k)) :
    k.Still (k.interrupt frame handler) := by
  have hentry : { k with sched := { k.sched with
      ist := withIf frame true, interruptFlag := false } }.Valid :=
    h.of_sched (h.settled.congr rfl rfl rfl)
  exact hhandler _ hentry

theorem keyboard_still (h : k.Valid) (scanCode : Option BYTE) :
    k.Still (k.keyboardInterruptHandler scanCode) := by
  cases scanCode with
  | none => exact Still.of_plan (.refl _ _) rfl rfl rfl rfl rfl rfl
  | some scanCode =>
    simp only [Kernel.keyboardInterruptHandler, Kernel.inputQueue]
    split
    · exact Still.of_plan ((h.setIf false).wakeupProcessInInterrupt_quiet _ h.keyWaiter_place _)
        rfl rfl rfl rfl rfl rfl
    · exact Still.of_plan (.refl _ _) rfl rfl rfl rfl rfl rfl

/-- Blocking in a list that is no wait list. -/
theorem sleepUntilTick_quiet (h : k.Valid)
    (hrun : k.sched.runningProcess ≠ k.sched.idleProcess) (tick : QWORD) (regs : ProcessContext) :
    k.sched.plan.Quiet (fun p => p = k.sched.runningProcess)
      (k.sched.sleepUntilTick tick regs).plan := by
  rw [h.settled.sleepUntilTick_refines hrun]
  have happend : Plan.Quiet (fun p => p = k.sched.runningProcess) k.sched.plan
      (k.sched.plan.append .sleepList k.sched.runningProcess) :=
    (Plan.Quiet.refl _ _).append (by simp)
  exact (happend.setState _ _ (fun _ => rfl) (by simp)).dispatch

theorem blockRunningProcess_quiet (h : k.Valid) (regs : ProcessContext) :
    k.sched.plan.Quiet (fun p => p = k.sched.runningProcess)
      (k.sched.blockRunningProcess regs).plan := by
  rw [(Scheduler.blockRunningProcess_refines h.settled.linked regs).2]
  have hrefl := Plan.Quiet.refl (fun p => p = k.sched.runningProcess) k.sched.plan
  exact (hrefl.setState _ _ (fun _ => rfl) (by simp)).dispatch

theorem getKeyLoop_still (h : k.Valid) (preIf : Bool) (regs : ProcessContext) :
    k.Still (k.getKeyLoop preIf regs).2 := by
  simp only [Kernel.getKeyLoop]
  split
  · exact Still.of_running .code id (.refl _ _) rfl rfl rfl rfl rfl rfl
  · exact Still.of_running (.getKey preIf) id (h.blockRunningProcess_quiet regs)
      rfl rfl rfl rfl rfl rfl

theorem waitLoop_still (h : k.Valid) (hrun : k.sched.runningProcess ≠ k.sched.idleProcess)
    (isPrimary : Bool) (deadline : QWORD) (regs : ProcessContext) :
    k.Still (k.waitLoop isPrimary deadline regs).2 := by
  simp only [Kernel.waitLoop]
  split
  · exact Still.of_running .code id (.refl _ _) rfl rfl rfl rfl rfl rfl
  · split
    · exact Still.of_running .code id (.refl _ _) rfl rfl rfl rfl rfl rfl
    · exact Still.of_running (.waitInterrupt isPrimary deadline) id
        (h.sleepUntilTick_quiet hrun deadline regs) rfl rfl rfl rfl rfl rfl

theorem schedule_still (h : k.Valid) (hrun : k.sched.runningProcess ≠ k.sched.idleProcess)
    (regs : ProcessContext) : k.Still (k.schedule regs) := by
  simp only [Kernel.schedule]
  split
  · exact Still.of_plan (.refl _ _) rfl rfl rfl rfl rfl rfl
  · have hoff := (h.setIf false).settled
    have hplan := (Scheduler.yieldTo_refines hoff.linked regs (fun _ => hoff.running_not_mem)
      (hoff.running_id hrun)).2
    refine .of_running (.schedule (k.setIf false).1) id ?_ rfl rfl rfl rfl rfl rfl
    show k.sched.plan.Quiet _ ((k.setIf false).2.sched.yieldTo regs).plan
    rw [hplan]
    exact (Plan.Quiet.refl _ _).rotate

end Valid

end Kernel

/-- Calls that create a process. -/
def Call.Creates : Call → Prop
  | .createProcess _ _ | .createUserProcess _ _ | .runUserProgram _ _ _ => True
  | _ => False

/-- The actions that are not still. -/
def Kernel.Tracked (k : Kernel) : Action → Prop
  | .call (.acquireLock _) _ | .call (.releaseLock _) _ | .call .exitProcess _ => True
  | .call c _ => c.Creates
  | .resume _ => ∃ preIf, k.resumePoint k.sched.runningProcess = .garbageProcessCollector preIf
  | .collect _ => True
  | .timer _ | .keyboard _ _ | .disk _ _ => False

namespace Kernel

/-- The kinds of step: the calls and the collector's loop that later properties are
about, and all the others. -/
inductive StepKind (k : Kernel) : Action → Kernel → Prop
  | still {a k'} (ha : ¬ k.Tracked a) (h : k.Still k') : StepKind k a k'
  | create {c regs} (hmay : k.MayCall c) (hc : c.Creates) :
      StepKind k (.call c regs) (k.runCall c regs)
  | acquireLock {m regs} (hmay : k.MayCall (.acquireLock m)) :
      StepKind k (.call (.acquireLock m) regs) (k.acquireLock m regs)
  | releaseLock {m regs} (hmay : k.MayCall (.releaseLock m)) :
      StepKind k (.call (.releaseLock m) regs) (k.releaseLock m)
  | exitProcess {regs} (hmay : k.MayCall .exitProcess) :
      StepKind k (.call .exitProcess regs) (k.exitProcess regs)
  | collect {regs} (hcol : some k.sched.runningProcess = k.collectorProcess)
      (hcode : k.resumePoint k.sched.runningProcess = .code) :
      StepKind k (.collect regs) ((k.setIf false).2.collectLoop (k.setIf false).1 regs)
  | recollect {preIf regs}
      (hat : k.resumePoint k.sched.runningProcess = .garbageProcessCollector preIf) :
      StepKind k (.resume regs) (k.collectLoop preIf regs)

variable {k k' : Kernel} {a : Action}

theorem Valid.running_ne_idle (h : k.Valid)
    (hat : k.resumePoint k.sched.runningProcess ≠ .code) :
    k.sched.runningProcess ≠ k.sched.idleProcess := by
  intro he
  rw [he, h.idle_code.2] at hat
  exact hat rfl

theorem Valid.runCall_kind (h : k.Valid) {c : Call} (hmay : k.MayCall c) (regs : ProcessContext) :
    StepKind k (.call c regs) (k.runCall c regs) := by
  cases c with
  | setIf interrupt => exact .still id (Still.of_plan (.refl _ _) rfl rfl rfl rfl rfl rfl)
  | createProcess entryPoint arg => exact .create hmay trivial
  | createUserProcess entryPoint arg => exact .create hmay trivial
  | runUserProgram image size arg => exact .create hmay trivial
  | sleepProcess ms =>
    exact .still id (Still.of_running (.sleepProcess (k.setIf false).1) id
      ((h.setIf false).sleepUntilTick_quiet hmay.2.1 _ regs) rfl rfl rfl rfl rfl rfl)
  | acquireLock m => exact .acquireLock hmay
  | releaseLock m => exact .releaseLock hmay
  | getKey => exact .still id ((h.setIf false).getKeyLoop_still _ regs)
  | getQueue => exact .still id (Still.of_plan (.refl _ _) rfl rfl rfl rfl rfl rfl)
  | clearDiskInterruptFlag isPrimary =>
    exact .still id (Still.of_plan (.refl _ _) rfl rfl rfl rfl rfl rfl)
  | waitInterrupt isPrimary =>
    refine .still id ?_
    simp only [Kernel.runCall, Kernel.waitInterrupt]
    split
    · exact Still.of_plan (.refl _ _) rfl rfl rfl rfl rfl rfl
    · exact (h.setIf false).waitLoop_still hmay.2.1 _ _ regs
  | schedule => exact .still id (h.schedule_still hmay.2.1 regs)
  | exitProcess => exact .exitProcess hmay

theorem Valid.resumeCall_kind (h : k.Valid) {regs : ProcessContext}
    (hstep : k.resumeCall (k.resumePoint k.sched.runningProcess) regs = some k') :
    StepKind k (.resume regs) k' := by
  have hdone (preIf : Bool) :
      k.Still ((k.setResumePoint k.sched.runningProcess .code).setIf preIf).2 :=
    Still.of_running .code id (.refl _ _) rfl rfl rfl rfl rfl rfl
  cases hat : k.resumePoint k.sched.runningProcess with
  | code => simp [Kernel.resumeCall, hat] at hstep
  | exitProcess => simp [Kernel.resumeCall, hat] at hstep
  | createProcess => simp [Kernel.resumeCall, hat] at hstep
  | sleepProcess preIf =>
    simp only [Kernel.resumeCall, hat, Option.some.injEq] at hstep
    exact hstep ▸ .still (by simp [Tracked, hat]) (hdone preIf)
  | schedule preIf =>
    simp only [Kernel.resumeCall, hat, Option.some.injEq] at hstep
    exact hstep ▸ .still (by simp [Tracked, hat]) (hdone preIf)
  | acquireLock m preIf =>
    simp only [Kernel.resumeCall, hat, Option.some.injEq] at hstep
    exact hstep ▸ .still (by simp [Tracked, hat]) (hdone preIf)
  | getKey preIf =>
    simp only [Kernel.resumeCall, hat, Option.some.injEq] at hstep
    subst hstep
    exact .still (by simp [Tracked, hat]) ((h.clear_keyWaiter.getKeyLoop_still preIf regs))
  | waitInterrupt isPrimary deadline =>
    simp only [Kernel.resumeCall, hat, Option.some.injEq] at hstep
    subst hstep
    exact .still (by simp [Tracked, hat]) ((h.clear_diskWaiter isPrimary).waitLoop_still
      (h.running_ne_idle (by simp [hat])) isPrimary deadline regs)
  | garbageProcessCollector preIf =>
    simp only [Kernel.resumeCall, hat, Option.some.injEq] at hstep
    exact hstep ▸ .recollect hat

/-- Every step of a valid kernel is of one of these kinds. -/
theorem Valid.step_kind (h : k.Valid) (hstep : k.step a = some k') : StepKind k a k' := by
  cases a with
  | timer frame =>
    simp only [Kernel.step, Option.ite_none_right_eq_some, Option.some.injEq] at hstep
    obtain ⟨-, rfl⟩ := hstep
    exact .still id (h.interrupt_still frame fun k hk =>
      Still.of_plan (hk.timerInterruptHandler_quiet _) rfl rfl rfl rfl rfl rfl)
  | keyboard scanCode frame =>
    simp only [Kernel.step, Option.ite_none_right_eq_some, Option.some.injEq] at hstep
    obtain ⟨-, rfl⟩ := hstep
    exact .still id (h.interrupt_still frame fun k hk => hk.keyboard_still scanCode)
  | disk isPrimary frame =>
    simp only [Kernel.step, Option.ite_none_right_eq_some, Option.some.injEq] at hstep
    obtain ⟨-, rfl⟩ := hstep
    exact .still id (h.interrupt_still frame fun k hk => Still.of_plan
      (hk.wakeupProcessInInterrupt_quiet _ (hk.diskWaiter_place isPrimary) _) rfl rfl rfl rfl rfl rfl)
  | call c regs =>
    simp only [Kernel.step, Option.ite_none_right_eq_some, Option.some.injEq] at hstep
    obtain ⟨hmay, rfl⟩ := hstep
    exact h.runCall_kind hmay regs
  | resume regs => exact h.resumeCall_kind hstep
  | collect regs =>
    simp only [Kernel.step, Option.ite_none_right_eq_some, Option.some.injEq] at hstep
    obtain ⟨⟨hcol, hcode⟩, rfl⟩ := hstep
    exact .collect hcol hcode

/-- What `createProcess` can do: fill a free slot of the table, or find none. -/
theorem Valid.createProcess_cases (h : k.Valid) (entryPoint arg : QWORD) :
    (∃ p, k.allocProcessTable p = false ∧ p < processMaxCount ∧
      k.createProcess entryPoint arg =
        (some p, (((k.setIf false).2.createAt p entryPoint arg).setIf (k.setIf false).1).2)) ∨
    ∃ p, k.createProcess entryPoint arg = (none, { (k.setIf false).2 with pidCountIdx := p }) := by
  obtain ⟨-, hfree⟩ := findSlot_spec h.shell.1.1 processMaxCount h.pid_le
  simp only [Kernel.createProcess]
  split
  next hfound =>
    obtain ⟨hfree, hlt⟩ := hfree hfound
    exact .inl ⟨_, hfree, hlt, rfl⟩
  · exact .inr ⟨_, rfl⟩

theorem Valid.createAt_plan (h : k.Valid) {p : ℕ} (hfree : k.allocProcessTable p = false)
    (entryPoint arg : QWORD) : (k.createAt p entryPoint arg).sched.plan =
      ({ k.sched.plan with ids := Function.update k.sched.plan.ids p p }.setState p .ready).append
        .processList p :=
  have hout (name : ListName) : p ∉ k.sched.roster name :=
    h.settled.plan.placed.not_mem fun hm => absurd hm.1 (by simp [hfree])
  (Scheduler.addProcess_refines h.settled.linked hout entryPoint arg).2

theorem Valid.createAt_made (h : k.Valid) {p : ℕ} (hfree : k.allocProcessTable p = false)
    (entryPoint arg : QWORD) : k.Made (k.createAt p entryPoint arg) := by
  have hplan := h.createAt_plan hfree entryPoint arg
  have hquiet : k.sched.plan.Quiet (fun _ => False) (k.createAt p entryPoint arg).sched.plan := by
    rw [hplan]
    have hids : k.sched.plan.Quiet (fun _ => False)
        { k.sched.plan with ids := Function.update k.sched.plan.ids p p } :=
      (Plan.Quiet.refl _ _).roster (fun _ => rfl) rfl
    exact (hids.setState _ _ (by simp) (by simp)).append (by simp)
  have hpoint {q : ℕ} (hq : q ≠ p) :
      (k.createAt p entryPoint arg).resumePoint q = k.resumePoint q := by
    simp [Kernel.createAt, hq]
  have hself : (k.createAt p entryPoint arg).resumePoint p = .code := by simp [Kernel.createAt]
  have hready : (k.createAt p entryPoint arg).sched.plan.states p = .ready := by
    rw [hplan]
    simp [Plan.append, Plan.setState]
  refine ⟨⟨rfl, rfl, rfl, hquiet.waitList, fun q hq => ?_, fun q hq => ?_, hquiet.exits⟩,
    .inr ⟨p, hfree, rfl, hself, hready⟩⟩
  · by_cases hqp : q = p
    · have hspecial : ((k.createAt p entryPoint arg).resumePoint p).Special := hqp ▸ hq
      rw [hself] at hspecial
      exact hspecial.elim
    · exact hpoint hqp
  · exact .inl ((hquiet.blocked q hq).resolve_right id)

theorem Valid.createProcess_made (h : k.Valid) (entryPoint arg : QWORD) :
    k.Made (k.createProcess entryPoint arg).2 := by
  rcases h.createProcess_cases entryPoint arg with ⟨p, hfree, -, heq⟩ | ⟨p, heq⟩
  · rw [heq]
    exact (h.setIf false).createAt_made (p := p) hfree entryPoint arg
  · rw [heq]
    exact ⟨Parts.Frame.of_plan (.refl _ _) rfl rfl rfl rfl, .inl rfl⟩

theorem Valid.createUserProcess_made (h : k.Valid) (entryPoint arg : QWORD) :
    k.Made (k.createUserProcess entryPoint arg).2 := by
  have hmade := (h.setIf false).createProcess_made entryPoint arg
  simp only [Kernel.createUserProcess]
  split
  next k1 heq =>
    obtain rfl : _ = k1 := congrArg Prod.snd heq
    exact hmade
  next p k1 heq =>
    obtain rfl : _ = k1 := congrArg Prod.snd heq
    set k1 := ((k.setIf false).2.createProcess entryPoint arg).2 with hk1
    have hplan (reg : ProcessContext → ProcessContext) :
        (k1.sched.modifyPcb p fun pcb => { pcb with context := reg pcb.context }).plan =
          k1.sched.plan := Scheduler.modifyPcb_plan rfl
    exact hmade.congr (hplan (setUserContext _)) rfl rfl rfl rfl rfl

theorem Valid.runUserProgram_made (h : k.Valid) (image : Bytes) (size : ℕ) (arg : QWORD) :
    k.Made (k.runUserProgram image size arg).2 := by
  simp only [Kernel.runUserProgram]
  split
  · exact ⟨Parts.Frame.of_plan (.refl _ _) rfl rfl rfl rfl, .inl rfl⟩
  · have hmade := ((h.setIf false).copyImage image size).createUserProcess_made (BitVec.ofNat 64 userCodeAddress) arg
    split
    next k1 heq =>
      obtain rfl : _ = k1 := congrArg Prod.snd heq
      exact hmade
    next p k1 heq =>
      obtain rfl : _ = k1 := congrArg Prod.snd heq
      exact hmade

/-- In the error loop the caller stands at an ordinary point for good. -/
theorem Valid.orForever_made (h : k.Valid) {c : Call} (hmay : k.MayCall c) {α : Type} {result : Option α × Kernel}
    (hmade : k.Made result.2) (hfail : result.1 = none → k.SameProcesses result.2) :
    k.Made (Kernel.orForever result) := by
  obtain ⟨value, k'⟩ := result
  cases value with
  | some _ => exact hmade
  | none =>
    obtain ⟨hpoint, hrunning, -, -⟩ := hfail rfl
    have hrunning' : k'.sched.runningProcess = k.sched.runningProcess := hrunning
    have hother {q : ℕ} (hq : q ≠ k.sched.runningProcess) :
        (Kernel.orForever ((none : Option α), k')).resumePoint q = k'.resumePoint q := by
      simp [Kernel.orForever, Kernel.setResumePoint, hrunning', hq]
    have hself : (Kernel.orForever ((none : Option α), k')).resumePoint k.sched.runningProcess =
        .createProcess := by
      simp [Kernel.orForever, Kernel.setResumePoint, hrunning']
    have hordinary {q : ℕ} (hq : ((Kernel.orForever ((none : Option α), k')).resumePoint q).Special) :
        q ≠ k.sched.runningProcess := by
      rintro rfl
      rw [hself] at hq
      exact hq
    refine ⟨⟨hmade.mutex, hmade.queue, hmade.collector, hmade.waitList, fun q hq => ?_,
      fun q hq => ?_, hmade.exits⟩, hmade.alloc.imp_right ?_⟩
    · have hne := hordinary hq
      have hq' : (k'.resumePoint q).Special := (hother hne) ▸ hq
      exact (hother hne).trans (hmade.special q hq')
    · refine (hmade.blocked q hq).imp_right fun hns hspecial => hns ?_
      show (k'.resumePoint q).Special
      rw [← hother (hordinary hspecial)]
      exact hspecial
    · rintro ⟨p, hfree, halloc, hcode, hready⟩
      have hne : p ≠ k.sched.runningProcess := by
        rintro rfl
        have hfree' : k.allocProcessTable k.sched.runningProcess = false := hfree
        rw [(h.running_member hmay.2.1).1] at hfree'
        cases hfree'
      exact ⟨p, hfree, halloc, (hother hne).trans hcode, hready⟩

theorem Valid.runCall_made (h : k.Valid) {c : Call} (hmay : k.MayCall c) (hc : c.Creates)
    (regs : ProcessContext) : k.Made (k.runCall c regs) := by
  cases c with
  | createProcess entryPoint arg =>
    exact h.orForever_made hmay (h.createProcess_made entryPoint arg) createProcess_failed
  | createUserProcess entryPoint arg =>
    exact h.orForever_made hmay (h.createUserProcess_made entryPoint arg) createUserProcess_failed
  | runUserProgram image size arg =>
    exact h.orForever_made hmay (h.runUserProgram_made image size arg) runUserProgram_failed
  | _ => exact hc.elim

/-- A wait list holds the processes that are blocked inside `acquireLock`. -/
theorem Valid.mem_waitList (h : k.Valid) {m p : ℕ} : p ∈ k.sched.roster (.waitList m) ↔
    k.roles.member p ∧ (k.sched.pcb p).state = .blocked ∧
      ∃ preIf, k.resumePoint p = .acquireLock m preIf := by
  refine (h.settled.plan.placed.mem_iff p (.waitList m)).trans (and_congr_right fun _ => ?_)
  have hstate : k.sched.plan.states p = (k.sched.pcb p).state := rfl
  have hlist : (k.resumePoint p).list = some (.waitList m) ↔
      ∃ preIf, k.resumePoint p = .acquireLock m preIf := by
    cases k.resumePoint p <;> simp [ResumePoint.list]
  rw [Plan.home, hstate, ← hlist]
  cases (k.sched.pcb p).state <;> simp [roles]

section MutexCalls

variable {m : ℕ}

theorem setIf_back (k : Kernel) : ((k.setIf false).2.setIf (k.setIf false).1).2 = k := rfl

theorem Valid.getRunningPid (h : k.Valid) (hrun : k.sched.runningProcess ≠ k.sched.idleProcess) :
    k.getRunningPid = k.sched.runningProcess := h.settled.running_id hrun

/-- What `acquireLock` can do: nest, take the free lock, or wait in line. -/
theorem Valid.acquireLock_cases (h : k.Valid) (hmay : k.MayCall (.acquireLock m))
    (regs : ProcessContext) :
    ((k.mutex m).pid = k.sched.runningProcess ∧ (k.acquireLock m regs).parts = { k.parts with
      mutex := Function.update k.mutex m { k.mutex m with count := (k.mutex m).count + 1 } }) ∨
    ((k.mutex m).pid = -1 ∧ (k.acquireLock m regs).parts = { k.parts with
      mutex := Function.update k.mutex m ⟨k.sched.runningProcess, 1⟩ }) ∨
    ((k.mutex m).pid ≠ k.sched.runningProcess ∧ (k.mutex m).pid ≠ -1 ∧
      ∃ preIf, (k.acquireLock m regs).parts = { k.parts with
        plan := ((k.sched.plan.append (.waitList m) k.sched.runningProcess).setState
          k.sched.runningProcess .blocked).dispatch
        resumePoint := Function.update k.resumePoint k.sched.runningProcess
          (.acquireLock m preIf) }) := by
  have hpid : (k.setIf false).2.getRunningPid = k.sched.runningProcess := h.getRunningPid hmay.2.1
  simp only [Kernel.acquireLock, hpid]
  split
  next hown => exact .inl ⟨hown, rfl⟩
  next hown =>
    split
    next hfree => exact .inr (.inl ⟨hfree, rfl⟩)
    next hfree =>
      have hoff : (k.setIf false).2.sched.Settled k.roles := (h.setIf false).settled
      have hplan := (hoff.block_in_refines hmay.2.1 (.waitList m) regs).2
      refine .inr (.inr ⟨hown, hfree, (k.setIf false).1, ?_⟩)
      rw [show k.sched.plan = (k.setIf false).2.sched.plan from rfl,
        show k.sched.runningProcess = (k.setIf false).2.sched.runningProcess from rfl, ← hplan]
      rfl

/-- What `releaseLock` can do: nothing without the lock, leave one level, free the lock,
or hand it to the first waiter. -/
theorem Valid.releaseLock_cases (h : k.Valid) (hmay : k.MayCall (.releaseLock m)) :
    ((k.mutex m).pid ≠ k.sched.runningProcess ∧ k.releaseLock m = k) ∨
    ((k.mutex m).pid = k.sched.runningProcess ∧ (k.mutex m).count - 1 ≠ 0 ∧
      (k.releaseLock m).parts = { k.parts with
        mutex := Function.update k.mutex m { k.mutex m with count := (k.mutex m).count - 1 } }) ∨
    ((k.mutex m).pid = k.sched.runningProcess ∧ (k.mutex m).count - 1 = 0 ∧
      k.sched.roster (.waitList m) = [] ∧ (k.releaseLock m).parts = { k.parts with
        mutex := Function.update k.mutex m ⟨-1, 0⟩ }) ∨
    ∃ next rest, (k.mutex m).pid = k.sched.runningProcess ∧ (k.mutex m).count - 1 = 0 ∧
      k.sched.roster (.waitList m) = next :: rest ∧ (k.releaseLock m).parts = { k.parts with
        mutex := Function.update k.mutex m ⟨next, 1⟩
        plan := (k.sched.plan.behead (.waitList m)).wakeup next } := by
  have hpid : (k.setIf false).2.getRunningPid = k.sched.runningProcess := h.getRunningPid hmay.2.1
  have hoff : (k.setIf false).2.sched.Settled k.roles := (h.setIf false).settled
  simp only [Kernel.releaseLock, hpid]
  split
  next hown => exact .inl ⟨hown, setIf_back k⟩
  next hown =>
    have hown := not_not.mp hown
    split
    next hzero =>
      have hzero : (k.mutex m).count - 1 = 0 := by
        simpa [Kernel.setMutex, Kernel.setIf] using hzero
      split
      next s heq =>
        have heq : (k.setIf false).2.sched.headRemove (.waitList m) = (none, s) := heq
        obtain ⟨hfst, -, hplan⟩ := Scheduler.headRemove_refines hoff.linked (.waitList m)
        rw [heq] at hfst hplan
        have hnil : k.sched.roster (.waitList m) = [] := List.head?_eq_none_iff.mp hfst.symm
        have hsame : s.plan = k.sched.plan := hplan.trans (Plan.behead_of_nil hnil)
        refine .inr (.inr (.inl ⟨hown, hzero, hnil, ?_⟩))
        simp only [Kernel.parts, Parts.mk.injEq]
        refine ⟨hsame, rfl, ?_, rfl, rfl, rfl⟩
        rw [← hzero]
        simp [Kernel.setMutex, Kernel.setIf]
      next next s heq =>
        have heq : (k.setIf false).2.sched.headRemove (.waitList m) = (some next, s) := heq
        obtain ⟨⟨rest, hroster⟩, -, hplan⟩ := hoff.wakeup_first_refines heq
        have hid : (s.link next).id = next := by
          have hs : s.plan.ids = k.sched.plan.ids := by
            rw [← show _ = s from congrArg Prod.snd heq,
              (Scheduler.headRemove_refines hoff.linked _).2.2]
            rfl
          have hmem : next ∈ k.sched.roster (.waitList m) := by
            rw [show k.sched.roster (.waitList m) = next :: rest from hroster]
            simp
          exact (congrFun hs next).trans (h.settled.linked.id_eq hmem)
        refine .inr (.inr (.inr ⟨next, rest, hown, hzero, hroster, ?_⟩))
        simp only [Kernel.parts, Parts.mk.injEq]
        refine ⟨hplan, rfl, ?_, rfl, rfl, rfl⟩
        simp [Kernel.setMutex, Kernel.setIf, hid]
    next hzero =>
      refine .inr (.inl ⟨hown, fun he => hzero ?_, rfl⟩)
      simpa [Kernel.setMutex, Kernel.setIf] using he

theorem Valid.acquireLock_calm (h : k.Valid) (hmay : k.MayCall (.acquireLock m))
    (regs : ProcessContext) : k.parts.Calm (k.acquireLock m regs).parts := by
  rcases h.acquireLock_cases hmay regs with ⟨-, heq⟩ | ⟨-, heq⟩ | ⟨-, -, preIf, heq⟩
  · rw [heq]
    exact ⟨rfl, rfl, rfl, fun _ => .inl, fun _ => id⟩
  · rw [heq]
    exact ⟨rfl, rfl, rfl, fun _ => .inl, fun _ => id⟩
  · rw [heq]
    set π := k.sched.plan.append (.waitList m) k.sched.runningProcess with hπ
    have hquiet := ((Plan.Quiet.refl (fun p => p = k.sched.runningProcess) π).setState
      k.sched.runningProcess .blocked (fun _ => rfl) (by simp)).dispatch
    exact ⟨rfl, rfl, rfl, hquiet.blocked, hquiet.exits⟩

theorem Valid.releaseLock_calm (h : k.Valid) (hmay : k.MayCall (.releaseLock m)) :
    k.parts.Calm (k.releaseLock m).parts := by
  rcases h.releaseLock_cases hmay with ⟨-, heq⟩ | ⟨-, -, heq⟩ | ⟨-, -, -, heq⟩ |
    ⟨next, rest, -, -, -, heq⟩
  · rw [heq]
    exact ⟨rfl, rfl, rfl, fun _ => .inl, fun _ => id⟩
  · rw [heq]
    exact ⟨rfl, rfl, rfl, fun _ => .inl, fun _ => id⟩
  · rw [heq]
    exact ⟨rfl, rfl, rfl, fun _ => .inl, fun _ => id⟩
  · rw [heq]
    have hquiet := (Plan.Quiet.refl (fun p => p = k.sched.runningProcess)
      (k.sched.plan.behead (.waitList m))).wakeup next
    exact ⟨rfl, rfl, rfl, hquiet.blocked, hquiet.exits⟩

end MutexCalls

/-- The plan behind an exit: the collector is awake and the next process runs. -/
theorem Valid.exitProcess_plan (h : k.Valid) {c : ℕ} (hc : k.collectorProcess = some c)
    (regs : ProcessContext) : (k.exitProcess regs).sched.plan =
      ((k.sched.plan.wakeup c).setState k.sched.runningProcess .exit).dispatch := by
  obtain ⟨hcm, hw⟩ := h.collector_place c hc
  have hoff : (k.setIf false).2.sched.Settled k.roles := (h.setIf false).settled
  obtain ⟨hl, hp⟩ := hoff.wakeupProcess_refines hcm hw
  have hsched : (k.exitProcess regs).sched =
      (((k.setIf false).2.sched.wakeupProcess (some c)).2.setState k.sched.runningProcess
        .exit).scheduleBlocked regs := by
    rw [← hc]
    rfl
  rw [hsched, (Scheduler.scheduleBlocked_refines (hl.setState _ _) regs).2,
    Scheduler.setState_plan, hp]
  rfl

/-- The collector's loop body blocks at most its caller, which stays in the loop. -/
theorem Valid.collectLoop_quiet (h : k.Valid) (preIf : Bool) (regs : ProcessContext) :
    k.sched.plan.Quiet (fun p => p = k.sched.runningProcess) (k.collectLoop preIf regs).sched.plan := by
  simp only [Kernel.collectLoop]
  split
  · exact h.blockRunningProcess_quiet regs
  · exact .refl _ _

theorem collectLoop_resumePoint (k : Kernel) (preIf : Bool) (regs : ProcessContext) :
    ∃ point, (point = .code ∨ point = .garbageProcessCollector preIf) ∧
      (k.collectLoop preIf regs).resumePoint =
        Function.update k.resumePoint k.sched.runningProcess point := by
  simp only [collectLoop]
  split
  · exact ⟨_, .inr rfl, rfl⟩
  · exact ⟨_, .inl rfl, rfl⟩

theorem collectLoop_mutex (k : Kernel) (preIf : Bool) (regs : ProcessContext) :
    (k.collectLoop preIf regs).mutex = k.mutex := by
  simp only [collectLoop]
  split <;> rfl

end Kernel
end SkhuOS
