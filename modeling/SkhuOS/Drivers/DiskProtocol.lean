import SkhuOS.Proc.LockMove
import SkhuOS.Proc.Sleep

/-! The protocol between a process that waits for the disk, the two completion interrupts
and the timer. The channel flags and the waiters belong to the holder of the disk mutex. -/
namespace SkhuOS
open Foundation

/-- While nobody sleeps or is ready, a tick does nothing but count. -/
theorem Scheduler.timerInterruptHandler_alone {s : Scheduler}
    (hready : (s.list .processList).count = 0) (hsleep : (s.list .sleepList).count = 0) :
    s.timerInterruptHandler = { s with tickCount := s.tickCount + 1 } := by
  unfold timerInterruptHandler wakeExpiredProcess
  dsimp only
  rw [hsleep]
  unfold wakeExpiredLoop timeoutSchedule
  exact if_pos hready

namespace Kernel

/-- Only the holder of mutex `m` waits for the disk or clears a flag. -/
def DiskDiscipline (m : ℕ) (k : Kernel) : Action → Prop
  | .call (.waitInterrupt _) _ | .call (.clearDiskInterruptFlag _) _ =>
    (k.mutex m).pid = k.getRunningPid
  | _ => True

/-- The value an action makes `waitInterrupt` return. -/
def waited (k : Kernel) : Action → Option Bool
  | .call (.waitInterrupt isPrimary) regs => (k.waitInterrupt isPrimary regs).1
  | .resume regs =>
    match k.resumePoint k.sched.runningProcess with
    | .waitInterrupt isPrimary deadline => ({ k with
        diskWaiter := Function.update k.diskWaiter isPrimary none }.waitLoop
          isPrimary deadline regs).1
    | _ => none
  | _ => none

/-- The actions that touch the flags, the waiters or the processes that wait. -/
def HandlesDisk (k : Kernel) : Action → Prop
  | .disk _ _ | .call (.clearDiskInterruptFlag _) _ | .call (.waitInterrupt _) _ => True
  | .resume _ => ∃ isPrimary deadline,
      k.resumePoint k.sched.runningProcess = .waitInterrupt isPrimary deadline
  | _ => False

/-- What every other step leaves alone. -/
structure DiskFrame (k k' : Kernel) : Prop where
  occur : k'.interruptOccur = k.interruptOccur
  waiter : k'.diskWaiter = k.diskWaiter
  point : ∀ p isPrimary deadline, k'.resumePoint p = .waitInterrupt isPrimary deadline →
    k.resumePoint p = .waitInterrupt isPrimary deadline

variable {k k' : Kernel} {a : Action} {p q m : ℕ} {isPrimary : Bool} {deadline : QWORD}

namespace DiskFrame

theorem of_same (hoccur : k'.interruptOccur = k.interruptOccur)
    (hwaiter : k'.diskWaiter = k.diskWaiter) (hpoint : k'.resumePoint = k.resumePoint) :
    k.DiskFrame k' :=
  ⟨hoccur, hwaiter, fun p c d hp => by rwa [hpoint] at hp⟩

/-- One process goes somewhere else. -/
theorem of_moved (q : ℕ) (point : ResumePoint) (hoccur : k'.interruptOccur = k.interruptOccur)
    (hwaiter : k'.diskWaiter = k.diskWaiter)
    (hpoint : k'.resumePoint = Function.update k.resumePoint q point)
    (hother : ∀ c d, point ≠ .waitInterrupt c d) : k.DiskFrame k' := by
  refine ⟨hoccur, hwaiter, fun p c d hp => ?_⟩
  rw [hpoint, Function.update_apply] at hp
  split at hp
  · exact absurd hp (hother c d)
  · exact hp

theorem createProcess (k : Kernel) (entryPoint arg : QWORD) :
    k.DiskFrame (k.createProcess entryPoint arg).2 := by
  unfold Kernel.createProcess
  dsimp only
  split
  · exact .of_moved _ .code rfl rfl rfl (by simp)
  · exact .of_same rfl rfl rfl

theorem createUserProcess (k : Kernel) (entryPoint arg : QWORD) :
    k.DiskFrame (k.createUserProcess entryPoint arg).2 := by
  have hcreate := createProcess (k.setIf false).2 entryPoint arg
  unfold Kernel.createUserProcess
  dsimp only
  split
  next k₁ heq =>
    rw [heq] at hcreate
    exact ⟨hcreate.occur, hcreate.waiter, hcreate.point⟩
  next p k₁ heq =>
    rw [heq] at hcreate
    exact ⟨hcreate.occur, hcreate.waiter, hcreate.point⟩

theorem runUserProgram (k : Kernel) (image : Bytes) (size : ℕ) (arg : QWORD) :
    k.DiskFrame (k.runUserProgram image size arg).2 := by
  unfold Kernel.runUserProgram
  split
  · exact .of_same rfl rfl rfl
  · have hcreate := createUserProcess ((k.setIf false).2.copyImage image size)
      (BitVec.ofNat 64 userCodeAddress) arg
    dsimp only
    split
    next k₁ heq =>
      rw [heq] at hcreate
      exact ⟨hcreate.occur, hcreate.waiter, hcreate.point⟩
    next p k₁ heq =>
      rw [heq] at hcreate
      exact ⟨hcreate.occur, hcreate.waiter, hcreate.point⟩

theorem orForever {α : Type} {result : Option α × Kernel} (h : k.DiskFrame result.2) :
    k.DiskFrame (Kernel.orForever result) := by
  obtain ⟨value, k'⟩ := result
  cases value with
  | some _ => exact h
  | none =>
    have hmoved : k'.DiskFrame (k'.setResumePoint k'.sched.runningProcess .createProcess) :=
      .of_moved _ .createProcess rfl rfl rfl (by simp)
    exact ⟨hmoved.occur.trans h.occur, hmoved.waiter.trans h.waiter,
      fun p c d hp => h.point p c d (hmoved.point p c d hp)⟩

theorem getKeyLoop (k : Kernel) (preIf : Bool) (regs : ProcessContext) :
    k.DiskFrame (k.getKeyLoop preIf regs).2 := by
  unfold Kernel.getKeyLoop
  dsimp only
  split
  · exact .of_moved _ .code rfl rfl rfl (by simp)
  · exact .of_moved _ (.getKey preIf) rfl rfl rfl (by simp)

theorem collectLoop (k : Kernel) (preIf : Bool) (regs : ProcessContext) :
    k.DiskFrame (k.collectLoop preIf regs) := by
  unfold Kernel.collectLoop
  split
  · exact .of_moved _ (.garbageProcessCollector preIf) rfl rfl rfl (by simp)
  · exact .of_moved _ .code rfl rfl rfl (by simp)

theorem runCall (c : Call) (regs : ProcessContext) (hdisk : ¬ k.HandlesDisk (.call c regs)) :
    k.DiskFrame (k.runCall c regs) := by
  cases c with
  | setIf | getQueue => exact .of_same rfl rfl rfl
  | createProcess entryPoint arg => exact (createProcess k entryPoint arg).orForever
  | createUserProcess entryPoint arg => exact (createUserProcess k entryPoint arg).orForever
  | runUserProgram image size arg => exact (runUserProgram k image size arg).orForever
  | sleepProcess ms => exact .of_moved _ (.sleepProcess (k.setIf false).1) rfl rfl rfl (by simp)
  | acquireLock m =>
    simp only [Kernel.runCall, Kernel.acquireLock]
    split
    · exact .of_same rfl rfl rfl
    · split
      · exact .of_same rfl rfl rfl
      · exact .of_moved _ (.acquireLock m (k.setIf false).1) rfl rfl rfl (by simp)
  | releaseLock m =>
    simp only [Kernel.runCall, Kernel.releaseLock]
    split
    · exact .of_same rfl rfl rfl
    · split
      · split <;> exact .of_same rfl rfl rfl
      · exact .of_same rfl rfl rfl
  | getKey =>
    have hloop := getKeyLoop (k.setIf false).2 (k.setIf false).1 regs
    exact ⟨hloop.occur, hloop.waiter, hloop.point⟩
  | clearDiskInterruptFlag | waitInterrupt => exact absurd trivial hdisk
  | schedule =>
    simp only [Kernel.runCall, Kernel.schedule]
    split
    · exact .of_same rfl rfl rfl
    · exact .of_moved _ (.schedule (k.setIf false).1) rfl rfl rfl (by simp)
  | exitProcess => exact .of_moved _ .exitProcess rfl rfl rfl (by simp)

/-- The other actions leave the protocol alone. -/
theorem step (hstep : k.step a = some k') (hdisk : ¬ k.HandlesDisk a) : k.DiskFrame k' := by
  cases a with
  | timer frame =>
    simp only [Kernel.step, Option.ite_none_right_eq_some, Option.some.injEq] at hstep
    obtain ⟨-, rfl⟩ := hstep
    exact .of_same rfl rfl rfl
  | keyboard scanCode frame =>
    simp only [Kernel.step, Option.ite_none_right_eq_some, Option.some.injEq] at hstep
    obtain ⟨-, rfl⟩ := hstep
    cases scanCode with
    | none => exact .of_same rfl rfl rfl
    | some scanCode =>
      simp only [Kernel.interrupt, Kernel.keyboardInterruptHandler, Kernel.inputQueue]
      split <;> exact .of_same rfl rfl rfl
  | disk isPrimary frame => exact absurd trivial hdisk
  | call c regs =>
    simp only [Kernel.step, Option.ite_none_right_eq_some, Option.some.injEq] at hstep
    obtain ⟨-, rfl⟩ := hstep
    exact runCall c regs hdisk
  | resume regs =>
    cases hat : k.resumePoint k.sched.runningProcess with
    | code | exitProcess | createProcess => simp [Kernel.step, Kernel.resumeCall, hat] at hstep
    | waitInterrupt isPrimary deadline => exact absurd ⟨isPrimary, deadline, hat⟩ hdisk
    | sleepProcess preIf | schedule preIf | acquireLock m preIf =>
      simp only [Kernel.step, Kernel.resumeCall, hat, Option.some.injEq] at hstep
      subst hstep
      exact .of_moved _ .code rfl rfl rfl (by simp)
    | getKey preIf =>
      simp only [Kernel.step, Kernel.resumeCall, hat, Option.some.injEq] at hstep
      subst hstep
      have hloop := getKeyLoop { k with keyWaiter := none } preIf regs
      exact ⟨hloop.occur, hloop.waiter, hloop.point⟩
    | garbageProcessCollector preIf =>
      simp only [Kernel.step, Kernel.resumeCall, hat, Option.some.injEq] at hstep
      subst hstep
      exact collectLoop k preIf regs
  | collect regs =>
    simp only [Kernel.step, Option.ite_none_right_eq_some, Option.some.injEq] at hstep
    obtain ⟨-, rfl⟩ := hstep
    have hloop := collectLoop (k.setIf false).2 (k.setIf false).1 regs
    exact ⟨hloop.occur, hloop.waiter, hloop.point⟩

end DiskFrame

/-- A mutex stays with its owner until the owner itself calls `releaseLock`. -/
theorem Valid.step_owner (h : k.Valid) (hstep : k.step a = some k') (hpid : (k.mutex m).pid = p)
    (hrelease : ∀ regs, a = .call (.releaseLock m) regs → k.sched.runningProcess ≠ p) :
    (k'.mutex m).pid = p := by
  cases h.lock_move (m := m) hstep with
  | kept _ _ hmutex => rwa [hmutex]
  | nested hown hmutex =>
    rw [hmutex]
    exact hown.symm.trans hpid
  | taken hfree => omega
  | queued _ _ hmutex => rwa [hmutex]
  | left hown | freed hown | handed hown =>
    have hrun := hrelease _ rfl
    omega

/-- Who is inside `waitInterrupt` was there before, unless it has just called it. -/
theorem waits_before (hstep : k.step a = some k')
    (hat : k'.resumePoint p = .waitInterrupt isPrimary deadline) :
    (∃ c d, k.resumePoint p = .waitInterrupt c d) ∨
      (k.sched.runningProcess = p ∧ ∃ c regs, a = .call (.waitInterrupt c) regs) := by
  by_cases hdisk : k.HandlesDisk a
  · cases a with
    | disk c frame =>
      have hsame := (Valid.interrupt_step_aside rfl hstep p).point
      exact .inl ⟨isPrimary, deadline, hsame.symm.trans hat⟩
    | call c regs =>
      simp only [Kernel.step, Option.ite_none_right_eq_some, Option.some.injEq] at hstep
      obtain ⟨-, rfl⟩ := hstep
      cases c with
      | clearDiskInterruptFlag c => exact .inl ⟨isPrimary, deadline, hat⟩
      | waitInterrupt c =>
        by_cases hrun : p = k.sched.runningProcess
        · exact .inr ⟨hrun.symm, c, regs, rfl⟩
        · left
          simp only [Kernel.runCall, Kernel.waitInterrupt] at hat
          split at hat
          · exact ⟨isPrimary, deadline, hat⟩
          · have hsame := (waitLoop_aside (k := (k.setIf false).2) hrun c
              (k.sched.tickCount + (waitTimeoutMs + slotTime - 1) / slotTime) regs).point
            exact ⟨isPrimary, deadline, hsame.symm.trans hat⟩
      | _ => exact hdisk.elim
    | resume regs =>
      obtain ⟨c, d, hrunning⟩ := hdisk
      left
      by_cases hrun : p = k.sched.runningProcess
      · exact ⟨c, d, hrun ▸ hrunning⟩
      · simp only [Kernel.step, Kernel.resumeCall, hrunning, Option.some.injEq] at hstep
        subst hstep
        have hsame := (waitLoop_aside (k := { k with
          diskWaiter := Function.update k.diskWaiter c none }) hrun c d regs).point
        exact ⟨isPrimary, deadline, hsame.symm.trans hat⟩
    | timer | keyboard | collect => exact hdisk.elim
  · exact .inl ⟨isPrimary, deadline, (DiskFrame.step hstep hdisk).point p _ _ hat⟩

/-- Everybody inside `waitInterrupt` holds mutex `m`. -/
def WaitersHold (m : ℕ) (k : Kernel) : Prop :=
  ∀ p c d, k.resumePoint p = .waitInterrupt c d → (k.mutex m).pid = p

theorem WaitersHold.step (hhold : k.WaitersHold m) (h : k.Valid) (hok : k.DiskDiscipline m a)
    (hstep : k.step a = some k') : k'.WaitersHold m := by
  intro p c d hat
  have hown : (k.mutex m).pid = p := by
    rcases waits_before hstep hat with ⟨c', d', hbefore⟩ | ⟨rfl, c', regs, rfl⟩
    · exact hhold p c' d' hbefore
    · simp only [Kernel.step, Option.ite_none_right_eq_some] at hstep
      exact (show (k.mutex m).pid = k.getRunningPid from hok).trans
        (h.getRunningPid hstep.1.2.1)
  refine h.step_owner hstep hown ?_
  rintro regs rfl hrun
  rcases waits_before hstep hat with ⟨c', d', hbefore⟩ | ⟨-, c', regs', ha⟩
  · simp only [Kernel.step, Option.ite_none_right_eq_some] at hstep
    rw [← hrun, hstep.1.1] at hbefore
    cases hbefore
  · cases ha

/-- Process `p` is inside `waitInterrupt`. It holds the mutex, is the waiter of its channel, and
it is blocked only while neither its interrupt nor its deadline has come. -/
structure Waiting (m p : ℕ) (isPrimary : Bool) (deadline : QWORD) (k : Kernel) : Prop where
  member : k.roles.member p
  point : k.resumePoint p = .waitInterrupt isPrimary deadline
  owner : (k.mutex m).pid = p
  wakeupTick : (k.sched.pcb p).wakeupTick = deadline
  waiter : k.diskWaiter isPrimary = some p
  blocked : (k.sched.pcb p).state = .blocked →
    k.interruptOccur isPrimary = false ∧ k.sched.tickCount < deadline

/-- Process `p` has left `waitInterrupt` with a value. -/
structure WaitEnded (p : ℕ) (isPrimary : Bool) (deadline : QWORD) (value : Bool) (k : Kernel) :
    Prop where
  state : (k.sched.pcb p).state = .running
  point : k.resumePoint p = .code
  occur : k.interruptOccur isPrimary = value
  expired : value = false → deadline ≤ k.sched.tickCount
  waiter : k.diskWaiter isPrimary = none
  unlisted : ∀ name, p ∉ k.sched.roster name

/-- One round of the loop ends the wait or goes to sleep. -/
theorem Valid.waitLoop_outcome (h : k.Valid)
    (hrun : k.sched.runningProcess ≠ k.sched.idleProcess)
    (hown : (k.mutex m).pid = k.sched.runningProcess) (hwaiter : k.diskWaiter isPrimary = none)
    (deadline : QWORD) (regs : ProcessContext) :
    (∀ value, (k.waitLoop isPrimary deadline regs).1 = some value →
      WaitEnded k.sched.runningProcess isPrimary deadline value
        (k.waitLoop isPrimary deadline regs).2) ∧
    ((k.waitLoop isPrimary deadline regs).1 = none →
      Waiting m k.sched.runningProcess isPrimary deadline
        (k.waitLoop isPrimary deadline regs).2) := by
  have hout (name : ListName) : k.sched.runningProcess ∉ k.sched.roster name :=
    h.settled.running_not_mem
  obtain ⟨hidle, -, htime⟩ := h.sleepUntilTick_asleep hrun deadline regs
  have hmember := h.running_member hrun
  have hstate := h.settled.running_state hrun
  unfold Kernel.waitLoop
  split
  next hoccur =>
    refine ⟨fun value hv => ?_, fun hv => nomatch hv⟩
    cases hv
    exact ⟨hstate, Function.update_self _ _ _, hoccur, (nomatch ·), hwaiter, hout⟩
  next hoccur =>
    have hoccur : k.interruptOccur isPrimary = false := by simpa using hoccur
    split
    next hexpired =>
      refine ⟨fun value hv => ?_, fun hv => nomatch hv⟩
      cases hv
      exact ⟨hstate, Function.update_self _ _ _, hoccur, fun _ => hexpired, hwaiter, hout⟩
    next hexpired =>
      refine ⟨fun value hv => (nomatch hv), fun _ => ?_⟩
      refine ⟨⟨hmember.1, fun he => hmember.2 (he.trans hidle)⟩, Function.update_self _ _ _, hown,
        congrArg Prod.snd htime, Function.update_self _ _ _, fun _ => ⟨hoccur, ?_⟩⟩
      show (k.sched.sleepUntilTick deadline regs).tickCount < deadline
      rw [show (k.sched.sleepUntilTick deadline regs).tickCount = k.sched.tickCount from
        congrArg Prod.fst htime]
      exact BitVec.not_le.mp hexpired

/-- The completion interrupt wakes its waiter. -/
theorem Valid.disk_wakes (h : k.Valid) {frame : ProcessContext}
    (hstep : k.step (.disk isPrimary frame) = some k') (hwaiter : k.diskWaiter isPrimary = some p)
    (hs : k.sched.plan.states p = .blocked) : k'.sched.plan.states p ≠ .blocked := by
  obtain ⟨hmember, hplace⟩ := h.diskWaiter_place isPrimary p hwaiter
  simp only [Kernel.step, Option.ite_none_right_eq_some, Option.some.injEq] at hstep
  obtain ⟨-, rfl⟩ := hstep
  have hplan : (k.interrupt frame fun k => k.diskInterruptHandler isPrimary).sched.plan =
      k.sched.plan.wakeInInterrupt p := by
    have hwoken := (h.interrupt_entry frame).wakeupProcessInInterrupt_plan hmember hplace
    show (Scheduler.wakeupProcessInInterrupt _ (k.diskWaiter isPrimary)).plan = _
    rw [hwaiter]
    exact hwoken
  rw [hplan]
  exact Plan.wakeInInterrupt_self hs

/-- A tick that reaches the deadline wakes the sleeper. -/
theorem Valid.tick_wakes (h : k.Valid) {frame : ProcessContext}
    (hstep : k.step (.timer frame) = some k') (hp : k.roles.member p)
    (hs : k.sched.plan.states p = .blocked) (hm : p ∈ k.sched.roster .sleepList)
    (hdue : k.dueNext p = true) : k'.sched.plan.states p ≠ .blocked := by
  have hvalid := h.step hstep
  intro hblocked
  rcases (h.timer_wakes hstep hp hs hm hdue).2 with hready | hrun
  · rw [show (k'.sched.pcb p).state = .blocked from hblocked] at hready
    cases hready
  · have hmember : k'.roles.member p := by
      have haside := Valid.interrupt_step_aside rfl hstep p
      exact (h.aside_kept hstep haside hp).1
    exact hvalid.blocked_ne_running hmember hblocked hrun.symm

namespace Waiting

/-- While `p` holds the mutex, no other process touches its channel. -/
theorem step_channel (hw : Waiting m p isPrimary deadline k) (h : k.Valid)
    (hhold : k.WaitersHold m) (hok : k.DiskDiscipline m a) (hstep : k.step a = some k')
    (hp : p ≠ k.sched.runningProcess ∨ a.isInterrupt = true) :
    k'.diskWaiter isPrimary = some p ∧ (k'.interruptOccur isPrimary = k.interruptOccur isPrimary ∨
      ∃ frame, a = .disk isPrimary frame) := by
  by_cases hdisk : k.HandlesDisk a
  · have hcaller (c : Call) (regs : ProcessContext) (ha : a = .call c regs)
        (hpid : (k.mutex m).pid = k.getRunningPid) : False := by
      subst ha
      simp only [Kernel.step, Option.ite_none_right_eq_some] at hstep
      rw [h.getRunningPid hstep.1.2.1, hw.owner] at hpid
      rcases hp with hp | hp
      · omega
      · cases hp
    cases a with
    | disk c frame =>
      simp only [Kernel.step, Option.ite_none_right_eq_some, Option.some.injEq] at hstep
      obtain ⟨-, rfl⟩ := hstep
      refine ⟨hw.waiter, ?_⟩
      by_cases hc : isPrimary = c
      · exact .inr ⟨frame, by rw [hc]⟩
      · exact .inl (Function.update_of_ne hc _ _)
    | call c regs =>
      cases c with
      | clearDiskInterruptFlag c => exact (hcaller _ regs rfl hok).elim
      | waitInterrupt c => exact (hcaller _ regs rfl hok).elim
      | _ => exact hdisk.elim
    | resume regs =>
      obtain ⟨c, d, hat⟩ := hdisk
      have hpid := hhold _ c d hat
      rw [hw.owner] at hpid
      rcases hp with hp | hp
      · omega
      · cases hp
    | timer | keyboard | collect => exact hdisk.elim
  · have hframe := DiskFrame.step hstep hdisk
    exact ⟨(congrFun hframe.waiter _).trans hw.waiter, .inl (congrFun hframe.occur _)⟩

/-- A step of another process or an interrupt keeps the wait. -/
theorem keep (hw : Waiting m p isPrimary deadline k) (h : k.Valid) (hhold : k.WaitersHold m)
    (hok : k.DiskDiscipline m a) (hstep : k.step a = some k')
    (hp : p ≠ k.sched.runningProcess ∨ a.isInterrupt = true) :
    Waiting m p isPrimary deadline k' := by
  have haside : Aside p (k.ticked a) k' := by
    rcases hp with hp | hp
    · exact h.step_aside hstep hp hw.member.1 (by simp [hw.point])
    · exact Valid.interrupt_step_aside hp hstep p
  obtain ⟨hmember, hpoint, hwakeup⟩ := h.aside_kept hstep haside hw.member
  obtain ⟨hwaiter, hoccur⟩ := hw.step_channel h hhold hok hstep hp
  have howner : (k'.mutex m).pid = p := by
    refine h.step_owner hstep hw.owner ?_
    rintro regs rfl rfl
    rcases hp with hp | hp
    · exact hp rfl
    · cases hp
  refine ⟨hmember, hpoint.trans hw.point, howner, hwakeup.trans hw.wakeupTick, hwaiter,
    fun hs' => ?_⟩
  have hs : k.sched.plan.states p = .blocked := by
    rcases hp with hp | hp
    · obtain ⟨d, -, hplan⟩ := h.performs hstep
      have hafter : (k.sched.plan.after d).states p = .blocked := hplan ▸ hs'
      exact Plan.blocked_of_after hp hafter
    · exact h.interrupt_blocked hp hstep hs'
  obtain ⟨hclear, hlt⟩ := hw.blocked hs
  constructor
  · rcases hoccur with hoccur | ⟨frame, rfl⟩
    · exact hoccur.trans hclear
    · exact absurd hs' (h.disk_wakes hstep hw.waiter hs)
  · rw [h.step_tickCount hstep]
    cases a with
    | timer frame =>
      by_contra hreached
      have hmem : p ∈ k.sched.roster .sleepList := by
        apply (h.settled.plan.placed.mem_iff _ .sleepList).mpr
        exact ⟨hw.member, by simp [Plan.home, hs, roles, hw.point, ResumePoint.list]⟩
      refine absurd hs' (h.tick_wakes hstep hw.member hs hmem ?_)
      unfold dueNext
      rw [hw.wakeupTick, decide_eq_true_iff]
      exact BitVec.not_lt.mp hreached
    | _ => exact hlt

/-- The interrupt of the other channel does not even wake `p`. -/
theorem other_channel (hw : Waiting m p isPrimary deadline k) (h : k.Valid)
    (hhold : k.WaitersHold m) {frame : ProcessContext}
    (hstep : k.step (.disk (!isPrimary) frame) = some k') :
    k'.resumePoint p ≠ .code ∧ k'.interruptOccur isPrimary = k.interruptOccur isPrimary ∧
      ((k.sched.pcb p).state = .blocked → (k'.sched.pcb p).state = .blocked) := by
  have hp : p ≠ k.sched.runningProcess ∨ (Action.disk (!isPrimary) frame).isInterrupt = true :=
    .inr rfl
  have hok : k.DiskDiscipline m (.disk (!isPrimary) frame) := trivial
  have hkept := hw.keep h hhold hok hstep hp
  refine ⟨by simp [hkept.point], ?_, fun hs => ?_⟩
  · rcases (hw.step_channel h hhold hok hstep hp).2 with hsame | ⟨frame', ha⟩
    · exact hsame
    · simp at ha
  · obtain ⟨d, hd, hplan⟩ := h.performs hstep
    show k'.sched.plan.states p = .blocked
    rw [hplan]
    refine h.after_blocked hd hw.member hs fun hwakes => ?_
    cases d with
    | nothing | create q | block name | yield => exact hwakes.elim
    | handOver m next =>
      obtain ⟨-, -, regs, ha⟩ := hd
      cases ha
    | wake q =>
      obtain rfl : p = q := hwakes
      rcases hd with ⟨_, _, ha, -⟩ | ⟨c, _, ha, hwaiter⟩
      · cases ha
      · cases ha
        obtain ⟨-, d, hat⟩ := h.diskWaiter _ p hwaiter
        have hchannel := ResumePoint.waitInterrupt.inj (hw.point.symm.trans hat)
        simp at hchannel
    | tick due =>
      obtain ⟨⟨frame', ha⟩, -⟩ := hd
      cases ha
    | exit c =>
      obtain ⟨-, -, regs, ha⟩ := hd
      cases ha

/-- Every step keeps the wait or ends it with a value. -/
theorem step (hw : Waiting m p isPrimary deadline k) (h : k.Valid) (hhold : k.WaitersHold m)
    (hok : k.DiskDiscipline m a) (hstep : k.step a = some k') :
    Waiting m p isPrimary deadline k' ∨
      ∃ value, k.waited a = some value ∧ WaitEnded p isPrimary deadline value k' := by
  by_cases hp : p ≠ k.sched.runningProcess ∨ a.isInterrupt = true
  · exact .inl (hw.keep h hhold hok hstep hp)
  · obtain ⟨hrun, ha⟩ := not_or.mp hp
    have hrun : p = k.sched.runningProcess := not_not.mp hrun
    have hpoint := hw.point
    subst hrun
    cases a with
    | timer | keyboard | disk => exact absurd rfl ha
    | call c regs =>
      simp only [Kernel.step, Option.ite_none_right_eq_some] at hstep
      cases hstep.1.1.symm.trans hpoint
    | collect regs =>
      simp only [Kernel.step, Option.ite_none_right_eq_some] at hstep
      cases hstep.1.2.symm.trans hpoint
    | resume regs =>
      simp only [Kernel.step, Kernel.resumeCall, hpoint, Option.some.injEq] at hstep
      subst hstep
      have houtcome := (h.clear_diskWaiter isPrimary).waitLoop_outcome (m := m)
        (h.running_ne_idle (by simp [hpoint])) hw.owner (Function.update_self _ _ _)
        deadline regs
      simp only [waited, hpoint]
      cases hv : ({ k with diskWaiter := Function.update k.diskWaiter isPrimary none }.waitLoop
          isPrimary deadline regs).1 with
      | none => exact .inl (houtcome.2 hv)
      | some value => exact .inr ⟨value, rfl, houtcome.1 value hv⟩

end Waiting

/-- The timeout of a wait in ticks. -/
def waitTicks : ℕ := 100

/-- How `waitInterrupt` returns to process `p` after some ticks. -/
structure WaitReturns (p : ℕ) (isPrimary value : Bool) (ticks : ℕ) (k : Kernel) : Prop where
  occur : value = true → k.interruptOccur isPrimary = true
  timeout : value = false → k.interruptOccur isPrimary = false ∧ waitTicks ≤ ticks
  waiter : k.diskWaiter isPrimary = none
  unlisted : ∀ name, p ∉ k.sched.roster name

/-- The steps that may follow until process `p` is back in its own code. -/
def UntilReturn (m p : ℕ) (k : Kernel) (a : Action) : Prop :=
  k.DiskDiscipline m a ∧ k.resumePoint p ≠ .code

/-- The protocol of one call of `waitInterrupt` that the running process makes in `k`: how the
call ends, at once or later, when the caller may be blocked in it, and that the interrupt of
the other channel does not end it. -/
structure WaitProtocol (k : Kernel) (m : ℕ) (isPrimary : Bool) (regs : ProcessContext) : Prop where
  atOnce : ∀ value, (k.waitInterrupt isPrimary regs).1 = some value →
    WaitReturns k.sched.runningProcess isPrimary value 0 (k.waitInterrupt isPrimary regs).2
  later : ∀ history k' a k'', Run Kernel.step (UntilReturn m k.sched.runningProcess)
      (k.waitInterrupt isPrimary regs).2 history k' →
    UntilReturn m k.sched.runningProcess k' a → k'.step a = some k'' →
    k''.resumePoint k.sched.runningProcess = .code →
      ∃ value, k'.waited a = some value ∧
        WaitReturns k.sched.runningProcess isPrimary value (ticksIn history) k''
  blocked : ∀ history k', Run Kernel.step (UntilReturn m k.sched.runningProcess)
      (k.waitInterrupt isPrimary regs).2 history k' →
    (k'.sched.pcb k.sched.runningProcess).state = .blocked →
      k'.interruptOccur isPrimary = false ∧
        k'.sched.tickCount < k.sched.tickCount + BitVec.ofNat 64 waitTicks
  other : ∀ history k' frame k'', Run Kernel.step (UntilReturn m k.sched.runningProcess)
      (k.waitInterrupt isPrimary regs).2 history k' →
    k'.resumePoint k.sched.runningProcess ≠ .code → k'.step (.disk (!isPrimary) frame) = some k'' →
      k''.resumePoint k.sched.runningProcess ≠ .code ∧
        k''.interruptOccur isPrimary = k'.interruptOccur isPrimary ∧
        ((k'.sched.pcb k.sched.runningProcess).state = .blocked →
          (k''.sched.pcb k.sched.runningProcess).state = .blocked)

theorem waitInterrupt_enabled (hif : k.sched.interruptFlag = true) (regs : ProcessContext) :
    k.waitInterrupt isPrimary regs = (k.setIf false).2.waitLoop isPrimary
      (k.sched.tickCount + BitVec.ofNat 64 waitTicks) regs := by
  simp only [Kernel.waitInterrupt]
  rw [show (k.setIf false).1 = true from hif]
  rfl

/-- A deadline that does not wrap around is reached after as many ticks as it is away. -/
theorem waitTicks_le {start : QWORD} {ticks : ℕ} (hfits : start.toNat + waitTicks < 2 ^ 64)
    (h : start + BitVec.ofNat 64 waitTicks ≤ start + BitVec.ofNat 64 ticks) :
    waitTicks ≤ ticks := by
  by_contra hlt
  unfold waitTicks at *
  rw [BitVec.le_def, BitVec.toNat_add, BitVec.toNat_add, BitVec.toNat_ofNat,
    BitVec.toNat_ofNat] at h
  omega

theorem WaitEnded.returns {value : Bool} {start : QWORD} {ticks : ℕ}
    (hended : WaitEnded p isPrimary (start + BitVec.ofNat 64 waitTicks) value k)
    (htick : k.sched.tickCount = start + BitVec.ofNat 64 ticks)
    (hfits : value = false → start.toNat + waitTicks < 2 ^ 64) :
    WaitReturns p isPrimary value ticks k := by
  refine ⟨fun hv => hended.occur.trans hv, fun hv => ⟨hended.occur.trans hv, ?_⟩, hended.waiter,
    hended.unlisted⟩
  have hexpired := hended.expired hv
  rw [htick] at hexpired
  exact waitTicks_le (hfits hv) hexpired

section Calling

variable {history : List (Move Kernel Action)} {regs : ProcessContext}

/-- A call inside the protocol: where the caller is and which runs may follow. -/
structure MayWait (k : Kernel) (m : ℕ) (isPrimary : Bool) : Prop where
  valid : k.Valid
  hold : k.WaitersHold m
  may : k.MayCall (.waitInterrupt isPrimary)
  owner : (k.mutex m).pid = k.getRunningPid
  enabled : k.sched.interruptFlag = true

namespace MayWait

variable (hk : k.MayWait m isPrimary)

include hk

theorem owner_eq : (k.mutex m).pid = k.sched.runningProcess :=
  hk.owner.trans (hk.valid.getRunningPid hk.may.2.1)

/-- Nobody else waits on the channel of the holder. -/
theorem no_waiter : k.diskWaiter isPrimary = none := by
  cases hw : k.diskWaiter isPrimary with
  | none => rfl
  | some q =>
    obtain ⟨-, d, hat⟩ := hk.valid.diskWaiter isPrimary q hw
    have hpid := hk.hold q isPrimary d hat
    rw [hk.owner_eq] at hpid
    obtain rfl : k.sched.runningProcess = q := by omega
    rw [hk.may.1] at hat
    cases hat

theorem outcome (regs : ProcessContext) :
    (∀ value, (k.waitInterrupt isPrimary regs).1 = some value →
      WaitEnded k.sched.runningProcess isPrimary
        (k.sched.tickCount + BitVec.ofNat 64 waitTicks) value
        (k.waitInterrupt isPrimary regs).2) ∧
    ((k.waitInterrupt isPrimary regs).1 = none →
      Waiting m k.sched.runningProcess isPrimary
        (k.sched.tickCount + BitVec.ofNat 64 waitTicks) (k.waitInterrupt isPrimary regs).2) := by
  rw [waitInterrupt_enabled hk.enabled]
  exact (hk.valid.setIf false).waitLoop_outcome hk.may.2.1 hk.owner_eq hk.no_waiter _ regs

theorem step_call (regs : ProcessContext) :
    k.step (.call (.waitInterrupt isPrimary) regs) = some (k.waitInterrupt isPrimary regs).2 := by
  simp only [Kernel.step, if_pos hk.may]
  rfl

theorem tickCount (regs : ProcessContext) :
    (k.waitInterrupt isPrimary regs).2.sched.tickCount = k.sched.tickCount :=
  hk.valid.step_tickCount (hk.step_call regs)

/-- Until the call returns its process waits in it, and every tick is counted. -/
theorem run (hrun : Run Kernel.step (UntilReturn m k.sched.runningProcess)
      (k.waitInterrupt isPrimary regs).2 history k') :
    k'.Valid ∧ k'.WaitersHold m ∧
      k'.sched.tickCount = k.sched.tickCount + BitVec.ofNat 64 (ticksIn history) ∧
      ((k.waitInterrupt isPrimary regs).1 = none ∧ Waiting m k.sched.runningProcess isPrimary
          (k.sched.tickCount + BitVec.ofNat 64 waitTicks) k' ∨
        k'.resumePoint k.sched.runningProcess = .code ∧
          (k'.sched.pcb k.sched.runningProcess).state = .running) := by
  apply hrun.history_invariant (P := fun past t => t.Valid ∧ t.WaitersHold m ∧
    t.sched.tickCount = k.sched.tickCount + BitVec.ofNat 64 (ticksIn past) ∧
      ((k.waitInterrupt isPrimary regs).1 = none ∧ Waiting m k.sched.runningProcess isPrimary
          (k.sched.tickCount + BitVec.ofNat 64 waitTicks) t ∨
        t.resumePoint k.sched.runningProcess = .code ∧
          (t.sched.pcb k.sched.runningProcess).state = .running))
  · have hstep := hk.step_call regs
    have hok : k.DiskDiscipline m (.call (.waitInterrupt isPrimary) regs) := hk.owner
    refine ⟨hk.valid.step hstep, hk.hold.step hk.valid hok hstep,
      (hk.tickCount regs).trans (BitVec.add_zero _).symm, ?_⟩
    cases hv : (k.waitInterrupt isPrimary regs).1 with
    | none => exact .inl ⟨rfl, (hk.outcome regs).2 hv⟩
    | some value =>
      have hended := (hk.outcome regs).1 value hv
      exact .inr ⟨hended.point, hended.state⟩
  · rintro past t a u - ⟨hvalid, hhold, htick, hcall⟩ ⟨hok, hinside⟩ hstep
    refine ⟨hvalid.step hstep, hhold.step hvalid hok hstep, hvalid.step_ticksIn hstep htick, ?_⟩
    rcases hcall with ⟨hnone, hw⟩ | ⟨hcode, -⟩
    · rcases hw.step hvalid hhold hok hstep with hw | ⟨value, -, hended⟩
      · exact .inl ⟨hnone, hw⟩
      · exact .inr ⟨hended.point, hended.state⟩
    · exact absurd hcode hinside

end MayWait

end Calling

theorem waitLoop_occurred (hoccur : k.interruptOccur isPrimary = true) (regs : ProcessContext) :
    (k.waitLoop isPrimary deadline regs).1 = some true := by
  unfold Kernel.waitLoop
  rw [if_pos hoccur]

theorem waitLoop_expired (hclear : ¬ k.interruptOccur isPrimary = true)
    (hexpired : deadline ≤ k.sched.tickCount) (regs : ProcessContext) :
    (k.waitLoop isPrimary deadline regs).1 = some false := by
  unfold Kernel.waitLoop
  rw [if_neg hclear, if_pos hexpired]

/-- A deadline that wraps around has passed already. -/
theorem waitInterrupt_expired (hif : k.sched.interruptFlag = true)
    (hwrap : ¬ (k.sched.tickCount.toNat + waitTicks < 2 ^ 64 ∨ k.interruptOccur isPrimary = true))
    (regs : ProcessContext) : (k.waitInterrupt isPrimary regs).1 = some false := by
  obtain ⟨hwrap, hclear⟩ := not_or.mp hwrap
  have hpast : k.sched.tickCount + BitVec.ofNat 64 waitTicks ≤ k.sched.tickCount := by
    have hlt := k.sched.tickCount.isLt
    unfold waitTicks at *
    rw [BitVec.le_def, BitVec.toNat_add, BitVec.toNat_ofNat]
    omega
  rw [waitInterrupt_enabled hif]
  exact waitLoop_expired (k := (k.setIf false).2) hclear hpast regs

theorem not_waitProtocol (hif : k.sched.interruptFlag = true)
    (hwrap : ¬ (k.sched.tickCount.toNat + waitTicks < 2 ^ 64 ∨ k.interruptOccur isPrimary = true))
    (regs : ProcessContext) : ¬ k.WaitProtocol m isPrimary regs := by
  intro hprotocol
  have hreturns := hprotocol.atOnce false (waitInterrupt_expired hif hwrap regs)
  exact absurd (hreturns.timeout rfl).2 (by decide)

/-- In a run where only the holder of the mutex touches the channels, everybody inside
`waitInterrupt` holds it. -/
theorem mayWait {b : Boot} {history : List (Move Kernel Action)}
    (hrun : KernelRun (DiskDiscipline m) b history k) (hmay : k.MayCall (.waitInterrupt isPrimary))
    (howner : (k.mutex m).pid = k.getRunningPid) (hif : k.sched.interruptFlag = true) :
    k.MayWait m isPrimary := by
  have hinv : k.Valid ∧ k.WaitersHold m := by
    apply hrun.invariant (P := fun t => t.Valid ∧ t.WaitersHold m)
    · refine ⟨b.start_valid, fun p c d hat => ?_⟩
      rw [b.start_resumePoint] at hat
      cases hat
    · rintro t a u ⟨hvalid, hhold⟩ hok hstep
      exact ⟨hvalid.step hstep, hhold.step hvalid hok hstep⟩
  exact ⟨hinv.1, hinv.2, hmay, howner, hif⟩

/-- A call of `waitInterrupt` by the holder of the disk mutex keeps to the protocol in every
run exactly if its flag is set already or its deadline does not wrap around. -/
theorem disk_wait {b : Boot} {history : List (Move Kernel Action)}
    (hrun : KernelRun (DiskDiscipline m) b history k) (hmay : k.MayCall (.waitInterrupt isPrimary))
    (howner : (k.mutex m).pid = k.getRunningPid) (hif : k.sched.interruptFlag = true)
    (regs : ProcessContext) : k.WaitProtocol m isPrimary regs ↔
      k.sched.tickCount.toNat + waitTicks < 2 ^ 64 ∨ k.interruptOccur isPrimary = true := by
  have hk := mayWait hrun hmay howner hif
  constructor
  · intro hprotocol
    by_contra hwrap
    exact not_waitProtocol hif hwrap regs hprotocol
  · intro hfits
    have hnone (hv : (k.waitInterrupt isPrimary regs).1 ≠ some true) :
        k.sched.tickCount.toNat + waitTicks < 2 ^ 64 := by
      refine hfits.resolve_right fun hoccur => hv ?_
      rw [waitInterrupt_enabled hif]
      exact waitLoop_occurred (k := (k.setIf false).2) hoccur regs
    constructor
    · intro value hv
      apply ((hk.outcome regs).1 value hv).returns
        ((hk.tickCount regs).trans (BitVec.add_zero _).symm)
      rintro rfl
      exact hnone (by simp [hv])
    · rintro past k' a k'' hrun ⟨hok, hinside⟩ hstep hcode
      obtain ⟨hvalid, hhold, htick, ⟨hnow, hw⟩ | ⟨hcode', -⟩⟩ := hk.run hrun
      · rcases hw.step hvalid hhold hok hstep with hw | ⟨value, hv, hended⟩
        · rw [hw.point] at hcode
          cases hcode
        · have hsame : k''.sched.tickCount = k'.sched.tickCount := by
            rw [hvalid.step_tickCount hstep]
            cases a with
            | timer => cases hv
            | _ => rfl
          exact ⟨value, hv, hended.returns (hsame.trans htick) fun _ => hnone (by simp [hnow])⟩
      · exact absurd hcode' hinside
    · intro past k' hrun hblocked
      obtain ⟨-, -, -, ⟨-, hw⟩ | ⟨-, hstate⟩⟩ := hk.run hrun
      · exact hw.blocked hblocked
      · rw [hstate] at hblocked
        cases hblocked
    · intro past k' frame k'' hrun hinside hstep
      obtain ⟨hvalid, hhold, -, ⟨-, hw⟩ | ⟨hcode, -⟩⟩ := hk.run hrun
      · exact hw.other_channel hvalid hhold hstep
      · exact absurd hcode hinside

/-- The shell at the start, with a mutex and interrupts on. -/
def locked : Kernel := Boot.zero.start.acquireLock 0 fun _ => 0

def holding : Kernel := (locked.setIf true).2

/-- The shell alone: the collector has found nothing to collect. -/
def alone : Kernel := (holding.tickOf.garbageProcessCollector fun _ => 0).tickOf

theorem holding_run : ∃ history, KernelRun (DiskDiscipline 0) Boot.zero history holding := by
  have hlock : Boot.zero.start.step (.call (.acquireLock 0) fun _ => 0) = some locked := by
    simp only [Kernel.step]
    exact if_pos (by decide +kernel)
  have henable : locked.step (.call (.setIf true) fun _ => 0) = some holding := by
    simp only [Kernel.step]
    exact if_pos (by decide +kernel)
  refine ⟨_, (Run.start.next ?_ hlock).next ?_ henable⟩ <;> exact trivial

theorem disk_wait_holding : holding.WaitProtocol 0 true (fun _ => 0) ↔
    holding.sched.tickCount.toNat + waitTicks < 2 ^ 64 ∨ holding.interruptOccur true = true := by
  obtain ⟨history, hrun⟩ := holding_run
  exact disk_wait hrun (by decide +kernel) (by decide +kernel) (by decide +kernel) _

theorem step_tickOf (hif : k.sched.interruptFlag = true) :
    k.step (.timer fun _ => 0) = some k.tickOf := by
  simp only [Kernel.step]
  exact if_pos hif

theorem alone_run : ∃ history, KernelRun (DiskDiscipline 0) Boot.zero history alone := by
  obtain ⟨history, hrun⟩ := holding_run
  have hcollect : holding.tickOf.step (.collect fun _ => 0) =
      some (holding.tickOf.garbageProcessCollector fun _ => 0) := by
    simp only [Kernel.step]
    exact if_pos (by decide +kernel)
  have htick := step_tickOf (k := holding) (by decide +kernel)
  have htick' := step_tickOf (k := holding.tickOf.garbageProcessCollector fun _ => 0)
    (by decide +kernel)
  refine ⟨_, ((hrun.next ?_ htick).next ?_ hcollect).next ?_ htick'⟩ <;> exact trivial

/-- The same state some ticks later. -/
def later (k : Kernel) (ticks : ℕ) : Kernel :=
  { k with sched := { k.sched with tickCount := k.sched.tickCount + BitVec.ofNat 64 ticks } }

theorem tickOf_later (hready : (k.sched.list .processList).count = 0)
    (hsleep : (k.sched.list .sleepList).count = 0) (hif : k.sched.interruptFlag = true)
    (hist : k.sched.ist = withIf (fun _ => 0) true) (ticks : ℕ) :
    (k.later ticks).tickOf = k.later (ticks + 1) := by
  have hcount : k.sched.tickCount + BitVec.ofNat 64 ticks + 1 =
      k.sched.tickCount + BitVec.ofNat 64 (ticks + 1) := by
    rw [BitVec.ofNat_add, BitVec.add_assoc]
    rfl
  have hhandler (frame : ProcessContext) := Scheduler.timerInterruptHandler_alone
    (s := { (k.later ticks).sched with ist := frame, interruptFlag := false }) hready hsleep
  unfold tickOf interrupt
  dsimp only
  rw [hhandler, ← hist]
  have hflag : contextIf k.sched.ist = k.sched.interruptFlag := by
    rw [hist, hif, contextIf_withIf]
  dsimp only [later]
  rw [hcount, hflag]

theorem later_run (ok : Kernel → Action → Prop) (hok : ∀ t frame, ok t (.timer frame))
    (hready : (k.sched.list .processList).count = 0)
    (hsleep : (k.sched.list .sleepList).count = 0) (hif : k.sched.interruptFlag = true)
    (hist : k.sched.ist = withIf (fun _ => 0) true) (ticks : ℕ) :
    ∃ history, Run Kernel.step ok k history (k.later ticks) := by
  induction ticks with
  | zero =>
    have hsame : k.later 0 = k := by
      simp [later]
    rw [hsame]
    exact ⟨[], .start⟩
  | succ ticks ih =>
    obtain ⟨history, hrun⟩ := ih
    have hstep := step_tickOf (k := k.later ticks) hif
    rw [tickOf_later hready hsleep hif hist] at hstep
    exact ⟨_, hrun.next (hok _ _) hstep⟩

/-- A hundred ticks before the tick count wraps around. -/
def lastTicks : Kernel := alone.later (2 ^ 64 - 102)

/-- There the call times out at once, without a single tick. -/
theorem disk_wait_cut_short :
    (∃ history, KernelRun (DiskDiscipline 0) Boot.zero history lastTicks) ∧
    lastTicks.MayCall (.waitInterrupt true) ∧
    (lastTicks.mutex 0).pid = lastTicks.getRunningPid ∧
    lastTicks.sched.interruptFlag = true ∧
    (lastTicks.waitInterrupt true fun _ => 0).1 = some false ∧
    ¬ lastTicks.WaitProtocol 0 true fun _ => 0 := by
  have hif : lastTicks.sched.interruptFlag = true :=
    show alone.sched.interruptFlag = true by decide +kernel
  have hwrap : ¬ (lastTicks.sched.tickCount.toNat + waitTicks < 2 ^ 64 ∨
      lastTicks.interruptOccur true = true) := by decide +kernel
  refine ⟨?_, ?_, ?_, hif, waitInterrupt_expired hif hwrap _, not_waitProtocol hif hwrap _⟩
  · obtain ⟨past, hrun⟩ := alone_run
    have hist : ∀ r, alone.sched.ist r = withIf (fun _ => 0) true r := by decide +kernel
    obtain ⟨history, hlater⟩ := later_run (k := alone) (DiskDiscipline 0)
      (fun _ _ => trivial) (by decide +kernel) (by decide +kernel) (by decide +kernel)
      (funext hist) (2 ^ 64 - 102)
    exact ⟨past ++ history, hrun.trans hlater⟩
  · show alone.MayCall (.waitInterrupt true)
    decide +kernel
  · show (alone.mutex 0).pid = alone.getRunningPid
    decide +kernel

end Kernel
end SkhuOS
