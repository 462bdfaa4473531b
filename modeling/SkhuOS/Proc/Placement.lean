import Mathlib.Data.List.Nodup
import SkhuOS.Proc.Settled
import SkhuOS.Proc.System

/-! The placement invariant of the kernel: in every reachable state each allocated
process is where its state says, and in one place only. -/
namespace SkhuOS
open Foundation

/-- The list a process blocks in, by the call it blocks inside. -/
def ResumePoint.list : ResumePoint → Option ListName
  | .sleepProcess _ => some .sleepList
  | .waitInterrupt _ _ => some .sleepList
  | .acquireLock m _ => some (.waitList m)
  | .code | .schedule _ | .getKey _ | .garbageProcessCollector _ => none
  | .exitProcess | .createProcess => none

/-- The calls that block. -/
def ResumePoint.Blocks : ResumePoint → Prop
  | .sleepProcess _ | .waitInterrupt _ _ | .acquireLock _ _ => True
  | .getKey _ | .garbageProcessCollector _ => True
  | .code | .schedule _ | .exitProcess | .createProcess => False

namespace Kernel

def roles (k : Kernel) : Roles where
  member p := k.allocProcessTable p = true ∧ p ≠ k.sched.idleProcess
  idle := k.sched.idleProcess
  blocks p := (k.resumePoint p).Blocks
  waits p := (k.resumePoint p).list
  exited p := k.resumePoint p = .exitProcess
  idle_out := fun h => h.2 rfl
  waits_ne p := by cases k.resumePoint p <;> simp [ResumePoint.list]

/-- What holds between two steps. The waiters registered with the drivers are inside
the calls that registered them, and the exit queue names exited processes. -/
structure Valid (k : Kernel) : Prop where
  settled : k.sched.Settled k.roles
  alloc_lt : ∀ p, k.allocProcessTable p = true → p < processMaxCount
  pid_le : k.pidCountIdx ≤ processMaxCount
  idle_code : k.allocProcessTable k.sched.idleProcess = true ∧
    k.resumePoint k.sched.idleProcess = .code
  shell : k.roles.member 0 ∧ ¬ k.roles.exited 0
  collector : ∃ c, k.collectorProcess = some c ∧ k.roles.member c ∧
    (k.resumePoint c = .code ∨ ∃ preIf, k.resumePoint c = .garbageProcessCollector preIf)
  keyWaiter : ∀ p, k.keyWaiter = some p →
    k.roles.member p ∧ ∃ preIf, k.resumePoint p = .getKey preIf
  diskWaiter : ∀ isPrimary p, k.diskWaiter isPrimary = some p →
    k.roles.member p ∧ ∃ deadline, k.resumePoint p = .waitInterrupt isPrimary deadline
  queue : k.exitProcessQueue.WellFormed ∧ k.exitProcessQueue.len = exitQueueCount ∧
    k.exitProcessQueue.dataSize = 4
  queued : (k.exitProcessQueue.contents pidAt).Nodup ∧
    ∀ p ∈ k.exitProcessQueue.contents pidAt, k.roles.member p ∧ k.roles.exited p

variable {k k' : Kernel} {p : ℕ}

namespace Valid

theorem frame (h : k.Valid) (hs : k'.sched.Settled k.roles) (hpoint : k'.resumePoint = k.resumePoint)
    (halloc : k'.allocProcessTable = k.allocProcessTable)
    (hcol : k'.collectorProcess = k.collectorProcess) (hkey : k'.keyWaiter = k.keyWaiter)
    (hdisk : k'.diskWaiter = k.diskWaiter) (hqueue : k'.exitProcessQueue = k.exitProcessQueue)
    (hpid : k'.pidCountIdx = k.pidCountIdx) : k'.Valid := by
  have hidle : k'.sched.idleProcess = k.sched.idleProcess := hs.plan.idle_eq
  have hroles : k'.roles = k.roles := by simp only [roles, hpoint, halloc, hidle]
  constructor
  · rw [hroles]; exact hs
  · rw [halloc]; exact h.alloc_lt
  · rw [hpid]; exact h.pid_le
  · rw [halloc, hidle, hpoint]; exact h.idle_code
  · rw [hroles]; exact h.shell
  · rw [hcol, hroles, hpoint]; exact h.collector
  · rw [hkey, hroles, hpoint]; exact h.keyWaiter
  · rw [hdisk, hroles, hpoint]; exact h.diskWaiter
  · rw [hqueue]; exact h.queue
  · rw [hqueue, hroles]; exact h.queued

/-- Only the scheduler changes, and keeps the places. -/
theorem of_sched (h : k.Valid) {s : Scheduler} (hs : s.Settled k.roles) : { k with sched := s }.Valid :=
  h.frame hs rfl rfl rfl rfl rfl rfl rfl

theorem setIf (h : k.Valid) (interrupt : Bool) : (k.setIf interrupt).2.Valid :=
  h.of_sched (h.settled.congr rfl rfl rfl)

theorem running_member (h : k.Valid) (hrun : k.sched.runningProcess ≠ k.sched.idleProcess) :
    k.roles.member k.sched.runningProcess := h.settled.running_mem hrun

theorem running_alloc (h : k.Valid) : k.allocProcessTable k.sched.runningProcess = true := by
  by_cases hidle : k.sched.runningProcess = k.sched.idleProcess
  · rw [hidle]
    exact h.idle_code.1
  · exact (h.running_member hidle).1

theorem running_not_exited (h : k.Valid) : ¬ k.roles.exited k.sched.runningProcess := by
  by_cases hrun : k.sched.runningProcess = k.sched.idleProcess
  · show ¬ k.resumePoint _ = _
    rw [hrun, h.idle_code.2]
    simp
  · rw [← h.settled.plan.placed.exit_iff _ (h.running_member hrun)]
    intro he
    have hs : k.sched.plan.states k.sched.runningProcess = .running := h.settled.running_state hrun
    simp [hs] at he

/-- The running process moves to another point of its program. -/
theorem setResumePoint (h : k.Valid) (point : ResumePoint) (hpoint : point ≠ .exitProcess)
    (hrun : k.sched.runningProcess ≠ k.sched.idleProcess)
    (hcol : k.collectorProcess = some k.sched.runningProcess →
      point = .code ∨ ∃ preIf, point = .garbageProcessCollector preIf)
    (hkey : k.keyWaiter ≠ some k.sched.runningProcess)
    (hdisk : ∀ isPrimary, k.diskWaiter isPrimary ≠ some k.sched.runningProcess) :
    (k.setResumePoint k.sched.runningProcess point).Valid := by
  set r := k.sched.runningProcess with hr
  have hother {q : ℕ} (hq : q ≠ r) : (k.setResumePoint r point).resumePoint q = k.resumePoint q := by
    simp [Kernel.setResumePoint, hq]
  have hself : (k.setResumePoint r point).resumePoint r = point := by simp [Kernel.setResumePoint]
  have hoff : k.roles.AgreeOff (k.setResumePoint r point).roles r :=
    ⟨rfl, rfl, fun q hq => by simp only [roles, hother hq], fun q hq => by simp only [roles, hother hq],
      fun q hq => by simp only [roles, hother hq]⟩
  refine ⟨h.settled.congr_off hoff ?_, h.alloc_lt, h.pid_le, ⟨h.idle_code.1, ?_⟩, ⟨h.shell.1, ?_⟩, ?_, ?_, ?_,
    h.queue, ⟨h.queued.1, fun q hq => ⟨(h.queued.2 q hq).1, ?_⟩⟩⟩
  · show ¬ (k.setResumePoint r point).resumePoint r = _
    rwa [hself]
  · exact (hother (Ne.symm hrun)).trans h.idle_code.2
  · by_cases h0 : 0 = r
    · show ¬ (k.setResumePoint r point).resumePoint 0 = _
      rw [h0, hself]; exact hpoint
    · rw [hoff.exited 0 h0]; exact h.shell.2
  · obtain ⟨c, hc, hmem, hat⟩ := h.collector
    refine ⟨c, hc, hmem, ?_⟩
    by_cases hcr : c = r
    · subst hcr; rw [hself]; exact hcol hc
    · rw [hother hcr]; exact hat
  · intro q hq
    rw [hother fun he => hkey (he ▸ hq)]
    exact h.keyWaiter q hq
  · intro c q hq
    rw [hother fun he => hdisk c (he ▸ hq)]
    exact h.diskWaiter c q hq
  · have hexit := (h.queued.2 q hq).2
    have hqr : q ≠ r := by rintro rfl; exact h.running_not_exited hexit
    exact (hoff.exited q hqr).mpr hexit

/-- No driver waits for a process that is outside the driver's call. -/
theorem not_keyWaiter (h : k.Valid) {point : ResumePoint} (hat : k.resumePoint p = point)
    (hpoint : ∀ preIf, point ≠ .getKey preIf) : k.keyWaiter ≠ some p := by
  intro hw
  obtain ⟨-, b, hb⟩ := h.keyWaiter p hw
  exact hpoint b (hat.symm.trans hb)

theorem not_diskWaiter (h : k.Valid) {point : ResumePoint} (hat : k.resumePoint p = point)
    {isPrimary : Bool} (hpoint : ∀ deadline, point ≠ .waitInterrupt isPrimary deadline) :
    k.diskWaiter isPrimary ≠ some p := by
  intro hw
  obtain ⟨-, d, hd⟩ := h.diskWaiter isPrimary p hw
  exact hpoint d (hat.symm.trans hd)

theorem not_collector (h : k.Valid) {point : ResumePoint} (hat : k.resumePoint p = point)
    (hcode : point ≠ .code) (hpoint : ∀ preIf, point ≠ .garbageProcessCollector preIf) :
    k.collectorProcess ≠ some p := by
  intro hw
  obtain ⟨c, hc, -, hc'⟩ := h.collector
  obtain rfl : c = p := Option.some.inj (hc.symm.trans hw)
  rcases hc' with hc' | ⟨b, hc'⟩
  · exact hcode (hat.symm.trans hc')
  · exact hpoint b (hat.symm.trans hc')

/-- A caller that may make calls enters one of them. -/
theorem enter (h : k.Valid) (point : ResumePoint) {c : Call} (hmay : k.MayCall c)
    (hpoint : point ≠ .exitProcess) : (k.setResumePoint k.sched.runningProcess point).Valid := by
  obtain ⟨hcode, hidle, hcol, -⟩ := hmay
  exact h.setResumePoint point hpoint hidle (fun he => absurd he.symm hcol)
    (h.not_keyWaiter hcode (by simp)) fun _ => h.not_diskWaiter hcode (by simp)

theorem sleepProcess (h : k.Valid) {c : Call} (hmay : k.MayCall c) (ms : QWORD)
    (regs : ProcessContext) : (k.sleepProcess ms regs).Valid := by
  have hset := (h.setIf false).enter (.sleepProcess (k.setIf false).1) hmay (by simp)
  refine hset.of_sched (hset.settled.sleepUntilTick hmay.2.1 ?_ ?_ _ _)
  · simp [roles, Kernel.setResumePoint, ResumePoint.Blocks]
  · simp [roles, Kernel.setResumePoint, ResumePoint.list]

theorem setMutex (h : k.Valid) (m : ℕ) (mutex : Mutex) : (k.setMutex m mutex).Valid :=
  h.frame h.settled rfl rfl rfl rfl rfl rfl rfl

theorem acquireLock (h : k.Valid) {c : Call} (hmay : k.MayCall c) (m : ℕ) (regs : ProcessContext) :
    (k.acquireLock m regs).Valid := by
  have hoff := h.setIf false
  simp only [Kernel.acquireLock]
  split
  · exact (hoff.setMutex m _).setIf _
  · split
    · exact (hoff.setMutex m _).setIf _
    · have hset := hoff.enter (.acquireLock m (k.setIf false).1) hmay (by simp)
      refine hset.of_sched (hset.settled.block_in (.waitList m) hmay.2.1 ?_ ?_ _)
      · simp [roles, Kernel.setResumePoint, Kernel.setIf, Scheduler.setIf, ResumePoint.Blocks]
      · simp [roles, Kernel.setResumePoint, Kernel.setIf, Scheduler.setIf, ResumePoint.list]

theorem releaseLock (h : k.Valid) (m : ℕ) : (k.releaseLock m).Valid := by
  have hoff := h.setIf false
  simp only [Kernel.releaseLock]
  split
  · exact hoff.setIf _
  · split
    · split
      next s heq =>
        refine Valid.setIf ?_ _
        exact h.frame (hoff.settled.headRemove_none heq) rfl rfl rfl rfl rfl rfl rfl
      next next s heq =>
        refine Valid.setIf ?_ _
        exact h.frame (hoff.settled.wakeup_first (by simp) heq) rfl rfl rfl rfl rfl rfl rfl
    · exact (hoff.setMutex m _).setIf _

theorem getKeyLoop (h : k.Valid) (hrun : k.sched.runningProcess ≠ k.sched.idleProcess)
    (hcol : some k.sched.runningProcess ≠ k.collectorProcess)
    (hkey : k.keyWaiter ≠ some k.sched.runningProcess)
    (hdisk : ∀ isPrimary, k.diskWaiter isPrimary ≠ some k.sched.runningProcess) (preIf : Bool)
    (regs : ProcessContext) : (k.getKeyLoop preIf regs).2.Valid := by
  simp only [Kernel.getKeyLoop]
  split
  · refine Valid.setIf ?_ _
    have hset := h.setResumePoint .code (by simp) hrun (fun _ => .inl rfl) hkey hdisk
    exact hset.frame hset.settled rfl rfl rfl rfl rfl rfl rfl
  · have hset := h.setResumePoint (.getKey preIf) (by simp) hrun
      (fun he => absurd he.symm hcol) hkey hdisk
    set k1 := k.setResumePoint k.sched.runningProcess (.getKey preIf) with hk1
    have hat : k1.resumePoint k.sched.runningProcess = .getKey preIf := by
      simp [hk1, Kernel.setResumePoint]
    have hwait : { k1 with keyWaiter := some k.sched.runningProcess }.Valid :=
      { settled := hset.settled, alloc_lt := hset.alloc_lt, pid_le := hset.pid_le,
        idle_code := hset.idle_code, shell := hset.shell, collector := hset.collector, diskWaiter := hset.diskWaiter,
        queue := hset.queue, queued := hset.queued
        keyWaiter := fun p hp => by
          obtain rfl : k.sched.runningProcess = p := Option.some.inj hp
          exact ⟨hset.running_member hrun, preIf, hat⟩ }
    refine hwait.of_sched (hwait.settled.blockRunningProcess ?_ ?_ hwait.running_not_exited _)
    · show (k1.resumePoint k.sched.runningProcess).list = none
      rw [hat]
      rfl
    · show (k1.resumePoint k.sched.runningProcess).Blocks
      rw [hat]
      trivial

theorem getKey (h : k.Valid) {c : Call} (hmay : k.MayCall c) (regs : ProcessContext) :
    (k.getKey regs).2.Valid := by
  exact (h.setIf false).getKeyLoop hmay.2.1 hmay.2.2.1 (h.not_keyWaiter hmay.1 (by simp))
    (fun _ => h.not_diskWaiter hmay.1 (by simp)) _ _

theorem getQueue (h : k.Valid) : k.getQueue.2.Valid :=
  h.frame (h.settled.congr rfl rfl rfl) rfl rfl rfl rfl rfl rfl rfl

theorem waitLoop (h : k.Valid) (hrun : k.sched.runningProcess ≠ k.sched.idleProcess)
    (hcol : some k.sched.runningProcess ≠ k.collectorProcess)
    (hkey : k.keyWaiter ≠ some k.sched.runningProcess)
    (hdisk : ∀ isPrimary, k.diskWaiter isPrimary ≠ some k.sched.runningProcess) (isPrimary : Bool)
    (deadline : QWORD) (regs : ProcessContext) : (k.waitLoop isPrimary deadline regs).2.Valid := by
  have hcode := h.setResumePoint .code (by simp) hrun (fun _ => .inl rfl) hkey hdisk
  simp only [Kernel.waitLoop]
  split
  · exact hcode.setIf _
  · split
    · exact hcode.setIf _
    · have hset := h.setResumePoint (.waitInterrupt isPrimary deadline) (by simp) hrun
        (fun he => absurd he.symm hcol) hkey hdisk
      set k1 := k.setResumePoint k.sched.runningProcess (.waitInterrupt isPrimary deadline) with hk1
      have hat : k1.resumePoint k.sched.runningProcess = .waitInterrupt isPrimary deadline := by
        simp [hk1, Kernel.setResumePoint]
      have hwait : { k1 with
          diskWaiter := Function.update k.diskWaiter isPrimary (some k.sched.runningProcess)
          }.Valid :=
        { settled := hset.settled, alloc_lt := hset.alloc_lt, pid_le := hset.pid_le,
          idle_code := hset.idle_code, shell := hset.shell, collector := hset.collector, keyWaiter := hset.keyWaiter,
          queue := hset.queue, queued := hset.queued
          diskWaiter := fun channel p hp => by
            by_cases hc : channel = isPrimary
            · subst hc
              obtain rfl : k.sched.runningProcess = p := by simpa using hp
              exact ⟨hset.running_member hrun, deadline, hat⟩
            · have hwas : k.diskWaiter channel = some p := by simpa [hc] using hp
              exact hset.diskWaiter channel p hwas }
      refine hwait.of_sched (hwait.settled.sleepUntilTick hrun ?_ ?_ _ _)
      · show (k1.resumePoint k.sched.runningProcess).Blocks
        rw [hat]
        trivial
      · show (k1.resumePoint k.sched.runningProcess).list = _
        rw [hat]
        rfl

theorem waitInterrupt (h : k.Valid) {c : Call} (hmay : k.MayCall c) (isPrimary : Bool)
    (regs : ProcessContext) : (k.waitInterrupt isPrimary regs).2.Valid := by
  simp only [Kernel.waitInterrupt]
  split
  · exact h.setIf false
  · exact (h.setIf false).waitLoop hmay.2.1 hmay.2.2.1 (h.not_keyWaiter hmay.1 (by simp))
      (fun _ => h.not_diskWaiter hmay.1 (by simp)) _ _ _

theorem schedule (h : k.Valid) {c : Call} (hmay : k.MayCall c) (regs : ProcessContext) :
    (k.schedule regs).Valid := by
  simp only [Kernel.schedule]
  split
  · exact (h.setIf false).setIf _
  · have hset := (h.setIf false).enter (.schedule (k.setIf false).1) hmay (by simp)
    exact hset.of_sched (hset.settled.yieldTo hmay.2.1 regs)

theorem collector_place (h : k.Valid) (p : ℕ) (hp : k.collectorProcess = some p) :
    k.roles.member p ∧ (k.roles.waits p = none ∨ k.roles.waits p = some .sleepList) := by
  obtain ⟨c, hc, hmem, hat⟩ := h.collector
  obtain rfl : c = p := Option.some.inj (hc.symm.trans hp)
  refine ⟨hmem, .inl ?_⟩
  rcases hat with hat | ⟨b, hat⟩ <;> simp [roles, hat, ResumePoint.list]

theorem keyWaiter_place (h : k.Valid) (p : ℕ) (hp : k.keyWaiter = some p) :
    k.roles.member p ∧ (k.roles.waits p = none ∨ k.roles.waits p = some .sleepList) := by
  obtain ⟨hmem, b, hat⟩ := h.keyWaiter p hp
  exact ⟨hmem, .inl (by simp [roles, hat, ResumePoint.list])⟩

theorem diskWaiter_place (h : k.Valid) (isPrimary : Bool) (p : ℕ)
    (hp : k.diskWaiter isPrimary = some p) :
    k.roles.member p ∧ (k.roles.waits p = none ∨ k.roles.waits p = some .sleepList) := by
  obtain ⟨hmem, d, hat⟩ := h.diskWaiter isPrimary p hp
  exact ⟨hmem, .inr (by simp [roles, hat, ResumePoint.list])⟩

theorem exitProcess (h : k.Valid) (hmay : k.MayCall .exitProcess) (regs : ProcessContext) :
    (k.exitProcess regs).Valid := by
  obtain ⟨hcode, hidle, hcol, hshell⟩ := hmay
  have hkey := h.not_keyWaiter hcode (by simp)
  have hdisk (isPrimary : Bool) : k.diskWaiter isPrimary ≠ some k.sched.runningProcess :=
    h.not_diskWaiter hcode (by simp)
  set cur := k.sched.runningProcess with hcur
  have hmember : k.roles.member cur := h.running_member hidle
  -- the roles behind the switch: `cur` has exited
  set k2 := k.setResumePoint cur .exitProcess with hk2
  have hother {q : ℕ} (hq : q ≠ cur) : k2.resumePoint q = k.resumePoint q := by
    simp [hk2, Kernel.setResumePoint, hq]
  have hself : k2.roles.exited cur := by simp [hk2, roles, Kernel.setResumePoint]
  have hoff : k.roles.AgreeOff k2.roles cur :=
    ⟨rfl, rfl, fun q hq => by simp only [roles, hother hq], fun q hq => by simp only [roles, hother hq],
      fun q hq => by simp only [roles, hother hq]⟩
  have hwoken : (k.setIf false).2.sched.Settled k.roles := h.settled.congr rfl rfl rfl
  have hwoken := hwoken.wakeupProcess k.collectorProcess h.collector_place
  have hrunning : ((k.setIf false).2.sched.wakeupProcess k.collectorProcess).2.runningProcess = cur := by
    cases k.collectorProcess with
    | none => rfl
    | some c => simp only [Scheduler.wakeupProcess]; split <;> rfl
  have hsettled := hwoken.exit_running
    (show k.roles.AgreeOff k2.roles _ by rwa [hrunning]) (by rwa [hrunning]) regs
  rw [hrunning] at hsettled
  have hroles : (k.exitProcess regs).roles = k2.roles := by
    have hi : (k.exitProcess regs).sched.idleProcess = k.sched.idleProcess := hsettled.plan.idle_eq
    simp only [roles, hi]
    rfl
  have hqueued (q : ℕ) (hq : q ∈ k.exitProcessQueue.contents pidAt) : q ≠ cur := by
    rintro rfl
    exact h.running_not_exited (h.queued.2 _ hq).2
  have hid : (k.sched.link cur).id = cur := h.settled.running_id hidle
  refine ⟨by rw [hroles]; exact hsettled, h.alloc_lt, h.pid_le, ?_, ?_, ?_, ?_, ?_, ?_, ?_⟩
  · have hi : (k.exitProcess regs).sched.idleProcess = k.sched.idleProcess := hsettled.plan.idle_eq
    rw [hi]
    exact ⟨h.idle_code.1, (hother (Ne.symm hidle)).trans h.idle_code.2⟩
  · rw [hroles]
    exact ⟨h.shell.1, fun he => h.shell.2 ((hoff.exited 0 (Ne.symm (hshell rfl))).mp he)⟩
  · obtain ⟨c, hc, hmem, hat⟩ := h.collector
    have hne : c ≠ cur := fun he => hcol (he ▸ hc.symm)
    exact ⟨c, hc, by rw [hroles]; exact hmem, by
      show k2.resumePoint c = _ ∨ ∃ _, k2.resumePoint c = _
      rw [hother hne]; exact hat⟩
  · intro q hq
    obtain ⟨hmem, hat⟩ := h.keyWaiter q hq
    have hne : q ≠ cur := fun he => hkey (he ▸ hq)
    exact ⟨by rw [hroles]; exact hmem, by
      show ∃ _, k2.resumePoint q = _
      rw [hother hne]; exact hat⟩
  · intro channel q hq
    obtain ⟨hmem, hat⟩ := h.diskWaiter channel q hq
    have hne : q ≠ cur := fun he => hdisk channel (he ▸ hq)
    exact ⟨by rw [hroles]; exact hmem, by
      show ∃ _, k2.resumePoint q = _
      rw [hother hne]; exact hat⟩
  · exact ⟨enQueue_wellFormed h.queue.1, (enQueue_len _ _).1.trans h.queue.2.1,
      (enQueue_len _ _).2.trans h.queue.2.2⟩
  · have hlt : cur < 2 ^ 31 := by
      have := h.alloc_lt cur hmember.1
      simp only [processMaxCount] at this
      omega
    have hqueue : (k.exitProcess regs).exitProcessQueue.contents pidAt =
        if queueIsFull k.exitProcessQueue then k.exitProcessQueue.contents pidAt
        else k.exitProcessQueue.contents pidAt ++ [cur] := by
      rw [← enQueue_pid h.queue.1 h.queue.2.2 hlt, ← hid]
      rfl
    have hold (q : ℕ) (hq : q ∈ k.exitProcessQueue.contents pidAt) :
        k2.roles.member q ∧ k2.roles.exited q :=
      ⟨(h.queued.2 q hq).1, (hoff.exited q (hqueued q hq)).mpr (h.queued.2 q hq).2⟩
    rw [hroles, hqueue]
    split
    · exact ⟨h.queued.1, hold⟩
    · refine ⟨List.nodup_append.mpr ⟨h.queued.1, by simp, fun a ha b hb => ?_⟩, fun q hq => ?_⟩
      · rw [List.mem_singleton.mp hb]
        exact hqueued a ha
      · rcases List.mem_append.mp hq with hq | hq
        · exact hold q hq
        · rw [List.mem_singleton.mp hq]
          exact ⟨hmember, hself⟩

end Valid

/-- What the slot search finds is free and in the table, as long as slot 0 is in use. -/
theorem findSlot_spec {table : ℕ → Bool} (h0 : table 0 = true) (fuel : ℕ) {idx : ℕ}
    (hidx : idx ≤ processMaxCount) : (findSlot table fuel idx).2 ≤ processMaxCount ∧
      ((findSlot table fuel idx).1 = true → table (findSlot table fuel idx).2 = false ∧
        (findSlot table fuel idx).2 < processMaxCount) := by
  have hhere {idx : ℕ} (hidx : idx ≤ processMaxCount) (hfree : table (idx % processMaxCount) = false) :
      table idx = false ∧ idx < processMaxCount := by
    rcases Nat.lt_or_eq_of_le hidx with hlt | heq
    · rw [Nat.mod_eq_of_lt hlt] at hfree
      exact ⟨hfree, hlt⟩
    · rw [heq, Nat.mod_self, h0] at hfree
      cases hfree
  induction fuel generalizing idx with
  | zero => exact ⟨hidx, fun hf => hhere hidx (by simpa [findSlot] using hf)⟩
  | succ fuel ih =>
    simp only [findSlot]
    split
    · exact ih (Nat.mod_lt _ (by decide)).le
    next hfree => exact ⟨hidx, fun _ => hhere hidx (by simpa using hfree)⟩

namespace Valid

/-- A free slot of the table becomes a ready process. -/
theorem createAt (h : k.Valid) (hfree : k.allocProcessTable p = false) (hp : p < processMaxCount)
    (entryPoint arg : QWORD) : (k.createAt p entryPoint arg).Valid := by
  set k' := k.createAt p entryPoint arg with hk'
  have hne {q : ℕ} (hq : k.allocProcessTable q = true) : q ≠ p := by
    rintro rfl
    rw [hfree] at hq
    cases hq
  have hidle : p ≠ k.sched.idleProcess := (hne h.idle_code.1).symm
  have hrun : p ≠ k.sched.runningProcess := by
    by_cases hri : k.sched.runningProcess = k.sched.idleProcess
    · rwa [hri]
    · exact (hne (h.running_member hri).1).symm
  have hpoint {q : ℕ} (hq : q ≠ p) : k'.resumePoint q = k.resumePoint q := by
    simp [hk', Kernel.createAt, hq]
  have halloc {q : ℕ} (hq : q ≠ p) : k'.allocProcessTable q = k.allocProcessTable q := by
    simp [hk', Kernel.createAt, hq]
  have hsettled : k'.sched.Settled k'.roles := by
    refine h.settled.addProcess k'.roles (fun hm => absurd hm.1 (by simp [hfree])) hrun (fun q => ?_) rfl
      (fun q hq => by simp only [roles, hpoint hq]) (fun q hq => by simp only [roles, hpoint hq])
      (fun q hq => by simp only [roles, hpoint hq]) (by simp [roles, hk', Kernel.createAt]) entryPoint arg
    by_cases hq : q = p
    · subst hq
      show (k'.allocProcessTable q = true ∧ q ≠ k.sched.idleProcess) ↔ _
      simp [hk', Kernel.createAt, hidle]
    · show (k'.allocProcessTable q = true ∧ q ≠ k.sched.idleProcess) ↔ _
      rw [halloc hq]
      simp [roles, hq]
  have hmem {q : ℕ} (hq : k.roles.member q) : k'.roles.member q :=
    ⟨(halloc (hne hq.1)).trans hq.1, hq.2⟩
  have hexit {q : ℕ} (hq : q ≠ p) : k'.roles.exited q ↔ k.roles.exited q := by
    simp only [roles, hpoint hq]
  refine ⟨hsettled, fun q hq => ?_, hp, ⟨?_, ?_⟩, ⟨hmem h.shell.1, ?_⟩, ?_, fun q hq => ?_,
    fun channel q hq => ?_, h.queue, h.queued.1, fun q hq => ?_⟩
  · by_cases hqp : q = p
    · rwa [hqp]
    · exact h.alloc_lt q ((halloc hqp).symm.trans hq)
  · exact (halloc hidle.symm).trans h.idle_code.1
  · exact (hpoint hidle.symm).trans h.idle_code.2
  · exact fun he => h.shell.2 ((hexit (hne h.shell.1.1)).mp he)
  · obtain ⟨c, hc, hcm, hat⟩ := h.collector
    exact ⟨c, hc, hmem hcm, by rw [hpoint (hne hcm.1)]; exact hat⟩
  · obtain ⟨hm, hat⟩ := h.keyWaiter q hq
    exact ⟨hmem hm, by rw [hpoint (hne hm.1)]; exact hat⟩
  · obtain ⟨hm, hat⟩ := h.diskWaiter channel q hq
    exact ⟨hmem hm, by rw [hpoint (hne hm.1)]; exact hat⟩
  · obtain ⟨hm, he⟩ := h.queued.2 q hq
    exact ⟨hmem hm, (hexit (hne hm.1)).mpr he⟩

theorem with_pidCountIdx (h : k.Valid) (hp : p ≤ processMaxCount) :
    { k with pidCountIdx := p }.Valid :=
  ⟨h.settled, h.alloc_lt, hp, h.idle_code, h.shell, h.collector, h.keyWaiter, h.diskWaiter,
    h.queue, h.queued⟩

theorem createProcess (h : k.Valid) (entryPoint arg : QWORD) :
    (k.createProcess entryPoint arg).2.Valid := by
  obtain ⟨hle, hfree⟩ := findSlot_spec h.shell.1.1 processMaxCount h.pid_le
  simp only [Kernel.createProcess]
  split
  next hfound =>
    obtain ⟨hfree, hlt⟩ := hfree hfound
    exact ((h.setIf false).createAt hfree hlt entryPoint arg).setIf _
  · exact (h.setIf false).with_pidCountIdx hle

theorem createUserProcess (h : k.Valid) (entryPoint arg : QWORD) :
    (k.createUserProcess entryPoint arg).2.Valid := by
  have hcreated := (h.setIf false).createProcess entryPoint arg
  simp only [Kernel.createUserProcess]
  split
  next k1 heq =>
    obtain rfl : _ = k1 := congrArg Prod.snd heq
    exact hcreated
  next p k1 heq =>
    obtain rfl : _ = k1 := congrArg Prod.snd heq
    refine Valid.setIf ?_ _
    exact hcreated.frame (hcreated.settled.congr rfl rfl (Scheduler.modifyPcb_plan rfl)) rfl rfl rfl
      rfl rfl rfl rfl

theorem copyImage (h : k.Valid) (image : Bytes) (size : ℕ) : (k.copyImage image size).Valid :=
  h.frame h.settled rfl rfl rfl rfl rfl rfl rfl

theorem runUserProgram (h : k.Valid) (image : Bytes) (size : ℕ) (arg : QWORD) :
    (k.runUserProgram image size arg).2.Valid := by
  simp only [Kernel.runUserProgram]
  split
  · exact h
  · have hcreated := ((h.setIf false).copyImage image size).createUserProcess (BitVec.ofNat 64 userCodeAddress) arg
    split
    next k1 heq =>
      obtain rfl : _ = k1 := congrArg Prod.snd heq
      exact hcreated
    next p k1 heq =>
      obtain rfl : _ = k1 := congrArg Prod.snd heq
      exact hcreated.setIf _

/-- The pid the collector takes is the oldest one of the queue. -/
theorem deQueue_pid (h : k.Valid) (hempty : ¬ queueIsEmpty k.exitProcessQueue = true) :
    k.exitProcessQueue.contents pidAt =
      pidAt (deQueue k.exitProcessQueue fun _ => 0).2.1 0 ::
        (deQueue k.exitProcessQueue fun _ => 0).2.2.contents pidAt :=
  (deQueue_contents _ h.queue.1 (h.queue.2.2 ▸ blockRead_pidAt) (by simpa using hempty)).2

/-- The slot of an exited process is free again. -/
theorem reclaim (h : k.Valid) {queue : Queue} (hwf : queue.WellFormed)
    (hlen : queue.len = exitQueueCount ∧ queue.dataSize = 4)
    (hcontents : k.exitProcessQueue.contents pidAt = p :: queue.contents pidAt)
    (page : ℕ → PtEntry) :
    ({ k with
      exitProcessQueue := queue
      allocProcessTable := Function.update k.allocProcessTable p false
      page := page } : Kernel).Valid := by
  have hqueued := h.queued
  rw [hcontents, List.nodup_cons] at hqueued
  obtain ⟨⟨hfresh, hnodup⟩, hall⟩ := hqueued
  obtain ⟨hpm, hpe⟩ := hall p (by simp)
  set k' : Kernel := { k with
      exitProcessQueue := queue
      allocProcessTable := Function.update k.allocProcessTable p false
      page := page } with hk'
  have hmem {q : ℕ} (hq : k.roles.member q) (hqp : q ≠ p) : k'.roles.member q :=
    ⟨by simpa [hk', hqp] using hq.1, hq.2⟩
  have hpoint {q : ℕ} {point : ResumePoint} (hat : k.resumePoint q = point)
      (hne : point ≠ .exitProcess) : q ≠ p := by
    rintro rfl
    exact hne (hat.symm.trans hpe)
  have hroles : k'.roles.member = fun q => k.roles.member q ∧ q ≠ p := by
    funext q
    by_cases hqp : q = p
    · subst hqp; simp [roles, hk']
    · simp [roles, hk', hqp]
  have hrun : p ≠ k.sched.runningProcess := by
    rintro rfl
    exact h.running_not_exited hpe
  refine ⟨h.settled.leave ((h.settled.plan.placed.exit_iff p hpm).mpr hpe) hrun hroles rfl rfl rfl
      rfl,
    fun q hq => ?_, h.pid_le, ⟨?_, h.idle_code.2⟩, ⟨hmem h.shell.1 ?_, h.shell.2⟩, ?_, ?_, ?_,
    ⟨hwf, hlen⟩, hnodup, fun q hq => ?_⟩
  · by_cases hqp : q = p
    · exact hqp ▸ h.alloc_lt p hpm.1
    · exact h.alloc_lt q (by simpa [hk', hqp] using hq)
  · simpa [hk', hpm.2.symm] using h.idle_code.1
  · rintro rfl
    exact h.shell.2 hpe
  · obtain ⟨c, hc, hcm, hat⟩ := h.collector
    refine ⟨c, hc, hmem hcm ?_, hat⟩
    rcases hat with hat | ⟨b, hat⟩ <;> exact hpoint hat (by simp)
  · intro q hq
    obtain ⟨hm, b, hat⟩ := h.keyWaiter q hq
    exact ⟨hmem hm (hpoint hat (by simp)), b, hat⟩
  · intro channel q hq
    obtain ⟨hm, d, hat⟩ := h.diskWaiter channel q hq
    exact ⟨hmem hm (hpoint hat (by simp)), d, hat⟩
  · obtain ⟨hm, he⟩ := hall q (List.mem_cons_of_mem p hq)
    exact ⟨hmem hm (ne_of_mem_of_not_mem hq hfresh), he⟩

theorem collectLoop (h : k.Valid) (hrun : k.sched.runningProcess ≠ k.sched.idleProcess)
    (hkey : k.keyWaiter ≠ some k.sched.runningProcess)
    (hdisk : ∀ isPrimary, k.diskWaiter isPrimary ≠ some k.sched.runningProcess) (preIf : Bool)
    (regs : ProcessContext) : (k.collectLoop preIf regs).Valid := by
  simp only [Kernel.collectLoop]
  split
  · have hset := h.setResumePoint (.garbageProcessCollector preIf) (by simp) hrun
      (fun _ => .inr ⟨preIf, rfl⟩) hkey hdisk
    refine hset.of_sched (hset.settled.blockRunningProcess ?_ ?_ hset.running_not_exited _)
    · simp [roles, Kernel.setResumePoint, ResumePoint.list]
    · simp [roles, Kernel.setResumePoint, ResumePoint.Blocks]
  next hempty =>
    have hfreed := h.reclaim (deQueue_wellFormed h.queue.1)
      ⟨(deQueue_len _ _).1.trans h.queue.2.1, (deQueue_len _ _).2.trans h.queue.2.2⟩
      (h.deQueue_pid hempty)
    exact ((hfreed _).setResumePoint .code (by simp) hrun (fun _ => .inl rfl) hkey
      hdisk).setIf _

theorem interrupt (h : k.Valid) (frame : ProcessContext) {handler : Kernel → Kernel}
    (hhandler : ∀ k : Kernel, k.Valid → (handler k).Valid) : (k.interrupt frame handler).Valid := by
  have hentry : { k with sched := { k.sched with
      ist := withIf frame true, interruptFlag := false } }.Valid :=
    h.of_sched (h.settled.congr rfl rfl rfl)
  have hdone := hhandler _ hentry
  exact hdone.of_sched (hdone.settled.congr rfl rfl rfl)

theorem keyboardInterruptHandler (h : k.Valid) (scanCode : Option BYTE) :
    (k.keyboardInterruptHandler scanCode).Valid := by
  cases scanCode with
  | none => exact h
  | some scanCode =>
    simp only [Kernel.keyboardInterruptHandler, Kernel.inputQueue]
    split
    · refine Valid.setIf ?_ _
      have hoff : (k.setIf false).2.sched.Settled k.roles := (h.setIf false).settled
      exact h.frame (hoff.wakeupProcessInInterrupt _ h.keyWaiter_place) rfl rfl rfl rfl rfl rfl rfl
    · exact h.frame h.settled rfl rfl rfl rfl rfl rfl rfl

theorem diskInterruptHandler (h : k.Valid) (isPrimary : Bool) :
    (k.diskInterruptHandler isPrimary).Valid :=
  h.frame (h.settled.wakeupProcessInInterrupt _ (h.diskWaiter_place isPrimary))
    rfl rfl rfl rfl rfl rfl rfl

end Valid

/-- A creating call that fails has changed nothing a process can see. -/
def SameProcesses (k k' : Kernel) : Prop :=
  k'.resumePoint = k.resumePoint ∧ k'.sched.runningProcess = k.sched.runningProcess ∧
    k'.sched.idleProcess = k.sched.idleProcess ∧ k'.collectorProcess = k.collectorProcess

theorem createProcess_failed {entryPoint arg : QWORD}
    (hfail : (k.createProcess entryPoint arg).1 = none) :
    k.SameProcesses (k.createProcess entryPoint arg).2 := by
  simp only [Kernel.createProcess] at hfail ⊢
  split at hfail
  · simp at hfail
  next hfound => rw [if_neg hfound]; exact ⟨rfl, rfl, rfl, rfl⟩

theorem createUserProcess_failed {entryPoint arg : QWORD}
    (hfail : (k.createUserProcess entryPoint arg).1 = none) :
    k.SameProcesses (k.createUserProcess entryPoint arg).2 := by
  have hcreate : ((k.setIf false).2.createProcess entryPoint arg).1 = none := by
    simp only [Kernel.createUserProcess] at hfail
    split at hfail
    next k1 heq => rw [heq]
    next p k1 heq => simp at hfail
  have hsame := createProcess_failed hcreate
  simp only [Kernel.createUserProcess]
  split
  next k1 heq => rw [heq] at hsame; exact hsame
  next p k1 heq => rw [heq] at hcreate; simp at hcreate

theorem runUserProgram_failed {image : Bytes} {size : ℕ} {arg : QWORD}
    (hfail : (k.runUserProgram image size arg).1 = none) :
    k.SameProcesses (k.runUserProgram image size arg).2 := by
  simp only [Kernel.runUserProgram] at hfail ⊢
  split at hfail
  · simp at hfail
  next hsize =>
    rw [if_neg hsize]
    split at hfail
    next k1 heq =>
      have hsame := createUserProcess_failed (congrArg Prod.fst heq)
      rw [heq] at hsame
      exact hsame
    next p k1 heq => simp at hfail

namespace Valid

theorem orForever {α : Type} {c : Call} (hmay : k.MayCall c)
    {result : Option α × Kernel} (hvalid : result.2.Valid)
    (hfail : result.1 = none → k.SameProcesses result.2) : (Kernel.orForever result).Valid := by
  obtain ⟨value, k'⟩ := result
  cases value with
  | some _ => exact hvalid
  | none =>
    obtain ⟨hpoint, hrunning, hidle, hcol⟩ := hfail rfl
    refine hvalid.enter _ (c := c) ?_ (by simp)
    simp only [Kernel.MayCall] at hmay ⊢
    rw [hpoint, hrunning, hidle, hcol]
    exact hmay

/-- Every call keeps the invariant. -/
theorem runCall (h : k.Valid) {c : Call} (hmay : k.MayCall c) (regs : ProcessContext) :
    (k.runCall c regs).Valid := by
  cases c with
  | setIf interrupt => exact h.setIf interrupt
  | createProcess entryPoint arg =>
    exact orForever hmay (h.createProcess entryPoint arg) createProcess_failed
  | createUserProcess entryPoint arg =>
    exact orForever hmay (h.createUserProcess entryPoint arg) createUserProcess_failed
  | runUserProgram image size arg =>
    exact orForever hmay (h.runUserProgram image size arg) runUserProgram_failed
  | sleepProcess ms => exact h.sleepProcess hmay ms regs
  | acquireLock m => exact h.acquireLock hmay m regs
  | releaseLock m => exact h.releaseLock m
  | getKey => exact h.getKey hmay regs
  | getQueue => exact h.getQueue
  | clearDiskInterruptFlag isPrimary => exact h.frame h.settled rfl rfl rfl rfl rfl rfl rfl
  | waitInterrupt isPrimary => exact h.waitInterrupt hmay isPrimary regs
  | schedule => exact h.schedule hmay regs
  | exitProcess => exact h.exitProcess hmay regs

theorem clear_keyWaiter (h : k.Valid) : { k with keyWaiter := none }.Valid :=
  { h with keyWaiter := fun p hp => by simp at hp }

theorem clear_diskWaiter (h : k.Valid) (isPrimary : Bool) :
    { k with diskWaiter := Function.update k.diskWaiter isPrimary none }.Valid :=
  { settled := h.settled, alloc_lt := h.alloc_lt, pid_le := h.pid_le, idle_code := h.idle_code,
    shell := h.shell, collector := h.collector, keyWaiter := h.keyWaiter, queue := h.queue,
    queued := h.queued
    diskWaiter := fun channel p hp => by
      by_cases hc : channel = isPrimary
      · subst hc; simp at hp
      · exact h.diskWaiter channel p (by simpa [hc] using hp) }

/-- So does the rest of a call when its process runs again. -/
theorem resumeCall (h : k.Valid) {regs : ProcessContext}
    (hstep : k.resumeCall (k.resumePoint k.sched.runningProcess) regs = some k') : k'.Valid := by
  have hidle : k.resumePoint k.sched.runningProcess ≠ .code →
      k.sched.runningProcess ≠ k.sched.idleProcess := by
    intro hne he
    rw [he, h.idle_code.2] at hne
    exact hne rfl
  have hdone (preIf : Bool) (hne : k.resumePoint k.sched.runningProcess ≠ .code)
      (hkey : k.keyWaiter ≠ some k.sched.runningProcess)
      (hdisk : ∀ isPrimary, k.diskWaiter isPrimary ≠ some k.sched.runningProcess) :
      ((k.setResumePoint k.sched.runningProcess .code).setIf preIf).2.Valid :=
    (h.setResumePoint .code (by simp) (hidle hne) (fun _ => .inl rfl) hkey hdisk).setIf preIf
  cases hat : k.resumePoint k.sched.runningProcess with
  | code => simp [Kernel.resumeCall, hat] at hstep
  | exitProcess => simp [Kernel.resumeCall, hat] at hstep
  | createProcess => simp [Kernel.resumeCall, hat] at hstep
  | sleepProcess preIf =>
    simp only [Kernel.resumeCall, hat, Option.some.injEq] at hstep
    subst hstep
    exact hdone preIf (by simp [hat]) (h.not_keyWaiter hat (by simp))
      fun _ => h.not_diskWaiter hat (by simp)
  | schedule preIf =>
    simp only [Kernel.resumeCall, hat, Option.some.injEq] at hstep
    subst hstep
    exact hdone preIf (by simp [hat]) (h.not_keyWaiter hat (by simp))
      fun _ => h.not_diskWaiter hat (by simp)
  | acquireLock m preIf =>
    simp only [Kernel.resumeCall, hat, Option.some.injEq] at hstep
    subst hstep
    exact hdone preIf (by simp [hat]) (h.not_keyWaiter hat (by simp))
      fun _ => h.not_diskWaiter hat (by simp)
  | getKey preIf =>
    simp only [Kernel.resumeCall, hat, Option.some.injEq] at hstep
    subst hstep
    exact h.clear_keyWaiter.getKeyLoop (hidle (by simp [hat]))
      (h.not_collector hat (by simp) (by simp)).symm (by simp)
      (fun _ => h.not_diskWaiter hat (by simp)) preIf regs
  | waitInterrupt isPrimary deadline =>
    simp only [Kernel.resumeCall, hat, Option.some.injEq] at hstep
    subst hstep
    refine (h.clear_diskWaiter isPrimary).waitLoop (hidle (by simp [hat]))
      (h.not_collector hat (by simp) (by simp)).symm (h.not_keyWaiter hat (by simp))
      (fun channel hw => ?_) isPrimary deadline regs
    by_cases hc : channel = isPrimary
    · subst hc; simp at hw
    · have hpoint (d : QWORD) : ResumePoint.waitInterrupt isPrimary deadline ≠ .waitInterrupt channel d := by
        simpa using fun he => absurd he.symm hc
      exact h.not_diskWaiter hat hpoint (by simpa [hc] using hw)
  | garbageProcessCollector preIf =>
    simp only [Kernel.resumeCall, hat, Option.some.injEq] at hstep
    subst hstep
    exact h.collectLoop (hidle (by simp [hat])) (h.not_keyWaiter hat (by simp))
      (fun _ => h.not_diskWaiter hat (by simp)) preIf regs

theorem step (h : k.Valid) {a : Action} (hstep : k.step a = some k') : k'.Valid := by
  cases a with
  | timer frame =>
    simp only [Kernel.step, Option.ite_none_right_eq_some, Option.some.injEq] at hstep
    obtain ⟨-, rfl⟩ := hstep
    exact h.interrupt frame fun k hk => hk.of_sched hk.settled.timerInterruptHandler
  | keyboard scanCode frame =>
    simp only [Kernel.step, Option.ite_none_right_eq_some, Option.some.injEq] at hstep
    obtain ⟨-, rfl⟩ := hstep
    exact h.interrupt frame fun k hk => hk.keyboardInterruptHandler scanCode
  | disk isPrimary frame =>
    simp only [Kernel.step, Option.ite_none_right_eq_some, Option.some.injEq] at hstep
    obtain ⟨-, rfl⟩ := hstep
    exact h.interrupt frame fun k hk => hk.diskInterruptHandler isPrimary
  | call c regs =>
    simp only [Kernel.step, Option.ite_none_right_eq_some, Option.some.injEq] at hstep
    obtain ⟨hmay, rfl⟩ := hstep
    exact h.runCall hmay regs
  | resume regs => exact h.resumeCall hstep
  | collect regs =>
    simp only [Kernel.step, Option.ite_none_right_eq_some, Option.some.injEq] at hstep
    obtain ⟨⟨hcol, hcode⟩, rfl⟩ := hstep
    obtain ⟨c, hc, hcm, -⟩ := h.collector
    have hidle : k.sched.runningProcess ≠ k.sched.idleProcess := by
      rw [Option.some.inj (hcol.trans hc)]
      exact hcm.2
    exact (h.setIf false).collectLoop hidle (h.not_keyWaiter hcode (by simp))
      (fun _ => h.not_diskWaiter hcode (by simp)) _ regs

end Valid
theorem findSlot_free {table : ℕ → Bool} {idx : ℕ} (h : table (idx % processMaxCount) = false)
    (fuel : ℕ) : findSlot table fuel idx = (true, idx) := by
  cases fuel <;> simp [findSlot, h]

/-- `createProcess` when the slot its counter stands at is free. -/
theorem createProcess_free (h : k.allocProcessTable (k.pidCountIdx % processMaxCount) = false)
    (entryPoint arg : QWORD) : k.createProcess entryPoint arg = (some k.pidCountIdx,
      (((k.setIf false).2.createAt k.pidCountIdx entryPoint arg).setIf (k.setIf false).1).2) := by
  have hslot : findSlot (k.setIf false).2.allocProcessTable processMaxCount
      (k.setIf false).2.pidCountIdx = (true, k.pidCountIdx) := findSlot_free h _
  simp only [Kernel.createProcess, hslot, if_true]

end Kernel

namespace Boot
open Kernel

variable (b : Boot)

/-- The state in which `initScheduler` starts to create processes. -/
def shellOnly : Kernel := b.statics.initKeyboard.initRunningProcess

/-- The state behind the creation of the collector, process 1, and of idle, process 2. -/
def created : Kernel :=
  { b.shellOnly.createAt 1 b.collectorEntry 0 with collectorProcess := some 1 }.createAt 2
    b.idleEntry 0

theorem start_eq : b.start = { b.created with
    sched := ({ b.created.sched with idleProcess := 2 }.removeList .processList
      (b.created.sched.link 2).id).2
    mutex := fun _ => ⟨-1, 0⟩ } := by
  have h1 : b.shellOnly.createProcess b.collectorEntry 0 =
      (some 1, b.shellOnly.createAt 1 b.collectorEntry 0) := createProcess_free rfl _ _
  have h2 : { b.shellOnly.createAt 1 b.collectorEntry 0 with
      collectorProcess := some 1 }.createProcess b.idleEntry 0 = (some 2, b.created) :=
    createProcess_free rfl _ _
  simp only [start, initScheduler]
  rw [show b.statics.initKeyboard.initRunningProcess = b.shellOnly from rfl, h1]
  simp only
  rw [h2]
  simp only [initMutex, setMutex, Function.update_self]
  rfl

theorem start_mutex (m : ℕ) : b.start.mutex m = ⟨-1, 0⟩ := Function.update_self _ _ _

/-- At the start the shell runs, the collector is ready and idle is set apart. -/
theorem start_plan : b.start.sched.Linked ∧ b.start.sched.plan =
    { roster := Function.update (fun _ => []) .processList [1]
      states := Function.update (Function.update (Function.update
        (fun p => (b.pcb p).state) 0 .running) 1 .ready) 2 .ready
      ids := Function.update (Function.update (Function.update
        (fun p => (b.link p).id) 0 0) 1 1) 2 2
      running := 0
      idle := 2 } := by
  obtain ⟨hl0, hr0⟩ := Scheduler.linked_of_represents (s := b.shellOnly.sched) (f := fun _ => [])
    (fun name => by
      have hlist : b.shellOnly.sched.list name = initList := by
        show Function.update (Function.update (fun _ => initList) _ initList) _ initList name = _
        simp
      rw [hlist]
      exact represents_initList) (by simp) (by simp)
  obtain ⟨hl1, hp1⟩ := Scheduler.addProcess_refines (p := 1) hl0 (by simp [hr0]) b.collectorEntry 0
  have hr1 : (b.shellOnly.sched.addProcess 1 b.collectorEntry 0).roster =
      Function.update (fun _ => []) .processList [1] := by
    rw [show (b.shellOnly.sched.addProcess 1 b.collectorEntry 0).roster = _ from
      congrArg Plan.roster hp1]
    simp [Plan.append, Plan.setState, hr0]
  obtain ⟨hl2, hp2⟩ := Scheduler.addProcess_refines (p := 2) hl1 (fun name => by
    rw [hr1, Function.update_apply]
    split <;> simp) b.idleEntry 0
  have hidle : { b.created.sched with idleProcess := 2 }.Linked := hl2.congr rfl rfl
  obtain ⟨hl3, hp3⟩ := Scheduler.removeList_refines hidle .processList 2
  have hid : (b.created.sched.link 2).id = 2 := by
    have hids : (b.created.sched.link 2).id = _ := congrFun (congrArg Plan.ids hp2) 2
    rw [hids]
    simp [Plan.append, Plan.setState]
  have hp0 : b.shellOnly.sched.plan =
      ⟨fun _ => [], Function.update (fun p => (b.pcb p).state) 0 .running,
        Function.update (fun p => (b.link p).id) 0 0, 0, 0⟩ := by
    have hids : (fun p => (b.shellOnly.sched.link p).id) =
        Function.update (fun p => (b.link p).id) 0 0 := by
      funext p
      show (Function.update b.link 0 { b.link 0 with id := 0 } p).id = _
      by_cases hp : p = 0
      · subst hp; simp
      · simp [hp]
    have hstates : (fun p => (b.shellOnly.sched.pcb p).state) =
        Function.update (fun p => (b.pcb p).state) 0 .running := by
      funext p
      show ((Scheduler.setState _ 0 .running).pcb p).state = _
      rw [Scheduler.setState_state, Function.update_apply]
      rfl
    rw [← hids, ← hstates, ← hr0]
    rfl
  rw [start_eq, hid]
  refine ⟨hl3, hp3.trans ?_⟩
  rw [show Scheduler.plan _ = { ((b.shellOnly.sched.addProcess 1 b.collectorEntry 0).addProcess 2
    b.idleEntry 0).plan with idle := 2 } from rfl, hp2, hp1, hp0]
  simp [Plan.remove, Plan.append, Plan.setState]

@[simp] theorem start_resumePoint : b.start.resumePoint = fun _ => .code := by
  rw [start_eq]
  show Function.update (Function.update (fun _ => ResumePoint.code) 1 .code) 2 .code = _
  simp

theorem start_alloc (p : ℕ) : b.start.allocProcessTable p = true ↔ p = 0 ∨ p = 1 ∨ p = 2 := by
  rw [start_eq]
  show Function.update (Function.update (Function.update (fun _ => false) 0 true) 1 true) 2 true p =
    true ↔ _
  simp only [Function.update_apply]
  split_ifs <;> simp_all

theorem start_idle : b.start.sched.idleProcess = 2 := congrArg Plan.idle b.start_plan.2

theorem start_member (p : ℕ) : b.start.roles.member p ↔ p = 0 ∨ p = 1 := by
  show b.start.allocProcessTable p = true ∧ p ≠ b.start.sched.idleProcess ↔ _
  rw [start_alloc, start_idle]
  omega

theorem start_valid : b.start.Valid := by
  obtain ⟨hl, hp⟩ := b.start_plan
  have hcollector : b.start.collectorProcess = some 1 := by rw [start_eq]; rfl
  have hqueue : b.start.exitProcessQueue = initQueue (fun _ => 0) exitQueueCount 4 := by
    rw [start_eq]; rfl
  have hempty : b.start.exitProcessQueue.contents pidAt = [] := by rw [hqueue, initQueue_contents]
  refine ⟨⟨hl, ?_⟩, fun p hp => ?_, ?_, ?_, ?_, ⟨1, hcollector, ?_, .inl (by simp)⟩, ?_, ?_, ?_, ?_⟩
  · rw [hp]
    refine ⟨⟨fun p name => ?_, fun name => ?_, fun p hp => ?_, fun p hp => ?_, fun p hp => ?_,
      fun p hp => ?_⟩, fun _ => (b.start_member 0).mpr (.inl rfl), b.start_idle.symm⟩
    · rw [start_member]
      constructor
      · intro hm
        by_cases hn : name = .processList
        · subst hn
          obtain rfl : p = 1 := by simpa using hm
          exact ⟨.inr rfl, by simp [Plan.home]⟩
        · simp [hn] at hm
      · rintro ⟨rfl | rfl, hhome⟩
        · simp [Plan.home] at hhome
        · obtain rfl : name = .processList := by simpa [Plan.home, eq_comm] using hhome
          simp
    · simp only [Function.update_apply]
      split <;> simp
    · rcases (b.start_member p).mp hp with rfl | rfl <;> simp
    · rcases (b.start_member p).mp hp with rfl | rfl <;> simp
    · rcases (b.start_member p).mp hp with rfl | rfl <;> simp [roles]
    · rcases (b.start_member p).mp hp with rfl | rfl <;> simp
  · rcases (b.start_alloc p).mp hp with rfl | rfl | rfl <;> decide
  · rw [start_eq]
    show 3 ≤ processMaxCount
    decide
  · rw [start_idle]
    exact ⟨(b.start_alloc 2).mpr (by simp), by simp⟩
  · exact ⟨(b.start_member 0).mpr (by simp), by simp [roles]⟩
  · exact (b.start_member 1).mpr (by simp)
  · rw [show b.start.keyWaiter = none by rw [start_eq]; rfl]; simp
  · rw [show b.start.diskWaiter = fun _ => none by rw [start_eq]; rfl]; simp
  · rw [hqueue]
    exact ⟨initQueue_wellFormed _ (by decide) (by decide), rfl, rfl⟩
  · rw [hempty]
    simp

end Boot

theorem Reachable.valid {k : Kernel} (h : Reachable k) : k.Valid := by
  obtain ⟨b, history, hrun⟩ := h
  exact hrun.invariant b.start_valid fun _ _ _ hvalid _ hstep => hvalid.step hstep

namespace Kernel

/-- The places a process can be in. -/
inductive Place where
  | running | ready | sleeping | waiting (m : ℕ) | blocked | exited

def Place.state : Place → ProcessState
  | .running => .running
  | .ready => .ready
  | .sleeping | .waiting _ | .blocked => .blocked
  | .exited => .exit

def Place.list : Place → Option ListName
  | .ready => some .processList
  | .sleeping => some .sleepList
  | .waiting m => some (.waitList m)
  | .running | .blocked | .exited => none

/-- The process is in this place: it has the state, it is once in the list and in no
other one, and outside the lists only `getKey` and the collector block. -/
structure At (k : Kernel) (p : ℕ) (place : Place) : Prop where
  running_iff : p = k.sched.runningProcess ↔ place.state = .running
  state : (k.sched.pcb p).state = place.state
  lists : ∀ name, (k.sched.roster name).count p = if place.list = some name then 1 else 0
  call : place.state = .blocked → place.list = none → ∃ preIf,
    k.resumePoint p = .getKey preIf ∨ k.resumePoint p = .garbageProcessCollector preIf

/-- No process is in two places. -/
theorem At.unique {k : Kernel} {p : ℕ} {place place' : Place} (h : k.At p place)
    (h' : k.At p place') : place' = place := by
  have hstate : place'.state = place.state := h'.state.symm.trans h.state
  have hlist : place'.list = place.list := by
    ext name
    have hcount := (h'.lists name).symm.trans (h.lists name)
    constructor <;> intro hn <;> by_contra hno <;> simp [hn, hno] at hcount
  cases place <;> cases place' <;> simp_all [Place.state, Place.list]

namespace Valid

variable {k : Kernel} {p : ℕ}

/-- A process is in the list its state calls for, and in no other one. -/
theorem count_eq (h : k.Valid) (hp : k.roles.member p) (name : ListName) :
    (k.sched.roster name).count p =
      if k.sched.plan.home k.roles.waits p = some name then 1 else 0 := by
  have hmem := h.settled.plan.placed.mem_iff p name
  split
  next hhome =>
    exact List.count_eq_one_of_mem (h.settled.linked.nodup name) (hmem.mpr ⟨hp, hhome⟩)
  next hhome => exact List.count_eq_zero_of_not_mem fun hm => hhome (hmem.mp hm).2

/-- Every allocated process but idle is in some place. -/
theorem exists_at (h : k.Valid) (hp : k.roles.member p) : ∃ place, k.At p place := by
  have hplaced := h.settled.plan.placed
  have hstates : k.sched.plan.states p = (k.sched.pcb p).state := rfl
  have hrun : p = k.sched.runningProcess ↔ (k.sched.pcb p).state = .running := by
    rw [← hstates, hplaced.running_iff p hp, Option.some.injEq, Scheduler.plan_running, eq_comm]
  have hat (place : Place) (hs : (k.sched.pcb p).state = place.state)
      (hhome : k.sched.plan.home k.roles.waits p = place.list)
      (hcall : place.state = .blocked → place.list = none → ∃ preIf,
        k.resumePoint p = .getKey preIf ∨ k.resumePoint p = .garbageProcessCollector preIf) :
      k.At p place :=
    ⟨by rw [hrun, hs], hs, fun name => by rw [h.count_eq hp, hhome], hcall⟩
  cases hs : (k.sched.pcb p).state with
  | running => exact ⟨.running, hat _ hs (by simp [Plan.home, hstates, hs, Place.list])
      (by simp [Place.state])⟩
  | ready => exact ⟨.ready, hat _ hs (by simp [Plan.home, hstates, hs, Place.list])
      (by simp [Place.state])⟩
  | exit => exact ⟨.exited, hat _ hs (by simp [Plan.home, hstates, hs, Place.list])
      (by simp [Place.state])⟩
  | blocked =>
    have hb : (k.resumePoint p).Blocks := hplaced.blocks_of p hp (hstates.trans hs)
    have hhome : k.sched.plan.home k.roles.waits p = (k.resumePoint p).list := by
      simp [Plan.home, hstates, hs, roles]
    cases hpoint : k.resumePoint p with
    | sleepProcess preIf =>
      exact ⟨.sleeping, hat _ hs (by rw [hhome, hpoint]; rfl) (by simp [Place.list])⟩
    | waitInterrupt isPrimary deadline =>
      exact ⟨.sleeping, hat _ hs (by rw [hhome, hpoint]; rfl) (by simp [Place.list])⟩
    | acquireLock m preIf =>
      exact ⟨.waiting m, hat _ hs (by rw [hhome, hpoint]; rfl) (by simp [Place.list])⟩
    | getKey preIf =>
      exact ⟨.blocked, hat _ hs (by rw [hhome, hpoint]; rfl) fun _ _ => ⟨preIf, .inl hpoint⟩⟩
    | garbageProcessCollector preIf =>
      exact ⟨.blocked, hat _ hs (by rw [hhome, hpoint]; rfl) fun _ _ => ⟨preIf, .inr hpoint⟩⟩
    | code => simp [hpoint, ResumePoint.Blocks] at hb
    | schedule preIf => simp [hpoint, ResumePoint.Blocks] at hb
    | exitProcess => simp [hpoint, ResumePoint.Blocks] at hb
    | createProcess => simp [hpoint, ResumePoint.Blocks] at hb

end Valid

/-- Each allocated process except idle is in exactly one place, idle is in no list, and
every list is an intact chain of distinct nodes that no other list holds. -/
structure WellPlaced (k : Kernel) : Prop where
  one_place : ∀ p, k.allocProcessTable p = true → p ≠ k.sched.idleProcess → ∃! place, k.At p place
  idle_out : ∀ name, k.sched.idleProcess ∉ k.sched.roster name
  intact : ∀ name, Represents k.sched.link (k.sched.list name) (k.sched.roster name)
  nodup : ∀ name, (k.sched.roster name).Nodup
  one_list : ∀ {name name' p}, p ∈ k.sched.roster name → p ∈ k.sched.roster name' → name = name'

theorem placement_invariant {k : Kernel} (h : Reachable k) : k.WellPlaced := by
  have hvalid := h.valid
  refine ⟨fun p hp hidle => ?_, fun _ => hvalid.settled.plan.idle_not_mem,
    hvalid.settled.linked.represents, hvalid.settled.linked.nodup,
    hvalid.settled.linked.one_list⟩
  obtain ⟨place, hplace⟩ := hvalid.exists_at ⟨hp, hidle⟩
  exact ⟨place, hplace, fun place' hplace' => hplace.unique hplace'⟩

/-- The shell loads a program of one byte and creates a second process. Both run, exit and are
collected. -/
def lifeCycle : List Action :=
  let regs : ProcessContext := fun _ => 0
  [.call (.runUserProgram (fun _ => 0x90) 1 0) regs, .call (.createProcess 0 0) regs,
    .call .schedule regs, .collect regs, .call .exitProcess regs, .call .exitProcess regs,
    .resume regs, .call .schedule regs, .resume regs, .collect regs]

/-- The second process runs, the shell is ready, the first has exited. -/
theorem placement_invariant_lifeCycle :
    (reached step Boot.zero.start (lifeCycle.take 5)).WellPlaced :=
  placement_invariant ⟨Boot.zero, _, run_trace (by decide +kernel) fun _ _ => trivial⟩

end Kernel
end SkhuOS
