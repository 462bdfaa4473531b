import SkhuOS.Foundation.Stores
import SkhuOS.Proc.System

/-! The kernel calls store by store, as `Process.c`, `Sync.c`, `Keyboard.c` and `Disk.c` make
them. Where a process gives the processor up its computation ends; what it does when it gets
the processor back is a computation of its own. -/
namespace SkhuOS.Traced
open Foundation Foundation.Stores

/-- A store to the scheduler, the PCBs or the flag. -/
def storeSched (edit : Scheduler → Scheduler) : Stores Kernel Unit :=
  store fun k => { k with sched := edit k.sched }

def setIf (interrupt : Bool) : Stores Kernel Bool := do
  let k ← get
  store fun k => (k.setIf interrupt).2
  return k.sched.interruptFlag

def setState (p : ℕ) (state : ProcessState) : Stores Kernel Unit :=
  storeSched fun s => s.setState p state

def insertList (name : ListName) (p : ℕ) : Stores Kernel Unit :=
  storeSched fun s => s.insertList name p

def removeList (name : ListName) (id : ℤ) : Stores Kernel Unit :=
  storeSched fun s => (s.removeList name id).2

def headRemove (name : ListName) : Stores Kernel (Option ℕ) := do
  let k ← get
  storeSched fun s => (s.headRemove name).2
  return (k.sched.headRemove name).1

def setResumePoint (p : ℕ) (point : ResumePoint) : Stores Kernel Unit :=
  store fun k => k.setResumePoint p point

def makeRunning (next : ℕ) : Stores Kernel Unit := do
  setState next .running
  storeSched fun s => { s with runningProcess := next }
  storeSched fun s => s.updateTSSRsp0 next

/-- The registers are saved, and the load of the next ones sets the flag. -/
def switchContext (current next : ℕ) (regs : ProcessContext) : Stores Kernel Unit := do
  storeSched fun s => s.modifyPcb current fun pcb =>
    { pcb with context := withIf regs s.interruptFlag }
  storeSched fun s => { s with interruptFlag := contextIf (s.pcb next).context }

def scheduleBlocked (regs : ProcessContext) : Stores Kernel Unit := do
  let k ← get
  let next ← headRemove .processList
  let next := next.getD k.sched.idleProcess
  makeRunning next
  switchContext k.sched.runningProcess next regs

def blockRunningProcess (regs : ProcessContext) : Stores Kernel Unit := do
  let k ← get
  setState k.sched.runningProcess .blocked
  scheduleBlocked regs

def sleepUntilTick (tick : QWORD) (regs : ProcessContext) : Stores Kernel Unit := do
  let k ← get
  storeSched fun s => s.modifyPcb k.sched.runningProcess fun pcb => { pcb with wakeupTick := tick }
  insertList .sleepList k.sched.runningProcess
  blockRunningProcess regs

def wakeupProcess (pcb : Option ℕ) : Stores Kernel Bool := do
  let k ← get
  match pcb with
  | none => return false
  | some p =>
    if (k.sched.pcb p).state ≠ .blocked then return false
    else
      removeList .sleepList (k.sched.link p).id
      setState p .ready
      insertList .processList p
      return true

def timeoutSchedule : Stores Kernel Unit := do
  let k ← get
  if (k.sched.list .processList).count = 0 then return ()
  else
    match ← headRemove .processList with
    | none => return ()
    | some next =>
      let k ← get
      let cur := k.sched.runningProcess
      storeSched fun s => s.modifyPcb cur fun pcb => { pcb with context := s.ist }
      if cur ≠ k.sched.idleProcess then
        setState cur .ready
        insertList .processList cur
      makeRunning next
      storeSched fun s => { s with ist := (s.pcb next).context }

def wakeupProcessInInterrupt (pcb : Option ℕ) : Stores Kernel Unit := do
  let woken ← wakeupProcess pcb
  let k ← get
  if woken && k.sched.runningProcess == k.sched.idleProcess then timeoutSchedule

/-- The part of `createProcess` behind its search. -/
def addProcess (p : ℕ) (entryPoint arg : QWORD) : Stores Kernel Unit := do
  storeSched fun s => { s with link := Function.update s.link p { s.link p with id := p } }
  storeSched fun s => s.setUpProcess p entryPoint
    (BitVec.ofNat 64 (processStackBase + processStackInterval * p))
    (BitVec.ofNat 64 processStackSize)
  storeSched fun s => s.modifyPcb p fun pcb =>
    { pcb with context := Function.update pcb.context regRDI arg }
  setState p .ready
  insertList .processList p
  store fun k =>
    let entry := k.page (kernelSize + p * 2)
    { k with
      page := Function.update k.page (kernelSize + p * 2)
        { entry with lower4Byte := entry.lower4Byte ||| pageFlagP } }
  store fun k => { k with
    allocProcessTable := Function.update k.allocProcessTable p true
    pidCountIdx := p + 1 }
  setResumePoint p .code

def createProcess (entryPoint arg : QWORD) : Stores Kernel (Option ℕ) := do
  let preIf ← setIf false
  let k ← get
  let (found, p) := findSlot k.allocProcessTable processMaxCount k.pidCountIdx
  store fun k => { k with pidCountIdx := p }
  if found then
    addProcess p entryPoint arg
    let _ ← setIf preIf
    return some p
  else return none

def createUserProcess (entryPoint arg : QWORD) : Stores Kernel (Option ℕ) := do
  let preIf ← setIf false
  match ← createProcess entryPoint arg with
  | none => return none
  | some p =>
    let userStack := userStackBase + userStackInterval * p
    store fun k => { k with
      page := setPageUserAccess userStack (userStack + userStackSize) true k.page }
    storeSched fun s => s.modifyPcb p fun pcb =>
      { pcb with context := setUserContext (BitVec.ofNat 64 userStack) pcb.context }
    let _ ← setIf preIf
    return some p

def runUserProgram (image : Bytes) (size : ℕ) (arg : QWORD) : Stores Kernel (Option (Option ℕ)) := do
  if size > userCodeSize then return some none
  else
    let preIf ← setIf false
    store fun k => { k with userMemory := copyBytes k.userMemory userCodeAddress image 0 size }
    store fun k => { k with
      page := setPageUserAccess userCodeAddress (userCodeAddress + userCodeSize) true k.page }
    match ← createUserProcess (BitVec.ofNat 64 userCodeAddress) arg with
    | none => return none
    | some p =>
      let _ ← setIf preIf
      return some (some p)

/-- A creating call that does not return stays in its error loop. -/
def orForever {α : Type} (call : Stores Kernel (Option α)) : Stores Kernel Unit := do
  let k ← get
  match ← call with
  | some _ => return ()
  | none => setResumePoint k.sched.runningProcess .createProcess

def sleepProcess (ms : QWORD) (regs : ProcessContext) : Stores Kernel Unit := do
  let preIf ← setIf false
  let k ← get
  setResumePoint k.sched.runningProcess (.sleepProcess preIf)
  sleepUntilTick (k.sched.tickCount + (ms + slotTime - 1) / slotTime) regs

def setMutex (m : ℕ) (edit : Mutex → Mutex) : Stores Kernel Unit :=
  store fun k => k.setMutex m (edit (k.mutex m))

def acquireLock (m : ℕ) (regs : ProcessContext) : Stores Kernel Unit := do
  let preIf ← setIf false
  let k ← get
  let currentPid := k.getRunningPid
  if (k.mutex m).pid = currentPid then
    setMutex m fun mutex => { mutex with count := mutex.count + 1 }
    let _ ← setIf preIf
  else if (k.mutex m).pid = -1 then
    setMutex m fun mutex => { mutex with pid := currentPid }
    setMutex m fun mutex => { mutex with count := 1 }
    let _ ← setIf preIf
  else
    setResumePoint k.sched.runningProcess (.acquireLock m preIf)
    insertList (.waitList m) k.sched.runningProcess
    blockRunningProcess regs

/-- The part of `releaseLock` for a lock that is left. -/
def handOver (m : ℕ) : Stores Kernel Unit := do
  match ← headRemove (.waitList m) with
  | none => setMutex m fun mutex => { mutex with pid := -1 }
  | some next =>
    let k ← get
    setMutex m fun mutex => { mutex with pid := (k.sched.link next).id }
    setMutex m fun mutex => { mutex with count := 1 }
    let _ ← wakeupProcess (some next)

def releaseLock (m : ℕ) : Stores Kernel Unit := do
  let preIf ← setIf false
  let k ← get
  if (k.mutex m).pid ≠ k.getRunningPid then
    let _ ← setIf preIf
  else
    setMutex m fun mutex => { mutex with count := mutex.count - 1 }
    let k ← get
    if (k.mutex m).count = 0 then
      handOver m
      let _ ← setIf preIf
    else
      let _ ← setIf preIf

def inputQueue (scanCode : BYTE) : Stores Kernel Unit := do
  let k ← get
  let (code, shiftOn) := scanToASCII k.shiftOn scanCode
  store fun k => { k with shiftOn := shiftOn }
  if code ≠ 0 then
    let preIf ← setIf false
    store fun k => { k with keyQueue := (enQueue k.keyQueue fun _ => code).2 }
    wakeupProcessInInterrupt k.keyWaiter
    let _ ← setIf preIf

/-- `deQueue(&keyQueue, &data)`. -/
def deQueueKey : Stores Kernel (Option BYTE) := do
  let k ← get
  let (success, data, queue) := deQueue k.keyQueue fun _ => 0
  store fun k => { k with keyQueue := queue }
  return if success then some (data 0) else none

def getQueue : Stores Kernel (Option BYTE) := do
  let preIf ← setIf false
  let data ← deQueueKey
  let _ ← setIf preIf
  return data

def getKeyLoop (preIf : Bool) (regs : ProcessContext) : Stores Kernel Unit := do
  let k ← get
  match ← deQueueKey with
  | some _ =>
    setResumePoint k.sched.runningProcess .code
    let _ ← setIf preIf
  | none =>
    store fun k => { k with keyWaiter := some k.sched.runningProcess }
    setResumePoint k.sched.runningProcess (.getKey preIf)
    blockRunningProcess regs

def getKey (regs : ProcessContext) : Stores Kernel Unit := do
  let preIf ← setIf false
  getKeyLoop preIf regs

def waitLoop (isPrimary : Bool) (deadline : QWORD) (regs : ProcessContext) : Stores Kernel Unit := do
  let k ← get
  if k.interruptOccur isPrimary then
    setResumePoint k.sched.runningProcess .code
    let _ ← setIf true
  else if k.sched.tickCount ≥ deadline then
    setResumePoint k.sched.runningProcess .code
    let _ ← setIf true
  else
    store fun k => { k with
      diskWaiter := Function.update k.diskWaiter isPrimary (some k.sched.runningProcess) }
    setResumePoint k.sched.runningProcess (.waitInterrupt isPrimary deadline)
    sleepUntilTick deadline regs

def waitInterrupt (isPrimary : Bool) (regs : ProcessContext) : Stores Kernel Unit := do
  let preIf ← setIf false
  let k ← get
  if !preIf then return ()
  else waitLoop isPrimary (k.sched.tickCount + (waitTimeoutMs + slotTime - 1) / slotTime) regs

/-- The calls whose stores are told here. -/
def runCall (c : Call) (regs : ProcessContext) : Option (Stores Kernel Unit) :=
  match c with
  | .createProcess entryPoint arg => some (orForever (createProcess entryPoint arg))
  | .createUserProcess entryPoint arg => some (orForever (createUserProcess entryPoint arg))
  | .runUserProgram image size arg => some (orForever (runUserProgram image size arg))
  | .sleepProcess ms => some (sleepProcess ms regs)
  | .acquireLock m => some (acquireLock m regs)
  | .releaseLock m => some (releaseLock m)
  | .getKey => some (getKey regs)
  | .getQueue => some do let _ ← getQueue
  | .waitInterrupt isPrimary => some (waitInterrupt isPrimary regs)
  | .setIf _ | .clearDiskInterruptFlag _ | .schedule | .exitProcess => none

/-- What such a call does behind its return from `switchContext`. -/
def resumeCall (p : ℕ) (point : ResumePoint) (regs : ProcessContext) :
    Option (Stores Kernel Unit) :=
  match point with
  | .sleepProcess preIf | .acquireLock _ preIf => some do
    setResumePoint p .code
    let _ ← setIf preIf
  | .getKey preIf => some do
    store fun k => { k with keyWaiter := none }
    getKeyLoop preIf regs
  | .waitInterrupt isPrimary deadline => some do
    store fun k => { k with diskWaiter := Function.update k.diskWaiter isPrimary none }
    waitLoop isPrimary deadline regs
  | .code | .schedule _ | .garbageProcessCollector _ | .exitProcess | .createProcess => none

section Final

variable {k : Kernel} {regs : ProcessContext}

theorem final_setIf (interrupt : Bool) : (setIf interrupt).final k = (k.setIf interrupt).2 := rfl

theorem result_setIf (interrupt : Bool) : (setIf interrupt).result k = (k.setIf interrupt).1 := rfl

theorem final_sleepUntilTick (tick : QWORD) :
    (sleepUntilTick tick regs).final k = { k with sched := k.sched.sleepUntilTick tick regs } := rfl

theorem final_wakeupProcess (pcb : Option ℕ) :
    (wakeupProcess pcb).final k = { k with sched := (k.sched.wakeupProcess pcb).2 } ∧
      (wakeupProcess pcb).result k = (k.sched.wakeupProcess pcb).1 := by
  unfold wakeupProcess Scheduler.wakeupProcess
  cases pcb with
  | none => exact ⟨rfl, rfl⟩
  | some p =>
    rw [final_bind, result_bind, result_get, final_get]
    by_cases hstate : (k.sched.pcb p).state ≠ .blocked
    · simp only [if_pos hstate]
      exact ⟨rfl, rfl⟩
    · simp only [if_neg hstate]
      exact ⟨rfl, rfl⟩

theorem final_timeoutSchedule :
    timeoutSchedule.final k = { k with sched := k.sched.timeoutSchedule } := by
  unfold timeoutSchedule Scheduler.timeoutSchedule
  rw [final_bind, result_get, final_get]
  split
  · rfl
  · rw [final_bind]
    have hhead : (headRemove .processList).result k = (k.sched.headRemove .processList).1 := rfl
    have hleft : (headRemove .processList).final k =
        { k with sched := (k.sched.headRemove .processList).2 } := rfl
    rw [hhead, hleft]
    obtain ⟨next, s⟩ := k.sched.headRemove .processList
    cases next with
    | none => rfl
    | some next =>
      rw [final_bind, final_bind, result_get, final_get]
      dsimp only
      split
      next hcur =>
        rw [if_pos (show s.runningProcess ≠ (s.modifyPcb _ _).idleProcess from hcur)]
        rfl
      next hcur =>
        rw [if_neg (show ¬ s.runningProcess ≠ (s.modifyPcb _ _).idleProcess from hcur)]
        rfl

theorem final_wakeupProcessInInterrupt (pcb : Option ℕ) :
    (wakeupProcessInInterrupt pcb).final k =
      { k with sched := k.sched.wakeupProcessInInterrupt pcb } := by
  obtain ⟨hfinal, hresult⟩ := final_wakeupProcess (k := k) pcb
  unfold wakeupProcessInInterrupt Scheduler.wakeupProcessInInterrupt
  rw [final_bind, final_bind, hfinal, hresult, result_get, final_get]
  dsimp only
  split
  · exact final_timeoutSchedule
  · rfl

theorem final_createProcess (entryPoint arg : QWORD) :
    (createProcess entryPoint arg).final k = (k.createProcess entryPoint arg).2 ∧
      (createProcess entryPoint arg).result k = (k.createProcess entryPoint arg).1 := by
  unfold createProcess Kernel.createProcess
  rw [final_bind, result_bind, final_bind, result_bind]
  dsimp only [result_get, final_get]
  rw [final_setIf]
  obtain ⟨found, p⟩ := findSlot (k.setIf false).2.allocProcessTable processMaxCount
    (k.setIf false).2.pidCountIdx
  cases found <;> exact ⟨rfl, rfl⟩

theorem final_createUserProcess (entryPoint arg : QWORD) :
    (createUserProcess entryPoint arg).final k = (k.createUserProcess entryPoint arg).2 ∧
      (createUserProcess entryPoint arg).result k = (k.createUserProcess entryPoint arg).1 := by
  obtain ⟨hfinal, hresult⟩ := final_createProcess (k := (k.setIf false).2) entryPoint arg
  unfold createUserProcess Kernel.createUserProcess
  rw [final_bind, result_bind, final_bind, result_bind, final_setIf, hfinal, hresult]
  dsimp only
  obtain ⟨slot, k'⟩ := (k.setIf false).2.createProcess entryPoint arg
  cases slot <;> exact ⟨rfl, rfl⟩

theorem final_runUserProgram (image : Bytes) (size : ℕ) (arg : QWORD) :
    (runUserProgram image size arg).final k = (k.runUserProgram image size arg).2 ∧
      (runUserProgram image size arg).result k = (k.runUserProgram image size arg).1 := by
  unfold runUserProgram Kernel.runUserProgram
  split
  · exact ⟨rfl, rfl⟩
  · obtain ⟨hfinal, hresult⟩ := final_createUserProcess
      (k := (k.setIf false).2.copyImage image size) (BitVec.ofNat 64 userCodeAddress) arg
    rw [final_bind, result_bind, final_bind, result_bind, final_bind, result_bind, final_bind,
      result_bind]
    rw [show (store _).final ((store _).final ((setIf false).final k)) =
      (k.setIf false).2.copyImage image size from rfl, hfinal, hresult]
    dsimp only
    obtain ⟨slot, k'⟩ := ((k.setIf false).2.copyImage image size).createUserProcess
      (BitVec.ofNat 64 userCodeAddress) arg
    cases slot <;> exact ⟨rfl, rfl⟩

theorem final_orForever {α : Type} {call : Stores Kernel (Option α)} {made : Option α × Kernel}
    (hfinal : call.final k = made.2) (hresult : call.result k = made.1)
    (hrun : made.2.sched.runningProcess = k.sched.runningProcess) :
    (orForever call).final k = Kernel.orForever made := by
  obtain ⟨value, k'⟩ := made
  unfold orForever
  rw [final_bind, result_get, final_get, final_bind, hfinal, hresult]
  cases value with
  | some x => rfl
  | none =>
    unfold Kernel.orForever
    dsimp only at hrun ⊢
    rw [hrun]
    rfl

theorem final_sleepProcess (ms : QWORD) :
    (sleepProcess ms regs).final k = k.sleepProcess ms regs := by
  unfold sleepProcess Kernel.sleepProcess
  rw [final_bind, final_setIf, result_setIf, final_bind, result_get, final_get, final_bind,
    final_sleepUntilTick]
  rfl

theorem setMutex_setMutex (k : Kernel) (m : ℕ) (mutex : Mutex) (edit : Mutex → Mutex) :
    (k.setMutex m mutex).setMutex m (edit ((k.setMutex m mutex).mutex m)) =
      k.setMutex m (edit mutex) := by
  unfold Kernel.setMutex
  dsimp only
  rw [Function.update_self, Function.update_idem]

theorem final_acquireLock (m : ℕ) : (acquireLock m regs).final k = k.acquireLock m regs := by
  unfold acquireLock Kernel.acquireLock
  rw [final_bind, final_bind, final_setIf, result_setIf, result_get, final_get]
  dsimp only
  rw [final_ite, final_ite]
  have htwice := setMutex_setMutex (k.setIf false).2 m
    { ((k.setIf false).2.mutex m) with pid := (k.setIf false).2.getRunningPid }
    fun mutex => { mutex with count := 1 }
  split_ifs
  · rfl
  · exact congrArg (fun k' => (k'.setIf (k.setIf false).1).2) htwice
  · rfl

theorem final_handOver (m : ℕ) : (handOver m).final k =
    match k.sched.headRemove (.waitList m) with
    | (none, s) => { k with sched := s }.setMutex m { k.mutex m with pid := -1 }
    | (some next, s) =>
      let k := { k with sched := s }.setMutex m ⟨(s.link next).id, 1⟩
      { k with sched := (k.sched.wakeupProcess (some next)).2 } := by
  have hhead : (headRemove (.waitList m)).result k = (k.sched.headRemove (.waitList m)).1 := rfl
  have hleft : (headRemove (.waitList m)).final k =
      { k with sched := (k.sched.headRemove (.waitList m)).2 } := rfl
  unfold handOver
  rw [final_bind, hhead, hleft]
  obtain ⟨next, s⟩ := k.sched.headRemove (.waitList m)
  cases next with
  | none => rfl
  | some next =>
    have htwice := setMutex_setMutex { k with sched := s } m
      { k.mutex m with pid := (s.link next).id } fun mutex => { mutex with count := 1 }
    exact (final_wakeupProcess (some next)).1.trans
      (congrArg (fun k : Kernel => { k with sched := (k.sched.wakeupProcess (some next)).2 }) htwice)

theorem final_releaseLock (m : ℕ) : (releaseLock m).final k = k.releaseLock m := by
  unfold releaseLock Kernel.releaseLock
  rw [final_bind, final_bind, final_setIf, result_setIf, result_get, final_get]
  dsimp only
  set j := (k.setIf false).2 with hj
  set j' := j.setMutex m { j.mutex m with count := (j.mutex m).count - 1 } with hj'
  have hstored : (setMutex m fun mutex => { mutex with count := mutex.count - 1 }).final j = j' := rfl
  rw [final_ite]
  split
  · rfl
  · rw [final_bind, final_bind, hstored, result_get, final_get, final_ite]
    split
    · rw [final_bind, final_handOver]
      obtain ⟨next, s⟩ := j'.sched.headRemove (.waitList m)
      cases next <;> rfl
    · rfl

theorem final_inputQueue (scanCode : BYTE) :
    (inputQueue scanCode).final k = k.inputQueue scanCode := by
  unfold inputQueue Kernel.inputQueue
  rw [final_bind, result_get, final_get]
  obtain ⟨code, shiftOn⟩ := scanToASCII k.shiftOn scanCode
  dsimp only
  rw [final_bind, final_ite]
  split_ifs
  · rw [final_bind, final_bind, final_bind, final_wakeupProcessInInterrupt]
    rfl
  · rfl

theorem final_getQueue : getQueue.final k = k.getQueue.2 := rfl

theorem final_getKeyLoop (preIf : Bool) :
    (getKeyLoop preIf regs).final k = (k.getKeyLoop preIf regs).2 := by
  unfold getKeyLoop Kernel.getKeyLoop
  rw [final_bind, result_get, final_get, final_bind]
  have hresult : deQueueKey.result k =
      if (deQueue k.keyQueue fun _ => 0).1 then some ((deQueue k.keyQueue fun _ => 0).2.1 0) else none :=
    rfl
  have hfinal : deQueueKey.final k =
      { k with keyQueue := (deQueue k.keyQueue fun _ => 0).2.2 } := rfl
  have hempty : (deQueue k.keyQueue fun _ => 0).1 = false →
      (deQueue k.keyQueue fun _ => 0).2.2 = k.keyQueue := by
    intro h
    unfold deQueue at h ⊢
    split
    · rfl
    next hfull =>
      rw [if_neg hfull] at h
      exact nomatch h
  rw [hresult, hfinal]
  clear hresult hfinal
  generalize (deQueue k.keyQueue fun _ => 0) = read at hempty ⊢
  obtain ⟨success, data, queue⟩ := read
  cases success with
  | true => rfl
  | false =>
    obtain rfl : queue = k.keyQueue := hempty rfl
    rfl

theorem final_getKey : (getKey regs).final k = (k.getKey regs).2 := by
  unfold getKey Kernel.getKey
  rw [final_bind, final_setIf, result_setIf, final_getKeyLoop]

theorem final_waitLoop (isPrimary : Bool) (deadline : QWORD) :
    (waitLoop isPrimary deadline regs).final k = (k.waitLoop isPrimary deadline regs).2 := by
  unfold waitLoop Kernel.waitLoop
  rw [final_bind, result_get, final_get, final_ite, final_ite]
  split_ifs <;> rfl

theorem final_waitInterrupt (isPrimary : Bool) :
    (waitInterrupt isPrimary regs).final k = (k.waitInterrupt isPrimary regs).2 := by
  unfold waitInterrupt Kernel.waitInterrupt
  rw [final_bind, final_bind, final_setIf, result_setIf, result_get, final_get, final_ite]
  dsimp only
  split_ifs
  · rfl
  · exact final_waitLoop _ _

theorem createProcess_running (k : Kernel) (entryPoint arg : QWORD) :
    (k.createProcess entryPoint arg).2.sched.runningProcess = k.sched.runningProcess := by
  unfold Kernel.createProcess
  dsimp only
  split <;> rfl

theorem createUserProcess_running (k : Kernel) (entryPoint arg : QWORD) :
    (k.createUserProcess entryPoint arg).2.sched.runningProcess = k.sched.runningProcess := by
  have hrun := createProcess_running (k.setIf false).2 entryPoint arg
  unfold Kernel.createUserProcess
  dsimp only
  generalize (k.setIf false).2.createProcess entryPoint arg = made at hrun ⊢
  obtain ⟨slot, k'⟩ := made
  cases slot <;> exact hrun

theorem runUserProgram_running (k : Kernel) (image : Bytes) (size : ℕ) (arg : QWORD) :
    (k.runUserProgram image size arg).2.sched.runningProcess = k.sched.runningProcess := by
  have hrun := createUserProcess_running ((k.setIf false).2.copyImage image size)
    (BitVec.ofNat 64 userCodeAddress) arg
  unfold Kernel.runUserProgram
  split
  · rfl
  · dsimp only
    generalize ((k.setIf false).2.copyImage image size).createUserProcess
      (BitVec.ofNat 64 userCodeAddress) arg = made at hrun ⊢
    obtain ⟨slot, k'⟩ := made
    cases slot <;> exact hrun

/-- The stores of a call lead to the state of the call. -/
theorem final_runCall {c : Call} {stores : Stores Kernel Unit} (h : runCall c regs = some stores) :
    stores.final k = k.runCall c regs := by
  cases c with
  | createProcess entryPoint arg =>
    obtain ⟨hfinal, hresult⟩ := final_createProcess (k := k) entryPoint arg
    exact Option.some.inj h ▸
      final_orForever hfinal hresult (createProcess_running k entryPoint arg)
  | createUserProcess entryPoint arg =>
    obtain ⟨hfinal, hresult⟩ := final_createUserProcess (k := k) entryPoint arg
    exact Option.some.inj h ▸
      final_orForever hfinal hresult (createUserProcess_running k entryPoint arg)
  | runUserProgram image size arg =>
    obtain ⟨hfinal, hresult⟩ := final_runUserProgram (k := k) image size arg
    exact Option.some.inj h ▸
      final_orForever hfinal hresult (runUserProgram_running k image size arg)
  | sleepProcess ms => exact Option.some.inj h ▸ final_sleepProcess ms
  | acquireLock m => exact Option.some.inj h ▸ final_acquireLock m
  | releaseLock m => exact Option.some.inj h ▸ final_releaseLock m
  | getKey => exact Option.some.inj h ▸ final_getKey
  | getQueue => exact Option.some.inj h ▸ final_getQueue
  | waitInterrupt isPrimary => exact Option.some.inj h ▸ final_waitInterrupt isPrimary
  | setIf | clearDiskInterruptFlag | schedule | exitProcess => exact nomatch h

/-- And so do those behind the return from a switch. -/
theorem final_resumeCall {point : ResumePoint} {stores : Stores Kernel Unit}
    (h : resumeCall k.sched.runningProcess point regs = some stores) :
    k.resumeCall point regs = some (stores.final k) := by
  cases point with
  | sleepProcess preIf => exact Option.some.inj h ▸ rfl
  | acquireLock m preIf => exact Option.some.inj h ▸ rfl
  | getKey preIf =>
    obtain rfl := Option.some.inj h
    exact congrArg some (final_getKeyLoop preIf).symm
  | waitInterrupt isPrimary deadline =>
    obtain rfl := Option.some.inj h
    exact congrArg some (final_waitLoop isPrimary deadline).symm
  | code | schedule | garbageProcessCollector | exitProcess | createProcess => exact nomatch h

end Final

end SkhuOS.Traced
