import SkhuOS.Common.Paging
import SkhuOS.Lib.Queue
import SkhuOS.Proc.Process

/-! The kernel state around the scheduler and the rest of `kernel/proc/Process.c`:
process creation, exit, the collector and the user-access bits of the page table. -/
namespace SkhuOS
open Foundation

/-- `KERNEL_SIZE` of `mm/Memory.h`, used as a page index. -/
def kernelSize : ℕ := 0x4000
def userMemoryBase : ℕ := 0x3000000
def userCodeAddress : ℕ := userMemoryBase
def userCodeSize : ℕ := 0x100000
def userStackBase : ℕ := userCodeAddress + userCodeSize
def userStackSize : ℕ := processStackSize
def userStackInterval : ℕ := processStackInterval
def userMemoryEnd : ℕ := 0x4000000

/-- Where a process continues when it gets the processor: in its own code, or inside
the kernel call that gave the processor up, with the interrupt flag to restore. -/
inductive ResumePoint where
  | code
  | sleepProcess (preIf : Bool)
  | schedule (preIf : Bool)
  | acquireLock (mutex : ℕ) (preIf : Bool)
  | getKey (preIf : Bool)
  | waitInterrupt (isPrimary : Bool) (deadline : QWORD)
  | garbageProcessCollector (preIf : Bool)
  /-- The `while(1)` behind the last switch of `exitProcess`. -/
  | exitProcess
  /-- The `while(1)` of the error path of `createProcess`. -/
  | createProcess
  deriving DecidableEq

/-- `pid` and `count` of a mutex; its `waitList` is a list of the scheduler's nodes. -/
structure Mutex where
  pid : ℤ
  count : WORD

structure Kernel where
  sched : Scheduler
  resumePoint : ℕ → ResumePoint
  pidCountIdx : ℕ
  /-- Entry 1024 stands for the word behind the table, which `createProcess` reaches
  only when slot 0 is free. -/
  allocProcessTable : ℕ → Bool
  exitProcessQueue : Queue
  collectorProcess : Option ℕ
  mutex : ℕ → Mutex
  keyQueue : Queue
  keyWaiter : Option ℕ
  shiftOn : Bool
  interruptOccur : Bool → Bool
  diskWaiter : Bool → Option ℕ
  page : ℕ → PtEntry
  userMemory : Bytes

/-- The four bytes of an `int`. -/
def intBytes (i : ℤ) : Bytes := writeLE (fun _ => 0) 0 4 (BitVec.ofInt 32 i).toNat

/-- The pid stored as an `int` at `a`. -/
def pidAt (m : Bytes) (a : ℕ) : ℕ := (BitVec.ofNat 32 (readLE m a 4)).toInt.toNat

theorem pidAt_intBytes {p : ℕ} (h : p < 2 ^ 31) : pidAt (intBytes p) 0 = p := by
  have hint : (BitVec.ofInt 32 (p : ℤ)).toNat = p := by
    rw [BitVec.ofInt_natCast, BitVec.toNat_ofNat]
    omega
  rw [pidAt, intBytes, hint, readLE_writeLE, BitVec.toInt_eq_toNat_cond, BitVec.toNat_ofNat]
  omega

theorem blockRead_pidAt : BlockRead 4 pidAt := fun m m' a a' h => by
  have hread : readLE m a 4 = readLE m' a' 4 := blockRead_readLE 4 m m' a a' h
  rw [pidAt, pidAt, hread]

/-- The exit queue takes a pid unless it is full. -/
theorem enQueue_pid {queue : Queue} (hw : queue.WellFormed) (hsize : queue.dataSize = 4) {p : ℕ}
    (hp : p < 2 ^ 31) : (enQueue queue (intBytes p)).2.contents pidAt =
      if queueIsFull queue then queue.contents pidAt else queue.contents pidAt ++ [p] := by
  split
  next hfull => rw [enQueue_full hfull]
  next hfull =>
    rw [(enQueue_contents hw (hsize ▸ blockRead_pidAt) (by simpa using hfull)).2, pidAt_intBytes hp]

/-- One store of `setPageUserAccess`. -/
def PtEntry.setUserAccess (allow : Bool) (entry : PtEntry) : PtEntry :=
  { entry with lower4Byte :=
      if allow then entry.lower4Byte ||| pageFlagUS else entry.lower4Byte &&& ~~~pageFlagUS }

/-- The loop over the pages of `[start, stop)`. -/
def setPageUserAccess (start stop : ℕ) (allow : Bool) (page : ℕ → PtEntry) : ℕ → PtEntry :=
  (List.range ((stop - start + 0xFFF) / 0x1000)).foldl (fun page i =>
    Function.update page ((start + i * 0x1000) >>> 12)
      ((page ((start + i * 0x1000) >>> 12)).setUserAccess allow)) page

/-- The scan of `createProcess` for a free slot. The first argument is how many more
times `tryCount` may grow; `false` is the error path. -/
def findSlot (table : ℕ → Bool) : ℕ → ℕ → Bool × ℕ
  | 0, idx => (!table (idx % processMaxCount), idx)
  | fuel + 1, idx =>
    if table (idx % processMaxCount) then findSlot table fuel ((idx + 1) % processMaxCount)
    else (true, idx)

/-- The address of `context.reg` of slot `p`, cut to an `int` by the call. -/
def contextAddress (p : ℕ) : ℤ :=
  (BitVec.ofNat 32 (pcbPoolAddress + pcbSize * p + pcbContextOffset)).toInt

/-- A register file as the 32-bit words from `base` on, and back. -/
def contextWords (base : ℤ) (context : ProcessContext) : ℤ → DWORD := fun a =>
  let offset := (a - base).toNat
  if h : offset / 8 < 24 then
    (context ⟨offset / 8, h⟩).extractLsb' (8 * (offset % 8)) 32
  else 0

def contextOfWords (base : ℤ) (mem : ℤ → DWORD) : ProcessContext := fun r =>
  mem (base + 8 * r + 4) ++ mem (base + 8 * r)

/-- The call `InitializeMemory(pcb->context.reg, sizeof(pcb->context.reg))`. -/
def clearContext (p : ℕ) (context : ProcessContext) : ProcessContext :=
  contextOfWords (contextAddress p)
    (initializeMemory (contextAddress p) (8 * 24) (contextWords (contextAddress p) context))

/-- The register file `setUpProcess` leaves in slot `p`. -/
def setUpContext (p : ℕ) (entryPoint stackAddress stackSize : QWORD) (old : ProcessContext) :
    ProcessContext :=
  let reg := clearContext p old
  let reg := Function.update reg regCS codeDescriptorOffset
  let reg := Function.update reg regSS dataDescriptorOffset
  let reg := Function.update reg regDS dataDescriptorOffset
  let reg := Function.update reg regES dataDescriptorOffset
  let reg := Function.update reg regFS dataDescriptorOffset
  let reg := Function.update reg regGS dataDescriptorOffset
  let reg := Function.update reg regRIP entryPoint
  let reg := Function.update reg regRSP (stackAddress + stackSize)
  let reg := Function.update reg regRBP (stackAddress + stackSize)
  Function.update reg regRFLAGS (reg regRFLAGS ||| rflagsIF)

/-- The registers `createUserProcess` sets over those of `createProcess`. -/
def setUserContext (userStack : QWORD) (reg : ProcessContext) : ProcessContext :=
  let reg := Function.update reg regCS (userCodeDescriptorOffset ||| rplUser)
  let reg := Function.update reg regSS (userDataDescriptorOffset ||| rplUser)
  let reg := Function.update reg regDS (userDataDescriptorOffset ||| rplUser)
  let reg := Function.update reg regES (userDataDescriptorOffset ||| rplUser)
  let reg := Function.update reg regFS (userDataDescriptorOffset ||| rplUser)
  let reg := Function.update reg regGS (userDataDescriptorOffset ||| rplUser)
  let reg := Function.update reg regRSP (userStack + BitVec.ofNat 64 userStackSize)
  Function.update reg regRBP (userStack + BitVec.ofNat 64 userStackSize)

def Scheduler.setUpProcess (s : Scheduler) (p : ℕ) (entryPoint stackAddress stackSize : QWORD) :
    Scheduler :=
  s.modifyPcb p fun pcb => { pcb with
    stackAddress := stackAddress
    stackSize := stackSize
    context := setUpContext p entryPoint stackAddress stackSize pcb.context }

/-- The part of `createProcess` that fills slot `p` and appends it to the ready list. -/
def Scheduler.addProcess (s : Scheduler) (p : ℕ) (entryPoint arg : QWORD) : Scheduler :=
  let s := { s with link := Function.update s.link p { s.link p with id := p } }
  let s := s.setUpProcess p entryPoint
    (BitVec.ofNat 64 (processStackBase + processStackInterval * p))
    (BitVec.ofNat 64 processStackSize)
  let s := s.modifyPcb p fun pcb =>
    { pcb with context := Function.update pcb.context regRDI arg }
  let s := s.setState p .ready
  s.insertList .processList p

namespace Kernel

variable (k : Kernel)

def setIf (interrupt : Bool) : Bool × Kernel :=
  ((k.sched.setIf interrupt).1, { k with sched := (k.sched.setIf interrupt).2 })

def setResumePoint (p : ℕ) (point : ResumePoint) : Kernel :=
  { k with resumePoint := Function.update k.resumePoint p point }

/-- `createProcess` behind its search: slot `p` is filled and marked as used. -/
def createAt (p : ℕ) (entryPoint arg : QWORD) : Kernel :=
  let entry := k.page (kernelSize + p * 2)
  { k with
    sched := k.sched.addProcess p entryPoint arg
    page := Function.update k.page (kernelSize + p * 2)
      { entry with lower4Byte := entry.lower4Byte ||| pageFlagP }
    allocProcessTable := Function.update k.allocProcessTable p true
    pidCountIdx := p + 1
    resumePoint := Function.update k.resumePoint p .code }

/-- `none` when the call never returns. -/
def createProcess (entryPoint arg : QWORD) : Option ℕ × Kernel :=
  let (preIf, k) := k.setIf false
  let (found, p) := findSlot k.allocProcessTable processMaxCount k.pidCountIdx
  if found then (some p, ((k.createAt p entryPoint arg).setIf preIf).2)
  else (none, { k with pidCountIdx := p })

def createUserProcess (entryPoint arg : QWORD) : Option ℕ × Kernel :=
  let (preIf, k) := k.setIf false
  match k.createProcess entryPoint arg with
  | (none, k) => (none, k)
  | (some p, k) =>
    let userStack := userStackBase + userStackInterval * p
    let k := { k with
      page := setPageUserAccess userStack (userStack + userStackSize) true k.page
      sched := k.sched.modifyPcb p fun pcb =>
        { pcb with context := setUserContext (BitVec.ofNat 64 userStack) pcb.context } }
    (some p, (k.setIf preIf).2)

/-- The part of `runUserProgram` that fills the program area and opens it. -/
def copyImage (image : Bytes) (size : ℕ) : Kernel :=
  { k with
    userMemory := copyBytes k.userMemory userCodeAddress image 0 size
    page := setPageUserAccess userCodeAddress (userCodeAddress + userCodeSize) true k.page }

/-- The outer `none` is a call that never returns, `some none` the result NULL. -/
def runUserProgram (image : Bytes) (size : ℕ) (arg : QWORD) : Option (Option ℕ) × Kernel :=
  if size > userCodeSize then (some none, k)
  else
    let (preIf, k) := k.setIf false
    match (k.copyImage image size).createUserProcess (BitVec.ofNat 64 userCodeAddress) arg with
    | (none, k) => (none, k)
    | (some p, k) => (some (some p), (k.setIf preIf).2)

def sleepProcess (ms : QWORD) (regs : ProcessContext) : Kernel :=
  let (preIf, k) := k.setIf false
  let k := k.setResumePoint k.sched.runningProcess (.sleepProcess preIf)
  { k with sched :=
      k.sched.sleepUntilTick (k.sched.tickCount + (ms + slotTime - 1) / slotTime) regs }

def exitProcess (regs : ProcessContext) : Kernel :=
  let k := (k.setIf false).2
  let cur := k.sched.runningProcess
  let k := { k with
    exitProcessQueue := (enQueue k.exitProcessQueue (intBytes (k.sched.link cur).id)).2 }
  let k := { k with sched := (k.sched.wakeupProcess k.collectorProcess).2 }
  let k := { k with sched := k.sched.setState cur .exit }
  let k := k.setResumePoint cur .exitProcess
  { k with sched := k.sched.scheduleBlocked regs }

/-- The body of the collector behind its `setIf(FALSE)`, from the inner loop on. -/
def collectLoop (preIf : Bool) (regs : ProcessContext) : Kernel :=
  if queueIsEmpty k.exitProcessQueue then
    let k := k.setResumePoint k.sched.runningProcess (.garbageProcessCollector preIf)
    { k with sched := k.sched.blockRunningProcess regs }
  else
    let (_, data, queue) := deQueue k.exitProcessQueue fun _ => 0
    let pid := pidAt data 0
    let userStack := userStackBase + userStackInterval * pid
    let page := setPageUserAccess userStack (userStack + userStackSize) false k.page
    let entry := page (kernelSize + pid * 2)
    let k := { k with
      exitProcessQueue := queue
      allocProcessTable := Function.update k.allocProcessTable pid false
      page := Function.update page (kernelSize + pid * 2)
        { entry with lower4Byte := entry.lower4Byte &&& ~~~pageFlagP } }
    let k := k.setResumePoint k.sched.runningProcess .code
    (k.setIf preIf).2

/-- One round of the collector's outer loop. -/
def garbageProcessCollector (regs : ProcessContext) : Kernel :=
  let (preIf, k) := k.setIf false
  k.collectLoop preIf regs

def schedule (regs : ProcessContext) : Kernel :=
  let (preIf, k) := k.setIf false
  if (k.sched.headRemove .processList).1 = none then (k.setIf preIf).2
  else
    let k := k.setResumePoint k.sched.runningProcess (.schedule preIf)
    { k with sched := k.sched.yieldTo regs }

/-- `initScheduler` up to the first `createProcess`: the caller becomes process 0. -/
def initRunningProcess : Kernel :=
  let s := k.sched
  let s := { s with
    link := Function.update s.link 0 { s.link 0 with id := 0 }
    list := Function.update (Function.update s.list .processList initList) .sleepList initList
    runningProcess := 0 }
  let s := s.setState 0 .running
  { k with
    sched := s
    allocProcessTable := Function.update k.allocProcessTable 0 true
    pidCountIdx := 1
    exitProcessQueue := initQueue k.exitProcessQueue.queueArr exitQueueCount 4 }

/-- `initScheduler`, given the entry points of the two kernel processes. The idle
process is taken out of the ready list again. -/
def initScheduler (collectorEntry idleEntry : QWORD) : Kernel :=
  let (collector, k) := k.initRunningProcess.createProcess collectorEntry 0
  let k := { k with collectorProcess := collector }
  let (idle, k) := k.createProcess idleEntry 0
  let idle := idle.getD k.sched.idleProcess
  { k with sched :=
      ({ k.sched with idleProcess := idle }.removeList .processList (k.sched.link idle).id).2 }

end Kernel

end SkhuOS
