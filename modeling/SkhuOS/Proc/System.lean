import SkhuOS.Foundation.Transition
import SkhuOS.Proc.Sync
import SkhuOS.Drivers.Keyboard
import SkhuOS.Drivers.DiskWait

/-! The kernel as a transition system. A step is one section with interrupts off:
an interrupt handler, a kernel call up to the point where it returns or gives the
processor up, or the rest of such a call when its process gets the processor back. -/
namespace SkhuOS
open Foundation

/-- Kernel calls a process makes from its own code. -/
inductive Call where
  | setIf (interrupt : Bool)
  | createProcess (entryPoint arg : QWORD)
  | createUserProcess (entryPoint arg : QWORD)
  | runUserProgram (image : Bytes) (size : ℕ) (arg : QWORD)
  | sleepProcess (ms : QWORD)
  | acquireLock (mutex : ℕ)
  | releaseLock (mutex : ℕ)
  | getKey
  | getQueue
  | clearDiskInterruptFlag (isPrimary : Bool)
  | waitInterrupt (isPrimary : Bool)
  | schedule
  | exitProcess

def Call.isExit : Call → Bool
  | .exitProcess => true
  | _ => false

/-- The register files in the labels are those of the running process when it is
interrupted or switches away; they are arbitrary apart from the interrupt flag. -/
inductive Action where
  | timer (frame : ProcessContext)
  | keyboard (scanCode : Option BYTE) (frame : ProcessContext)
  | disk (isPrimary : Bool) (frame : ProcessContext)
  | call (c : Call) (regs : ProcessContext)
  | resume (regs : ProcessContext)
  | collect (regs : ProcessContext)

def Action.isInterrupt : Action → Bool
  | .timer _ | .keyboard _ _ | .disk _ _ => true
  | _ => false

namespace Kernel

variable (k : Kernel)

/-- The CPU saves the context on the interrupt stack and clears the flag; `iretq`
loads whatever context the handler leaves there. -/
def interrupt (frame : ProcessContext) (handler : Kernel → Kernel) : Kernel :=
  let k := { k with sched := { k.sched with ist := withIf frame true, interruptFlag := false } }
  let k := handler k
  { k with sched := { k.sched with interruptFlag := contextIf k.sched.ist } }

/-- A creating call whose error loop is never left. -/
def orForever {α : Type} (result : Option α × Kernel) : Kernel :=
  match result with
  | (some _, k) => k
  | (none, k) => k.setResumePoint k.sched.runningProcess .createProcess

def runCall (c : Call) (regs : ProcessContext) : Kernel :=
  match c with
  | .setIf interrupt => (k.setIf interrupt).2
  | .createProcess entryPoint arg => orForever (k.createProcess entryPoint arg)
  | .createUserProcess entryPoint arg => orForever (k.createUserProcess entryPoint arg)
  | .runUserProgram image size arg => orForever (k.runUserProgram image size arg)
  | .sleepProcess ms => k.sleepProcess ms regs
  | .acquireLock m => k.acquireLock m regs
  | .releaseLock m => k.releaseLock m
  | .getKey => (k.getKey regs).2
  | .getQueue => k.getQueue.2
  | .clearDiskInterruptFlag isPrimary => k.clearDiskInterruptFlag isPrimary
  | .waitInterrupt isPrimary => (k.waitInterrupt isPrimary regs).2
  | .schedule => k.schedule regs
  | .exitProcess => k.exitProcess regs

/-- The rest of a call behind its return address, when the process runs again. -/
def resumeCall (point : ResumePoint) (regs : ProcessContext) : Option Kernel :=
  let done (preIf : Bool) := ((k.setResumePoint k.sched.runningProcess .code).setIf preIf).2
  match point with
  | .code => none
  | .sleepProcess preIf => some (done preIf)
  | .schedule preIf => some (done preIf)
  | .acquireLock _ preIf => some (done preIf)
  | .getKey preIf => some ({ k with keyWaiter := none }.getKeyLoop preIf regs).2
  | .waitInterrupt isPrimary deadline =>
    some ({ k with diskWaiter := Function.update k.diskWaiter isPrimary none }.waitLoop
      isPrimary deadline regs).2
  | .garbageProcessCollector preIf => some (k.collectLoop preIf regs)
  | .exitProcess => none
  | .createProcess => none

/-- The running process is in its own code. The idle process and the collector make
no calls there, and the shell, process 0, never exits: `startShell` does not return. -/
def MayCall (c : Call) : Prop :=
  k.resumePoint k.sched.runningProcess = .code ∧
    k.sched.runningProcess ≠ k.sched.idleProcess ∧
    some k.sched.runningProcess ≠ k.collectorProcess ∧
    (c.isExit = true → k.sched.runningProcess ≠ 0)

instance (c : Call) : Decidable (k.MayCall c) := inferInstanceAs (Decidable (_ ∧ _ ∧ _ ∧ _))

def step (a : Action) : Option Kernel :=
  match a with
  | .timer frame =>
    if k.sched.interruptFlag then
      some (k.interrupt frame fun k => { k with sched := k.sched.timerInterruptHandler })
    else none
  | .keyboard scanCode frame =>
    if k.sched.interruptFlag then
      some (k.interrupt frame fun k => k.keyboardInterruptHandler scanCode)
    else none
  | .disk isPrimary frame =>
    if k.sched.interruptFlag then
      some (k.interrupt frame fun k => k.diskInterruptHandler isPrimary)
    else none
  | .call c regs => if k.MayCall c then some (k.runCall c regs) else none
  | .resume regs => k.resumeCall (k.resumePoint k.sched.runningProcess) regs
  | .collect regs =>
    if some k.sched.runningProcess = k.collectorProcess ∧
        k.resumePoint k.sched.runningProcess = .code then
      some (k.garbageProcessCollector regs)
    else none

end Kernel

/-- What the boot stages leave behind: nothing but static data is cleared, so the PCB
pool, the interrupt stack and the page table hold whatever they held before. -/
structure Boot where
  link : ℕ → Node ℕ
  pcb : ℕ → PCB
  ist : ProcessContext
  rsp0 : QWORD
  page : ℕ → PtEntry
  userMemory : Bytes
  collectorEntry : QWORD
  idleEntry : QWORD

namespace Boot

variable (b : Boot)

/-- The state at the entry of `Main`, behind `clearBss`. -/
def statics : Kernel where
  sched :=
    { link := b.link, pcb := b.pcb, list := fun _ => initList, runningProcess := 0,
      idleProcess := 0, tickCount := 0, rsp0 := b.rsp0, ist := b.ist, interruptFlag := false }
  resumePoint := fun _ => .code
  pidCountIdx := 0
  allocProcessTable := fun _ => false
  exitProcessQueue := ⟨0, 0, 0, 0, fun _ => 0⟩
  collectorProcess := none
  mutex := fun _ => ⟨0, 0⟩
  keyQueue := ⟨0, 0, 0, 0, fun _ => 0⟩
  keyWaiter := none
  shiftOn := false
  interruptOccur := fun _ => false
  diskWaiter := fun _ => none
  page := b.page
  userMemory := b.userMemory

/-- The state `Main` starts the shell in: `initKeyboard`, `initScheduler`, and
`initMutex` for every mutex. Interrupts are still off. -/
def start : Kernel :=
  let k := b.statics.initKeyboard.initScheduler b.collectorEntry b.idleEntry
  { k with mutex := fun m => (k.initMutex m).mutex m }

/-- Memory that holds zeros everywhere. -/
def zero : Boot where
  link := fun _ => ⟨none, 0⟩
  pcb := fun _ => ⟨0, 0, .ready, 0, fun _ => 0⟩
  ist := fun _ => 0
  rsp0 := 0
  page := fun _ => ⟨0, 0⟩
  userMemory := fun _ => 0
  collectorEntry := 0
  idleEntry := 0

end Boot

/-- A run of the kernel from the start of the shell, with its history. -/
abbrev KernelRun (ok : Kernel → Action → Prop) (b : Boot) :
    List (Move Kernel Action) → Kernel → Prop := Run Kernel.step ok b.start

/-- A state some run leads to. -/
def Reachable (k : Kernel) : Prop := ∃ b history, KernelRun anyStep b history k

end SkhuOS
