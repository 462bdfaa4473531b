import SkhuOS.Proc.Kernel

/-! Waiting for the disk in `kernel/drivers/Disk.c`: the completion interrupts of the
two channels and `waitInterrupt`. A channel is named by `isPrimary`. -/
namespace SkhuOS

def waitTimeoutMs : QWORD := 500

namespace Kernel

variable (k : Kernel)

/-- `primaryDiskInterruptHandler` and `secondaryDiskInterruptHandler`. -/
def diskInterruptHandler (isPrimary : Bool) : Kernel :=
  let k := { k with interruptOccur := Function.update k.interruptOccur isPrimary true }
  { k with sched := k.sched.wakeupProcessInInterrupt (k.diskWaiter isPrimary) }

def clearDiskInterruptFlag (isPrimary : Bool) : Kernel :=
  { k with interruptOccur := Function.update k.interruptOccur isPrimary false }

/-- The loop of `waitInterrupt` with interrupts enabled in the caller; the result is
`none` while the caller is blocked. -/
def waitLoop (isPrimary : Bool) (deadline : QWORD) (regs : ProcessContext) :
    Option Bool × Kernel :=
  if k.interruptOccur isPrimary then
    (some true, ((k.setResumePoint k.sched.runningProcess .code).setIf true).2)
  else if k.sched.tickCount ≥ deadline then
    (some false, ((k.setResumePoint k.sched.runningProcess .code).setIf true).2)
  else
    let cur := k.sched.runningProcess
    let k := { k with diskWaiter := Function.update k.diskWaiter isPrimary (some cur) }
    let k := k.setResumePoint cur (.waitInterrupt isPrimary deadline)
    (none, { k with sched := k.sched.sleepUntilTick deadline regs })

/-- With interrupts disabled nothing can set the flag during the polling loop. -/
def waitInterrupt (isPrimary : Bool) (regs : ProcessContext) : Option Bool × Kernel :=
  let (preIf, k) := k.setIf false
  if !preIf then (some (k.interruptOccur isPrimary), k)
  else
    let deadline := k.sched.tickCount + (waitTimeoutMs + slotTime - 1) / slotTime
    k.waitLoop isPrimary deadline regs

end Kernel
end SkhuOS
