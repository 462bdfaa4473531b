import SkhuOS.Proc.Kernel

/-! The re-entrant mutex of `kernel/proc/Sync.c`. -/
namespace SkhuOS
namespace Kernel

variable (k : Kernel)

def setMutex (m : ℕ) (mutex : Mutex) : Kernel := { k with mutex := Function.update k.mutex m mutex }

def initMutex (m : ℕ) : Kernel :=
  { k.setMutex m ⟨-1, 0⟩ with
    sched := { k.sched with list := Function.update k.sched.list (.waitList m) initList } }

def getRunningPid : ℤ := (k.sched.link k.sched.runningProcess).id

def acquireLock (m : ℕ) (regs : ProcessContext) : Kernel :=
  let (preIf, k) := k.setIf false
  let currentPid := k.getRunningPid
  if (k.mutex m).pid = currentPid then
    ((k.setMutex m { k.mutex m with count := (k.mutex m).count + 1 }).setIf preIf).2
  else if (k.mutex m).pid = -1 then
    ((k.setMutex m ⟨currentPid, 1⟩).setIf preIf).2
  else
    let cur := k.sched.runningProcess
    let k := k.setResumePoint cur (.acquireLock m preIf)
    { k with sched := (k.sched.insertList (.waitList m) cur).blockRunningProcess regs }

def releaseLock (m : ℕ) : Kernel :=
  let (preIf, k) := k.setIf false
  if (k.mutex m).pid ≠ k.getRunningPid then (k.setIf preIf).2
  else
    let k := k.setMutex m { k.mutex m with count := (k.mutex m).count - 1 }
    if (k.mutex m).count = 0 then
      match k.sched.headRemove (.waitList m) with
      | (none, s) => (({ k with sched := s }.setMutex m { k.mutex m with pid := -1 }).setIf preIf).2
      | (some next, s) =>
        -- the lock is handed to the first waiter without being released
        let k := { k with sched := s }.setMutex m ⟨(s.link next).id, 1⟩
        ({ k with sched := (k.sched.wakeupProcess (some next)).2 }.setIf preIf).2
    else (k.setIf preIf).2

end Kernel
end SkhuOS
