import SkhuOS.Lib.LinkedList
import SkhuOS.Lib.InitializeMemory

/-! Process control blocks and the scheduler of `kernel/proc/Process.c`.
A PCB is named by its slot in the pool at `pcbPoolAddress`; its `link` node sits
in a heap of its own, which is all the list functions see. -/
namespace SkhuOS

def pcbPoolAddress : ℕ := 0x1000000
def processStackBase : ℕ := 0x2000000
def processStackSize : ℕ := 0x2000
def processStackInterval : ℕ := 0x3000
def slotTime : QWORD := 5
def processMaxCount : ℕ := 1024
def exitQueueCount : ℕ := 100

/-- `sizeof(PCB)` and the offset of `context.reg` in the packed structure. -/
def pcbSize : ℕ := 237
def pcbContextOffset : ℕ := 45

abbrev ProcessContext := Fin 24 → QWORD

def regGS : Fin 24 := 0
def regFS : Fin 24 := 1
def regES : Fin 24 := 2
def regDS : Fin 24 := 3
def regRAX : Fin 24 := 4
def regRBX : Fin 24 := 5
def regRCX : Fin 24 := 6
def regRDX : Fin 24 := 7
def regRSI : Fin 24 := 8
def regRDI : Fin 24 := 9
def regRBP : Fin 24 := 10
def regR8 : Fin 24 := 11
def regR9 : Fin 24 := 12
def regR10 : Fin 24 := 13
def regR11 : Fin 24 := 14
def regR12 : Fin 24 := 15
def regR13 : Fin 24 := 16
def regR14 : Fin 24 := 17
def regR15 : Fin 24 := 18
def regRIP : Fin 24 := 19
def regCS : Fin 24 := 20
def regRFLAGS : Fin 24 := 21
def regRSP : Fin 24 := 22
def regSS : Fin 24 := 23

def rflagsIF : QWORD := 0x200

def codeDescriptorOffset : QWORD := 0x10
def dataDescriptorOffset : QWORD := 0x08
def userDataDescriptorOffset : QWORD := 0x18
def userCodeDescriptorOffset : QWORD := 0x20
def rplUser : QWORD := 0x03

/-- The interrupt flag in a saved RFLAGS. -/
def contextIf (context : ProcessContext) : Bool := (context regRFLAGS).getLsbD 9

/-- A register file whose interrupt flag is `b`. -/
def withIf (context : ProcessContext) (b : Bool) : ProcessContext :=
  Function.update context regRFLAGS
    (if b then context regRFLAGS ||| rflagsIF else context regRFLAGS &&& ~~~rflagsIF)

@[simp] theorem contextIf_withIf (context : ProcessContext) (b : Bool) :
    contextIf (withIf context b) = b := by
  cases b <;> simp [contextIf, withIf, rflagsIF]

inductive ProcessState where
  | ready | running | blocked | exit
  deriving DecidableEq

structure PCB where
  stackSize : QWORD
  stackAddress : QWORD
  state : ProcessState
  wakeupTick : QWORD
  context : ProcessContext

/-- The lists that link PCB nodes: the two of the scheduler and one of each mutex. -/
inductive ListName where
  | processList
  | sleepList
  | waitList (mutex : ℕ)
  deriving DecidableEq

/-- The PCB pool, `scheduler`, `tickCount`, TSS.rsp[0], the context at the top of
the interrupt stack and the interrupt flag of the single core. -/
structure Scheduler where
  link : ℕ → Node ℕ
  pcb : ℕ → PCB
  list : ListName → LinkedList ℕ
  runningProcess : ℕ
  idleProcess : ℕ
  tickCount : QWORD
  rsp0 : QWORD
  ist : ProcessContext
  interruptFlag : Bool

namespace Scheduler

variable (s : Scheduler)

def modifyPcb (p : ℕ) (f : PCB → PCB) : Scheduler :=
  { s with pcb := Function.update s.pcb p (f (s.pcb p)) }

def setState (p : ℕ) (state : ProcessState) : Scheduler :=
  s.modifyPcb p fun pcb => { pcb with state := state }

def insertList (name : ListName) (p : ℕ) : Scheduler :=
  { s with
    link := (SkhuOS.insertList s.link (s.list name) p).1
    list := Function.update s.list name (SkhuOS.insertList s.link (s.list name) p).2 }

def removeList (name : ListName) (id : ℤ) : Option ℕ × Scheduler :=
  ((SkhuOS.removeList s.link (s.list name) id).1,
    { s with
      link := (SkhuOS.removeList s.link (s.list name) id).2.1
      list := Function.update s.list name (SkhuOS.removeList s.link (s.list name) id).2.2 })

def headRemove (name : ListName) : Option ℕ × Scheduler :=
  ((SkhuOS.headRemove s.link (s.list name)).1,
    { s with
      link := (SkhuOS.headRemove s.link (s.list name)).2.1
      list := Function.update s.list name (SkhuOS.headRemove s.link (s.list name)).2.2 })

/-- Returns the flag before the call. -/
def setIf (interrupt : Bool) : Bool × Scheduler :=
  (s.interruptFlag, { s with interruptFlag := interrupt })

def updateTSSRsp0 (next : ℕ) : Scheduler :=
  { s with rsp0 := (s.pcb next).stackAddress + (s.pcb next).stackSize }

/-- What every switch does with the process it chose, before it loads its context. -/
def makeRunning (next : ℕ) : Scheduler :=
  { s.setState next .running with runningProcess := next }.updateTSSRsp0 next

/-- Save the registers `regs` of the caller with the current interrupt flag and
load the context of `next`, flag included. -/
def switchContext (current next : ℕ) (regs : ProcessContext) : Scheduler :=
  let s := s.modifyPcb current fun pcb => { pcb with context := withIf regs s.interruptFlag }
  { s with interruptFlag := contextIf (s.pcb next).context }

def scheduleBlocked (regs : ProcessContext) : Scheduler :=
  let cur := s.runningProcess
  let (next, s) := s.headRemove .processList
  let next := next.getD s.idleProcess
  (s.makeRunning next).switchContext cur next regs

def blockRunningProcess (regs : ProcessContext) : Scheduler :=
  (s.setState s.runningProcess .blocked).scheduleBlocked regs

def sleepUntilTick (tick : QWORD) (regs : ProcessContext) : Scheduler :=
  let cur := s.runningProcess
  let s := s.modifyPcb cur fun pcb => { pcb with wakeupTick := tick }
  let s := s.insertList .sleepList cur
  s.blockRunningProcess regs

def wakeupProcess (pcb : Option ℕ) : Bool × Scheduler :=
  match pcb with
  | none => (false, s)
  | some p =>
    if (s.pcb p).state ≠ .blocked then (false, s)
    else
      let s := (s.removeList .sleepList (s.link p).id).2
      let s := s.setState p .ready
      (true, s.insertList .processList p)

/-- Runs in an interrupt handler: the interrupted context is in `ist`. -/
def timeoutSchedule : Scheduler :=
  if (s.list .processList).count = 0 then s
  else
    match s.headRemove .processList with
    | (none, s) => s
    | (some next, s) =>
      let cur := s.runningProcess
      let s := s.modifyPcb cur fun pcb => { pcb with context := s.ist }
      let s :=
        if cur ≠ s.idleProcess then (s.setState cur .ready).insertList .processList cur else s
      let s := s.makeRunning next
      { s with ist := (s.pcb next).context }

def wakeupProcessInInterrupt (pcb : Option ℕ) : Scheduler :=
  let (woken, s) := s.wakeupProcess pcb
  if woken && s.runningProcess == s.idleProcess then s.timeoutSchedule else s

/-- The loop of `wakeExpiredProcess`; the successor is read before the wakeup unlinks
the node. The first argument bounds the iterations by the length of the list. -/
def wakeExpiredLoop : ℕ → Option ℕ → Scheduler → Scheduler
  | 0, _, s => s
  | _ + 1, none, s => s
  | fuel + 1, some cur, s =>
    let next := (s.link cur).next
    let s := if s.tickCount ≥ (s.pcb cur).wakeupTick then (s.wakeupProcess (some cur)).2 else s
    wakeExpiredLoop fuel next s

def wakeExpiredProcess : Scheduler :=
  wakeExpiredLoop (s.list .sleepList).count (s.list .sleepList).head s

def timerInterruptHandler : Scheduler :=
  let s := { s with tickCount := s.tickCount + 1 }
  s.wakeExpiredProcess.timeoutSchedule

/-- The voluntary switch of `schedule`, when there is a process to switch to. -/
def yieldTo (regs : ProcessContext) : Scheduler :=
  match s.headRemove .processList with
  | (none, s) => s
  | (some next, s) =>
    let cur := s.runningProcess
    let s := (s.setState cur .ready).insertList .processList cur
    (s.makeRunning next).switchContext cur next regs

end Scheduler

end SkhuOS
