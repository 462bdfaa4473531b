import SkhuOS.Drivers.PIC
import SkhuOS.Proc.System

/-! External interrupts in `kernel/arch/HandlerImp.c`: the table of handlers, the
dispatcher behind the stubs of vectors 32 to 47, and the handlers the drivers register. -/
namespace SkhuOS
open Foundation

def interruptVectorCount : ℕ := 48
def irqTimer : ℕ := 0
def irqKeyboard : ℕ := 1
def irqDisk1 : ℕ := 14
def irqDisk2 : ℕ := 15

/-- The functions the kernel registers. -/
inductive InterruptHandler where
  | timerInterruptHandler
  | keyboardInterruptHandler
  | primaryDiskInterruptHandler
  | secondaryDiskInterruptHandler
  deriving DecidableEq

/-- The initialisers that register handlers. -/
inductive Initialiser where
  | initKeyboard
  | initScheduler
  | initDisk

/-- The kernel with the controllers and the table of handlers. -/
structure Board where
  kernel : Kernel
  pics : PicDriver
  interruptHandlers : ℕ → Option InterruptHandler

namespace Board

variable (b : Board)

def registerInterruptHandler (vectorNumber : ℤ) (handler : InterruptHandler) : Board :=
  if vectorNumber < 0 ∨ vectorNumber ≥ interruptVectorCount then b
  else { b with
    interruptHandlers := Function.update b.interruptHandlers vectorNumber.toNat (some handler) }

def register (init : Initialiser) : Board :=
  match init with
  | .initKeyboard =>
    b.registerInterruptHandler (irqStartOffset + irqKeyboard) .keyboardInterruptHandler
  | .initScheduler => b.registerInterruptHandler (irqStartOffset + irqTimer) .timerInterruptHandler
  | .initDisk =>
    (b.registerInterruptHandler (irqStartOffset + irqDisk1) .primaryDiskInterruptHandler
      ).registerInterruptHandler (irqStartOffset + irqDisk2) .secondaryDiskInterruptHandler

def sendEOI (pin : ℤ) : Board := { b with pics := (b.pics.sendEOI pin).2 }

/-- The handlers acknowledge the interrupt themselves. `scanCode` is what the keyboard
controller has to offer. -/
def call (handler : InterruptHandler) (vectorNumber : ℤ) (scanCode : Option BYTE) : Board :=
  match handler with
  | .timerInterruptHandler =>
    let b := b.sendEOI (vectorNumber - irqStartOffset)
    { b with kernel := { b.kernel with sched := b.kernel.sched.timerInterruptHandler } }
  | .keyboardInterruptHandler =>
    { b with kernel := b.kernel.keyboardInterruptHandler scanCode }.sendEOI
      (vectorNumber - irqStartOffset)
  | .primaryDiskInterruptHandler =>
    let b := b.sendEOI (vectorNumber - irqStartOffset)
    { b with kernel := b.kernel.diskInterruptHandler true }
  | .secondaryDiskInterruptHandler =>
    let b := b.sendEOI (vectorNumber - irqStartOffset)
    { b with kernel := b.kernel.diskInterruptHandler false }

/-- Without a handler the dispatcher prints a message and returns. -/
def dispatchInterrupt (vectorNumber : ℕ) (scanCode : Option BYTE) : Board :=
  match b.interruptHandlers vectorNumber with
  | none => b
  | some handler => b.call handler vectorNumber scanCode

/-- The processor takes an interrupt on a line, and the stub calls the dispatcher. -/
def interrupt (line : ℕ) (scanCode : Option BYTE) (frame : ProcessContext) : Board :=
  let taken := { b with pics := b.pics.acknowledge line }
  let dispatched (kernel : Kernel) :=
    { taken with kernel := kernel }.dispatchInterrupt (irqStartOffset + line) scanCode
  { dispatched b.kernel with
    kernel := b.kernel.interrupt frame fun kernel => (dispatched kernel).kernel }

end Board

/-- An interrupt, or a step of the code that runs between interrupts. -/
inductive BoardAction where
  | interrupt (line : ℕ) (scanCode : Option BYTE) (frame : ProcessContext)
  | code (a : Action)

namespace Board

variable (b : Board)

def step : BoardAction → Option Board
  | .interrupt line scanCode frame =>
    if b.kernel.sched.interruptFlag = true ∧ b.pics.Offers line then
      some (b.interrupt line scanCode frame)
    else none
  | .code a =>
    if a.isInterrupt then none
    else (b.kernel.step a).map fun kernel => { b with kernel := kernel }

/-- `Main` programs the controllers, unmasks all lines and runs initialisers. -/
def start (boot : Boot) (pics : PicDriver) (inits : List Initialiser) : Board :=
  inits.foldl register
    { kernel := boot.start
      pics := (pics.initializePIC.setIMR 0).2
      interruptHandlers := fun _ => none }

end Board

/-- A run of the board behind any initialisers, from any state of the controllers. -/
abbrev BoardRun (boot : Boot) (pics : PicDriver) (inits : List Initialiser) :
    List (Move Board BoardAction) → Board → Prop :=
  Run Board.step anyStep (Board.start boot pics inits)

namespace Board

/-- Behind an interrupt its line is no more in service. -/
def Acknowledged (move : Move Board BoardAction) : Prop :=
  ∀ line scanCode frame, move.label = .interrupt line scanCode frame →
    ¬ move.after.pics.Serves line

/-- The interrupt came on a line somebody registered a handler for. -/
def Handled (move : Move Board BoardAction) : Prop :=
  ∀ line scanCode frame, move.label = .interrupt line scanCode frame →
    move.before.interruptHandlers (irqStartOffset + line) ≠ none

variable {b b' : Board} {a : BoardAction} {line : ℕ} {history : List (Move Board BoardAction)}

theorem call_pics (b : Board) (handler : InterruptHandler) (vectorNumber : ℤ)
    (scanCode : Option BYTE) : (b.call handler vectorNumber scanCode).pics =
      (b.pics.sendEOI (vectorNumber - irqStartOffset)).2 ∧
    (b.call handler vectorNumber scanCode).interruptHandlers = b.interruptHandlers := by
  cases handler <;> exact ⟨rfl, rfl⟩

/-- A handled interrupt leaves the controllers as they were, an unhandled one in service. -/
theorem interrupt_pics (hready : b.pics.Ready) (hoffers : b.pics.Offers line)
    (scanCode : Option BYTE) (frame : ProcessContext) :
    (b.interrupt line scanCode frame).interruptHandlers = b.interruptHandlers ∧
      (b.interrupt line scanCode frame).pics =
        if b.interruptHandlers (irqStartOffset + line) = none then b.pics.acknowledge line
        else b.pics := by
  cases hhandler : b.interruptHandlers (irqStartOffset + line) with
  | none => simp [interrupt, dispatchInterrupt, hhandler]
  | some handler =>
    have hcall := call_pics { b with pics := b.pics.acknowledge line } handler
      (irqStartOffset + line : ℕ) scanCode
    have hpin : ((irqStartOffset + line : ℕ) : ℤ) - irqStartOffset = line := by
      push_cast
      omega
    rw [hpin, (hready.eoi_acknowledge hoffers).1] at hcall
    simpa [interrupt, dispatchInterrupt, hhandler] using hcall.symm

/-- The step of the kernel a handler stands for. -/
def InterruptHandler.action (scanCode : Option BYTE) (frame : ProcessContext) :
    InterruptHandler → Action
  | .timerInterruptHandler => .timer frame
  | .keyboardInterruptHandler => .keyboard scanCode frame
  | .primaryDiskInterruptHandler => .disk true frame
  | .secondaryDiskInterruptHandler => .disk false frame

/-- The kernel makes that step when the interrupt is dispatched to the handler. -/
theorem interrupt_kernel (hflag : b.kernel.sched.interruptFlag = true)
    {handler : InterruptHandler}
    (hhandler : b.interruptHandlers (irqStartOffset + line) = some handler)
    (scanCode : Option BYTE) (frame : ProcessContext) :
    b.kernel.step (InterruptHandler.action scanCode frame handler) =
      some (b.interrupt line scanCode frame).kernel := by
  cases handler <;>
    simp only [InterruptHandler.action, Kernel.step, hflag, if_true, interrupt, dispatchInterrupt,
      hhandler] <;> rfl

/-- A step leaves the controllers ready and the table alone. -/
theorem step_ready (hready : b.pics.Ready) (hstep : b.step a = some b') :
    b'.pics.Ready ∧ b'.interruptHandlers = b.interruptHandlers := by
  cases a with
  | interrupt line scanCode frame =>
    simp only [step, Option.ite_none_right_eq_some, Option.some.injEq] at hstep
    obtain ⟨⟨-, hoffers⟩, rfl⟩ := hstep
    obtain ⟨htable, hpics⟩ := interrupt_pics hready hoffers scanCode frame
    refine ⟨?_, htable⟩
    rw [hpics]
    split
    · exact hready.acknowledge line
    · exact hready
  | code a =>
    simp only [step, Option.ite_none_left_eq_some, Option.map_eq_some_iff] at hstep
    obtain ⟨-, kernel, -, rfl⟩ := hstep
    exact ⟨hready, rfl⟩

/-- The line of an interrupt stays in service exactly when nobody handles it. -/
theorem acknowledged_iff_handled (hready : b.pics.Ready) (hstep : b.step a = some b') :
    Acknowledged ⟨b, a, b'⟩ ↔ Handled ⟨b, a, b'⟩ := by
  cases a with
  | interrupt line scanCode frame =>
    simp only [step, Option.ite_none_right_eq_some, Option.some.injEq] at hstep
    obtain ⟨⟨-, hoffers⟩, rfl⟩ := hstep
    obtain ⟨-, hout, hin⟩ := hready.eoi_acknowledge hoffers
    have hpics := (interrupt_pics hready hoffers scanCode frame).2
    have hserves : ¬ (b.interrupt line scanCode frame).pics.Serves line ↔
        b.interruptHandlers (irqStartOffset + line) ≠ none := by
      rw [hpics]
      split
      next hnone => exact iff_of_false (not_not.mpr hin) (not_not.mpr hnone)
      next hsome => exact iff_of_true hout hsome
    constructor
    · rintro hack line' scanCode' frame' ⟨⟩
      exact hserves.mp (hack line scanCode frame rfl)
    · rintro hhandled line' scanCode' frame' ⟨⟩
      exact hserves.mpr (hhandled line scanCode frame rfl)
  | code a => exact iff_of_true (fun _ _ _ h => nomatch h) fun _ _ _ h => nomatch h

theorem step_idle (hready : b.pics.Ready) (hidle : b.pics.Idle) (hstep : b.step a = some b')
    (hhandled : Handled ⟨b, a, b'⟩) : b'.pics.Idle := by
  cases a with
  | interrupt line scanCode frame =>
    simp only [step, Option.ite_none_right_eq_some, Option.some.injEq] at hstep
    obtain ⟨⟨-, hoffers⟩, rfl⟩ := hstep
    rw [(interrupt_pics hready hoffers scanCode frame).2,
      if_neg (hhandled line scanCode frame rfl)]
    exact hidle
  | code a =>
    simp only [step, Option.ite_none_left_eq_some, Option.map_eq_some_iff] at hstep
    obtain ⟨-, kernel, -, rfl⟩ := hstep
    exact hidle

theorem registerInterruptHandler_data (b : Board) (vectorNumber : ℤ)
    (handler : InterruptHandler) :
    (b.registerInterruptHandler vectorNumber handler).pics = b.pics ∧
      (b.registerInterruptHandler vectorNumber handler).kernel = b.kernel := by
  unfold registerInterruptHandler
  split <;> exact ⟨rfl, rfl⟩

theorem foldl_register_data (inits : List Initialiser) (b : Board) :
    (inits.foldl register b).pics = b.pics ∧ (inits.foldl register b).kernel = b.kernel := by
  induction inits generalizing b with
  | nil => exact ⟨rfl, rfl⟩
  | cons init inits ih =>
    rw [List.foldl_cons, (ih _).1, (ih _).2]
    cases init <;> simp only [register, registerInterruptHandler_data, and_self]

variable {boot : Boot} {pics : PicDriver} {inits : List Initialiser}

theorem start_ready : (start boot pics inits).pics.Ready ∧ (start boot pics inits).pics.Idle := by
  obtain ⟨hready, hidle⟩ := pics.initializePIC_ready
  rw [start, (foldl_register_data _ _).1, hready.setIMR]
  exact ⟨⟨hready.state, hready.masterExpected, hready.slaveExpected, hready.masterEoi,
    hready.slaveEoi⟩, hidle⟩

theorem ready_run (hrun : BoardRun boot pics inits history b) :
    (∀ m ∈ history, m.before.pics.Ready) ∧ b.pics.Ready :=
  hrun.invariant_moves (P := fun b => b.pics.Ready) start_ready.1
    fun _ _ _ hready _ hstep => (step_ready hready hstep).1

/-- A run that finds a handler for every interrupt is a run of the kernel. -/
theorem kernel_run (hrun : BoardRun boot pics inits history b)
    (hhandled : ∀ m ∈ history, Handled m) : ∃ moves, KernelRun anyStep boot moves b.kernel := by
  refine hrun.history_invariant (P := fun past t => (∀ m ∈ past, Handled m) →
    ∃ moves, KernelRun anyStep boot moves t.kernel) (fun _ => ?_)
    (fun past t a u _ ih _ hstep hall => ?_) hhandled
  · rw [start, (foldl_register_data _ _).2]
    exact ⟨[], .start⟩
  · obtain ⟨moves, hmoves⟩ := ih fun m hm => hall m (List.mem_append_left _ hm)
    have hmove : Handled ⟨t, a, u⟩ := hall _ (by simp)
    cases a with
    | interrupt line scanCode frame =>
      simp only [step, Option.ite_none_right_eq_some, Option.some.injEq] at hstep
      obtain ⟨⟨hflag, -⟩, rfl⟩ := hstep
      obtain ⟨handler, hhandler⟩ := Option.ne_none_iff_exists'.mp (hmove line scanCode frame rfl)
      exact ⟨_, .next hmoves trivial (interrupt_kernel hflag hhandler scanCode frame)⟩
    | code a =>
      simp only [step, Option.ite_none_left_eq_some, Option.map_eq_some_iff] at hstep
      obtain ⟨-, kernel, hkernel, rfl⟩ := hstep
      exact ⟨_, .next hmoves trivial hkernel⟩

/-- Every interrupt of a run is acknowledged, and no line is left in service, exactly when
every interrupt of the run finds a handler. -/
theorem interrupts_acknowledged_iff (hrun : BoardRun boot pics inits history b) :
    ((∀ m ∈ history, Acknowledged m) ∧ b.pics.Idle) ↔ ∀ m ∈ history, Handled m := by
  obtain ⟨hready, -⟩ := ready_run hrun
  have hmoves (m : Move Board BoardAction) (hm : m ∈ history) : Acknowledged m ↔ Handled m :=
    acknowledged_iff_handled (hready m hm) (hrun.move_mem hm).2
  refine ⟨fun h m hm => (hmoves m hm).mp (h.1 m hm), fun h => ?_⟩
  refine ⟨fun m hm => (hmoves m hm).mpr (h m hm), ?_⟩
  refine hrun.history_invariant (P := fun past t => (∀ m ∈ past, Handled m) → t.pics.Idle)
    (fun _ => start_ready.2) (fun past t a u hpast ih _ hstep hall => ?_) h
  have hidle := ih fun m hm => hall m (List.mem_append_left _ hm)
  exact step_idle (ready_run hpast).2 hidle hstep (hall _ (by simp))

/-- Main's initialisers, in its order, behind which the shell enables interrupts. -/
def afterMain : Board :=
  start Boot.zero ⟨⟨0, 0, 0, false, []⟩, ⟨0, 0, 0, false, []⟩, initial⟩
    [.initKeyboard, .initScheduler, .initDisk]

def enabled : Board := { afterMain with kernel := (afterMain.kernel.setIf true).2 }

/-- The timer ticks, and then the clock on line 8 interrupts. -/
def afterTick : Board := enabled.interrupt 0 none fun _ => 0

def afterClock : Board := afterTick.interrupt 8 none fun _ => 0

def tickHistory : List (Move Board BoardAction) :=
  [⟨afterMain, .code (.call (.setIf true) fun _ => 0), enabled⟩,
   ⟨enabled, .interrupt 0 none fun _ => 0, afterTick⟩]

theorem tick_run : BoardRun Boot.zero ⟨⟨0, 0, 0, false, []⟩, ⟨0, 0, 0, false, []⟩, initial⟩
    [.initKeyboard, .initScheduler, .initDisk] tickHistory afterTick := by
  have henable : afterMain.step (.code (.call (.setIf true) fun _ => 0)) = some enabled := by
    have hkernel : afterMain.kernel.step (.call (.setIf true) fun _ => 0) =
        some (afterMain.kernel.setIf true).2 := by
      simp only [Kernel.step]
      exact if_pos (by decide +kernel)
    simp only [step, Action.isInterrupt, hkernel]
    rfl
  have htick : enabled.step (.interrupt 0 none fun _ => 0) = some afterTick := by
    simp only [step]
    exact if_pos (by decide +kernel)
  exact .next (.next .start trivial henable) trivial htick

theorem interrupts_acknowledged_iff_tick : ((∀ m ∈ tickHistory, Acknowledged m) ∧
    afterTick.pics.Idle) ↔ ∀ m ∈ tickHistory, Handled m :=
  interrupts_acknowledged_iff tick_run

/-- Nobody handles the clock: its line stays in service, and that keeps the disk out. -/
theorem clock_stays_in_service : BoardRun Boot.zero
      ⟨⟨0, 0, 0, false, []⟩, ⟨0, 0, 0, false, []⟩, initial⟩
      [.initKeyboard, .initScheduler, .initDisk]
      (tickHistory ++ [⟨afterTick, .interrupt 8 none fun _ => 0, afterClock⟩]) afterClock ∧
    afterClock.pics.Serves 8 ∧ ¬ afterClock.pics.Offers irqDisk1 := by
  have hclock : afterTick.step (.interrupt 8 none fun _ => 0) = some afterClock := by
    simp only [step]
    exact if_pos (by decide +kernel)
  exact ⟨.next tick_run trivial hclock, by decide +kernel, by decide +kernel⟩

end Board
end SkhuOS
