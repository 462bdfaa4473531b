import SkhuOS.Proc.Cpu
import SkhuOS.Proc.Sleep
import SkhuOS.Proc.Slots
import SkhuOS.Proc.Traced

/-! The interrupt flag around the kernel calls. Each call turns interrupts off before it changes
what it shares with interrupt handlers and other processes, and its caller finds the flag as it
was, also when other processes ran in between. -/
namespace SkhuOS
open Foundation Foundation.Stores

namespace Kernel

/-- The lists of the scheduler and of the mutexes, the mutexes, the waiters and the queues. -/
def shared (k : Kernel) : (ℕ → Node ℕ) × (ListName → LinkedList ℕ) × (ℕ → Mutex) × Option ℕ ×
    (Bool → Option ℕ) × Queue × Queue :=
  (k.sched.link, k.sched.list, k.mutex, k.keyWaiter, k.diskWaiter, k.exitProcessQueue, k.keyQueue)

/-- A store that changes what is shared is made with interrupts off. -/
def Guarded (k k' : Kernel) : Prop :=
  k'.shared = k.shared ∨ k.sched.interruptFlag = false ∧ k'.sched.interruptFlag = false

def Off (k : Kernel) : Prop := k.sched.interruptFlag = false

theorem Off.guarded (k k' : Kernel) (h : k.Off) (h' : k'.Off) : k.Guarded k' := .inr ⟨h, h'⟩

end Kernel

namespace Traced
open Kernel

variable {k : Kernel} {regs : ProcessContext}

theorem keeps_storeSched {edit : Scheduler → Scheduler}
    (h : ∀ s, (edit s).interruptFlag = s.interruptFlag) : (storeSched edit).Keeps Off :=
  .store fun k hk => (h k.sched).trans hk

theorem keeps_setState (p : ℕ) (state : ProcessState) : (setState p state).Keeps Off :=
  keeps_storeSched fun _ => rfl

theorem keeps_insertList (name : ListName) (p : ℕ) : (insertList name p).Keeps Off :=
  keeps_storeSched fun _ => rfl

theorem keeps_removeList (name : ListName) (id : ℤ) : (removeList name id).Keeps Off :=
  keeps_storeSched fun _ => rfl

theorem keeps_headRemove (name : ListName) : (headRemove name).Keeps Off :=
  .bind .get fun _ => .bind (keeps_storeSched fun _ => rfl) fun _ => .pure _

theorem keeps_setResumePoint (p : ℕ) (point : ResumePoint) : (setResumePoint p point).Keeps Off :=
  .store fun _ hk => hk

theorem keeps_setMutex (m : ℕ) (edit : Mutex → Mutex) : (setMutex m edit).Keeps Off :=
  .store fun _ hk => hk

theorem keeps_makeRunning (next : ℕ) : (makeRunning next).Keeps Off :=
  .bind (keeps_setState _ _) fun _ =>
    .bind (keeps_storeSched fun _ => rfl) fun _ => keeps_storeSched fun _ => rfl

theorem keeps_wakeupProcess (pcb : Option ℕ) : (wakeupProcess pcb).Keeps Off := by
  unfold wakeupProcess
  apply Keeps.bind .get
  intro k
  cases pcb with
  | none => exact .pure _
  | some p =>
    apply Keeps.ite (.pure _)
    exact .bind (keeps_removeList _ _) fun _ =>
      .bind (keeps_setState _ _) fun _ => .bind (keeps_insertList _ _) fun _ => .pure _

theorem keeps_timeoutSchedule : timeoutSchedule.Keeps Off := by
  unfold timeoutSchedule
  apply Keeps.bind .get
  intro k
  apply Keeps.ite (.pure _)
  apply Keeps.bind (keeps_headRemove _)
  intro next
  cases next with
  | none => exact .pure _
  | some next =>
    have hload : (makeRunning next >>= fun _ =>
        storeSched fun s => { s with ist := (s.pcb next).context }).Keeps Off :=
      .bind (keeps_makeRunning _) fun _ => keeps_storeSched fun _ => rfl
    apply Keeps.bind .get
    intro k
    dsimp only
    apply Keeps.bind (keeps_storeSched (by intro s; rfl))
    intro _
    apply Keeps.ite
    · exact .bind (keeps_setState _ _) fun _ => .bind (keeps_insertList _ _) fun _ => hload
    · exact hload

theorem keeps_wakeupProcessInInterrupt (pcb : Option ℕ) :
    (wakeupProcessInInterrupt pcb).Keeps Off :=
  .bind (keeps_wakeupProcess pcb) fun _ => .bind .get fun _ => .ite keeps_timeoutSchedule (.pure _)

theorem keeps_addProcess (p : ℕ) (entryPoint arg : QWORD) :
    (addProcess p entryPoint arg).Keeps Off := by
  unfold addProcess
  apply Keeps.bind (keeps_storeSched (by intro s; rfl))
  intro _
  apply Keeps.bind (keeps_storeSched (by intro s; rfl))
  intro _
  apply Keeps.bind (keeps_storeSched (by intro s; rfl))
  intro _
  apply Keeps.bind (keeps_setState _ _)
  intro _
  apply Keeps.bind (keeps_insertList _ _)
  intro _
  apply Keeps.bind (.store (by intro k hk; exact hk))
  intro _
  exact .bind (.store fun _ hk => hk) fun _ => keeps_setResumePoint _ _

theorem keeps_handOver (m : ℕ) : (handOver m).Keeps Off := by
  unfold handOver
  apply Keeps.bind (keeps_headRemove _)
  intro next
  cases next with
  | none => exact keeps_setMutex _ _
  | some next =>
    exact .bind .get fun _ => .bind (keeps_setMutex _ _) fun _ => .bind (keeps_setMutex _ _) fun _ =>
      .bind (keeps_wakeupProcess _) fun _ => .pure _

theorem keeps_deQueueKey : deQueueKey.Keeps Off :=
  .bind .get fun _ => .bind (.store fun _ hk => hk) fun _ => .pure _

/-- The flag itself is not shared. -/
theorem guarded_setIf (interrupt : Bool) (k : Kernel) : (setIf interrupt).Each Guarded k :=
  each_get.bind (Each.bind (each_store (.inl rfl)) (each_pure _))

/-- The restore at the end of a call. -/
theorem under_setIf {α : Type} (interrupt : Bool) (x : α) :
    (setIf interrupt >>= fun _ => (pure x : Stores Kernel α)).Under Off Guarded :=
  .of_each fun k => (guarded_setIf interrupt k).bind (each_pure x)

/-- A call turns interrupts off first. -/
theorem guarded_bracket {α : Type} {body : Bool → Stores Kernel α}
    (h : ∀ preIf, (body preIf).Under Off Guarded) (k : Kernel) :
    (setIf false >>= body).Each Guarded k :=
  Under.opened (I := Off) (guarded_setIf false k) rfl (h _)

/-- Called with interrupts off, a call finds and restores them off. -/
theorem keeps_bracket {α : Type} {body : Bool → Stores Kernel α} (h : (body false).Keeps Off) :
    (setIf false >>= body).Keeps Off := by
  intro k hk
  have hresult : (setIf false).result k = false := hk
  have hset : (setIf false).Each (fun t u => t.Off ∧ u.Off) k :=
    each_get.bind (Each.bind (each_store ⟨hk, rfl⟩) (each_pure _))
  obtain ⟨heach, hfinal⟩ := h ((setIf false).final k) rfl
  constructor
  · apply Each.bind hset
    rw [hresult]
    exact heach
  · rw [final_bind, hresult]
    exact hfinal

theorem keeps_setIf_false : (setIf false).Keeps Off := by
  intro k hk
  exact ⟨each_get.bind (Each.bind (each_store ⟨hk, rfl⟩) (each_pure _)), rfl⟩

theorem under_switchContext (current next : ℕ) :
    (switchContext current next regs).Under Off Guarded :=
  Keeps.under_bind (keeps_storeSched fun _ => rfl) Off.guarded fun _ =>
    .of_each fun _ => each_store (.inl rfl)

theorem under_blockRunningProcess : (blockRunningProcess regs).Under Off Guarded := by
  unfold blockRunningProcess scheduleBlocked
  apply Keeps.under_bind .get Off.guarded
  intro k
  apply Keeps.under_bind (keeps_setState _ _) Off.guarded
  intro _
  apply Keeps.under_bind .get Off.guarded
  intro k
  apply Keeps.under_bind (keeps_headRemove _) Off.guarded
  intro next
  apply Keeps.under_bind (keeps_makeRunning _) Off.guarded
  intro _
  exact under_switchContext _ _

theorem under_sleepUntilTick (tick : QWORD) : (sleepUntilTick tick regs).Under Off Guarded := by
  unfold sleepUntilTick
  apply Keeps.under_bind .get Off.guarded
  intro k
  apply Keeps.under_bind (keeps_storeSched (by intro s; rfl)) Off.guarded
  intro _
  apply Keeps.under_bind (keeps_insertList _ _) Off.guarded
  intro _
  exact under_blockRunningProcess

theorem guarded_createProcess (entryPoint arg : QWORD) (k : Kernel) :
    (createProcess entryPoint arg).Each Guarded k := by
  unfold createProcess
  apply guarded_bracket
  intro preIf
  apply Keeps.under_bind .get Off.guarded
  intro k
  obtain ⟨found, p⟩ := findSlot k.allocProcessTable processMaxCount k.pidCountIdx
  apply Keeps.under_bind (.store (by intro k hk; exact hk)) Off.guarded
  intro _
  apply Under.ite
  · exact Keeps.under_bind (keeps_addProcess _ _ _) Off.guarded fun _ => under_setIf _ _
  · exact Keeps.under (.pure _) Off.guarded

theorem keeps_createProcess (entryPoint arg : QWORD) :
    (createProcess entryPoint arg).Keeps Off := by
  unfold createProcess
  apply keeps_bracket
  apply Keeps.bind .get
  intro k
  obtain ⟨found, p⟩ := findSlot k.allocProcessTable processMaxCount k.pidCountIdx
  apply Keeps.bind (.store (by intro k hk; exact hk))
  intro _
  apply Keeps.ite
  · exact .bind (keeps_addProcess _ _ _) fun _ => .bind keeps_setIf_false fun _ => .pure _
  · exact .pure _

theorem guarded_createUserProcess (entryPoint arg : QWORD) (k : Kernel) :
    (createUserProcess entryPoint arg).Each Guarded k := by
  unfold createUserProcess
  apply guarded_bracket
  intro preIf
  apply Keeps.under_bind (keeps_createProcess _ _) Off.guarded
  intro slot
  cases slot with
  | none => exact Keeps.under (.pure _) Off.guarded
  | some p =>
    apply Keeps.under_bind (.store (by intro k hk; exact hk)) Off.guarded
    intro _
    apply Keeps.under_bind (keeps_storeSched (by intro s; rfl)) Off.guarded
    intro _
    exact under_setIf _ _

theorem keeps_createUserProcess (entryPoint arg : QWORD) :
    (createUserProcess entryPoint arg).Keeps Off := by
  unfold createUserProcess
  apply keeps_bracket
  apply Keeps.bind (keeps_createProcess _ _)
  intro slot
  cases slot with
  | none => exact .pure _
  | some p =>
    apply Keeps.bind (.store (by intro k hk; exact hk))
    intro _
    apply Keeps.bind (keeps_storeSched (by intro s; rfl))
    intro _
    exact .bind keeps_setIf_false fun _ => .pure _

theorem guarded_runUserProgram (image : Bytes) (size : ℕ) (arg : QWORD) (k : Kernel) :
    (runUserProgram image size arg).Each Guarded k := by
  unfold runUserProgram
  split
  · exact each_pure _
  · apply guarded_bracket
    intro preIf
    apply Keeps.under_bind (.store (by intro k hk; exact hk)) Off.guarded
    intro _
    apply Keeps.under_bind (.store (by intro k hk; exact hk)) Off.guarded
    intro _
    apply Keeps.under_bind (keeps_createUserProcess _ _) Off.guarded
    intro slot
    cases slot with
    | none => exact Keeps.under (.pure _) Off.guarded
    | some p => exact under_setIf _ _

theorem guarded_orForever {α : Type} {call : Stores Kernel (Option α)} (h : call.Each Guarded k) :
    (orForever call).Each Guarded k := by
  unfold orForever
  refine Each.bind each_get (h.bind ?_)
  rw [result_get]
  cases call.result k with
  | some x => exact each_pure _
  | none => exact each_store (.inl rfl)

theorem guarded_sleepProcess (ms : QWORD) (k : Kernel) :
    (sleepProcess ms regs).Each Guarded k := by
  unfold sleepProcess
  apply guarded_bracket
  intro preIf
  apply Keeps.under_bind .get Off.guarded
  intro k
  apply Keeps.under_bind (keeps_setResumePoint _ _) Off.guarded
  intro _
  exact under_sleepUntilTick _

theorem guarded_acquireLock (m : ℕ) (k : Kernel) : (acquireLock m regs).Each Guarded k := by
  unfold acquireLock
  apply guarded_bracket
  intro preIf
  apply Keeps.under_bind .get Off.guarded
  intro k
  apply Under.ite
  · exact Keeps.under_bind (keeps_setMutex _ _) Off.guarded fun _ => under_setIf _ _
  · apply Under.ite
    · apply Keeps.under_bind (keeps_setMutex _ _) Off.guarded
      intro _
      exact Keeps.under_bind (keeps_setMutex _ _) Off.guarded fun _ => under_setIf _ _
    · apply Keeps.under_bind (keeps_setResumePoint _ _) Off.guarded
      intro _
      exact Keeps.under_bind (keeps_insertList _ _) Off.guarded fun _ => under_blockRunningProcess

theorem guarded_releaseLock (m : ℕ) (k : Kernel) : (releaseLock m).Each Guarded k := by
  unfold releaseLock
  apply guarded_bracket
  intro preIf
  apply Keeps.under_bind .get Off.guarded
  intro k
  apply Under.ite (under_setIf _ _)
  apply Keeps.under_bind (keeps_setMutex _ _) Off.guarded
  intro _
  apply Keeps.under_bind .get Off.guarded
  intro k
  apply Under.ite
  · exact Keeps.under_bind (keeps_handOver _) Off.guarded fun _ => under_setIf _ _
  · exact under_setIf _ _

theorem guarded_inputQueue (scanCode : BYTE) (k : Kernel) :
    (inputQueue scanCode).Each Guarded k := by
  unfold inputQueue
  refine Each.bind each_get ?_
  rw [result_get, final_get]
  obtain ⟨code, shiftOn⟩ := scanToASCII k.shiftOn scanCode
  -- the shift state is not shared
  refine Each.bind (each_store (.inl rfl)) ?_
  split
  · apply guarded_bracket
    intro preIf
    apply Keeps.under_bind (.store (by intro k hk; exact hk)) Off.guarded
    intro _
    exact Keeps.under_bind (keeps_wakeupProcessInInterrupt _) Off.guarded fun _ => under_setIf _ _
  · exact each_pure _

theorem guarded_getQueue (k : Kernel) : getQueue.Each Guarded k := by
  unfold getQueue
  apply guarded_bracket
  intro preIf
  exact Keeps.under_bind keeps_deQueueKey Off.guarded fun _ => under_setIf _ _

theorem under_getKeyLoop (preIf : Bool) : (getKeyLoop preIf regs).Under Off Guarded := by
  unfold getKeyLoop
  apply Keeps.under_bind .get Off.guarded
  intro k
  apply Keeps.under_bind keeps_deQueueKey Off.guarded
  intro data
  cases data with
  | some _ => exact Keeps.under_bind (keeps_setResumePoint _ _) Off.guarded fun _ => under_setIf _ _
  | none =>
    apply Keeps.under_bind (.store (by intro k hk; exact hk)) Off.guarded
    intro _
    apply Keeps.under_bind (keeps_setResumePoint _ _) Off.guarded
    intro _
    exact under_blockRunningProcess

theorem under_waitLoop (isPrimary : Bool) (deadline : QWORD) :
    (waitLoop isPrimary deadline regs).Under Off Guarded := by
  have hreturn (p : ℕ) : (do
      setResumePoint p .code
      let _ ← setIf true : Stores Kernel Unit).Under Off Guarded :=
    Keeps.under_bind (keeps_setResumePoint _ _) Off.guarded fun _ => under_setIf _ _
  unfold waitLoop
  apply Keeps.under_bind .get Off.guarded
  intro k
  apply Under.ite (hreturn _)
  apply Under.ite (hreturn _)
  apply Keeps.under_bind (.store (by intro k hk; exact hk)) Off.guarded
  intro _
  apply Keeps.under_bind (keeps_setResumePoint _ _) Off.guarded
  intro _
  exact under_sleepUntilTick _

theorem guarded_waitInterrupt (isPrimary : Bool) (k : Kernel) :
    (waitInterrupt isPrimary regs).Each Guarded k := by
  unfold waitInterrupt
  apply guarded_bracket
  intro preIf
  apply Keeps.under_bind .get Off.guarded
  intro k
  apply Under.ite
  · exact Keeps.under (.pure _) Off.guarded
  · exact under_waitLoop _ _

theorem guarded_runCall {c : Call} {stores : Stores Kernel Unit} (h : runCall c regs = some stores)
    (k : Kernel) : stores.Each Guarded k := by
  cases c with
  | createProcess entryPoint arg =>
    exact Option.some.inj h ▸ guarded_orForever (guarded_createProcess entryPoint arg k)
  | createUserProcess entryPoint arg =>
    exact Option.some.inj h ▸ guarded_orForever (guarded_createUserProcess entryPoint arg k)
  | runUserProgram image size arg =>
    exact Option.some.inj h ▸ guarded_orForever (guarded_runUserProgram image size arg k)
  | sleepProcess ms => exact Option.some.inj h ▸ guarded_sleepProcess ms k
  | acquireLock m => exact Option.some.inj h ▸ guarded_acquireLock m k
  | releaseLock m => exact Option.some.inj h ▸ guarded_releaseLock m k
  | getKey => exact Option.some.inj h ▸ guarded_bracket (fun preIf => under_getKeyLoop preIf) k
  | getQueue => exact Option.some.inj h ▸ (guarded_getQueue k).bind (each_pure _)
  | waitInterrupt isPrimary => exact Option.some.inj h ▸ guarded_waitInterrupt isPrimary k
  | setIf | clearDiskInterruptFlag | schedule | exitProcess => exact nomatch h

/-- Behind the return from a switch interrupts are still off. -/
theorem guarded_resumeCall {p : ℕ} {point : ResumePoint} {stores : Stores Kernel Unit}
    (h : resumeCall p point regs = some stores) : stores.Under Off Guarded := by
  cases point with
  | sleepProcess preIf | acquireLock m preIf =>
    exact Option.some.inj h ▸
      Keeps.under_bind (keeps_setResumePoint _ _) Off.guarded fun _ => under_setIf _ _
  | getKey preIf =>
    exact Option.some.inj h ▸
      Keeps.under_bind (.store fun _ hk => hk) Off.guarded fun _ => under_getKeyLoop preIf
  | waitInterrupt isPrimary deadline =>
    exact Option.some.inj h ▸
      Keeps.under_bind (.store fun _ hk => hk) Off.guarded fun _ => under_waitLoop isPrimary deadline
  | code | schedule | garbageProcessCollector | exitProcess | createProcess => exact nomatch h

end Traced

namespace Kernel

variable {k k' : Kernel} {a : Action} {c : Call} {p : ℕ} {regs : ProcessContext} {interrupt : Bool}
  {history : List (Move Kernel Action)}

/-- Process `p` is inside a call that will restore the flag to `interrupt`, or that will never
return. -/
structure InCall (p : ℕ) (interrupt : Bool) (k : Kernel) : Prop where
  point : (k.resumePoint p).Restores interrupt ∨ k.resumePoint p = .createProcess
  alloc : k.allocProcessTable p = true

/-- Process `p` is back in its own code, with the flag at `interrupt`. -/
structure Returned (p : ℕ) (interrupt : Bool) (k : Kernel) : Prop where
  running : k.sched.runningProcess = p
  point : k.resumePoint p = .code
  flag : k.sched.interruptFlag = interrupt

theorem InCall.point_ne (h : InCall p interrupt k) :
    k.resumePoint p ≠ .code ∧ k.resumePoint p ≠ .exitProcess := by
  rcases h.point with hpoint | hpoint
  · constructor
    · intro heq
      rw [heq] at hpoint
      exact hpoint
    · intro heq
      rw [heq] at hpoint
      exact hpoint
  · rw [hpoint]
    decide

/-- A live process keeps its slot. -/
theorem Valid.slot_kept (h : k.Valid) (hstep : k.step a = some k')
    (halloc : k.allocProcessTable p = true) (hlive : k.resumePoint p ≠ .exitProcess) :
    k'.allocProcessTable p = true := by
  rcases h.slot_step hstep with ⟨hfills, -⟩ | ⟨-, q, hreclaim, hfreed⟩
  · cases hcreated : k.created a with
    | none =>
      rw [hcreated] at hfills
      exact (congrFun (show k'.allocProcessTable = k.allocProcessTable from hfills) p).trans halloc
    | some q =>
      rw [hcreated] at hfills
      rw [hfills.2.2.1, Function.update_apply]
      split
      · rfl
      · exact halloc
  · rw [reclaims] at hreclaim
    split at hreclaim
    · have hexited : k.roles.exited q := (h.queued.2 q (List.mem_of_mem_head? hreclaim)).2
      have hne : p ≠ q := by
        rintro rfl
        exact hlive hexited
      rw [hfreed, Function.update_of_ne hne]
      exact halloc
    · cases hreclaim

theorem Section.flag (h : k.Section k' interrupt regs) :
    Returned k.sched.runningProcess interrupt k' ∨
      (k'.resumePoint k.sched.runningProcess).Restores interrupt := by
  rcases h with ⟨hcpu, hpoint⟩ | ⟨next, point, -, hrestores, hpoint⟩
  · left
    refine ⟨congrArg Cpu.running hcpu, ?_, congrArg Cpu.interruptFlag hcpu⟩
    rw [hpoint, Function.update_self]
  · right
    rw [hpoint, Function.update_self]
    exact hrestores

theorem Creates.flag {α : Type} {call : Option α × Kernel} {result : Option ℕ} (hvalid : k.Valid)
    (hcode : k.resumePoint k.sched.runningProcess = .code) (h : k.Creates result call.2)
    (hsome : result.isSome = call.1.isSome) :
    Returned k.sched.runningProcess k.sched.interruptFlag (orForever call) ∨
      (orForever call).resumePoint k.sched.runningProcess = .createProcess := by
  obtain ⟨value, k'⟩ := call
  cases value with
  | some _ =>
    cases result with
    | none => exact nomatch hsome
    | some p =>
      obtain ⟨context, hfree, hcpu, hpoint⟩ := h
      have hne : k.sched.runningProcess ≠ p := by
        rintro rfl
        exact nomatch hvalid.running_alloc.symm.trans hfree
      left
      refine ⟨congrArg Cpu.running hcpu, ?_, congrArg Cpu.interruptFlag hcpu⟩
      show k'.resumePoint k.sched.runningProcess = .code
      rw [hpoint, Function.update_of_ne hne, hcode]
  | none =>
    cases result with
    | some p => exact nomatch hsome
    | none =>
      have hrun : k'.sched.runningProcess = k.sched.runningProcess := congrArg Cpu.running h.1
      right
      show Function.update k'.resumePoint k'.sched.runningProcess .createProcess _ = _
      rw [hrun, Function.update_self]

/-- A call returns with the flag as it was, or is not over. -/
theorem Valid.runCall_flag (h : k.Valid) {stores : Stores Kernel Unit}
    (hc : Traced.runCall c regs = some stores) (hmay : k.MayCall c) :
    Returned k.sched.runningProcess k.sched.interruptFlag (k.runCall c regs) ∨
      ((k.runCall c regs).resumePoint k.sched.runningProcess).Restores k.sched.interruptFlag ∨
      (k.runCall c regs).resumePoint k.sched.runningProcess = .createProcess := by
  have hcode := hmay.1
  have hsection {k' : Kernel}
      (hk' : (k.setIf false).2.Section k' k.sched.interruptFlag regs) :
      Returned k.sched.runningProcess k.sched.interruptFlag k' ∨
        (k'.resumePoint k.sched.runningProcess).Restores k.sched.interruptFlag ∨
        k'.resumePoint k.sched.runningProcess = .createProcess :=
    hk'.flag.imp_right .inl
  cases c with
  | createProcess entryPoint arg =>
    exact ((h.createProcess_creates entryPoint arg).flag h hcode rfl).imp_right .inr
  | createUserProcess entryPoint arg =>
    exact ((h.createUserProcess_creates entryPoint arg).flag h hcode rfl).imp_right .inr
  | runUserProgram image size arg =>
    rcases Nat.lt_or_ge userCodeSize size with hbig | hfits
    · rw [Kernel.runCall, runUserProgram_null arg hbig]
      exact .inl ⟨rfl, hcode, rfl⟩
    · exact ((h.runUserProgram_creates image size arg hfits).flag h hcode
        (runUserProgram_isSome arg hfits)).imp_right .inr
  | sleepProcess ms => exact hsection (k.sleepProcess_section ms regs)
  | acquireLock m => exact hsection (acquireLock_section hcode m regs)
  | releaseLock m => exact hsection (releaseLock_section hcode m regs)
  | getKey => exact hsection ((k.setIf false).2.getKeyLoop_section _ regs)
  | getQueue => exact hsection (getQueue_section hcode regs)
  | waitInterrupt isPrimary => exact hsection (waitInterrupt_section hcode isPrimary regs)
  | setIf | clearDiskInterruptFlag | schedule | exitProcess => cases hc

/-- The rest of a call restores the flag too, or gives the processor up once more. -/
theorem resumeCall_flag (hpoint : (k.resumePoint k.sched.runningProcess).Restores interrupt)
    (hstep : k.resumeCall (k.resumePoint k.sched.runningProcess) regs = some k') :
    Returned k.sched.runningProcess interrupt k' ∨
      (k'.resumePoint k.sched.runningProcess).Restores interrupt := by
  have hdone : Returned k.sched.runningProcess interrupt
      ((k.setResumePoint k.sched.runningProcess .code).setIf interrupt).2 :=
    ⟨rfl, Function.update_self _ _ _, rfl⟩
  cases hat : k.resumePoint k.sched.runningProcess with
  | code | exitProcess | createProcess => simp [Kernel.resumeCall, hat] at hstep
  | sleepProcess preIf | schedule preIf | acquireLock m preIf =>
    rw [hat] at hpoint
    obtain rfl : preIf = interrupt := hpoint
    simp only [Kernel.resumeCall, hat, Option.some.injEq] at hstep
    exact .inl (hstep ▸ hdone)
  | getKey preIf =>
    rw [hat] at hpoint
    obtain rfl : preIf = interrupt := hpoint
    simp only [Kernel.resumeCall, hat, Option.some.injEq] at hstep
    exact hstep ▸ (getKeyLoop_section { k with keyWaiter := none } preIf regs).flag
  | waitInterrupt isPrimary deadline =>
    rw [hat] at hpoint
    obtain rfl : interrupt = true := hpoint
    simp only [Kernel.resumeCall, hat, Option.some.injEq] at hstep
    exact hstep ▸ (waitLoop_section { k with
      diskWaiter := Function.update k.diskWaiter isPrimary none } isPrimary deadline regs).flag
  | garbageProcessCollector preIf =>
    rw [hat] at hpoint
    obtain rfl : preIf = interrupt := hpoint
    simp only [Kernel.resumeCall, hat, Option.some.injEq] at hstep
    exact hstep ▸ (collectLoop_section k preIf regs).flag

/-- While a process is inside a call, others run as they like; it leaves the call by its own
step only, and with the flag restored. -/
theorem InCall.step (h : InCall p interrupt k) (hvalid : k.Valid) (hflags : k.FlagsOff)
    (hstep : k.step a = some k') : Returned p interrupt k' ∨ InCall p interrupt k' := by
  obtain ⟨hne, hlive⟩ := h.point_ne
  have halloc := hvalid.slot_kept hstep h.alloc hlive
  by_cases hp : p = k.sched.runningProcess
  · subst hp
    cases a with
    | timer | keyboard | disk =>
      simp only [Kernel.step, Option.ite_none_right_eq_some] at hstep
      cases hstep.1.symm.trans (hflags.running hne)
    | call c regs =>
      simp only [Kernel.step, Option.ite_none_right_eq_some] at hstep
      exact absurd hstep.1.1 hne
    | collect regs =>
      simp only [Kernel.step, Option.ite_none_right_eq_some] at hstep
      exact absurd hstep.1.2 hne
    | resume regs =>
      rcases h.point with hpoint | hpoint
      · exact (resumeCall_flag hpoint hstep).imp_right fun hrestores => ⟨.inl hrestores, halloc⟩
      · simp [Kernel.step, hpoint, Kernel.resumeCall] at hstep
  · right
    have hsame : k'.resumePoint p = k.resumePoint p := by
      have haside := (hvalid.step_aside hstep hp h.alloc hlive).point
      cases a <;> exact haside
    exact ⟨hsame ▸ h.point, halloc⟩

/-- A call made in `k` that is over at the end of a run has restored the flag. -/
theorem flag_run (h : Reachable k) {stores : Stores Kernel Unit}
    (hc : Traced.runCall c regs = some stores) {k₁ : Kernel} (hcall : k.step (.call c regs) = some k₁)
    (hrun : Run Kernel.step anyStep k₁ history k')
    (hinside : ∀ m ∈ history, m.before.resumePoint k.sched.runningProcess ≠ .code)
    (hback : k'.resumePoint k.sched.runningProcess = .code) :
    Returned k.sched.runningProcess k.sched.interruptFlag k' := by
  have hvalid := h.valid
  have hflags := h.flagsOff
  set p := k.sched.runningProcess with hp
  set interrupt := k.sched.interruptFlag with hinterrupt
  have hstart : Returned p interrupt k₁ ∨ InCall p interrupt k₁ := by
    have hstep := hcall
    simp only [Kernel.step, Option.ite_none_right_eq_some, Option.some.injEq] at hstep
    obtain ⟨hmay, rfl⟩ := hstep
    have hlive : k.resumePoint p ≠ .exitProcess := by
      rw [hmay.1]
      decide
    exact (hvalid.runCall_flag hc hmay).imp_right fun hpoint =>
      ⟨hpoint, hvalid.slot_kept hcall hvalid.running_alloc hlive⟩
  have hcpu := hvalid.cpuStep hflags.running hcall
  have hend : k'.Valid ∧ k'.FlagsOff ∧ ((∀ m ∈ history, m.before.resumePoint p ≠ .code) →
      Returned p interrupt k' ∨ InCall p interrupt k') := by
    apply hrun.history_invariant (P := fun past t => t.Valid ∧ t.FlagsOff ∧
      ((∀ m ∈ past, m.before.resumePoint p ≠ .code) → Returned p interrupt t ∨ InCall p interrupt t))
    · exact ⟨hvalid.step hcall, hflags.step hcpu, fun _ => hstart⟩
    · intro past t a u _ hinvariant _ hstep
      obtain ⟨hvalid, hflags, ih⟩ := hinvariant
      refine ⟨hvalid.step hstep, hflags.step (hvalid.cpuStep hflags.running hstep), fun hall => ?_⟩
      have hnow := hall ⟨t, a, u⟩ (List.mem_append_right _ (List.mem_singleton.mpr rfl))
      rcases ih fun m hm => hall m (List.mem_append_left _ hm) with hreturned | hin
      · exact absurd hreturned.point hnow
      · exact hin.step hvalid hflags hstep
  rcases hend.2.2 hinside with hreturned | hin
  · exact hreturned
  · exact absurd hback hin.point_ne.1

/-- The calls that cannot block leave the flag of any state they return in as it was, wherever
they are called from. -/
structure KeepsFlag (k : Kernel) : Prop where
  createProcess : ∀ entryPoint arg, (k.createProcess entryPoint arg).1.isSome →
    (k.createProcess entryPoint arg).2.sched.interruptFlag = k.sched.interruptFlag
  createUserProcess : ∀ entryPoint arg, (k.createUserProcess entryPoint arg).1.isSome →
    (k.createUserProcess entryPoint arg).2.sched.interruptFlag = k.sched.interruptFlag
  runUserProgram : ∀ image size arg, (k.runUserProgram image size arg).1.isSome →
    (k.runUserProgram image size arg).2.sched.interruptFlag = k.sched.interruptFlag
  releaseLock : ∀ m, (k.releaseLock m).sched.interruptFlag = k.sched.interruptFlag
  getQueue : k.getQueue.2.sched.interruptFlag = k.sched.interruptFlag
  inputQueue : ∀ scanCode, (k.inputQueue scanCode).sched.interruptFlag = k.sched.interruptFlag

theorem keepsFlag (k : Kernel) : k.KeepsFlag where
  createProcess entryPoint arg := by
    unfold Kernel.createProcess
    dsimp only
    split
    · exact fun _ => rfl
    · exact nofun
  createUserProcess entryPoint arg := by
    unfold Kernel.createUserProcess
    dsimp only
    split
    · exact nofun
    · exact fun _ => rfl
  runUserProgram image size arg := by
    unfold Kernel.runUserProgram
    split
    · exact fun _ => rfl
    · dsimp only
      split
      · exact nofun
      · exact fun _ => rfl
  releaseLock m := by
    unfold Kernel.releaseLock
    dsimp only
    split
    · rfl
    · split
      · split <;> rfl
      · rfl
  getQueue := rfl
  inputQueue scanCode := by
    unfold Kernel.inputQueue
    dsimp only
    split <;> rfl

/-- The calls and what they do behind a switch, store by store: what is shared changes with
interrupts off only. -/
structure SharesGuarded (k : Kernel) : Prop where
  call : ∀ c regs stores, Traced.runCall c regs = some stores →
    stores.final k = k.runCall c regs ∧ stores.Each Guarded k
  input : ∀ scanCode, (Traced.inputQueue scanCode).final k = k.inputQueue scanCode ∧
    (Traced.inputQueue scanCode).Each Guarded k
  resume : k.FlagsOff → ∀ regs stores,
    Traced.resumeCall k.sched.runningProcess (k.resumePoint k.sched.runningProcess) regs =
        some stores →
      k.step (.resume regs) = some (stores.final k) ∧ stores.Each Guarded k

theorem sharesGuarded (k : Kernel) : k.SharesGuarded where
  call c regs stores h := ⟨Traced.final_runCall h, Traced.guarded_runCall h k⟩
  input scanCode := ⟨Traced.final_inputQueue scanCode, Traced.guarded_inputQueue scanCode k⟩
  resume hflags regs stores h := by
    have hne : k.resumePoint k.sched.runningProcess ≠ .code := by
      intro hcode
      rw [hcode] at h
      exact nomatch h
    exact ⟨Traced.final_resumeCall h, Traced.guarded_resumeCall h k (hflags.running hne)⟩

/-- The flag is restored on every path, and what is shared changes with interrupts off only. -/
theorem flag_restored (k : Kernel) : k.KeepsFlag ∧ k.SharesGuarded ∧
    (Reachable k → k.FlagsOff ∧ ∀ c regs, (Traced.runCall c regs).isSome →
      ∀ k₁, k.step (.call c regs) = some k₁ →
        ∀ history k', Run Kernel.step anyStep k₁ history k' →
          (∀ m ∈ history, m.before.resumePoint k.sched.runningProcess ≠ .code) →
          k'.resumePoint k.sched.runningProcess = .code →
            k'.sched.runningProcess = k.sched.runningProcess ∧
              k'.sched.interruptFlag = k.sched.interruptFlag) := by
  refine ⟨k.keepsFlag, k.sharesGuarded, fun h => ⟨h.flagsOff, ?_⟩⟩
  intro c regs hc k₁ hcall history k' hrun hinside hback
  obtain ⟨stores, hstores⟩ := Option.isSome_iff_exists.mp hc
  have hreturned := flag_run h hstores hcall hrun hinside hback
  exact ⟨hreturned.running, hreturned.flag⟩

/-- The shell has gone to sleep at its start. -/
def napping : Kernel := Boot.zero.start.sleepProcess 0 fun _ => 0

/-- The shell goes to sleep with interrupts off; the collector runs with interrupts on until
the timer wakes the shell, which finds interrupts off. -/
theorem flag_restored_asleep : ∃ k', Run Kernel.step anyStep napping [napping.tickMove,
      ⟨napping.tickOf, .resume fun _ => 0, k'⟩] k' ∧
    napping.sched.interruptFlag = true ∧ k'.sched.runningProcess = 0 ∧
    k'.sched.interruptFlag = false := by
  have hmay : Boot.zero.start.MayCall (.sleepProcess 0) := by decide +kernel
  have hcall : Boot.zero.start.step (.call (.sleepProcess 0) fun _ => 0) = some napping := by
    simp only [Kernel.step]
    exact if_pos hmay
  have hif : napping.sched.interruptFlag = true := by decide +kernel
  have hpoint : napping.tickOf.resumePoint napping.tickOf.sched.runningProcess =
      .sleepProcess false := by decide +kernel
  have hresume : napping.tickOf.step (.resume fun _ => 0) = some
      ((napping.tickOf.setResumePoint napping.tickOf.sched.runningProcess .code).setIf false).2 := by
    simp only [Kernel.step, hpoint, Kernel.resumeCall]
  have hrun := (tickMove_run hif).next trivial hresume
  have hinside : napping.resumePoint 0 ≠ .code ∧ napping.tickOf.resumePoint 0 ≠ .code := by
    decide +kernel
  have hrestored := ((flag_restored Boot.zero.start).2.2 ⟨Boot.zero, [], .start⟩).2
    (.sleepProcess 0) (fun _ => 0) rfl napping hcall _ _ hrun (fun m hm => by
      rcases List.mem_cons.mp hm with rfl | hm
      · exact hinside.1
      · rw [List.mem_singleton.mp hm]
        exact hinside.2) (by decide +kernel)
  exact ⟨_, hrun, hif, hrestored.1, hrestored.2⟩

end Kernel
end SkhuOS
