import SkhuOS.Proc.Steps

/-! The key queue between the keyboard interrupt and one consumer. No key is lost or
delivered twice, and the consumer sleeps in `getKey` only while no key is there. -/
namespace SkhuOS
open Foundation

namespace Kernel

/-- The characters that wait in the queue. -/
def pendingKeys (k : Kernel) : List BYTE := k.keyQueue.contents fun m a => m a

/-- The character the keyboard interrupt brings, if it is one. -/
def typed (k : Kernel) : Action → Option BYTE
  | .keyboard (some scanCode) _ =>
    if (scanToASCII k.shiftOn scanCode).1 = 0 then none
    else some (scanToASCII k.shiftOn scanCode).1
  | _ => none

/-- The character an action makes `getKey` return. -/
def delivered (k : Kernel) : Action → Option BYTE
  | .call .getKey regs => (k.getKey regs).1
  | .resume regs =>
    match k.resumePoint k.sched.runningProcess with
    | .getKey preIf => ({ k with keyWaiter := none }.getKeyLoop preIf regs).1
    | _ => none
  | _ => none

/-- The character an action brings while there is room for it. -/
def accepted (k : Kernel) (a : Action) : Option BYTE :=
  if k.pendingKeys.length < queueCount - 1 then k.typed a else none

/-- The characters that came while there was room, and those that `getKey` returned. -/
def acceptedKeys (history : List (Move Kernel Action)) : List BYTE :=
  history.filterMap fun move => move.before.accepted move.label

def deliveredKeys (history : List (Move Kernel Action)) : List BYTE :=
  history.filterMap fun move => move.before.delivered move.label

/-- Only process `q` reads keys, and with `getKey`. -/
def OneConsumer (q : ℕ) (k : Kernel) : Action → Prop
  | .call .getKey _ => k.sched.runningProcess = q
  | .call .getQueue _ => False
  | _ => True

instance (q : ℕ) (k : Kernel) : (a : Action) → Decidable (OneConsumer q k a)
  | .call c _ =>
    match c with
    | .getKey => inferInstanceAs (Decidable (_ = _))
    | .getQueue => inferInstanceAs (Decidable False)
    | .setIf _ | .createProcess _ _ | .createUserProcess _ _ | .runUserProgram _ _ _ => .isTrue trivial
    | .sleepProcess _ | .acquireLock _ | .releaseLock _ | .clearDiskInterruptFlag _ => .isTrue trivial
    | .waitInterrupt _ | .schedule | .exitProcess => .isTrue trivial
  | .timer _ | .keyboard _ _ | .disk _ _ | .resume _ | .collect _ => .isTrue trivial

/-- The actions that touch the key queue. -/
def HandlesKeys (k : Kernel) : Action → Prop
  | .keyboard _ _ => True
  | .call .getKey _ | .call .getQueue _ => True
  | .resume _ => ∃ preIf, k.resumePoint k.sched.runningProcess = .getKey preIf
  | _ => False

/-- What every other step leaves alone: the shift state, the queue, its waiter, and who is
asleep in `getKey`. -/
structure KeyFrame (k k' : Kernel) : Prop where
  shift : k'.shiftOn = k.shiftOn
  queue : k'.keyQueue = k.keyQueue
  waiter : k'.keyWaiter = k.keyWaiter
  point : ∀ p preIf, k'.resumePoint p = .getKey preIf → k.resumePoint p = .getKey preIf
  asleep : ∀ p preIf, k'.resumePoint p = .getKey preIf →
    k'.sched.plan.states p = .blocked → k.sched.plan.states p = .blocked

variable {k k' : Kernel} {a : Action} {p q : ℕ} {history : List (Move Kernel Action)}

namespace KeyFrame

theorem trans {k'' : Kernel} (h : k.KeyFrame k') (h' : k'.KeyFrame k'') : k.KeyFrame k'' :=
  ⟨h'.shift.trans h.shift, h'.queue.trans h.queue, h'.waiter.trans h.waiter,
    fun p b hp => h.point p b (h'.point p b hp),
    fun p b hp hs => h.asleep p b (h'.point p b hp) (h'.asleep p b hp hs)⟩

/-- The scheduler moves quietly and no process changes its point. -/
theorem of_plan (hshift : k'.shiftOn = k.shiftOn) (hqueue : k'.keyQueue = k.keyQueue)
    (hwaiter : k'.keyWaiter = k.keyWaiter) (hpoint : k'.resumePoint = k.resumePoint)
    (hplan : k.sched.plan.Quiet (fun _ => False) k'.sched.plan) : k.KeyFrame k' :=
  ⟨hshift, hqueue, hwaiter, fun p b hp => by rwa [hpoint] at hp,
    fun p _ _ hs => (hplan.blocked p hs).resolve_right id⟩

/-- The running process, which is not in `getKey`, goes somewhere else and may block there. -/
theorem of_running (point : ResumePoint) (hshift : k'.shiftOn = k.shiftOn)
    (hqueue : k'.keyQueue = k.keyQueue) (hwaiter : k'.keyWaiter = k.keyWaiter)
    (hpoint : k'.resumePoint = Function.update k.resumePoint k.sched.runningProcess point)
    (hother : ∀ preIf, point ≠ .getKey preIf)
    (hblocked : ∀ p, k'.sched.plan.states p = .blocked →
      k.sched.plan.states p = .blocked ∨ p = k.sched.runningProcess) : k.KeyFrame k' := by
  have hne {p : ℕ} {b : Bool} (hp : k'.resumePoint p = .getKey b) :
      p ≠ k.sched.runningProcess := by
    rintro rfl
    rw [hpoint, Function.update_self] at hp
    exact hother b hp
  refine ⟨hshift, hqueue, hwaiter, fun p b hp => ?_,
    fun p b hp hs => (hblocked p hs).resolve_right (hne hp)⟩
  have hsame := Function.update_of_ne (hne hp) point k.resumePoint
  rw [← hpoint] at hsame
  rw [← hsame, hp]

/-- The same without going anywhere. -/
theorem of_still (hshift : k'.shiftOn = k.shiftOn) (hqueue : k'.keyQueue = k.keyQueue)
    (hwaiter : k'.keyWaiter = k.keyWaiter) (hpoint : k'.resumePoint = k.resumePoint)
    (hcode : k.resumePoint k.sched.runningProcess = .code)
    (hblocked : ∀ p, k'.sched.plan.states p = .blocked →
      k.sched.plan.states p = .blocked ∨ p = k.sched.runningProcess) : k.KeyFrame k' := by
  refine of_running .code hshift hqueue hwaiter ?_ (by simp) hblocked
  rw [hpoint, ← hcode, Function.update_eq_self]

end KeyFrame

namespace Valid

theorem createAt_keyFrame (h : k.Valid) (hfree : k.allocProcessTable p = false)
    (entryPoint arg : QWORD) : k.KeyFrame (k.createAt p entryPoint arg) := by
  have hquiet : k.sched.plan.Quiet (fun _ => False) (k.createAt p entryPoint arg).sched.plan := by
    rw [h.createAt_plan hfree entryPoint arg]
    have hids : k.sched.plan.Quiet (fun _ => False)
        { k.sched.plan with ids := Function.update k.sched.plan.ids p p } :=
      (Plan.Quiet.refl _ _).roster (fun _ => rfl) rfl
    exact (hids.setState _ _ (by simp) (by simp)).append (by simp)
  refine ⟨rfl, rfl, rfl, fun q b hq => ?_, fun q _ _ hs => (hquiet.blocked q hs).resolve_right id⟩
  by_cases hqp : q = p
  · rw [hqp] at hq
    simp [Kernel.createAt] at hq
  · simpa [Kernel.createAt, hqp] using hq

theorem createProcess_keyFrame (h : k.Valid) (entryPoint arg : QWORD) :
    k.KeyFrame (k.createProcess entryPoint arg).2 := by
  rcases h.createProcess_cases entryPoint arg with ⟨p, hfree, -, heq⟩ | ⟨p, heq⟩
  · rw [heq]
    have hoff : k.KeyFrame (k.setIf false).2 := .of_plan rfl rfl rfl rfl (.refl _ _)
    refine (hoff.trans ((h.setIf false).createAt_keyFrame hfree entryPoint arg)).trans ?_
    exact .of_plan rfl rfl rfl rfl (.refl _ _)
  · rw [heq]
    exact .of_plan rfl rfl rfl rfl (.refl _ _)

theorem createUserProcess_keyFrame (h : k.Valid) (entryPoint arg : QWORD) :
    k.KeyFrame (k.createUserProcess entryPoint arg).2 := by
  have hoff : k.KeyFrame (k.setIf false).2 := .of_plan rfl rfl rfl rfl (.refl _ _)
  have hcreate := hoff.trans ((h.setIf false).createProcess_keyFrame entryPoint arg)
  simp only [Kernel.createUserProcess]
  split
  next k₁ heq =>
    rw [heq] at hcreate
    exact hcreate
  next p k₁ heq =>
    rw [heq] at hcreate
    refine hcreate.trans (.of_plan rfl rfl rfl rfl ?_)
    have hplan : (k₁.sched.modifyPcb p fun pcb => { pcb with
        context := setUserContext (BitVec.ofNat 64 (userStackBase + userStackInterval * p))
          pcb.context }).plan = k₁.sched.plan := Scheduler.modifyPcb_plan rfl
    exact (Plan.Quiet.refl _ _).roster (fun m => congrFun (congrArg Plan.roster hplan) _)
      (congrArg Plan.states hplan)

theorem runUserProgram_keyFrame (h : k.Valid) (image : Bytes) (size : ℕ) (arg : QWORD) :
    k.KeyFrame (k.runUserProgram image size arg).2 := by
  simp only [Kernel.runUserProgram]
  split
  · exact .of_plan rfl rfl rfl rfl (.refl _ _)
  · have hoff : k.KeyFrame ((k.setIf false).2.copyImage image size) :=
      .of_plan rfl rfl rfl rfl (.refl _ _)
    have hcreate := hoff.trans (((h.setIf false).copyImage image size).createUserProcess_keyFrame
      (BitVec.ofNat 64 userCodeAddress) arg)
    split
    next k₁ heq =>
      rw [heq] at hcreate
      exact hcreate
    next p k₁ heq =>
      rw [heq] at hcreate
      exact hcreate.trans (.of_plan rfl rfl rfl rfl (.refl _ _))

end Valid

theorem KeyFrame.orForever {α : Type} {call : Option α × Kernel} (h : k.KeyFrame call.2) :
    k.KeyFrame (Kernel.orForever call) := by
  obtain ⟨value, k'⟩ := call
  cases value with
  | some _ => exact h
  | none =>
    refine h.trans (.of_running .createProcess rfl rfl rfl rfl (by simp) fun p hs => ?_)
    exact .inl hs

namespace Valid

theorem acquireLock_keyFrame (h : k.Valid) {m : ℕ} (hmay : k.MayCall (.acquireLock m))
    (regs : ProcessContext) : k.KeyFrame (k.acquireLock m regs) := by
  have hblocked := (h.acquireLock_calm hmay regs).blocked
  have hdata : (k.acquireLock m regs).shiftOn = k.shiftOn ∧
      (k.acquireLock m regs).keyQueue = k.keyQueue ∧
      (k.acquireLock m regs).keyWaiter = k.keyWaiter := by
    simp only [Kernel.acquireLock]
    split
    · exact ⟨rfl, rfl, rfl⟩
    · split <;> exact ⟨rfl, rfl, rfl⟩
  rcases h.acquireLock_cases hmay regs with ⟨-, heq⟩ | ⟨-, heq⟩ | ⟨-, -, preIf, heq⟩
  · exact .of_still hdata.1 hdata.2.1 hdata.2.2 (congrArg Parts.resumePoint heq) hmay.1 hblocked
  · exact .of_still hdata.1 hdata.2.1 hdata.2.2 (congrArg Parts.resumePoint heq) hmay.1 hblocked
  · exact .of_running _ hdata.1 hdata.2.1 hdata.2.2 (congrArg Parts.resumePoint heq) (by simp)
      hblocked

theorem releaseLock_keyFrame (h : k.Valid) {m : ℕ} (hmay : k.MayCall (.releaseLock m)) :
    k.KeyFrame (k.releaseLock m) := by
  have hblocked := (h.releaseLock_calm hmay).blocked
  have hdata : (k.releaseLock m).shiftOn = k.shiftOn ∧
      (k.releaseLock m).keyQueue = k.keyQueue ∧ (k.releaseLock m).keyWaiter = k.keyWaiter := by
    simp only [Kernel.releaseLock]
    split
    · exact ⟨rfl, rfl, rfl⟩
    · split
      · split <;> exact ⟨rfl, rfl, rfl⟩
      · exact ⟨rfl, rfl, rfl⟩
  have hpoint : (k.releaseLock m).resumePoint = k.resumePoint := by
    rcases h.releaseLock_cases hmay with ⟨-, heq⟩ | ⟨-, -, heq⟩ | ⟨-, -, -, heq⟩ |
      ⟨next, rest, -, -, -, heq⟩
    · rw [heq]
    · exact congrArg Parts.resumePoint heq
    · exact congrArg Parts.resumePoint heq
    · exact congrArg Parts.resumePoint heq
  exact .of_still hdata.1 hdata.2.1 hdata.2.2 hpoint hmay.1 hblocked

theorem exitProcess_keyFrame (h : k.Valid) (regs : ProcessContext) :
    k.KeyFrame (k.exitProcess regs) := by
  obtain ⟨c, hc, -⟩ := h.collector
  refine .of_running .exitProcess rfl rfl rfl rfl (by simp) fun p hs => ?_
  rw [h.exitProcess_plan hc] at hs
  by_cases hpr : p = k.sched.runningProcess
  · exact .inr hpr
  · have hdispatch := ((Plan.Quiet.refl (fun _ => False) ((k.sched.plan.wakeup c).setState
      k.sched.runningProcess .exit)).dispatch.blocked p hs).resolve_right id
    have hwakeup := (Plan.Quiet.refl (fun _ => False) k.sched.plan).wakeup c
    refine (hwakeup.blocked p ?_).imp_right False.elim
    simpa [Plan.setState, hpr] using hdispatch

theorem collectLoop_keyFrame (h : k.Valid) (preIf : Bool) (regs : ProcessContext) :
    k.KeyFrame (k.collectLoop preIf regs) := by
  obtain ⟨point, hpoint, heq⟩ := k.collectLoop_resumePoint preIf regs
  have hdata : (k.collectLoop preIf regs).shiftOn = k.shiftOn ∧
      (k.collectLoop preIf regs).keyQueue = k.keyQueue ∧
      (k.collectLoop preIf regs).keyWaiter = k.keyWaiter := by
    simp only [Kernel.collectLoop]
    split <;> exact ⟨rfl, rfl, rfl⟩
  refine .of_running _ hdata.1 hdata.2.1 hdata.2.2 heq (fun b hb => ?_)
    (h.collectLoop_quiet preIf regs).blocked
  rcases hpoint with rfl | rfl
  · cases hb
  · cases hb

theorem waitLoop_keyFrame (h : k.Valid) (hrun : k.sched.runningProcess ≠ k.sched.idleProcess)
    (isPrimary : Bool) (deadline : QWORD) (regs : ProcessContext) :
    k.KeyFrame (k.waitLoop isPrimary deadline regs).2 := by
  simp only [Kernel.waitLoop]
  split
  · exact .of_running .code rfl rfl rfl rfl (by simp) fun _ => .inl
  · split
    · exact .of_running .code rfl rfl rfl rfl (by simp) fun _ => .inl
    · exact .of_running (.waitInterrupt isPrimary deadline) rfl rfl rfl rfl (by simp)
        (h.sleepUntilTick_quiet hrun deadline regs).blocked

theorem schedule_keyFrame (h : k.Valid) (hmay : k.MayCall .schedule) (regs : ProcessContext) :
    k.KeyFrame (k.schedule regs) := by
  simp only [Kernel.schedule]
  split
  · exact .of_plan rfl rfl rfl rfl (.refl _ _)
  · have hoff := (h.setIf false).settled
    have hplan := (Scheduler.yieldTo_refines hoff.linked regs (fun _ => hoff.running_not_mem)
      (hoff.running_id hmay.2.1)).2
    refine .of_running (.schedule (k.setIf false).1) rfl rfl rfl rfl (by simp)
      fun p hs => ?_
    have hquiet : k.sched.plan.Quiet (fun _ => False)
        ((k.setIf false).2.sched.yieldTo regs).plan := by
      rw [hplan]
      exact (Plan.Quiet.refl _ _).rotate
    exact (hquiet.blocked p hs).imp_right False.elim

/-- A handler that keeps the frame keeps it inside the interrupt. -/
theorem interrupt_keyFrame (h : k.Valid) (frame : ProcessContext) {handler : Kernel → Kernel}
    (hhandler : ∀ k : Kernel, k.Valid → k.KeyFrame (handler k)) :
    k.KeyFrame (k.interrupt frame handler) := by
  have hentry : { k with sched := { k.sched with
      ist := withIf frame true, interruptFlag := false } }.Valid :=
    h.of_sched (h.settled.congr rfl rfl rfl)
  have hframe := hhandler _ hentry
  exact ⟨hframe.shift, hframe.queue, hframe.waiter, hframe.point, hframe.asleep⟩

theorem runCall_keyFrame (h : k.Valid) {c : Call} (hmay : k.MayCall c) (regs : ProcessContext)
    (hkey : ¬ k.HandlesKeys (.call c regs)) : k.KeyFrame (k.runCall c regs) := by
  cases c with
  | setIf interrupt => exact .of_plan rfl rfl rfl rfl (.refl _ _)
  | createProcess entryPoint arg => exact (h.createProcess_keyFrame entryPoint arg).orForever
  | createUserProcess entryPoint arg =>
    exact (h.createUserProcess_keyFrame entryPoint arg).orForever
  | runUserProgram image size arg => exact (h.runUserProgram_keyFrame image size arg).orForever
  | sleepProcess ms =>
    exact .of_running (.sleepProcess (k.setIf false).1) rfl rfl rfl rfl (by simp)
      ((h.setIf false).sleepUntilTick_quiet hmay.2.1 _ regs).blocked
  | acquireLock m => exact h.acquireLock_keyFrame hmay regs
  | releaseLock m => exact h.releaseLock_keyFrame hmay
  | getKey => exact absurd trivial hkey
  | getQueue => exact absurd trivial hkey
  | clearDiskInterruptFlag isPrimary => exact .of_plan rfl rfl rfl rfl (.refl _ _)
  | waitInterrupt isPrimary =>
    simp only [Kernel.runCall, Kernel.waitInterrupt]
    split
    · exact .of_plan rfl rfl rfl rfl (.refl _ _)
    · have hoff : k.KeyFrame (k.setIf false).2 := .of_plan rfl rfl rfl rfl (.refl _ _)
      exact hoff.trans ((h.setIf false).waitLoop_keyFrame hmay.2.1 _ _ regs)
  | schedule => exact h.schedule_keyFrame hmay regs
  | exitProcess => exact h.exitProcess_keyFrame regs

theorem resumeCall_keyFrame (h : k.Valid) {regs : ProcessContext}
    (hstep : k.resumeCall (k.resumePoint k.sched.runningProcess) regs = some k')
    (hkey : ¬ k.HandlesKeys (.resume regs)) : k.KeyFrame k' := by
  have hdone (preIf : Bool) :
      k.KeyFrame ((k.setResumePoint k.sched.runningProcess .code).setIf preIf).2 :=
    .of_running .code rfl rfl rfl rfl (by simp) fun _ => .inl
  cases hat : k.resumePoint k.sched.runningProcess with
  | code => simp [Kernel.resumeCall, hat] at hstep
  | exitProcess => simp [Kernel.resumeCall, hat] at hstep
  | createProcess => simp [Kernel.resumeCall, hat] at hstep
  | sleepProcess preIf | schedule preIf | acquireLock m preIf =>
    simp only [Kernel.resumeCall, hat, Option.some.injEq] at hstep
    exact hstep ▸ hdone preIf
  | getKey preIf => exact absurd ⟨preIf, hat⟩ hkey
  | waitInterrupt isPrimary deadline =>
    simp only [Kernel.resumeCall, hat, Option.some.injEq] at hstep
    subst hstep
    have hclear : k.KeyFrame { k with
        diskWaiter := Function.update k.diskWaiter isPrimary none } :=
      .of_plan rfl rfl rfl rfl (.refl _ _)
    exact hclear.trans ((h.clear_diskWaiter isPrimary).waitLoop_keyFrame
      (h.running_ne_idle (by simp [hat])) isPrimary deadline regs)
  | garbageProcessCollector preIf =>
    simp only [Kernel.resumeCall, hat, Option.some.injEq] at hstep
    exact hstep ▸ h.collectLoop_keyFrame preIf regs

/-- A step that has nothing to do with keys. -/
theorem keyFrame (h : k.Valid) (hstep : k.step a = some k') (hkey : ¬ k.HandlesKeys a) :
    k.KeyFrame k' := by
  cases a with
  | timer frame =>
    simp only [Kernel.step, Option.ite_none_right_eq_some, Option.some.injEq] at hstep
    obtain ⟨-, rfl⟩ := hstep
    exact h.interrupt_keyFrame frame fun k hk =>
      .of_plan rfl rfl rfl rfl (hk.timerInterruptHandler_quiet _)
  | keyboard scanCode frame => exact absurd trivial hkey
  | disk isPrimary frame =>
    simp only [Kernel.step, Option.ite_none_right_eq_some, Option.some.injEq] at hstep
    obtain ⟨-, rfl⟩ := hstep
    exact h.interrupt_keyFrame frame fun k hk => .of_plan rfl rfl rfl rfl
      (hk.wakeupProcessInInterrupt_quiet _ (hk.diskWaiter_place isPrimary) _)
  | call c regs =>
    simp only [Kernel.step, Option.ite_none_right_eq_some, Option.some.injEq] at hstep
    obtain ⟨hmay, rfl⟩ := hstep
    exact h.runCall_keyFrame hmay regs hkey
  | resume regs => exact h.resumeCall_keyFrame hstep hkey
  | collect regs =>
    simp only [Kernel.step, Option.ite_none_right_eq_some, Option.some.injEq] at hstep
    obtain ⟨-, rfl⟩ := hstep
    have hoff : k.KeyFrame (k.setIf false).2 := .of_plan rfl rfl rfl rfl (.refl _ _)
    exact hoff.trans ((h.setIf false).collectLoop_keyFrame _ regs)

end Valid

/-- The queue has the size `initKeyboard` gave it. -/
structure KeyBuffer (queue : Queue) : Prop where
  wellFormed : queue.WellFormed
  len : queue.len = queueCount
  dataSize : queue.dataSize = 1

/-- Only `q` reads keys, and while it sleeps there the queue is empty and the keyboard
knows whom to wake. -/
structure KeysKept (q : ℕ) (k : Kernel) : Prop where
  buffer : KeyBuffer k.keyQueue
  point : ∀ p preIf, k.resumePoint p = .getKey preIf → p = q
  asleep : ∀ p preIf, k.resumePoint p = .getKey preIf → k.sched.plan.states p = .blocked →
    k.keyWaiter = some p ∧ k.pendingKeys = []

theorem KeysKept.frame (h : k.KeysKept q) (hframe : k.KeyFrame k') : k'.KeysKept q := by
  refine ⟨hframe.queue ▸ h.buffer, fun p b hp => h.point p b (hframe.point p b hp),
    fun p b hp hs => ?_⟩
  have hold := h.asleep p b (hframe.point p b hp) (hframe.asleep p b hp hs)
  exact ⟨hframe.waiter.trans hold.1, by rw [pendingKeys, hframe.queue]; exact hold.2⟩

theorem blockRead_key : BlockRead 1 fun m a => m a := fun m m' a a' h => by
  simpa using h 0 Nat.one_pos

/-- A key joins the queue when there is room and is dropped otherwise. -/
theorem KeyBuffer.enQueue {queue : Queue} (h : KeyBuffer queue) (code : BYTE) :
    KeyBuffer (SkhuOS.enQueue queue fun _ => code).2 ∧
      (SkhuOS.enQueue queue fun _ => code).2.contents (fun m a => m a) =
        queue.contents (fun m a => m a) ++
          (if (queue.contents fun m a => m a).length < queueCount - 1 then some code
            else none).toList := by
  have hlen := enQueue_len queue fun _ => code
  refine ⟨⟨enQueue_wellFormed h.wellFormed, hlen.1.trans h.len, hlen.2.trans h.dataSize⟩, ?_⟩
  have hiff := queueIsFull_iff h.wellFormed fun m a => m a
  have hlt := h.wellFormed.length_lt fun m a => m a
  rw [h.len] at hiff hlt
  cases hfull : queueIsFull queue with
  | true =>
    rw [enQueue_full hfull, if_neg (by have := hiff.mp hfull; omega), Option.toList_none,
      List.append_nil]
  | false =>
    have hread : BlockRead queue.dataSize fun m a => m a := h.dataSize ▸ blockRead_key
    have hroom : (queue.contents fun m a => m a).length ≠ queueCount - 1 := fun he => by
      rw [hiff.mpr he] at hfull
      exact nomatch hfull
    rw [(enQueue_contents h.wellFormed hread hfull).2, if_pos (by omega), Option.toList_some]

/-- Nobody the interrupt handler is told to wake stays blocked. -/
theorem Valid.wakeupProcessInInterrupt_woken (h : k.Valid) (hp : k.roles.member p)
    (hw : k.roles.waits p = none ∨ k.roles.waits p = some .sleepList) :
    (k.sched.wakeupProcessInInterrupt (some p)).plan.states p ≠ .blocked := by
  intro hs
  have hplan := (h.settled.wakeupProcess_refines hp hw).2
  have hwoken : (k.sched.plan.wakeup p).states p = .blocked := by
    simp only [Scheduler.wakeupProcessInInterrupt] at hs
    split at hs
    · rw [((h.settled.wakeupProcess (some p) fun q hq => Option.some.inj hq ▸
        ⟨hp, hw⟩).timeoutSchedule_refines).2, hplan] at hs
      exact ((Plan.Quiet.refl (fun _ => False) _).timeout.blocked p hs).resolve_right id
    · rwa [hplan] at hs
  unfold Plan.wakeup at hwoken
  split at hwoken
  · simp [Plan.append, Plan.setState] at hwoken
  · contradiction

/-- The keyboard interrupt keeps the typed character while there is room, and wakes the
process that waits for it. -/
theorem KeysKept.keyboard (h : k.KeysKept q) (hvalid : k.Valid) (scanCode : Option BYTE)
    (frame : ProcessContext) :
    (k.keyboardInterruptHandler scanCode).KeysKept q ∧
      (k.keyboardInterruptHandler scanCode).pendingKeys = k.pendingKeys ++
        (k.accepted (.keyboard scanCode frame)).toList := by
  cases scanCode with
  | none => exact ⟨h, by simp [Kernel.keyboardInterruptHandler, accepted, typed]⟩
  | some scanCode =>
    by_cases hcode : (scanToASCII k.shiftOn scanCode).1 = 0
    · have heq : k.keyboardInterruptHandler (some scanCode) =
          { k with shiftOn := (scanToASCII k.shiftOn scanCode).2 } := if_neg (not_not.mpr hcode)
      have htyped : k.typed (.keyboard (some scanCode) frame) = none := if_pos hcode
      rw [heq, accepted, htyped, ite_self, Option.toList_none, List.append_nil]
      exact ⟨⟨h.buffer, h.point, h.asleep⟩, rfl⟩
    · have heq : k.keyboardInterruptHandler (some scanCode) = ({ (k.setIf false).2 with
          shiftOn := (scanToASCII k.shiftOn scanCode).2
          keyQueue := (enQueue k.keyQueue fun _ => (scanToASCII k.shiftOn scanCode).1).2
          sched := (k.setIf false).2.sched.wakeupProcessInInterrupt k.keyWaiter }.setIf
            (k.setIf false).1).2 := if_pos hcode
      have hqueue : (k.keyboardInterruptHandler (some scanCode)).keyQueue =
          (enQueue k.keyQueue fun _ => (scanToASCII k.shiftOn scanCode).1).2 := by rw [heq]; rfl
      have hplan : (k.keyboardInterruptHandler (some scanCode)).sched.plan =
          ((k.setIf false).2.sched.wakeupProcessInInterrupt k.keyWaiter).plan := by rw [heq]; rfl
      have hpoint : (k.keyboardInterruptHandler (some scanCode)).resumePoint =
          k.resumePoint := by rw [heq]; rfl
      obtain ⟨hbuffer, hcontents⟩ := h.buffer.enQueue (scanToASCII k.shiftOn scanCode).1
      refine ⟨⟨hqueue ▸ hbuffer, fun p b hp => h.point p b (hpoint ▸ hp), fun p b hp hs => ?_⟩, ?_⟩
      · -- a process that was asleep is the waiter, which does not stay blocked
        rw [hplan] at hs
        have hoff := hvalid.setIf false
        have hquiet := hoff.wakeupProcessInInterrupt_quiet _ hvalid.keyWaiter_place fun _ => False
        have hold := h.asleep p b (hpoint ▸ hp) ((hquiet.blocked p hs).resolve_right id)
        obtain ⟨hmem, hwaits⟩ := hvalid.keyWaiter_place p hold.1
        rw [hold.1] at hs
        exact absurd hs (hoff.wakeupProcessInInterrupt_woken hmem hwaits)
      · have htyped : k.typed (.keyboard (some scanCode) frame) =
            some (scanToASCII k.shiftOn scanCode).1 := if_neg hcode
        rw [pendingKeys, hqueue, hcontents, accepted, htyped]
        rfl

/-- `getKey` returns the oldest key, and it blocks on an empty queue only. -/
theorem KeysKept.getKeyLoop (h : k.KeysKept q) (hrun : k.sched.runningProcess = q)
    (preIf : Bool) (regs : ProcessContext) :
    (k.getKeyLoop preIf regs).2.KeysKept q ∧
      k.pendingKeys = (k.getKeyLoop preIf regs).1.toList ++
        (k.getKeyLoop preIf regs).2.pendingKeys := by
  have hread : BlockRead k.keyQueue.dataSize fun m a => m a := h.buffer.dataSize ▸ blockRead_key
  cases hempty : queueIsEmpty k.keyQueue with
  | true =>
    have hnone := (queueIsEmpty_iff h.buffer.wellFormed fun m a => m a).mp hempty
    have hfail : deQueue k.keyQueue (fun _ => 0) = (false, fun _ => 0, k.keyQueue) := by
      simp [deQueue, hempty]
    simp only [Kernel.getKeyLoop, hfail, Bool.false_eq_true, if_false]
    refine ⟨⟨h.buffer, fun p b hp => ?_, fun p b hp _ => ?_⟩, rfl⟩
    · by_cases hpr : p = k.sched.runningProcess
      · exact hpr.trans hrun
      · exact h.point p b (by simpa [Kernel.setResumePoint, hpr] using hp)
    · by_cases hpr : p = k.sched.runningProcess
      · exact ⟨congrArg some hpr.symm, hnone⟩
      · have hold := h.point p b (by simpa [Kernel.setResumePoint, hpr] using hp)
        exact absurd (hold.trans hrun.symm) hpr
  | false =>
    obtain ⟨hsuccess, hcontents⟩ := deQueue_contents (fun _ => 0)
      h.buffer.wellFormed hread hempty
    have hlen := deQueue_len k.keyQueue fun _ => 0
    simp only [Kernel.getKeyLoop, hsuccess, if_true]
    have hnone (p : ℕ) (b : Bool) :
        Function.update k.resumePoint k.sched.runningProcess .code p ≠ .getKey b := by
      by_cases hpr : p = k.sched.runningProcess
      · simp [hpr]
      · rw [Function.update_of_ne hpr]
        exact fun hp => hpr ((h.point p b hp).trans hrun.symm)
    refine ⟨⟨⟨deQueue_wellFormed h.buffer.wellFormed, hlen.1.trans h.buffer.len,
      hlen.2.trans h.buffer.dataSize⟩, fun p b hp => absurd hp (hnone p b),
      fun p b hp => absurd hp (hnone p b)⟩, hcontents⟩

theorem not_handlesKeys (hkey : ¬ k.HandlesKeys a) : k.typed a = none ∧ k.delivered a = none := by
  cases a with
  | timer _ | disk _ _ | collect _ => exact ⟨rfl, rfl⟩
  | keyboard _ _ => exact absurd trivial hkey
  | call c _ =>
    refine ⟨rfl, ?_⟩
    cases c with
    | getKey => exact absurd trivial hkey
    | _ => rfl
  | resume _ =>
    refine ⟨rfl, ?_⟩
    simp only [delivered]
    split
    next preIf hat => exact absurd ⟨preIf, hat⟩ hkey
    next => rfl

theorem typed_not_delivered {c : BYTE} (hc : k.typed a = some c) : k.delivered a = none := by
  cases a with
  | keyboard _ _ => rfl
  | _ => exact nomatch hc

/-- One step: what was pending and what came in is what went out and what is pending. -/
theorem KeysKept.step (h : k.KeysKept q) (hvalid : k.Valid) (hok : OneConsumer q k a)
    (hstep : k.step a = some k') : k'.KeysKept q ∧
      k.pendingKeys ++ (k.accepted a).toList = (k.delivered a).toList ++ k'.pendingKeys := by
  by_cases hkey : k.HandlesKeys a
  · cases a with
    | timer _ | disk _ _ | collect _ => exact hkey.elim
    | keyboard scanCode frame =>
      simp only [Kernel.step, Option.ite_none_right_eq_some, Option.some.injEq] at hstep
      obtain ⟨-, rfl⟩ := hstep
      have hentry : { k with sched := { k.sched with
          ist := withIf frame true, interruptFlag := false } }.Valid :=
        hvalid.of_sched (hvalid.settled.congr rfl rfl rfl)
      have hkept : { k with sched := { k.sched with
          ist := withIf frame true, interruptFlag := false } }.KeysKept q :=
        ⟨h.buffer, h.point, h.asleep⟩
      obtain ⟨hafter, hpending⟩ := hkept.keyboard hentry scanCode frame
      exact ⟨⟨hafter.buffer, hafter.point, hafter.asleep⟩, hpending.symm⟩
    | call c regs =>
      simp only [Kernel.step, Option.ite_none_right_eq_some, Option.some.injEq] at hstep
      obtain ⟨-, rfl⟩ := hstep
      cases c with
      | getKey =>
        have hoff : (k.setIf false).2.KeysKept q := ⟨h.buffer, h.point, h.asleep⟩
        have hloop := hoff.getKeyLoop hok (k.setIf false).1 regs
        simp only [accepted, typed, ite_self, Option.toList_none, List.append_nil]
        exact hloop
      | getQueue => exact hok.elim
      | _ => exact hkey.elim
    | resume regs =>
      obtain ⟨preIf, hat⟩ := hkey
      simp only [Kernel.step, Kernel.resumeCall, hat, Option.some.injEq] at hstep
      subst hstep
      -- the consumer runs again, so nobody sleeps in `getKey`
      have hrun : k.sched.runningProcess = q := h.point _ preIf hat
      have hawake : k.sched.plan.states q ≠ .blocked := by
        rw [← hrun]
        have hstate : k.sched.plan.states k.sched.runningProcess = .running :=
          hvalid.settled.running_state (hvalid.running_ne_idle (by simp [hat]))
        simp [hstate]
      have hclear : { k with keyWaiter := none }.KeysKept q :=
        ⟨h.buffer, h.point, fun p b hp hs => absurd (h.point p b hp ▸ hs) hawake⟩
      have hloop := hclear.getKeyLoop hrun preIf regs
      simp only [accepted, typed, delivered, hat, ite_self, Option.toList_none, List.append_nil]
      exact hloop
  · have hframe := hvalid.keyFrame hstep hkey
    obtain ⟨htyped, hdelivered⟩ := not_handlesKeys hkey
    refine ⟨h.frame hframe, ?_⟩
    rw [accepted, htyped, hdelivered, ite_self, pendingKeys, pendingKeys, hframe.queue]
    simp

/-- The consumer sleeps in `getKey` only while no key is there, it gets the accepted keys
in order, each once, and a full queue drops the new key only. -/
structure KeysDelivered (history : List (Move Kernel Action)) (k : Kernel) : Prop where
  asleep : ∀ p preIf, k.resumePoint p = .getKey preIf → (k.sched.pcb p).state = .blocked →
    k.pendingKeys = []
  keys : acceptedKeys history = deliveredKeys history ++ k.pendingKeys
  dropped : ∀ m ∈ history, ∀ c, m.before.typed m.label = some c →
    queueCount - 1 ≤ m.before.pendingKeys.length → m.after.pendingKeys = m.before.pendingKeys

end Kernel

theorem Boot.start_keyQueue (b : Boot) :
    b.start.keyQueue = initQueue (fun _ => 0) queueCount 1 := by
  rw [start_eq]
  rfl

theorem Boot.start_pendingKeys (b : Boot) : b.start.pendingKeys = [] := by
  rw [Kernel.pendingKeys, b.start_keyQueue, initQueue_contents]

theorem Boot.start_keysKept (b : Boot) (q : ℕ) : b.start.KeysKept q := by
  refine ⟨?_, fun p preIf hp => ?_, fun p preIf hp => ?_⟩
  · rw [b.start_keyQueue]
    exact ⟨initQueue_wellFormed _ (by decide) (by decide), rfl, rfl⟩
  · simp at hp
  · simp at hp

namespace Kernel

variable {k : Kernel} {q : ℕ} {history : List (Move Kernel Action)}

theorem keysKept_run {b : Boot} (hrun : KernelRun (OneConsumer q) b history k) :
    (∀ m ∈ history, m.before.Valid ∧ m.before.KeysKept q) ∧ k.Valid ∧ k.KeysKept q :=
  hrun.invariant_moves (P := fun t => t.Valid ∧ t.KeysKept q)
    ⟨b.start_valid, b.start_keysKept q⟩
    fun _ _ _ ⟨hvalid, hkept⟩ hok hstep => ⟨hvalid.step hstep, (hkept.step hvalid hok hstep).1⟩

theorem accepted_run {b : Boot} (hrun : KernelRun (OneConsumer q) b history k) :
    acceptedKeys history = deliveredKeys history ++ k.pendingKeys := by
  refine hrun.history_invariant (P := fun past t =>
    acceptedKeys past = deliveredKeys past ++ t.pendingKeys) b.start_pendingKeys.symm
    fun past t a u hpast hkeys hok hstep => ?_
  obtain ⟨-, hvalid, hkept⟩ := keysKept_run hpast
  have hbalance := (hkept.step hvalid hok hstep).2
  have hin : acceptedKeys (past ++ [⟨t, a, u⟩]) = acceptedKeys past ++ (t.accepted a).toList := by
    cases hc : t.accepted a <;> simp [acceptedKeys, hc]
  have hout : deliveredKeys (past ++ [⟨t, a, u⟩]) =
      deliveredKeys past ++ (t.delivered a).toList := by
    cases hc : t.delivered a <;> simp [deliveredKeys, hc]
  rw [hin, hout, hkeys, List.append_assoc, hbalance, List.append_assoc]

theorem keys_delivered {b : Boot} (hrun : KernelRun (OneConsumer q) b history k) :
    KeysDelivered history k := by
  obtain ⟨hbefore, -, hkept⟩ := keysKept_run hrun
  refine ⟨fun p preIf hp hs => (hkept.asleep p preIf hp hs).2, accepted_run hrun,
    fun m hm c hc hfull => ?_⟩
  obtain ⟨hok, hstep⟩ := hrun.move_mem hm
  obtain ⟨hvalid, hmkept⟩ := hbefore m hm
  have hbalance := (hmkept.step hvalid hok hstep).2
  have hnone : m.before.accepted m.label = none := if_neg (Nat.not_lt.mpr hfull)
  simpa [hnone, typed_not_delivered hc] using hbalance.symm

/-- The shell waits for a key, the collector for an exit, and a key wakes the shell. -/
def keyWait : List Action :=
  let regs : ProcessContext := fun _ => 0
  [.call (.setIf true) regs, .call .getKey regs, .collect regs, .keyboard (some 0x1E) regs,
    .resume regs]

theorem keys_delivered_keyWait :
    KeysDelivered (trace step Boot.zero.start keyWait) (reached step Boot.zero.start keyWait) ∧
      deliveredKeys (trace step Boot.zero.start keyWait) = [0x61] := by
  have hrun : KernelRun (OneConsumer 0) Boot.zero (trace step Boot.zero.start keyWait)
      (reached step Boot.zero.start keyWait) := run_trace (by decide +kernel) (by decide +kernel)
  exact ⟨keys_delivered hrun, by decide +kernel⟩

end Kernel
end SkhuOS
