import SkhuOS.Proc.UserAccess

/-! Exits and the collector. While no process exits into a full queue, every exited pid
waits in the queue and is reclaimed once, in the order of the exits. -/
namespace SkhuOS
open Foundation

namespace Kernel

/-- The pids of the processes whose slots wait to be reclaimed. -/
def exitQueue (k : Kernel) : List ℕ := k.exitProcessQueue.contents pidAt

/-- The process an action lets exit. -/
def exits (k : Kernel) : Action → Option ℕ
  | .call .exitProcess _ => some k.sched.runningProcess
  | _ => none

/-- The collector runs its loop body. -/
def collects (k : Kernel) : Action → Bool
  | .collect _ => true
  | .resume _ =>
    match k.resumePoint k.sched.runningProcess with
    | .garbageProcessCollector _ => true
    | _ => false
  | _ => false

/-- The pid an action reclaims: the oldest of the queue, if it is the collector's. -/
def reclaims (k : Kernel) (a : Action) : Option ℕ :=
  if k.collects a then k.exitQueue.head? else none

/-- The pids that exited in a history, and those that were reclaimed, in order. -/
def exitedPids (history : List (Move Kernel Action)) : List ℕ :=
  history.filterMap fun move => move.before.exits move.label

def reclaimedPids (history : List (Move Kernel Action)) : List ℕ :=
  history.filterMap fun move => move.before.reclaims move.label

theorem exitedPids_snoc (history : List (Move Kernel Action)) (k k' : Kernel) (a : Action) :
    exitedPids (history ++ [⟨k, a, k'⟩]) = exitedPids history ++ (k.exits a).toList := by
  cases h : k.exits a <;> simp [exitedPids, h]

theorem reclaimedPids_snoc (history : List (Move Kernel Action)) (k k' : Kernel) (a : Action) :
    reclaimedPids (history ++ [⟨k, a, k'⟩]) = reclaimedPids history ++ (k.reclaims a).toList := by
  cases h : k.reclaims a <;> simp [reclaimedPids, h]

/-- How often the collector ran. -/
def collectorTurns (history : List (Move Kernel Action)) : ℕ :=
  history.countP fun move => move.before.collects move.label

/-- A process exits only while the queue has room. -/
def RoomForExit (k : Kernel) : Action → Prop
  | .call .exitProcess _ => queueIsFull k.exitProcessQueue = false
  | _ => True

variable {k k' : Kernel} {p : ℕ}

namespace Valid

/-- An exit queues the pid if there is room. -/
theorem exitProcess_queue (h : k.Valid) (hmay : k.MayCall .exitProcess) (regs : ProcessContext) :
    (k.exitProcess regs).exitQueue = if queueIsFull k.exitProcessQueue then k.exitQueue
      else k.exitQueue ++ [k.sched.runningProcess] := by
  have hlt : k.sched.runningProcess < 2 ^ 31 := by
    have := h.alloc_lt _ (h.running_member hmay.2.1).1
    simp only [processMaxCount] at this
    omega
  rw [exitQueue, exitQueue, ← enQueue_pid h.queue.1 h.queue.2.2 hlt,
    ← h.settled.running_id hmay.2.1]
  rfl

/-- An exit stops its caller and blocks nobody; the collector is awake behind it. -/
theorem exitProcess_states (h : k.Valid) (regs : ProcessContext) {c : ℕ}
    (hc : k.collectorProcess = some c) (hne : k.sched.runningProcess ≠ c) :
    (∀ p, (k.exitProcess regs).sched.plan.states p = .exit →
        p = k.sched.runningProcess ∨ k.sched.plan.states p = .exit) ∧
      (k.exitProcess regs).sched.plan.states c ≠ .blocked := by
  rw [h.exitProcess_plan hc]
  set π := (k.sched.plan.wakeup c).setState k.sched.runningProcess .exit with hπ
  have hdispatch : π.Quiet (fun _ => False) π.dispatch := (Plan.Quiet.refl _ _).dispatch
  have hwakeup := (Plan.Quiet.refl (fun _ => False) k.sched.plan).wakeup c
  refine ⟨fun p hp => ?_, fun hblocked => ?_⟩
  · have hbefore := hdispatch.exits p hp
    by_cases hpr : p = k.sched.runningProcess
    · exact .inl hpr
    · exact .inr (hwakeup.exits p (by simpa [hπ, Plan.setState, hpr] using hbefore))
  · have hbefore := (hdispatch.blocked c hblocked).resolve_right id
    have hstill : (k.sched.plan.wakeup c).states c = .blocked := by
      simpa [hπ, Plan.setState, hne.symm] using hbefore
    unfold Plan.wakeup at hstill
    split at hstill
    · simp [Plan.append, Plan.setState] at hstill
    next hno => exact hno hstill

/-- The collector's loop body reclaims the oldest pid, or blocks when there is none. -/
theorem collectLoop_effect (h : k.Valid) (preIf : Bool) (regs : ProcessContext) :
    (k.exitQueue = [] ∧ (k.collectLoop preIf regs).exitQueue = [] ∧
        (k.collectLoop preIf regs).allocProcessTable = k.allocProcessTable ∧
        (k.collectLoop preIf regs).sched = k.sched.blockRunningProcess regs) ∨
      (k.exitQueue = k.frontPid :: (k.collectLoop preIf regs).exitQueue ∧
        (k.collectLoop preIf regs).allocProcessTable =
          Function.update k.allocProcessTable k.frontPid false ∧
        (k.collectLoop preIf regs).sched.plan = k.sched.plan) := by
  simp only [Kernel.collectLoop]
  split
  next hempty =>
    have hnil : k.exitQueue = [] := (queueIsEmpty_iff h.queue.1 _).mp hempty
    exact .inl ⟨hnil, hnil, rfl, rfl⟩
  next hempty => exact .inr ⟨h.deQueue_pid hempty, rfl, rfl⟩

/-- A blocked collector is inside its loop. -/
theorem collector_special (h : k.Valid) {c : ℕ} (hc : k.collectorProcess = some c)
    (hblocked : k.sched.plan.states c = .blocked) : (k.resumePoint c).Special := by
  obtain ⟨c', hc', hmem, hat⟩ := h.collector
  obtain rfl : c' = c := Option.some.inj (hc'.symm.trans hc)
  have hblocks : (k.resumePoint c').Blocks := h.settled.plan.placed.blocks_of c' hmem hblocked
  rcases hat with hat | ⟨preIf, hat⟩
  · rw [hat] at hblocks
    exact hblocks.elim
  · rw [hat]
    trivial

end Valid

/-- Outside the tracked actions nothing exits and nothing is reclaimed. -/
theorem untracked_exits {a : Action} (ha : ¬ k.Tracked a) : k.exits a = none ∧ k.reclaims a = none := by
  cases a with
  | call c regs => cases c <;> first | exact ⟨rfl, rfl⟩ | exact absurd trivial ha
  | resume regs =>
    have hat : k.collects (.resume regs) = false := by
      simp only [collects]
      split
      next preIf hat => exact absurd ⟨preIf, hat⟩ ha
      · rfl
    exact ⟨rfl, by simp [reclaims, hat]⟩
  | collect regs => exact absurd trivial ha
  | _ => exact ⟨rfl, rfl⟩

/-- What leaves the queue is what the collector reclaims, what enters it has exited. -/
theorem Valid.exitQueue_step (h : k.Valid) {a : Action} (hstep : k.step a = some k')
    (hroom : RoomForExit k a) :
    k.exitQueue ++ (k.exits a).toList = (k.reclaims a).toList ++ k'.exitQueue := by
  have hsame (hexits : k.exits a = none ∧ k.reclaims a = none) (hqueue : k'.exitQueue = k.exitQueue) :
      k.exitQueue ++ (k.exits a).toList = (k.reclaims a).toList ++ k'.exitQueue := by
    simp [hexits.1, hexits.2, hqueue]
  have hqueue (hparts : k'.parts.queue = k.parts.queue) : k'.exitQueue = k.exitQueue :=
    congrArg (fun queue : Queue => queue.contents pidAt) hparts
  have hcollect {j : Kernel} (hj : j.Valid) (hjq : j.exitQueue = k.exitQueue) {preIf : Bool}
      {regs : ProcessContext} (hturn : k.collects a = true) (hexits : k.exits a = none)
      (hk' : k' = j.collectLoop preIf regs) :
      k.exitQueue ++ (k.exits a).toList = (k.reclaims a).toList ++ k'.exitQueue := by
    rw [hk', reclaims, if_pos hturn, hexits, ← hjq]
    rcases hj.collectLoop_effect preIf regs with ⟨hnil, hnil', -, -⟩ | ⟨hcons, -, -⟩
    · simp [hnil, hnil']
    · rw [hcons]
      simp
  cases h.step_kind hstep with
  | still ha hstill => exact hsame (untracked_exits ha) (hqueue hstill.1.queue)
  | @create c regs hmay hc =>
    refine hsame ?_ (hqueue (h.runCall_made hmay hc regs).queue)
    cases c <;> first | exact ⟨rfl, rfl⟩ | exact hc.elim
  | @acquireLock m regs hmay => exact hsame ⟨rfl, rfl⟩ (hqueue (h.acquireLock_calm hmay regs).queue)
  | releaseLock hmay => exact hsame ⟨rfl, rfl⟩ (hqueue (h.releaseLock_calm hmay).queue)
  | exitProcess hmay =>
    have hfull : queueIsFull k.exitProcessQueue = false := hroom
    rw [h.exitProcess_queue hmay, hfull]
    simp [exits, reclaims, collects]
  | collect hcol hcode => exact hcollect (h.setIf false) rfl rfl rfl rfl
  | recollect hat => exact hcollect h rfl (by simp [collects, hat]) rfl rfl

/-- Exited processes that keep their slot are queued, and the collector is awake while
there are any. -/
structure ExitsQueued (k : Kernel) : Prop where
  queued : ∀ p, k.allocProcessTable p = true → k.sched.plan.states p = .exit → p ∈ k.exitQueue
  awake : k.exitQueue ≠ [] → ∀ c, k.collectorProcess = some c → k.sched.plan.states c ≠ .blocked

namespace ExitsQueued

/-- A step that leaves the queue alone, lets nothing exit and blocks no collector. -/
theorem keep (h : k.ExitsQueued) (hqueue : k'.parts.queue = k.parts.queue)
    (hcol : k'.parts.collector = k.parts.collector)
    (hexits : ∀ p, k'.allocProcessTable p = true → k'.sched.plan.states p = .exit →
      k.allocProcessTable p = true ∧ k.sched.plan.states p = .exit)
    (hblocked : ∀ c, k.collectorProcess = some c → k'.sched.plan.states c = .blocked →
      k.sched.plan.states c = .blocked) : k'.ExitsQueued := by
  have hq : k'.exitQueue = k.exitQueue :=
    congrArg (fun queue : Queue => queue.contents pidAt) hqueue
  have hc : k'.collectorProcess = k.collectorProcess := hcol
  refine ⟨fun p hp hs => ?_, fun hne c hc' hs => ?_⟩
  · rw [hq]
    exact h.queued p (hexits p hp hs).1 (hexits p hp hs).2
  · rw [hq] at hne
    rw [hc] at hc'
    exact h.awake hne c hc' (hblocked c hc' hs)

/-- The same for the steps that frame conditions describe. -/
theorem of_frame (h : k.ExitsQueued) (hvalid : k'.Valid) (hframe : k.parts.Frame k'.parts)
    (halloc : ∀ p, k'.allocProcessTable p = true → k'.sched.plan.states p = .exit →
      k.allocProcessTable p = true) : k'.ExitsQueued := by
  refine h.keep hframe.queue hframe.collector
    (fun p hp hs => ⟨halloc p hp hs, hframe.exits p hs⟩) fun c hc hs => ?_
  have hc' : k'.collectorProcess = some c := hframe.collector.trans hc
  exact (hframe.blocked c hs).resolve_right (not_not.mpr (hvalid.collector_special hc' hs))

/-- The same for the mutex calls, which the collector does not make. -/
theorem of_calm (h : k.ExitsQueued) (hcol : some k.sched.runningProcess ≠ k.collectorProcess)
    (hcalm : k.parts.Calm k'.parts) : k'.ExitsQueued := by
  have halloc : k'.allocProcessTable = k.allocProcessTable := hcalm.alloc
  refine h.keep hcalm.queue hcalm.collector (fun p hp hs => ⟨halloc ▸ hp, hcalm.exits p hs⟩)
    fun c hc hs => (hcalm.blocked c hs).resolve_right ?_
  rintro rfl
  exact hcol hc.symm

theorem collectLoop (h : k.ExitsQueued) (hvalid : k.Valid) (preIf : Bool)
    (regs : ProcessContext) : (k.collectLoop preIf regs).ExitsQueued := by
  rcases hvalid.collectLoop_effect preIf regs with ⟨hnil, hnil', halloc, hsched⟩ | ⟨hcons, halloc, hplan⟩
  · refine ⟨fun p hp hs => ?_, fun hne => absurd hnil' hne⟩
    have hquiet := hvalid.blockRunningProcess_quiet regs
    rw [hnil', ← hnil]
    exact h.queued p (halloc ▸ hp) (hquiet.exits p (hsched ▸ hs))
  · refine ⟨fun p hp hs => ?_, fun _ c hc hs => ?_⟩
    · have hne : p ≠ k.frontPid := by
        rintro rfl
        simp [halloc] at hp
      have hmem := h.queued p (by simpa [halloc, hne] using hp) (hplan ▸ hs)
      rw [hcons] at hmem
      exact (List.mem_cons.mp hmem).resolve_left hne
    · have hc' : k.collectorProcess = some c := by
        rw [← hc]
        simp only [Kernel.collectLoop]
        split <;> rfl
      exact h.awake (by simp [hcons]) c hc' (hplan ▸ hs)

theorem step (h : k.ExitsQueued) (hvalid : k.Valid) {a : Action} (hstep : k.step a = some k')
    (hroom : RoomForExit k a) : k'.ExitsQueued := by
  have hvalid' := hvalid.step hstep
  cases hvalid.step_kind hstep with
  | still ha hstill =>
    have halloc : k'.allocProcessTable = k.allocProcessTable := hstill.1.alloc
    exact h.of_frame hvalid' hstill.1.toFrame fun p hp _ => halloc ▸ hp
  | @create c regs hmay hc =>
    have hmade := hvalid.runCall_made hmay hc regs
    refine h.of_frame hvalid' hmade.toFrame fun p hp hs => ?_
    rcases hmade.alloc with halloc | ⟨q, -, halloc, -, hready⟩
    · exact (congrFun halloc p).symm.trans hp
    · have hne : p ≠ q := by
        rintro rfl
        have hready' : (k.runCall c regs).sched.plan.states p = .ready := hready
        rw [hready'] at hs
        cases hs
      have halloc' := congrFun halloc p
      rw [Function.update_of_ne hne] at halloc'
      exact halloc'.symm.trans hp
  | @acquireLock m regs hmay =>
    exact h.of_calm hmay.2.2.1 (hvalid.acquireLock_calm hmay regs)
  | releaseLock hmay => exact h.of_calm hmay.2.2.1 (hvalid.releaseLock_calm hmay)
  | @exitProcess regs hmay =>
    obtain ⟨c, hc, -⟩ := hvalid.collector
    have hne : k.sched.runningProcess ≠ c := fun he => hmay.2.2.1 (by rw [he, hc])
    obtain ⟨hexits, hawake⟩ := hvalid.exitProcess_states regs hc hne
    have hfull : queueIsFull k.exitProcessQueue = false := hroom
    have hqueue := hvalid.exitProcess_queue hmay regs
    rw [hfull] at hqueue
    refine ⟨fun p hp hs => ?_, fun _ c' hc' => ?_⟩
    · rw [hqueue]
      rcases hexits p hs with rfl | hs
      · simp
      · simp [h.queued p hp hs]
    · obtain rfl : c = c' := Option.some.inj (hc.symm.trans hc')
      exact hawake
  | collect hcol hcode =>
    have hoff : (k.setIf false).2.ExitsQueued := ⟨h.queued, h.awake⟩
    exact hoff.collectLoop (hvalid.setIf false) _ _
  | recollect hat => exact h.collectLoop hvalid _ _

end ExitsQueued

/-- A reclaiming move frees the slot of the pid and closes its user stack. -/
def Reclaims (move : Move Kernel Action) : Prop :=
  ∀ p, move.before.reclaims move.label = some p →
    move.before.allocProcessTable p = true ∧ move.after.allocProcessTable p = false ∧
      ∀ q, PageIn q (userStackOf p) userStackSize → move.after.access q = false

theorem Valid.collectLoop_reclaims (h : k.Valid) (preIf : Bool) (regs : ProcessContext)
    (hp : k.exitQueue.head? = some p) : k.allocProcessTable p = true ∧
      (k.collectLoop preIf regs).allocProcessTable p = false ∧
      ∀ q, PageIn q (userStackOf p) userStackSize →
        (k.collectLoop preIf regs).access q = false := by
  have hmem : p ∈ k.exitQueue := List.mem_of_mem_head? hp
  refine ⟨(h.queued.2 p hmem).1.1, ?_⟩
  rcases k.collectLoop_access preIf regs with ⟨hempty, -, -⟩ | ⟨hempty, halloc, haccess⟩
  · have hnil : k.exitQueue = [] := (queueIsEmpty_iff h.queue.1 _).mp hempty
    simp [hnil] at hp
  · have hfront : k.frontPid = p := by
      have hcons := h.deQueue_pid (by simpa using hempty)
      rw [exitQueue, hcons] at hp
      exact Option.some.inj hp
    rw [hfront] at halloc haccess
    exact ⟨by simp [halloc], fun q hq => by simp [haccess, hq]⟩

theorem Valid.step_reclaims (h : k.Valid) {a : Action} (hstep : k.step a = some k') :
    Reclaims ⟨k, a, k'⟩ := by
  intro p hp
  cases h.step_kind hstep with
  | still ha hstill =>
    rw [(untracked_exits ha).2] at hp
    cases hp
  | create hmay hc => simp [reclaims, collects] at hp
  | acquireLock hmay => simp [reclaims, collects] at hp
  | releaseLock hmay => simp [reclaims, collects] at hp
  | exitProcess hmay => simp [reclaims, collects] at hp
  | collect hcol hcode => exact (h.setIf false).collectLoop_reclaims _ _ hp
  | recollect hat =>
    refine h.collectLoop_reclaims _ _ ?_
    simpa [reclaims, collects, hat] using hp

/-- Over a run the queue holds what exited and is not yet reclaimed, in the order of the
exits, and the collector reclaims one pid each turn until the first ones are done. -/
theorem Valid.exitQueue_run (h : k.Valid) {future : List (Move Kernel Action)}
    (hrun : Run Kernel.step RoomForExit k future k') :
    k'.Valid ∧ k.exitQueue ++ exitedPids future = reclaimedPids future ++ k'.exitQueue ∧
      (collectorTurns future ≤ (reclaimedPids future).length ∨
        k.exitQueue.length ≤ (reclaimedPids future).length) := by
  refine hrun.history_invariant (P := fun past t => t.Valid ∧
    k.exitQueue ++ exitedPids past = reclaimedPids past ++ t.exitQueue ∧
    (collectorTurns past ≤ (reclaimedPids past).length ∨
      k.exitQueue.length ≤ (reclaimedPids past).length))
    ⟨h, by simp [exitedPids, reclaimedPids], by simp [collectorTurns]⟩ ?_
  intro past t a u _ ⟨hvalid, hfifo, hturns⟩ hroom hstep
  have hqueue := hvalid.exitQueue_step hstep hroom
  refine ⟨hvalid.step hstep, ?_, ?_⟩
  · rw [exitedPids_snoc, reclaimedPids_snoc, ← List.append_assoc, hfifo, List.append_assoc, hqueue,
      List.append_assoc]
  · rw [reclaimedPids_snoc, List.length_append]
    cases hturn : t.collects a with
    | false =>
      have hsame : collectorTurns (past ++ [⟨t, a, u⟩]) = collectorTurns past := by
        simp [collectorTurns, hturn]
      omega
    | true =>
      have hnext : collectorTurns (past ++ [⟨t, a, u⟩]) = collectorTurns past + 1 := by
        simp [collectorTurns, hturn]
      have hlength := congrArg List.length hfifo
      rw [List.length_append, List.length_append] at hlength
      cases hhead : t.exitQueue with
      | nil =>
        rw [hhead, List.length_nil] at hlength
        omega
      | cons p rest =>
        have hone : (t.reclaims a).toList.length = 1 := by simp [reclaims, hturn, hhead]
        omega

/-- No exit is lost: an exited process that keeps its slot is queued once, the collector
is awake while there are any, exits are reclaimed once and in order, and as many turns of
the collector as there are pids in the queue reclaim them all. -/
structure NoExitLost (history : List (Move Kernel Action)) (k : Kernel) : Prop where
  queued : ∀ p, k.allocProcessTable p = true → (k.sched.pcb p).state = .exit →
    k.exitQueue.count p = 1
  awake : k.exitQueue ≠ [] → ∀ c, k.collectorProcess = some c →
    (k.sched.pcb c).state ≠ .blocked
  in_order : exitedPids history = reclaimedPids history ++ k.exitQueue
  reclaimed : ∀ move ∈ history, Reclaims move
  progress : ∀ future k', Run Kernel.step RoomForExit k future k' →
    k.exitQueue.length ≤ collectorTurns future → k.exitQueue <+: reclaimedPids future

end Kernel

theorem Boot.start_exitQueue (b : Boot) : b.start.exitQueue = [] := by
  rw [Kernel.exitQueue, start_eq]
  exact initQueue_contents _ _ _

theorem Boot.start_exitsQueued (b : Boot) : b.start.ExitsQueued := by
  refine ⟨fun p hp hs => ?_, fun hne => absurd b.start_exitQueue hne⟩
  have hstates := congrFun (congrArg Plan.states b.start_plan.2) p
  rw [hstates] at hs
  rcases (b.start_alloc p).mp hp with rfl | rfl | rfl <;> simp at hs

namespace Kernel

variable {k : Kernel} {history : List (Move Kernel Action)}

/-- The shell creates a hundred processes and sleeps, the collector goes to sleep, and the
hundred exit before it runs again. -/
def exitBurst (regs : ProcessContext) : List Action :=
  List.replicate 100 (.call (.createProcess 0 0) regs) ++
    ([.call (.sleepProcess 0) regs, .collect regs] ++
      (List.replicate 99 (.call .exitProcess regs) ++ [.call .exitProcess regs]))

/-- While the shell creates: `n` processes are behind the collector in the ready list. -/
structure Crowded (n : ℕ) (k : Kernel) : Prop where
  valid : k.Valid
  ready : k.sched.plan.roster .processList = 1 :: List.range' 3 n
  running : k.sched.runningProcess = 0
  idle : k.sched.idleProcess = 2
  collector : k.collectorProcess = some 1
  point : k.resumePoint = fun _ => .code
  pid : k.pidCountIdx = n + 3
  alloc : ∀ p, k.allocProcessTable p = true ↔ p < n + 3
  queue : k.exitQueue = []

theorem start_crowded (b : Boot) : Crowded 0 b.start := by
  have hplan := b.start_plan.2
  refine ⟨b.start_valid, ?_, congrArg Plan.running hplan, b.start_idle, ?_, b.start_resumePoint, ?_,
    fun p => ?_, b.start_exitQueue⟩
  · rw [hplan]
    simp
  · rw [Boot.start_eq]; rfl
  · rw [Boot.start_eq]; rfl
  · rw [b.start_alloc]
    omega

theorem Crowded.create {n : ℕ} (h : Crowded n k) (hn : n < 100) (regs : ProcessContext) :
    ∃ k', k.step (.call (.createProcess 0 0) regs) = some k' ∧ Crowded (n + 1) k' := by
  have hmay : k.MayCall (.createProcess 0 0) :=
    ⟨by rw [h.point], by rw [h.running, h.idle]; decide, by rw [h.running, h.collector]; decide,
      nofun⟩
  have hmod : k.pidCountIdx % processMaxCount = k.pidCountIdx := by
    rw [h.pid, processMaxCount]
    omega
  have hfree : k.allocProcessTable k.pidCountIdx = false := by
    rw [← Bool.not_eq_true, h.alloc, h.pid]
    omega
  have hcreated := createProcess_free (hmod.symm ▸ hfree) 0 0
  have hstep : k.step (.call (.createProcess 0 0) regs) = some _ := if_pos hmay
  refine ⟨_, hstep, ?_⟩
  have hvalid := h.valid.step hstep
  have hrun : k.runCall (.createProcess 0 0) regs =
      (((k.setIf false).2.createAt k.pidCountIdx 0 0).setIf (k.setIf false).1).2 := by
    simp only [runCall, hcreated, orForever]
  have hplan := (h.valid.setIf false).createAt_plan hfree 0 0
  rw [hrun] at hvalid ⊢
  refine ⟨hvalid, ?_, h.running, h.idle, h.collector, ?_, ?_, fun p => ?_, h.queue⟩
  · refine (congrFun (congrArg Plan.roster hplan) .processList).trans ?_
    have hready : (k.setIf false).2.sched.plan.roster .processList = 1 :: List.range' 3 n := h.ready
    rw [Plan.append_roster_self, Plan.setState, hready, h.pid, List.range'_concat]
    simp [Nat.add_comm]
  · show Function.update k.resumePoint k.pidCountIdx .code = _
    rw [h.point]
    simp
  · show k.pidCountIdx + 1 = _
    rw [h.pid]
  · show Function.update k.allocProcessTable k.pidCountIdx true p = true ↔ _
    by_cases hp : p = k.pidCountIdx
    · subst hp
      simp [h.pid]
    · rw [Function.update_of_ne hp, h.alloc]
      rw [h.pid] at hp
      omega

/-- While the processes exit: `n` pids wait in the queue and the collector is, or is about
to be, the last of the ready list. -/
structure Leaving (n : ℕ) (k : Kernel) : Prop where
  valid : k.Valid
  ready : (k.sched.plan.wakeup 1).roster .processList = List.range' (n + 4) (99 - n) ++ [1]
  running : k.sched.runningProcess = n + 3
  idle : k.sched.idleProcess = 2
  collector : k.collectorProcess = some 1
  point : ∀ p, n + 3 ≤ p → k.resumePoint p = .code
  alloc : k.allocProcessTable 102 = true
  queue : k.exitQueue = List.range' 3 n

theorem Leaving.full_iff {n : ℕ} (h : Leaving n k) :
    queueIsFull k.exitProcessQueue = true ↔ n = 99 := by
  have hcontents : k.exitProcessQueue.contents pidAt = List.range' 3 n := h.queue
  rw [queueIsFull_iff h.valid.queue.1 pidAt, hcontents, List.length_range',
    h.valid.queue.2.1]
  rfl

theorem Leaving.mayCall {n : ℕ} (h : Leaving n k) : k.MayCall .exitProcess :=
  ⟨h.point _ (by rw [h.running]), by rw [h.running, h.idle]; omega,
    by rw [h.running, h.collector]; simp, fun _ => by rw [h.running]; omega⟩

/-- The shell sleeps, the collector finds an empty queue and blocks. -/
theorem Crowded.sleep (h : Crowded 100 k) (regs : ProcessContext) :
    ∃ k', follow Kernel.step k [.call (.sleepProcess 0) regs, .collect regs] = some k' ∧
      Leaving 0 k' := by
  have hmay : k.MayCall (.sleepProcess 0) :=
    ⟨by rw [h.point], by rw [h.running, h.idle]; decide, by rw [h.running, h.collector]; decide,
      nofun⟩
  have hsleep : k.step (.call (.sleepProcess 0) regs) = some (k.sleepProcess 0 regs) := if_pos hmay
  set k1 := k.sleepProcess 0 regs with hk1
  have hv1 : k1.Valid := h.valid.step hsleep
  have hplan1 : k1.sched.plan = ((k.sched.plan.append .sleepList 0).setState 0 .blocked).dispatch := by
    have hrefines := (h.valid.setIf false).settled.sleepUntilTick_refines hmay.2.1
      (k.sched.tickCount + (0 + slotTime - 1) / slotTime) regs
    rw [show (k.setIf false).2.sched.runningProcess = 0 from h.running] at hrefines
    exact hrefines
  have hready : (k.sched.plan.append .sleepList 0).roster .processList = 1 :: List.range' 3 100 := by
    simpa [Plan.append] using h.ready
  have hready1 : k1.sched.plan.roster .processList = List.range' 3 100 := by
    simp [hplan1, Plan.dispatch, Plan.run, Plan.setState, Plan.behead, hready]
  have hrun1 : k1.sched.runningProcess = 1 := by
    have hrun := congrArg Plan.running hplan1
    simpa [Plan.dispatch, Plan.run, Plan.setState, hready] using hrun
  have hpoint1 : k1.resumePoint 1 = .code := by
    show Function.update k.resumePoint k.sched.runningProcess _ 1 = _
    simp [h.running, h.point]
  have hcollect : k1.step (.collect regs) = some (k1.garbageProcessCollector regs) :=
    if_pos ⟨by rw [hrun1]; exact h.collector.symm, by rw [hrun1]; exact hpoint1⟩
  set k2 := k1.garbageProcessCollector regs with hk2
  have hv2 : k2.Valid := hv1.step hcollect
  have hempty : queueIsEmpty (k1.setIf false).2.exitProcessQueue = true :=
    (queueIsEmpty_iff hv1.queue.1 pidAt).mpr h.queue
  have heq2 : k2 = { ((k1.setIf false).2.setResumePoint 1
      (.garbageProcessCollector (k1.setIf false).1)) with
        sched := (k1.setIf false).2.sched.blockRunningProcess regs } := by
    simp only [hk2, garbageProcessCollector, Kernel.collectLoop]
    rw [if_pos hempty]
    simp only [show (k1.setIf false).2.sched.runningProcess = 1 from hrun1]
    rfl
  have hplan2 : k2.sched.plan = (k1.sched.plan.setState 1 .blocked).dispatch := by
    rw [heq2]
    have hrefines := (Scheduler.blockRunningProcess_refines (hv1.setIf false).settled.linked regs).2
    rw [show (k1.setIf false).2.sched.runningProcess = 1 from hrun1] at hrefines
    exact hrefines
  have hfollow : follow Kernel.step k [.call (.sleepProcess 0) regs, .collect regs] = some k2 := by
    rw [follow, hsleep, Option.bind_some, follow, hcollect]
    rfl
  have hlist : (k1.sched.plan.setState 1 .blocked).roster .processList = 3 :: List.range' 4 99 := by
    simpa [Plan.setState, List.range'_succ] using hready1
  rw [Plan.dispatch_cons hlist] at hplan2
  refine ⟨k2, hfollow, hv2, ?_, ?_, ?_, ?_, fun p hp => ?_, ?_, ?_⟩
  · have hlist2 : k2.sched.plan.roster .processList = List.range' 4 99 := by
      rw [hplan2, Plan.run, Plan.behead]
      simp only [Plan.setState, Function.update_self] at hlist ⊢
      rw [hlist, List.tail_cons]
    have hblocked : k2.sched.plan.states 1 = .blocked := by
      rw [hplan2]
      simp [Plan.run, Plan.setState, Plan.behead]
    rw [Plan.wakeup, if_pos hblocked, Plan.append_roster_self]
    have hother : ((k2.sched.plan.remove .sleepList 1).setState 1 .ready).roster .processList =
        k2.sched.plan.roster .processList := by simp [Plan.remove, Plan.setState]
    rw [hother, hlist2]
  · exact congrArg Plan.running hplan2
  · have hidle := congrArg Plan.idle hplan2
    have hidle1 := congrArg Plan.idle hplan1
    exact hidle.trans (hidle1.trans h.idle)
  · rw [heq2]; exact h.collector
  · rw [heq2]
    show Function.update k1.resumePoint 1 _ p = _
    rw [Function.update_of_ne (by omega)]
    show Function.update k.resumePoint k.sched.runningProcess _ p = _
    rw [h.running, Function.update_of_ne (by omega), h.point]
  · rw [heq2]; exact (h.alloc 102).mpr (by omega)
  · rw [heq2]; exact h.queue

theorem Leaving.exit {n : ℕ} (h : Leaving n k) (hn : n < 99) (regs : ProcessContext) :
    ∃ k', k.step (.call .exitProcess regs) = some k' ∧ Leaving (n + 1) k' := by
  have hstep : k.step (.call .exitProcess regs) = some (k.exitProcess regs) := if_pos h.mayCall
  have hplan := h.valid.exitProcess_plan h.collector regs
  set π := (k.sched.plan.wakeup 1).setState k.sched.runningProcess .exit with hπ
  have hready : π.roster .processList = (n + 4) :: (List.range' (n + 5) (98 - n) ++ [1]) := by
    rw [hπ, Plan.setState, h.ready, show 99 - n = (98 - n) + 1 by omega, List.range'_succ]
    rfl
  rw [Plan.dispatch_cons hready] at hplan
  have hawake : (k.exitProcess regs).sched.plan.states 1 ≠ .blocked :=
    (h.valid.exitProcess_states regs h.collector (by rw [h.running]; omega)).2
  refine ⟨_, hstep, h.valid.step hstep, ?_, ?_, ?_, h.collector, fun p hp => ?_, h.alloc, ?_⟩
  · rw [Plan.wakeup, if_neg hawake, hplan]
    simp [Plan.run, Plan.setState, Plan.behead, hready, show 99 - (n + 1) = 98 - n by omega]
  · exact congrArg Plan.running hplan
  · have hidle := congrArg Plan.idle hplan
    exact hidle.trans (Plan.wakeup_idle.trans h.idle)
  · show Function.update k.resumePoint k.sched.runningProcess _ p = _
    rw [h.running, Function.update_of_ne (by omega)]
    exact h.point p (by omega)
  · rw [h.valid.exitProcess_queue h.mayCall, if_neg ?_, h.queue, h.running, List.range'_concat]
    · simp [Nat.add_comm]
    · rw [h.full_iff]
      omega

theorem exits_reclaimed {b : Boot} (hrun : KernelRun RoomForExit b history k) :
    NoExitLost history k := by
  obtain ⟨hvalid, hqueued, hmoves⟩ := hrun.history_invariant
    (P := fun past t => t.Valid ∧ t.ExitsQueued ∧ ∀ move ∈ past, Reclaims move)
    ⟨b.start_valid, b.start_exitsQueued, by simp⟩
    fun past t a u _ ⟨hvalid, hqueued, hmoves⟩ hroom hstep =>
      ⟨hvalid.step hstep, hqueued.step hvalid hstep hroom, fun move hmove => by
        rcases List.mem_append.mp hmove with hmove | hmove
        · exact hmoves move hmove
        · rw [List.mem_singleton.mp hmove]
          exact hvalid.step_reclaims hstep⟩
  refine ⟨fun p hp hs => ?_, hqueued.awake, ?_, hmoves, fun future k' hfuture hturns => ?_⟩
  · exact List.count_eq_one_of_mem hvalid.queued.1 (hqueued.queued p hp hs)
  · have hfifo := (b.start_valid.exitQueue_run hrun).2.1
    rwa [b.start_exitQueue, List.nil_append] at hfifo
  · obtain ⟨-, hfifo, hdone⟩ := hvalid.exitQueue_run hfuture
    have hlength : k.exitQueue.length ≤ (reclaimedPids future).length := by omega
    have hprefix : reclaimedPids future <+: k.exitQueue ++ exitedPids future := by
      rw [hfifo]
      exact List.prefix_append _ _
    exact List.prefix_of_prefix_length_le (List.prefix_append _ _) hprefix hlength

/-- The shell creates a hundred processes, and all but the last exit before the collector runs. -/
theorem exits_reclaimed_crowd : ∃ history k, KernelRun RoomForExit Boot.zero history k ∧
    k.exitQueue = List.range' 3 99 ∧ NoExitLost history k := by
  have hstart : KernelRun RoomForExit Boot.zero [] Boot.zero.start := .start
  have hcreate (t : Kernel) : RoomForExit t (.call (.createProcess 0 0) fun _ => 0) := trivial
  have hsleep (t : Kernel) : RoomForExit t (.call (.sleepProcess 0) fun _ => 0) := trivial
  have hcollect (t : Kernel) : RoomForExit t (.collect fun _ => 0) := trivial
  have hexit {i : ℕ} {t : Kernel} (hi : i < 99) (ht : Leaving i t) :
      RoomForExit t (.call .exitProcess fun _ => 0) :=
    Bool.eq_false_iff.mpr fun hfull => hi.ne (ht.full_iff.mp hfull)
  obtain ⟨_, k1, hrun1, h1⟩ := hstart.replicate (n := 100) (start_crowded Boot.zero)
    fun i t hi ht => ⟨hcreate t, ht.create hi fun _ => 0⟩
  obtain ⟨k3, hfollow, h3⟩ := h1.sleep fun _ => 0
  obtain ⟨k2, hstep2, hrest⟩ := Option.bind_eq_some_iff.mp hfollow
  obtain ⟨_, hstep3, hend⟩ := Option.bind_eq_some_iff.mp hrest
  cases hend
  have hrun3 := (hrun1.next (hsleep k1) hstep2).next (hcollect k2) hstep3
  obtain ⟨history, k, hrun, h⟩ := hrun3.replicate h3
    fun i t hi ht => ⟨hexit hi ht, ht.exit hi fun _ => 0⟩
  exact ⟨history, k, hrun, h.queue, exits_reclaimed hrun⟩

/-- The last of the hundred finds the queue full. -/
theorem exit_lost : ∃ k, follow Kernel.step Boot.zero.start (exitBurst fun _ => 0) = some k ∧
    Reachable k ∧ k.allocProcessTable 102 = true ∧ (k.sched.pcb 102).state = .exit ∧ 102 ∉ k.exitQueue := by
  obtain ⟨k1, hk1, h1⟩ := follow_replicate (P := Crowded) (s := Boot.zero.start) (n := 100)
    (start_crowded _) fun i t hi ht => ht.create hi fun _ => 0
  obtain ⟨k2, hk2, h2⟩ := h1.sleep fun _ => 0
  obtain ⟨k3, hk3, h3⟩ := follow_replicate (P := Leaving) (n := 99) h2
    fun i t hi ht => ht.exit hi fun _ => 0
  have hstep : k3.step (.call .exitProcess fun _ => 0) = some (k3.exitProcess fun _ => 0) :=
    if_pos h3.mayCall
  have hv := h3.valid.step hstep
  have hfollow : follow Kernel.step Boot.zero.start (exitBurst fun _ => 0) =
      some (k3.exitProcess fun _ => 0) := by
    rw [exitBurst, follow_append, hk1, Option.bind_some, follow_append, hk2, Option.bind_some,
      follow_append, hk3, Option.bind_some, follow, hstep]
    rfl
  obtain ⟨history, hrun⟩ := Run.start.follow _ hfollow
  refine ⟨k3.exitProcess fun _ => 0, hfollow, ⟨Boot.zero, history, hrun⟩, h3.alloc, ?_, ?_⟩
  · have hpoint : (k3.exitProcess fun _ => 0).resumePoint 102 = .exitProcess := by
      show Function.update k3.resumePoint k3.sched.runningProcess _ 102 = _
      rw [h3.running, Function.update_self]
    have hidle : (102 : ℕ) ≠ (k3.exitProcess fun _ => 0).sched.idleProcess := by
      have hplan := congrArg Plan.idle (h3.valid.exitProcess_plan h3.collector fun _ => 0)
      have hidle : (k3.exitProcess fun _ => 0).sched.idleProcess = 2 :=
        hplan.trans (Plan.wakeup_idle.trans h3.idle)
      rw [hidle]
      decide
    exact (hv.settled.plan.placed.exit_iff 102 ⟨h3.alloc, hidle⟩).mpr hpoint
  · rw [h3.valid.exitProcess_queue h3.mayCall, if_pos (h3.full_iff.mpr rfl), h3.queue]
    simp

end Kernel
end SkhuOS
