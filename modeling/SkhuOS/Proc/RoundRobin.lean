import SkhuOS.Foundation.ServedQueue
import SkhuOS.Proc.Deed

/-! The order in which the processes get the processor. Ready processes wait in one queue and
leave it at its head only; the idle process runs while the queue is empty. -/
namespace SkhuOS
open Foundation

namespace Plan

variable {π π₁ π₂ : Plan} {r : Roles} {p : ℕ}

/-- How a section moves the queue of ready processes and the processor. The woken processes
join at the end. -/
inductive Turn (π π' : Plan) : Prop
  | keep (woken : List ℕ) (hrunning : π'.running = π.running)
      (hready : π'.roster .processList = π.roster .processList ++ woken)
      (hidle : π.running = π.idle → woken = [])
  | next (woken rest late : List ℕ)
      (hfirst : π.roster .processList ++ woken = π'.running :: rest)
      (hready : π'.roster .processList = rest ++ late)
      (hne : π'.running ≠ π.running) (hidle : π'.running ≠ π.idle)
  | idle (hempty : π.roster .processList = []) (hrunning : π'.running = π.idle)
      (hready : π'.roster .processList = [])

theorem wakeup_ready : (π.wakeup p).roster .processList =
    π.roster .processList ++ if π.states p = .blocked then [p] else [] := by
  unfold wakeup
  split
  · simp [append, setState, remove]
  · simp

theorem wakeAll_ready (due : ℕ → Bool) (ps : List ℕ) (π : Plan) : ∃ woken,
    (π.wakeAll due ps).roster .processList = π.roster .processList ++ woken := by
  induction ps generalizing π with
  | nil => exact ⟨[], (List.append_nil _).symm⟩
  | cons p ps ih =>
    obtain ⟨woken, hrest⟩ := ih (if due p then π.wakeup p else π)
    cases hdue : due p with
    | false =>
      rw [hdue] at hrest
      exact ⟨woken, by simpa [wakeAll, hdue] using hrest⟩
    | true =>
      rw [hdue, if_pos rfl, wakeup_ready, List.append_assoc] at hrest
      exact ⟨_, by simpa [wakeAll, hdue] using hrest⟩

/-- Who is ready neither runs nor is the idle process. -/
theorem Settled.ready_ne (h : π₁.Settled r) (hp : p ∈ π₁.roster .processList) :
    p ≠ π₁.running ∧ p ≠ π₁.idle := by
  constructor
  · rintro rfl
    exact h.placed.holder_not_mem hp
  · rintro rfl
    exact h.idle_not_mem hp

section Switch

variable {woken : List ℕ} (h : π₁.Settled r) (hrunning : π₁.running = π.running)
  (hidle : π₁.idle = π.idle) (hready : π₁.roster .processList = π.roster .processList ++ woken)

include h hrunning hidle hready

/-- The running process gives the processor up. -/
theorem turn_dispatch (hsame : π₂.roster .processList = π₁.roster .processList)
    (hidle₂ : π₂.idle = π.idle) : π.Turn π₂.dispatch := by
  cases hlist : π₁.roster .processList with
  | nil =>
    rw [hlist] at hready hsame
    have hempty : π.roster .processList = [] := (List.append_eq_nil_iff.mp hready.symm).1
    apply Turn.idle hempty
    · simp [dispatch, hsame, hidle₂]
    · simp [dispatch, hsame, behead, run, setState]
  | cons p rest =>
    obtain ⟨hne, hni⟩ := h.ready_ne (p := p) (by simp [hlist])
    rw [hlist] at hready hsame
    apply Turn.next woken rest []
    · simp [dispatch, hsame, ← hready]
    · simp [dispatch, hsame, behead, run, setState]
    · simpa [dispatch, hsame, ← hrunning] using hne
    · simpa [dispatch, hsame, ← hidle] using hni

/-- The running process goes to the end of the queue. -/
theorem turn_rotate (hkeep : π.running = π.idle → woken = []) : π.Turn π₁.rotate := by
  unfold rotate
  split
  · exact .keep woken hrunning hready hkeep
  next p rest hlist =>
    obtain ⟨hne, hni⟩ := h.ready_ne (p := p) (by simp [hlist])
    rw [hlist] at hready
    apply Turn.next woken rest [π₁.running]
    · simp [← hready]
    · simp [run, append, setState, behead, hlist]
    · simpa [← hrunning] using hne
    · simpa [← hidle] using hni

theorem turn_timeout : π.Turn π₁.timeout := by
  unfold timeout
  split
  next hlist =>
    rw [hlist] at hready
    have hnil := List.append_eq_nil_iff.mp hready.symm
    exact .keep woken hrunning (by rw [hlist, hready]) fun _ => hnil.2
  next p rest hlist =>
    split
    · obtain ⟨hne, hni⟩ := h.ready_ne (p := p) (by simp [hlist])
      rw [hlist] at hready
      apply Turn.next woken rest []
      · simp [← hready]
      · simp [run, setState, behead, hlist]
      · simpa [← hrunning] using hne
      · simpa [← hidle] using hni
    next hrun =>
      apply turn_rotate h hrunning hidle hready
      intro he
      rw [hrunning, hidle] at hrun
      exact absurd he hrun

end Switch

@[simp] theorem dispatch_idle : π.dispatch.idle = π.idle := rfl

@[simp] theorem rotate_idle : π.rotate.idle = π.idle := by unfold rotate; split <;> rfl

@[simp] theorem timeout_idle : π.timeout.idle = π.idle := by
  unfold timeout
  split
  · rfl
  · split
    · rfl
    · exact rotate_idle

@[simp] theorem wakeAll_idle (due : ℕ → Bool) (ps : List ℕ) : (π.wakeAll due ps).idle = π.idle :=
  (wakeAll_same due ps π).2

theorem after_idle (d : Deed) : (π.after d).idle = π.idle := by
  cases d with
  | nothing | create p => rfl
  | yield => exact rotate_idle
  | tick due => exact timeout_idle.trans (wakeAll_idle _ _)
  | exit c => exact wakeup_idle
  | handOver m next => exact wakeup_idle
  | block name => cases name <;> rfl
  | wake p =>
    show (π.wakeInInterrupt p).idle = π.idle
    unfold wakeInInterrupt
    split
    · exact timeout_idle.trans wakeup_idle
    · exact wakeup_idle

end Plan

namespace Kernel

variable {k k' : Kernel} {a : Action} {p : ℕ} {history : List (Move Kernel Action)}

theorem Valid.wakeup_settled (h : k.Valid) (hp : k.roles.member p ∧
      (k.roles.waits p = none ∨ k.roles.waits p = some .sleepList)) :
    (k.sched.plan.wakeup p).Settled k.roles := h.settled.plan.wakeup hp.1 hp.2

theorem Valid.turn_wake (h : k.Valid) (hp : k.roles.member p ∧
      (k.roles.waits p = none ∨ k.roles.waits p = some .sleepList)) :
    k.sched.plan.Turn (k.sched.plan.wakeInInterrupt p) := by
  have hset := h.wakeup_settled hp
  unfold Plan.wakeInInterrupt
  split
  · exact Plan.turn_timeout hset Plan.wakeup_running Plan.wakeup_idle Plan.wakeup_ready
  next hnot =>
    apply Plan.Turn.keep _ Plan.wakeup_running Plan.wakeup_ready
    intro hrun
    by_cases hs : k.sched.plan.states p = .blocked
    · exact absurd ⟨hs, hrun⟩ hnot
    · exact if_neg hs

/-- What a deed of a valid kernel does to the queue and the processor. -/
theorem Valid.turn_after (h : k.Valid) {d : Deed} (hd : k.Does a d) :
    k.sched.plan.Turn (k.sched.plan.after d) := by
  have hset := h.settled.plan
  have hsame : k.sched.plan.roster .processList = k.sched.plan.roster .processList ++ [] :=
    (List.append_nil _).symm
  cases d with
  | nothing => exact .keep [] rfl hsame fun _ => rfl
  | create p =>
    refine .keep [p] rfl ?_ fun he => absurd he hd.1
    simp [Plan.after, Plan.append, Plan.setState]
  | block name =>
    cases name with
    | none => exact Plan.turn_dispatch hset rfl rfl hsame rfl rfl
    | some name =>
      refine Plan.turn_dispatch hset rfl rfl hsame ?_ rfl
      have hname : ListName.processList ≠ name := fun he => hd.2.1 (he ▸ rfl)
      simp [Plan.append, Plan.setState, hname]
  | handOver m next =>
    have hready : ((k.sched.plan.behead (.waitList m)).roster .processList) =
        k.sched.plan.roster .processList := by
      simp [Plan.behead]
    refine .keep (if k.sched.plan.states next = .blocked then [next] else []) ?_ ?_
      fun he => absurd he hd.1
    · exact Plan.wakeup_running
    · rw [← hready]
      exact Plan.wakeup_ready
  | wake p =>
    rcases hd with ⟨_, _, -, hp⟩ | ⟨isPrimary, _, -, hp⟩
    · exact h.turn_wake (h.keyWaiter_place p hp)
    · exact h.turn_wake (h.diskWaiter_place isPrimary p hp)
  | tick due =>
    obtain ⟨woken, hready⟩ :=
      Plan.wakeAll_ready due (k.sched.plan.roster .sleepList) k.sched.plan
    exact Plan.turn_timeout (hset.wakeAll due) (Plan.wakeAll_same _ _ _).1
      (Plan.wakeAll_same _ _ _).2 hready
  | yield => exact Plan.turn_rotate hset rfl rfl hsame fun _ => rfl
  | exit c =>
    have hwoken := h.wakeup_settled (h.collector_place c hd.2.1)
    exact Plan.turn_dispatch hwoken Plan.wakeup_running Plan.wakeup_idle Plan.wakeup_ready rfl
      Plan.wakeup_idle

theorem Valid.step_turn (h : k.Valid) (hstep : k.step a = some k') :
    k.sched.plan.Turn k'.sched.plan ∧ k'.sched.idleProcess = k.sched.idleProcess := by
  obtain ⟨d, hd, hplan⟩ := h.performs hstep
  have hidle := congrArg Plan.idle hplan
  rw [Plan.after_idle] at hidle
  exact ⟨hplan ▸ h.turn_after hd, hidle⟩

/-- The queue of ready processes. -/
def readyList (k : Kernel) : List ℕ := k.sched.roster .processList

/-- While the idle process runs, nobody is ready. -/
def IdleLast (k : Kernel) : Prop :=
  k.sched.runningProcess = k.sched.idleProcess → k.readyList = []

theorem Valid.idleLast_step (h : k.Valid) (hlast : k.IdleLast) (hstep : k.step a = some k') :
    k'.IdleLast := by
  obtain ⟨hturn, hidle'⟩ := h.step_turn hstep
  intro he
  rw [hidle'] at he
  cases hturn with
  | keep woken hrunning hready hkeep =>
    have hrun : k.sched.runningProcess = k.sched.idleProcess := hrunning.symm.trans he
    have hempty : k.sched.plan.roster .processList = [] := hlast hrun
    have hready' : k'.readyList = _ := hready
    rw [hready', hempty, hkeep hrun, List.append_nil]
  | next woken rest late hfirst hready hne hidle => exact absurd he hidle
  | idle hempty hrunning hready => exact hready

/-- The process a step takes out of the queue and gives the processor to. -/
def dispatched (m : Move Kernel Action) : Option ℕ :=
  if m.after.sched.runningProcess = m.before.sched.runningProcess ∨
      m.after.sched.runningProcess = m.after.sched.idleProcess then none
  else some m.after.sched.runningProcess

/-- A step appends to the queue and takes at most its head out, for the processor. -/
theorem Valid.dispatched_step (h : k.Valid) (hstep : k.step a = some k') :
    ∃ woken, k.readyList ++ woken = (dispatched ⟨k, a, k'⟩).toList ++ k'.readyList := by
  obtain ⟨hturn, hidle'⟩ := h.step_turn hstep
  cases hturn with
  | keep woken hrunning hready hkeep =>
    have hnone : dispatched ⟨k, a, k'⟩ = none := if_pos (.inl hrunning)
    rw [hnone]
    exact ⟨woken, hready.symm⟩
  | next woken rest late hfirst hready hne hidle =>
    have hsome : dispatched ⟨k, a, k'⟩ = some k'.sched.runningProcess :=
      if_neg (not_or.mpr ⟨hne, fun he => hidle (he.trans hidle')⟩)
    have hready' : k'.readyList = rest ++ late := hready
    have hfirst' : k.readyList ++ woken = k'.sched.runningProcess :: rest := hfirst
    rw [hsome, hready']
    refine ⟨woken ++ late, ?_⟩
    rw [← List.append_assoc, hfirst']
    rfl
  | idle hempty hrunning hready =>
    have hnone : dispatched ⟨k, a, k'⟩ = none := if_pos (.inr (hrunning.trans hidle'.symm))
    rw [hnone]
    exact ⟨k'.readyList, congrArg (· ++ k'.readyList) hempty⟩

/-- The shell sleeps, and the collector finds nothing to do. -/
def dozing : Kernel := Boot.zero.start.sleepProcess 10 fun _ => 0

def idling : Kernel := dozing.garbageProcessCollector fun _ => 0

def dozingMove : Move Kernel Action :=
  ⟨Boot.zero.start, .call (.sleepProcess 10) fun _ => 0, dozing⟩

theorem dozing_run : KernelRun anyStep Boot.zero [dozingMove] dozing := by
  have hstep : Boot.zero.start.step (.call (.sleepProcess 10) fun _ => 0) = some dozing := by
    simp only [Kernel.step]
    exact if_pos (by decide +kernel)
  exact Run.start.next trivial hstep

theorem idling_reachable : Reachable idling := by
  have hstep : dozing.step (.collect fun _ => 0) = some idling := by
    simp only [Kernel.step]
    exact if_pos (by decide +kernel)
  exact ⟨Boot.zero, _, dozing_run.next trivial hstep⟩

/-- Round robin: a process with `i` others ahead of it in the queue moves up with each dispatch
and gets the processor at dispatch `i + 1`, whatever happens in between. -/
theorem round_robin (h : Reachable k) (hrun : Run Kernel.step anyStep k history k') {i : ℕ}
    (hp : k.readyList[i]? = some p) :
    if (history.filterMap dispatched).length ≤ i then
      k'.readyList[i - (history.filterMap dispatched).length]? = some p
    else (history.filterMap dispatched)[i]? = some p := by
  obtain ⟨joined, hserved⟩ := hrun.served h.valid (fun k a k' hk _ hstep => hk.step hstep)
    fun k a k' hk _ hstep => hk.dispatched_step hstep
  exact served_or_waiting hserved hp

/-- The shell has created two processes; it gives the processor up and the collector blocks. -/
def twoCreated : Kernel := reached step Boot.zero.start (lifeCycle.take 2)

def yielding : List Action := [.call .schedule fun _ => 0, .collect fun _ => 0]

/-- The process behind the collector gets the processor second. -/
theorem round_robin_second :
    ((trace step twoCreated yielding).filterMap dispatched)[1]? = some 3 := by
  have hstart : KernelRun anyStep Boot.zero (trace step Boot.zero.start (lifeCycle.take 2)) twoCreated :=
    run_trace (by decide +kernel) fun _ _ => trivial
  have hrun : Run step anyStep twoCreated (trace step twoCreated yielding)
      (reached step twoCreated yielding) := run_trace (by decide +kernel) fun _ _ => trivial
  have hserved := round_robin ⟨Boot.zero, _, hstart⟩ hrun
    (show twoCreated.readyList[1]? = some 3 by decide +kernel)
  rwa [if_neg (by decide +kernel)] at hserved

/-- The idle process runs only while no other is ready, and is in no list. -/
theorem idle_runs_last (h : Reachable k) :
    (k.sched.runningProcess = k.sched.idleProcess → k.readyList = []) ∧
      k.sched.idleProcess ∉ k.readyList ∧ k.sched.idleProcess ∉ k.sched.roster .sleepList := by
  have hvalid := h.valid
  obtain ⟨b, history, hrun⟩ := h
  have hlast : k.Valid ∧ k.IdleLast := by
    apply hrun.invariant (P := fun k => k.Valid ∧ k.IdleLast)
    · refine ⟨b.start_valid, fun he => ?_⟩
      have hshell : b.start.sched.runningProcess = 0 := congrArg Plan.running b.start_plan.2
      rw [hshell, b.start_idle] at he
      exact absurd he (by decide)
    · intro k a k' hk _ hstep
      exact ⟨hk.1.step hstep, hk.1.idleLast_step hk.2 hstep⟩
  exact ⟨hlast.2, hvalid.settled.plan.idle_not_mem, hvalid.settled.plan.idle_not_mem⟩

theorem idle_runs_last_idling :
    idling.sched.runningProcess = idling.sched.idleProcess ∧ idling.readyList = [] := by
  have hidle : idling.sched.runningProcess = idling.sched.idleProcess := by decide +kernel
  exact ⟨hidle, (idle_runs_last idling_reachable).1 hidle⟩

end Kernel
end SkhuOS
