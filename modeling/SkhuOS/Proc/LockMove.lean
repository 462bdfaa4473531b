import SkhuOS.Proc.Steps

/-! What one step does to one mutex and the line of those who wait for it. -/
namespace SkhuOS
open Foundation
namespace Kernel

variable {k k' : Kernel} {a : Action} {m : ℕ}

/-- What a step does to mutex `m` and its wait list. -/
inductive LockMove (m : ℕ) (k k' : Kernel) : Action → Prop
  | kept {a : Action} (hacquire : ∀ regs, a ≠ .call (.acquireLock m) regs)
      (hrelease : ∀ regs, a = .call (.releaseLock m) regs →
        (k.mutex m).pid ≠ k.sched.runningProcess)
      (hmutex : k'.mutex m = k.mutex m)
      (hroster : k'.sched.roster (.waitList m) = k.sched.roster (.waitList m))
      (hinside : ∀ p preIf, k'.resumePoint p = .acquireLock m preIf →
        k.resumePoint p = .acquireLock m preIf) : LockMove m k k' a
  | nested {regs : ProcessContext} (hown : (k.mutex m).pid = k.sched.runningProcess)
      (hmutex : k'.mutex m = ⟨k.sched.runningProcess, (k.mutex m).count + 1⟩)
      (hroster : k'.sched.roster (.waitList m) = k.sched.roster (.waitList m))
      (hpoint : k'.resumePoint = k.resumePoint) : LockMove m k k' (.call (.acquireLock m) regs)
  | taken {regs : ProcessContext} (hfree : (k.mutex m).pid = -1)
      (hmutex : k'.mutex m = ⟨k.sched.runningProcess, 1⟩)
      (hroster : k'.sched.roster (.waitList m) = k.sched.roster (.waitList m))
      (hpoint : k'.resumePoint = k.resumePoint) : LockMove m k k' (.call (.acquireLock m) regs)
  | queued {regs : ProcessContext} {preIf : Bool} (hother : (k.mutex m).pid ≠ k.sched.runningProcess)
      (htaken : (k.mutex m).pid ≠ -1) (hmutex : k'.mutex m = k.mutex m)
      (hroster : k'.sched.roster (.waitList m) =
        k.sched.roster (.waitList m) ++ [k.sched.runningProcess])
      (hpoint : k'.resumePoint =
        Function.update k.resumePoint k.sched.runningProcess (.acquireLock m preIf)) :
      LockMove m k k' (.call (.acquireLock m) regs)
  | left {regs : ProcessContext} (hown : (k.mutex m).pid = k.sched.runningProcess)
      (hcount : (k.mutex m).count - 1 ≠ 0)
      (hmutex : k'.mutex m = ⟨k.sched.runningProcess, (k.mutex m).count - 1⟩)
      (hroster : k'.sched.roster (.waitList m) = k.sched.roster (.waitList m))
      (hpoint : k'.resumePoint = k.resumePoint) : LockMove m k k' (.call (.releaseLock m) regs)
  | freed {regs : ProcessContext} (hown : (k.mutex m).pid = k.sched.runningProcess)
      (hcount : (k.mutex m).count - 1 = 0) (hmutex : k'.mutex m = ⟨-1, 0⟩)
      (hempty : k.sched.roster (.waitList m) = []) (hroster : k'.sched.roster (.waitList m) = [])
      (hpoint : k'.resumePoint = k.resumePoint) : LockMove m k k' (.call (.releaseLock m) regs)
  | handed {regs : ProcessContext} {next : ℕ} (hown : (k.mutex m).pid = k.sched.runningProcess)
      (hcount : (k.mutex m).count - 1 = 0) (hmutex : k'.mutex m = ⟨next, 1⟩)
      (hroster : k.sched.roster (.waitList m) = next :: k'.sched.roster (.waitList m))
      (hpoint : k'.resumePoint = k.resumePoint) : LockMove m k k' (.call (.releaseLock m) regs)

theorem Valid.acquireLock_move (h : k.Valid) (hmay : k.MayCall (.acquireLock m))
    (regs : ProcessContext) :
    LockMove m k (k.acquireLock m regs) (.call (.acquireLock m) regs) := by
  rcases h.acquireLock_cases hmay regs with ⟨hown, heq⟩ | ⟨hfree, heq⟩ |
    ⟨hother, htaken, preIf, heq⟩
  · have hmutex := (congrFun (congrArg Parts.mutex heq) m).trans (Function.update_self _ _ _)
    rw [hown] at hmutex
    exact .nested hown hmutex (congrFun (congrArg (·.plan.roster) heq) _)
      (congrArg Parts.resumePoint heq)
  · exact .taken hfree ((congrFun (congrArg Parts.mutex heq) m).trans (Function.update_self _ _ _))
      (congrFun (congrArg (·.plan.roster) heq) _) (congrArg Parts.resumePoint heq)
  · refine .queued hother htaken (congrFun (congrArg Parts.mutex heq) m) ?_
      (congrArg Parts.resumePoint heq)
    refine (congrFun (congrArg (·.plan.roster) heq) _).trans ?_
    simp [Plan.setState]

theorem Valid.releaseLock_move (h : k.Valid) (hmay : k.MayCall (.releaseLock m))
    (regs : ProcessContext) :
    LockMove m k (k.releaseLock m) (.call (.releaseLock m) regs) := by
  rcases h.releaseLock_cases hmay with ⟨hother, heq⟩ | ⟨hown, hcount, heq⟩ |
    ⟨hown, hcount, hempty, heq⟩ | ⟨next, rest, hown, hcount, hwaiters, heq⟩
  · rw [heq]
    exact .kept (fun _ => nofun) (fun _ _ => hother) rfl rfl fun _ _ => id
  · have hmutex := (congrFun (congrArg Parts.mutex heq) m).trans (Function.update_self _ _ _)
    rw [hown] at hmutex
    exact .left hown hcount hmutex (congrFun (congrArg (·.plan.roster) heq) _)
      (congrArg Parts.resumePoint heq)
  · exact .freed hown hcount
      ((congrFun (congrArg Parts.mutex heq) m).trans (Function.update_self _ _ _)) hempty
      ((congrFun (congrArg (·.plan.roster) heq) _).trans hempty) (congrArg Parts.resumePoint heq)
  · refine .handed hown hcount
      ((congrFun (congrArg Parts.mutex heq) m).trans (Function.update_self _ _ _)) ?_
      (congrArg Parts.resumePoint heq)
    have hroster : (k.releaseLock m).sched.roster (.waitList m) = rest := by
      refine (congrFun (congrArg (·.plan.roster) heq) _).trans ?_
      simp [Plan.behead, hwaiters]
    rw [hroster, hwaiters]

/-- Steps that frame conditions describe. -/
theorem LockMove.of_frame (hacquire : ∀ regs, a ≠ .call (.acquireLock m) regs)
    (hrelease : ∀ regs, a ≠ .call (.releaseLock m) regs) (hframe : k.parts.Frame k'.parts) :
    LockMove m k k' a := by
  refine .kept hacquire (fun regs ha => absurd ha (hrelease regs)) (congrFun hframe.mutex m)
    (hframe.waitList m) fun p preIf hp => ?_
  have hspecial : (k'.parts.resumePoint p).Special := by
    show (k'.resumePoint p).Special
    rw [hp]
    trivial
  exact (hframe.special p hspecial).symm.trans hp

/-- A process that goes to a point outside the mutex calls. -/
theorem inside_of_moved {q : ℕ} {point : ResumePoint}
    (hpoint : k'.resumePoint = Function.update k.resumePoint q point)
    (hother : ∀ preIf, point ≠ .acquireLock m preIf) (p : ℕ) (preIf : Bool)
    (hp : k'.resumePoint p = .acquireLock m preIf) : k.resumePoint p = .acquireLock m preIf := by
  rw [hpoint] at hp
  by_cases hpq : p = q
  · rw [hpq, Function.update_self] at hp
    exact absurd hp (hother preIf)
  · rwa [Function.update_of_ne hpq] at hp

/-- The collector's loop leaves the mutexes alone. -/
theorem Valid.collectLoop_move (h : k.Valid) {j : Kernel} (hmutex : k.mutex = j.mutex)
    (hroster : k.sched.roster = j.sched.roster) (hpoint : k.resumePoint = j.resumePoint)
    (hacquire : ∀ regs, a ≠ .call (.acquireLock m) regs)
    (hrelease : ∀ regs, a ≠ .call (.releaseLock m) regs) (preIf : Bool) (regs : ProcessContext) :
    LockMove m j (k.collectLoop preIf regs) a := by
  obtain ⟨point, hpoints, hat⟩ := k.collectLoop_resumePoint preIf regs
  refine .kept hacquire (fun regs' ha => absurd ha (hrelease regs')) ?_ ?_ ?_
  · rw [collectLoop_mutex, hmutex]
  · rw [← hroster]
    exact (h.collectLoop_quiet preIf regs).waitList m
  · rw [hpoint] at hat
    refine inside_of_moved hat fun b => ?_
    rcases hpoints with rfl | rfl <;> simp

/-- A call of `acquireLock` for another mutex. -/
theorem Valid.acquireLock_other (h : k.Valid) {m' : ℕ} (hm : m' ≠ m)
    (hmay : k.MayCall (.acquireLock m')) (regs : ProcessContext) :
    LockMove m k (k.acquireLock m' regs) (.call (.acquireLock m') regs) := by
  have hother (mutex : Mutex) := Function.update_of_ne hm.symm mutex k.mutex
  have hcall (regs' : ProcessContext) :
      Action.call (.acquireLock m') regs ≠ .call (.acquireLock m) regs' := by simp [hm]
  rcases h.acquireLock_cases hmay regs with ⟨-, heq⟩ | ⟨-, heq⟩ | ⟨-, -, preIf, heq⟩
  · exact .kept hcall (fun _ => nofun) ((congrFun (congrArg Parts.mutex heq) m).trans (hother _))
      (congrFun (congrArg (·.plan.roster) heq) _)
      fun p b hp => (congrFun (congrArg Parts.resumePoint heq) p).symm.trans hp
  · exact .kept hcall (fun _ => nofun) ((congrFun (congrArg Parts.mutex heq) m).trans (hother _))
      (congrFun (congrArg (·.plan.roster) heq) _)
      fun p b hp => (congrFun (congrArg Parts.resumePoint heq) p).symm.trans hp
  · refine .kept hcall (fun _ => nofun) (congrFun (congrArg Parts.mutex heq) m) ?_
      (inside_of_moved (congrArg Parts.resumePoint heq) fun b => by simp [hm])
    refine (congrFun (congrArg (·.plan.roster) heq) _).trans ?_
    simp [Plan.append, Plan.setState, hm.symm]

/-- A call of `releaseLock` for another mutex. -/
theorem Valid.releaseLock_other (h : k.Valid) {m' : ℕ} (hm : m' ≠ m)
    (hmay : k.MayCall (.releaseLock m')) (regs : ProcessContext) :
    LockMove m k (k.releaseLock m') (.call (.releaseLock m') regs) := by
  have hother (mutex : Mutex) := Function.update_of_ne hm.symm mutex k.mutex
  have hcall (regs' : ProcessContext) (ha : Action.call (.releaseLock m') regs =
      .call (.releaseLock m) regs') : (k.mutex m).pid ≠ k.sched.runningProcess := by
    simp [hm] at ha
  rcases h.releaseLock_cases hmay with ⟨-, heq⟩ | ⟨-, -, heq⟩ | ⟨-, -, -, heq⟩ |
    ⟨next, rest, -, -, -, heq⟩
  · rw [heq]
    exact .kept (fun _ => nofun) hcall rfl rfl fun _ _ => id
  · exact .kept (fun _ => nofun) hcall ((congrFun (congrArg Parts.mutex heq) m).trans (hother _))
      (congrFun (congrArg (·.plan.roster) heq) _)
      fun p b hp => (congrFun (congrArg Parts.resumePoint heq) p).symm.trans hp
  · exact .kept (fun _ => nofun) hcall ((congrFun (congrArg Parts.mutex heq) m).trans (hother _))
      (congrFun (congrArg (·.plan.roster) heq) _)
      fun p b hp => (congrFun (congrArg Parts.resumePoint heq) p).symm.trans hp
  · refine .kept (fun _ => nofun) hcall ((congrFun (congrArg Parts.mutex heq) m).trans (hother _)) ?_
      fun p b hp => (congrFun (congrArg Parts.resumePoint heq) p).symm.trans hp
    refine (congrFun (congrArg (·.plan.roster) heq) _).trans ?_
    simp [Plan.behead, hm.symm]

/-- Every step of a valid kernel is one of these moves. -/
theorem Valid.lock_move (h : k.Valid) (hstep : k.step a = some k') : LockMove m k k' a := by
  cases h.step_kind hstep with
  | still ha hstill =>
    refine .of_frame ?_ ?_ hstill.1.toFrame
    · rintro regs rfl
      exact ha trivial
    · rintro regs rfl
      exact ha trivial
  | create hmay hc =>
    refine .of_frame ?_ ?_ (h.runCall_made hmay hc _).toFrame
    · rintro regs ⟨⟩
      exact hc
    · rintro regs ⟨⟩
      exact hc
  | @acquireLock m' regs hmay =>
    by_cases hm : m' = m
    · subst hm
      exact h.acquireLock_move hmay regs
    · exact h.acquireLock_other hm hmay regs
  | @releaseLock m' regs hmay =>
    by_cases hm : m' = m
    · subst hm
      exact h.releaseLock_move hmay regs
    · exact h.releaseLock_other hm hmay regs
  | @exitProcess regs hmay =>
    obtain ⟨c, hc, -⟩ := h.collector
    refine .kept (by simp) (by simp) rfl ?_ ?_
    · refine (congrFun (congrArg Plan.roster (h.exitProcess_plan hc regs)) (.waitList m)).trans ?_
      simp [Plan.setState]
    · have hpoint : (k.exitProcess regs).resumePoint = Function.update k.resumePoint
          k.sched.runningProcess .exitProcess := rfl
      exact inside_of_moved hpoint (by simp)
  | collect hcol hcode =>
    refine (h.setIf false).collectLoop_move (j := k) rfl rfl rfl ?_ ?_ _ _
    · simp
    · simp
  | recollect hat =>
    refine h.collectLoop_move rfl rfl rfl ?_ ?_ _ _
    · simp
    · simp

end Kernel
end SkhuOS
