import SkhuOS.Foundation.FifoLock
import SkhuOS.Proc.LockMove

/-! Mutexes over runs. The calls in a history say what a first-come lock would look like;
the mutex of the kernel is always in that state, with the waiters in its wait list. -/
namespace SkhuOS
open Foundation
namespace Kernel

/-- What an action means for mutex `m`. -/
def lockStep (m : ℕ) (k : Kernel) (a : Action) (lock : FifoLock ℕ) : FifoLock ℕ :=
  match a with
  | .call (.acquireLock m') _ => if m' = m then lock.acquire k.sched.runningProcess else lock
  | .call (.releaseLock m') _ => if m' = m then lock.release k.sched.runningProcess else lock
  | _ => lock

/-- The first-come lock after the calls of a history. -/
def lockOf (m : ℕ) (history : List (Move Kernel Action)) : FifoLock ℕ :=
  history.foldl (fun lock move => lockStep m move.before move.label lock) .free

/-- The process a move makes the owner of mutex `m`. -/
def grant (m : ℕ) (move : Move Kernel Action) : Option ℕ :=
  if (move.after.mutex m).pid = (move.before.mutex m).pid ∨ (move.after.mutex m).pid = -1 then none
  else some (move.after.mutex m).pid.toNat

/-- The owners of mutex `m` in a history, in order. -/
def grants (m : ℕ) (history : List (Move Kernel Action)) : List ℕ := history.filterMap (grant m)

/-- The process to which `acquireLock` of mutex `m` returns in a move. -/
def acquireReturns (m : ℕ) (move : Move Kernel Action) : Option ℕ :=
  let cur := move.before.sched.runningProcess
  match move.label with
  | .call (.acquireLock m') _ =>
    if m' = m ∧ move.after.resumePoint cur = .code then some cur else none
  | .resume _ =>
    match move.before.resumePoint cur with
    | .acquireLock m' _ => if m' = m then some cur else none
    | _ => none
  | _ => none

variable {m : ℕ} {lock : FifoLock ℕ} {granted : List ℕ} {k k' : Kernel} {a : Action}
  {history : List (Move Kernel Action)}

theorem lockOf_snoc : lockOf m (history ++ [⟨k, a, k'⟩]) = lockStep m k a (lockOf m history) := by
  simp [lockOf, List.foldl_append]

theorem lockStep_depth_le (m : ℕ) (k : Kernel) (a : Action) (lock : FifoLock ℕ) (p : ℕ) :
    (lockStep m k a lock).depth p ≤ lock.depth p + 1 := by
  unfold lockStep
  split
  · split
    · exact lock.depth_acquire_le _ p
    · exact Nat.le_succ _
  · split
    · exact (lock.depth_release_le _ p).trans (Nat.le_succ _)
    · exact Nat.le_succ _
  · exact Nat.le_succ _

/-- Nobody nests more calls than there are moves. -/
theorem lockOf_depth_le (m : ℕ) (history : List (Move Kernel Action)) (p : ℕ) :
    (lockOf m history).depth p ≤ history.length := by
  have hfold (lock : FifoLock ℕ) : (history.foldl (fun lock move =>
      lockStep m move.before move.label lock) lock).depth p ≤ lock.depth p + history.length := by
    induction history generalizing lock with
    | nil => exact Nat.le_refl _
    | cons move history ih =>
      have hstep := lockStep_depth_le m move.before move.label lock p
      have hrest := ih (lockStep m move.before move.label lock)
      rw [List.foldl_cons, List.length_cons]
      omega
  exact (hfold .free).trans_eq (Nat.zero_add _)

theorem grants_snoc :
    grants m (history ++ [⟨k, a, k'⟩]) = grants m history ++ (grant m ⟨k, a, k'⟩).toList := by
  cases h : grant m ⟨k, a, k'⟩ <;> simp [grants, h]

/-- The mutex is in the state of the first-come lock: its owner is the first of the line,
the others are in the wait list, and whoever is inside `acquireLock` is in the line. -/
structure Locks (m : ℕ) (lock : FifoLock ℕ) (granted : List ℕ) (k : Kernel) : Prop where
  wellFormed : lock.WellFormed
  free : lock.line = [] → k.mutex m = ⟨-1, 0⟩ ∧ k.sched.roster (.waitList m) = []
  owned : ∀ o waiters, lock.line = o :: waiters → (k.mutex m).pid = o ∧
    (k.mutex m).count.toNat = lock.depth o ∧ k.sched.roster (.waitList m) = waiters
  inside : ∀ p preIf, k.resumePoint p = .acquireLock m preIf → p ∈ lock.line
  in_order : lock.requests = granted ++ k.sched.roster (.waitList m)

theorem toNat_sub_one {c : WORD} (h : c.toNat ≠ 0) : (c - 1).toNat = c.toNat - 1 := by
  bv_omega

theorem sub_one_eq_zero {c : WORD} : c - 1 = 0 ↔ c.toNat = 1 := by bv_omega

namespace Locks

variable (h : Locks m lock granted k)

include h

theorem tail_eq : lock.line.tail = k.sched.roster (.waitList m) := by
  cases hl : lock.line with
  | nil => exact (h.free hl).2.symm
  | cons o waiters => exact (h.owned o waiters hl).2.2.symm

/-- The running process does not wait. -/
theorem running_not_waiting (hvalid : k.Valid) : k.sched.runningProcess ∉ lock.line.tail := by
  rw [h.tail_eq]
  exact hvalid.settled.running_not_mem

theorem line_eq_nil : lock.line = [] ↔ (k.mutex m).pid = -1 := by
  constructor
  · exact fun hl => by rw [(h.free hl).1]
  · intro hpid
    cases hl : lock.line with
    | nil => rfl
    | cons o waiters =>
      have := (h.owned o waiters hl).1
      omega

theorem line_eq_cons {o : ℕ} (hpid : (k.mutex m).pid = o) :
    lock.line = o :: k.sched.roster (.waitList m) := by
  cases hl : lock.line with
  | nil =>
    have := h.line_eq_nil.mp hl
    omega
  | cons o' waiters =>
    obtain ⟨hpid', -, hroster⟩ := h.owned o' waiters hl
    rw [hroster, show o' = o by omega]

omit h in
/-- A mutex with an owner. -/
theorem of_owned (hwf : lock.WellFormed) {o : ℕ}
    (hline : lock.line = o :: k.sched.roster (.waitList m)) (hpid : (k.mutex m).pid = o)
    (hcount : (k.mutex m).count.toNat = lock.depth o)
    (hinside : ∀ p preIf, k.resumePoint p = .acquireLock m preIf → p ∈ lock.line)
    (horder : lock.requests = granted ++ k.sched.roster (.waitList m)) :
    Locks m lock granted k := by
  refine ⟨hwf, fun hnil => ?_, fun o' waiters hcons => ?_, hinside, horder⟩
  · rw [hline] at hnil
    cases hnil
  · rw [hline] at hcons
    obtain ⟨rfl, rfl⟩ := List.cons.inj hcons
    exact ⟨hpid, hcount, rfl⟩

/-- A move that leaves the mutex and its wait list alone and takes nobody into
`acquireLock`. -/
theorem keep (hlock : lockStep m k a lock = lock) (hmutex : k'.mutex m = k.mutex m)
    (hroster : k'.sched.roster (.waitList m) = k.sched.roster (.waitList m))
    (hinside : ∀ p preIf, k'.resumePoint p = .acquireLock m preIf →
      k.resumePoint p = .acquireLock m preIf) :
    Locks m (lockStep m k a lock) (granted ++ (grant m ⟨k, a, k'⟩).toList) k' := by
  have hnone : grant m ⟨k, a, k'⟩ = none := if_pos (.inl (by rw [hmutex]))
  rw [hlock, hnone, Option.toList_none, List.append_nil]
  refine ⟨h.wellFormed, ?_, ?_, fun p preIf hp => h.inside p preIf (hinside p preIf hp), ?_⟩
  · rw [hmutex, hroster]; exact h.free
  · rw [hmutex, hroster]; exact h.owned
  · rw [hroster]; exact h.in_order

/-- The owner goes one level deeper. -/
theorem nested (hown : (k.mutex m).pid = k.sched.runningProcess)
    (hmutex : k'.mutex m = ⟨k.sched.runningProcess, (k.mutex m).count + 1⟩)
    (hroster : k'.sched.roster (.waitList m) = k.sched.roster (.waitList m))
    (hpoint : k'.resumePoint = k.resumePoint) (hvalid : k.Valid)
    (hdepth : (lock.acquire k.sched.runningProcess).depth k.sched.runningProcess ≤ 65535) :
    Locks m (lock.acquire k.sched.runningProcess) (granted ++ (grant m ⟨k, a, k'⟩).toList) k' := by
  set r := k.sched.runningProcess with hr
  have hline : lock.line = r :: k.sched.roster (.waitList m) := h.line_eq_cons hown
  obtain ⟨hpid, hcount, -⟩ := h.owned r _ hline
  have hpos : lock.depth r ≠ 0 := (h.wellFormed.mem_iff r).mp (by simp [hline])
  obtain ⟨hline', hrequests⟩ := FifoLock.acquire_nested hpos
  have hself : (lock.acquire r).depth r = lock.depth r + 1 := by simp
  have hnone : grant m ⟨k, a, k'⟩ = none := if_pos (.inl (by rw [hmutex, hown]))
  rw [hnone, Option.toList_none, List.append_nil]
  refine of_owned (h.wellFormed.acquire (h.running_not_waiting hvalid)) (o := r) ?_ (by rw [hmutex])
    ?_ (fun p b hp => ?_) ?_
  · rw [hline', hroster, hline]
  · rw [hmutex, hself, BitVec.toNat_add, hcount]
    exact Nat.mod_eq_of_lt (by rw [hself] at hdepth; exact Nat.lt_succ_of_le hdepth)
  · rw [hpoint] at hp
    rw [hline']
    exact h.inside p b hp
  · rw [hrequests, hroster, h.in_order]

/-- The free mutex is taken. -/
theorem taken (hfree : (k.mutex m).pid = -1) (hmutex : k'.mutex m = ⟨k.sched.runningProcess, 1⟩)
    (hroster : k'.sched.roster (.waitList m) = k.sched.roster (.waitList m))
    (hpoint : k'.resumePoint = k.resumePoint) (hvalid : k.Valid) :
    Locks m (lock.acquire k.sched.runningProcess) (granted ++ (grant m ⟨k, a, k'⟩).toList) k' := by
  set r := k.sched.runningProcess with hr
  have hline := h.line_eq_nil.mpr hfree
  obtain ⟨-, hempty⟩ := h.free hline
  have hzero : lock.depth r = 0 := h.wellFormed.depth_of_not_mem (by simp [hline])
  have hself : (lock.acquire r).depth r = lock.depth r + 1 := by simp
  obtain ⟨hline', hrequests⟩ := FifoLock.acquire_outer hzero
  have hgrant : grant m ⟨k, a, k'⟩ = some r := by
    simp only [grant, hmutex, hfree, Int.toNat_natCast]
    exact if_neg (by omega)
  rw [hgrant, Option.toList_some]
  refine of_owned (h.wellFormed.acquire (h.running_not_waiting hvalid)) (o := r) ?_ (by rw [hmutex])
    ?_ (fun p b hp => ?_) ?_
  · rw [hline', hroster, hline, hempty, List.nil_append]
  · rw [hmutex, hself, hzero]
    rfl
  · rw [hpoint] at hp
    have hmem := h.inside p b hp
    simp [hline] at hmem
  · rw [hrequests, hroster, h.in_order, hempty, List.append_nil, List.append_nil]

/-- The caller goes to the end of the line. -/
theorem queued {preIf : Bool} (hother : (k.mutex m).pid ≠ k.sched.runningProcess)
    (htaken : (k.mutex m).pid ≠ -1) (hmutex : k'.mutex m = k.mutex m)
    (hroster : k'.sched.roster (.waitList m) =
      k.sched.roster (.waitList m) ++ [k.sched.runningProcess])
    (hpoint : k'.resumePoint =
      Function.update k.resumePoint k.sched.runningProcess (.acquireLock m preIf))
    (hvalid : k.Valid) :
    Locks m (lock.acquire k.sched.runningProcess) (granted ++ (grant m ⟨k, a, k'⟩).toList) k' := by
  set r := k.sched.runningProcess with hr
  obtain ⟨o, waiters, hline⟩ : ∃ o waiters, lock.line = o :: waiters :=
    List.exists_cons_of_ne_nil fun hnil => htaken (h.line_eq_nil.mp hnil)
  obtain ⟨hpid, hcount, hwaiters⟩ := h.owned o waiters hline
  have hro : r ≠ o := fun he => hother (by rw [hpid, ← he])
  have hzero : lock.depth r = 0 := h.wellFormed.depth_of_not_mem fun hm => by
    rw [hline, List.mem_cons] at hm
    have htail := h.running_not_waiting hvalid
    rw [hline] at htail
    exact htail (hm.resolve_left hro)
  obtain ⟨hline', hrequests⟩ := FifoLock.acquire_outer hzero
  have hnone : grant m ⟨k, a, k'⟩ = none := if_pos (.inl (by rw [hmutex]))
  rw [hnone, Option.toList_none, List.append_nil]
  refine of_owned (h.wellFormed.acquire (h.running_not_waiting hvalid)) (o := o) ?_
    (by rw [hmutex]; exact hpid) ?_ (fun p b hp => ?_) ?_
  · rw [hline', hroster, hline, hwaiters, List.cons_append]
  · rw [hmutex, hcount, FifoLock.acquire_depth, if_neg hro.symm]
  · rw [hline', List.mem_append, List.mem_singleton]
    by_cases hpr : p = r
    · exact .inr hpr
    · rw [hpoint, Function.update_of_ne hpr] at hp
      exact .inl (h.inside p b hp)
  · rw [hrequests, hroster, h.in_order, List.append_assoc]

/-- The owner leaves: those inside `acquireLock` are others, in the line. -/
theorem inside_other (hcode : k.resumePoint k.sched.runningProcess = .code) {p : ℕ} {preIf : Bool}
    (hp : k.resumePoint p = .acquireLock m preIf) : p ∈ lock.line ∧ p ≠ k.sched.runningProcess := by
  refine ⟨h.inside p preIf hp, ?_⟩
  rintro rfl
  rw [hcode] at hp
  cases hp

/-- The owner leaves one level. -/
theorem left (hown : (k.mutex m).pid = k.sched.runningProcess) (hcount' : (k.mutex m).count - 1 ≠ 0)
    (hmutex : k'.mutex m = ⟨k.sched.runningProcess, (k.mutex m).count - 1⟩)
    (hroster : k'.sched.roster (.waitList m) = k.sched.roster (.waitList m))
    (hpoint : k'.resumePoint = k.resumePoint) (hvalid : k.Valid) :
    Locks m (lock.release k.sched.runningProcess) (granted ++ (grant m ⟨k, a, k'⟩).toList) k' := by
  set r := k.sched.runningProcess with hr
  have hline : lock.line = r :: k.sched.roster (.waitList m) := h.line_eq_cons hown
  obtain ⟨hpid, hcount, -⟩ := h.owned r _ hline
  have hpos : lock.depth r ≠ 0 := (h.wellFormed.mem_iff r).mp (by simp [hline])
  have hpred := toNat_sub_one (by rwa [← hcount] at hpos)
  have hself : (lock.release r).depth r = lock.depth r - 1 := by simp
  have hnested : lock.depth r ≠ 1 := fun hone =>
    hcount' (sub_one_eq_zero.mpr (hcount.trans hone))
  have hline' := FifoLock.release_nested hnested
  have hnone : grant m ⟨k, a, k'⟩ = none := if_pos (.inl (by rw [hmutex, hown]))
  rw [hnone, Option.toList_none, List.append_nil]
  refine of_owned (h.wellFormed.release (h.running_not_waiting hvalid)) (o := r) ?_ (by rw [hmutex])
    ?_ (fun p b hp => ?_) ?_
  · rw [hline', hroster, hline]
  · rw [hmutex, hself, hpred, hcount]
  · rw [hpoint] at hp
    rw [hline']
    exact h.inside p b hp
  · rw [hroster]
    exact h.in_order

/-- The owner frees the mutex. -/
theorem freed (hown : (k.mutex m).pid = k.sched.runningProcess) (hcount' : (k.mutex m).count - 1 = 0)
    (hmutex : k'.mutex m = ⟨-1, 0⟩) (hempty : k.sched.roster (.waitList m) = [])
    (hroster : k'.sched.roster (.waitList m) = []) (hpoint : k'.resumePoint = k.resumePoint)
    (hcode : k.resumePoint k.sched.runningProcess = .code) (hvalid : k.Valid) :
    Locks m (lock.release k.sched.runningProcess) (granted ++ (grant m ⟨k, a, k'⟩).toList) k' := by
  set r := k.sched.runningProcess with hr
  have hline : lock.line = r :: k.sched.roster (.waitList m) := h.line_eq_cons hown
  obtain ⟨hpid, hcount, -⟩ := h.owned r _ hline
  have hone : lock.depth r = 1 := hcount.symm.trans (sub_one_eq_zero.mp hcount')
  have hline' : (lock.release r).line = [] := by
    rw [FifoLock.release_outer hone hline, hempty]
  have hnone : grant m ⟨k, a, k'⟩ = none := if_pos (.inr (by rw [hmutex]))
  rw [hnone, Option.toList_none, List.append_nil]
  refine ⟨h.wellFormed.release (h.running_not_waiting hvalid), fun _ => ⟨hmutex, hroster⟩,
    fun o waiters hcons => ?_, fun p b hp => ?_, ?_⟩
  · rw [hline'] at hcons
    cases hcons
  · rw [hpoint] at hp
    obtain ⟨hmem, hpr⟩ := h.inside_other hcode hp
    rw [hline, hempty, List.mem_singleton] at hmem
    exact absurd hmem hpr
  · rw [hroster, ← hempty]
    exact h.in_order

/-- The owner makes the first waiter the owner. -/
theorem handed {next : ℕ} (hown : (k.mutex m).pid = k.sched.runningProcess)
    (hcount' : (k.mutex m).count - 1 = 0) (hmutex : k'.mutex m = ⟨next, 1⟩)
    (hroster : k.sched.roster (.waitList m) = next :: k'.sched.roster (.waitList m))
    (hpoint : k'.resumePoint = k.resumePoint)
    (hcode : k.resumePoint k.sched.runningProcess = .code) (hvalid : k.Valid) :
    Locks m (lock.release k.sched.runningProcess) (granted ++ (grant m ⟨k, a, k'⟩).toList) k' := by
  set r := k.sched.runningProcess with hr
  have hline : lock.line = r :: k.sched.roster (.waitList m) := h.line_eq_cons hown
  obtain ⟨hpid, hcount, -⟩ := h.owned r _ hline
  have hone : lock.depth r = 1 := hcount.symm.trans (sub_one_eq_zero.mp hcount')
  rw [hroster] at hline
  have hline' : (lock.release r).line = next :: k'.sched.roster (.waitList m) :=
    FifoLock.release_outer hone hline
  have hnext : next ≠ r := by
    have hnodup := h.wellFormed.nodup
    rw [hline, List.nodup_cons] at hnodup
    exact fun he => hnodup.1 (by simp [he])
  have hgrant : grant m ⟨k, a, k'⟩ = some next := by
    simp only [grant, hmutex, hown, Int.toNat_natCast]
    exact if_neg (by omega)
  rw [hgrant, Option.toList_some]
  refine of_owned (h.wellFormed.release (h.running_not_waiting hvalid)) (o := next) hline'
    (by rw [hmutex]) ?_ (fun p b hp => ?_) ?_
  · rw [hmutex, FifoLock.release_depth, if_neg hnext, h.wellFormed.waiting next (by simp [hline])]
    rfl
  · rw [hpoint] at hp
    obtain ⟨hmem, hpr⟩ := h.inside_other hcode hp
    rw [hline] at hmem
    rw [hline']
    exact (List.mem_cons.mp hmem).resolve_left hpr
  · rw [List.append_assoc, List.singleton_append, ← hroster]
    exact h.in_order

/-- A `releaseLock` of a process that is not the owner. -/
theorem release_other (hvalid : k.Valid) (hother : (k.mutex m).pid ≠ k.sched.runningProcess) :
    lock.release k.sched.runningProcess = lock := by
  refine FifoLock.release_of_depth (h.wellFormed.depth_of_not_mem fun hm => ?_)
  have hwaiting := h.running_not_waiting hvalid
  cases hl : lock.line with
  | nil => simp [hl] at hm
  | cons o waiters =>
    rw [hl, List.mem_cons] at hm
    rw [hl] at hwaiting
    exact hother (by rw [(h.owned o waiters hl).1, ← hm.resolve_right hwaiting])

/-- Every step keeps the mutex in the state its calls ask for. -/
theorem step (hvalid : k.Valid) (hstep : k.step a = some k')
    (hdepth : ∀ p, (lockStep m k a lock).depth p ≤ 65535) :
    Locks m (lockStep m k a lock) (granted ++ (grant m ⟨k, a, k'⟩).toList) k' := by
  have hcode (c : Call) (regs : ProcessContext) (ha : a = .call c regs) :
      k.resumePoint k.sched.runningProcess = .code := by
    subst ha
    simp only [Kernel.step, Option.ite_none_right_eq_some] at hstep
    exact hstep.1.1
  have hacquire (regs : ProcessContext) : lockStep m k (.call (.acquireLock m) regs) lock =
      lock.acquire k.sched.runningProcess := if_pos rfl
  have hrelease (regs : ProcessContext) : lockStep m k (.call (.releaseLock m) regs) lock =
      lock.release k.sched.runningProcess := if_pos rfl
  cases hvalid.lock_move (m := m) hstep with
  | kept hnot hother hmutex hroster hinside =>
    refine h.keep ?_ hmutex hroster hinside
    cases a with
    | call c regs =>
      cases c with
      | acquireLock m' => exact if_neg fun hm => hnot regs (by rw [hm])
      | releaseLock m' =>
        by_cases hm : m' = m
        · subst hm
          exact (hrelease regs).trans (h.release_other hvalid (hother regs rfl))
        · exact if_neg hm
      | _ => rfl
    | _ => rfl
  | nested hown hmutex hroster hpoint =>
    rw [hacquire] at hdepth ⊢
    exact h.nested hown hmutex hroster hpoint hvalid (hdepth _)
  | taken hfree hmutex hroster hpoint =>
    rw [hacquire]
    exact h.taken hfree hmutex hroster hpoint hvalid
  | queued hother htaken hmutex hroster hpoint =>
    rw [hacquire]
    exact h.queued hother htaken hmutex hroster hpoint hvalid
  | left hown hcount hmutex hroster hpoint =>
    rw [hrelease]
    exact h.left hown hcount hmutex hroster hpoint hvalid
  | freed hown hcount hmutex hempty hroster hpoint =>
    rw [hrelease]
    exact h.freed hown hcount hmutex hempty hroster hpoint (hcode _ _ rfl) hvalid
  | handed hown hcount hmutex hroster hpoint =>
    rw [hrelease]
    exact h.handed hown hcount hmutex hroster hpoint (hcode _ _ rfl) hvalid

/-- When `acquireLock` returns to a process, this process owns the mutex. -/
theorem returns (hvalid : k.Valid) (hstep : k.step a = some k') {p : ℕ}
    (hp : acquireReturns m ⟨k, a, k'⟩ = some p) : (k'.mutex m).pid = p := by
  cases a with
  | call c regs =>
    cases c with
    | acquireLock m' =>
      simp only [acquireReturns, Option.ite_none_right_eq_some, Option.some.injEq] at hp
      obtain ⟨⟨rfl, hcode⟩, rfl⟩ := hp
      cases hvalid.step_kind hstep with
      | still ha _ => exact absurd trivial ha
      | create _ hc => exact hc.elim
      | acquireLock hmay =>
        rcases hvalid.acquireLock_cases hmay regs with
          ⟨hown, heq⟩ | ⟨-, heq⟩ | ⟨-, -, preIf, heq⟩
        · have hmutex := (congrFun (congrArg Parts.mutex heq) m').trans (Function.update_self _ _ _)
          exact (congrArg Mutex.pid hmutex).trans hown
        · have hmutex := (congrFun (congrArg Parts.mutex heq) m').trans (Function.update_self _ _ _)
          exact congrArg Mutex.pid hmutex
        · have hat := (congrFun (congrArg Parts.resumePoint heq) k.sched.runningProcess).trans
            (Function.update_self _ _ _)
          exact nomatch hcode.symm.trans hat
    | _ => cases hp
  | resume regs =>
    simp only [acquireReturns] at hp
    split at hp
    next m' preIf hat =>
      simp only [Option.ite_none_right_eq_some, Option.some.injEq] at hp
      obtain ⟨rfl, rfl⟩ := hp
      have hmem := h.inside _ preIf hat
      cases hl : lock.line with
      | nil => simp [hl] at hmem
      | cons o waiters =>
        have hwaiting := h.running_not_waiting hvalid
        rw [hl] at hmem hwaiting
        have howner := (List.mem_cons.mp hmem).resolve_right hwaiting
        cases hvalid.step_kind hstep with
        | still ha hstill =>
          have hmutex : k'.mutex m' = k.mutex m' := congrFun hstill.1.mutex m'
          rw [hmutex, howner]
          exact (h.owned o waiters hl).1
        | recollect hat' => exact nomatch hat.symm.trans hat'
    · cases hp
  | _ => cases hp

end Locks

/-- Process `p` is between a return of `acquireLock` and the matching release. -/
def Inside (m : ℕ) (history : List (Move Kernel Action)) (k : Kernel) (p : ℕ) : Prop :=
  (lockOf m history).depth p ≠ 0 ∧ ∀ preIf, k.resumePoint p ≠ .acquireLock m preIf

/-- What a mutex guarantees in a state, given the history that led to it. -/
structure MutexSafe (m : ℕ) (history : List (Move Kernel Action)) (k : Kernel) : Prop where
  free : (k.mutex m).pid = -1 → (k.mutex m).count = 0 ∧ k.sched.roster (.waitList m) = []
  owned : (k.mutex m).pid ≠ -1 → ∃ o : ℕ, (k.mutex m).pid = o ∧
    (k.mutex m).count.toNat = (lockOf m history).depth o ∧ (lockOf m history).depth o ≠ 0 ∧
    o ∉ k.sched.roster (.waitList m)
  waiting : ∀ p, p ∈ k.sched.roster (.waitList m) ↔ k.roles.member p ∧
    (k.sched.pcb p).state = .blocked ∧ ∃ preIf, k.resumePoint p = .acquireLock m preIf
  in_order : (lockOf m history).requests = grants m history ++ k.sched.roster (.waitList m)
  exclusive : ∀ p q, Inside m history k p → Inside m history k q → p = q
  returns : ∀ move ∈ history, ∀ p, acquireReturns m move = some p → (move.after.mutex m).pid = p
  by_owner : ∀ move ∈ history, ∀ regs, move.label = .call (.releaseLock m) regs →
    (move.before.mutex m).pid ≠ move.before.sched.runningProcess → move.after = move.before

namespace Locks

/-- The owner is the only one inside. -/
theorem inside_owner (h : Locks m (lockOf m history) granted k) (hvalid : k.Valid) {p o : ℕ}
    {waiters : List ℕ} (hl : (lockOf m history).line = o :: waiters)
    (hp : Inside m history k p) : p = o := by
  have hmem := (h.wellFormed.mem_iff p).mpr hp.1
  rw [hl, List.mem_cons] at hmem
  refine hmem.resolve_right fun hwait => ?_
  rw [← (h.owned o waiters hl).2.2] at hwait
  obtain ⟨preIf, hat⟩ := (hvalid.mem_waitList.mp hwait).2.2
  exact hp.2 preIf hat

theorem mutexSafe (h : Locks m (lockOf m history) (grants m history) k) (hvalid : k.Valid)
    (hreturns : ∀ move ∈ history, ∀ p, acquireReturns m move = some p → (move.after.mutex m).pid = p)
    (hrelease : ∀ move ∈ history, ∀ regs, move.label = .call (.releaseLock m) regs →
      (move.before.mutex m).pid ≠ move.before.sched.runningProcess → move.after = move.before) :
    MutexSafe m history k := by
  refine ⟨fun hpid => ?_, fun hpid => ?_, fun p => hvalid.mem_waitList, h.in_order,
    fun p q hp hq => ?_, hreturns, hrelease⟩
  · obtain ⟨hmutex, hroster⟩ := h.free (h.line_eq_nil.mpr hpid)
    exact ⟨by rw [hmutex], hroster⟩
  · obtain ⟨o, waiters, hl⟩ : ∃ o waiters, (lockOf m history).line = o :: waiters :=
      List.exists_cons_of_ne_nil fun hnil => hpid (h.line_eq_nil.mp hnil)
    obtain ⟨hown, hcount, hwaiters⟩ := h.owned o waiters hl
    have hnodup := h.wellFormed.nodup
    rw [hl, List.nodup_cons] at hnodup
    exact ⟨o, hown, hcount, (h.wellFormed.mem_iff o).mp (by simp [hl]), hwaiters ▸ hnodup.1⟩
  · cases hl : (lockOf m history).line with
    | nil =>
      have hmem := (h.wellFormed.mem_iff p).mpr hp.1
      simp [hl] at hmem
    | cons o waiters =>
      exact (h.inside_owner hvalid hl hp).trans (h.inside_owner hvalid hl hq).symm

end Locks

/-- A `releaseLock` of a process that does not own the mutex changes nothing. -/
theorem Valid.releaseLock_by_other (h : k.Valid) (hstep : k.step a = some k') {regs : ProcessContext}
    (ha : a = .call (.releaseLock m) regs) (hother : (k.mutex m).pid ≠ k.sched.runningProcess) :
    k' = k := by
  subst ha
  cases h.step_kind hstep with
  | still ha _ => exact absurd trivial ha
  | create _ hc => exact hc.elim
  | releaseLock hmay =>
    rcases h.releaseLock_cases hmay with ⟨-, heq⟩ | ⟨hown, -⟩ | ⟨hown, -⟩ | ⟨_, _, hown, -⟩
    · exact heq
    all_goals exact absurd hown hother

end Kernel

/-- At the start every mutex is free. -/
theorem Boot.start_locks (b : Boot) (m : ℕ) : Kernel.Locks m .free [] b.start := by
  have hroster : b.start.sched.roster (.waitList m) = [] := by
    have hplan := congrFun (congrArg Plan.roster b.start_plan.2) (.waitList m)
    exact hplan.trans (by simp)
  refine ⟨FifoLock.free_wellFormed, fun _ => ⟨b.start_mutex m, hroster⟩, fun _ _ hcons => (nomatch hcons),
    fun p preIf hp => ?_, ?_⟩
  · rw [b.start_resumePoint] at hp
    cases hp
  · rw [hroster]
    rfl

namespace Kernel

variable {m : ℕ} {k : Kernel} {history : List (Move Kernel Action)}

/-- Every mutex is safe and hands over first come, first served, as long as no process
nests 65536 calls. -/
theorem mutex_safety {b : Boot} (hrun : KernelRun anyStep b history k)
    (hdepth : ∀ past, past <+: history → ∀ p, (lockOf m past).depth p ≤ 65535) :
    MutexSafe m history k := by
  have hinv := hrun.history_invariant (P := fun past t =>
    (∀ past', past' <+: past → ∀ p, (lockOf m past').depth p ≤ 65535) →
      t.Valid ∧ Locks m (lockOf m past) (grants m past) t ∧
      (∀ move ∈ past, ∀ p, acquireReturns m move = some p → (move.after.mutex m).pid = p) ∧
      ∀ move ∈ past, ∀ regs, move.label = .call (.releaseLock m) regs →
        (move.before.mutex m).pid ≠ move.before.sched.runningProcess → move.after = move.before)
    (fun _ => ⟨b.start_valid, b.start_locks m, by simp, by simp⟩)
    fun past t a u _ ih _ hstep hbound => by
      obtain ⟨hvalid, hlocks, hreturns, hrelease⟩ :=
        ih fun past' hpast => hbound past' (hpast.trans (List.prefix_append _ _))
      have hlast := hbound _ (List.prefix_refl _)
      rw [lockOf_snoc] at hlast
      refine ⟨hvalid.step hstep, ?_, fun move hmove => ?_, fun move hmove => ?_⟩
      · rw [lockOf_snoc, grants_snoc]
        exact hlocks.step hvalid hstep hlast
      · rcases List.mem_append.mp hmove with hmove | hmove
        · exact hreturns move hmove
        · obtain rfl := List.mem_singleton.mp hmove
          exact fun p hp => hlocks.returns hvalid hstep hp
      · rcases List.mem_append.mp hmove with hmove | hmove
        · exact hrelease move hmove
        · obtain rfl := List.mem_singleton.mp hmove
          exact fun regs ha hother => hvalid.releaseLock_by_other hstep ha hother
  obtain ⟨hvalid, hlocks, hreturns, hrelease⟩ := hinv hdepth
  exact hlocks.mutexSafe hvalid hreturns hrelease

/-- A process waits for the mutex of the shell, which then hands it over. -/
def handOver : List Action :=
  let regs : ProcessContext := fun _ => 0
  [.call (.acquireLock 0) regs, .call (.createProcess 0 0) regs, .call .schedule regs,
    .collect regs, .call (.acquireLock 0) regs, .resume regs, .call (.releaseLock 0) regs,
    .call .schedule regs, .resume regs]

theorem mutex_safety_handOver :
    MutexSafe 0 (trace step Boot.zero.start handOver) (reached step Boot.zero.start handOver) ∧
      grants 0 (trace step Boot.zero.start handOver) = [0, 3] := by
  have hlength : (trace step Boot.zero.start handOver).length = 9 := by decide +kernel
  refine ⟨mutex_safety (run_trace (by decide +kernel) fun _ _ => trivial) fun past hpast p => ?_,
    by decide +kernel⟩
  have hdepth := lockOf_depth_le 0 past p
  have hle := hpast.length_le
  omega

end Kernel
end SkhuOS
