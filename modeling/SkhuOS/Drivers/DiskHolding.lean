import SkhuOS.Drivers.DiskProtocol
import SkhuOS.Drivers.DiskTransfers

/-! A process inside a transfer, while the other processes and the interrupts go on: it holds
the disk mutex whenever a word is moved, and leaves it as it found it. -/
namespace SkhuOS
open Foundation

/-- The kernel call a request stands for, where it is one, and what the value of
`waitInterrupt` means for the answer; `m` is the number of `diskMutex`. -/
def DiskRequest.kernelCall (m : ℕ) : (r : DiskRequest) → Option (Call × (Option Bool → r.Answer))
  | .acquireLock => some (.acquireLock m, fun _ => ())
  | .releaseLock => some (.releaseLock m, fun _ => ())
  | .clearDiskInterruptFlag isPrimary => some (.clearDiskInterruptFlag isPrimary, fun _ => ())
  | .waitInterrupt isPrimary => some (.waitInterrupt isPrimary, fun value => value.getD false)
  | .startStopwatch | .timeUp | .getPort _ | .setPort _ _ | .getPortWord _ | .setPortWord _ _ => none

/-- The kernel, what is left of the transfer of one process, and the events so far. -/
structure Driving (α : Type) where
  kernel : Kernel
  program : Driver α
  trace : List DiskEvent

/-- The steps around a transfer of process `p`: anything that is not done by `p`; a request
to the ports or the clock, with the answers of the device; a kernel call of the transfer, and
the rest of such a call. -/
inductive DrivingAction where
  | other (a : Action)
  | port (answer : (r : DiskRequest) → r.Answer)
  | call (regs : ProcessContext)
  | resume (regs : ProcessContext)

namespace Driving

variable {α : Type}

/-- The transfer starts. -/
def start (k : Kernel) (program : Driver α) : Driving α := ⟨k, program, []⟩

/-- The transfer goes on behind a kernel call that has returned to process `p`. -/
def settle (p : ℕ) (s : Driving α) (r : DiskRequest) (rest : r.Answer → Driver α)
    (answer : r.Answer) (k : Kernel) : Driving α :=
  if k.resumePoint p = .code then ⟨k, rest answer, s.trace ++ [⟨r, answer⟩]⟩
  else { s with kernel := k }

/-- `m` is the number of `diskMutex`. -/
def step (m p : ℕ) (s : Driving α) : DrivingAction → Option (Driving α)
  | .other a =>
    if s.kernel.sched.runningProcess ≠ p ∨ a.isInterrupt then
      (s.kernel.step a).map fun k => { s with kernel := k }
    else none
  | .port answer =>
    match s.program with
    | .ask r rest =>
      if s.kernel.sched.runningProcess = p ∧ s.kernel.resumePoint p = .code ∧
          (r.kernelCall m).isNone then
        some ⟨s.kernel, rest (answer r), s.trace ++ [⟨r, answer r⟩]⟩
      else none
    | .ret _ => none
  | .call regs =>
    match s.program with
    | .ask r rest =>
      match r.kernelCall m with
      | some (c, value) =>
        if s.kernel.sched.runningProcess = p then
          (s.kernel.step (.call c regs)).map
            (s.settle p r rest (value (s.kernel.waited (.call c regs))))
        else none
      | none => none
    | .ret _ => none
  | .resume regs =>
    match s.program with
    | .ask r rest =>
      match r.kernelCall m with
      | some (_, value) =>
        if s.kernel.sched.runningProcess = p then
          (s.kernel.step (.resume regs)).map
            (s.settle p r rest (value (s.kernel.waited (.resume regs))))
        else none
      | none => none
    | .ret _ => none

end Driving

namespace Kernel

variable {k k' : Kernel} {a : Action} {m p : ℕ}

/-- How deep process `p` is nested in mutex `m`, as the mutex counts it. -/
def nesting (m p : ℕ) (k : Kernel) : WORD := if (k.mutex m).pid = p then (k.mutex m).count else 0

/-- The step is not one of process `p`. -/
def NotBy (p : ℕ) (k : Kernel) (a : Action) : Prop :=
  k.sched.runningProcess ≠ p ∨ a.isInterrupt = true

theorem NotBy.call {c : Call} {regs : ProcessContext} (h : k.NotBy p (.call c regs)) :
    k.sched.runningProcess ≠ p := h.resolve_right (nomatch ·)

/-- The others leave a process where it is. -/
theorem Valid.notBy_aside (h : k.Valid) (hstep : k.step a = some k') (hother : k.NotBy p a)
    (halloc : k.allocProcessTable p = true) (hlive : k.resumePoint p ≠ .exitProcess) :
    k'.resumePoint p = k.resumePoint p ∧ k'.allocProcessTable p = true := by
  have haside : Aside p (k.ticked a) k' := by
    rcases hother with hother | hother
    · exact h.step_aside hstep hother.symm halloc hlive
    · exact interrupt_step_aside hother hstep p
  have hticked : (k.ticked a).resumePoint = k.resumePoint ∧
      (k.ticked a).allocProcessTable = k.allocProcessTable := by
    cases a <;> exact ⟨rfl, rfl⟩
  exact ⟨haside.point.trans (congrFun hticked.1 p),
    (haside.alloc.trans (congrFun hticked.2 p)).trans halloc⟩

/-- Only the owner changes a mutex that has one. -/
theorem Valid.notBy_mutex (h : k.Valid) (hstep : k.step a = some k') (hother : k.NotBy p a)
    (hown : (k.mutex m).pid = p) : k'.mutex m = k.mutex m := by
  cases h.lock_move (m := m) hstep with
  | kept _ _ hmutex => exact hmutex
  | queued _ _ hmutex => exact hmutex
  | taken hfree => omega
  | nested hrun | left hrun | freed hrun | handed hrun =>
    have hne := hother.call
    omega

/-- The others do not change the nesting of a process that does not wait for the mutex. -/
theorem Valid.notBy_nesting (h : k.Valid) (hstep : k.step a = some k') (hother : k.NotBy p a)
    (hline : p ∉ k.sched.roster (.waitList m)) : k'.nesting m p = k.nesting m p := by
  by_cases hown : (k.mutex m).pid = p
  · rw [nesting, nesting, h.notBy_mutex hstep hother hown]
  · have hstays (hnew : (k'.mutex m).pid ≠ p) : k'.nesting m p = k.nesting m p := by
      rw [nesting, nesting, if_neg hown, if_neg hnew]
    cases h.lock_move (m := m) hstep with
    | kept _ _ hmutex | queued _ _ hmutex => exact hstays (by rwa [hmutex])
    | nested _ hmutex | taken _ hmutex | left _ _ hmutex =>
      have hne := hother.call
      refine hstays ?_
      rw [hmutex]
      exact fun hp => hne (Int.ofNat_inj.mp hp)
    | freed _ _ hmutex =>
      refine hstays ?_
      rw [hmutex]
      exact nofun
    | handed _ _ hmutex hroster =>
      refine hstays ?_
      rw [hmutex]
      intro hp
      obtain rfl := Int.ofNat_inj.mp hp
      exact hline (by simp [hroster])

/-- A process in the line stays there until the mutex is handed to it. -/
theorem Valid.notBy_line (h : k.Valid) (hstep : k.step a = some k')
    (hline : p ∈ k.sched.roster (.waitList m)) :
    p ∈ k'.sched.roster (.waitList m) ∨ k'.mutex m = ⟨p, 1⟩ := by
  cases h.lock_move (m := m) hstep with
  | kept _ _ _ hroster => exact .inl (by rwa [hroster])
  | nested _ _ hroster | taken _ _ hroster => exact .inl (by rwa [hroster])
  | queued _ _ _ hroster => exact .inl (by simp [hroster, hline])
  | left _ _ _ hroster => exact .inl (by rwa [hroster])
  | freed _ _ _ hempty => simp [hempty] at hline
  | handed _ _ hmutex hroster =>
    rw [hroster, List.mem_cons] at hline
    rcases hline with rfl | hline
    · exact .inr hmutex
    · exact .inl hline

/-- A process in its own code waits for no mutex. -/
theorem Valid.code_not_waiting (h : k.Valid) (hat : k.resumePoint p = .code) :
    p ∉ k.sched.roster (.waitList m) := by
  intro hline
  obtain ⟨-, -, preIf, hpoint⟩ := h.mem_waitList.mp hline
  rw [hat] at hpoint
  cases hpoint

end Kernel

/-- The requests of a transfer that are calls of the kernel, apart from those of the lock. -/
theorem DiskRequest.Plain.kernelCall {m : ℕ} {r : DiskRequest} (hr : r.Plain) {c : Call}
    {value : Option Bool → r.Answer} (hc : r.kernelCall m = some (c, value)) :
    (∃ isPrimary, c = .waitInterrupt isPrimary) ∨
      ∃ isPrimary, c = .clearDiskInterruptFlag isPrimary := by
  cases r with
  | acquireLock | releaseLock => exact hr.elim
  | waitInterrupt isPrimary =>
    obtain ⟨rfl, -⟩ := Prod.mk.inj (Option.some.inj hc)
    exact .inl ⟨isPrimary, rfl⟩
  | clearDiskInterruptFlag isPrimary =>
    obtain ⟨rfl, -⟩ := Prod.mk.inj (Option.some.inj hc)
    exact .inr ⟨isPrimary, rfl⟩
  | _ => cases hc

namespace Kernel

/-- How far process `p` is with a transfer that it started with nesting `n`: it has yet to take
the lock, it waits for it, it has it, it has it and waits for the disk, or it is done. -/
inductive Phase {α : Type} (m p : ℕ) (n : WORD) (k : Kernel) : Driver α → Prop
  | before {rest : Unit → Driver α} (hat : k.resumePoint p = .code) (hnest : k.nesting m p = n)
      (hbody : (rest ()).Ends DiskRequest.Plain .releaseLock) : Phase m p n k (.ask .acquireLock rest)
  | waiting {rest : Unit → Driver α} {preIf : Bool}
      (hat : k.resumePoint p = .acquireLock m preIf) (hzero : n = 0)
      (hline : p ∈ k.sched.roster (.waitList m) ∨ k.mutex m = ⟨p, 1⟩)
      (hbody : (rest ()).Ends DiskRequest.Plain .releaseLock) : Phase m p n k (.ask .acquireLock rest)
  | inside {program : Driver α} (hat : k.resumePoint p = .code) (hmutex : k.mutex m = ⟨p, n + 1⟩)
      (hbody : program.Ends DiskRequest.Plain .releaseLock) : Phase m p n k program
  | asleep {r : DiskRequest} {rest : r.Answer → Driver α} {isPrimary : Bool} {deadline : QWORD}
      (hat : k.resumePoint p = .waitInterrupt isPrimary deadline) (hmutex : k.mutex m = ⟨p, n + 1⟩)
      (hbody : ∀ answer, (rest answer).Ends DiskRequest.Plain .releaseLock) :
      Phase m p n k (.ask r rest)
  | after {x : α} (hat : k.resumePoint p = .code) (hnest : k.nesting m p = n) :
      Phase m p n k (.ret x)

variable {α : Type} {k k' : Kernel} {a : Action} {m p : ℕ} {n : WORD} {program : Driver α}

theorem Phase.not_exited (h : k.Phase m p n program) : k.resumePoint p ≠ .exitProcess := by
  cases h with
  | before hat | waiting hat | inside hat | asleep hat | after hat => simp [hat]

/-- The others leave the transfer where it is. -/
theorem Phase.other (h : k.Phase m p n program) (hvalid : k.Valid) (hstep : k.step a = some k')
    (hother : k.NotBy p a) (halloc : k.allocProcessTable p = true) :
    k'.Phase m p n program ∧ k'.allocProcessTable p = true := by
  obtain ⟨hpoint, halloc'⟩ := hvalid.notBy_aside hstep hother halloc h.not_exited
  refine ⟨?_, halloc'⟩
  cases h with
  | before hat hnest hbody =>
    have hkept := hvalid.notBy_nesting hstep hother (hvalid.code_not_waiting (m := m) hat)
    exact .before (hpoint.trans hat) (hkept.trans hnest) hbody
  | waiting hat hzero hline hbody =>
    refine .waiting (hpoint.trans hat) hzero ?_ hbody
    rcases hline with hline | hmutex
    · exact hvalid.notBy_line hstep hline
    · have hkept := hvalid.notBy_mutex (m := m) hstep hother (by rw [hmutex])
      exact .inr (hkept.trans hmutex)
  | inside hat hmutex hbody =>
    have hkept := hvalid.notBy_mutex (m := m) hstep hother (by rw [hmutex])
    exact .inside (hpoint.trans hat) (hkept.trans hmutex) hbody
  | asleep hat hmutex hbody =>
    have hkept := hvalid.notBy_mutex (m := m) hstep hother (by rw [hmutex])
    exact .asleep (hpoint.trans hat) (hkept.trans hmutex) hbody
  | after hat hnest =>
    have hkept := hvalid.notBy_nesting hstep hother (hvalid.code_not_waiting (m := m) hat)
    exact .after (hpoint.trans hat) (hkept.trans hnest)

/-- A word is moved only inside. -/
theorem Phase.owner {r : DiskRequest} {rest : r.Answer → Driver α}
    (h : k.Phase m p n (.ask r rest)) (hr : r.MovesWord) : (k.mutex m).pid = p := by
  cases h with
  | before | waiting => exact hr.elim
  | inside _ hmutex | asleep _ hmutex => rw [hmutex]

/-- The answer of a device takes the transfer on. -/
theorem Phase.port {r : DiskRequest} {rest : r.Answer → Driver α}
    (h : k.Phase m p n (.ask r rest)) (hcode : k.resumePoint p = .code)
    (hport : (r.kernelCall m).isNone) (answer : r.Answer) : k.Phase m p n (rest answer) := by
  cases h with
  | before | waiting => cases hport
  | asleep hat => cases hat.symm.trans hcode
  | inside hat hmutex hbody =>
    rcases hbody with ⟨rfl, -⟩ | ⟨-, hrest⟩
    · cases hport
    · exact .inside hat hmutex (hrest answer)

theorem waitLoop_point (k : Kernel) (isPrimary : Bool) (deadline : QWORD) (regs : ProcessContext) :
    (k.waitLoop isPrimary deadline regs).2.resumePoint k.sched.runningProcess = .code ∨
      (k.waitLoop isPrimary deadline regs).2.resumePoint k.sched.runningProcess =
        .waitInterrupt isPrimary deadline := by
  unfold waitLoop
  split
  · exact .inl (Function.update_self _ _ _)
  · split
    · exact .inl (Function.update_self _ _ _)
    · exact .inr (Function.update_self _ _ _)

/-- Only the lock calls for a mutex change it. -/
theorem Valid.mutex_kept (h : k.Valid) (hstep : k.step a = some k')
    (hacquire : ∀ regs, a ≠ .call (.acquireLock m) regs)
    (hrelease : ∀ regs, a ≠ .call (.releaseLock m) regs) : k'.mutex m = k.mutex m := by
  cases h.lock_move (m := m) hstep with
  | kept _ _ hmutex => exact hmutex
  | nested | taken | queued => exact absurd rfl (hacquire _)
  | left | freed | handed => exact absurd rfl (hrelease _)

/-- Only the collector gives slots back. -/
theorem Valid.alloc_kept (h : k.Valid) (hstep : k.step a = some k')
    (hcollect : ∀ regs, a ≠ .collect regs)
    (hat : ∀ preIf, k.resumePoint k.sched.runningProcess ≠ .garbageProcessCollector preIf)
    (halloc : k.allocProcessTable p = true) : k'.allocProcessTable p = true := by
  cases h.step_kind hstep with
  | still _ hstill => exact (congrFun hstill.1.alloc p).trans halloc
  | create hmay hc =>
    rcases (h.runCall_made hmay hc _).alloc with hsame | ⟨q, -, hnew, -⟩
    · exact (congrFun hsame p).trans halloc
    · refine (congrFun hnew p).trans ?_
      by_cases hpq : p = q
      · rw [hpq, Function.update_self]
      · rwa [Function.update_of_ne hpq]
  | acquireLock hmay => exact (congrFun (h.acquireLock_calm hmay _).alloc p).trans halloc
  | releaseLock hmay => exact (congrFun (h.releaseLock_calm hmay).alloc p).trans halloc
  | exitProcess => exact halloc
  | collect => exact absurd rfl (hcollect _)
  | recollect hat' => exact absurd hat' (hat _)

theorem call_code {c : Call} {regs : ProcessContext} (hstep : k.step (.call c regs) = some k') :
    k.resumePoint k.sched.runningProcess = .code := by
  simp only [Kernel.step, Option.ite_none_right_eq_some] at hstep
  exact hstep.1.1

/-- A call of the lock that a transfer makes at its start. -/
theorem Phase.acquire {rest : Unit → Driver α} {regs : ProcessContext} (hvalid : k.Valid)
    (hstep : k.step (.call (.acquireLock m) regs) = some k')
    (hnest : k.nesting m k.sched.runningProcess = n)
    (hbody : (rest ()).Ends DiskRequest.Plain .releaseLock) :
    (k'.resumePoint k.sched.runningProcess = .code →
      k'.Phase m k.sched.runningProcess n (rest ())) ∧
    (k'.resumePoint k.sched.runningProcess ≠ .code →
      k'.Phase m k.sched.runningProcess n (.ask .acquireLock rest)) := by
  have hcode := call_code hstep
  cases hvalid.lock_move (m := m) hstep with
  | kept hacquire => exact absurd rfl (hacquire regs)
  | nested hown hmutex _ hpoint =>
    rw [nesting, if_pos hown] at hnest
    rw [hnest] at hmutex
    exact ⟨fun hat => .inside hat hmutex hbody,
      fun hat => absurd ((congrFun hpoint _).trans hcode) hat⟩
  | taken hfree hmutex _ hpoint =>
    have hzero : n = 0 := by
      rw [← hnest, nesting, if_neg (by omega)]
    subst hzero
    exact ⟨fun hat => .inside hat hmutex hbody,
      fun hat => absurd ((congrFun hpoint _).trans hcode) hat⟩
  | queued hother _ _ hroster hpoint =>
    have hat := (congrFun hpoint _).trans (Function.update_self _ _ _)
    have hzero : n = 0 := by
      rw [← hnest, nesting, if_neg hother]
    exact ⟨fun hcode' => absurd (hat.symm.trans hcode') nofun,
      fun _ => .waiting hat hzero (.inl (by simp [hroster])) hbody⟩

/-- The call of `releaseLock` that ends a transfer. -/
theorem Valid.release_nesting {regs : ProcessContext} (hvalid : k.Valid)
    (hstep : k.step (.call (.releaseLock m) regs) = some k')
    (hmutex : k.mutex m = ⟨k.sched.runningProcess, n + 1⟩) :
    k'.resumePoint k.sched.runningProcess = .code ∧ k'.nesting m k.sched.runningProcess = n := by
  have hcode := call_code hstep
  have hcount : (k.mutex m).count - 1 = n := by
    rw [hmutex]
    exact BitVec.add_sub_cancel n 1
  cases hvalid.lock_move (m := m) hstep with
  | kept _ hother => exact absurd (by rw [hmutex]) (hother regs rfl)
  | left _ _ hmutex' _ hpoint =>
    refine ⟨(congrFun hpoint _).trans hcode, ?_⟩
    rw [nesting, hmutex', if_pos rfl, hcount]
  | freed _ hzero hmutex' _ _ hpoint =>
    refine ⟨(congrFun hpoint _).trans hcode, ?_⟩
    rw [nesting, hmutex', if_neg (fun hp => absurd hp nofun), ← hcount, hzero]
  | handed _ hzero hmutex' hroster hpoint =>
    refine ⟨(congrFun hpoint _).trans hcode, ?_⟩
    have hnot : k.sched.runningProcess ∉ k.sched.roster (.waitList m) :=
      hvalid.settled.running_not_mem
    rw [nesting, hmutex', if_neg, ← hcount, hzero]
    intro hp
    exact hnot (by simp [hroster, Int.ofNat_inj.mp hp])

/-- The other kernel calls of a transfer keep the process in its code or in `waitInterrupt`. -/
theorem plain_call_point {c : Call} {regs : ProcessContext}
    (hstep : k.step (.call c regs) = some k') (hc : (∃ isPrimary, c = .waitInterrupt isPrimary) ∨
      ∃ isPrimary, c = .clearDiskInterruptFlag isPrimary) :
    k'.resumePoint k.sched.runningProcess = .code ∨
      ∃ isPrimary deadline,
        k'.resumePoint k.sched.runningProcess = .waitInterrupt isPrimary deadline := by
  have hcode := call_code hstep
  simp only [Kernel.step, Option.ite_none_right_eq_some, Option.some.injEq] at hstep
  obtain ⟨-, rfl⟩ := hstep
  rcases hc with ⟨d, rfl⟩ | ⟨d, rfl⟩
  · simp only [runCall, waitInterrupt]
    split
    · exact .inl hcode
    · rcases waitLoop_point (k.setIf false).2 d ((k.setIf false).2.sched.tickCount +
        (waitTimeoutMs + slotTime - 1) / slotTime) regs with hat | hat
      · exact .inl hat
      · exact .inr ⟨_, _, hat⟩
  · exact .inl hcode

/-- Process `p` makes a kernel call of its transfer. -/
theorem Phase.call {r : DiskRequest} {rest : r.Answer → Driver α} {c : Call}
    {value : Option Bool → r.Answer} {regs : ProcessContext}
    (h : k.Phase m p n (.ask r rest)) (hvalid : k.Valid) (hrun : k.sched.runningProcess = p)
    (hc : r.kernelCall m = some (c, value)) (hstep : k.step (.call c regs) = some k')
    (answer : r.Answer) :
    (k'.resumePoint p = .code → k'.Phase m p n (rest answer)) ∧
      (k'.resumePoint p ≠ .code → k'.Phase m p n (.ask r rest)) := by
  subst hrun
  have hcode := call_code hstep
  cases h with
  | before hat hnest hbody =>
    obtain ⟨rfl, -⟩ := Prod.mk.inj (Option.some.inj hc)
    exact Phase.acquire hvalid hstep hnest hbody
  | waiting hat | asleep hat => cases hat.symm.trans hcode
  | inside hat hmutex hbody =>
    rcases hbody with ⟨rfl, hrest⟩ | ⟨hplain, hrest⟩
    · obtain ⟨rfl, -⟩ := Prod.mk.inj (Option.some.inj hc)
      obtain ⟨x, hx⟩ := hrest answer
      obtain ⟨hback, hnest⟩ := hvalid.release_nesting hstep hmutex
      rw [hx]
      exact ⟨fun hat => .after hat hnest, fun hat => absurd hback hat⟩
    · have hkept : k'.mutex m = ⟨k.sched.runningProcess, n + 1⟩ := by
        refine (hvalid.mutex_kept hstep ?_ ?_).trans hmutex
        all_goals rcases hplain.kernelCall hc with ⟨d, rfl⟩ | ⟨d, rfl⟩ <;> exact fun _ => nofun
      refine ⟨fun hat => .inside hat hkept (hrest answer), fun hat => ?_⟩
      obtain ⟨d, deadline, hat'⟩ :=
        (plain_call_point hstep (hplain.kernelCall hc)).resolve_left hat
      exact .asleep hat' hkept hrest

/-- Process `p` goes on with a kernel call of its transfer. -/
theorem Phase.resume {r : DiskRequest} {rest : r.Answer → Driver α} {regs : ProcessContext}
    (h : k.Phase m p n (.ask r rest)) (hvalid : k.Valid) (hrun : k.sched.runningProcess = p)
    (hstep : k.step (.resume regs) = some k') (answer : r.Answer) :
    (k'.resumePoint p = .code → k'.Phase m p n (rest answer)) ∧
      (k'.resumePoint p ≠ .code → k'.Phase m p n (.ask r rest)) := by
  subst hrun
  have hkept : k'.mutex m = k.mutex m :=
    hvalid.mutex_kept hstep (fun _ => nofun) (fun _ => nofun)
  have hstep' : k.resumeCall (k.resumePoint k.sched.runningProcess) regs = some k' := hstep
  cases h with
  | before hat =>
    rw [hat] at hstep'
    cases hstep'
  | waiting hat hzero hline hbody =>
    have hnot : k.sched.runningProcess ∉ k.sched.roster (.waitList m) :=
      hvalid.settled.running_not_mem
    have hmutex := hkept.trans (hline.resolve_left hnot)
    subst hzero
    refine ⟨fun hat' => .inside hat' hmutex hbody, fun hat' => absurd ?_ hat'⟩
    rw [hat] at hstep'
    obtain rfl := Option.some.inj hstep'
    exact Function.update_self _ _ _
  | inside hat =>
    rw [hat] at hstep'
    cases hstep'
  | @asleep _ _ d deadline hat hmutex hbody =>
    refine ⟨fun hat' => .inside hat' (hkept.trans hmutex) (hbody answer), fun hat' => ?_⟩
    rw [hat] at hstep'
    obtain rfl := Option.some.inj hstep'
    have hpoint := waitLoop_point { k with
      diskWaiter := Function.update k.diskWaiter d none } d deadline regs
    exact .asleep (hpoint.resolve_left hat') (hkept.trans hmutex) hbody

end Kernel

/-- The move is a word over a data port. -/
def MovesWord {α : Type} (move : Move (Driving α) DrivingAction) : Prop :=
  ∃ answer r rest, move.label = .port answer ∧ move.before.program = .ask r rest ∧ r.MovesWord

/-- What is guaranteed of a transfer of process `p` that starts in `k`, in every run of the
system around it: its events and its result satisfy `Q`, its nesting in mutex `m` is back when
it returns, and `p` owns the mutex at every word that is moved. And every device that answers
brings it to a return. -/
structure TransferSafe {α : Type} (m p : ℕ) (k : Kernel) (program : Driver α)
    (Q : List DiskEvent → α → Prop) : Prop where
  exact : ∀ moves s x, Run (Driving.step m p) anyStep (Driving.start k program) moves s →
    s.program = .ret x → Q s.trace x
  balanced : ∀ moves s x, Run (Driving.step m p) anyStep (Driving.start k program) moves s →
    s.program = .ret x → s.kernel.nesting m p = k.nesting m p
  held : ∀ moves s, Run (Driving.step m p) anyStep (Driving.start k program) moves s →
    ∀ move ∈ moves, MovesWord move → (move.before.kernel.mutex m).pid = p
  returns : ∀ device, Q (program.run device []).1 (program.run device []).2

namespace Driving

variable {α : Type} {m p : ℕ} {n : WORD} {program : Driver α} {s s' : Driving α}
  {a : DrivingAction}

/-- What holds between the steps of a transfer. -/
structure Goes (m p : ℕ) (n : WORD) (program : Driver α) (s : Driving α) : Prop where
  valid : s.kernel.Valid
  alloc : s.kernel.allocProcessTable p = true
  phase : s.kernel.Phase m p n s.program
  after : program.After s.trace s.program

theorem Goes.settle {r : DiskRequest} {rest : r.Answer → Driver α} {k : Kernel} {answer : r.Answer}
    (h : s.Goes m p n program) (hprogram : s.program = .ask r rest) (hvalid : k.Valid)
    (halloc : k.allocProcessTable p = true)
    (hphase : (k.resumePoint p = .code → k.Phase m p n (rest answer)) ∧
      (k.resumePoint p ≠ .code → k.Phase m p n (.ask r rest))) :
    (s.settle p r rest answer k).Goes m p n program := by
  have hafter := h.after
  rw [hprogram] at hafter
  unfold Driving.settle
  split
  next hat => exact ⟨hvalid, halloc, hphase.1 hat, hafter.snoc answer⟩
  next hat =>
    refine ⟨hvalid, halloc, ?_, h.after⟩
    rw [hprogram]
    exact hphase.2 hat

theorem Goes.step (h : s.Goes m p n program) (hstep : s.step m p a = some s') :
    s'.Goes m p n program := by
  cases a with
  | other a =>
    simp only [Driving.step, Option.ite_none_right_eq_some, Option.map_eq_some_iff] at hstep
    obtain ⟨hother, k, hk, rfl⟩ := hstep
    obtain ⟨hphase, halloc⟩ := h.phase.other h.valid hk hother h.alloc
    exact ⟨h.valid.step hk, halloc, hphase, h.after⟩
  | port answer =>
    cases hprogram : s.program with
    | ret x => simp [Driving.step, hprogram] at hstep
    | ask r rest =>
      simp only [Driving.step, hprogram, Option.ite_none_right_eq_some, Option.some.injEq] at hstep
      obtain ⟨⟨-, hcode, hport⟩, rfl⟩ := hstep
      have hphase := h.phase
      have hafter := h.after
      rw [hprogram] at hphase hafter
      exact ⟨h.valid, h.alloc, hphase.port hcode hport (answer r), hafter.snoc (answer r)⟩
  | call regs =>
    cases hprogram : s.program with
    | ret x => simp [Driving.step, hprogram] at hstep
    | ask r rest =>
      cases hc : r.kernelCall m with
      | none => simp [Driving.step, hprogram, hc] at hstep
      | some call =>
        obtain ⟨c, value⟩ := call
        simp only [Driving.step, hprogram, hc, Option.ite_none_right_eq_some,
          Option.map_eq_some_iff] at hstep
        obtain ⟨hrun, k, hk, rfl⟩ := hstep
        have hphase := h.phase
        rw [hprogram] at hphase
        refine h.settle hprogram (h.valid.step hk) ?_ (hphase.call h.valid hrun hc hk _)
        refine h.valid.alloc_kept hk (fun _ => nofun) (fun preIf => ?_) h.alloc
        rw [Kernel.call_code hk]
        exact nofun
  | resume regs =>
    cases hprogram : s.program with
    | ret x => simp [Driving.step, hprogram] at hstep
    | ask r rest =>
      cases hc : r.kernelCall m with
      | none => simp [Driving.step, hprogram, hc] at hstep
      | some call =>
        obtain ⟨c, value⟩ := call
        simp only [Driving.step, hprogram, hc, Option.ite_none_right_eq_some,
          Option.map_eq_some_iff] at hstep
        obtain ⟨hrun, k, hk, rfl⟩ := hstep
        have hphase := h.phase
        rw [hprogram] at hphase
        refine h.settle hprogram (h.valid.step hk) ?_ (hphase.resume h.valid hrun hk _)
        refine h.valid.alloc_kept hk (fun _ => nofun) (fun preIf => ?_) h.alloc
        rw [hrun]
        cases hphase with
        | before hat | waiting hat | inside hat | asleep hat => simp [hat]

theorem Goes.owner (h : s.Goes m p n program) {r : DiskRequest} {rest : r.Answer → Driver α}
    (hprogram : s.program = .ask r rest) (hr : r.MovesWord) : (s.kernel.mutex m).pid = p := by
  have hphase := h.phase
  rw [hprogram] at hphase
  exact hphase.owner hr

theorem Goes.returned (h : s.Goes m p n program) {x : α} (hprogram : s.program = .ret x) :
    s.kernel.nesting m p = n := by
  have hphase := h.phase
  rw [hprogram] at hphase
  cases hphase with
  | inside _ _ hbody => exact hbody.elim
  | after _ hnest => exact hnest

/-- The start of a transfer that takes the lock first. -/
theorem goes_start {k : Kernel} (hvalid : k.Valid) (hat : k.resumePoint p = .code)
    (halloc : k.allocProcessTable p = true) (hguarded : DiskDriver.Guarded program) :
    (start k program).Goes m p (k.nesting m p) program := by
  obtain ⟨rest, rfl, hbody⟩ := hguarded
  exact ⟨hvalid, halloc, .before hat rfl hbody, .nil⟩

end Driving

/-- A program that is guarded by the lock is safe, whatever happens around it. -/
theorem DiskDriver.Guarded.transferSafe {α : Type} {m : ℕ} {k : Kernel} {program : Driver α}
    {Q : List DiskEvent → α → Prop} (hguarded : Guarded program) (hvalid : k.Valid)
    (hat : k.resumePoint k.sched.runningProcess = .code) (hQ : program.Every Q) :
    TransferSafe m k.sched.runningProcess k program Q := by
  have hstart := Driving.goes_start (m := m) hvalid hat hvalid.running_alloc hguarded
  have hgoes {moves s} (hrun : Run (Driving.step m k.sched.runningProcess) anyStep
      (Driving.start k program) moves s) := hrun.invariant_moves hstart fun _ _ _ h _ => h.step
  constructor
  · intro moves s x hrun hprogram
    have hafter := (hgoes hrun).2.after
    rw [hprogram] at hafter
    exact hQ.returned hafter
  · intro moves s x hrun hprogram
    exact (hgoes hrun).2.returned hprogram
  · rintro moves s hrun move hmove ⟨answer, r, rest, -, hprogram, hr⟩
    exact ((hgoes hrun).1 move hmove).owner hprogram hr
  · intro device
    exact hQ.returned (Program.run_after device [] program)

namespace Kernel

/-- Transfers report exactly what was transferred, move words only with the mutex, and always
release it: for every run up to the call, every device and everything the others do. -/
theorem transfers_exact {b : Boot} {history : List (Move Kernel Action)} {k : Kernel}
    (hrun : KernelRun anyStep b history k) (hat : k.resumePoint k.sched.runningProcess = .code)
    (m : ℕ) (isPrimary isMaster : Bool) (LBA : DWORD) (buffer : Bytes) {sectorCount : BYTE} {n : ℕ}
    (hcount : sectorCount.toInt = n) :
    TransferSafe m k.sched.runningProcess k
        (DiskDriver.readSector isPrimary isMaster sectorCount LBA buffer)
        (DiskDriver.ReadExact isPrimary n buffer) ∧
      TransferSafe m k.sched.runningProcess k
        (DiskDriver.writeSector isPrimary isMaster sectorCount LBA buffer)
        (DiskDriver.WriteExact isPrimary n buffer) ∧
      TransferSafe m k.sched.runningProcess k
        (DiskDriver.readInformation isPrimary isMaster buffer) fun _ _ => True := by
  have hvalid : k.Valid := Reachable.valid ⟨b, history, hrun⟩
  refine ⟨DiskDriver.readSector_guarded.transferSafe hvalid hat
    (DiskDriver.readSector_exact hcount), DiskDriver.writeSector_guarded.transferSafe hvalid hat
    (DiskDriver.writeSector_exact hcount), DiskDriver.readInformation_guarded.transferSafe hvalid
    hat ?_⟩
  exact Program.every_true

/-- One sector, asked for right after the start. -/
theorem transfers_exact_first :
    TransferSafe 0 Boot.zero.start.sched.runningProcess Boot.zero.start
        (DiskDriver.readSector true false 1 7 fun _ => 0)
        (DiskDriver.ReadExact true 1 fun _ => 0) ∧
      TransferSafe 0 Boot.zero.start.sched.runningProcess Boot.zero.start
        (DiskDriver.writeSector true false 1 7 fun _ => 0)
        (DiskDriver.WriteExact true 1 fun _ => 0) ∧
      TransferSafe 0 Boot.zero.start.sched.runningProcess Boot.zero.start
        (DiskDriver.readInformation true false fun _ => 0) fun _ _ => True :=
  transfers_exact .start rfl 0 true false 7 (fun _ => 0) (by decide)

end Kernel
end SkhuOS
