import SkhuOS.Proc.Bystander

/-! How long `sleepProcess` sleeps. The deadline is a sum of 64-bit numbers that wraps around;
where it does not, the sleep ends with exactly the tick that was asked for. -/
namespace SkhuOS
open Foundation

/-- The ticks of `ms` milliseconds, rounded up. -/
def sleepTicks (ms : QWORD) : ℕ := (ms.toNat + 4) / 5

/-- The rounding does not wrap around, and the deadline does not either unless the next tick
takes the tick count around as well. -/
def DeadlineFits (tickCount ms : QWORD) : Prop :=
  ms.toNat + 4 < 2 ^ 64 ∧
    (tickCount.toNat + sleepTicks ms < 2 ^ 64 ∨ tickCount = BitVec.allOnes 64)

instance (tickCount ms : QWORD) : Decidable (DeadlineFits tickCount ms) :=
  inferInstanceAs (Decidable (_ ∧ _))

/-- The deadline in the source, without the wrap. -/
theorem deadline_toNat {ms : QWORD} (h : ms.toNat + 4 < 2 ^ 64) :
    ((ms + slotTime - 1) / slotTime).toNat = sleepTicks ms := by
  have hround : (ms + slotTime - 1).toNat = ms.toNat + 4 := by
    simp only [slotTime]
    bv_omega
  rw [BitVec.toNat_udiv, hround]
  rfl

/-- While fewer ticks have passed, the next one is the last exactly when the count reaches
the deadline. -/
theorem reaches_deadline_iff {tickCount ticks : QWORD} {t : ℕ} (ht : t < ticks.toNat)
    (hfits : tickCount.toNat + ticks.toNat < 2 ^ 64 ∨ tickCount = BitVec.allOnes 64) :
    tickCount + BitVec.ofNat 64 t + 1 ≥ tickCount + ticks ↔ t + 1 = ticks.toNat := by
  have hlt := ticks.isLt
  have hlt' := tickCount.isLt
  rw [ge_iff_le, BitVec.le_def, BitVec.toNat_add, BitVec.toNat_add, BitVec.toNat_add,
    BitVec.toNat_ofNat]
  rcases hfits with hfits | rfl
  · rw [Nat.mod_eq_of_lt hfits, Nat.mod_eq_of_lt (show t < 2 ^ 64 by omega),
      Nat.mod_eq_of_lt (show tickCount.toNat + t < 2 ^ 64 by omega)]
    have hone : (1 : QWORD).toNat = 1 := rfl
    rw [hone]
    omega
  · have hone : (1 : QWORD).toNat = 1 := rfl
    have hall : (BitVec.allOnes 64).toNat = 2 ^ 64 - 1 := rfl
    rw [hone, hall, Nat.mod_eq_of_lt (show t < 2 ^ 64 by omega)]
    omega

def Action.isTimer : Action → Bool
  | .timer _ => true
  | _ => false

/-- How many ticks a run has seen. -/
def ticksIn (history : List (Move Kernel Action)) : ℕ := history.countP fun m => m.label.isTimer

namespace Kernel

/-- The process sleeps until a deadline. -/
structure Asleep (p : ℕ) (deadline : QWORD) (k : Kernel) : Prop where
  member : k.roles.member p
  point : ∃ preIf, k.resumePoint p = .sleepProcess preIf
  blocked : (k.sched.pcb p).state = .blocked
  wakeupTick : (k.sched.pcb p).wakeupTick = deadline

variable {k k' : Kernel} {a : Action} {p : ℕ} {deadline : QWORD}
  {history : List (Move Kernel Action)}

/-- Only the timer wakes a sleeping process, and only when its time has come. -/
theorem Asleep.wakes (hasleep : Asleep p deadline k) (h : k.Valid) {d : Deed} (hd : k.Does a d)
    (hw : k.sched.plan.Wakes d p) : a.isTimer = true ∧ k.dueNext p = true := by
  obtain ⟨preIf, hpoint⟩ := hasleep.point
  cases d with
  | nothing | create q | block name | yield => exact hw.elim
  | handOver m next =>
    obtain ⟨-, ⟨rest, hfirst⟩, -⟩ := hd
    have hmem : p ∈ k.sched.roster (.waitList m) := by
      rw [hfirst, show p = next from hw]
      exact List.mem_cons_self
    obtain ⟨-, -, b, hlock⟩ := h.mem_waitList.mp hmem
    rw [hpoint] at hlock
    cases hlock
  | wake q =>
    obtain rfl : p = q := hw
    rcases hd with ⟨_, _, -, hq⟩ | ⟨isPrimary, _, -, hq⟩
    · exact absurd hq (h.not_keyWaiter hpoint (by simp))
    · exact absurd hq (h.not_diskWaiter hpoint (by simp))
  | tick due =>
    obtain ⟨⟨frame, rfl⟩, rfl⟩ := hd
    exact ⟨rfl, hw.1⟩
  | exit c =>
    obtain rfl : p = c := hw
    exact absurd hd.2.1 (h.not_collector hpoint (by simp) (by simp))

theorem Asleep.step (hasleep : Asleep p deadline k) (h : k.Valid) (hstep : k.step a = some k')
    (hnot : a.isTimer = true → k.dueNext p = false) : Asleep p deadline k' := by
  obtain ⟨preIf, hpoint⟩ := hasleep.point
  have hrun : p ≠ k.sched.runningProcess := h.blocked_ne_running hasleep.member hasleep.blocked
  have haside := h.step_aside hstep hrun hasleep.member.1 (by simp [hpoint])
  obtain ⟨hmember, hsame, htick⟩ := h.aside_kept hstep haside hasleep.member
  obtain ⟨d, hd, hplan⟩ := h.performs hstep
  have hw : ¬ k.sched.plan.Wakes d p := by
    intro hw
    obtain ⟨ha, hdue⟩ := hasleep.wakes h hd hw
    rw [hnot ha] at hdue
    cases hdue
  refine ⟨hmember, ⟨preIf, hsame.trans hpoint⟩, ?_, htick.trans hasleep.wakeupTick⟩
  show k'.sched.plan.states p = .blocked
  rw [hplan]
  exact h.after_blocked hd hasleep.member hasleep.blocked hw

/-- The running process sleeps behind `sleepUntilTick`, and its deadline is noted. -/
theorem Valid.sleepUntilTick_asleep (h : k.Valid)
    (hrun : k.sched.runningProcess ≠ k.sched.idleProcess) (tick : QWORD) (regs : ProcessContext) :
    (k.sched.sleepUntilTick tick regs).idleProcess = k.sched.idleProcess ∧
      ((k.sched.sleepUntilTick tick regs).pcb k.sched.runningProcess).state = .blocked ∧
      (k.sched.sleepUntilTick tick regs).time k.sched.runningProcess =
        (k.sched.tickCount, tick) := by
  have hplan := h.settled.sleepUntilTick_refines hrun tick regs
  have hready : k.sched.runningProcess ∉ (k.sched.plan.append .sleepList
      k.sched.runningProcess).roster .processList := by
    have hout : k.sched.runningProcess ∉ k.sched.roster .processList := h.settled.running_not_mem
    simpa [Plan.append] using hout
  refine ⟨congrArg Plan.idle hplan, ?_, ?_⟩
  · show (k.sched.sleepUntilTick tick regs).plan.states k.sched.runningProcess = .blocked
    rw [hplan, Plan.dispatch_states ((k.sched.plan.append .sleepList
      k.sched.runningProcess).setState k.sched.runningProcess .blocked) hready hrun]
    exact Function.update_self _ _ _
  · have hclock := congrArg (fun c => (c.1, c.2 k.sched.runningProcess))
      (k.sched.sleepUntilTick_clock tick regs)
    dsimp only at hclock
    rw [Function.update_self] at hclock
    exact hclock

/-- The caller of `sleepProcess` is asleep behind the call. -/
theorem Valid.sleepProcess_asleep (h : k.Valid) {ms : QWORD} (hmay : k.MayCall (.sleepProcess ms))
    (regs : ProcessContext) :
    Asleep k.sched.runningProcess (k.sched.tickCount + (ms + slotTime - 1) / slotTime)
        (k.sleepProcess ms regs) ∧
      (k.sleepProcess ms regs).sched.tickCount = k.sched.tickCount := by
  obtain ⟨hidle, hblocked, htime⟩ := (h.setIf false).sleepUntilTick_asleep hmay.2.1
    (k.sched.tickCount + (ms + slotTime - 1) / slotTime) regs
  have hmember := h.running_member hmay.2.1
  refine ⟨⟨⟨hmember.1, ?_⟩, ⟨(k.setIf false).1, Function.update_self _ _ _⟩, hblocked,
    congrArg Prod.snd htime⟩, congrArg Prod.fst htime⟩
  rw [show (k.sleepProcess ms regs).sched.idleProcess = k.sched.idleProcess from hidle]
  exact hmember.2

/-- The states after the calls that run through a timer interrupt: who is woken is ready, and
may get the processor at once. -/
theorem Valid.timer_wakes (h : k.Valid) {frame : ProcessContext}
    (hstep : k.step (.timer frame) = some k') (hp : k.roles.member p)
    (hs : (k.sched.pcb p).state = .blocked) (hm : p ∈ k.sched.roster .sleepList)
    (hdue : k.dueNext p = true) :
    (((k.ticked (.timer frame)).sched.wakeExpiredProcess).pcb p).state = .ready ∧
      ((k'.sched.pcb p).state = .ready ∨ k'.sched.runningProcess = p) := by
  have hvalid := h.step hstep
  have htick : (k.ticked (.timer frame)).sched.Settled k.roles := h.settled.congr rfl rfl rfl
  have hrun : p ≠ k.sched.runningProcess := h.blocked_ne_running hp hs
  set π := k.sched.plan.wakeAll k.dueNext (k.sched.plan.roster .sleepList) with hπ
  have hwoken : (k.ticked (.timer frame)).sched.wakeExpiredProcess.plan = π :=
    (Scheduler.wakeExpiredProcess_refines htick.linked).2
  have hstate : π.states p = .ready := by
    rw [hπ, Plan.wakeAll_states]
    exact if_pos ⟨hm, hdue, hs⟩
  obtain ⟨d, hd, hplan⟩ := h.performs hstep
  have htimeout : k'.sched.plan = π.timeout := by
    cases d with
    | tick due =>
      rw [hplan, hd.2]
      rfl
    | nothing => exact absurd rfl (hd frame)
    | block name => exact absurd rfl (hd.2.2 frame)
    | create q =>
      obtain ⟨-, -, c, regs, ha, -⟩ := hd
      cases ha
    | handOver m next =>
      obtain ⟨-, -, regs, ha⟩ := hd
      cases ha
    | wake q => rcases hd with ⟨_, _, ha, -⟩ | ⟨_, _, ha, -⟩ <;> cases ha
    | yield =>
      obtain ⟨-, regs, ha⟩ := hd
      cases ha
    | exit c =>
      obtain ⟨-, -, regs, ha⟩ := hd
      cases ha
  constructor
  · show (k.ticked (.timer frame)).sched.wakeExpiredProcess.plan.states p = .ready
    rw [hwoken, hstate]
  · by_cases hnow : k'.sched.runningProcess = p
    · exact .inr hnow
    · left
      show k'.sched.plan.states p = .ready
      have hnow' : p ≠ π.timeout.running := by
        rintro rfl
        exact hnow (congrArg Plan.running htimeout)
      have hrun' : p ≠ π.running := by
        rw [hπ, (Plan.wakeAll_same _ _ _).1]
        exact hrun
      rw [htimeout, Plan.timeout_states_of_ne hnow' hrun', hstate]

/-- A sleep of `ms` milliseconds that starts in `k` is exact: the caller stays blocked while
fewer ticks have passed, and the tick that completes them makes it ready. The same interrupt
may go on to give it the processor. -/
structure SleepExact (k : Kernel) (ms : QWORD) (regs : ProcessContext) : Prop where
  lasts : ∀ history k', Run Kernel.step anyStep (k.sleepProcess ms regs) history k' →
    ticksIn history < sleepTicks ms → (k'.sched.pcb k.sched.runningProcess).state = .blocked
  ends : ∀ history k' frame k'', Run Kernel.step anyStep (k.sleepProcess ms regs) history k' →
    ticksIn history + 1 = sleepTicks ms → k'.step (.timer frame) = some k'' →
      (((k'.ticked (.timer frame)).sched.wakeExpiredProcess).pcb k.sched.runningProcess).state =
          .ready ∧
        ((k''.sched.pcb k.sched.runningProcess).state = .ready ∨
          k''.sched.runningProcess = k.sched.runningProcess)

theorem ticksIn_snoc (m : Move Kernel Action) :
    ticksIn (history ++ [m]) = ticksIn history + if m.label.isTimer then 1 else 0 := by
  simp [ticksIn, List.countP_append, List.countP_singleton]

/-- The tick count grows with the ticks of the run. -/
theorem Valid.step_ticksIn (h : k.Valid) (hstep : k.step a = some k') {start : QWORD}
    (htick : k.sched.tickCount = start + BitVec.ofNat 64 (ticksIn history)) :
    k'.sched.tickCount = start + BitVec.ofNat 64 (ticksIn (history ++ [⟨k, a, k'⟩])) := by
  rw [h.step_tickCount hstep, ticksIn_snoc]
  cases a with
  | timer frame =>
    show k.sched.tickCount + 1 = _
    rw [htick, BitVec.add_assoc, show (1 : QWORD) = BitVec.ofNat 64 1 from rfl,
      ← BitVec.ofNat_add]
    rfl
  | _ => exact htick

theorem Valid.asleep_run (h : k.Valid) {ms : QWORD} (hmay : k.MayCall (.sleepProcess ms))
    (hfits : DeadlineFits k.sched.tickCount ms) {regs : ProcessContext}
    (hrun : Run Kernel.step anyStep (k.sleepProcess ms regs) history k') :
    k'.Valid ∧ (ticksIn history < sleepTicks ms →
      Asleep k.sched.runningProcess (k.sched.tickCount + (ms + slotTime - 1) / slotTime) k' ∧
        k'.sched.tickCount = k.sched.tickCount + BitVec.ofNat 64 (ticksIn history)) := by
  have hticks := deadline_toNat hfits.1
  apply hrun.history_invariant (P := fun past t => t.Valid ∧ (ticksIn past < sleepTicks ms →
    Asleep k.sched.runningProcess (k.sched.tickCount + (ms + slotTime - 1) / slotTime) t ∧
      t.sched.tickCount = k.sched.tickCount + BitVec.ofNat 64 (ticksIn past)))
  · refine ⟨h.sleepProcess hmay ms regs, fun _ => ?_⟩
    obtain ⟨hasleep, htick⟩ := h.sleepProcess_asleep hmay regs
    exact ⟨hasleep, htick.trans (BitVec.add_zero _).symm⟩
  · intro past t a u _ hpast _ hstep
    obtain ⟨hvalid, hpast⟩ := hpast
    refine ⟨hvalid.step hstep, fun hlt => ?_⟩
    have hfewer : ticksIn past < sleepTicks ms := by
      rw [ticksIn_snoc] at hlt
      omega
    obtain ⟨hasleep, htick⟩ := hpast hfewer
    have hnot : a.isTimer = true → t.dueNext k.sched.runningProcess = false := by
      intro ha
      rw [ticksIn_snoc, if_pos ha] at hlt
      unfold dueNext
      rw [hasleep.wakeupTick, htick, decide_eq_false_iff_not,
        reaches_deadline_iff (by omega) (by rw [hticks]; exact hfits.2)]
      omega
    exact ⟨hasleep.step hvalid hstep hnot, hvalid.step_ticksIn hstep htick⟩

/-- Where the deadline does not wrap around, a sleep is never shorter than requested, whatever
the other processes and the interrupts do, and it ends with the first tick it may end with. -/
theorem sleep_exact (h : Reachable k) {ms : QWORD} (hmay : k.MayCall (.sleepProcess ms))
    (hfits : DeadlineFits k.sched.tickCount ms) (regs : ProcessContext) :
    k.SleepExact ms regs := by
  have hticks := deadline_toNat hfits.1
  constructor
  · intro history k' hrun hlt
    exact ((h.valid.asleep_run hmay hfits hrun).2 hlt).1.blocked
  · intro history k' frame k'' hrun heq hstep
    obtain ⟨hvalid, hasleep⟩ := h.valid.asleep_run hmay hfits hrun
    obtain ⟨hasleep, htick⟩ := hasleep (by omega)
    obtain ⟨preIf, hpoint⟩ := hasleep.point
    have hmem : k.sched.runningProcess ∈ k'.sched.roster .sleepList := by
      apply (hvalid.settled.plan.placed.mem_iff _ .sleepList).mpr
      have hs : k'.sched.plan.states k.sched.runningProcess = .blocked := hasleep.blocked
      exact ⟨hasleep.member, by simp [Plan.home, hs, roles, hpoint, ResumePoint.list]⟩
    apply hvalid.timer_wakes hstep hasleep.member hasleep.blocked hmem
    unfold dueNext
    rw [hasleep.wakeupTick, htick, decide_eq_true_iff,
      reaches_deadline_iff (by omega) (by rw [hticks]; exact hfits.2), hticks]
    exact heq

/-- The timer interrupts `k`. -/
def tickOf (k : Kernel) : Kernel :=
  k.interrupt (fun _ => 0) fun k => { k with sched := k.sched.timerInterruptHandler }

def tickMove (k : Kernel) : Move Kernel Action := ⟨k, .timer fun _ => 0, k.tickOf⟩

theorem tickMove_run {s : Kernel} (hif : s.sched.interruptFlag = true) :
    Run Kernel.step anyStep s [s.tickMove] s.tickOf := by
  have hstep : s.step (.timer fun _ => 0) = some s.tickOf := by
    simp only [Kernel.step]
    exact if_pos hif
  exact Run.start.next trivial hstep

theorem sleep_exact_start : (dozing.tickOf.sched.pcb 0).state = .blocked := by
  have hexact := sleep_exact ⟨Boot.zero, [], .start⟩
    (show Boot.zero.start.MayCall (.sleepProcess 10) by decide +kernel) (by decide +kernel)
    fun _ => 0
  exact hexact.lasts _ _ (tickMove_run (by decide +kernel)) (by decide)

/-- Asked to sleep for `2 ^ 64 - 1` milliseconds, the shell is awake after one tick. -/
theorem sleep_cut_short : Boot.zero.start.MayCall (.sleepProcess (BitVec.allOnes 64)) ∧
    ¬ Boot.zero.start.SleepExact (BitVec.allOnes 64) fun _ => 0 := by
  refine ⟨by decide +kernel, fun hexact => ?_⟩
  have hblocked := hexact.lasts _ _ (tickMove_run (by decide +kernel)) (by decide +kernel)
  exact absurd hblocked (by decide +kernel)

end Kernel
end SkhuOS
