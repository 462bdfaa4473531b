import SkhuOS.Proc.Refine
import SkhuOS.Proc.Kernel

/-! The switch paths of the scheduler keep every process in its place: what the plan's
operations keep, the functions of `Process.c` keep, since they refine them. -/
namespace SkhuOS
namespace Scheduler

/-- The lists are intact and hold what the roles of the processes say. -/
structure Settled (s : Scheduler) (r : Roles) : Prop where
  linked : s.Linked
  plan : s.plan.Settled r

variable {s t : Scheduler} {r r' : Roles} {p : ℕ} {name : ListName}

theorem wakeup_sides {holder : Option ℕ} (h : s.plan.Placed r holder)
    (hp : r.member p) (hw : r.waits p = none ∨ r.waits p = some .sleepList) :
    (s.link p).id = p ∧
      ((s.pcb p).state = .blocked → ∀ name, p ∈ s.roster name → name = .sleepList) := by
  refine ⟨h.id_eq p hp, fun hs name hm => ?_⟩
  have hhome := ((h.mem_iff p name).mp hm).2
  have hs' : s.plan.states p = .blocked := hs
  rw [Plan.home, hs'] at hhome
  rcases hw with hw | hw
  · simp [hw] at hhome
  · simpa [hw, eq_comm] using hhome

/-- `createProcess` appends the slot it fills, under its own number. -/
theorem addProcess_refines (h : s.Linked) (hp : ∀ name, p ∉ s.roster name)
    (entryPoint arg : QWORD) : (s.addProcess p entryPoint arg).Linked ∧
      (s.addProcess p entryPoint arg).plan =
        ({ s.plan with ids := Function.update s.plan.ids p p }.setState p .ready).append
          .processList p := by
  set s1 : Scheduler := { s with link := Function.update s.link p { s.link p with id := p } } with hs1
  have hlink {q : ℕ} (hq : q ≠ p) : s1.link q = s.link q := by simp [hs1, hq]
  obtain ⟨hl1, hr1⟩ := linked_of_represents (s := s1) (f := s.roster)
    (fun name => (h.represents name).congr fun q hq => hlink (ne_of_mem_of_not_mem hq (hp name)))
    (fun _ _ _ => h.one_list)
    (fun name q hq => by rw [hlink (ne_of_mem_of_not_mem hq (hp name))]; exact h.id_eq hq)
  set s2 := (s1.setUpProcess p entryPoint (BitVec.ofNat 64 (processStackBase + processStackInterval * p))
    (BitVec.ofNat 64 processStackSize)).modifyPcb p fun pcb =>
      { pcb with context := Function.update pcb.context regRDI arg } with hs2
  have hplan2 : s2.plan = { s.plan with ids := Function.update s.plan.ids p p } := by
    refine (modifyPcb_plan ?_).trans ((modifyPcb_plan ?_).trans ?_)
    · rfl
    · rfl
    have hids : s1.plan.ids = Function.update s.plan.ids p p := by
      funext q
      by_cases hq : q = p
      · subst hq; simp [plan, hs1]
      · simp [plan, hs1, hq]
    rw [← hids]
    simp only [plan, hr1]
    rfl
  have hnot (name : ListName) : p ∉ (s2.setState p .ready).roster name := by
    have hr2 : s2.roster = s.roster := congrArg Plan.roster hplan2
    rw [setState_roster, hr2]
    exact hp name
  have hid : ((s2.setState p .ready).link p).id = p := by
    show (s1.link p).id = p
    simp [hs1]
  obtain ⟨hl, hplan⟩ := insertList_refines (s := s2.setState p .ready) (hl1.congr rfl rfl) hnot hid
    .processList
  refine ⟨hl, ?_⟩
  rw [← hplan2, ← setState_plan, ← hplan]
  rfl

namespace Settled

variable (h : s.Settled r)

include h

theorem congr (hlink : t.link = s.link) (hlist : t.list = s.list) (hplan : t.plan = s.plan) :
    t.Settled r :=
  ⟨h.linked.congr hlink hlist, hplan ▸ h.plan⟩

theorem congr_off (hoff : r.AgreeOff r' s.runningProcess) (hrun : ¬ r'.exited s.runningProcess) :
    s.Settled r' :=
  ⟨h.linked, h.plan.congr_off hoff hrun⟩

theorem running_mem (hrun : s.runningProcess ≠ s.idleProcess) : r.member s.runningProcess :=
  h.plan.running_mem hrun

theorem running_not_mem : s.runningProcess ∉ s.roster name := h.plan.placed.holder_not_mem

theorem running_id (hrun : s.runningProcess ≠ s.idleProcess) :
    (s.link s.runningProcess).id = s.runningProcess :=
  h.plan.placed.id_eq _ (h.running_mem hrun)

theorem running_state (hrun : s.runningProcess ≠ s.idleProcess) :
    (s.pcb s.runningProcess).state = .running :=
  (h.plan.placed.running_iff _ (h.running_mem hrun)).mpr rfl

/-- The running process blocks in no list. -/
theorem blockRunningProcess (hw : r.waits s.runningProcess = none)
    (hblocks : r.blocks s.runningProcess) (hexit : ¬ r.exited s.runningProcess)
    (regs : ProcessContext) : (s.blockRunningProcess regs).Settled r := by
  obtain ⟨hl, hp⟩ := blockRunningProcess_refines h.linked regs
  have hparked := h.plan.placed.park .blocked
    (show r.AgreeOff r _ from ⟨rfl, rfl, fun _ _ => Iff.rfl, fun _ _ => rfl, fun _ _ => Iff.rfl⟩) (by simp) (by simp)
    (fun _ => ⟨hw, hblocks⟩) (by simpa using hexit)
  refine ⟨hl, ?_⟩
  rw [hp]
  exact hparked.dispatch h.plan.idle_eq

theorem block_in_refines (hrun : s.runningProcess ≠ s.idleProcess) (name : ListName)
    (regs : ProcessContext) :
    ((s.insertList name s.runningProcess).blockRunningProcess regs).Linked ∧
      ((s.insertList name s.runningProcess).blockRunningProcess regs).plan =
        ((s.plan.append name s.runningProcess).setState s.runningProcess .blocked).dispatch := by
  obtain ⟨hil, hip⟩ := insertList_refines h.linked (fun _ => h.running_not_mem)
    (h.running_id hrun) name
  rw [← hip]
  exact blockRunningProcess_refines hil regs

/-- The running process blocks at the end of a list. -/
theorem block_in (name : ListName) (hrun : s.runningProcess ≠ s.idleProcess) (hblocks : r.blocks s.runningProcess)
    (hw : r.waits s.runningProcess = some name) (regs : ProcessContext) :
    ((s.insertList name s.runningProcess).blockRunningProcess regs).Settled r := by
  obtain ⟨hl, hp⟩ := h.block_in_refines hrun name regs
  have hparked := h.plan.placed.enroll .blocked name (h.running_mem hrun)
    (fun _ => hblocks) (by simpa [Plan.home, Plan.setState] using hw)
  refine ⟨hl, ?_⟩
  rw [hp]
  exact hparked.dispatch h.plan.idle_eq

theorem wakeupTick_settled (tick : QWORD) :
    (s.modifyPcb s.runningProcess fun pcb => { pcb with wakeupTick := tick }).Settled r :=
  h.congr rfl rfl (modifyPcb_plan (f := fun pcb => { pcb with wakeupTick := tick }) rfl)

theorem sleepUntilTick_refines (hrun : s.runningProcess ≠ s.idleProcess) (tick : QWORD)
    (regs : ProcessContext) : (s.sleepUntilTick tick regs).plan =
      ((s.plan.append .sleepList s.runningProcess).setState s.runningProcess .blocked).dispatch := by
  have hsame : (s.modifyPcb s.runningProcess fun pcb => { pcb with wakeupTick := tick }).plan =
      s.plan := modifyPcb_plan (f := fun pcb => { pcb with wakeupTick := tick }) rfl
  rw [← hsame]
  exact ((h.wakeupTick_settled tick).block_in_refines hrun .sleepList regs).2

theorem sleepUntilTick (hrun : s.runningProcess ≠ s.idleProcess)
    (hblocks : r.blocks s.runningProcess) (hw : r.waits s.runningProcess = some .sleepList)
    (tick : QWORD) (regs : ProcessContext) : (s.sleepUntilTick tick regs).Settled r :=
  (h.wakeupTick_settled tick).block_in _ hrun hblocks hw regs

/-- The running process exits. -/
theorem exit_running (hoff : r.AgreeOff r' s.runningProcess) (hexit : r'.exited s.runningProcess)
    (regs : ProcessContext) :
    ((s.setState s.runningProcess .exit).scheduleBlocked regs).Settled r' := by
  obtain ⟨hl, hp⟩ := scheduleBlocked_refines (h.linked.setState s.runningProcess .exit) regs
  have hparked := h.plan.placed.park .exit hoff (by simp) (by simp) (by simp)
    (by simpa using hexit)
  refine ⟨hl, ?_⟩
  rw [hp, setState_plan]
  exact hparked.dispatch (h.plan.idle_eq.trans hoff.idle.symm)

theorem wakeupProcess_refines (hp : r.member p)
    (hw : r.waits p = none ∨ r.waits p = some .sleepList) :
    (s.wakeupProcess (some p)).2.Linked ∧
      (s.wakeupProcess (some p)).2.plan = s.plan.wakeup p := by
  obtain ⟨hid, hout⟩ := wakeup_sides h.plan.placed hp hw
  exact Scheduler.wakeupProcess_refines h.linked hid hout

theorem wakeupProcess (pcb : Option ℕ) (hpcb : ∀ p, pcb = some p →
      r.member p ∧ (r.waits p = none ∨ r.waits p = some .sleepList)) :
    (s.wakeupProcess pcb).2.Settled r := by
  cases pcb with
  | none => exact h
  | some p =>
    obtain ⟨hp, hw⟩ := hpcb p rfl
    obtain ⟨hl, hplan⟩ := h.wakeupProcess_refines hp hw
    exact ⟨hl, by rw [hplan]; exact h.plan.wakeup hp hw⟩

theorem timeoutSchedule_refines :
    s.timeoutSchedule.Linked ∧ s.timeoutSchedule.plan = s.plan.timeout :=
  Scheduler.timeoutSchedule_refines h.linked fun hrun =>
    ⟨fun _ => h.running_not_mem, h.running_id hrun⟩

theorem timeoutSchedule : s.timeoutSchedule.Settled r := by
  obtain ⟨hl, hp⟩ := h.timeoutSchedule_refines
  exact ⟨hl, by rw [hp]; exact h.plan.timeout⟩

theorem wakeupProcessInInterrupt (pcb : Option ℕ) (hpcb : ∀ p, pcb = some p →
      r.member p ∧ (r.waits p = none ∨ r.waits p = some .sleepList)) :
    (s.wakeupProcessInInterrupt pcb).Settled r := by
  have hwoken := h.wakeupProcess pcb hpcb
  simp only [Scheduler.wakeupProcessInInterrupt]
  split
  · exact hwoken.timeoutSchedule
  · exact hwoken

theorem wakeExpiredProcess : s.wakeExpiredProcess.Settled r := by
  obtain ⟨hl, hp⟩ := Scheduler.wakeExpiredProcess_refines h.linked
  refine ⟨hl, ?_⟩
  rw [hp]
  exact h.plan.wakeAll s.due

theorem timerInterruptHandler : s.timerInterruptHandler.Settled r := by
  have htick : { s with tickCount := s.tickCount + 1 }.Settled r := h.congr rfl rfl rfl
  exact htick.wakeExpiredProcess.timeoutSchedule

theorem yieldTo (hrun : s.runningProcess ≠ s.idleProcess) (regs : ProcessContext) :
    (s.yieldTo regs).Settled r := by
  obtain ⟨hl, hp⟩ := Scheduler.yieldTo_refines h.linked regs (fun _ => h.running_not_mem) (h.running_id hrun)
  refine ⟨hl, ?_⟩
  rw [hp]
  exact h.plan.rotate hrun

/-- A free slot becomes a process of its own. -/
theorem addProcess (r' : Roles) (hp : ¬ r.member p) (hrun : p ≠ s.runningProcess)
    (hmem : ∀ q, r'.member q ↔ r.member q ∨ q = p) (hidle : r'.idle = r.idle)
    (hw : ∀ q, q ≠ p → r'.waits q = r.waits q) (hb : ∀ q, q ≠ p → (r'.blocks q ↔ r.blocks q))
    (he : ∀ q, q ≠ p → (r'.exited q ↔ r.exited q)) (hnew : ¬ r'.exited p) (entryPoint arg : QWORD) :
    (s.addProcess p entryPoint arg).Settled r' := by
  obtain ⟨hl, hplan⟩ := addProcess_refines h.linked
    (fun name => h.plan.placed.not_mem fun hm => absurd hm hp) entryPoint arg
  refine ⟨hl, ?_⟩
  rw [hplan]
  refine ⟨h.plan.placed.join hp (by simpa using hrun.symm) hmem hw hb he hnew, fun hne => ?_,
    h.plan.idle_eq.trans hidle.symm⟩
  exact (hmem _).mpr (.inl (h.plan.running_mem hne))

/-- An exited process disappears. -/
theorem leave (hp : (s.pcb p).state = .exit) (hrun : p ≠ s.runningProcess)
    (hmem : r'.member = fun q => r.member q ∧ q ≠ p) (hidle : r'.idle = r.idle)
    (hw : r'.waits = r.waits) (hb : r'.blocks = r.blocks) (he : r'.exited = r.exited) :
    s.Settled r' := by
  have hgone := h.plan.placed.leave (p := p) hp
  refine ⟨h.linked, hgone.congr hmem (fun _ _ _ => ⟨congrFun hw _, fun hq => by rw [hb]; exact hq⟩) (fun _ _ => by rw [he]),
    fun hne => ?_, h.plan.idle_eq.trans hidle.symm⟩
  rw [hmem]
  exact ⟨h.plan.running_mem hne, hrun.symm⟩

theorem headRemove_none (hq : s.headRemove name = (none, t)) : t.Settled r := by
  obtain ⟨hfst, hl, hp⟩ := headRemove_refines h.linked name
  rw [hq] at hfst hl hp
  have hnil : s.plan.roster name = [] := List.head?_eq_none_iff.mp hfst.symm
  exact ⟨hl, by rw [show t.plan = s.plan from hp.trans (Plan.behead_of_nil hnil)]; exact h.plan⟩

theorem wakeup_first_refines {next : ℕ} (hpair : s.headRemove name = (some next, t)) :
    (∃ rest, s.roster name = next :: rest) ∧ (t.wakeupProcess (some next)).2.Linked ∧
      (t.wakeupProcess (some next)).2.plan = (s.plan.behead name).wakeup next := by
  obtain ⟨hfst, hl, hp⟩ := headRemove_refines h.linked name
  obtain rfl : (s.headRemove name).2 = t := by rw [hpair]
  rw [hpair] at hfst
  obtain ⟨rest, hq⟩ : ∃ rest, s.roster name = next :: rest :=
    List.head?_eq_some_iff.mp hfst.symm
  have hmem : next ∈ s.roster name := by simp [hq]
  have hnodup := h.linked.nodup name
  rw [hq, List.nodup_cons] at hnodup
  have hout (other : ListName) : next ∉ (s.headRemove name).2.roster other := by
    have hr : (s.headRemove name).2.roster = (s.plan.behead name).roster := by rw [← hp]; rfl
    rw [hr]
    by_cases ho : other = name
    · subst ho; simpa [Plan.behead, hq] using hnodup.1
    · simp only [Plan.behead, Function.update_of_ne ho]
      exact fun hm => ho (h.linked.one_list hm hmem)
  have hid : ((s.headRemove name).2.link next).id = next := by
    simpa [headRemove] using h.linked.id_eq hmem
  obtain ⟨hwl, hwp⟩ := Scheduler.wakeupProcess_refines hl hid fun _ other hm => absurd hm (hout other)
  exact ⟨⟨rest, hq⟩, hwl, by rw [hwp, hp]⟩

/-- The first waiter of another list than the ready list is taken out and woken. -/
theorem wakeup_first (hname : name ≠ .processList) {next : ℕ}
    (hpair : s.headRemove name = (some next, t)) :
    (t.wakeupProcess (some next)).2.Settled r := by
  obtain ⟨⟨rest, hq⟩, hl, hp⟩ := h.wakeup_first_refines hpair
  exact ⟨hl, by rw [hp]; exact h.plan.wakeup_first hname hq⟩

end Settled
end Scheduler
end SkhuOS
