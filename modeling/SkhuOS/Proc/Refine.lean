import SkhuOS.Proc.Plan
import SkhuOS.Proc.Roster

/-! The scheduler refines its plan: read through `plan`, each of its functions is the
plan's operation, as long as what it appends is in no list. -/
namespace SkhuOS
namespace Scheduler
open Foundation

variable (s : Scheduler)

def plan : Plan where
  roster := s.roster
  states := fun p => (s.pcb p).state
  ids := fun p => (s.link p).id
  running := s.runningProcess
  idle := s.idleProcess

@[simp] theorem plan_roster : s.plan.roster = s.roster := rfl
@[simp] theorem plan_running : s.plan.running = s.runningProcess := rfl
@[simp] theorem plan_idle : s.plan.idle = s.idleProcess := rfl

variable {s} {p next : ℕ} {name : ListName}

theorem setState_plan (p : ℕ) (state : ProcessState) :
    (s.setState p state).plan = s.plan.setState p state := by
  have hstates : (fun q => ((s.setState p state).pcb q).state) =
      Function.update (fun q => (s.pcb q).state) p state := by
    funext q; simp [Function.update_apply]
  simp only [plan, Plan.setState, hstates]
  rfl

/-- A change of other PCB fields does not show. -/
theorem modifyPcb_plan {f : PCB → PCB} (hf : (f (s.pcb p)).state = (s.pcb p).state) :
    (s.modifyPcb p f).plan = s.plan := by
  have hstates : (fun q => ((s.modifyPcb p f).pcb q).state) = fun q => (s.pcb q).state := by
    funext q
    simp only [modifyPcb_pcb]
    split
    next h => rw [hf, h]
    next => rfl
  simp only [plan, hstates]
  rfl

theorem switchContext_plan (p next : ℕ) (regs : ProcessContext) :
    (s.switchContext p next regs).plan = s.plan :=
  modifyPcb_plan (s := s) (f := fun pcb => { pcb with context := withIf regs s.interruptFlag }) rfl

/-- Appending a process that is in no list. -/
theorem insertList_refines (h : s.Linked) (hp : ∀ name, p ∉ s.roster name)
    (hid : (s.link p).id = p) (name : ListName) :
    (s.insertList name p).Linked ∧ (s.insertList name p).plan = s.plan.append name p := by
  obtain ⟨hlinked, hroster⟩ := insertList_linked h hp hid name
  refine ⟨hlinked, ?_⟩
  simp only [plan, hroster, Plan.append]
  simp [insertList]

theorem removeList_refines (h : s.Linked) (name : ListName) (p : ℕ) :
    (s.removeList name p).2.Linked ∧ (s.removeList name p).2.plan = s.plan.remove name p := by
  obtain ⟨hlinked, hroster⟩ := removeList_linked h name p
  refine ⟨hlinked, ?_⟩
  simp only [plan, hroster, Plan.remove]
  simp [removeList]

theorem headRemove_refines (h : s.Linked) (name : ListName) :
    (s.headRemove name).1 = (s.plan.roster name).head? ∧ (s.headRemove name).2.Linked ∧
      (s.headRemove name).2.plan = s.plan.behead name := by
  obtain ⟨hfst, hlinked, hroster⟩ := headRemove_linked h name
  refine ⟨hfst, hlinked, ?_⟩
  simp only [plan, hroster, Plan.behead]
  simp [headRemove]

theorem Linked.setState (h : s.Linked) (p : ℕ) (state : ProcessState) :
    (s.setState p state).Linked := h.congr rfl rfl

theorem makeRunning_plan (s : Scheduler) (next : ℕ) :
    (s.makeRunning next).plan = s.plan.run next := by
  rw [Plan.run, ← setState_plan]
  rfl

/-- `scheduleBlocked` gives the processor to the first ready process, or to idle. -/
theorem scheduleBlocked_refines (h : s.Linked) (regs : ProcessContext) :
    (s.scheduleBlocked regs).Linked ∧ (s.scheduleBlocked regs).plan = s.plan.dispatch := by
  obtain ⟨hfst, hlinked, hplan⟩ := headRemove_refines h .processList
  refine ⟨hlinked.congr rfl rfl, ?_⟩
  simp only [scheduleBlocked]
  rw [switchContext_plan, makeRunning_plan, hplan, hfst]
  rfl

theorem blockRunningProcess_refines (h : s.Linked) (regs : ProcessContext) :
    (s.blockRunningProcess regs).Linked ∧
      (s.blockRunningProcess regs).plan = (s.plan.setState s.runningProcess .blocked).dispatch := by
  rw [← setState_plan]
  exact scheduleBlocked_refines (h.setState s.runningProcess .blocked) regs

theorem wakeupProcess_of_not_blocked (hs : (s.pcb p).state ≠ .blocked) :
    s.wakeupProcess (some p) = (false, s) := by simp [wakeupProcess, hs]

/-- Waking a process that is in no list but the sleep list. -/
theorem wakeupProcess_refines (h : s.Linked) (hid : (s.link p).id = p)
    (hout : (s.pcb p).state = .blocked → ∀ name, p ∈ s.roster name → name = .sleepList) :
    (s.wakeupProcess (some p)).2.Linked ∧
      (s.wakeupProcess (some p)).2.plan = s.plan.wakeup p := by
  by_cases hb : (s.pcb p).state = .blocked
  · obtain ⟨hlinked, hplan⟩ := removeList_refines h .sleepList p
    set t := (s.removeList .sleepList p).2 with ht
    have hnot (name : ListName) : p ∉ (t.setState p .ready).roster name := by
      have hroster : t.roster = (s.plan.remove .sleepList p).roster := by rw [← hplan]; rfl
      rw [setState_roster, hroster]
      by_cases hn : name = .sleepList
      · subst hn
        simp only [Plan.remove, Function.update_self]
        exact fun hm => (h.nodup _).not_mem_erase hm
      · simp only [Plan.remove, Function.update_of_ne hn]
        exact fun hm => hn (hout hb name hm)
    have hidt : ((t.setState p .ready).link p).id = p := by
      simpa [ht, removeList, setState, modifyPcb] using hid
    have heq : (s.wakeupProcess (some p)).2 = (t.setState p .ready).insertList .processList p := by
      simp [wakeupProcess, hb, hid, ← ht]
    obtain ⟨hl, hp⟩ := insertList_refines (hlinked.setState p .ready) hnot hidt .processList
    rw [heq]
    refine ⟨hl, ?_⟩
    rw [hp, setState_plan, hplan, Plan.wakeup, if_pos (show s.plan.states p = _ from hb)]
  · rw [wakeupProcess_of_not_blocked hb, Plan.wakeup, if_neg (show ¬ s.plan.states p = _ from hb)]
    exact ⟨h, rfl⟩

/-- Putting the running process behind the others and taking the first one. -/
theorem rotate_refines {rest : List ℕ} (hroster : s.roster .processList = next :: rest)
    (hout : ∀ name, s.runningProcess ∉ s.roster name)
    (hid : (s.link s.runningProcess).id = s.runningProcess) {t : Scheduler} (ht : t.Linked)
    (hplan : t.plan = s.plan.behead .processList) :
    (((t.setState s.runningProcess .ready).insertList .processList s.runningProcess).makeRunning
        next).Linked ∧
      (((t.setState s.runningProcess .ready).insertList .processList s.runningProcess).makeRunning
        next).plan = s.plan.rotate := by
  have hnot (name : ListName) : s.runningProcess ∉ t.roster name := by
    have hr : t.roster = (s.plan.behead .processList).roster := by rw [← hplan]; rfl
    rw [hr]
    by_cases hn : name = .processList
    · subst hn
      simp only [Plan.behead, Function.update_self]
      exact fun hm => hout _ (List.mem_of_mem_tail hm)
    · simpa [Plan.behead, hn] using hout name
  have hidt : (t.link s.runningProcess).id = s.runningProcess := by
    have hids : t.plan.ids = s.plan.ids := by rw [hplan]; rfl
    exact (congrFun hids _).trans hid
  obtain ⟨hl, hp⟩ := insertList_refines (ht.setState s.runningProcess .ready) hnot hidt .processList
  refine ⟨hl.congr rfl rfl, ?_⟩
  rw [makeRunning_plan, hp, setState_plan, hplan, Plan.rotate, plan_roster, hroster]
  rfl

theorem timeoutSchedule_refines (h : s.Linked)
    (hrun : s.runningProcess ≠ s.idleProcess →
      (∀ name, s.runningProcess ∉ s.roster name) ∧ (s.link s.runningProcess).id = s.runningProcess) :
    s.timeoutSchedule.Linked ∧ s.timeoutSchedule.plan = s.plan.timeout := by
  obtain ⟨hfst, hlinked, hplan⟩ := headRemove_refines h .processList
  have hpair : s.headRemove .processList =
      ((s.roster .processList).head?, (s.headRemove .processList).2) := Prod.ext hfst rfl
  set t := (s.headRemove .processList).2 with ht
  cases hroster : s.roster .processList with
  | nil =>
    have hcount : (s.list .processList).count = 0 := (h.count_eq_zero _).mpr hroster
    have hsame : s.timeoutSchedule = s := by simp [timeoutSchedule, hcount]
    rw [hsame, Plan.timeout, plan_roster, hroster]
    exact ⟨h, rfl⟩
  | cons next rest =>
    have hcount : (s.list .processList).count ≠ 0 := by
      rw [Ne, h.count_eq_zero, hroster]; simp
    set t1 := t.modifyPcb s.runningProcess fun pcb => { pcb with context := t.ist } with ht1
    have hlinked1 : t1.Linked := hlinked.congr rfl rfl
    have hplan1 : t1.plan = s.plan.behead .processList := by
      rw [ht1, modifyPcb_plan (f := fun pcb => { pcb with context := t.ist }) rfl, hplan]
    have heq : ∃ ist, s.timeoutSchedule = { (if s.runningProcess ≠ s.idleProcess then
          (t1.setState s.runningProcess .ready).insertList .processList s.runningProcess
        else t1).makeRunning next with ist := ist } := by
      simp only [timeoutSchedule, if_neg hcount, hpair, hroster, List.head?_cons]
      exact ⟨_, rfl⟩
    obtain ⟨ist, heq⟩ := heq
    have htimeout : s.plan.timeout = if s.runningProcess = s.idleProcess then
        (s.plan.behead .processList).run next else s.plan.rotate := by
      simp only [Plan.timeout, plan_roster, hroster]
      rfl
    rw [heq, htimeout]
    by_cases hidle : s.runningProcess = s.idleProcess
    · rw [if_neg (not_not.mpr hidle), if_pos hidle]
      refine ⟨hlinked1.congr rfl rfl, ?_⟩
      show (t1.makeRunning next).plan = _
      rw [makeRunning_plan, hplan1]
    · rw [if_pos hidle, if_neg hidle]
      obtain ⟨hl, hp⟩ := rotate_refines hroster (hrun hidle).1 (hrun hidle).2 hlinked1 hplan1
      exact ⟨hl.congr rfl rfl, hp⟩

theorem yieldTo_refines (h : s.Linked) (regs : ProcessContext)
    (hout : ∀ name, s.runningProcess ∉ s.roster name)
    (hid : (s.link s.runningProcess).id = s.runningProcess) :
    (s.yieldTo regs).Linked ∧ (s.yieldTo regs).plan = s.plan.rotate := by
  obtain ⟨hfst, hlinked, hplan⟩ := headRemove_refines h .processList
  have hpair : s.headRemove .processList =
      ((s.roster .processList).head?, (s.headRemove .processList).2) := Prod.ext hfst rfl
  set t := (s.headRemove .processList).2 with ht
  cases hroster : s.roster .processList with
  | nil =>
    simp only [yieldTo, hpair, hroster, List.head?_nil]
    refine ⟨hlinked, ?_⟩
    rw [hplan, Plan.behead_of_nil hroster, Plan.rotate, plan_roster, hroster]
  | cons next rest =>
    simp only [yieldTo, hpair, hroster, List.head?_cons]
    obtain ⟨hl, hp⟩ := rotate_refines hroster hout hid hlinked hplan
    refine ⟨hl.congr rfl rfl, ?_⟩
    rw [switchContext_plan]
    exact hp

/-- In an intact list the stored successor is the next process of the roster. -/
theorem Linked.next_eq (h : s.Linked) {xs rest : List ℕ} (hroster : s.roster name = xs ++ p :: rest) :
    (s.link p).next = rest.head? := by
  have hchain := (h.represents name).chain
  rw [hroster] at hchain
  obtain ⟨q, -, -, hrest⟩ := segment_append.mp hchain
  exact hrest.head_eq

/-- The processes whose sleep is over. -/
def due (s : Scheduler) (p : ℕ) : Bool := decide (s.tickCount ≥ (s.pcb p).wakeupTick)

@[simp] theorem wakeupProcess_due (p : Option ℕ) : (s.wakeupProcess p).2.due = s.due := by
  funext q
  cases p with
  | none => rfl
  | some p =>
    by_cases hb : (s.pcb p).state = .blocked
    · by_cases hq : q = p
      · subst hq; simp [wakeupProcess, hb, due, insertList, removeList, setState, modifyPcb]
      · simp [wakeupProcess, hb, due, insertList, removeList, setState, modifyPcb, hq]
    · rw [wakeupProcess_of_not_blocked hb]

/-- The loop walks down the rest `ys` of the sleep list; the node it stands at may
leave the list, what is behind it may not. -/
theorem wakeExpiredLoop_refines (kept : List ℕ) {ys : List ℕ} {fuel : ℕ} (h : s.Linked)
    (hroster : s.roster .sleepList = kept ++ ys) (hfuel : ys.length ≤ fuel) :
    (wakeExpiredLoop fuel ys.head? s).Linked ∧
      (wakeExpiredLoop fuel ys.head? s).plan = s.plan.wakeAll s.due ys := by
  induction ys generalizing s kept fuel with
  | nil => cases fuel <;> exact ⟨h, rfl⟩
  | cons p rest ih =>
    obtain ⟨fuel, rfl⟩ : ∃ n, fuel = n + 1 := ⟨fuel - 1, by simp at hfuel; omega⟩
    have hlen : rest.length ≤ fuel := by simpa using hfuel
    have hmem : p ∈ s.roster .sleepList := by simp [hroster]
    obtain ⟨hwl, hwp⟩ := wakeupProcess_refines (p := p) h (h.id_eq hmem)
      fun _ name hm => h.one_list hm hmem
    simp only [List.head?_cons, wakeExpiredLoop, h.next_eq hroster]
    by_cases hdue : s.tickCount ≥ (s.pcb p).wakeupTick
    · have hd : s.due p = true := by simpa [due] using hdue
      rw [if_pos hdue]
      have hrest : ∃ kept', (s.wakeupProcess (some p)).2.roster .sleepList = kept' ++ rest := by
        have hr : (s.wakeupProcess (some p)).2.roster = (s.plan.wakeup p).roster := by
          rw [← hwp]; rfl
        rw [hr, Plan.wakeup]
        split
        · have hnodup := h.nodup .sleepList
          rw [hroster, List.nodup_append] at hnodup
          have hk : p ∉ kept := fun hm => hnodup.2.2 p hm p (by simp) rfl
          refine ⟨kept, ?_⟩
          simp [Plan.append, Plan.setState, Plan.remove, hroster, List.erase_append_right _ hk]
        · exact ⟨kept ++ [p], by simp [hroster]⟩
      obtain ⟨kept', hk⟩ := hrest
      obtain ⟨hl, hp⟩ := ih _ hwl hk hlen
      refine ⟨hl, ?_⟩
      rw [hp, wakeupProcess_due, hwp, Plan.wakeAll, Plan.wakeAll, List.foldl_cons, if_pos hd]
    · have hd : ¬ s.due p = true := by simpa [due] using hdue
      rw [if_neg hdue]
      obtain ⟨hl, hp⟩ := ih (kept ++ [p]) h (by simp [hroster]) hlen
      refine ⟨hl, ?_⟩
      rw [hp, Plan.wakeAll, Plan.wakeAll, List.foldl_cons, if_neg hd]

theorem wakeExpiredProcess_refines (h : s.Linked) : s.wakeExpiredProcess.Linked ∧
    s.wakeExpiredProcess.plan = s.plan.wakeAll s.due (s.roster .sleepList) := by
  have hrep := h.represents .sleepList
  rw [wakeExpiredProcess, hrep.head_eq, hrep.count]
  exact wakeExpiredLoop_refines [] h rfl (Nat.le_refl _)

end Scheduler
end SkhuOS
