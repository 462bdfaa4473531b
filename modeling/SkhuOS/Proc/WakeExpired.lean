import SkhuOS.Proc.Refine

/-! `wakeExpiredProcess` on any sleep list. The loop stands at a node, has read its successor
and may unlink the node and append it to the ready list. -/
namespace SkhuOS
namespace Scheduler
open Foundation

/-- The loop of `wakeExpiredProcess` given `n` iterations; nothing if it has not met the end
of the list by then. -/
def wakeExpiredWithin : ℕ → Option ℕ → Scheduler → Option Scheduler
  | _, none, s => some s
  | 0, some _, _ => none
  | n + 1, some cur, s =>
    let next := (s.link cur).next
    let s := if s.tickCount ≥ (s.pcb cur).wakeupTick then (s.wakeupProcess (some cur)).2 else s
    wakeExpiredWithin n next s

/-- The two lists of the scheduler, with processes in at most one of them and sleepers told
apart by their ids. -/
structure Sleeping (s : Scheduler) (sleeping ready : List ℕ) : Prop where
  sleepList : Represents s.link (s.list .sleepList) sleeping
  processList : Represents s.link (s.list .processList) ready
  apart : ∀ p ∈ sleeping, p ∉ ready
  ids : ∀ p ∈ sleeping, ∀ q ∈ sleeping, (s.link p).id = (s.link q).id → p = q

/-- Nothing changed but the two lists of the scheduler, the nodes in `touched` and the PCBs
in `woken`, which are ready now. -/
structure OnlyWoken (s t : Scheduler) (touched woken : List ℕ) : Prop where
  link : ∀ p, p ∉ touched → t.link p = s.link p
  ids : ∀ p, (t.link p).id = (s.link p).id
  waiting : ∀ name, name ≠ .sleepList → name ≠ .processList → t.list name = s.list name
  awake : ∀ p ∈ woken, t.pcb p = { s.pcb p with state := .ready }
  asleep : ∀ p, p ∉ woken → t.pcb p = s.pcb p
  runningProcess : t.runningProcess = s.runningProcess
  idleProcess : t.idleProcess = s.idleProcess
  tickCount : t.tickCount = s.tickCount
  rsp0 : t.rsp0 = s.rsp0
  ist : t.ist = s.ist
  interruptFlag : t.interruptFlag = s.interruptFlag

variable {s t u : Scheduler} {kept ready rest touched woken : List ℕ} {p : ℕ} {n : ℕ}

theorem OnlyWoken.start (s : Scheduler) (touched : List ℕ) : s.OnlyWoken s touched [] :=
  ⟨fun _ _ => rfl, fun _ => rfl, fun _ _ _ => rfl, fun _ hp => by simp at hp, fun _ _ => rfl,
    rfl, rfl, rfl, rfl, rfl, rfl⟩

theorem OnlyWoken.trans {later : List ℕ} (h : s.OnlyWoken t touched woken)
    (h' : t.OnlyWoken u touched later) : s.OnlyWoken u touched (woken ++ later) := by
  constructor
  · intro p hp
    rw [h'.link p hp, h.link p hp]
  · intro p
    rw [h'.ids, h.ids]
  · intro name hsleep hready
    rw [h'.waiting name hsleep hready, h.waiting name hsleep hready]
  · intro p hp
    by_cases hlater : p ∈ later
    · rw [h'.awake p hlater]
      by_cases hwoken : p ∈ woken
      · rw [h.awake p hwoken]
      · rw [h.asleep p hwoken]
    · have hwoken := (List.mem_append.mp hp).resolve_right hlater
      rw [h'.asleep p hlater, h.awake p hwoken]
  · intro p hp
    simp only [List.mem_append, not_or] at hp
    rw [h'.asleep p hp.2, h.asleep p hp.1]
  · exact h'.runningProcess.trans h.runningProcess
  · exact h'.idleProcess.trans h.idleProcess
  · exact h'.tickCount.trans h.tickCount
  · exact h'.rsp0.trans h.rsp0
  · exact h'.ist.trans h.ist
  · exact h'.interruptFlag.trans h.interruptFlag

/-- The stored successor of a sleeper is the next one of the list. -/
theorem Sleeping.next_eq (h : s.Sleeping (kept ++ p :: rest) ready) :
    (s.link p).next = rest.head? := by
  obtain ⟨q, -, -, hrest⟩ := segment_append.mp h.sleepList.chain
  exact hrest.head_eq

/-- The search by id stops at the sleeper itself. -/
theorem Sleeping.removeList (h : s.Sleeping (kept ++ p :: rest) ready) :
    let r := SkhuOS.removeList s.link (s.list .sleepList) (s.link p).id
    Represents r.2.1 r.2.2 (kept ++ rest) ∧ ∀ q, q ∉ kept ++ p :: rest → r.2.1 q = s.link q := by
  have hp : p ∈ kept ++ p :: rest := by simp
  have hnodup := h.sleepList.nodup
  rcases removeList_spec h.sleepList (s.link p).id with ⟨hno, -⟩ |
    ⟨ps, a, qs, hxs, -, ha, -, hrep, hframe⟩
  · exact absurd rfl (hno p hp)
  · obtain rfl : a = p := h.ids a (by simp [hxs]) p hp ha
    have hkept : a ∉ kept := fun hm => (List.nodup_append.mp hnodup).2.2 a hm a (by simp) rfl
    have hps : a ∉ ps := by
      rw [hxs] at hnodup
      exact fun hm => (List.nodup_append.mp hnodup).2.2 a hm a (by simp) rfl
    have heq := congrArg (fun xs => xs.erase a) hxs
    simp only [List.erase_append_right _ hkept, List.erase_append_right _ hps,
      List.erase_cons_head] at heq
    rw [heq]
    exact ⟨hrep, hframe⟩

/-- Waking a sleeper moves it behind the ready processes. -/
theorem Sleeping.wakeupProcess (h : s.Sleeping (kept ++ p :: rest) ready)
    (hblocked : (s.pcb p).state = .blocked) (htouched : ∀ q ∈ kept ++ p :: rest, q ∈ touched)
    (hready : ∀ q ∈ ready, q ∈ touched) :
    (s.wakeupProcess (some p)).2.Sleeping (kept ++ rest) (ready ++ [p]) ∧
      s.OnlyWoken (s.wakeupProcess (some p)).2 touched [p] := by
  obtain ⟨hsleep, hframe⟩ := h.removeList
  have hp : p ∈ kept ++ p :: rest := by simp
  have hsub {q : ℕ} (hq : q ∈ kept ++ rest) : q ∈ kept ++ p :: rest := by
    simp only [List.mem_append, List.mem_cons] at hq ⊢
    tauto
  have hne {q : ℕ} (hq : q ∈ kept ++ rest) : q ≠ p := by
    rintro rfl
    obtain ⟨-, hrest, hdisjoint⟩ := List.nodup_append.mp h.sleepList.nodup
    rcases List.mem_append.mp hq with hm | hm
    · exact hdisjoint q hm q (by simp) rfl
    · exact (List.nodup_cons.mp hrest).1 hm
  have hrep : Represents (SkhuOS.removeList s.link (s.list .sleepList) (s.link p).id).2.1
      (s.list .processList) ready :=
    h.processList.congr fun q hq => hframe q fun hm => h.apart q hm hq
  have hwoken : (s.wakeupProcess (some p)).2 =
      ((s.removeList .sleepList (s.link p).id).2.setState p .ready).insertList .processList p := by
    simp [Scheduler.wakeupProcess, hblocked]
  rw [hwoken]
  constructor
  · constructor
    · have hkeep := hsleep.congr fun q hq =>
        insertList_of_not_mem hrep (h.apart q (hsub hq)) (hne hq)
      simpa [insertList, setState, modifyPcb, Scheduler.removeList] using hkeep
    · have happend := insertList_represents hrep (h.apart p hp)
      simpa [insertList, setState, modifyPcb, Scheduler.removeList] using happend
    · intro q hq hm
      rcases List.mem_append.mp hm with hm | hm
      · exact h.apart q (hsub hq) hm
      · exact hne hq (List.mem_singleton.mp hm)
    · intro q hq r hr hid
      simp only [insertList, setState, modifyPcb, Scheduler.removeList, insertList_id,
        removeList_id] at hid
      exact h.ids q (hsub hq) r (hsub hr) hid
  · constructor
    · intro q hq
      have hnot : q ≠ p := fun he => hq (he ▸ htouched p hp)
      have hinsert := insertList_of_not_mem hrep (fun hm => hq (hready q hm)) hnot
      simpa [insertList, setState, modifyPcb, Scheduler.removeList] using
        hinsert.trans (hframe q fun hm => hq (htouched q hm))
    · intro q
      simp [insertList, setState, modifyPcb, Scheduler.removeList]
    · intro name hsleepName hreadyName
      simp [insertList, setState, modifyPcb, Scheduler.removeList, hsleepName, hreadyName]
    · intro q hq
      obtain rfl := List.mem_singleton.mp hq
      simp [insertList, setState, modifyPcb, Scheduler.removeList]
    · intro q hq
      have hnot : q ≠ p := fun he => hq (by simp [he])
      simp [insertList, setState, modifyPcb, Scheduler.removeList, hnot]
    all_goals rfl

/-- The loop walks down `rest`: behind it the list keeps who sleeps on. -/
theorem Sleeping.wakeExpiredWithin (touched : List ℕ) (h : s.Sleeping (kept ++ rest) ready)
    (hblocked : ∀ p ∈ rest, (s.pcb p).state = .blocked)
    (htouched : ∀ q ∈ kept ++ rest, q ∈ touched) (hready : ∀ q ∈ ready, q ∈ touched) :
    ∃ t, wakeExpiredWithin rest.length rest.head? s = some t ∧
      t.Sleeping (kept ++ rest.filter fun p => !s.due p) (ready ++ rest.filter s.due) ∧
      s.OnlyWoken t touched (rest.filter s.due) := by
  induction rest generalizing s kept ready with
  | nil => exact ⟨s, rfl, by simpa using h, .start s touched⟩
  | cons p rest ih =>
    obtain ⟨-, hnodup, -⟩ := List.nodup_append.mp h.sleepList.nodup
    have hnot := (List.nodup_cons.mp hnodup).1
    simp only [List.head?_cons, List.length_cons, Scheduler.wakeExpiredWithin, h.next_eq]
    by_cases hdue : s.tickCount ≥ (s.pcb p).wakeupTick
    · have hd : s.due p = true := decide_eq_true hdue
      obtain ⟨hmoved, honly⟩ := h.wakeupProcess (hblocked p (by simp)) htouched hready
      have hsame : (s.wakeupProcess (some p)).2.due = s.due := wakeupProcess_due (some p)
      obtain ⟨t, hwithin, hsleeping, hlater⟩ := ih hmoved
        (fun q hq => by
          rw [honly.asleep q (by simpa using ne_of_mem_of_not_mem hq hnot)]
          exact hblocked q (List.mem_cons_of_mem p hq))
        (fun q hq => htouched q (by
          simp only [List.mem_append, List.mem_cons] at hq ⊢
          tauto))
        (fun q hq => by
          rcases List.mem_append.mp hq with hq | hq
          · exact hready q hq
          · exact htouched q (by simp [List.mem_singleton.mp hq]))
      rw [hsame] at hsleeping hlater
      refine ⟨t, by rw [if_pos hdue]; exact hwithin, ?_, ?_⟩
      · simpa [hd] using hsleeping
      · simpa [hd] using honly.trans hlater
    · have hd : s.due p = false := decide_eq_false hdue
      have hkeep : s.Sleeping (kept ++ [p] ++ rest) ready := by simpa using h
      obtain ⟨t, hwithin, hsleeping, hlater⟩ := ih hkeep
        (fun q hq => hblocked q (List.mem_cons_of_mem p hq)) (by simpa using htouched) hready
      refine ⟨t, by rw [if_neg hdue]; exact hwithin, ?_, ?_⟩
      · simpa [hd] using hsleeping
      · simpa [hd] using hlater

/-- The loop bounded by the length of the list is the loop that ends at its end. -/
theorem wakeExpiredLoop_eq {cur : Option ℕ} (h : wakeExpiredWithin n cur s = some t) :
    wakeExpiredLoop n cur s = t := by
  induction n generalizing cur s with
  | zero =>
    cases cur with
    | none => exact Option.some.inj h
    | some cur => cases h
  | succ n ih =>
    cases cur with
    | none => exact Option.some.inj h
    | some cur => exact ih h

/-- After as many iterations as there are sleepers the loop is at the end of the list. Who has
not slept enough stays, in order, the others follow the ready processes, in order, and nothing
else has changed. -/
theorem wakeExpiredProcess_exact {sleeping : List ℕ} (h : s.Sleeping sleeping ready)
    (hblocked : ∀ p ∈ sleeping, (s.pcb p).state = .blocked) :
    wakeExpiredWithin sleeping.length (s.list .sleepList).head s = some s.wakeExpiredProcess ∧
    s.wakeExpiredProcess.Sleeping
      (sleeping.filter fun p => (s.pcb p).wakeupTick > s.tickCount)
      (ready ++ sleeping.filter fun p => (s.pcb p).wakeupTick ≤ s.tickCount) ∧
    s.OnlyWoken s.wakeExpiredProcess (sleeping ++ ready)
      (sleeping.filter fun p => (s.pcb p).wakeupTick ≤ s.tickCount) := by
  obtain ⟨t, hwithin, hsleeping, honly⟩ := Sleeping.wakeExpiredWithin
    (sleeping ++ ready) (show s.Sleeping ([] ++ sleeping) ready from h) hblocked
    (fun q hq => by simpa using .inl hq) (fun q hq => by simp [hq])
  have heq : s.wakeExpiredProcess = t := by
    rw [wakeExpiredProcess, h.sleepList.count, h.sleepList.head_eq]
    exact wakeExpiredLoop_eq hwithin
  have hstay : (fun p => !s.due p) =
      fun p => decide ((s.pcb p).wakeupTick > s.tickCount) := by
    funext p
    simp only [due, ge_iff_le, ← decide_not, BitVec.not_le, gt_iff_lt]
  rw [heq, h.sleepList.head_eq]
  rw [List.nil_append, hstay] at hsleeping
  exact ⟨hwithin, hsleeping, honly⟩

/-- Processes 1, 2 and 3 sleep until ticks 5, 9 and 5, process 4 is ready, and it is tick 7. -/
def threeSleepers : Scheduler where
  link p := ⟨if p = 1 then some 2 else if p = 2 then some 3 else none, p⟩
  pcb p := ⟨0, 0, .blocked, if p = 2 then 9 else 5, fun _ => 0⟩
  list
    | .sleepList => ⟨some 1, some 3, 3⟩
    | .processList => ⟨some 4, some 4, 1⟩
    | .waitList _ => initList
  runningProcess := 0
  idleProcess := 0
  tickCount := 7
  rsp0 := 0
  ist _ := 0
  interruptFlag := false

theorem wakeExpiredProcess_exact_three :
    threeSleepers.wakeExpiredProcess.roster .sleepList = [2] ∧
      threeSleepers.wakeExpiredProcess.roster .processList = [4, 1, 3] := by
  have hsleeping : threeSleepers.Sleeping [1, 2, 3] [4] := by
    constructor
    · exact ⟨⟨rfl, rfl, rfl, rfl⟩, rfl, rfl, by decide⟩
    · exact ⟨⟨rfl, rfl⟩, rfl, rfl, by decide⟩
    · decide
    · decide
  obtain ⟨-, hafter, -⟩ := wakeExpiredProcess_exact hsleeping fun _ _ => rfl
  exact ⟨hafter.sleepList.nodes_eq, hafter.processList.nodes_eq⟩

end Scheduler
end SkhuOS
