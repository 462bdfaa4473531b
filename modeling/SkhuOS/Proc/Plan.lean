import SkhuOS.Proc.Process

/-! The scheduler without its pointers: each list is a sequence of processes and each
process has a state. `Placed` says that the sequences and the states fit together; every
operation of the scheduler keeps it. -/
namespace SkhuOS

structure Plan where
  roster : ListName → List ℕ
  states : ℕ → ProcessState
  ids : ℕ → ℤ
  running : ℕ
  idle : ℕ

namespace Plan

variable (π : Plan)

def append (name : ListName) (p : ℕ) : Plan :=
  { π with roster := Function.update π.roster name (π.roster name ++ [p]) }

def remove (name : ListName) (p : ℕ) : Plan :=
  { π with roster := Function.update π.roster name ((π.roster name).erase p) }

def behead (name : ListName) : Plan :=
  { π with roster := Function.update π.roster name (π.roster name).tail }

def setState (p : ℕ) (state : ProcessState) : Plan :=
  { π with states := Function.update π.states p state }

/-- Give the processor to `next`. -/
def run (next : ℕ) : Plan := { π.setState next .running with running := next }

/-- The processor goes to the first ready process, or to the idle process. -/
def dispatch : Plan :=
  (π.behead .processList).run ((π.roster .processList).head?.getD π.idle)

def wakeup (p : ℕ) : Plan :=
  if π.states p = .blocked then
    ((π.remove .sleepList p).setState p .ready).append .processList p
  else π

/-- The first ready process replaces the running one, which becomes the last. -/
def rotate : Plan :=
  match π.roster .processList with
  | [] => π
  | next :: _ =>
    (((π.behead .processList).setState π.running .ready).append .processList π.running).run next

/-- The same from the timer; the idle process does not queue up. -/
def timeout : Plan :=
  match π.roster .processList with
  | [] => π
  | next :: _ =>
    if π.running = π.idle then (π.behead .processList).run next else π.rotate

/-- Wake the processes of `ps` that are due, in order. -/
def wakeAll (due : ℕ → Bool) (ps : List ℕ) : Plan :=
  ps.foldl (fun π p => if due p then π.wakeup p else π) π

/-- The list a process belongs to by its state; a blocked process waits in `waits`. -/
def home (waits : ℕ → Option ListName) (p : ℕ) : Option ListName :=
  match π.states p with
  | .ready => some .processList
  | .blocked => waits p
  | .running | .exit => none

end Plan

/-- What the kernel around the scheduler says of the processes: which have a place,
which are in a call that blocks, where each waits while it is blocked, and which have
exited. The idle process has no place, and no blocked process waits among the ready ones. -/
structure Roles where
  member : ℕ → Prop
  idle : ℕ
  blocks : ℕ → Prop
  waits : ℕ → Option ListName
  exited : ℕ → Prop
  idle_out : ¬ member idle
  waits_ne : ∀ p, waits p ≠ some .processList

/-- Roles that differ for process `p` alone. -/
structure Roles.AgreeOff (r r' : Roles) (p : ℕ) : Prop where
  member : r'.member = r.member
  idle : r'.idle = r.idle
  blocks : ∀ q, q ≠ p → (r'.blocks q ↔ r.blocks q)
  waits : ∀ q, q ≠ p → r'.waits q = r.waits q
  exited : ∀ q, q ≠ p → (r'.exited q ↔ r.exited q)

namespace Plan

variable (π : Plan)

/-- Every member is in the list its state calls for and in no other one, and `holder`
is the one that runs. -/
structure Placed (r : Roles) (holder : Option ℕ) : Prop where
  mem_iff : ∀ p name, p ∈ π.roster name ↔ r.member p ∧ π.home r.waits p = some name
  nodup : ∀ name, (π.roster name).Nodup
  running_iff : ∀ p, r.member p → (π.states p = .running ↔ holder = some p)
  blocks_of : ∀ p, r.member p → π.states p = .blocked → r.blocks p
  exit_iff : ∀ p, r.member p → (π.states p = .exit ↔ r.exited p)
  id_eq : ∀ p, r.member p → π.ids p = p

/-- Between two sections with interrupts off a member or the idle process runs. -/
structure Settled (r : Roles) : Prop where
  placed : π.Placed r (some π.running)
  running_mem : π.running ≠ π.idle → r.member π.running
  idle_eq : π.idle = r.idle

variable {π} {r r' : Roles} {holder : Option ℕ} {p q next : ℕ} {name : ListName}

@[simp] theorem run_running : (π.run next).running = next := rfl

@[simp] theorem wakeup_running : (π.wakeup p).running = π.running := by
  unfold wakeup; split <;> rfl

@[simp] theorem wakeup_idle : (π.wakeup p).idle = π.idle := by unfold wakeup; split <;> rfl

@[simp] theorem dispatch_waitList (m : ℕ) :
    π.dispatch.roster (.waitList m) = π.roster (.waitList m) := by
  simp [dispatch, run, setState, behead]

@[simp] theorem wakeup_waitList (m : ℕ) :
    (π.wakeup p).roster (.waitList m) = π.roster (.waitList m) := by
  unfold wakeup
  split
  · simp [append, setState, remove]
  · rfl

theorem wakeAll_same (due : ℕ → Bool) (ps : List ℕ) (π : Plan) :
    (π.wakeAll due ps).running = π.running ∧ (π.wakeAll due ps).idle = π.idle := by
  induction ps generalizing π with
  | nil => exact ⟨rfl, rfl⟩
  | cons p ps ih =>
    have hfirst : (if due p then π.wakeup p else π).running = π.running ∧
        (if due p then π.wakeup p else π).idle = π.idle := by split <;> simp
    exact ⟨(ih _).1.trans hfirst.1, (ih _).2.trans hfirst.2⟩

theorem behead_of_nil (h : π.roster name = []) : π.behead name = π := by
  have hsame : Function.update π.roster name (π.roster name).tail = π.roster := by
    rw [Function.update_eq_self_iff, h, List.tail_nil]
  rw [behead, hsame]

theorem dispatch_cons {rest : List ℕ} (h : π.roster .processList = next :: rest) :
    π.dispatch = (π.behead .processList).run next := by
  simp [dispatch, h]

@[simp] theorem append_roster_self : (π.append name p).roster name = π.roster name ++ [p] := by
  simp [append]

theorem mem_append {name' : ListName} :
    q ∈ (π.append name p).roster name' ↔ q ∈ π.roster name' ∨ q = p ∧ name' = name := by
  by_cases h : name' = name
  · subst h; simp [append]
  · simp [append, h]

namespace Placed

/-- Where a process waits matters only while it is blocked. -/
theorem congr (h : π.Placed r holder) (hmem : r'.member = r.member)
    (hw : ∀ p, r.member p → π.states p = .blocked →
      r'.waits p = r.waits p ∧ (r.blocks p → r'.blocks p))
    (he : ∀ p, r.member p → (r'.exited p ↔ r.exited p)) : π.Placed r' holder := by
  refine ⟨fun p name => ?_, h.nodup, ?_, ?_, ?_, ?_⟩
  · rw [h.mem_iff, hmem]
    refine and_congr_right fun hp => ?_
    unfold home
    cases hs : π.states p <;> simp
    rw [(hw p hp hs).1]
  · rw [hmem]; exact h.running_iff
  · rw [hmem]; exact fun p hp hs => (hw p hp hs).2 (h.blocks_of p hp hs)
  · rw [hmem]; exact fun p hp => (h.exit_iff p hp).trans (he p hp).symm
  · rw [hmem]; exact h.id_eq

theorem not_mem (h : π.Placed r holder) (hp : r.member p → π.home r.waits p = none) :
    p ∉ π.roster name := by
  intro hm
  obtain ⟨hmem, hhome⟩ := (h.mem_iff p name).mp hm
  rw [hp hmem] at hhome
  cases hhome

theorem holder_not_mem (h : π.Placed r (some p)) : p ∉ π.roster name :=
  h.not_mem fun hm => by simp [home, (h.running_iff p hm).mpr rfl]

/-- No process is in two lists. -/
theorem one_list {name' : ListName} (h : π.Placed r holder) (hp : p ∈ π.roster name)
    (hp' : p ∈ π.roster name') : name = name' := by
  have h1 := ((h.mem_iff p name).mp hp).2
  rw [((h.mem_iff p name').mp hp').2] at h1
  exact (Option.some.inj h1).symm

theorem states_of_mem (h : π.Placed r holder) (hp : p ∈ π.roster name)
    (hname : name ≠ .processList) : π.states p = .blocked := by
  have hhome := ((h.mem_iff p name).mp hp).2
  unfold home at hhome
  cases hs : π.states p <;> simp_all

theorem states_of_ready (h : π.Placed r holder) (hp : p ∈ π.roster .processList) :
    π.states p = .ready := by
  have hw := r.waits_ne p
  have hhome := ((h.mem_iff p .processList).mp hp).2
  unfold home at hhome
  cases hs : π.states p <;> simp_all

/-- The running process stops running and joins no list. -/
theorem park (h : π.Placed r (some p)) (state : ProcessState) (hoff : r.AgreeOff r' p)
    (hrun : state ≠ .running) (hready : state ≠ .ready)
    (hwaits : state = .blocked → r'.waits p = none ∧ r'.blocks p)
    (hexit : state = .exit ↔ r'.exited p) : (π.setState p state).Placed r' none := by
  refine ⟨fun q name => ?_, h.nodup, fun q hq => ?_, fun q hq hs => ?_, fun q hq => ?_, ?_⟩
  · show q ∈ π.roster name ↔ _
    by_cases hqp : q = p
    · subst hqp
      simp only [h.holder_not_mem, false_iff, not_and]
      intro _
      cases state <;> simp_all [home, setState]
    · rw [h.mem_iff, hoff.member]
      simp [home, setState, hqp, hoff.waits q hqp]
  · rw [hoff.member] at hq
    by_cases hqp : q = p
    · subst hqp; simp [setState, hrun]
    · simpa [setState, hqp, Ne.symm hqp] using h.running_iff q hq
  · rw [hoff.member] at hq
    by_cases hqp : q = p
    · subst hqp; exact (hwaits (by simpa [setState] using hs)).2
    · exact (hoff.blocks q hqp).mpr (h.blocks_of q hq (by simpa [setState, hqp] using hs))
  · rw [hoff.member] at hq
    by_cases hqp : q = p
    · subst hqp; simpa [setState] using hexit
    · simpa [setState, hqp, hoff.exited q hqp] using h.exit_iff q hq
  · rw [hoff.member]; exact h.id_eq

/-- The running process goes to the end of the list its new state calls for. -/
theorem enroll (h : π.Placed r (some p)) (state : ProcessState) (name : ListName)
    (hp : r.member p)
    (hblocks : state = .blocked → r.blocks p)
    (hhome : (π.setState p state).home r.waits p = some name) :
    ((π.setState p state).append name p).Placed r none := by
  have hrun : state ≠ .running ∧ state ≠ .exit := by
    constructor <;> rintro rfl <;> simp [home, setState] at hhome
  refine ⟨fun q other => ?_, fun other => ?_, fun q hq => ?_, fun q hq hs => ?_,
    fun q hq => ?_, h.id_eq⟩
  · rw [mem_append]
    show q ∈ π.roster other ∨ _ ↔ r.member q ∧ (π.setState p state).home r.waits q = some other
    by_cases hqp : q = p
    · subst hqp
      simp [h.holder_not_mem, hhome, hp, eq_comm]
    · rw [h.mem_iff]
      simp [home, setState, hqp]
  · by_cases ho : other = name
    · subst ho
      rw [append_roster_self]
      exact List.nodup_append.mpr ⟨h.nodup other, by simp, fun a ha b hb => by
        rw [List.mem_singleton.mp hb]
        exact ne_of_mem_of_not_mem ha h.holder_not_mem⟩
    · simpa [append, setState, ho] using h.nodup other
  · by_cases hqp : q = p
    · subst hqp; simp [append, setState, hrun.1]
    · simpa [append, setState, hqp, Ne.symm hqp] using h.running_iff q hq
  · by_cases hqp : q = p
    · subst hqp; exact hblocks (by simpa [append, setState] using hs)
    · exact h.blocks_of q hq (by simpa [append, setState, hqp] using hs)
  · have hwas := h.exit_iff q hq
    by_cases hqp : q = p
    · subst hqp
      rw [(h.running_iff q hp).mpr rfl] at hwas
      simpa [append, setState, hrun.2] using hwas
    · simpa [append, setState, hqp] using hwas

/-- Giving the free processor to a process that is no member. -/
theorem run_idle (h : π.Placed r none) (hidle : ¬ r.member p) : (π.run p).Placed r (some p) := by
  have hne {q : ℕ} (hq : r.member q) : q ≠ p := fun he => hidle (he ▸ hq)
  refine ⟨fun q name => ?_, h.nodup, fun q hq => ?_, fun q hq hs => ?_, fun q hq => ?_, h.id_eq⟩
  · show q ∈ π.roster name ↔ _
    rw [h.mem_iff]
    refine and_congr_right fun hq => ?_
    simp [home, run, setState, hne hq]
  · simpa [run, setState, hne hq, (hne hq).symm] using h.running_iff q hq
  · exact h.blocks_of q hq (by simpa [run, setState, hne hq] using hs)
  · simpa [run, setState, hne hq] using h.exit_iff q hq

/-- Giving the free processor to the first ready process. -/
theorem run_next (h : π.Placed r none) (rest : List ℕ)
    (hready : π.roster .processList = next :: rest) :
    ((π.behead .processList).run next).Placed r (some next) := by
  have hnodup := h.nodup .processList
  rw [hready, List.nodup_cons] at hnodup
  have hnext : π.states next = .ready := h.states_of_ready (by simp [hready])
  have htail (q : ℕ) (name : ListName) : q ∈ (π.behead .processList).roster name ↔
      q ∈ π.roster name ∧ q ≠ next := by
    by_cases hn : name = .processList
    · subst hn
      simp only [behead, Function.update_self, hready, List.tail_cons, List.mem_cons]
      constructor
      · exact fun hq => ⟨.inr hq, ne_of_mem_of_not_mem hq hnodup.1⟩
      · exact fun ⟨hq, hne⟩ => hq.resolve_left hne
    · simp only [behead, Function.update_of_ne hn, iff_self_and]
      rintro hq rfl
      exact hn (h.one_list hq (by simp [hready]))
  refine ⟨fun q name => ?_, fun name => ?_, fun q hq => ?_, fun q hq hs => ?_, fun q hq => ?_,
    h.id_eq⟩
  · show q ∈ (π.behead .processList).roster name ↔ _
    rw [htail, h.mem_iff]
    by_cases hqn : q = next
    · subst hqn; simp [home, run, setState]
    · simp [home, run, setState, behead, hqn]
  · by_cases hn : name = .processList
    · subst hn; simpa [run, setState, behead, hready] using hnodup.2
    · simpa [run, setState, behead, hn] using h.nodup name
  · by_cases hqn : q = next
    · subst hqn; simp [run, setState]
    · simpa [run, setState, behead, hqn, Ne.symm hqn] using h.running_iff q hq
  · by_cases hqn : q = next
    · subst hqn; simp [run, setState] at hs
    · exact h.blocks_of q hq (by simpa [run, setState, behead, hqn] using hs)
  · have hwas := h.exit_iff q hq
    by_cases hqn : q = next
    · subst hqn
      rw [hnext] at hwas
      simpa [run, setState] using hwas
    · simpa [run, setState, behead, hqn] using hwas

/-- Waking a process that is blocked in the sleep list or in no list. -/
theorem wakeup (h : π.Placed r holder) (hp : r.member p)
    (hw : r.waits p = none ∨ r.waits p = some .sleepList) : (π.wakeup p).Placed r holder := by
  unfold Plan.wakeup
  split
  next hblocked =>
    have hout (q : ℕ) (name : ListName) :
        q ∈ (π.remove .sleepList p).roster name ↔ q ∈ π.roster name ∧ q ≠ p := by
      by_cases hn : name = .sleepList
      · subst hn
        simp [remove, (h.nodup _).mem_erase_iff, and_comm]
      · simp only [remove, Function.update_of_ne hn, iff_self_and]
        rintro hq rfl
        have hhome := ((h.mem_iff q name).mp hq).2
        simp only [home, hblocked] at hhome
        rcases hw with hw | hw <;> simp_all
    refine ⟨fun q name => ?_, fun name => ?_, fun q hq => ?_, fun q hq hs => ?_, fun q hq => ?_,
      h.id_eq⟩
    · rw [mem_append]
      show q ∈ (π.remove .sleepList p).roster name ∨ _ ↔ _
      rw [hout, h.mem_iff]
      by_cases hqp : q = p
      · subst hqp; simp [home, setState, append, hp, eq_comm]
      · simp [home, setState, append, remove, hqp]
    · have herase : ((π.remove .sleepList p).roster name).Nodup := by
        by_cases hn : name = .sleepList
        · subst hn; simpa [remove] using (h.nodup _).erase p
        · simpa [remove, hn] using h.nodup name
      by_cases hn : name = .processList
      · subst hn
        rw [append_roster_self]
        exact List.nodup_append.mpr ⟨herase, by simp, fun a ha b hb => by
          rw [List.mem_singleton.mp hb]
          exact ((hout a .processList).mp ha).2⟩
      · simpa [append, setState, hn] using herase
    · have hwas := h.running_iff q hq
      by_cases hqp : q = p
      · subst hqp; simp_all [append, setState]
      · simpa [append, setState, remove, hqp] using hwas
    · by_cases hqp : q = p
      · subst hqp; simp [append, setState] at hs
      · exact h.blocks_of q hq (by simpa [append, setState, remove, hqp] using hs)
    · have hwas := h.exit_iff q hq
      by_cases hqp : q = p
      · subst hqp; simp_all [append, setState]
      · simpa [append, setState, remove, hqp] using hwas
  · exact h

/-- The first process of a wait list is taken out and woken. -/
theorem wakeup_first (h : π.Placed r holder) (hname : name ≠ .processList) {rest : List ℕ}
    (hq : π.roster name = next :: rest) : ((π.behead name).wakeup next).Placed r holder := by
  have hmem := (h.mem_iff next name).mp (by simp [hq])
  have hblocked : π.states next = .blocked := h.states_of_mem (by simp [hq]) hname
  have hnodup := h.nodup name
  rw [hq, List.nodup_cons] at hnodup
  have hne (q : ℕ) : Function.update r.waits next none q ≠ some .processList := by
    by_cases hqn : q = next
    · subst hqn; simp
    · simpa [hqn] using r.waits_ne q
  have hhole : (π.behead name).Placed
      { r with waits := Function.update r.waits next none, waits_ne := hne } holder := by
    refine ⟨fun q other => ?_, fun other => ?_, h.running_iff, h.blocks_of, h.exit_iff, h.id_eq⟩
    · have hwas := h.mem_iff q other
      by_cases hqn : q = next
      · subst hqn
        have hgone : q ∉ (π.behead name).roster other := by
          by_cases ho : other = name
          · subst ho; simpa [behead, hq] using hnodup.1
          · simp only [behead, Function.update_of_ne ho]
            exact fun hm => ho (h.one_list hm (by simp [hq]))
        simp only [hgone, false_iff, not_and]
        intro _
        simp [home, behead, hblocked]
      · have hsame : q ∈ (π.behead name).roster other ↔ q ∈ π.roster other := by
          by_cases ho : other = name
          · subst ho; simp [behead, hq, hqn]
          · simp [behead, ho]
        rw [hsame, hwas]
        simp [home, behead, hqn]
    · by_cases ho : other = name
      · subst ho; simpa [behead, hq] using hnodup.2
      · simpa [behead, ho] using h.nodup other
  refine (hhole.wakeup hmem.1 (by simp)).congr rfl (fun q _ hs => ?_) fun _ _ => Iff.rfl
  have hqn : q ≠ next := by
    rintro rfl
    simp [Plan.wakeup, behead, hblocked, append, setState] at hs
  exact ⟨by simp [hqn], id⟩

theorem wakeAll (due : ℕ → Bool) (ps : List ℕ) (h : π.Placed r holder)
    (hps : ∀ p ∈ ps, r.member p ∧ (r.waits p = none ∨ r.waits p = some .sleepList)) :
    (π.wakeAll due ps).Placed r holder := by
  induction ps generalizing π with
  | nil => exact h
  | cons p ps ih =>
    obtain ⟨hp, hrest⟩ := List.forall_mem_cons.mp hps
    refine ih ?_ hrest
    cases hdue : due p
    · simpa [hdue] using h
    · simpa [hdue] using h.wakeup hp.1 hp.2

/-- A new process enters with its slot as id, at the end of the ready list. -/
theorem join (h : π.Placed r holder) (hp : ¬ r.member p) (hholder : holder ≠ some p)
    (hmem : ∀ q, r'.member q ↔ r.member q ∨ q = p) (hw : ∀ q, q ≠ p → r'.waits q = r.waits q)
    (hb : ∀ q, q ≠ p → (r'.blocks q ↔ r.blocks q))
    (he : ∀ q, q ≠ p → (r'.exited q ↔ r.exited q)) (hnew : ¬ r'.exited p) :
    Placed (({ π with ids := Function.update π.ids p p }.setState p .ready).append
      .processList p) r' holder := by
  have hnot (name : ListName) : p ∉ π.roster name := h.not_mem fun hm => absurd hm hp
  have hne {q : ℕ} (hq : r.member q) : q ≠ p := fun he => hp (he ▸ hq)
  refine ⟨fun q name => ?_, fun name => ?_, fun q hq => ?_, fun q hq hs => ?_, fun q hq => ?_,
    fun q hq => ?_⟩
  · rw [mem_append]
    show q ∈ π.roster name ∨ _ ↔ _
    rw [h.mem_iff, hmem]
    by_cases hqp : q = p
    · subst hqp; simp [home, setState, append, hp, eq_comm]
    · simp [home, setState, append, hqp, hw q hqp]
  · by_cases hn : name = .processList
    · subst hn
      rw [append_roster_self]
      exact List.nodup_append.mpr ⟨h.nodup _, by simp, fun a ha b hb => by
        rw [List.mem_singleton.mp hb]
        exact ne_of_mem_of_not_mem ha (hnot _)⟩
    · simpa [append, setState, hn] using h.nodup name
  · rcases (hmem q).mp hq with hq | rfl
    · simpa [append, setState, hne hq] using h.running_iff q hq
    · simp [append, setState, hholder]
  · rcases (hmem q).mp hq with hq | rfl
    · exact (hb q (hne hq)).mpr (h.blocks_of q hq (by simpa [append, setState, hne hq] using hs))
    · simp [append, setState] at hs
  · rcases (hmem q).mp hq with hq | rfl
    · simpa [append, setState, hne hq, he q (hne hq)] using h.exit_iff q hq
    · simpa [append, setState] using hnew
  · rcases (hmem q).mp hq with hq | rfl
    · simpa [append, setState, hne hq] using h.id_eq q hq
    · simp [append, setState]

/-- An exited process leaves. -/
theorem leave (h : π.Placed r holder) (hp : π.states p = .exit) :
    π.Placed { r with
      member := fun q => r.member q ∧ q ≠ p
      idle_out := fun h => r.idle_out h.1 } holder := by
  refine ⟨fun q name => ?_, h.nodup, fun q hq => h.running_iff q hq.1,
    fun q hq => h.blocks_of q hq.1, fun q hq => h.exit_iff q hq.1, fun q hq => h.id_eq q hq.1⟩
  rw [h.mem_iff]
  by_cases hqp : q = p
  · subst hqp; simp [home, hp]
  · simp [hqp]

/-- After a process gave the processor up, the next one holds it. -/
theorem dispatch (h : π.Placed r none) (hidle : π.idle = r.idle) : π.dispatch.Settled r := by
  have hout : ¬ r.member π.idle := hidle ▸ r.idle_out
  cases heq : π.roster .processList with
  | nil =>
    refine ⟨?_, ?_, hidle⟩
    · simpa [Plan.dispatch, behead_of_nil heq, heq] using h.run_idle hout
    · simp [Plan.dispatch, heq, behead_of_nil, run, setState]
  | cons next rest =>
    refine ⟨?_, fun _ => ?_, hidle⟩
    · simpa [Plan.dispatch, heq] using h.run_next _ heq
    · simpa [Plan.dispatch, heq] using ((h.mem_iff next .processList).mp (by simp [heq])).1

end Placed

namespace Settled

variable (h : π.Settled r)

include h

/-- A change of the running process's role that does not make it exited. -/
theorem congr_off (hoff : r.AgreeOff r' π.running) (hrun : ¬ r'.exited π.running) :
    π.Settled r' := by
  refine ⟨h.placed.congr hoff.member (fun p hp hs => ?_) fun p hp => ?_, ?_, ?_⟩
  · have hpr : p ≠ π.running := by
      rintro rfl
      rw [(h.placed.running_iff _ hp).mpr rfl] at hs
      cases hs
    exact ⟨hoff.waits p hpr, (hoff.blocks p hpr).mpr⟩
  · by_cases hpr : p = π.running
    · subst hpr
      have hwas := h.placed.exit_iff _ hp
      rw [(h.placed.running_iff _ hp).mpr rfl] at hwas
      simp_all
    · exact hoff.exited p hpr
  · rw [hoff.member]; exact h.running_mem
  · rw [hoff.idle]; exact h.idle_eq

theorem idle_not_member : ¬ r.member π.idle := h.idle_eq ▸ r.idle_out

theorem idle_not_mem : π.idle ∉ π.roster name :=
  h.placed.not_mem fun hm => absurd hm h.idle_not_member

/-- An operation that leaves the processor alone only has to keep the places. -/
theorem of_placed {π' : Plan} (hplaced : π'.Placed r (some π.running))
    (hrunning : π'.running = π.running) (hidle : π'.idle = π.idle) : π'.Settled r := by
  refine ⟨by rwa [hrunning], ?_, hidle.trans h.idle_eq⟩
  rw [hrunning, hidle]
  exact h.running_mem

theorem wakeup (hp : r.member p) (hw : r.waits p = none ∨ r.waits p = some .sleepList) :
    (π.wakeup p).Settled r :=
  h.of_placed (h.placed.wakeup hp hw) wakeup_running wakeup_idle

theorem wakeup_first (hname : name ≠ .processList) {rest : List ℕ}
    (hq : π.roster name = next :: rest) : ((π.behead name).wakeup next).Settled r :=
  h.of_placed (h.placed.wakeup_first hname hq) wakeup_running wakeup_idle

theorem wakeAll (due : ℕ → Bool) : (π.wakeAll due (π.roster .sleepList)).Settled r := by
  obtain ⟨hrunning, hidle⟩ := wakeAll_same due (π.roster .sleepList) π
  refine h.of_placed (h.placed.wakeAll _ _ fun p hm => ?_) hrunning hidle
  obtain ⟨hmem, hhome⟩ := (h.placed.mem_iff p .sleepList).mp hm
  rw [home, h.placed.states_of_mem hm (by simp)] at hhome
  exact ⟨hmem, .inr hhome⟩

theorem rotate (hrun : π.running ≠ π.idle) : π.rotate.Settled r := by
  unfold Plan.rotate
  split
  · exact h
  next next rest heq =>
    have hparked := h.placed.enroll .ready .processList
      (h.running_mem hrun) (by simp) (by simp [home, setState])
    have hcomm : ((π.behead .processList).setState π.running .ready).append .processList π.running =
        ((π.setState π.running .ready).append .processList π.running).behead .processList := by
      simp [append, setState, behead, heq]
    rw [hcomm]
    refine ⟨hparked.run_next (rest ++ [π.running]) (by simp [setState, heq]),
      fun _ => ?_, h.idle_eq⟩
    exact ((h.placed.mem_iff next .processList).mp (by simp [heq])).1

theorem timeout : π.timeout.Settled r := by
  unfold Plan.timeout
  split
  · exact h
  next next rest heq =>
    split
    next hri =>
      have hvacant : π.Placed r none := by
        refine ⟨h.placed.mem_iff, h.placed.nodup, fun q hq => ?_, h.placed.blocks_of,
          h.placed.exit_iff, h.placed.id_eq⟩
        have hne : π.running ≠ q := fun he => h.idle_not_member (hri ▸ he ▸ hq)
        simpa [hne] using h.placed.running_iff q hq
      exact ⟨hvacant.run_next _ heq,
        fun _ => ((h.placed.mem_iff next .processList).mp (by simp [heq])).1, h.idle_eq⟩
    next hri => exact h.rotate hri

end Settled

/-- The wait lists of the mutexes are untouched, no process exits and, apart from `off`,
none blocks. -/
structure Quiet (off : ℕ → Prop) (π π' : Plan) : Prop where
  waitList : ∀ m, π'.roster (.waitList m) = π.roster (.waitList m)
  blocked : ∀ p, π'.states p = .blocked → π.states p = .blocked ∨ off p
  exits : ∀ p, π'.states p = .exit → π.states p = .exit

namespace Quiet

variable {off : ℕ → Prop} {π' π'' : Plan}

theorem refl (off : ℕ → Prop) (π : Plan) : Quiet off π π :=
  ⟨fun _ => rfl, fun _ => .inl, fun _ => id⟩

theorem setState (h : Quiet off π π') (p : ℕ) (state : ProcessState) (hs : state = .blocked → off p)
    (hexit : state ≠ .exit) : Quiet off π (π'.setState p state) := by
  refine ⟨h.waitList, fun q hq => ?_, fun q hq => ?_⟩
  · by_cases hqp : q = p
    · subst hqp
      exact .inr (hs (by simpa [Plan.setState] using hq))
    · exact h.blocked q (by simpa [Plan.setState, hqp] using hq)
  · by_cases hqp : q = p
    · subst hqp
      exact absurd (by simpa [Plan.setState] using hq) hexit
    · exact h.exits q (by simpa [Plan.setState, hqp] using hq)

theorem run (h : Quiet off π π') (next : ℕ) : Quiet off π (π'.run next) :=
  have hset := h.setState next .running (by simp) (by simp)
  ⟨h.waitList, hset.blocked, hset.exits⟩

theorem roster (h : Quiet off π π') (hw : ∀ m, π''.roster (.waitList m) = π'.roster (.waitList m))
    (hs : π''.states = π'.states) : Quiet off π π'' :=
  ⟨fun m => (hw m).trans (h.waitList m), fun p hp => h.blocked p (hs ▸ hp),
    fun p hp => h.exits p (hs ▸ hp)⟩

theorem append (h : Quiet off π π') (hname : ∀ m, name ≠ .waitList m) :
    Quiet off π (π'.append name p) :=
  h.roster (fun m => by simp [Plan.append, (hname m).symm]) rfl

theorem remove (h : Quiet off π π') (hname : ∀ m, name ≠ .waitList m) :
    Quiet off π (π'.remove name p) :=
  h.roster (fun m => by simp [Plan.remove, (hname m).symm]) rfl

theorem behead (h : Quiet off π π') (hname : ∀ m, name ≠ .waitList m) :
    Quiet off π (π'.behead name) :=
  h.roster (fun m => by simp [Plan.behead, (hname m).symm]) rfl

theorem dispatch (h : Quiet off π π') : Quiet off π π'.dispatch := (h.behead (by simp)).run _

theorem wakeup (h : Quiet off π π') (p : ℕ) : Quiet off π (π'.wakeup p) := by
  unfold Plan.wakeup
  split
  · exact ((h.remove (by simp)).setState _ _ (by simp) (by simp)).append (by simp)
  · exact h

theorem wakeAll (h : Quiet off π π') (due : ℕ → Bool) (ps : List ℕ) :
    Quiet off π (π'.wakeAll due ps) := by
  induction ps generalizing π' with
  | nil => exact h
  | cons p ps ih =>
    refine ih ?_
    cases hdue : due p
    · simpa [hdue] using h
    · simpa [hdue] using h.wakeup p

theorem rotate (h : Quiet off π π') : Quiet off π π'.rotate := by
  unfold Plan.rotate
  split
  · exact h
  · exact (((h.behead (by simp)).setState _ _ (by simp) (by simp)).append (by simp)).run _

theorem timeout (h : Quiet off π π') : Quiet off π π'.timeout := by
  unfold Plan.timeout
  split
  · exact h
  · split
    · exact (h.behead (by simp)).run _
    · exact h.rotate

end Quiet
end Plan
end SkhuOS
