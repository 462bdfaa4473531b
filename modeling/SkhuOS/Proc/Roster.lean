import SkhuOS.Proc.Process

/-! The scheduler's lists as sequences. `roster` reads a list off its chain of nodes;
under `Linked` every list operation is the corresponding operation on sequences and
leaves the other lists alone, although all of them share the nodes. -/
namespace SkhuOS
namespace Scheduler
open Foundation

/-- The processes of a list, in order. -/
def roster (s : Scheduler) (name : ListName) : List ℕ := (s.list name).nodes s.link

/-- Every list is intact, no process is in two of them, and the nodes in lists carry
the slot they belong to as their id. -/
structure Linked (s : Scheduler) : Prop where
  represents : ∀ name, Represents s.link (s.list name) (s.roster name)
  one_list : ∀ {name name' p}, p ∈ s.roster name → p ∈ s.roster name' → name = name'
  id_eq : ∀ {name p}, p ∈ s.roster name → (s.link p).id = p

variable {s : Scheduler} {p q : ℕ} {name name' : ListName}

/-- Lists that represent given sequences are linked with these sequences as rosters. -/
theorem linked_of_represents {f : ListName → List ℕ}
    (hrep : ∀ name, Represents s.link (s.list name) (f name))
    (hone : ∀ name name' p, p ∈ f name → p ∈ f name' → name = name')
    (hid : ∀ name p, p ∈ f name → (s.link p).id = p) : s.Linked ∧ s.roster = f := by
  have heq : s.roster = f := funext fun name => (hrep name).nodes_eq
  refine ⟨⟨?_, ?_, ?_⟩, heq⟩
  · rw [heq]; exact hrep
  · rw [heq]; exact hone _ _ _
  · rw [heq]; exact hid _ _

theorem Linked.nodup (h : s.Linked) (name : ListName) : (s.roster name).Nodup :=
  (h.represents name).nodup

/-- The rosters depend on the nodes and the list heads only. -/
theorem Linked.congr {t : Scheduler} (h : s.Linked) (hlink : t.link = s.link)
    (hlist : t.list = s.list) : t.Linked := by
  have hr : t.roster = s.roster := by funext name; simp only [roster, hlink, hlist]
  exact ⟨by rw [hr, hlink, hlist]; exact h.represents, by rw [hr]; exact h.one_list,
    by rw [hr, hlink]; exact h.id_eq⟩

section Updates

variable (s p)

@[simp] theorem modifyPcb_roster (f : PCB → PCB) : (s.modifyPcb p f).roster = s.roster := rfl
@[simp] theorem setState_roster (state : ProcessState) : (s.setState p state).roster = s.roster := rfl
@[simp] theorem updateTSSRsp0_roster : (s.updateTSSRsp0 p).roster = s.roster := rfl
@[simp] theorem switchContext_roster (q : ℕ) (regs : ProcessContext) :
    (s.switchContext p q regs).roster = s.roster := rfl

theorem modifyPcb_pcb (f : PCB → PCB) (q : ℕ) :
    (s.modifyPcb p f).pcb q = if q = p then f (s.pcb p) else s.pcb q := by
  simp [modifyPcb, Function.update_apply]

@[simp] theorem setState_state (state : ProcessState) (q : ℕ) :
    ((s.setState p state).pcb q).state = if q = p then state else (s.pcb q).state := by
  simp only [setState, modifyPcb_pcb]
  split <;> rfl

@[simp] theorem switchContext_state (q : ℕ) (regs : ProcessContext) (r : ℕ) :
    ((s.switchContext p q regs).pcb r).state = (s.pcb r).state := by
  simp only [switchContext, modifyPcb_pcb]
  split
  next h => rw [h]
  next => rfl

end Updates

/-- Appending a process that is in no list. -/
theorem insertList_linked (h : s.Linked) (hp : ∀ name, p ∉ s.roster name)
    (hid : (s.link p).id = p) (name : ListName) : (s.insertList name p).Linked ∧
      (s.insertList name p).roster = Function.update s.roster name (s.roster name ++ [p]) := by
  apply linked_of_represents
  · intro other
    by_cases ho : other = name
    · subst ho
      simpa [insertList] using insertList_represents (h.represents other) (hp other)
    · simp only [insertList, Function.update_of_ne ho]
      refine (h.represents other).congr fun q hq => ?_
      exact insertList_of_not_mem (h.represents name) (fun hm => ho (h.one_list hq hm))
        (ne_of_mem_of_not_mem hq (hp other))
  · intro n n' q hq hq'
    have hback {n} (hm : q ∈ Function.update s.roster name (s.roster name ++ [p]) n) :
        q ∈ s.roster n ∨ q = p ∧ n = name := by
      by_cases hn : n = name
      · subst hn; simpa using hm
      · simp only [Function.update_of_ne hn] at hm
        exact .inl hm
    rcases hback hq with hold | ⟨he, hn⟩ <;> rcases hback hq' with hold' | ⟨he', hn'⟩
    · exact h.one_list hold hold'
    · exact absurd (he' ▸ hold) (hp n)
    · exact absurd (he ▸ hold') (hp n')
    · exact hn.trans hn'.symm
  · intro n q hq
    simp only [insertList, insertList_id]
    by_cases hn : n = name
    · subst hn
      simp only [Function.update_self, List.mem_append, List.mem_singleton] at hq
      rcases hq with hq | rfl
      · exact h.id_eq hq
      · exact hid
    · rw [Function.update_of_ne hn] at hq
      exact h.id_eq hq

/-- What is left when some members of one list are unlinked. -/
theorem linked_of_sublist {t : Scheduler} {xs : List ℕ} (h : s.Linked)
    (hrep : Represents t.link (t.list name) xs) (hsub : xs.Sublist (s.roster name))
    (hlist : ∀ other, other ≠ name → t.list other = s.list other)
    (hlink : ∀ q, q ∉ s.roster name → t.link q = s.link q)
    (hid : ∀ q, (t.link q).id = (s.link q).id) :
    t.Linked ∧ t.roster = Function.update s.roster name xs := by
  have hback {n q} (hm : q ∈ Function.update s.roster name xs n) : q ∈ s.roster n := by
    by_cases hn : n = name
    · subst hn; exact hsub.subset (by simpa using hm)
    · rwa [Function.update_of_ne hn] at hm
  apply linked_of_represents
  · intro other
    by_cases ho : other = name
    · subst ho; simpa using hrep
    · rw [Function.update_of_ne ho, hlist other ho]
      exact (h.represents other).congr fun q hq => hlink q fun hm => ho (h.one_list hq hm)
  · exact fun n n' q hq hq' => h.one_list (hback hq) (hback hq')
  · exact fun n q hq => (hid q).trans (h.id_eq (hback hq))

/-- Removing by id takes out the process with this slot, if it is there. -/
theorem removeList_linked (h : s.Linked) (name : ListName) (p : ℕ) :
    (s.removeList name p).2.Linked ∧
      (s.removeList name p).2.roster =
        Function.update s.roster name ((s.roster name).erase p) := by
  have hid (xs : List ℕ) (hxs : xs ⊆ s.roster name) (hno : ∀ b ∈ xs, (s.link b).id ≠ p) :
      p ∉ xs := fun hm => hno p hm (h.id_eq (hxs hm))
  rcases removeList_spec (h.represents name) p with ⟨hno, heq⟩ | ⟨ps, a, qs, hxs, hps, ha, -, hrep, hframe⟩
  · have hsame : (s.removeList name p).2 = s := by
      simp [removeList, heq, Function.update_eq_self]
    rw [hsame, List.erase_of_not_mem (hid _ (List.Subset.refl _) hno), Function.update_eq_self]
    exact ⟨h, rfl⟩
  · have hmem : a ∈ s.roster name := by simp [hxs]
    obtain rfl : a = p := by exact_mod_cast (h.id_eq hmem).symm.trans ha
    have hnot : a ∉ ps := hid ps (by simp [hxs]) hps
    have herase : (s.roster name).erase a = ps ++ qs := by
      rw [hxs, List.erase_append_right _ hnot, List.erase_cons_head]
    rw [herase]
    refine linked_of_sublist h (by simpa [removeList] using hrep) ?_ ?_ hframe ?_
    · rw [hxs]; exact (List.sublist_cons_self a qs).append_left ps
    · intro other ho; simp [removeList, ho]
    · intro q; simp [removeList]

/-- Taking the first process of a list. -/
theorem headRemove_linked (h : s.Linked) (name : ListName) :
    (s.headRemove name).1 = (s.roster name).head? ∧ (s.headRemove name).2.Linked ∧
      (s.headRemove name).2.roster = Function.update s.roster name (s.roster name).tail := by
  have hrep := h.represents name
  cases hxs : s.roster name with
  | nil =>
    rw [hxs] at hrep
    have hsame : s.headRemove name = (none, s) := by
      simp [headRemove, headRemove_nil hrep, Function.update_eq_self]
    rw [hsame]
    exact ⟨rfl, h, by rw [List.tail_nil, ← hxs, Function.update_eq_self]⟩
  | cons a xs =>
    rw [hxs] at hrep
    obtain ⟨hfst, hrest, hframe⟩ := headRemove_cons hrep
    refine ⟨hfst, linked_of_sublist h (by simpa [headRemove] using hrest) ?_ ?_ ?_ ?_⟩
    · rw [hxs]; exact List.sublist_cons_self a xs
    · intro other ho; simp [headRemove, ho]
    · rw [hxs]; exact hframe
    · intro q; simp [headRemove]

theorem Linked.count_eq_zero (h : s.Linked) (name : ListName) :
    (s.list name).count = 0 ↔ s.roster name = [] := by
  rw [(h.represents name).count, List.length_eq_zero_iff]

end Scheduler
end SkhuOS
