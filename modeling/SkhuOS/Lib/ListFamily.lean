import SkhuOS.Foundation.Transition
import SkhuOS.Lib.LinkedList

/-! Several lists of `kernel/lib/LinkedList.c` over one heap of nodes. The ready list, the
sleep list and the waiters of every mutex are such a family: a node moves from one list to
another, and a removed node keeps a stale `next` until it is inserted again. -/
namespace SkhuOS
open Foundation

variable {I A : Type*}

structure ListFamily (I A : Type*) where
  heap : A → Node A
  lists : I → LinkedList A

/-- One call of the library on one of the lists. -/
inductive ListCall (I A : Type*)
  | insertList (i : I) (item : A)
  | removeList (i : I) (id : ℤ)
  | headRemove (i : I)

namespace ListFamily

variable {family last : ListFamily I A} {held : I → List A}
  {history : List (Move (ListFamily I A) (ListCall I A))}

/-- The nodes of each list, read off by following its chain. -/
def contents (family : ListFamily I A) (i : I) : List A := (family.lists i).nodes family.heap

/-- Every list is a chain of its own nodes and no two lists share one. -/
structure Holds (family : ListFamily I A) (held : I → List A) : Prop where
  represents : ∀ i, Represents family.heap (family.lists i) (held i)
  disjoint : ∀ i j, i ≠ j → (held i).Disjoint (held j)

/-- The lists of a sound family hold exactly what following the pointers finds. -/
def Sound (family : ListFamily I A) : Prop := family.Holds family.contents

theorem Holds.contents_eq (h : family.Holds held) : family.contents = held := by
  funext i
  exact (h.represents i).nodes_eq

theorem Holds.sound (h : family.Holds held) : family.Sound := by
  unfold Sound
  rwa [h.contents_eq]

/-- The ends of a list are NULL exactly when it is empty. -/
theorem Sound.ends (h : family.Sound) (i : I) :
    ((family.lists i).head = none ↔ family.contents i = []) ∧
      ((family.lists i).tail = none ↔ family.contents i = []) := by
  have hlist := h.represents i
  rw [hlist.head_eq, hlist.tail]
  exact ⟨List.head?_eq_none_iff, List.getLast?_eq_none_iff⟩

/-- A family of fresh lists over any heap. -/
theorem sound_initList (heap : A → Node A) :
    (⟨heap, fun _ => initList⟩ : ListFamily I A).Sound := by
  have hholds : Holds (⟨heap, fun _ => initList⟩ : ListFamily I A) fun _ => [] :=
    ⟨fun _ => represents_initList, fun _ _ _ => List.disjoint_nil_left _⟩
  exact hholds.sound

variable [DecidableEq I] [DecidableEq A]

/-- The call, with the pointer it returns. -/
def call (family : ListFamily I A) : ListCall I A → Option A × ListFamily I A
  | .insertList i item =>
    let r := insertList family.heap (family.lists i) item
    (none, ⟨r.1, Function.update family.lists i r.2⟩)
  | .removeList i id =>
    let r := removeList family.heap (family.lists i) id
    (r.1, ⟨r.2.1, Function.update family.lists i r.2.2⟩)
  | .headRemove i =>
    let r := headRemove family.heap (family.lists i)
    (r.1, ⟨r.2.1, Function.update family.lists i r.2.2⟩)

def step (family : ListFamily I A) (request : ListCall I A) : Option (ListFamily I A) :=
  some (family.call request).2

omit [DecidableEq I] [DecidableEq A] in
/-- Only a node that is in no list is inserted. -/
def Admits (family : ListFamily I A) : ListCall I A → Prop
  | .insertList _ item => ∀ i, item ∉ family.contents i
  | _ => True

/-- What the call returns and leaves when the lists are sequences. -/
def expected (id : A → ℤ) (held : I → List A) : ListCall I A → Option A × (I → List A)
  | .insertList i item => (none, Function.update held i (held i ++ [item]))
  | .removeList i wanted => ((held i).find? fun a => id a = wanted,
      Function.update held i ((held i).eraseP fun a => id a = wanted))
  | .headRemove i => ((held i).head?, Function.update held i (held i).tail)

omit [DecidableEq A] in
/-- A list is replaced by one that represents `xs`, and no node of the others is touched. -/
theorem Holds.replace (h : family.Holds held) {i : I} {heap : A → Node A}
    {list : LinkedList A} {xs : List A} (hlist : Represents heap list xs)
    (hframe : ∀ j, j ≠ i → ∀ a ∈ held j, heap a = family.heap a)
    (hdisjoint : ∀ j, j ≠ i → ∀ a ∈ held j, a ∉ xs) :
    Holds ⟨heap, Function.update family.lists i list⟩ (Function.update held i xs) := by
  constructor
  · intro j
    by_cases hj : j = i
    · subst hj
      simpa using hlist
    · simp only [Function.update_of_ne hj]
      exact (h.represents j).congr (hframe j hj)
  · intro j k hjk a haj hak
    by_cases hj : j = i
    · subst hj
      rw [Function.update_self] at haj
      rw [Function.update_of_ne hjk.symm] at hak
      exact hdisjoint k hjk.symm a hak haj
    · rw [Function.update_of_ne hj] at haj
      by_cases hk : k = i
      · subst hk
        rw [Function.update_self] at hak
        exact hdisjoint j hj a haj hak
      · rw [Function.update_of_ne hk] at hak
        exact h.disjoint j k hjk haj hak

theorem Holds.insertList (h : family.Holds held) (i : I) {item : A}
    (hfresh : ∀ j, item ∉ held j) :
    (family.call (.insertList i item)).2.Holds
      (Function.update held i (held i ++ [item])) := by
  apply h.replace (insertList_represents (h.represents i) (hfresh i))
  · intro j hj a ha
    apply insertList_of_not_mem (h.represents i)
    · exact h.disjoint j i hj ha
    · rintro rfl
      exact hfresh j ha
  · intro j hj a ha hmem
    rcases List.mem_append.mp hmem with hi | hitem
    · exact h.disjoint j i hj ha hi
    · rw [List.mem_singleton.mp hitem] at ha
      exact hfresh j ha

omit [DecidableEq I] [DecidableEq A] in
/-- The first match splits the list: `find?` returns it and `eraseP` drops it. -/
theorem find?_eraseP_first {p : A → Bool} {ps qs : List A} {a : A} (hps : ∀ b ∈ ps, p b = false)
    (ha : p a = true) :
    (ps ++ a :: qs).find? p = some a ∧ (ps ++ a :: qs).eraseP p = ps ++ qs := by
  constructor
  · rw [List.find?_append, List.find?_eq_none.mpr (by simpa using hps), Option.none_or,
      List.find?_cons_of_pos ha]
  · rw [List.eraseP_append_right _ (by simpa using hps), List.eraseP_cons_of_pos ha]

/-- A search removes the first node with the id, or finds none and changes nothing. -/
theorem Holds.removeList (h : family.Holds held) (i : I) (wanted : ℤ) :
    let p := fun a => decide ((family.heap a).id = wanted)
    (family.call (.removeList i wanted)).1 = (held i).find? p ∧
      (family.call (.removeList i wanted)).2.Holds
        (Function.update held i ((held i).eraseP p)) ∧
      ((held i).find? p = none → (family.call (.removeList i wanted)).2 = family) := by
  intro p
  rcases removeList_spec (h.represents i) wanted with ⟨hno, heq⟩ |
    ⟨ps, a, qs, hxs, hps, ha, hreturn, hrep, hframe⟩
  · have hcall : family.call (.removeList i wanted) = (none, family) := by simp [call, heq]
    have hnone : (held i).find? p = none := List.find?_eq_none.mpr (by simpa [p] using hno)
    have hkeep : (held i).eraseP p = held i := List.eraseP_of_forall_not (by simpa [p] using hno)
    rw [hcall, hnone, hkeep, Function.update_eq_self]
    exact ⟨rfl, h, fun _ => rfl⟩
  · obtain ⟨hfind, herase⟩ := @find?_eraseP_first A p ps qs a (by simpa [p] using hps)
      (by simpa [p] using ha)
    rw [hxs, hfind, herase]
    refine ⟨hreturn, h.replace hrep ?_ ?_, by simp⟩
    · intro j hj b hb
      exact hframe b (h.disjoint j i hj hb)
    · intro j hj b hb hmem
      apply h.disjoint j i hj hb
      rw [hxs]
      simp only [List.mem_append, List.mem_cons] at hmem ⊢
      tauto

theorem Holds.headRemove (h : family.Holds held) (i : I) :
    (family.call (.headRemove i)).1 = (held i).head? ∧
      (family.call (.headRemove i)).2.Holds (Function.update held i (held i).tail) ∧
      ((held i).head? = none → (family.call (.headRemove i)).2 = family) := by
  cases hxs : held i with
  | nil =>
    have hlist := h.represents i
    rw [hxs] at hlist
    have hcall : family.call (.headRemove i) = (none, family) := by
      simp [call, headRemove_nil hlist]
    rw [hcall, List.tail_nil, ← hxs, Function.update_eq_self]
    exact ⟨by rw [hxs]; rfl, h, fun _ => rfl⟩
  | cons a xs =>
    have hlist := h.represents i
    rw [hxs] at hlist
    obtain ⟨hreturn, hrep, hframe⟩ := headRemove_cons hlist
    refine ⟨hreturn, h.replace hrep ?_ ?_, by simp⟩
    · intro j hj b hb
      apply hframe
      rw [← hxs]
      exact h.disjoint j i hj hb
    · intro j hj b hb hmem
      apply h.disjoint j i hj hb
      rw [hxs]
      exact List.mem_cons_of_mem a hmem

@[simp] theorem call_id (family : ListFamily I A) (request : ListCall I A) (a : A) :
    ((family.call request).2.heap a).id = (family.heap a).id := by
  cases request <;> simp [call]

/-- What one call does to a sound family, seen on its sequences. -/
structure Refines (move : Move (ListFamily I A) (ListCall I A)) : Prop where
  returned : (move.before.call move.label).1 =
    (expected (fun a => (move.before.heap a).id) move.before.contents move.label).1
  contents : move.after.contents =
    (expected (fun a => (move.before.heap a).id) move.before.contents move.label).2
  ids : ∀ a, (move.after.heap a).id = (move.before.heap a).id
  unchanged : (∀ i item, move.label ≠ .insertList i item) →
    (move.before.call move.label).1 = none → move.after = move.before

theorem Sound.call (h : family.Sound) {request : ListCall I A} (hadmits : family.Admits request)
    {after : ListFamily I A} (hstep : family.step request = some after) :
    after.Sound ∧ Refines ⟨family, request, after⟩ := by
  obtain rfl : (family.call request).2 = after := Option.some.inj hstep
  have hids (a : A) : ((family.call request).2.heap a).id = (family.heap a).id := call_id ..
  cases request with
  | insertList i item =>
    have hlists := h.insertList i hadmits
    exact ⟨hlists.sound, rfl, hlists.contents_eq, hids, fun hne => absurd rfl (hne i item)⟩
  | removeList i wanted =>
    obtain ⟨hreturn, hlists, hnone⟩ := h.removeList i wanted
    exact ⟨hlists.sound, hreturn, hlists.contents_eq, hids,
      fun _ hempty => hnone (hreturn ▸ hempty)⟩
  | headRemove i =>
    obtain ⟨hreturn, hlists, hnone⟩ := h.headRemove i
    exact ⟨hlists.sound, hreturn, hlists.contents_eq, hids,
      fun _ hempty => hnone (hreturn ▸ hempty)⟩

/-- Over every run of calls the lists stay chains of disjoint sets of nodes, and each call
returns and leaves what it does on sequences. -/
theorem lists_refine_sequences (hstart : family.Sound)
    (hrun : Run step Admits family history last) :
    (last.Sound ∧ ∀ i, ((last.lists i).head = none ↔ last.contents i = []) ∧
      ((last.lists i).tail = none ↔ last.contents i = [])) ∧
    ∀ m ∈ history, m.before.Sound ∧ m.after.Sound ∧ Refines m := by
  obtain ⟨hbefore, hlast⟩ := hrun.invariant_moves (P := Sound) hstart
    fun t request u ht hadmits hstep => (ht.call hadmits hstep).1
  refine ⟨⟨hlast, hlast.ends⟩, fun m hm => ?_⟩
  obtain ⟨hadmits, hstep⟩ := hrun.move_mem hm
  exact ⟨hbefore m hm, (hbefore m hm).call hadmits hstep⟩

/-- Two lists over one heap, both empty. -/
def twoLists : ListFamily Bool ℕ := ⟨fun a => ⟨some (a + 1), a⟩, fun _ => initList⟩

/-- Nodes 7 and 8 enter the first list, 7 moves to the second with its stale pointer. -/
theorem lists_refine_sequences_moved :
    ∃ history last, Run step Admits twoLists history last ∧ last.Sound ∧
      last.contents true = [8] ∧ last.contents false = [7] := by
  let first := (twoLists.call (.insertList true 7)).2
  let second := (first.call (.insertList true 8)).2
  let third := (second.call (.headRemove true)).2
  have hfirst : twoLists.Admits (.insertList true 7) := show ∀ i, 7 ∉ twoLists.contents i by decide
  have hsecond : first.Admits (.insertList true 8) := show ∀ i, 8 ∉ first.contents i by decide
  have hthird : third.Admits (.insertList false 7) := show ∀ i, 7 ∉ third.contents i by decide
  have hremove : second.Admits (.headRemove true) := trivial
  have hrun : Run step Admits twoLists _ third :=
    ((Run.start.next hfirst rfl).next hsecond rfl).next hremove rfl
  have hlast := hrun.next hthird rfl
  have hstart : twoLists.Sound := sound_initList _
  exact ⟨_, _, hlast, (lists_refine_sequences hstart hlast).1.1, rfl, rfl⟩

end ListFamily
end SkhuOS
