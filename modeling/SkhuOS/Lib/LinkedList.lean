import Mathlib.Data.Int.Notation
import SkhuOS.Foundation.Chain

/-! The intrusive list of `kernel/lib/LinkedList.c`. A node is a record at an
address of a shared heap, so one node can be linked by any of several lists;
a list only holds its two ends and its length. -/
namespace SkhuOS
open Foundation

structure Node (A : Type*) where
  next : Option A
  id : ℤ

structure LinkedList (A : Type*) where
  head : Option A
  tail : Option A
  count : ℕ
  deriving DecidableEq

variable {A : Type*} {heap heap' : A → Node A} {list : LinkedList A} {xs ys : List A} {a b : A}

def initList : LinkedList A := ⟨none, none, 0⟩

/-- The list is a chain from its head to its tail through exactly `xs`. -/
structure Represents (heap : A → Node A) (list : LinkedList A) (xs : List A) : Prop where
  chain : Segment (fun a => (heap a).next) list.head xs none
  tail : list.tail = xs.getLast?
  count : list.count = xs.length
  nodup : xs.Nodup

/-- The nodes of a list, read off by following the chain. -/
def LinkedList.nodes (heap : A → Node A) (list : LinkedList A) : List A :=
  walk (fun a => (heap a).next) list.head list.count

theorem Represents.nodes_eq (h : Represents heap list xs) : list.nodes heap = xs := by
  rw [LinkedList.nodes, h.count]
  exact h.chain.walk_eq

theorem Represents.congr (h : Represents heap list xs) (heq : ∀ a ∈ xs, heap' a = heap a) :
    Represents heap' list xs :=
  ⟨h.chain.congr fun a ha => by rw [heq a ha], h.tail, h.count, h.nodup⟩

theorem Represents.head_eq (h : Represents heap list xs) : list.head = xs.head? :=
  h.chain.head_eq

theorem represents_initList : Represents heap (initList : LinkedList A) [] :=
  ⟨rfl, rfl, rfl, List.nodup_nil⟩

variable [DecidableEq A]

/-- Store the `next` field of the node at `a`. -/
def setNext (heap : A → Node A) (a : A) (next : Option A) : A → Node A :=
  Function.update heap a { heap a with next := next }

/-- The same store through a pointer. No caller passes NULL while the list is intact. -/
def setNextAt (heap : A → Node A) (p : Option A) (next : Option A) : A → Node A :=
  match p with
  | none => heap
  | some a => setNext heap a next

def insertList (heap : A → Node A) (list : LinkedList A) (item : A) :
    (A → Node A) × LinkedList A :=
  let heap := setNext heap item none
  if list.head = none then
    (heap, ⟨some item, some item, list.count + 1⟩)
  else
    (setNextAt heap list.tail (some item), ⟨list.head, some item, list.count + 1⟩)

/-- The four cases of `removeList` once the node `cur` behind `pre` is found. -/
def unlink (heap : A → Node A) (list : LinkedList A) (pre : Option A) (cur : A) :
    (A → Node A) × LinkedList A :=
  if list.head = some cur ∧ list.tail = some cur then
    (heap, ⟨none, none, list.count - 1⟩)
  else if list.head = some cur then
    (heap, ⟨(heap cur).next, list.tail, list.count - 1⟩)
  else if list.tail = some cur then
    (setNextAt heap pre none, ⟨list.head, pre, list.count - 1⟩)
  else
    (setNextAt heap pre (heap cur).next, ⟨list.head, list.tail, list.count - 1⟩)

/-- The loop of `removeList` with its trailing pointer. The first argument bounds
the iterations; `removeList_spec` shows that the length of the list is enough. -/
def removeLoop (heap : A → Node A) (list : LinkedList A) (id : ℤ) :
    ℕ → Option A → Option A → Option A × (A → Node A) × LinkedList A
  | 0, _, _ => (none, heap, list)
  | _ + 1, _, none => (none, heap, list)
  | fuel + 1, pre, some cur =>
    if (heap cur).id = id then (some cur, unlink heap list pre cur)
    else removeLoop heap list id fuel (some cur) (heap cur).next

def removeList (heap : A → Node A) (list : LinkedList A) (id : ℤ) :
    Option A × (A → Node A) × LinkedList A :=
  removeLoop heap list id list.count list.head list.head

def headRemove (heap : A → Node A) (list : LinkedList A) :
    Option A × (A → Node A) × LinkedList A :=
  if list.count = 0 then (none, heap, list)
  else match list.head with
    | none => (none, heap, list)
    | some cur => removeList heap list (heap cur).id

@[simp] theorem setNext_id (heap : A → Node A) (a : A) (next : Option A) (b : A) :
    (setNext heap a next b).id = (heap b).id := by
  by_cases h : b = a
  · subst h; simp [setNext]
  · simp [setNext, h]

@[simp] theorem setNextAt_id (heap : A → Node A) (p next : Option A) (b : A) :
    (setNextAt heap p next b).id = (heap b).id := by cases p <;> simp [setNextAt]

theorem setNext_next (heap : A → Node A) (a : A) (next : Option A) :
    (fun b => (setNext heap a next b).next) =
      Function.update (fun b => (heap b).next) a next := by
  funext b
  by_cases h : b = a
  · subst h; simp [setNext]
  · simp [setNext, h]

theorem setNext_of_ne (h : b ≠ a) (next : Option A) : setNext heap a next b = heap b := by
  simp [setNext, h]

/-- `insertList` appends, touches only the new node and the old tail, and keeps every id. -/
theorem insertList_represents (h : Represents heap list xs) (ha : a ∉ xs) :
    Represents (insertList heap list a).1 (insertList heap list a).2 (xs ++ [a]) := by
  have hnodup : (xs ++ [a]).Nodup := by
    simpa [List.nodup_append, h.nodup] using fun b hb (he : b = a) => ha (he ▸ hb)
  rcases List.eq_nil_or_concat' xs with rfl | ⟨ys, t, hxs⟩
  · have hhead : list.head = none := by simpa using h.head_eq
    refine ⟨?_, ?_, ?_, hnodup⟩ <;> simp [insertList, hhead, h.count, setNext]
  · subst hxs
    have hhead : list.head ≠ none := by rw [h.head_eq]; simp
    have htail : list.tail = some t := by rw [h.tail]; simp
    refine ⟨?_, ?_, ?_, hnodup⟩
    · simp only [insertList, hhead, if_false, htail, setNextAt]
      rw [setNext_next, setNext_next]
      exact h.chain.snoc ha (fun ht => by
        have := h.nodup
        rw [List.nodup_append] at this
        exact this.2.2 t ht t (by simp) rfl)
    · simp [insertList, hhead]
    · simp [insertList, hhead, h.count]

theorem insertList_of_not_mem (h : Represents heap list xs) (hb : b ∉ xs) (hne : b ≠ a) :
    (insertList heap list a).1 b = heap b := by
  unfold insertList
  split
  · exact setNext_of_ne hne _
  · cases ht : list.tail with
    | none => exact setNext_of_ne hne _
    | some t =>
      have : t ∈ xs := List.mem_of_getLast? (h.tail.symm.trans ht)
      simp only [setNextAt]
      rw [setNext_of_ne (ne_of_mem_of_not_mem this hb).symm, setNext_of_ne hne]

@[simp] theorem insertList_id (heap : A → Node A) (list : LinkedList A) (a b : A) :
    ((insertList heap list a).1 b).id = (heap b).id := by
  unfold insertList
  split <;> simp

/-- Unlinking the node behind `pre` joins what stands before and after it. -/
theorem unlink_represents (h : Represents heap list (xs ++ a :: ys)) {pre : Option A}
    (hpre : xs ≠ [] → pre = xs.getLast?) :
    Represents (unlink heap list pre a).1 (unlink heap list pre a).2 (xs ++ ys) := by
  have hnodup := h.nodup
  have hcount := h.count
  rw [List.nodup_append, List.nodup_cons] at hnodup
  obtain ⟨hxs, ⟨hays, hys⟩, hdis⟩ := hnodup
  have haxs : a ∉ xs := fun hm => hdis a hm a (by simp) rfl
  have hsub : (xs ++ ys).Nodup := List.nodup_append.mpr
    ⟨hxs, hys, fun b hb c hc => hdis b hb c (List.mem_cons_of_mem _ hc)⟩
  have hlen : list.count - 1 = (xs ++ ys).length := by
    simp only [List.length_append, List.length_cons] at hcount ⊢
    omega
  have hhead : list.head = some a ↔ xs = [] := by
    rw [h.head_eq]
    cases xs with
    | nil => simp
    | cons x xs => simpa using fun he => haxs (by simp [he])
  have htail : list.tail = some a ↔ ys = [] := by
    rw [h.tail, List.getLast?_append_of_ne_nil _ (by simp)]
    rcases List.eq_nil_or_concat' ys with rfl | ⟨zs, z, rfl⟩
    · simp
    · have hza : z ≠ a := fun he => hays (by simp [he])
      simp [List.getLast?_cons, hza]
  have hlast (hy : ys ≠ []) : list.tail = (xs ++ ys).getLast? := by
    rw [h.tail, List.getLast?_append_of_ne_nil _ (by simp), List.getLast?_append_of_ne_nil _ hy]
    obtain ⟨zs, z, rfl⟩ := (List.eq_nil_or_concat' ys).resolve_left hy
    simp [List.getLast?_cons]
  have hchain := h.chain
  by_cases hx : xs = []
  · subst hx
    by_cases hy : ys = []
    · subst hy
      refine ⟨?_, ?_, ?_, hsub⟩ <;> simp_all [unlink]
    · have := hlast hy
      refine ⟨?_, ?_, ?_, hsub⟩ <;> simp_all [unlink]
  · obtain ⟨ws, w, rfl⟩ := (List.eq_nil_or_concat' xs).resolve_left hx
    have hp : pre = some w := by simpa using hpre hx
    have hw : w ∉ ws := fun hm => by
      rw [List.nodup_append] at hxs
      exact hxs.2.2 w hm w (by simp) rfl
    have hwys : w ∉ ys := fun hm => hdis w (by simp) w (by simp [hm]) rfl
    have hbypass := Segment.bypass (show Segment (fun b => (heap b).next) list.head
      (ws ++ w :: a :: ys) none by simpa using hchain) hw hwys
    have hnext (v : Option A) (hv : v = (heap a).next) :
        Segment (fun b => (setNextAt heap pre v b).next) list.head (ws ++ [w] ++ ys) none := by
      rw [hp, hv]
      simp only [setNextAt]
      rw [setNext_next]
      simpa using hbypass
    by_cases hy : ys = []
    · subst hy
      have hlast : (heap a).next = none := hchain.last
      refine ⟨?_, ?_, ?_, hsub⟩
      · simpa [unlink, hhead, htail] using hnext none hlast.symm
      · simp [unlink, hhead, htail, hp]
      · simpa [unlink, hhead, htail] using hlen
    · refine ⟨?_, ?_, ?_, hsub⟩
      · simpa [unlink, hhead, htail, hy] using hnext _ rfl
      · simpa [unlink, hhead, htail, hy] using hlast hy
      · simpa [unlink, hhead, htail, hy] using hlen

@[simp] theorem unlink_id (heap : A → Node A) (list : LinkedList A) (pre : Option A) (a b : A) :
    ((unlink heap list pre a).1 b).id = (heap b).id := by
  unfold unlink
  split_ifs <;> simp

theorem unlink_of_ne {pre : Option A} (hb : pre ≠ some b) :
    (unlink heap list pre a).1 b = heap b := by
  have hset (v : Option A) : setNextAt heap pre v b = heap b := by
    cases pre with
    | none => rfl
    | some p => exact setNext_of_ne (fun he => hb (by rw [he])) _
  unfold unlink
  split_ifs <;> simp [hset]

/-- The loop stops at the first node with the id, wherever it starts in the chain. -/
theorem removeLoop_spec (xs ys : List A) (pre : Option A) (fuel : ℕ) {id : ℤ}
    (h : Represents heap list (xs ++ ys))
    (hxs : ∀ b ∈ xs, (heap b).id ≠ id) (hpre : xs ≠ [] → pre = xs.getLast?)
    (hfuel : ys.length ≤ fuel) {cur : Option A}
    (hcur : Segment (fun a => (heap a).next) cur ys none) :
    (∀ b ∈ ys, (heap b).id ≠ id) ∧ removeLoop heap list id fuel pre cur = (none, heap, list) ∨
    ∃ ps a qs pre', ys = ps ++ a :: qs ∧ (∀ b ∈ ps, (heap b).id ≠ id) ∧ (heap a).id = id ∧
      (xs ++ ps ≠ [] → pre' = (xs ++ ps).getLast?) ∧ (∀ b, pre' = some b → b ∈ xs ++ ps ∨ pre' = pre) ∧
      removeLoop heap list id fuel pre cur = (some a, unlink heap list pre' a) := by
  induction ys generalizing xs pre fuel cur with
  | nil =>
    left
    obtain rfl : cur = none := hcur
    cases fuel <;> simp [removeLoop]
  | cons y ys ih =>
    obtain ⟨rfl, hrest⟩ := hcur
    obtain ⟨fuel, rfl⟩ : ∃ n, fuel = n + 1 := ⟨fuel - 1, by simp at hfuel; omega⟩
    by_cases hy : (heap y).id = id
    · right
      exact ⟨[], y, ys, pre, rfl, by simp, hy, by simpa using hpre, by simp, by
        simp [removeLoop, hy]⟩
    · have hstep := ih (xs ++ [y]) (some y) fuel (by simpa using h)
        (by simpa [or_imp, forall_and, hy] using hxs) (by simp) (by simpa using hfuel) hrest
      simp only [removeLoop, hy, if_false]
      rcases hstep with ⟨hno, heq⟩ | ⟨ps, a, qs, pre', rfl, hps, ha, hlast, hmem, heq⟩
      · exact .inl ⟨by simpa [hy] using hno, heq⟩
      · refine .inr ⟨y :: ps, a, qs, pre', rfl, by simpa [hy] using hps, ha, by simpa using hlast,
          fun b hb => ?_, heq⟩
        rcases hmem b hb with hm | hp
        · exact .inl (by simpa using hm)
        · rw [hp] at hb
          exact .inl (by simp [Option.some.inj hb])

/-- `removeList` unlinks the first node with the id, or finds none and changes nothing. -/
theorem removeList_spec (h : Represents heap list xs) (id : ℤ) :
    (∀ b ∈ xs, (heap b).id ≠ id) ∧ removeList heap list id = (none, heap, list) ∨
    ∃ ps a qs, xs = ps ++ a :: qs ∧ (∀ b ∈ ps, (heap b).id ≠ id) ∧ (heap a).id = id ∧
      (removeList heap list id).1 = some a ∧
      Represents (removeList heap list id).2.1 (removeList heap list id).2.2 (ps ++ qs) ∧
      (∀ b ∉ xs, (removeList heap list id).2.1 b = heap b) := by
  have hno : ∀ b ∈ ([] : List A), (heap b).id ≠ id := by simp
  have hloop := removeLoop_spec [] xs list.head list.count h hno (by simp) (Nat.le_of_eq h.count.symm) h.chain
  rcases hloop with ⟨hno, heq⟩ | ⟨ps, a, qs, pre, rfl, hps, ha, hpre, hmem, heq⟩
  · exact .inl ⟨hno, heq⟩
  · right
    have heq' : removeList heap list id = (some a, unlink heap list pre a) := heq
    refine ⟨ps, a, qs, rfl, hps, ha, by rw [heq'], ?_, fun b hb => ?_⟩
    · rw [heq']
      exact unlink_represents h (by simpa using hpre)
    · rw [heq']
      apply unlink_of_ne
      intro hp
      rcases hmem b hp with hm | he
      · exact hb (by simp only [List.nil_append] at hm; simp [hm])
      · rw [he, h.head_eq] at hp
        exact hb (List.mem_of_head? hp)

@[simp] theorem removeList_id (heap : A → Node A) (list : LinkedList A) (id : ℤ) (b : A) :
    ((removeList heap list id).2.1 b).id = (heap b).id := by
  have hloop (fuel : ℕ) (pre cur : Option A) :
      ((removeLoop heap list id fuel pre cur).2.1 b).id = (heap b).id := by
    induction fuel generalizing pre cur with
    | zero => rfl
    | succ fuel ih =>
      cases cur with
      | none => rfl
      | some cur =>
        simp only [removeLoop]
        split
        · simp
        · exact ih _ _
  exact hloop _ _ _

/-- `headRemove` on an empty list finds nothing. -/
theorem headRemove_nil (h : Represents heap list []) : headRemove heap list = (none, heap, list) := by
  simp [headRemove, h.count]

/-- `headRemove` on a non-empty list unlinks its first node. -/
theorem headRemove_cons (h : Represents heap list (a :: xs)) :
    (headRemove heap list).1 = some a ∧
      Represents (headRemove heap list).2.1 (headRemove heap list).2.2 xs ∧
      (∀ b ∉ a :: xs, (headRemove heap list).2.1 b = heap b) := by
  have hhead : list.head = some a := by simpa using h.head_eq
  have heq : headRemove heap list = removeList heap list (heap a).id := by
    simp [headRemove, hhead, h.count]
  rw [heq]
  rcases removeList_spec h (heap a).id with ⟨hno, -⟩ | ⟨ps, b, qs, hxs, hps, -, hfst, hrep, hframe⟩
  · exact absurd rfl (hno a (by simp))
  · cases ps with
    | nil =>
      obtain ⟨rfl, rfl⟩ := List.cons.inj hxs
      exact ⟨hfst, hrep, hframe⟩
    | cons p ps =>
      obtain ⟨rfl, -⟩ := List.cons.inj hxs
      exact absurd rfl (hps a (by simp))

@[simp] theorem headRemove_id (heap : A → Node A) (list : LinkedList A) (b : A) :
    ((headRemove heap list).2.1 b).id = (heap b).id := by
  unfold headRemove
  split
  · rfl
  · split <;> simp

end SkhuOS
