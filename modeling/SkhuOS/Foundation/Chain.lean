import Mathlib.Data.List.Basic
import Mathlib.Logic.Function.Basic

/-! Singly linked chains in a shared heap, seen only through the successor map.
`Segment next p xs q` says that following `next` from `p` visits exactly `xs` and
then stands at `q`; a whole list is a segment that ends at `none`. -/
namespace SkhuOS.Foundation

variable {A : Type*} {next next' : A → Option A} {p q r : Option A} {a b : A}
  {xs ys zs : List A}

/-- Following `next` from `p` visits `xs` in order and then stands at `q`. -/
def Segment (next : A → Option A) : Option A → List A → Option A → Prop
  | p, [], q => p = q
  | p, x :: xs, q => p = some x ∧ Segment next (next x) xs q

@[simp] theorem segment_nil : Segment next p [] q ↔ p = q := Iff.rfl

@[simp] theorem segment_cons :
    Segment next p (a :: xs) q ↔ p = some a ∧ Segment next (next a) xs q := Iff.rfl

theorem segment_append :
    Segment next p (xs ++ ys) r ↔ ∃ q, Segment next p xs q ∧ Segment next q ys r := by
  induction xs generalizing p with
  | nil => simp
  | cons x xs ih => simp [ih, and_assoc]

/-- Only the successors of visited nodes matter. -/
theorem Segment.congr (h : Segment next p xs q) (heq : ∀ a ∈ xs, next' a = next a) :
    Segment next' p xs q := by
  induction xs generalizing p with
  | nil => exact h
  | cons x xs ih =>
    refine ⟨h.1, ?_⟩
    rw [heq x (by simp)]
    exact ih h.2 fun a ha => heq a (by simp [ha])

theorem Segment.update [DecidableEq A] (h : Segment next p xs q) (ha : a ∉ xs) (v : Option A) :
    Segment (Function.update next a v) p xs q :=
  h.congr fun _ hb => Function.update_of_ne (ne_of_mem_of_not_mem hb ha) _ _

theorem Segment.head_eq (h : Segment next p xs none) : p = xs.head? := by
  cases xs with
  | nil => simpa using h
  | cons x xs => simpa using h.1

/-- The last node of a chain that ends points nowhere. -/
theorem Segment.last (h : Segment next p (xs ++ [a]) none) : next a = none := by
  obtain ⟨_, _, h⟩ := segment_append.mp h
  exact h.2

/-- The nodes met in at most `n` steps from `p`. -/
def walk (next : A → Option A) : Option A → ℕ → List A
  | _, 0 => []
  | none, _ + 1 => []
  | some a, n + 1 => a :: walk next (next a) n

theorem Segment.walk_eq (h : Segment next p xs none) : walk next p xs.length = xs := by
  induction xs generalizing p with
  | nil => simp [walk]
  | cons x xs ih => simp [h.1, walk, ih h.2]

/-- A node appended behind the last one. -/
theorem Segment.snoc [DecidableEq A] (h : Segment next p (xs ++ [a]) none) (hb : b ∉ xs ++ [a])
    (hnodup : a ∉ xs) : Segment (Function.update (Function.update next b none) a (some b)) p
      (xs ++ [a] ++ [b]) none := by
  simp only [List.mem_append, List.mem_singleton, not_or] at hb
  obtain ⟨q, hxs, rfl, -⟩ := segment_append.mp h
  rw [List.append_assoc, segment_append]
  refine ⟨some a, (hxs.update hb.1 none).update hnodup _, rfl, ?_⟩
  simp [Function.update_of_ne hb.2]

/-- Bypassing an inner node leaves the chain without it. -/
theorem Segment.bypass [DecidableEq A] (h : Segment next p (xs ++ a :: b :: ys) none)
    (ha : a ∉ xs) (hys : a ∉ ys) :
    Segment (Function.update next a (next b)) p (xs ++ a :: ys) none := by
  obtain ⟨q, hxs, rfl, hb, hrest⟩ := segment_append.mp h
  rw [segment_append]
  refine ⟨some a, hxs.update ha _, rfl, ?_⟩
  rw [Function.update_self]
  exact hrest.update hys _

end SkhuOS.Foundation
