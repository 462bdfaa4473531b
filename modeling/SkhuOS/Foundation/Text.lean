import Mathlib.Data.List.Basic
import Mathlib.Algebra.Order.Group.Nat
import Mathlib.Logic.Function.Basic

/-! A text in a buffer that ends it with a terminator. -/
namespace SkhuOS.Foundation

variable {A : Type*} {nul : A} {mem mem' : ℕ → A} {text text' : List A} {a : A}

/-- The buffer starts with the text and a terminator, and the text holds no terminator. -/
structure Holds (nul : A) (mem : ℕ → A) (text : List A) : Prop where
  reads : ∀ i ≤ text.length, mem i = text.getD i nul
  proper : nul ∉ text

namespace Holds

variable (h : Holds nul mem text)

include h

theorem end_eq : mem text.length = nul := by
  rw [h.reads _ le_rfl, List.getD_eq_getElem?_getD, List.getElem?_eq_none le_rfl]
  rfl

theorem reads_lt {i : ℕ} (hi : i < text.length) : mem i = text[i] := by
  rw [h.reads i hi.le, List.getD_eq_getElem?_getD, List.getElem?_eq_getElem hi]
  rfl

theorem ne_nul {i : ℕ} (hi : i < text.length) : mem i ≠ nul := by
  rw [h.reads_lt hi]
  exact fun he => h.proper (he ▸ List.getElem_mem hi)

theorem congr (hsame : ∀ i ≤ text.length, mem' i = mem i) : Holds nul mem' text :=
  ⟨fun i hi => (hsame i hi).trans (h.reads i hi), h.proper⟩

/-- The terminator is found where the text ends. -/
theorem length_eq {n : ℕ} (hn : mem n = nul) (hfirst : ∀ i < n, mem i ≠ nul) : n = text.length := by
  rcases lt_trichotomy n text.length with hlt | heq | hgt
  · exact absurd hn (h.ne_nul hlt)
  · exact heq
  · exact absurd h.end_eq (hfirst _ hgt)

theorem unique (h' : Holds nul mem text') : text = text' := by
  have hlen : text.length = text'.length := h'.length_eq h.end_eq fun _ hi => h.ne_nul hi
  apply List.ext_getElem hlen
  intro i hi hi'
  rw [← h.reads_lt hi, h'.reads_lt hi']

/-- More text behind the text, and a new terminator. -/
theorem extend {more : List A} (hmore : nul ∉ more) (hold : ∀ i < text.length, mem' i = mem i)
    (hnew : ∀ i (hi : i < more.length), mem' (text.length + i) = more[i])
    (hend : mem' (text.length + more.length) = nul) : Holds nul mem' (text ++ more) := by
  constructor
  · intro i hi
    rw [List.length_append] at hi
    rw [List.getD_eq_getElem?_getD]
    by_cases hlt : i < text.length
    · rw [hold i hlt, h.reads_lt hlt, List.getElem?_append_left hlt, List.getElem?_eq_getElem hlt]
      rfl
    · obtain ⟨k, rfl⟩ := Nat.exists_eq_add_of_le (Nat.le_of_not_lt hlt)
      rw [List.getElem?_append_right (by omega), Nat.add_sub_cancel_left]
      rcases Nat.lt_or_eq_of_le (show k ≤ more.length by omega) with hk | rfl
      · rw [hnew k hk, List.getElem?_eq_getElem hk]
        rfl
      · rw [hend, List.getElem?_eq_none le_rfl]
        rfl
  · intro hmem
    rcases List.mem_append.mp hmem with hmem | hmem
    · exact h.proper hmem
    · exact hmore hmem

theorem append [DecidableEq A] (ha : a ≠ nul) : Holds nul
    (Function.update (Function.update mem text.length a) (text.length + 1) nul)
      (text ++ [a]) := by
  apply h.extend
  · exact fun hmem => ha (List.mem_singleton.mp hmem).symm
  · intro i hi
    rw [Function.update_of_ne (by omega), Function.update_of_ne (by omega)]
  · intro i hi
    obtain rfl : i = 0 := Nat.lt_one_iff.mp hi
    rw [Function.update_of_ne (by omega)]
    exact Function.update_self _ _ _
  · exact Function.update_self _ _ _

theorem dropLast (hne : text ≠ []) :
    Holds nul (Function.update mem (text.length - 1) nul) text.dropLast := by
  have hpos := List.length_pos_of_ne_nil hne
  constructor
  · intro i hi
    rw [List.length_dropLast] at hi
    rw [List.getD_eq_getElem?_getD]
    rcases Nat.lt_or_eq_of_le hi with hlt | rfl
    · rw [Function.update_of_ne (by omega), h.reads_lt (by omega), List.getElem?_dropLast,
        if_pos hlt, List.getElem?_eq_getElem (by omega)]
      rfl
    · rw [Function.update_self, List.getElem?_eq_none (by simp)]
      rfl
  · exact fun hmem => h.proper (List.dropLast_subset _ hmem)

/-- The rest of a text is a text. -/
theorem drop {k : ℕ} (hk : k ≤ text.length) : Holds nul (fun i => mem (k + i)) (text.drop k) := by
  constructor
  · intro i hi
    rw [List.length_drop] at hi
    rw [h.reads (k + i) (by omega), List.getD_eq_getElem?_getD, List.getD_eq_getElem?_getD,
      List.getElem?_drop]
  · exact fun hmem => h.proper (List.mem_of_mem_drop hmem)

end Holds

theorem Holds.nil (hmem : mem 0 = nul) : Holds nul mem [] := by
  constructor
  · intro i hi
    obtain rfl : i = 0 := Nat.le_zero.mp hi
    exact hmem
  · exact List.not_mem_nil

theorem Holds.cons (ha : a ≠ nul) (hmem : mem 0 = a) (h : Holds nul (fun i => mem (i + 1)) text) :
    Holds nul mem (a :: text) := by
  constructor
  · intro i hi
    cases i with
    | zero => exact hmem
    | succ i => exact h.reads i (Nat.le_of_succ_le_succ hi)
  · intro hnul
    rcases List.mem_cons.mp hnul with heq | htail
    · exact ha heq.symm
    · exact h.proper htail

theorem Holds.clear (nul : A) (mem : ℕ → A) : Holds nul (Function.update mem 0 nul) [] :=
  .nil (Function.update_self _ _ _)

end SkhuOS.Foundation
