import Mathlib.Data.List.Nodup
import Mathlib.Logic.Function.Basic

/-! What a re-entrant lock with first-come service is for. The line holds everyone with an
unmatched acquire, in the order of the outermost calls; whoever is first in it owns the
lock, and the others wait. -/
namespace SkhuOS.Foundation

structure FifoLock (A : Type*) where
  line : List A
  depth : A → ℕ
  /-- All outermost acquire calls so far, in order. -/
  requests : List A

namespace FifoLock

variable {A : Type*}

def free : FifoLock A := ⟨[], fun _ => 0, []⟩

def acquire [DecidableEq A] (l : FifoLock A) (a : A) : FifoLock A where
  line := if l.depth a = 0 then l.line ++ [a] else l.line
  depth := Function.update l.depth a (l.depth a + 1)
  requests := if l.depth a = 0 then l.requests ++ [a] else l.requests

def release [DecidableEq A] (l : FifoLock A) (a : A) : FifoLock A where
  line := if l.depth a = 1 then l.line.erase a else l.line
  depth := Function.update l.depth a (l.depth a - 1)
  requests := l.requests

/-- The line lists each process with an unmatched acquire once, and who waits has made
one call. -/
structure WellFormed (l : FifoLock A) : Prop where
  nodup : l.line.Nodup
  mem_iff : ∀ a, a ∈ l.line ↔ l.depth a ≠ 0
  waiting : ∀ a ∈ l.line.tail, l.depth a = 1

variable {l : FifoLock A} {a b : A} {waiters : List A}

theorem free_wellFormed : (free : FifoLock A).WellFormed :=
  ⟨by simp [free], by simp [free], by simp [free]⟩

/-- Who is in no line has depth zero. -/
theorem WellFormed.depth_of_not_mem (h : l.WellFormed) (ha : a ∉ l.line) : l.depth a = 0 :=
  not_not.mp fun hz => ha ((h.mem_iff a).mpr hz)

variable [DecidableEq A]

theorem depth_acquire_le (l : FifoLock A) (a b : A) : (l.acquire a).depth b ≤ l.depth b + 1 := by
  simp only [acquire, Function.update_apply]
  split
  next h => exact Nat.le_of_eq (by rw [h])
  next => exact Nat.le_succ _

theorem depth_release_le (l : FifoLock A) (a b : A) : (l.release a).depth b ≤ l.depth b := by
  simp only [release, Function.update_apply]
  split
  next h =>
    rw [h]
    exact Nat.sub_le _ _
  next => exact Nat.le_refl _

/-- Only a process that does not wait can make a call. -/
theorem WellFormed.acquire (h : l.WellFormed) (ha : a ∉ l.line.tail) :
    (l.acquire a).WellFormed := by
  by_cases hz : l.depth a = 0
  · have hout : a ∉ l.line := fun hm => (h.mem_iff a).mp hm hz
    have hline : (l.acquire a).line = l.line ++ [a] := if_pos hz
    refine ⟨?_, fun b => ?_, fun b hb => ?_⟩
    · rw [hline]
      exact List.nodup_append.mpr ⟨h.nodup, by simp, fun b hb c hc => by
        rw [List.mem_singleton.mp hc]
        exact ne_of_mem_of_not_mem hb hout⟩
    · rw [hline, List.mem_append, List.mem_singleton, h.mem_iff]
      by_cases hba : b = a
      · subst hba; simp [FifoLock.acquire]
      · simp [FifoLock.acquire, hba]
    · by_cases hba : b = a
      · subst hba; simp [FifoLock.acquire, hz]
      · rw [hline] at hb
        simp only [FifoLock.acquire, Function.update_of_ne hba]
        apply h.waiting
        cases hl : l.line with
        | nil => simp [hl] at hb
        | cons c cs =>
          simp only [hl, List.cons_append, List.tail_cons, List.mem_append,
            List.mem_singleton] at hb ⊢
          exact hb.resolve_right hba
  · have hline : (l.acquire a).line = l.line := if_neg hz
    refine ⟨by rw [hline]; exact h.nodup, fun b => ?_, fun b hb => ?_⟩
    · rw [hline, h.mem_iff]
      by_cases hba : b = a
      · subst hba; simp [FifoLock.acquire, hz]
      · simp [FifoLock.acquire, hba]
    · rw [hline] at hb
      have hba : b ≠ a := ne_of_mem_of_not_mem hb ha
      simpa [FifoLock.acquire, hba] using h.waiting b hb

theorem WellFormed.release (h : l.WellFormed) (ha : a ∉ l.line.tail) :
    (l.release a).WellFormed := by
  have hdepth (b : A) : (l.release a).depth b = if b = a then l.depth a - 1 else l.depth b := by
    simp [FifoLock.release, Function.update_apply]
  by_cases hone : l.depth a = 1
  · have hline : (l.release a).line = l.line.erase a := if_pos hone
    refine ⟨by rw [hline]; exact h.nodup.erase a, fun b => ?_, fun b hb => ?_⟩
    · rw [hline, h.nodup.mem_erase_iff, h.mem_iff, hdepth]
      split <;> simp_all
    · rw [hline] at hb
      have hsub : b ∈ l.line.tail := by
        cases hl : l.line with
        | nil => simp [hl] at hb
        | cons c cs =>
          rw [hl] at hb ha
          by_cases hca : c = a
          · subst hca
            rw [List.erase_cons_head] at hb
            exact List.mem_of_mem_tail hb
          · rw [List.erase_cons_tail (by simpa using hca)] at hb
            exact List.mem_of_mem_erase hb
      have hba : b ≠ a := ne_of_mem_of_not_mem hsub ha
      rw [hdepth, if_neg hba]
      exact h.waiting b hsub
  · have hline : (l.release a).line = l.line := if_neg hone
    refine ⟨by rw [hline]; exact h.nodup, fun b => ?_, fun b hb => ?_⟩
    · rw [hline, h.mem_iff, hdepth]
      split
      next hba => subst hba; omega
      · rfl
    · rw [hline] at hb
      have hba : b ≠ a := ne_of_mem_of_not_mem hb ha
      rw [hdepth, if_neg hba]
      exact h.waiting b hb

/-- An outermost call joins the line, a nested one leaves it alone. -/
theorem acquire_outer (h : l.depth a = 0) :
    (l.acquire a).line = l.line ++ [a] ∧ (l.acquire a).requests = l.requests ++ [a] :=
  ⟨if_pos h, if_pos h⟩

theorem acquire_nested (h : l.depth a ≠ 0) :
    (l.acquire a).line = l.line ∧ (l.acquire a).requests = l.requests :=
  ⟨if_neg h, if_neg h⟩

/-- The outermost release of the owner lets the next one in. -/
theorem release_outer (h : l.depth a = 1) (hline : l.line = a :: waiters) :
    (l.release a).line = waiters := by
  rw [release, if_pos h, hline, List.erase_cons_head]

theorem release_nested (h : l.depth a ≠ 1) : (l.release a).line = l.line := if_neg h

@[simp] theorem acquire_depth :
    (l.acquire a).depth b = if b = a then l.depth a + 1 else l.depth b := by
  simp [acquire, Function.update_apply]

@[simp] theorem release_depth :
    (l.release a).depth b = if b = a then l.depth a - 1 else l.depth b := by
  simp [release, Function.update_apply]

/-- A release without an acquire changes nothing. -/
theorem release_of_depth (h : l.depth a = 0) : l.release a = l := by
  have hdepth : Function.update l.depth a (l.depth a - 1) = l.depth := by
    rw [Function.update_eq_self_iff, h]
  rw [release, if_neg (by omega), hdepth]

end FifoLock
end SkhuOS.Foundation
