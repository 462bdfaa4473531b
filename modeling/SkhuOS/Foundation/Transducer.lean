import Mathlib.Algebra.BigOperators.Group.List.Basic
import Mathlib.Tactic.Linarith

/-! Deterministic machines that read a list of inputs and put a list out at each step, and
a criterion for two of them to put out the same. -/
namespace SkhuOS.Foundation

variable {σ τ α β : Type*}

/-- All a machine puts out on a list of inputs. -/
def outputs (step : σ → α → List β × σ) : σ → List α → List β
  | _, [] => []
  | s, a :: as => (step s a).1 ++ outputs step (step s a).2 as

/-- The state a machine is in behind a list of inputs. -/
def stateAfter (step : σ → α → List β × σ) : σ → List α → σ
  | s, [] => s
  | s, a :: as => stateAfter step (step s a).2 as

/-- Every input is fine in the state it meets. -/
def AllFine (step : σ → α → List β × σ) (fine : σ → α → Prop) : σ → List α → Prop
  | _, [] => True
  | s, a :: as => fine s a ∧ AllFine step fine (step s a).2 as

instance (step : σ → α → List β × σ) (fine : σ → α → Prop) [∀ s a, Decidable (fine s a)] :
    ∀ s as, Decidable (AllFine step fine s as)
  | _, [] => isTrue trivial
  | s, a :: as =>
    have := instDecidableAllFine step fine (step s a).2 as
    inferInstanceAs (Decidable (_ ∧ _))

variable {step : σ → α → List β × σ}

theorem outputs_append (s : σ) (as bs : List α) :
    outputs step s (as ++ bs) = outputs step s as ++ outputs step (stateAfter step s as) bs := by
  induction as generalizing s with
  | nil => rfl
  | cons a as ih => simp [outputs, stateAfter, ih]

theorem stateAfter_append (s : σ) (as bs : List α) :
    stateAfter step s (as ++ bs) = stateAfter step (stateAfter step s as) bs := by
  induction as generalizing s with
  | nil => rfl
  | cons a as ih => exact ih _

/-- Selecting from the output is selecting at each step. -/
theorem outputs_filter (p : β → Bool) (s : σ) (as : List α) :
    (outputs step s as).filter p =
      outputs (fun s a => ((step s a).1.filter p, (step s a).2)) s as := by
  induction as generalizing s with
  | nil => rfl
  | cons a as ih => simp [outputs, ih]

/-- Reading inputs through a map. -/
theorem outputs_map {γ : Type*} (f : γ → α) (s : σ) (cs : List γ) :
    outputs step s (cs.map f) = outputs (fun s c => step s (f c)) s cs := by
  induction cs generalizing s with
  | nil => rfl
  | cons c cs ih => simp [outputs, ih]

section Compare

variable {step' : τ → α → List β × τ} {coupled synced : σ → τ → Prop} {fine : τ → α → Prop}
  {weight : List β → ℤ}

/-- While no step of the reference weighs more, its whole output does not. -/
theorem weight_outputs_le (hadd : ∀ l l', weight (l ++ l') = weight l + weight l')
    (hle : ∀ s t a, coupled s t → weight (step' t a).1 ≤ weight (step s a).1 ∧
      coupled (step s a).2 (step' t a).2) {s : σ} {t : τ} (h : coupled s t) (as : List α) :
    weight (outputs step' t as) ≤ weight (outputs step s as) := by
  induction as generalizing s t with
  | nil => exact le_rfl
  | cons a as ih =>
    obtain ⟨hnow, hnext⟩ := hle s t a h
    have hlater := ih hnext
    simp only [outputs, hadd]
    linarith

/-- A machine that agrees with a reference on fine inputs, gains weight at an input that is
not fine and never loses any, puts out the same on fine inputs only. -/
theorem outputs_eq_iff (coupled synced : σ → τ → Prop)
    (hadd : ∀ l l', weight (l ++ l') = weight l + weight l')
    (hle : ∀ s t a, coupled s t → weight (step' t a).1 ≤ weight (step s a).1 ∧
      coupled (step s a).2 (step' t a).2)
    (hsynced : ∀ s t, synced s t → coupled s t)
    (hfine : ∀ s t a, synced s t → fine t a → (step s a).1 = (step' t a).1 ∧
      synced (step s a).2 (step' t a).2)
    (hbad : ∀ s t a, synced s t → ¬ fine t a → weight (step' t a).1 < weight (step s a).1)
    {s : σ} {t : τ} (h : synced s t) (as : List α) :
    outputs step s as = outputs step' t as ↔ AllFine step' fine t as := by
  induction as generalizing s t with
  | nil => exact iff_of_true rfl trivial
  | cons a as ih =>
    by_cases ha : fine t a
    · obtain ⟨hnow, hnext⟩ := hfine s t a h ha
      rw [outputs, outputs, hnow, List.append_cancel_left_eq, ih hnext]
      exact (and_iff_right ha).symm
    · refine iff_of_false (fun heq => ?_) fun hall => ha hall.1
      have hnow := hbad s t a h ha
      have hlater := weight_outputs_le hadd hle (hle s t a (hsynced s t h)).2 as
      have hweight := congrArg weight heq
      simp only [outputs, hadd] at hweight
      linarith

end Compare

end SkhuOS.Foundation
