import Mathlib.Data.Set.Insert
import Mathlib.Logic.Function.Basic

/-! Holders of resources, and a record of the resources in use that is kept apart from
them. `Exclusive` and `Mirrored` say in how far the record follows the holders. -/
namespace SkhuOS.Foundation

@[ext]
structure Allocation (ι α : Type*) where
  held : ι → Option α
  used : Set α

namespace Allocation

variable {ι α : Type*} [DecidableEq ι] (s : Allocation ι α) {i j : ι} {a b : α}

/-- Holder `i` takes `a`. -/
def take (i : ι) (a : α) : Allocation ι α :=
  { held := Function.update s.held i (some a), used := insert a s.used }

/-- Holder `i` gives up `a`. -/
def drop (i : ι) (a : α) : Allocation ι α :=
  { held := Function.update s.held i none, used := s.used \ {a} }

/-- What is held is in use, by one holder. -/
structure Exclusive : Prop where
  used_of_held : ∀ i a, s.held i = some a → a ∈ s.used
  eq_of_held : ∀ i j a, s.held i = some a → s.held j = some a → i = j

/-- Exactly what is held is in use. -/
def Mirrored : Prop := ∀ a, a ∈ s.used ↔ ∃ i, s.held i = some a

variable {s}

theorem held_take (h : (s.take i a).held j = some b) : j = i ∧ b = a ∨ j ≠ i ∧ s.held j = some b := by
  by_cases hji : j = i
  · subst hji
    refine .inl ⟨rfl, ?_⟩
    simpa [take, eq_comm] using h
  · exact .inr ⟨hji, by simpa [take, hji] using h⟩

theorem held_drop (h : (s.drop i a).held j = some b) : j ≠ i ∧ s.held j = some b := by
  by_cases hji : j = i
  · subst hji
    simp [drop] at h
  · exact ⟨hji, by simpa [drop, hji] using h⟩

namespace Exclusive

/-- A resource that is not in use may be taken. -/
theorem take (h : s.Exclusive) (hfree : a ∉ s.used) : (s.take i a).Exclusive := by
  refine ⟨fun j b hj => ?_, fun j k b hj hk => ?_⟩
  · rcases held_take hj with ⟨-, rfl⟩ | ⟨-, hj⟩
    · exact Set.mem_insert _ _
    · exact Set.mem_insert_of_mem _ (h.used_of_held j b hj)
  · rcases held_take hj with ⟨hji, hba⟩ | ⟨-, hj'⟩ <;>
      rcases held_take hk with ⟨hki, hba'⟩ | ⟨-, hk'⟩
    · rw [hji, hki]
    · exact absurd (hba ▸ h.used_of_held k b hk') hfree
    · exact absurd (hba' ▸ h.used_of_held j b hj') hfree
    · exact h.eq_of_held j k b hj' hk'

/-- Nobody else loses what a holder gives up. -/
theorem drop (h : s.Exclusive) (hi : s.held i = some a) : (s.drop i a).Exclusive := by
  refine ⟨fun j b hj => ?_, fun j k b hj hk => ?_⟩
  · obtain ⟨hji, hj'⟩ := held_drop hj
    refine ⟨h.used_of_held j b hj', ?_⟩
    rintro rfl
    exact hji (h.eq_of_held j i b hj' hi)
  · exact h.eq_of_held j k b (held_drop hj).2 (held_drop hk).2

end Exclusive

namespace Mirrored

/-- A holder that holds nothing may take anything. -/
theorem take (h : s.Mirrored) (hi : s.held i = none) : (s.take i a).Mirrored := fun b => by
  constructor
  · rintro (rfl | hb)
    · exact ⟨i, by simp [Allocation.take]⟩
    · obtain ⟨j, hj⟩ := (h b).mp hb
      have hji : j ≠ i := by
        rintro rfl
        rw [hi] at hj
        exact nomatch hj
      exact ⟨j, by simpa [Allocation.take, hji] using hj⟩
  · rintro ⟨j, hj⟩
    rcases held_take hj with ⟨-, rfl⟩ | ⟨-, hj⟩
    · exact Set.mem_insert _ _
    · exact Set.mem_insert_of_mem _ ((h b).mpr ⟨j, hj⟩)

/-- A holder may give up what nobody else holds. -/
theorem drop (h : s.Mirrored) (hi : s.held i = some a) (hsole : ∀ j, s.held j = some a → j = i) :
    (s.drop i a).Mirrored := fun b => by
  constructor
  · rintro ⟨hb, hba⟩
    obtain ⟨j, hj⟩ := (h b).mp hb
    have hji : j ≠ i := by
      rintro rfl
      rw [hi] at hj
      exact hba (Option.some.inj hj).symm
    exact ⟨j, by simpa [Allocation.drop, hji] using hj⟩
  · rintro ⟨j, hj⟩
    obtain ⟨hji, hj'⟩ := held_drop hj
    refine ⟨(h b).mpr ⟨j, hj'⟩, ?_⟩
    rintro rfl
    exact hji (hsole j hj')

end Mirrored
end Allocation
end SkhuOS.Foundation
