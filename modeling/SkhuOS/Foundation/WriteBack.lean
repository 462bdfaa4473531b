import SkhuOS.Foundation.Window

/-! Buffers written back over regions of a memory. A write may fail, and the buffer need not
hold what the region held. -/
namespace SkhuOS.Foundation

/-- `b` holds the `n` bytes of `m` at `a`, but for those in `except`. -/
def Agrees (b m : Bytes) (a n : ℕ) (except : Set ℕ) : Prop :=
  ∀ x < n, a + x ∉ except → b x = m (a + x)

namespace Agrees

variable {b b' m : Bytes} {a n : ℕ} {s s' : Set ℕ}

/-- The exceptions matter only where the buffer lies. -/
theorem congr (h : ∀ x < n, a + x ∈ s ↔ a + x ∈ s') : Agrees b m a n s ↔ Agrees b m a n s' :=
  forall₂_congr fun x hx => imp_congr_left (not_congr (h x hx))

/-- Agreement on the bytes of a set and on the others. -/
theorem split (t : Set ℕ) :
    Agrees b m a n s ↔ Agrees b m a n (s ∪ tᶜ) ∧ Agrees b m a n (s ∪ t) := by
  constructor
  · intro h
    exact ⟨fun x hx hout => h x hx fun hin => hout (.inl hin),
      fun x hx hout => h x hx fun hin => hout (.inl hin)⟩
  · rintro ⟨hin, hout⟩ x hx hs
    by_cases ht : a + x ∈ t
    · exact hin x hx (by simp [hs, ht])
    · exact hout x hx (by simp [hs, ht])

/-- An edit of the buffer does not matter where the edited bytes are exceptions. -/
theorem edit {t : Set ℕ} (h : ∀ x < n, a + x ∉ t → b' x = b x) :
    Agrees b' m a n (s ∪ t) ↔ Agrees b m a n (s ∪ t) :=
  forall₂_congr fun x hx => imp_congr_right fun hout => by
    rw [h x hx fun ht => hout (.inr ht)]

/-- The edited bytes matter only where they are no exceptions themselves. -/
theorem of_subset {t : Set ℕ} (h : t ⊆ s) : Agrees b m a n (s ∪ tᶜ) := by
  intro x _ hout
  rw [Set.mem_union, not_or, Set.notMem_compl_iff] at hout
  exact absurd (h hout.2) hout.1

end Agrees

structure WriteBack where
  failed : Bool
  address : ℕ
  image : Bytes
  size : ℕ

namespace WriteBack

variable {w w' : WriteBack} {ws : List WriteBack} {m : Bytes} {own : Set ℕ} {x : ℕ}

def apply (m : Bytes) (w : WriteBack) : Bytes :=
  if w.failed then m else copyBytes m w.address w.image 0 w.size

/-- The image holds what the memory holds, but for bytes of `own`, or it is not written. -/
def Keeps (w : WriteBack) (m : Bytes) (own : Set ℕ) : Prop :=
  w.failed = true ∨ Agrees w.image m w.address w.size own

/-- Two regions that do not overlap. -/
def Apart (w w' : WriteBack) : Prop :=
  w.address + w.size ≤ w'.address ∨ w'.address + w'.size ≤ w.address

end WriteBack
end SkhuOS.Foundation
