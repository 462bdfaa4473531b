import Mathlib.Data.List.Basic
import Mathlib.Logic.Function.Basic
import Mathlib.Data.Nat.ModEq

/-! A ring of `len` cells with one cell kept free, read as a bounded queue.
`front` is the oldest cell and `rear` the first free one. -/
namespace SkhuOS.Foundation

variable {α : Type*} {cell : ℕ → α} {front rear len : ℕ}

/-- The number of cells between the two cursors. -/
def ringCount (front rear len : ℕ) : ℕ := (rear + len - front) % len

/-- The stored items, oldest first. -/
def ringItems (cell : ℕ → α) (front rear len : ℕ) : List α :=
  (List.range (ringCount front rear len)).map fun i => cell ((front + i) % len)

@[simp] theorem ringItems_length : (ringItems cell front rear len).length =
    ringCount front rear len := by simp [ringItems]

theorem ringCount_lt (front rear : ℕ) (hlen : 0 < len) : ringCount front rear len < len := Nat.mod_lt _ hlen

/-- The cursors and the count determine each other. -/
theorem ringCount_add (hf : front < len) (hr : rear < len) :
    (front + ringCount front rear len) % len = rear := by
  have h : (front + (rear + len - front)) % len = rear := by
    rw [show front + (rear + len - front) = rear + len by omega, Nat.add_mod_right,
      Nat.mod_eq_of_lt hr]
  rwa [ringCount, Nat.add_mod_mod]

theorem ringCount_eq_zero (hf : front < len) (hr : rear < len) :
    ringCount front rear len = 0 ↔ front = rear := by
  constructor
  · intro h
    have := ringCount_add hf hr
    rwa [h, Nat.add_zero, Nat.mod_eq_of_lt hf] at this
  · rintro rfl
    simp [ringCount]

theorem ringItems_eq_nil (hf : front < len) (hr : rear < len) :
    ringItems cell front rear len = [] ↔ front = rear := by
  rw [← ringCount_eq_zero hf hr, ← List.length_eq_zero_iff, ringItems_length]

/-- Distinct offsets below the ring length name distinct cells. -/
theorem ring_offset_ne (front : ℕ) {i j : ℕ} (hij : i < j) (hj : j < len) :
    (front + i) % len ≠ (front + j) % len := by
  intro h
  have hmod : i % len = j % len := Nat.ModEq.add_left_cancel' front h
  rw [Nat.mod_eq_of_lt (hij.trans hj), Nat.mod_eq_of_lt hj] at hmod
  omega

/-- Two successors agree exactly when the ring holds all but one of its cells. -/
theorem ring_full_iff (hf : front < len) (hr : rear < len) :
    front = (rear + 1) % len ↔ ringCount front rear len = len - 1 := by
  have hc := ringCount_lt front rear (show 0 < len by omega)
  have ha := ringCount_add hf hr
  have hs : (rear + 1) % len = (front + (ringCount front rear len + 1)) % len := by
    rw [← Nat.add_assoc, ← Nat.mod_add_mod (front + _), ha]
  constructor
  · intro h
    by_contra hne
    have := ring_offset_ne front (show 0 < ringCount front rear len + 1 by omega)
      (show ringCount front rear len + 1 < len by omega)
    rw [Nat.add_zero, Nat.mod_eq_of_lt hf, ← hs] at this
    exact this h
  · intro h
    rw [hs, h, show front + (len - 1 + 1) = front + len by omega, Nat.add_mod_right,
      Nat.mod_eq_of_lt hf]

theorem ringCount_push (hf : front < len) (hr : rear < len) (hfull : front ≠ (rear + 1) % len) :
    ringCount front ((rear + 1) % len) len = ringCount front rear len + 1 := by
  have hlen : 0 < len := by omega
  have hc := ringCount_lt front rear hlen
  have hne : ringCount front rear len ≠ len - 1 := fun h => hfull ((ring_full_iff hf hr).mpr h)
  have ha := ringCount_add hf (Nat.mod_lt (rear + 1) hlen)
  have hs : (rear + 1) % len = (front + (ringCount front rear len + 1)) % len := by
    rw [← Nat.add_assoc, ← Nat.mod_add_mod (front + _), ringCount_add hf hr]
  have hd := ringCount_lt front ((rear + 1) % len) hlen
  rcases Nat.lt_trichotomy (ringCount front ((rear + 1) % len) len)
    (ringCount front rear len + 1) with h | h | h
  · exact absurd (ha.trans hs) (ring_offset_ne _ h (by omega))
  · exact h
  · exact absurd (hs.symm.trans ha.symm) (ring_offset_ne _ h hd)

theorem ringCount_pop (hf : front < len) (hr : rear < len) (hne : front ≠ rear) :
    ringCount front rear len = ringCount ((front + 1) % len) rear len + 1 := by
  have hlen : 0 < len := by omega
  have hpos : ringCount front rear len ≠ 0 := fun h => hne ((ringCount_eq_zero hf hr).mp h)
  have hc := ringCount_lt front rear hlen
  have hd := ringCount_lt ((front + 1) % len) rear hlen
  have ha := ringCount_add (Nat.mod_lt (front + 1) hlen) hr
  rw [Nat.mod_add_mod, Nat.add_assoc, Nat.add_comm 1] at ha
  have hb := ringCount_add hf hr
  by_contra hcon
  rcases Nat.lt_or_ge (ringCount ((front + 1) % len) rear len + 1) len with hlt | hge
  · rcases Nat.lt_or_gt_of_ne hcon with h | h
    · exact ring_offset_ne _ h hlt (hb.trans ha.symm)
    · exact ring_offset_ne _ h hc (ha.trans hb.symm)
  · have : ringCount ((front + 1) % len) rear len + 1 = len := by omega
    rw [this, Nat.add_mod_right, Nat.mod_eq_of_lt hf] at ha
    exact hne ha

/-- Storing into the free cell appends one item. -/
theorem ringItems_push (hf : front < len) (hr : rear < len) (hfull : front ≠ (rear + 1) % len)
    (x : α) : ringItems (Function.update cell rear x) front ((rear + 1) % len) len =
      ringItems cell front rear len ++ [x] := by
  have hc := ringCount_lt front rear (show 0 < len by omega)
  have ha := ringCount_add hf hr
  unfold ringItems
  rw [ringCount_push hf hr hfull, List.range_succ, List.map_append]
  congr 1
  · apply List.map_congr_left
    intro i hi
    have hi' := List.mem_range.mp hi
    rw [Function.update_of_ne]
    rw [← ha]
    exact ring_offset_ne _ hi' hc
  · simp [ha]

/-- Moving the front cursor on removes the oldest item. -/
theorem ringItems_pop (hf : front < len) (hr : rear < len) (hne : front ≠ rear) :
    ringItems cell front rear len = cell front :: ringItems cell ((front + 1) % len) rear len := by
  unfold ringItems
  rw [ringCount_pop hf hr hne, List.range_succ_eq_map, List.map_cons, List.map_map]
  congr 1
  · rw [Nat.add_zero, Nat.mod_eq_of_lt hf]
  · apply List.map_congr_left
    intro i _
    simp only [Function.comp, Nat.mod_add_mod]
    congr 2
    omega

end SkhuOS.Foundation
