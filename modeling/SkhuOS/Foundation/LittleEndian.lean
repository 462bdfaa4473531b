import Mathlib.Data.List.Basic
import Mathlib.Algebra.Order.Group.Nat
import Mathlib.Tactic.Ring

/-! Little-endian numbers in a byte-addressed memory `ℕ → BitVec 8`. -/
namespace SkhuOS.Foundation

/-- A memory, or any buffer, as a map from addresses to bytes. -/
abbrev Bytes := ℕ → BitVec 8

variable {m m' : Bytes} {a b n k v : ℕ}

/-- Byte `i` of the number `v`. -/
def byteOf (v i : ℕ) : BitVec 8 := BitVec.ofNat 8 (v / 256 ^ i)

/-- The number in the `n` bytes at `a`, lowest byte first. -/
def readLE (m : Bytes) (a : ℕ) : ℕ → ℕ
  | 0 => 0
  | n + 1 => (m a).toNat + 256 * readLE m (a + 1) n

/-- Store the low `n` bytes of `v` at `a`. -/
def writeLE (m : Bytes) (a n v : ℕ) : Bytes := fun x =>
  if a ≤ x ∧ x < a + n then byteOf v (x - a) else m x

theorem writeLE_of_not_mem (h : b < a ∨ a + n ≤ b) : writeLE m a n v b = m b := by
  simp only [writeLE]
  rw [if_neg (by omega)]

theorem readLE_congr (h : ∀ x, a ≤ x → x < a + n → m' x = m x) :
    readLE m' a n = readLE m a n := by
  induction n generalizing a with
  | zero => rfl
  | succ n ih =>
    simp only [readLE]
    rw [h a (by omega) (by omega), ih fun x hx hx' => h x (by omega) (by omega)]

theorem readLE_lt (m : Bytes) (a n : ℕ) : readLE m a n < 256 ^ n := by
  induction n generalizing a with
  | zero => simp [readLE]
  | succ n ih =>
    have := ih (a + 1)
    have hb := (m a).isLt
    simp only [readLE, pow_succ]
    omega

/-- The number determines the bytes it is read from. -/
theorem byte_of_readLE (h : readLE m' a n = readLE m a n) (hb : a ≤ b) (hlt : b < a + n) :
    m' b = m b := by
  induction n generalizing a with
  | zero => omega
  | succ n ih =>
    simp only [readLE] at h
    have hbyte := (m a).isLt
    have hbyte' := (m' a).isLt
    rcases Nat.eq_or_lt_of_le hb with rfl | hb
    · exact BitVec.eq_of_toNat_eq (by omega)
    · exact ih (a := a + 1) (by omega) hb (by omega)

theorem readLE_writeLE_disjoint (h : b + n ≤ a ∨ a + k ≤ b) :
    readLE (writeLE m a k v) b n = readLE m b n :=
  readLE_congr fun x hx hx' => writeLE_of_not_mem (by omega)

/-- Reading any number of bytes that spell `v` gives `v` modulo their range. -/
theorem readLE_of_bytes (h : ∀ i < n, m (a + i) = byteOf v i) :
    readLE m a n = v % 256 ^ n := by
  induction n generalizing a v with
  | zero => simp [readLE, Nat.mod_one]
  | succ n ih =>
    have hrest : readLE m (a + 1) n = v / 256 % 256 ^ n := by
      apply ih
      intro i hi
      have := h (i + 1) (by omega)
      rw [show a + (i + 1) = a + 1 + i by omega] at this
      rw [this, byteOf, byteOf, pow_succ', Nat.div_div_eq_div_mul]
    have hfirst : (m a).toNat = v % 256 := by
      have := h 0 (by omega)
      rw [Nat.add_zero] at this
      simp [this, byteOf]
    rw [readLE, hrest, hfirst, pow_succ', Nat.mod_mul]

theorem readLE_writeLE : readLE (writeLE m a n v) a n = v % 256 ^ n := by
  apply readLE_of_bytes
  intro i hi
  simp only [writeLE]
  rw [if_pos (by omega), Nat.add_sub_cancel_left]

/-- All bytes of a zero number are zero, and conversely. -/
theorem readLE_eq_zero : readLE m a n = 0 ↔ ∀ i < n, m (a + i) = 0 := by
  induction n generalizing a with
  | zero => simp [readLE]
  | succ n ih =>
    simp only [readLE, Nat.add_eq_zero_iff, Nat.mul_eq_zero, OfNat.ofNat_ne_zero, false_or, ih]
    constructor
    · rintro ⟨h0, h⟩ i hi
      cases i with
      | zero => exact BitVec.eq_of_toNat_eq (by simpa using h0)
      | succ i => simpa [Nat.add_assoc, Nat.add_comm 1 i] using h i (by omega)
    · intro h
      refine ⟨by simpa using congrArg BitVec.toNat (h 0 (by omega)), fun i hi => ?_⟩
      simpa [Nat.add_assoc, Nat.add_comm 1 i] using h (i + 1) (by omega)

/-- Copy `n` bytes from `src` in one memory to `dst` in another. -/
def copyBytes (m' : Bytes) (dst : ℕ) (m : Bytes) (src n : ℕ) : Bytes := fun x =>
  if dst ≤ x ∧ x < dst + n then m (src + (x - dst)) else m' x

theorem copyBytes_of_not_mem {dst src x : ℕ} (h : x < dst ∨ dst + n ≤ x) :
    copyBytes m' dst m src n x = m' x := by
  simp only [copyBytes]
  rw [if_neg (by omega)]

theorem copyBytes_zero {dst src : ℕ} : copyBytes m' dst m src 0 = m' :=
  funext fun _ => copyBytes_of_not_mem (by omega)

theorem copyBytes_of_mem {dst src i : ℕ} (h : i < n) :
    copyBytes m' dst m src n (dst + i) = m (src + i) := by
  simp only [copyBytes]
  rw [if_pos (by omega), Nat.add_sub_cancel_left]

/-- A number inside the copied range reads as at the source. -/
theorem readLE_copyBytes {dst src i : ℕ} (h : i + k ≤ n) :
    readLE (copyBytes m' dst m src n) (dst + i) k = readLE m (src + i) k := by
  induction k generalizing i with
  | zero => rfl
  | succ k ih =>
    simp only [readLE]
    rw [copyBytes_of_mem (by omega), Nat.add_assoc, Nat.add_assoc, ih (by omega)]

theorem readLE_copyBytes_disjoint {dst src : ℕ} (h : b + k ≤ dst ∨ dst + n ≤ b) :
    readLE (copyBytes m' dst m src n) b k = readLE m' b k :=
  readLE_congr fun x hx hx' => copyBytes_of_not_mem (by omega)

end SkhuOS.Foundation
