import Mathlib.Algebra.BigOperators.Group.List.Basic
import Mathlib.Data.Int.DivMod
import Mathlib.Data.List.Pairwise
import Mathlib.Tactic.Ring
import SkhuOS.Common.Type

/-! The interval timer of `kernel/drivers/PIT.c` and the stopwatch that polls its counter 0. -/
namespace SkhuOS

def counter0 : WORD := 0x40
def ctrlReg : WORD := 0x43

/-- An `int` result, wrapped to 32 bits. -/
def toInt32 (z : ℤ) : ℤ := z.bmod (2 ^ 32)

theorem toInt32_of_range {z : ℤ} (h : -(2 ^ 31) ≤ z) (h' : z < 2 ^ 31) : toInt32 z = z :=
  Int.bmod_eq_of_le (by omega) (by omega)

namespace PIT

/-- The writes to the ports, and `counter0Reload` afterwards. -/
def initializePIT (clock : DWORD) (periodic : Bool) : List (WORD × BYTE) × DWORD :=
  ([(ctrlReg, if periodic then 0x00 ||| 0x04 ||| 0x30 ||| 0x00 else 0x00 ||| 0x00 ||| 0x30 ||| 0x00),
      (counter0, clock.setWidth 8), (counter0, (clock.sshiftRight 8).setWidth 8)],
    if clock &&& 0xFFFF ≠ 0 then clock &&& 0xFFFF else 0x10000)

/-- The latch command freezes the count, which the port then gives byte by byte. -/
def readCounter0 (latched : WORD) : WORD :=
  let lowerByte : BYTE := latched.setWidth 8
  let upperByte : BYTE := (latched >>> 8).setWidth 8
  lowerByte.setWidth 16 ||| upperByte.setWidth 16 <<< 8

structure Stopwatch where
  lastCounter : WORD
  elapsedClock : ℤ

def startStopwatch (latched : WORD) : Stopwatch := ⟨readCounter0 latched, 0⟩

def getElapsedClock (counter0Reload : DWORD) (latched : WORD) (watch : Stopwatch) :
    ℤ × Stopwatch :=
  let now := readCounter0 latched
  let delta : ℤ := watch.lastCounter.toNat - now.toNat
  let delta := if delta < 0 then toInt32 (delta + counter0Reload.toInt) else delta
  let elapsedClock := toInt32 (watch.elapsedClock + delta)
  (elapsedClock, ⟨now, elapsedClock⟩)

/-- What counter 0 shows at clock `t` when it counts down from `reload` again and again. -/
def counterAt (reload t : ℕ) : WORD := BitVec.ofNat 16 (reload - t % reload)

/-- The stopwatch after it has been read at the given clocks. -/
def polled (counter0Reload : DWORD) (watch : Stopwatch) : List ℕ → Stopwatch
  | [] => watch
  | t :: ts => polled counter0Reload
      (getElapsedClock counter0Reload (counterAt counter0Reload.toNat t) watch).2 ts

/-- The clocks between consecutive readings. -/
def gaps : List ℕ → List ℕ
  | t :: u :: ts => (u - t) :: gaps (u :: ts)
  | _ => []

/-- The whole periods inside the individual gaps. -/
def wholePeriods (reload : ℕ) (times : List ℕ) : ℕ := ((gaps times).map (· / reload)).sum

variable {clock counter0Reload : DWORD} {latched : WORD} {watch : Stopwatch} {t u reload : ℕ}
  {ts : List ℕ}

/-- The reload value `initializePIT` leaves is the period the written bytes ask for. -/
theorem initializePIT_reload (clock : DWORD) (periodic : Bool) :
    1 ≤ (initializePIT clock periodic).2.toNat ∧
      (initializePIT clock periodic).2.toNat ≤ 0x10000 := by
  have hlow : (clock &&& 0xFFFF).toNat = clock.toNat % 2 ^ 16 := by
    rw [BitVec.toNat_and]
    exact Nat.and_two_pow_sub_one_eq_mod clock.toNat 16
  have hlt := Nat.mod_lt clock.toNat (show 0 < 2 ^ 16 by decide)
  unfold initializePIT
  dsimp only
  split
  next hne =>
    have hpos : (clock &&& 0xFFFF).toNat ≠ 0 := fun h => hne (BitVec.eq_of_toNat_eq h)
    omega
  next => decide

/-- The two bytes put together are the count. -/
theorem readCounter0_eq (latched : WORD) : readCounter0 latched = latched := by
  apply BitVec.eq_of_getLsbD_eq
  intro i hi
  simp only [readCounter0, BitVec.getLsbD_or, BitVec.getLsbD_shiftLeft, BitVec.getLsbD_setWidth,
    BitVec.getLsbD_ushiftRight]
  by_cases h : i < 8
  · simp [h, hi]
  · simp [h, hi, show i - 8 < 8 by omega, show i - 8 < 16 by omega, show 8 + (i - 8) = i by omega]

theorem counterAt_toNat (hreload : reload ≤ 0x10000) (hpos : 1 ≤ reload) :
    (counterAt reload t).toNat =
      if reload = 0x10000 ∧ t % reload = 0 then 0 else reload - t % reload := by
  have hlt := Nat.mod_lt t hpos
  rw [counterAt, BitVec.toNat_ofNat]
  split_ifs with h
  · rw [h.2, h.1]
  · apply Nat.mod_eq_of_lt
    omega

/-- The clocks between two readings, less the whole periods. -/
theorem sub_mod_eq (hpos : 1 ≤ reload) (htu : t ≤ u) :
    (((u - t) % reload : ℕ) : ℤ) = if t % reload ≤ u % reload then
      ((u % reload : ℕ) : ℤ) - (t % reload : ℕ) else (u % reload : ℕ) - (t % reload : ℕ) + reload := by
  have ht := Nat.mod_lt t hpos
  have hu := Nat.mod_lt u hpos
  have hsub : (((u - t) % reload : ℕ) : ℤ) =
      (((u % reload : ℕ) : ℤ) - (t % reload : ℕ)) % reload := by
    rw [Int.natCast_mod, Int.natCast_sub htu, Int.sub_emod, Int.natCast_mod, Int.natCast_mod]
  rw [hsub]
  split_ifs with h
  · exact Int.emod_eq_of_lt (by omega) (by omega)
  · rw [← Int.add_emod_right]
    exact Int.emod_eq_of_lt (by omega) (by omega)

/-- One reading adds the clocks since the last one, less the whole periods. -/
theorem getElapsedClock_eq (hpos : 1 ≤ counter0Reload.toNat)
    (hreload : counter0Reload.toNat ≤ 0x10000) (htu : t ≤ u)
    (hlast : watch.lastCounter = counterAt counter0Reload.toNat t)
    (helapsed : 0 ≤ watch.elapsedClock)
    (hspan : watch.elapsedClock + (u - t) < 2 ^ 31) :
    getElapsedClock counter0Reload (counterAt counter0Reload.toNat u) watch =
      (watch.elapsedClock + ((u - t) % counter0Reload.toNat : ℕ),
        ⟨counterAt counter0Reload.toNat u,
          watch.elapsedClock + ((u - t) % counter0Reload.toNat : ℕ)⟩) := by
  have hint : counter0Reload.toInt = counter0Reload.toNat :=
    BitVec.toInt_eq_toNat_of_lt (by omega)
  have ht := Nat.mod_lt t hpos
  have hu := Nat.mod_lt u hpos
  have hmod := sub_mod_eq hpos htu
  have hle : (u - t) % counter0Reload.toNat ≤ u - t := Nat.mod_le _ _
  have hdelta (hd : ℤ) (h : hd = (watch.lastCounter.toNat : ℤ) -
      ((counterAt counter0Reload.toNat u).toNat : ℤ)) :
      (if hd < 0 then toInt32 (hd + counter0Reload.toInt) else hd) =
        ((u - t) % counter0Reload.toNat : ℕ) := by
    rw [hlast, counterAt_toNat hreload hpos, counterAt_toNat hreload hpos] at h
    rw [hint, hmod]
    split
    next hneg =>
      rw [toInt32_of_range (by split_ifs at h <;> omega) (by split_ifs at h <;> omega)]
      split_ifs at h ⊢ <;> omega
    next hneg => split_ifs at h ⊢ <;> omega
  unfold getElapsedClock
  dsimp only
  rw [readCounter0_eq, hdelta _ rfl, toInt32_of_range (by omega) (by omega)]

theorem wholePeriods_cons (reload t u : ℕ) (ts : List ℕ) :
    wholePeriods reload (t :: u :: ts) = (u - t) / reload + wholePeriods reload (u :: ts) := by
  simp [wholePeriods, gaps]

theorem wholePeriods_eq_zero {times : List ℕ} (h : ∀ gap ∈ gaps times, gap < reload) :
    wholePeriods reload times = 0 := by
  apply List.sum_eq_zero
  intro n hn
  obtain ⟨gap, hgap, rfl⟩ := List.mem_map.mp hn
  exact Nat.div_eq_of_lt (h gap hgap)

/-- The stopwatch has seen the clocks from `t` to `u` but for some whole periods. -/
structure Stopwatch.Measures (watch : Stopwatch) (reload t u periods : ℕ) : Prop where
  le : t ≤ u
  lastCounter : watch.lastCounter = counterAt reload u
  elapsed : watch.elapsedClock + reload * periods = u - t
  nonneg : 0 ≤ watch.elapsedClock

theorem startStopwatch_measures (reload t : ℕ) :
    (startStopwatch (counterAt reload t)).Measures reload t t 0 := by
  constructor
  · exact Nat.le_refl t
  · exact readCounter0_eq _
  · simp [startStopwatch]
  · exact Int.le_refl 0

/-- One reading: the gap since the last one is added, less its whole periods. -/
theorem Stopwatch.Measures.poll {start periods : ℕ}
    (h : watch.Measures counter0Reload.toNat start t periods) (hpos : 1 ≤ counter0Reload.toNat)
    (hreload : counter0Reload.toNat ≤ 0x10000) (htu : t ≤ u) (hspan : u - start < 2 ^ 31) :
    (getElapsedClock counter0Reload (counterAt counter0Reload.toNat u) watch).2.Measures
        counter0Reload.toNat start u (periods + (u - t) / counter0Reload.toNat) ∧
      (getElapsedClock counter0Reload (counterAt counter0Reload.toNat u) watch).1 =
        watch.elapsedClock + ((u - t) % counter0Reload.toNat : ℕ) := by
  obtain ⟨hle, hlast, helapsed, hnonneg⟩ := h
  have hskipped : (0 : ℤ) ≤ counter0Reload.toNat * periods :=
    Int.mul_nonneg (Int.natCast_nonneg _) (Int.natCast_nonneg _)
  have hgap : (counter0Reload.toNat : ℤ) * ((u - t) / counter0Reload.toNat : ℕ) +
      ((u - t) % counter0Reload.toNat : ℕ) = u - t := by
    rw [← Int.natCast_sub htu, ← Int.natCast_mul, ← Int.natCast_add, Nat.div_add_mod]
  rw [getElapsedClock_eq hpos hreload htu hlast hnonneg (by omega)]
  refine ⟨⟨hle.trans htu, rfl, ?_, by dsimp only; omega⟩, rfl⟩
  dsimp only
  rw [Int.natCast_add, mul_add]
  omega

theorem Stopwatch.Measures.polled {start periods : ℕ}
    (h : watch.Measures counter0Reload.toNat start t periods) (hpos : 1 ≤ counter0Reload.toNat)
    (hreload : counter0Reload.toNat ≤ 0x10000) (hsorted : (t :: ts).Pairwise (· ≤ ·))
    (hspan : ∀ v ∈ ts, v - start < 2 ^ 31) :
    (PIT.polled counter0Reload watch ts).Measures counter0Reload.toNat start (ts.getLastD t)
      (periods + wholePeriods counter0Reload.toNat (t :: ts)) := by
  induction ts generalizing watch t periods with
  | nil => exact h
  | cons u ts ih =>
    obtain ⟨hle, hsorted⟩ := List.pairwise_cons.mp hsorted
    have hpoll := (h.poll hpos hreload (hle u (by simp)) (hspan u (by simp))).1
    have hlater := ih hpoll hsorted fun v hv => hspan v (List.mem_cons_of_mem u hv)
    rw [wholePeriods_cons, ← Nat.add_assoc, List.getLastD_cons]
    exact hlater

theorem polled_append (counter0Reload : DWORD) (watch : Stopwatch) (ts : List ℕ) (u : ℕ) :
    polled counter0Reload watch (ts ++ [u]) =
      (getElapsedClock counter0Reload (counterAt counter0Reload.toNat u)
        (polled counter0Reload watch ts)).2 := by
  induction ts generalizing watch with
  | nil => rfl
  | cons t ts ih => exact ih _

/-- The value returned is the one kept. -/
theorem getElapsedClock_kept (counter0Reload : DWORD) (latched : WORD) (watch : Stopwatch) :
    (getElapsedClock counter0Reload latched watch).1 =
      (getElapsedClock counter0Reload latched watch).2.elapsedClock := rfl

/-- A stopwatch started at clock `t` and read at the clocks `ts` and then at `u`, the whole
within `2 ^ 31` clocks, misses exactly the whole periods inside the gaps. -/
theorem stopwatch_exact (counter0Reload : DWORD) (t u : ℕ) (ts : List ℕ)
    (hpos : 1 ≤ counter0Reload.toNat) (hreload : counter0Reload.toNat ≤ 0x10000)
    (hsorted : (t :: (ts ++ [u])).Pairwise (· ≤ ·)) (hspan : u - t < 2 ^ 31) :
    let watch := polled counter0Reload (startStopwatch (counterAt counter0Reload.toNat t)) ts
    let elapsed :=
      (getElapsedClock counter0Reload (counterAt counter0Reload.toNat u) watch).1
    let times := t :: (ts ++ [u])
    elapsed = (u - t) - counter0Reload.toNat * wholePeriods counter0Reload.toNat times ∧
      elapsed ≤ u - t ∧
      ((∀ gap ∈ gaps times, gap < counter0Reload.toNat) → elapsed = u - t) ∧
      0 ≤ elapsed - watch.elapsedClock ∧ elapsed - watch.elapsedClock < counter0Reload.toNat := by
  intro watch elapsed times
  obtain ⟨hfirst, hrest⟩ := List.pairwise_cons.mp hsorted
  have hlast : ∀ v ∈ ts, v ≤ u := fun v hv => (List.pairwise_append.mp hrest).2.2 v hv u (by simp)
  have hbound : ∀ v ∈ ts ++ [u], v - t < 2 ^ 31 := by
    intro v hv
    rcases List.mem_append.mp hv with hv | hv
    · have := hlast v hv
      omega
    · rwa [List.mem_singleton.mp hv]
  have hstart := startStopwatch_measures counter0Reload.toNat t
  have hsorted' : (t :: ts).Pairwise (· ≤ ·) := hsorted.sublist (by simp)
  have hwatch := hstart.polled hpos hreload hsorted' fun v hv => hbound v (by simp [hv])
  have hle : ts.getLastD t ≤ u := by
    rcases List.mem_cons.mp (List.getLastD_mem_cons (l := ts) (a := t)) with heq | hmem
    · rw [heq]
      exact hfirst u (by simp)
    · exact hlast _ hmem
  obtain ⟨-, hdelta⟩ := hwatch.poll hpos hreload hle hspan
  have hall := (hstart.polled hpos hreload hsorted hbound).elapsed
  rw [polled_append, ← getElapsedClock_kept, Nat.zero_add, List.getLastD_concat] at hall
  have hall : elapsed + counter0Reload.toNat * wholePeriods counter0Reload.toNat times = u - t :=
    hall
  have hskipped : (0 : ℤ) ≤ counter0Reload.toNat * wholePeriods counter0Reload.toNat times :=
    Int.mul_nonneg (Int.natCast_nonneg _) (Int.natCast_nonneg _)
  have hmod := Nat.mod_lt (u - ts.getLastD t) hpos
  have hdelta : elapsed = watch.elapsedClock + _ := hdelta
  refine ⟨by omega, by omega, ?_, by omega, by omega⟩
  intro hgaps
  rw [wholePeriods_eq_zero hgaps, Int.natCast_zero, mul_zero] at hall
  omega

/-- Clock count 0 asks for the full period; one reading stands at its turn, one behind it. -/
theorem stopwatch_exact_turn :
    (getElapsedClock (initializePIT 0 true).2 (counterAt 0x10000 0x10007)
      (polled (initializePIT 0 true).2 (startStopwatch (counterAt 0x10000 5)) [0x10000])).1 =
        0x10002 :=
  (stopwatch_exact (initializePIT 0 true).2 5 0x10007 [0x10000] (initializePIT_reload 0 true).1
    (initializePIT_reload 0 true).2 (by decide) (by decide)).2.2.1 (by decide)

end PIT
end SkhuOS
