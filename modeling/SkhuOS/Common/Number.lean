import Mathlib.Data.Nat.Digits.Lemmas
import SkhuOS.Common.Print

/-! What `printInt` and `printHex` print, as numbers. -/
namespace SkhuOS
open Foundation

/-- The digit loop on a `charNum` with `room` free cells; `none` if it stores behind the last. -/
def fillDigits (radix : ℕ) : ℕ → ℕ → Option (List BYTE)
  | 0, num => if num > 0 then none else some []
  | room + 1, num =>
    if num > 0 then
      (fillDigits radix room (num / radix)).map fun charNum => digitChar (num % radix) :: charNum
    else some []

/-- The value `printInt` extracts digits from. -/
def printedValue (num : DWORD) : ℕ := (if num.toInt < 0 then -num else num).toInt.toNat

/-- The characters `printInt` gives to `viewCharacter`. -/
def intCharacters (num : DWORD) (radix : ℕ) : List BYTE :=
  if num = 0 then [0x30]
  else
    let charNum := charDigits radix 32 (printedValue num)
    (if num.toInt < 0 then [0x2D] else []) ++ reverseArray charNum charNum.length

/-- The characters `printHex` gives to `viewCharacter`. -/
def hexCharacters (num : QWORD) : List BYTE :=
  if num = 0 then [0x30]
  else
    let charNum := charDigits 16 16 num.toNat
    reverseArray charNum charNum.length

/-- The digit a character stands for. -/
def digitValue (ch : BYTE) : Option ℕ := (List.range 16).find? fun digit => digitChar digit = ch

/-- Read digits from the left, behind digits of value `num`. -/
def readDigits (radix : ℕ) : ℕ → List BYTE → Option ℕ
  | num, [] => some num
  | num, ch :: chs =>
    match digitValue ch with
    | none => none
    | some digit => if digit < radix then readDigits radix (num * radix + digit) chs else none

/-- A number in a radix: an optional minus sign and at least one digit. -/
def parseNumber (radix : ℕ) : List BYTE → Option ℤ
  | [] => none
  | ch :: chs =>
    if ch = 0x2D then
      if chs = [] then none else (readDigits radix 0 chs).map fun num : ℕ => -(num : ℤ)
    else (readDigits radix 0 (ch :: chs)).map fun num : ℕ => (num : ℤ)

/-- The characters are the number in the radix, without leading zeros. -/
structure ShowsNumber (radix : ℕ) (chs : List BYTE) (num : ℤ) : Prop where
  parsed : parseNumber radix chs = some num
  leading : ∃ digits, chs = (if num < 0 then [0x2D] else []) ++ digits ∧
    (digits.head? = some 0x30 → digits = [0x30])

variable {radix room num digit : ℕ} {arr digits : List BYTE}

namespace Screen

variable (s : Screen)

theorem viewCharacters_append (chs chs' : List BYTE) :
    s.viewCharacters (chs ++ chs') = (s.viewCharacters chs).viewCharacters chs' := List.foldl_append

theorem printInt_eq (num : DWORD) (radix : Radix) :
    s.printInt num radix = s.viewCharacters (intCharacters num radix) := by
  unfold printInt intCharacters printedValue
  split
  · rfl
  · dsimp only
    split
    · rw [viewCharacters_append]
      rfl
    · rfl

theorem printHex_eq (num : QWORD) : s.printHex num = s.viewCharacters (hexCharacters num) := by
  unfold printHex hexCharacters
  split <;> rfl

end Screen

theorem swapChar_length (arr : List BYTE) (i j : ℕ) : (swapChar arr i j).length = arr.length := by
  simp [swapChar]

theorem swapChar_getElem? {i j : ℕ} (hi : i < arr.length) (hj : j < arr.length) (k : ℕ) :
    (swapChar arr i j)[k]? = if k = j then arr[i]? else if k = i then arr[j]? else arr[k]? := by
  have hget (n : ℕ) (hn : n < arr.length) : some (arr.getD n 0) = arr[n]? := by
    rw [List.getD_eq_getElem?_getD, List.getElem?_eq_getElem hn, Option.getD_some]
  unfold swapChar
  by_cases hkj : k = j
  · subst hkj
    rw [if_pos rfl, List.getElem?_set_self (by simpa using hj), hget i hi]
  · rw [if_neg hkj, List.getElem?_set_ne (Ne.symm hkj)]
    by_cases hki : k = i
    · subst hki
      rw [if_pos rfl, List.getElem?_set_self hi, hget j hj]
    · rw [if_neg hki, List.getElem?_set_ne (Ne.symm hki)]

/-- The first `k` swaps have turned the outer `k` cells at both ends. -/
theorem swaps_getElem? {k : ℕ} (hk : 2 * k ≤ arr.length) :
    let swapped := (List.range k).foldl (fun a i => swapChar a i (arr.length - i - 1)) arr
    swapped.length = arr.length ∧ ∀ i < arr.length, swapped[i]? =
      if i < k ∨ arr.length - k ≤ i then arr[arr.length - 1 - i]? else arr[i]? := by
  induction k with
  | zero =>
    refine ⟨rfl, fun i hi => ?_⟩
    rw [if_neg (by omega)]
    rfl
  | succ k ih =>
    obtain ⟨hlength, hget⟩ := ih (by omega)
    rw [List.range_succ, List.foldl_append]
    refine ⟨(swapChar_length _ _ _).trans hlength, fun i hi => ?_⟩
    rw [List.foldl_cons, List.foldl_nil, swapChar_getElem? (by omega) (by omega)]
    rw [hget k (by omega), hget (arr.length - k - 1) (by omega), hget i hi]
    by_cases hi' : i = arr.length - k - 1
    · rw [if_pos hi', if_neg (by omega), if_pos (by omega)]
      congr 1
      omega
    · rw [if_neg hi']
      by_cases hik : i = k
      · rw [if_pos hik, if_neg (by omega), if_pos (by omega)]
        congr 1
        omega
      · rw [if_neg hik]
        exact if_congr (by omega) rfl rfl

theorem reverseArray_eq (arr : List BYTE) : reverseArray arr arr.length = arr.reverse := by
  obtain ⟨hlength, hget⟩ := @swaps_getElem? arr (arr.length / 2) (by omega)
  apply List.ext_getElem?
  intro i
  by_cases hi : i < arr.length
  · rw [List.getElem?_reverse hi]
    refine (hget i hi).trans ?_
    split
    · rfl
    · congr 1
      omega
  · have hlength : (reverseArray arr arr.length).length = arr.length := hlength
    rw [List.getElem?_eq_none (by omega), List.getElem?_eq_none (by simpa using hi)]

/-- With room for the digits of `num`, the loop stores them and stops by itself. -/
theorem fillDigits_eq (hradix : 2 ≤ radix) (hnum : num < radix ^ room) :
    fillDigits radix room num = some ((Nat.digits radix num).map digitChar) := by
  induction room generalizing num with
  | zero =>
    obtain rfl : num = 0 := by simpa using hnum
    simp [fillDigits]
  | succ room ih =>
    unfold fillDigits
    rcases Nat.eq_zero_or_pos num with rfl | hpos
    · simp
    · have hrest : num / radix < radix ^ room := by
        rw [pow_succ] at hnum
        exact Nat.div_lt_of_lt_mul (by rwa [Nat.mul_comm] at hnum)
      rw [if_pos hpos, ih hrest, Nat.digits_def' (by omega) hpos]
      rfl

/-- Where no store misses the array, the loop bounded by the array is the loop of the source. -/
theorem charDigits_eq (h : fillDigits radix room num = some digits) :
    charDigits radix room num = digits := by
  induction room generalizing num digits with
  | zero =>
    unfold fillDigits at h
    split at h
    · cases h
    · exact Option.some.inj h
  | succ room ih =>
    unfold fillDigits at h
    unfold charDigits
    split at h
    next hpos =>
      obtain ⟨rest, hrest, rfl⟩ := Option.map_eq_some_iff.mp h
      rw [if_pos hpos, ih hrest]
    next hzero =>
      rw [if_neg hzero]
      exact Option.some.inj h

/-- The digits of `num` from the left, as the loops leave them. -/
def numeral (radix num : ℕ) : List BYTE := (Nat.digits radix num).reverse.map digitChar

theorem reverse_charDigits (hradix : 2 ≤ radix) (hnum : num < radix ^ room) :
    reverseArray (charDigits radix room num) (charDigits radix room num).length =
      numeral radix num := by
  rw [reverseArray_eq, charDigits_eq (fillDigits_eq hradix hnum), numeral, List.map_reverse]

theorem digitValue_digitChar (h : digit < 16) : digitValue (digitChar digit) = some digit := by
  have hall : ∀ digit < 16, digitValue (digitChar digit) = some digit := by decide
  exact hall digit h

theorem digitChar_sign (digit : ℕ) : digitChar digit ≠ 0x2D := by
  have hall : ∀ ch ∈ ([0x30, 0x31, 0x32, 0x33, 0x34, 0x35, 0x36, 0x37, 0x38, 0x39, 0x41, 0x42,
      0x43, 0x44, 0x45, 0x46] : List BYTE), ch ≠ 0x2D := by decide
  unfold digitChar
  rw [List.getD_eq_getElem?_getD]
  cases hget : ([0x30, 0x31, 0x32, 0x33, 0x34, 0x35, 0x36, 0x37, 0x38, 0x39, 0x41, 0x42, 0x43,
      0x44, 0x45, 0x46] : List BYTE)[digit]? with
  | none => decide
  | some ch => exact hall ch (List.mem_of_getElem? hget)

theorem readDigits_append (num : ℕ) (chs : List BYTE) (ch : BYTE) :
    readDigits radix num (chs ++ [ch]) =
      (readDigits radix num chs).bind fun num => readDigits radix num [ch] := by
  induction chs generalizing num with
  | nil => rfl
  | cons c chs ih =>
    simp only [List.cons_append, readDigits]
    cases digitValue c with
    | none => rfl
    | some digit =>
      dsimp only
      split
      · exact ih _
      · rfl

/-- A string of digits read from the left has the value of the digits. -/
theorem readDigits_ofDigits (h16 : radix ≤ 16) {ds : List ℕ} (hds : ∀ d ∈ ds, d < radix) :
    readDigits radix 0 (ds.reverse.map digitChar) = some (Nat.ofDigits radix ds) := by
  induction ds with
  | nil => rfl
  | cons d ds ih =>
    have hd : d < radix := hds d (by simp)
    rw [List.reverse_cons, List.map_append, List.map_singleton, readDigits_append,
      ih fun d' hd' => hds d' (List.mem_cons_of_mem d hd'), Option.bind_some]
    simp only [readDigits, digitValue_digitChar (hd.trans_le h16), hd, if_true, Nat.ofDigits_cons]
    rw [Nat.add_comm, Nat.mul_comm]

theorem readDigits_numeral (hradix : 2 ≤ radix) (h16 : radix ≤ 16) (num : ℕ) :
    readDigits radix 0 (numeral radix num) = some num := by
  unfold numeral
  rw [readDigits_ofDigits h16 fun d hd => Nat.digits_lt_base (by omega) hd, Nat.ofDigits_digits]

/-- The first digit of a number that is not zero. -/
theorem numeral_head (hradix : 2 ≤ radix) (h16 : radix ≤ 16) (hnum : num ≠ 0) :
    ∃ digit, 0 < digit ∧ digit < 16 ∧ (numeral radix num).head? = some (digitChar digit) := by
  have hne : Nat.digits radix num ≠ [] := Nat.digits_ne_nil_iff_ne_zero.mpr hnum
  refine ⟨(Nat.digits radix num).getLast hne, ?_, ?_, ?_⟩
  · exact Nat.pos_of_ne_zero (Nat.getLast_digit_ne_zero radix hnum)
  · have hlast := Nat.digits_lt_base (show 1 < radix by omega) (List.getLast_mem hne)
    omega
  · rw [numeral, List.head?_map, List.head?_reverse, List.getLast?_eq_getLast_of_ne_nil hne]
    rfl

/-- Sign and digits put together spell the number. -/
theorem numeral_shows (hradix : 2 ≤ radix) (h16 : radix ≤ 16) (hnum : num ≠ 0) (value : ℤ)
    (hvalue : value = num ∨ value = -num) :
    ShowsNumber radix ((if value < 0 then [0x2D] else []) ++ numeral radix num) value := by
  obtain ⟨digit, hpos, hlt, hhead⟩ := numeral_head hradix h16 hnum
  obtain ⟨chs, hchs⟩ : ∃ chs, numeral radix num = digitChar digit :: chs := by
    cases hnumeral : numeral radix num with
    | nil => simp [hnumeral] at hhead
    | cons ch chs =>
      rw [hnumeral] at hhead
      exact ⟨chs, by rw [Option.some.inj hhead]⟩
  have hread := readDigits_numeral hradix h16 num
  constructor
  · split
    next hneg =>
      rw [List.singleton_append, hchs, parseNumber, if_pos rfl, if_neg (by simp), ← hchs, hread,
        Option.map_some]
      congr 1
      omega
    next hnonneg =>
      rw [List.nil_append, hchs, parseNumber, if_neg (digitChar_sign digit), ← hchs, hread,
        Option.map_some]
      congr 1
      omega
  · refine ⟨numeral radix num, rfl, fun hzero => ?_⟩
    have hdigit : ∀ digit < 16, digitChar digit = 0x30 → digit = 0 := by decide
    rw [hhead] at hzero
    have := hdigit digit hlt (Option.some.inj hzero)
    omega

theorem zero_shows (hradix : 2 ≤ radix) (h16 : radix ≤ 16) : ShowsNumber radix [0x30] 0 := by
  have hread := readDigits_ofDigits h16 (show ∀ d ∈ [0], d < radix by simp; omega)
  refine ⟨?_, [0x30], rfl, fun _ => rfl⟩
  rw [parseNumber, if_neg (by decide)]
  exact congrArg (Option.map fun num : ℕ => (num : ℤ)) hread

/-- The negation of the smallest `int` is that value again, from which no digit is taken. -/
theorem printedValue_min : printedValue 0x80000000 = 0 := by decide

theorem intCharacters_min (radix : ℕ) : intCharacters 0x80000000 radix = [0x2D] := by
  have hdigits : charDigits radix 32 0 = [] := rfl
  rw [intCharacters, if_neg (by decide), printedValue_min, hdigits]
  rfl

theorem printedValue_eq {num : DWORD} (h : num ≠ 0x80000000) :
    printedValue num = num.toInt.natAbs := by
  have hneg : (-num).toInt = -num.toInt := by
    rw [BitVec.toInt_neg_of_ne_intMin]
    exact h
  unfold printedValue
  split
  · rw [hneg]
    omega
  · omega

theorem printedValue_lt (num : DWORD) : printedValue num < 2 ^ 31 := by
  have hlt := BitVec.toInt_lt (x := if num.toInt < 0 then -num else num)
  unfold printedValue
  omega

theorem pow_le_radix (hradix : 2 ≤ radix) (n : ℕ) : 2 ^ n ≤ radix ^ n := Nat.pow_le_pow_left hradix n

/-- `printInt` spells every number but the smallest `int`, of which it prints the sign alone.
`printHex` spells every number, and no digit is stored outside an array. -/
theorem number_printed_iff (s : Screen) (num : DWORD) (radix : ℕ) (hradix : 2 ≤ radix)
    (h16 : radix ≤ 16) (value : QWORD) :
    (s.printInt num ⟨radix, hradix, h16⟩ = s.viewCharacters (intCharacters num radix) ∧
      (ShowsNumber radix (intCharacters num radix) num.toInt ↔ num ≠ 0x80000000) ∧
      fillDigits radix 32 (printedValue num) ≠ none) ∧
    (s.printHex value = s.viewCharacters (hexCharacters value) ∧
      ShowsNumber 16 (hexCharacters value) value.toNat ∧ fillDigits 16 16 value.toNat ≠ none) := by
  have hroom : printedValue num < radix ^ 32 :=
    ((printedValue_lt num).trans (by decide)).trans_le (pow_le_radix hradix 32)
  have hvalue : value.toNat < 16 ^ 16 := value.isLt.trans_le (by decide)
  refine ⟨⟨s.printInt_eq num ⟨radix, hradix, h16⟩, ⟨?_, ?_⟩, ?_⟩, s.printHex_eq value, ?_, ?_⟩
  · rintro hshows rfl
    have hparsed := hshows.parsed
    rw [intCharacters_min] at hparsed
    cases hparsed
  · intro hne
    unfold intCharacters
    split
    next heq =>
      rw [heq]
      exact zero_shows hradix h16
    next hnonzero =>
      have hpos : printedValue num ≠ 0 := by
        rw [printedValue_eq hne, Int.natAbs_ne_zero]
        exact fun h => hnonzero (BitVec.eq_of_toInt_eq h)
      dsimp only
      rw [reverse_charDigits hradix hroom]
      apply numeral_shows hradix h16 hpos
      rw [printedValue_eq hne]
      omega
  · rw [fillDigits_eq hradix hroom]
    exact Option.some_ne_none _
  · unfold hexCharacters
    split
    next heq =>
      rw [heq]
      exact zero_shows (by decide) (by decide)
    next hnonzero =>
      have hpos : value.toNat ≠ 0 := fun h => hnonzero (BitVec.eq_of_toNat_eq h)
      dsimp only
      rw [reverse_charDigits (by decide) hvalue]
      have hshows := @numeral_shows 16 _ (by decide) (by decide) hpos value.toNat (.inl rfl)
      rwa [if_neg (by omega)] at hshows
  · rw [fillDigits_eq (by decide) hvalue]
    exact Option.some_ne_none _

/-- The smallest `int` is printed as a sign without digits. -/
theorem smallest_int_lost : ¬ ShowsNumber 10 (intCharacters 0x80000000 10) (BitVec.toInt (0x80000000 : DWORD)) := by
  intro hshows
  have hparsed := hshows.parsed
  rw [intCharacters_min] at hparsed
  cases hparsed

/-- The number -255 in hexadecimal digits. -/
theorem number_printed_iff_negative :
    ShowsNumber 16 (intCharacters (BitVec.ofInt 32 (-255)) 16) (-255) ∧
      intCharacters (BitVec.ofInt 32 (-255)) 16 = [0x2D, 0x46, 0x46] :=
  ⟨(number_printed_iff ⟨0, fun _ => ⟨0, 0⟩⟩ (BitVec.ofInt 32 (-255)) 16 (by decide) (by decide)
    0).1.2.1.mpr (by decide), by decide⟩

end SkhuOS
