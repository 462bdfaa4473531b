import SkhuOS.Loader.Page

/-! What the tables of the loader map: every page to itself, as far as the high words of
the addresses are zero. -/
namespace SkhuOS.Loader
open Foundation

/-- Address `v` is mapped to itself, present in the kernel area only, not executable from
2 GB on and closed to user code. -/
def IdentityMapped (m : Bytes) (v : ℕ) : Prop :=
  ∃ entry, pageWalk m v = some entry ∧ entry.frame = v / 2 ^ 12 ∧
    (entry.present = true ↔ v < 0x4000000) ∧
    (entry.executeDisabled = true ↔ 0x80000000 ≤ v) ∧ entry.userAccess = false

variable {i v : ℕ}

theorem highWord_lt (address : DWORD) : (highWord address).toNat < 2 ^ 8 := by
  have hlt := address.isLt
  rw [highWord_toNat]
  split <;> omega

/-- The high word of a page address: zero exactly for the pages below 256 MB. -/
theorem highWord_eq_zero (hi : i < 2 ^ 20) :
    (highWord (physicalAddress i)).toNat = 0 ↔ i < 2 ^ 16 := by
  have haddress : (physicalAddress i).toNat = i * 0x1000 := by
    rw [physicalAddress, BitVec.toNat_ofNat]
    omega
  rw [highWord_toNat, haddress]
  split <;> omega

/-- An entry made of flags and the address of page `i`. -/
theorem frame_eq_iff {flags : ℕ} {upper : DWORD} (hflags : flags < 2 ^ 12) (hi : i < 2 ^ 20) :
    (⟨BitVec.ofNat 32 flags ||| physicalAddress i, upper⟩ : PtEntry).frame = i ↔
      upper.toNat % 2 ^ 20 = 0 := by
  rw [PtEntry.frame, physicalAddress]
  dsimp only
  rw [toNat_flags_or hflags]
  omega

theorem flag_getLsbD {flags j : ℕ} (hj : j < 12) (i : ℕ) :
    (BitVec.ofNat 32 flags ||| physicalAddress i).getLsbD j = flags.testBit j := by
  rw [BitVec.getLsbD_or, physicalAddress, address_getLsbD i hj, Bool.or_false, BitVec.getLsbD_ofNat,
    decide_eq_true (show j < 32 by omega), Bool.true_and]

theorem highWord_getLsbD (address : DWORD) : (highWord address).getLsbD 31 = false := by
  have hlt := highWord_lt address
  rw [BitVec.getLsbD]
  exact Nat.testBit_lt_two_pow (by omega)

/-- The bit that disables execution is not part of the frame. -/
theorem highWord_exb (address : DWORD) :
    (highWord address ||| pageFlagEXB).toNat % 2 ^ 20 = (highWord address).toNat % 2 ^ 20 := by
  have hlow : pageFlagEXB.toNat % 2 ^ 20 = 0 := rfl
  rw [BitVec.toNat_or, Nat.or_mod_two_pow, hlow, Nat.or_zero]

/-- The entry of a page as flags, its address and the high word. -/
theorem pageEntry_eq (i : ℕ) : ∃ flags upper, pageEntry i =
    ⟨BitVec.ofNat 32 flags ||| physicalAddress i, upper⟩ ∧ flags < 2 ^ 12 ∧
      flags.testBit 2 = false ∧ flags.testBit 0 = decide (i < 0x4000) ∧
      upper.toNat % 2 ^ 20 = (highWord (physicalAddress i)).toNat % 2 ^ 20 ∧
      upper.getLsbD 31 = decide (0x80000 ≤ i) := by
  rw [pageEntry, kernelPages_eq, codePages_eq]
  have hhigh := highWord_getLsbD (physicalAddress i)
  by_cases hkernel : i < 0x4000
  · rw [if_pos hkernel]
    refine ⟨3, _, rfl, by decide, rfl, (decide_eq_true hkernel).symm, rfl, ?_⟩
    rw [hhigh, decide_eq_false (by omega)]
  · rw [if_neg hkernel]
    by_cases hcode : i < 0x80000
    · rw [if_pos hcode]
      refine ⟨2, _, rfl, by decide, rfl, (decide_eq_false hkernel).symm, rfl, ?_⟩
      rw [hhigh, decide_eq_false (by omega)]
    · rw [if_neg hcode]
      refine ⟨2, _, rfl, by decide, rfl, (decide_eq_false hkernel).symm,
        highWord_exb (physicalAddress i), ?_⟩
      rw [BitVec.getLsbD_or, hhigh, decide_eq_true (by omega)]
      rfl

/-- The bits of every page are as they should be, from 256 MB on as well; the frame is that of the
page below 256 MB only. -/
theorem page_bits (m : Bytes) (hv : v < 2 ^ 32) : ∃ entry,
    pageWalk (initializePaging m) v = some entry ∧ (entry.frame = v / 2 ^ 12 ↔ v < 0x10000000) ∧
      (entry.present = true ↔ v < 0x4000000) ∧
      (entry.executeDisabled = true ↔ 0x80000000 ≤ v) ∧ entry.userAccess = false := by
  have hi : v / 2 ^ 12 < 2 ^ 20 := by omega
  obtain ⟨flags, upper, heq, hflags, huser, hpresent, hupper, hexb⟩ := pageEntry_eq (v / 2 ^ 12)
  have hzero := highWord_eq_zero hi
  have hlt := highWord_lt (physicalAddress (v / 2 ^ 12))
  refine ⟨_, walk_initializePaging m hv, ?_, ?_, ?_, ?_⟩
  · rw [heq, frame_eq_iff hflags hi, hupper, Nat.mod_eq_of_lt (by omega), hzero]
    omega
  · rw [heq, PtEntry.present, flag_getLsbD (by omega), hpresent, decide_eq_true_iff]
    omega
  · rw [heq, PtEntry.executeDisabled, hexb, decide_eq_true_iff]
    omega
  · rw [heq, PtEntry.userAccess, flag_getLsbD (by omega), huser]

/-- The tables map an address to itself exactly if it is below 256 MB: above, the high word
of the entry holds address bits that belong to the low word. -/
theorem identity_map_iff (m : Bytes) (hv : v < 2 ^ 32) :
    IdentityMapped (initializePaging m) v ↔ v < 0x10000000 := by
  obtain ⟨entry, hwalk, hframe, hbits⟩ := page_bits m hv
  constructor
  · rintro ⟨entry', hwalk', hmapped, -⟩
    obtain rfl := Option.some.inj (hwalk.symm.trans hwalk')
    exact hframe.mp hmapped
  · exact fun hlow => ⟨entry, hwalk, hframe.mpr hlow, hbits⟩

theorem identity_map_iff_zero :
    0 < 2 ^ 32 ∧ (IdentityMapped (initializePaging fun _ => 0) 0 ↔ 0 < 0x10000000) :=
  ⟨by decide, identity_map_iff (fun _ => 0) (by decide)⟩

/-- The page at 256 MB is mapped elsewhere. -/
theorem high_page_not_mapped : ¬ IdentityMapped (initializePaging fun _ => 0) 0x10000000 := by
  rintro ⟨entry, hentry, hmapped, -⟩
  rw [walk_initializePaging _ (by decide)] at hentry
  obtain rfl := Option.some.inj hentry
  revert hmapped
  decide +kernel

end SkhuOS.Loader
