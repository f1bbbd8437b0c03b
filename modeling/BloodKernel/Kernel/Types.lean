import Mathlib.Algebra.GroupWithZero.Nat
import Mathlib.Data.BitVec

set_option autoImplicit false

/-!
# Machine integers of the kernel

The fixed-width types of `include/kernel/types.h`, and `bit i`, the word written `1 << i`.
-/

namespace BloodKernel

abbrev U8 := BitVec 8
abbrev U16 := BitVec 16
abbrev U32 := BitVec 32
abbrev U64 := BitVec 64

/-- The size of the data of a CAN frame and of a log entry, and of a message queue. -/
instance neZero_eight : NeZero 8 := ⟨by decide⟩

/-- `1 << i`. -/
def bit (i : ℕ) : U32 := BitVec.twoPow 32 i

theorem and_bit_eq_zero {v : U32} {i : ℕ} (hi : i < 32) : v &&& bit i = 0 ↔ v.getLsbD i = false := by
  unfold bit
  rw [BitVec.and_twoPow]
  cases h : v.getLsbD i with
  | false => simp
  | true =>
      refine iff_of_false (fun h0 => ?_) (by decide)
      have hb := congrArg (fun x : U32 => x.getLsbD i) h0
      simp [hi] at hb

theorem getLsbD_or_bit {v : U32} {i j : ℕ} :
    (v ||| bit i).getLsbD j = (v.getLsbD j || decide (i < 32 ∧ i = j)) := by
  rw [BitVec.getLsbD_or, bit, BitVec.getLsbD_twoPow, Bool.decide_and]

theorem getLsbD_or_bit_of_ne {v : U32} {i j : ℕ} (h : i ≠ j) :
    (v ||| bit i).getLsbD j = v.getLsbD j := by
  rw [getLsbD_or_bit]
  simp [h]

theorem getLsbD_and_not_bit {v : U32} {i j : ℕ} (hj : j < 32) :
    (v &&& ~~~bit i).getLsbD j = (v.getLsbD j && decide (i ≠ j)) := by
  rw [BitVec.getLsbD_and, BitVec.getLsbD_not, bit, BitVec.getLsbD_twoPow]
  by_cases h : i = j
  · subst h
    simp [hj]
  · simp [h, hj]

theorem toNat_sub_one {v : U32} {k : ℕ} (hv : v.toNat = 2 ^ k) : (v - 1).toNat = 2 ^ k - 1 := by
  rw [BitVec.toNat_sub_of_le (BitVec.le_def.mpr (hv ▸ Nat.two_pow_pos k)), hv]
  rfl

theorem shift_and_mask (v : U32) (i : ℕ) {k : ℕ} (hk : k ≤ 32) :
    (v >>> i) &&& BitVec.ofNat 32 (2 ^ k - 1) = (v.extractLsb' i k).setWidth 32 := by
  have hle : 2 ^ k ≤ 2 ^ 32 := Nat.pow_le_pow_right (by decide) hk
  have hpos : 0 < 2 ^ k := Nat.two_pow_pos k
  apply BitVec.eq_of_toNat_eq
  rw [BitVec.toNat_and, BitVec.toNat_ofNat, Nat.mod_eq_of_lt (by omega),
    Nat.and_two_pow_sub_one_eq_mod, BitVec.toNat_setWidth, BitVec.extractLsb'_toNat,
    BitVec.toNat_ushiftRight]
  exact (Nat.mod_eq_of_lt ((Nat.mod_lt _ hpos).trans_le hle)).symm

theorem getLsbD_and_allOnes_shiftLeft (v : U32) (k : ℕ) {i : ℕ} (hi : i < 32) :
    (v &&& BitVec.allOnes 32 <<< k).getLsbD i = (v.getLsbD i && decide (k ≤ i)) := by
  rw [BitVec.getLsbD_and, BitVec.getLsbD_shiftLeft, BitVec.getLsbD_allOnes]
  by_cases h : i < k
  · simp [h, Nat.not_le.mpr h]
  · simp [h, hi, Nat.not_lt.mp h, (Nat.sub_le i k).trans_lt hi]

theorem toNat_and_allOnes_shiftLeft (v : U32) (k : ℕ) :
    (v &&& BitVec.allOnes 32 <<< k).toNat = v.toNat / 2 ^ k * 2 ^ k := by
  have hshift : v &&& BitVec.allOnes 32 <<< k = (v >>> k) <<< k := by
    apply BitVec.eq_of_getLsbD_eq
    intro i hi
    rw [getLsbD_and_allOnes_shiftLeft v k hi, BitVec.getLsbD_shiftLeft, BitVec.getLsbD_ushiftRight]
    by_cases h : i < k
    · simp [h, Nat.not_le.mpr h]
    · simp [h, hi, Nat.not_lt.mp h, Nat.add_sub_cancel' (Nat.not_lt.mp h)]
  have hle : v.toNat / 2 ^ k * 2 ^ k ≤ v.toNat := Nat.div_mul_le_self _ _
  rw [hshift, BitVec.toNat_shiftLeft, BitVec.toNat_ushiftRight, Nat.shiftLeft_eq,
    Nat.shiftRight_eq_div_pow]
  exact Nat.mod_eq_of_lt (hle.trans_lt v.isLt)

end BloodKernel
