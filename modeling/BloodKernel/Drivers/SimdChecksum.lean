import BloodKernel.Drivers.Simd
import BloodKernel.Lib.Losses
import Mathlib.Algebra.BigOperators.Fin
import Mathlib.Algebra.Order.BigOperators.Group.Finset
import Mathlib.Data.Nat.Dist

set_option autoImplicit false

/-!
# The checksum with vector registers

`simd_checksum` of `drivers/simd.c` adds up blocks of 16 bytes in two lanes of a register. The instruction it uses does
not add to the register: it takes the differences of the bytes to those that the register holds.

* `psadbw`, `simdChecksum`; `addBytes`: the sum of bytes that it should give.
* `dropped`: what the lanes lose of the sum; `loses_lane`: what one instruction loses.
* **`simd_checksum_iff`**: the checksum is the sum when what is dropped is a multiple of 2³², which for buffers of less
  than 16 MB is when nothing is.
-/

namespace BloodKernel.Simd

open Lib

/-- `sum += d[i]`, for `n` bytes from `p` on. -/
def addBytes (data : ℕ → U8) (p n : ℕ) (sum : U32) : U32 :=
  (List.range n).foldl (fun sum i => sum + (data (p + i)).setWidth 32) sum

/-- The eight bytes from `p` on. -/
def laneAt (data : ℕ → U8) (p : ℕ) : Fin 8 → U8 := fun j => data (p + j)

/-- One lane of `psadbw`: the sum of the differences of the bytes of the register to those of the source. -/
def psadbw (acc : U64) (b : Fin 8 → U8) : U64 :=
  BitVec.ofNat 64 (∑ j : Fin 8, Nat.dist (byteAt acc j).toNat (b j).toNat)

theorem blockSize_pos : 0 < 16 := Nat.succ_pos 15

/-- The loop over the blocks of 16 bytes, with the two lanes of `xmm0`. -/
def checksumBlocks (data : ℕ → U8) (size : ℕ) : (U64 × U64) × ℕ × ℕ :=
  whileAtLeast 16 blockSize_pos
    (fun acc p => (psadbw acc.1 (laneAt data p), psadbw acc.2 (laneAt data (p + 8)))) (0, 0) 0 size

/-- `simd_checksum`, which adds the low words of the lanes. -/
def simdChecksum (info : Info) (data : ℕ → U8) (size : U32) : U32 :=
  if info.optimizationEnabled = 0 ∨ size < 16 then addBytes data 0 size.toNat 0
  else if info.sseEnabled ≠ 0 ∧ size ≥ 16 then
    let (acc, p, remaining) := checksumBlocks data size.toNat
    addBytes data p remaining (acc.1.setWidth 32 + acc.2.setWidth 32)
  else addBytes data 0 size.toNat 0

/-! ## What is lost -/

/-- A lane as a number, after an instruction. -/
def laneStep (a : ℕ) (b : Fin 8 → U8) : ℕ := (psadbw (BitVec.ofNat 64 a) b).toNat

/-- What an instruction loses of a lane that holds `a`: its high byte counts as one, and each of its two bytes is
subtracted from a larger byte or a smaller one from it. -/
def laneLoss (a : ℕ) (b : Fin 8 → U8) : ℕ :=
  255 * (a / 256) + 2 * min (a % 256) (b 0).toNat + 2 * min (a / 256) (b 1).toNat

/-- The sum of eight bytes. -/
def laneSum (b : Fin 8 → U8) : ℕ := ∑ j, (b j).toNat

/-- Block `k` of the low lane, with `l = 0`, or of the high one, with `l = 8`. -/
def block (data : ℕ → U8) (l k : ℕ) : Fin 8 → U8 := laneAt data (16 * k + l)

/-- What both lanes lose of `n` blocks. -/
def dropped (data : ℕ → U8) (n : ℕ) : ℕ :=
  lost laneStep laneLoss 0 (block data 0) n + lost laneStep laneLoss 0 (block data 8) n

/-- The bytes of a lane before each block make up less than 256, and nothing if the block begins with one that is not
zero. -/
def Clean (data : ℕ → U8) (n l : ℕ) : Prop :=
  ∀ k < n, (∑ i ∈ Finset.range k, laneSum (block data l i)) < 256 ∧
    ((∑ i ∈ Finset.range k, laneSum (block data l i)) = 0 ∨ data (16 * k + l) = 0)

variable {data : ℕ → U8} {p n k l : ℕ}

theorem sum_dist_le (acc : U64) (b : Fin 8 → U8) : ∑ j : Fin 8, Nat.dist (byteAt acc j).toNat (b j).toNat ≤ 2040 := by
  have hbyte (j : Fin 8) : Nat.dist (byteAt acc j).toNat (b j).toNat ≤ 255 := by
    have := (byteAt acc j).isLt
    have := (b j).isLt
    unfold Nat.dist
    omega
  exact Finset.sum_le_card_nsmul Finset.univ _ 255 fun j _ => hbyte j

theorem toNat_psadbw (acc : U64) (b : Fin 8 → U8) :
    (psadbw acc b).toNat = ∑ j : Fin 8, Nat.dist (byteAt acc j).toNat (b j).toNat := by
  have hle := sum_dist_le acc b
  exact Nat.mod_eq_of_lt (by omega)

theorem psadbw_lt (acc : U64) (b : Fin 8 → U8) : (psadbw acc b).toNat < 2 ^ 16 := by
  have hle := sum_dist_le acc b
  rw [toNat_psadbw]
  omega

/-- Of a lane below 2¹⁶ only two bytes are not zero. -/
theorem toNat_psadbw_of_lt {a : ℕ} (ha : a < 2 ^ 16) (b : Fin 8 → U8) : (psadbw (BitVec.ofNat 64 a) b).toNat =
    Nat.dist (a % 256) (b 0).toNat + (Nat.dist (a / 256) (b 1).toNat + ∑ j : Fin 6, (b j.succ.succ).toNat) := by
  have hvalue : (BitVec.ofNat 64 a).toNat = a := Nat.mod_eq_of_lt (ha.trans (by decide))
  have hbyte (j : ℕ) : (byteAt (BitVec.ofNat 64 a) j).toNat = a / 2 ^ (8 * j) % 2 ^ 8 := by
    rw [toNat_byteAt (by decide), hvalue]
  have hlow : (byteAt (BitVec.ofNat 64 a) (0 : Fin 8)).toNat = a % 256 := by
    rw [hbyte]
    exact congrArg (· % 256) (Nat.div_one a)
  have hhigh : (byteAt (BitVec.ofNat 64 a) (Fin.succ 0 : Fin 8)).toNat = a / 256 :=
    (hbyte 1).trans (Nat.mod_eq_of_lt (by omega))
  have hrest (j : Fin 6) : (byteAt (BitVec.ofNat 64 a) (j.succ.succ : Fin 8)).toNat = 0 := by
    have hpow : 2 ^ 16 ≤ 2 ^ (8 * (j.succ.succ : Fin 8).val) :=
      Nat.pow_le_pow_right Nat.two_pos (by rw [Fin.val_succ, Fin.val_succ]; omega)
    rw [hbyte, Nat.div_eq_of_lt (ha.trans_le hpow), Nat.zero_mod]
  rw [toNat_psadbw, Fin.sum_univ_succ, Fin.sum_univ_succ, hlow, hhigh]
  simp only [hrest, Nat.dist_zero_left]
  rfl

/-- A difference in place of a sum loses the smaller number twice. -/
theorem dist_add_two_mul_min (x y : ℕ) : Nat.dist x y + 2 * min x y = x + y := by
  unfold Nat.dist
  omega

/-- **One instruction.** -/
theorem loses_lane : Loses laneStep laneLoss laneSum (· < 2 ^ 16) := by
  refine ⟨fun a b _ => psadbw_lt _ b, fun a b ha => ?_⟩
  have hsum : laneSum b = (b 0).toNat + ((b 1).toNat + ∑ j : Fin 6, (b j.succ.succ).toNat) := by
    unfold laneSum
    rw [Fin.sum_univ_succ, Fin.sum_univ_succ]
    rfl
  have hlow := dist_add_two_mul_min (a % 256) (b 0).toNat
  have hhigh := dist_add_two_mul_min (a / 256) (b 1).toNat
  have hlane := Nat.div_add_mod a 256
  unfold laneStep laneLoss
  rw [toNat_psadbw_of_lt ha, hsum]
  omega

theorem laneLoss_eq_zero_iff {a : ℕ} {b : Fin 8 → U8} : laneLoss a b = 0 ↔ a < 256 ∧ (a = 0 ∨ b 0 = 0) := by
  have hzero : b 0 = 0 ↔ (b 0).toNat = 0 := BitVec.toNat_inj.symm
  unfold laneLoss
  rw [hzero]
  by_cases ha : a < 256
  · rw [Nat.div_eq_of_lt ha, Nat.mod_eq_of_lt ha, Nat.zero_min, and_iff_right ha]
    omega
  · have hhigh : 0 < a / 256 := Nat.div_pos (Nat.le_of_not_lt ha) (by decide)
    exact iff_of_false (by omega) fun h => ha h.1

/-- **Nothing is dropped** from a lane that is clean. -/
theorem lost_lane_eq_zero_iff : lost laneStep laneLoss 0 (block data l) n = 0 ↔ Clean data n l := by
  refine (lost_eq_zero_iff loses_lane (Nat.two_pow_pos 16) n).trans (forall₂_congr fun k _ => ?_)
  rw [Nat.zero_add]
  exact laneLoss_eq_zero_iff

theorem dropped_eq_zero_iff : dropped data n = 0 ↔ Clean data n 0 ∧ Clean data n 8 :=
  Nat.add_eq_zero_iff.trans (and_congr lost_lane_eq_zero_iff lost_lane_eq_zero_iff)

/-! ## The sums -/

/-- The sum of `n` bytes. -/
def byteSum (data : ℕ → U8) (p n : ℕ) : ℕ := ∑ i ∈ Finset.range n, (data (p + i)).toNat

theorem byteSum_add (data : ℕ → U8) (p n k : ℕ) :
    byteSum data p (n + k) = byteSum data p n + byteSum data (p + n) k := by
  unfold byteSum
  rw [Finset.sum_range_add]
  simp only [Nat.add_assoc]

theorem toNat_addBytes (sum : U32) : (addBytes data p n sum).toNat = (sum.toNat + byteSum data p n) % 2 ^ 32 := by
  induction n with
  | zero => exact (Nat.mod_eq_of_lt sum.isLt).symm
  | succ n ih =>
      have hbyte : ((data (p + n)).setWidth 32).toNat = (data (p + n)).toNat :=
        BitVec.toNat_setWidth_of_le (by decide)
      unfold addBytes byteSum at ih ⊢
      rw [List.range_succ, List.foldl_append, List.foldl_cons, List.foldl_nil, BitVec.toNat_add, ih, hbyte,
        Finset.sum_range_succ, Nat.mod_add_mod, Nat.add_assoc]

theorem laneSum_laneAt : laneSum (laneAt data p) = byteSum data p 8 :=
  (Finset.sum_range fun i => (data (p + i)).toNat).symm

theorem byteSum_blocks : byteSum data 0 (16 * n) = ∑ k ∈ Finset.range n, laneSum (block data 0 k) +
    ∑ k ∈ Finset.range n, laneSum (block data 8 k) := by
  induction n with
  | zero => rfl
  | succ n ih =>
      have hlanes : byteSum data (16 * n) 16 = byteSum data (16 * n) 8 + byteSum data (16 * n + 8) 8 :=
        byteSum_add data (16 * n) 8 8
      unfold block at ih ⊢
      rw [Nat.mul_succ, byteSum_add, ih, Finset.sum_range_succ, Finset.sum_range_succ, laneSum_laneAt, laneSum_laneAt,
        Nat.zero_add, Nat.add_zero, hlanes]
      omega

/-- **The lanes after the blocks.** -/
theorem checksumBlocks_spec (data : ℕ → U8) (size : ℕ) :
    (checksumBlocks data size).2 = (16 * (size / 16), size % 16) ∧
      (checksumBlocks data size).1.1.toNat = accum laneStep 0 (block data 0) (size / 16) ∧
      (checksumBlocks data size).1.2.toNat = accum laneStep 0 (block data 8) (size / 16) := by
  have hlane (acc : U64) (b : Fin 8 → U8) : (psadbw acc b).toNat = laneStep acc.toNat b := by
    unfold laneStep
    rw [BitVec.ofNat_toNat, BitVec.setWidth_eq]
  obtain ⟨⟨k, hsum, hp, hlow, hhigh⟩, hlt⟩ := whileAtLeast_invariant 16 blockSize_pos
    (fun acc p => (psadbw acc.1 (laneAt data p), psadbw acc.2 (laneAt data (p + 8))))
    (fun acc p r => ∃ k, p + r = size ∧ p = 16 * k ∧ acc.1.toNat = accum laneStep 0 (block data 0) k ∧
      acc.2.toNat = accum laneStep 0 (block data 8) k) (by
      rintro ⟨low, high⟩ p r hle ⟨k, hsum, rfl, hlow, hhigh⟩
      refine ⟨k + 1, by omega, by omega, ?_, ?_⟩
      · rw [accum, ← hlow]
        exact hlane _ _
      · rw [accum, ← hhigh]
        exact hlane _ _)
    (s := ((0, 0) : U64 × U64)) (p := 0) (r := size) ⟨0, Nat.zero_add size, rfl, rfl, rfl⟩
  obtain rfl : k = size / 16 := by omega
  have hrest : (checksumBlocks data size).2.2 = size % 16 := by
    unfold checksumBlocks
    omega
  exact ⟨Prod.ext hp hrest, hlow, hhigh⟩

/-! ## When the checksum is the sum -/

theorem accum_add_dropped (data : ℕ → U8) (n : ℕ) :
    accum laneStep 0 (block data 0) n + accum laneStep 0 (block data 8) n + dropped data n =
      byteSum data 0 (16 * n) := by
  have hlow := accum_add_lost (g := block data 0) loses_lane (Nat.two_pow_pos 16) n
  have hhigh := accum_add_lost (g := block data 8) loses_lane (Nat.two_pow_pos 16) n
  unfold dropped
  rw [byteSum_blocks]
  omega

theorem simdChecksum_add_dropped {info : Info} (data : ℕ → U8) (hopt : info.optimizationEnabled ≠ 0)
    (hsse : info.sseEnabled ≠ 0) (size : U32) :
    ((simdChecksum info data size).toNat + dropped data (size.toNat / 16)) % 2 ^ 32 =
      byteSum data 0 size.toNat % 2 ^ 32 := by
  have hsixteen : (16 : U32).toNat = 16 := rfl
  unfold simdChecksum
  by_cases hsmall : size < 16
  · have hzero : size.toNat / 16 = 0 := Nat.div_eq_of_lt (BitVec.lt_def.mp hsmall)
    rw [if_pos (.inr hsmall), toNat_addBytes, hzero]
    show ((0 + _) % 2 ^ 32 + 0) % 2 ^ 32 = _
    omega
  · obtain ⟨hrest, hlow, hhigh⟩ := checksumBlocks_spec data size.toNat
    rw [if_neg (not_or.mpr ⟨hopt, hsmall⟩), if_pos ⟨hsse, BitVec.not_lt.mp hsmall⟩]
    revert hrest hlow hhigh
    generalize checksumBlocks data size.toNat = t
    obtain ⟨⟨low, high⟩, p, r⟩ := t
    dsimp only
    rintro hrest hlow hhigh
    obtain ⟨rfl, rfl⟩ := Prod.mk.inj hrest
    have hsplit : byteSum data 0 size.toNat = byteSum data 0 (16 * (size.toNat / 16)) +
        byteSum data (16 * (size.toNat / 16)) (size.toNat % 16) := by
      have hadd := byteSum_add data 0 (16 * (size.toNat / 16)) (size.toNat % 16)
      rwa [Nat.div_add_mod, Nat.zero_add] at hadd
    have hdropped := accum_add_dropped data (size.toNat / 16)
    rw [toNat_addBytes, BitVec.toNat_add, BitVec.toNat_setWidth, BitVec.toNat_setWidth, hlow, hhigh, hsplit]
    omega

theorem checksum_eq_iff {info : Info} (hopt : info.optimizationEnabled ≠ 0) (hsse : info.sseEnabled ≠ 0) (size : U32) :
    simdChecksum info data size = addBytes data 0 size.toNat 0 ↔ 2 ^ 32 ∣ dropped data (size.toNat / 16) := by
  have hsum := simdChecksum_add_dropped data hopt hsse size
  have hzero : (0 : U32).toNat = 0 := rfl
  have := (simdChecksum info data size).isLt
  rw [← BitVec.toNat_inj, toNat_addBytes, hzero]
  omega

theorem dropped_lt (data : ℕ → U8) (h : 16 * n < 2 ^ 24) : dropped data n < 2 ^ 32 := by
  have hbyte (i : ℕ) : (data (0 + i)).toNat ≤ 255 := Nat.le_of_lt_succ (data (0 + i)).isLt
  have hsum : byteSum data 0 (16 * n) ≤ _ := Finset.sum_le_card_nsmul _ _ 255 fun i _ => hbyte i
  rw [Finset.card_range, smul_eq_mul] at hsum
  have hdropped := accum_add_dropped data n
  omega

/-- **When the checksum is the sum** of the bytes: when what the lanes drop is a multiple of 2³², for one when they are
clean, and then only if the buffer has less than 16 MB. -/
theorem simd_checksum_iff (info : Info) (hopt : info.optimizationEnabled ≠ 0) (hsse : info.sseEnabled ≠ 0)
    (data : ℕ → U8) (size : U32) :
    (simdChecksum info data size = addBytes data 0 size.toNat 0 ↔ 2 ^ 32 ∣ dropped data (size.toNat / 16)) ∧
    (Clean data (size.toNat / 16) 0 ∧ Clean data (size.toNat / 16) 8 →
      simdChecksum info data size = addBytes data 0 size.toNat 0) ∧
    (size.toNat < 2 ^ 24 → (simdChecksum info data size = addBytes data 0 size.toNat 0 ↔
      Clean data (size.toNat / 16) 0 ∧ Clean data (size.toNat / 16) 8)) := by
  refine ⟨checksum_eq_iff hopt hsse size, fun hclean => ?_, fun hsize => ?_⟩
  · rw [checksum_eq_iff hopt hsse, dropped_eq_zero_iff.mpr hclean]
    exact Nat.dvd_zero _
  · have hlt := dropped_lt data (show 16 * (size.toNat / 16) < 2 ^ 24 by omega)
    rw [checksum_eq_iff hopt hsse, ← dropped_eq_zero_iff]
    exact ⟨fun hdvd => Nat.eq_zero_of_dvd_of_lt hdvd hlt, fun hzero => hzero ▸ Nat.dvd_zero _⟩

/-- A buffer of 40 bytes that is zero but for one. -/
theorem simd_checksum_iff_one : simdChecksum ⟨1, 1, 0, 0⟩ (Function.update 0 3 200) 40 =
    addBytes (Function.update 0 3 200) 0 40 0 :=
  (simd_checksum_iff ⟨1, 1, 0, 0⟩ (by decide) (by decide) (Function.update 0 3 200) 40).2.1
    ⟨by unfold Clean; decide +kernel, by unfold Clean; decide +kernel⟩

/-- The checksum of 32 bytes with the value 1 is 28. -/
theorem not_simd_checksum : simdChecksum ⟨1, 1, 0, 0⟩ 1 32 = 28 ∧ addBytes 1 0 32 0 = 32 ∧
    simdChecksum ⟨1, 1, 0, 0⟩ 1 32 ≠ addBytes 1 0 32 0 := by
  have hsum : ((simdChecksum ⟨1, 1, 0, 0⟩ 1 32).toNat + dropped 1 2) % 2 ^ 32 = byteSum 1 0 32 % 2 ^ 32 :=
    simdChecksum_add_dropped 1 (by decide) (by decide) 32
  have hdropped : dropped 1 2 = 4 := by decide +kernel
  have hbytes : byteSum 1 0 32 = 32 := by decide +kernel
  have hchecksum : simdChecksum ⟨1, 1, 0, 0⟩ 1 32 = 28 := by
    have hlt := (simdChecksum ⟨1, 1, 0, 0⟩ 1 32).isLt
    rw [hdropped, hbytes] at hsum
    exact BitVec.eq_of_toNat_eq (show _ = 28 by omega)
  have hadd : addBytes 1 0 32 0 = 32 := by
    refine BitVec.eq_of_toNat_eq ?_
    rw [toNat_addBytes, hbytes]
    rfl
  exact ⟨hchecksum, hadd, by rw [hchecksum, hadd]; decide⟩

end BloodKernel.Simd
