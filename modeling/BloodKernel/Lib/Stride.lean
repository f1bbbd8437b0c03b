import Mathlib.Algebra.Order.Floor.Div
import Mathlib.Data.BitVec

set_option autoImplicit false

/-!
# Loops with a step

`for (i = start; i < bound; i += step)` with a counter of fixed width, that may wrap.

* `strideLoop`: the loop; `strides`: the number of its turns, if the counter does not wrap.
* `strideLoop_eq`: then it goes over the values from `start` on, and ends.
* `strideLoop_eq_none`: it never ends when all words that the counter can reach are below the bound.
* **`exists_strideLoop_iff`**: when it ends, and with what.
* `exists_turn_iff`, `exists_meets_iff`, `strides_fit_iff`: a loop over the blocks of a range, from a block of its own.
-/

namespace Lib

variable {σ : Type} {w : ℕ}

/-- `for (i = start; i < bound; i += step)`, which tests its condition at most `fuel` times. -/
def strideLoop (step bound : BitVec w) (body : σ → BitVec w → σ) : ℕ → BitVec w → σ → Option σ
  | 0, _, _ => none
  | fuel + 1, i, s => if i < bound then strideLoop step bound body fuel (i + step) (body s i) else some s

/-- How often `step` is added to come to the bound. -/
def strides (start step bound : ℕ) : ℕ := (bound - start) ⌈/⌉ step

/-- Turn `k`, and what the loop makes of `n` turns. -/
def strided (step : BitVec w) (body : σ → BitVec w → σ) (start : BitVec w) (n : ℕ) (s : σ) : σ :=
  (List.range n).foldl (fun s k => body s (start + BitVec.ofNat w k * step)) s

variable {start step bound : BitVec w} {body : σ → BitVec w → σ} {s : σ} {n : ℕ}

theorem lt_strides_iff {a b l k : ℕ} (hl : 0 < l) : k < strides a l b ↔ a + k * l < b := by
  have hle := ceilDiv_le_iff_le_mul (b := b - a) (c := k) hl
  unfold strides
  rw [← not_le, hle, Nat.mul_comm]
  omega

theorem strides_bounds {a b l : ℕ} (hl : 0 < l) (h : a < b) :
    b ≤ a + strides a l b * l ∧ a + strides a l b * l < b + l := by
  have hnot := mt (lt_strides_iff (b := b) hl).mpr (Nat.lt_irrefl (strides a l b))
  have hpos : 0 < strides a l b := (lt_strides_iff hl).mpr (by omega)
  have hlast := (lt_strides_iff hl).mp (Nat.sub_lt hpos Nat.one_pos)
  rw [Nat.sub_mul] at hlast
  omega

theorem strided_succ : strided step body start (n + 1) s =
    strided step body (start + step) n (body s start) := by
  unfold strided
  rw [List.range_succ_eq_map, List.foldl_cons, List.foldl_map, BitVec.zero_mul, BitVec.add_zero]
  refine congrArg (fun f => List.foldl f _ _) ?_
  funext s k
  rw [Nat.succ_eq_add_one, Nat.add_comm k 1, BitVec.ofNat_add, BitVec.add_mul]
  simp [BitVec.add_assoc]

theorem strided_concat : strided step body start (n + 1) s =
    body (strided step body start n s) (start + BitVec.ofNat w n * step) := by
  unfold strided
  rw [List.range_succ, List.foldl_append, List.foldl_cons, List.foldl_nil]

/-- **A loop that ends.** The counter does not wrap up to its last value. -/
theorem strideLoop_eq (hstep : 0 < step.toNat) (fuel : ℕ) :
    ∀ (start : BitVec w) (s : σ),
      start.toNat + strides start.toNat step.toNat bound.toNat * step.toNat < 2 ^ w →
        strideLoop step bound body fuel start s =
          if strides start.toNat step.toNat bound.toNat < fuel then
            some (strided step body start (strides start.toNat step.toNat bound.toNat) s)
          else none := by
  induction fuel with
  | zero => exact fun start s _ => rfl
  | succ fuel ih =>
      intro start s hwrap
      have hpos : 0 < strides start.toNat step.toNat bound.toNat ↔ start < bound := by
        rw [lt_strides_iff hstep, Nat.zero_mul, Nat.add_zero, BitVec.lt_def]
      unfold strideLoop
      by_cases hlt : start < bound
      · obtain ⟨n, hn⟩ := Nat.exists_eq_succ_of_ne_zero (hpos.mpr hlt).ne'
        rw [hn, Nat.succ_mul] at hwrap
        have hvalue : (start + step).toNat = start.toNat + step.toNat :=
          BitVec.toNat_add_of_lt (by omega)
        have hnext : strides (start + step).toNat step.toNat bound.toNat = n := by
          refine eq_of_forall_lt_iff fun k => ?_
          have hsucc := lt_strides_iff (a := start.toNat) (b := bound.toNat) (k := k + 1) hstep
          rw [hn, Nat.succ_lt_succ_iff, Nat.succ_mul] at hsucc
          rw [lt_strides_iff hstep, hvalue, hsucc]
          omega
        rw [if_pos hlt, ih _ _ (by rw [hnext, hvalue]; omega), hnext, hn, strided_succ]
        exact if_congr Nat.succ_lt_succ_iff.symm rfl rfl
      · have hzero : strides start.toNat step.toNat bound.toNat = 0 := Nat.eq_zero_of_not_pos (mt hpos.mp hlt)
        rw [if_neg hlt, hzero, if_pos (Nat.succ_pos fuel)]
        rfl

/-- **A loop that does not end.** When the step divides the size of the words, the counter keeps to its remainder, and
no word with this remainder reaches the bound. -/
theorem strideLoop_eq_none (hdvd : step.toNat ∣ 2 ^ w) (fuel : ℕ) :
    ∀ (start : BitVec w) (s : σ), (∀ x : BitVec w, x.toNat ≡ start.toNat [MOD step.toNat] → x < bound) →
      strideLoop step bound body fuel start s = none := by
  induction fuel with
  | zero => exact fun start s _ => rfl
  | succ fuel ih =>
      intro start s hall
      have hmod : (start + step).toNat ≡ start.toNat [MOD step.toNat] := by
        rw [BitVec.toNat_add]
        exact ((Nat.mod_modEq _ _).of_dvd hdvd).trans (Nat.add_modEq_right)
      unfold strideLoop
      rw [if_pos (hall start rfl)]
      exact ih _ _ fun x hx => hall x (hx.trans hmod)

/-- Where the successor of the last value wraps, the bound is not reached. -/
theorem forall_lt_of_wrap (hstep : 0 < step.toNat) (hlt : start < bound)
    (hwrap : 2 ^ w ≤ start.toNat + strides start.toNat step.toNat bound.toNat * step.toNat) {x : BitVec w}
    (hx : x.toNat ≡ start.toNat [MOD step.toNat]) : x < bound := by
  by_contra hge
  have hle : bound.toNat ≤ x.toNat := not_lt.mp hge
  have hstart : start.toNat ≤ x.toNat := (BitVec.lt_def.mp hlt).le.trans hle
  -- `x` is some number of steps behind `start`, and so many steps reach the bound
  obtain ⟨k, hk⟩ := (Nat.modEq_iff_dvd' hstart).mp hx.symm
  rw [Nat.mul_comm] at hk
  have hreach : ¬k < strides start.toNat step.toNat bound.toNat := fun h => by
    have := (lt_strides_iff hstep).mp h
    omega
  have hmul := Nat.mul_le_mul_right step.toNat (not_lt.mp hreach)
  have := x.isLt
  omega

/-- **When the loop ends**, and with what. -/
theorem exists_strideLoop_iff (hstep : 0 < step.toNat) (hdvd : step.toNat ∣ 2 ^ w) {t : σ} :
    (∃ fuel, strideLoop step bound body fuel start s = some t) ↔
      start.toNat + strides start.toNat step.toNat bound.toNat * step.toNat < 2 ^ w ∧
        t = strided step body start (strides start.toNat step.toNat bound.toNat) s := by
  by_cases hwrap : start.toNat + strides start.toNat step.toNat bound.toNat * step.toNat < 2 ^ w
  · have hloop (fuel : ℕ) : strideLoop step bound body fuel start s = _ := strideLoop_eq hstep fuel start s hwrap
    constructor
    · rintro ⟨fuel, h⟩
      rw [hloop] at h
      split_ifs at h
      exact ⟨hwrap, (Option.some_inj.mp h).symm⟩
    · rintro ⟨-, rfl⟩
      exact ⟨strides start.toNat step.toNat bound.toNat + 1, by rw [hloop, if_pos (Nat.lt_succ_self _)]⟩
  · refine iff_of_false ?_ fun h => hwrap h.1
    rintro ⟨fuel, h⟩
    have hlt : start < bound := by
      by_contra hge
      have hzero : ¬0 < strides start.toNat step.toNat bound.toNat := fun h => by
        rw [lt_strides_iff hstep, Nat.zero_mul, Nat.add_zero] at h
        exact hge h
      rw [Nat.eq_zero_of_not_pos hzero, Nat.zero_mul, Nat.add_zero] at hwrap
      exact hwrap start.isLt
    rw [strideLoop_eq_none hdvd fuel start s fun x => forall_lt_of_wrap hstep hlt (not_lt.mp hwrap)] at h
    cases h

/-! ## The blocks of a range -/

section Meets

variable {a b l m q c : ℕ}

theorem exists_meets_iff (hl : 0 < l) (hab : a < b) :
    (∃ x, a ≤ x ∧ x < b ∧ x / l = m) ↔ a / l ≤ m ∧ m * l < b := by
  constructor
  · rintro ⟨x, hax, hxb, rfl⟩
    exact ⟨Nat.div_le_div_right hax, (Nat.div_mul_le_self x l).trans_lt hxb⟩
  · rintro ⟨ham, hmb⟩
    by_cases hle : a ≤ m * l
    · exact ⟨m * l, hle, hmb, Nat.mul_div_cancel m hl⟩
    · refine ⟨a, le_rfl, hab, le_antisymm ham ?_⟩
      exact (Nat.le_div_iff_mul_le hl).mpr (Nat.le_of_not_le hle)

theorem exists_turn_iff (hl : 0 < l) : (∃ k, k < strides (q * l) l b ∧ q + k = m) ↔ q ≤ m ∧ m * l < b := by
  constructor
  · rintro ⟨k, hk, rfl⟩
    rw [lt_strides_iff hl, ← Nat.add_mul] at hk
    exact ⟨Nat.le_add_right q k, hk⟩
  · rintro ⟨hqm, hmb⟩
    refine ⟨m - q, ?_, Nat.add_sub_cancel' hqm⟩
    rwa [lt_strides_iff hl, ← Nat.add_mul, Nat.add_sub_cancel' hqm]

/-- The counter stays below a whole number of blocks when the bound is a block below. -/
theorem strides_fit_iff (hl : 0 < l) (hlt : q * l < b) : q * l + strides (q * l) l b * l < c * l ↔ b + l ≤ c * l := by
  obtain ⟨hreach, hlast⟩ := strides_bounds hl hlt
  refine ⟨fun hfit => ?_, hlast.trans_le⟩
  rw [← Nat.add_mul] at hfit
  have hblock := Nat.mul_le_mul_right l (Nat.lt_of_mul_lt_mul_right hfit)
  rw [Nat.succ_mul, Nat.add_mul] at hblock
  omega

end Meets

end Lib
