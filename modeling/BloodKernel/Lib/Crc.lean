import Mathlib.Data.BitVec

set_option autoImplicit false

/-!
# Cyclic redundancy codes

Codes whose remainder is shifted to the right, over words of any width and any polynomial.

* `crcBits`: the remainder after a list of bits, bit by bit; `shifts`: several shifts without input.
* `shifts_xor`, `shifts_of_clear`: shifting is linear, and only moves down what is above the bits shifted out.
* **`crcBits_bitsOf`**: several bits at once, from a table of the shifts of their words.
* **`crcBits_set_ne`**: with the top bit in the polynomial, a change of one word changes the remainder.
-/

namespace Lib

variable {w k j : ℕ} {p u v : BitVec w} {b : Bool}

/-- One shift of the remainder, with the bit of the input. -/
def crcBit (p v : BitVec w) (b : Bool) : BitVec w := if v.getLsbD 0 ≠ b then (v >>> 1) ^^^ p else v >>> 1

/-- The remainder after a list of bits. -/
def crcBits (p v : BitVec w) (bs : List Bool) : BitVec w := bs.foldl (crcBit p) v

/-- The bits of a word, the least significant first. -/
def bitsOf (x : BitVec k) : List Bool := (List.range k).map x.getLsbD

/-- `k` shifts without input. -/
def shifts (p : BitVec w) : ℕ → BitVec w → BitVec w
  | 0, v => v
  | k + 1, v => crcBit p (shifts p k v) false

theorem crcBit_false (p v : BitVec w) : crcBit p v false = if v.getLsbD 0 then (v >>> 1) ^^^ p else v >>> 1 := by
  unfold crcBit
  simp only [ne_eq, Bool.not_eq_false]

theorem crcBit_xor (p u v : BitVec w) :
    crcBit p (u ^^^ v) false = crcBit p u false ^^^ crcBit p v false := by
  have hcancel : ∀ a b : BitVec w, a ^^^ p ^^^ (b ^^^ p) = a ^^^ b := by
    intro a b
    rw [BitVec.xor_assoc, BitVec.xor_comm b p, ← BitVec.xor_assoc p p b, BitVec.xor_self, BitVec.zero_xor]
  have hright : ∀ a b : BitVec w, a ^^^ b ^^^ p = a ^^^ p ^^^ b := by
    intro a b
    rw [BitVec.xor_assoc, BitVec.xor_comm b p, ← BitVec.xor_assoc]
  simp only [crcBit_false, BitVec.getLsbD_xor, BitVec.ushiftRight_xor_distrib]
  cases u.getLsbD 0 with
  | false =>
      cases v.getLsbD 0 with
      | false => rfl
      | true => exact BitVec.xor_assoc _ _ _
  | true =>
      cases v.getLsbD 0 with
      | false => exact hright _ _
      | true => exact (hcancel _ _).symm

theorem shifts_xor (p : BitVec w) (k : ℕ) (u v : BitVec w) :
    shifts p k (u ^^^ v) = shifts p k u ^^^ shifts p k v := by
  induction k with
  | zero => rfl
  | succ k ih => rw [shifts, ih, crcBit_xor, shifts, shifts]

theorem shifts_of_clear (h : ∀ i < k, v.getLsbD i = false) : shifts p k v = v >>> k := by
  induction k with
  | zero => exact (BitVec.ushiftRight_zero v).symm
  | succ k ih =>
      have hlow : (v >>> k).getLsbD 0 = false := by
        rw [BitVec.getLsbD_ushiftRight]
        exact h k (Nat.lt_succ_self k)
      rw [shifts, ih fun i hi => h i (Nat.lt_succ_of_lt hi), crcBit_false, hlow, ← BitVec.shiftRight_add]
      rfl

def oneBit (w : ℕ) (b : Bool) : BitVec w := (BitVec.ofBool b).setWidth w

theorem getLsbD_oneBit (i : ℕ) : (oneBit w b).getLsbD i = (decide (i < w) && decide (i = 0) && b) := by
  rw [oneBit, BitVec.getLsbD_setWidth, BitVec.getLsbD_ofBool, Bool.and_assoc]

theorem crcBit_eq (hw : 0 < w) (p v : BitVec w) (b : Bool) :
    crcBit p v b = crcBit p (v ^^^ oneBit w b) false := by
  have hlow : (v ^^^ oneBit w b).getLsbD 0 = (v.getLsbD 0 ^^ b) := by
    rw [BitVec.getLsbD_xor, getLsbD_oneBit]
    simp [hw]
  have hshift : (v ^^^ oneBit w b) >>> 1 = v >>> 1 := by
    apply BitVec.eq_of_getLsbD_eq
    intro i hi
    rw [BitVec.getLsbD_ushiftRight, BitVec.getLsbD_ushiftRight, BitVec.getLsbD_xor, getLsbD_oneBit]
    simp
  unfold crcBit
  rw [hlow, hshift]
  cases v.getLsbD 0 <;> cases b <;> rfl

/-- The low bits of a word. -/
def low (w j : ℕ) (x : BitVec k) : BitVec w := (x.setWidth j).setWidth w

theorem getLsbD_low (x : BitVec k) (i : ℕ) :
    (low w j x).getLsbD i = (decide (i < w) && decide (i < j) && x.getLsbD i) := by
  rw [low, BitVec.getLsbD_setWidth, BitVec.getLsbD_setWidth, Bool.and_assoc]

theorem low_succ (hj : j < w) (x : BitVec k) :
    low w (j + 1) x = low w j x ^^^ (oneBit w (x.getLsbD j) <<< j) := by
  apply BitVec.eq_of_getLsbD_eq
  intro i hi
  rw [BitVec.getLsbD_xor, BitVec.getLsbD_shiftLeft, getLsbD_low, getLsbD_low, getLsbD_oneBit]
  rcases Nat.lt_trichotomy i j with hij | rfl | hij
  · simp [hi, hij, Nat.lt_succ_of_lt hij]
  · simp [hi, Nat.zero_lt_of_lt hi]
  · have hne : i - j ≠ 0 := by omega
    simp [hi, Nat.not_lt.mpr (Nat.succ_le_of_lt hij), Nat.not_lt.mpr (Nat.le_of_lt hij), hne]

theorem crcBits_low (hj : j ≤ w) (v : BitVec w) (x : BitVec k) :
    crcBits p v ((List.range j).map x.getLsbD) = shifts p j (v ^^^ low w j x) := by
  induction j with
  | zero =>
      have hlow : low w 0 x = 0#w := by
        apply BitVec.eq_of_getLsbD_eq
        intro i hi
        rw [getLsbD_low]
        simp
      rw [hlow, BitVec.xor_zero]
      rfl
  | succ j ih =>
      have hclear : shifts p j (oneBit w (x.getLsbD j) <<< j) = oneBit w (x.getLsbD j) := by
        rw [shifts_of_clear]
        · apply BitVec.eq_of_getLsbD_eq
          intro i hi
          rw [BitVec.getLsbD_ushiftRight, BitVec.getLsbD_shiftLeft, getLsbD_oneBit, getLsbD_oneBit]
          by_cases hzero : i = 0
          · subst hzero
            simp [show j < w by omega]
          · simp [hzero]
        · intro i hi
          rw [BitVec.getLsbD_shiftLeft]
          simp [hi]
      rw [List.range_succ, List.map_append, crcBits, List.foldl_append]
      show crcBit p (crcBits p v ((List.range j).map x.getLsbD)) (x.getLsbD j) = _
      rw [ih (by omega), crcBit_eq (by omega), shifts, low_succ (by omega), ← BitVec.xor_assoc,
        shifts_xor p j (v ^^^ low w j x), hclear]

theorem shifts_eq (p : BitVec w) (k : ℕ) (v : BitVec w) : shifts p k v = shifts p k (low w k v) ^^^ v >>> k := by
  have hsplit : v = low w k v ^^^ (v ^^^ low w k v) := by
    rw [BitVec.xor_comm v, ← BitVec.xor_assoc, BitVec.xor_self, BitVec.zero_xor]
  have hclear : ∀ i < k, (v ^^^ low w k v).getLsbD i = false := by
    intro i hi
    rw [BitVec.getLsbD_xor, getLsbD_low]
    by_cases hw : i < w
    · simp [hi, hw]
    · simp [BitVec.getLsbD_of_ge v i (Nat.not_lt.mp hw)]
  have hhigh : (v ^^^ low w k v) >>> k = v >>> k := by
    apply BitVec.eq_of_getLsbD_eq
    intro i hi
    rw [BitVec.getLsbD_ushiftRight, BitVec.getLsbD_ushiftRight, BitVec.getLsbD_xor, getLsbD_low,
      decide_eq_false (show ¬ k + i < k by omega), Bool.and_false, Bool.false_and, Bool.xor_false]
  conv_lhs => rw [hsplit]
  rw [shifts_xor, shifts_of_clear hclear, hhigh]

/-- **A word at once**: its bits change the remainder to the shifts of the low bits, from a table, and the
rest of it moved down. -/
theorem crcBits_bitsOf (hk : k ≤ w) (p v : BitVec w) (x : BitVec k) :
    crcBits p v (bitsOf x) = shifts p k (((v ^^^ x.setWidth w).setWidth k).setWidth w) ^^^ v >>> k := by
  have hlow : low w k x = x.setWidth w := by rw [low, BitVec.setWidth_eq]
  have hhigh : (v ^^^ x.setWidth w) >>> k = v >>> k := by
    apply BitVec.eq_of_getLsbD_eq
    intro i hi
    rw [BitVec.getLsbD_ushiftRight, BitVec.getLsbD_ushiftRight, BitVec.getLsbD_xor, BitVec.getLsbD_setWidth,
      BitVec.getLsbD_of_ge x (k + i) (Nat.le_add_right k i), Bool.and_false, Bool.xor_false]
  show crcBits p v ((List.range k).map x.getLsbD) = _
  rw [crcBits_low hk, hlow, shifts_eq, hhigh]
  rfl

/-- **A list of words.** -/
theorem crcBits_flatMap (hk : k ≤ w) (p v : BitVec w) (xs : List (BitVec k)) : crcBits p v (xs.flatMap bitsOf) =
    xs.foldl (fun (v : BitVec w) x => shifts p k (((v ^^^ x.setWidth w).setWidth k).setWidth w) ^^^ v >>> k) v := by
  induction xs generalizing v with
  | nil => rfl
  | cons x xs ih =>
      rw [List.flatMap_cons, crcBits, List.foldl_append, List.foldl_cons, ← crcBits_bitsOf hk]
      exact ih _

theorem crcBits_append (p v : BitVec w) (bs cs : List Bool) :
    crcBits p v (bs ++ cs) = crcBits p (crcBits p v bs) cs := List.foldl_append

section TopBit

variable (hp : p.getLsbD (w - 1) = true)

include hp

theorem getLsbD_crcBit_last (v : BitVec w) : (crcBit p v false).getLsbD (w - 1) = v.getLsbD 0 := by
  have hw : 0 < w := Nat.pos_of_ne_zero fun h => by
    subst h
    rw [BitVec.getLsbD_of_ge p _ (Nat.zero_le _)] at hp
    cases hp
  have htop : (v >>> 1).getLsbD (w - 1) = false := by
    rw [BitVec.getLsbD_ushiftRight]
    exact BitVec.getLsbD_of_ge v _ (by omega)
  rw [crcBit_false]
  cases hlow : v.getLsbD 0 with
  | false => rw [if_neg (by decide), htop]
  | true => rw [if_pos rfl, BitVec.getLsbD_xor, htop, hp, Bool.false_xor]

theorem crcBit_injective : Function.Injective fun v : BitVec w => crcBit p v false := by
  intro u v h
  have h : crcBit p u false = crcBit p v false := h
  have hlow : u.getLsbD 0 = v.getLsbD 0 := by
    rw [← getLsbD_crcBit_last hp u, h, getLsbD_crcBit_last hp v]
  have hhigh : u >>> 1 = v >>> 1 := by
    rw [crcBit_false, crcBit_false, hlow] at h
    split_ifs at h
    · exact (BitVec.xor_left_inj _).mp h
    · exact h
  apply BitVec.eq_of_getLsbD_eq
  intro i _
  cases i with
  | zero => exact hlow
  | succ i =>
      have hi := congrArg (fun x : BitVec w => x.getLsbD i) hhigh
      simp only [BitVec.getLsbD_ushiftRight] at hi
      rwa [Nat.add_comm]

theorem shifts_injective (k : ℕ) : Function.Injective (shifts p k) := by
  induction k with
  | zero => exact fun _ _ h => h
  | succ k ih => exact (crcBit_injective hp).comp ih

theorem crcBits_injective (hk : k ≤ w) (xs : List (BitVec k)) :
    Function.Injective fun v : BitVec w => crcBits p v (xs.flatMap bitsOf) := by
  induction xs with
  | nil => exact fun _ _ h => h
  | cons x xs ih =>
      have hone : Function.Injective fun v : BitVec w => crcBits p v (bitsOf x) := by
        intro u v h
        have h : crcBits p u ((List.range k).map x.getLsbD) = crcBits p v ((List.range k).map x.getLsbD) := h
        rw [crcBits_low hk, crcBits_low hk] at h
        exact (BitVec.xor_left_inj _).mp (shifts_injective hp k h)
      intro u v h
      simp only [List.flatMap_cons, crcBits_append] at h
      exact hone (ih h)

theorem crcBits_bitsOf_injective (hk : k ≤ w) (v : BitVec w) :
    Function.Injective fun x : BitVec k => crcBits p v (bitsOf x) := by
  intro x y h
  have h : crcBits p v ((List.range k).map x.getLsbD) = crcBits p v ((List.range k).map y.getLsbD) := h
  rw [crcBits_low hk, crcBits_low hk] at h
  have hlow : low w k x = low w k y := (BitVec.xor_right_inj _).mp (shifts_injective hp k h)
  apply BitVec.eq_of_getLsbD_eq
  intro i hi
  have hbit := congrArg (fun z : BitVec w => z.getLsbD i) hlow
  simpa only [getLsbD_low, decide_eq_true hi, decide_eq_true (lt_of_lt_of_le hi hk), Bool.true_and] using hbit

/-- **A change of one word** changes the remainder. -/
theorem crcBits_set_ne (hk : k ≤ w) (v : BitVec w) {xs : List (BitVec k)} {i : ℕ} (hi : i < xs.length)
    {x : BitVec k} (hx : x ≠ xs[i]) :
    crcBits p v ((xs.set i x).flatMap bitsOf) ≠ crcBits p v (xs.flatMap bitsOf) := by
  have hsplit : xs = xs.take i ++ xs[i] :: xs.drop (i + 1) := by
    rw [List.getElem_cons_drop, List.take_append_drop]
  intro h
  rw [List.set_eq_take_append_cons_drop, if_pos hi] at h
  conv_rhs at h => rw [hsplit]
  simp only [List.flatMap_append, List.flatMap_cons, crcBits_append] at h
  exact hx (crcBits_bitsOf_injective hp hk _ (crcBits_injective hp hk _ h))

end TopBit

end Lib
