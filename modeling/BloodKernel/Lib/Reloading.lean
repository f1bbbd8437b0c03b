import Mathlib.Data.Nat.ModEq

set_option autoImplicit false

/-!
# A counter that counts down and is reloaded

A counter goes down by one at each tick, from `n` to 1, and then starts from `n` again.

* `countAt`: the counter after a number of ticks; `ticksBetween`: the ticks between two readings.
* **`ticksBetween_countAt`**: they are the ticks that have passed, modulo `n`.
-/

namespace Lib

/-- The counter `t` ticks after it was at `n`. -/
def countAt (n t : ℕ) : ℕ := n - t % n

/-- The ticks from one reading to another one, fewer than `n`. -/
def ticksBetween (n last current : ℕ) : ℕ := (last + n - current) % n

variable {n t t' last current : ℕ}

theorem countAt_le (n t : ℕ) : countAt n t ≤ n := Nat.sub_le _ _

theorem countAt_pos (hn : 0 < n) (t : ℕ) : 0 < countAt n t := Nat.sub_pos_of_lt (Nat.mod_lt t hn)

theorem countAt_mul_add (k : ℕ) : countAt n (k * n + t) = countAt n t := by
  unfold countAt
  rw [Nat.mul_comm, Nat.mul_add_mod]

theorem countAt_add_ne (hn : 0 < n) {k : ℕ} (hk : k % n ≠ 0) : countAt n (t + k) ≠ countAt n t := by
  intro h
  have hlt := Nat.mod_lt t hn
  have hlt' := Nat.mod_lt (t + k) hn
  have hmod : t + k ≡ t + 0 [MOD n] := by
    unfold countAt at h
    show (t + k) % n = t % n
    omega
  have hzero : k % n = 0 % n := Nat.ModEq.add_left_cancel' t hmod
  exact hk (hzero.trans (Nat.zero_mod n))

theorem ticksBetween_of_lt (hlt : current < last) (hlast : last ≤ n) (hcurrent : 0 < current) :
    ticksBetween n last current = last - current := by
  unfold ticksBetween
  rw [show last + n - current = last - current + n by omega, Nat.add_mod_right, Nat.mod_eq_of_lt (by omega)]

/-- **The ticks** between two readings. -/
theorem ticksBetween_countAt (hn : 0 < n) (h : t ≤ t') :
    ticksBetween n (countAt n t) (countAt n t') = (t' - t) % n := by
  have hlt := Nat.mod_lt t hn
  have hlt' := Nat.mod_lt t' hn
  unfold ticksBetween countAt
  rw [show n - t % n + n - (n - t' % n) = n - t % n + t' % n by omega]
  -- both, with the ticks before the first reading, are `t'`
  refine Nat.ModEq.add_left_cancel' t ?_
  calc t + (n - t % n + t' % n) ≡ t % n + (n - t % n + t' % n) [MOD n] :=
        (Nat.mod_modEq t n).symm.add_right _
    _ = n + t' % n := by omega
    _ ≡ t' [MOD n] := by
        rw [Nat.ModEq, Nat.add_mod_left, Nat.mod_mod]
    _ = t + (t' - t) := (Nat.add_sub_of_le h).symm

end Lib
