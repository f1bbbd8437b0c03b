import Mathlib.Algebra.BigOperators.Intervals

set_option autoImplicit false

/-!
# Sums that lose something

An accumulator to which the items of a sequence are added one after the other, by an operation that loses a part of
the sum.

* `accum`: the accumulator; `lost`: what is lost; **`accum_add_lost`**: together they make up the sum.
* **`lost_eq_zero_iff`**: when nothing is lost, in terms of the sums of the items.
-/

namespace Lib

variable {α : Type} (f : ℕ → α → ℕ) (loss : ℕ → α → ℕ) (value : α → ℕ) (a : ℕ) (g : ℕ → α)

/-- The accumulator after `n` items. -/
def accum : ℕ → ℕ
  | 0 => a
  | n + 1 => f (accum n) (g n)

/-- What is lost of the first `n` items. -/
def lost (n : ℕ) : ℕ := ∑ k ∈ Finset.range n, loss (accum f a g k) (g k)

/-- A step on an accumulator with `P` keeps it, and gives the sum but for the loss. -/
structure Loses (P : ℕ → Prop) : Prop where
  keeps : ∀ a x, P a → P (f a x)
  sum : ∀ a x, P a → f a x + loss a x = a + value x

variable {f loss value a g} {P : ℕ → Prop}

theorem Loses.accum (h : Loses f loss value P) (ha : P a) (n : ℕ) : P (accum f a g n) := by
  induction n with
  | zero => exact ha
  | succ n ih => exact h.keeps _ _ ih

/-- **What is kept and what is lost.** -/
theorem accum_add_lost (h : Loses f loss value P) (ha : P a) (n : ℕ) :
    accum f a g n + lost f loss a g n = a + ∑ k ∈ Finset.range n, value (g k) := by
  induction n with
  | zero => rfl
  | succ n ih =>
      have hstep := h.sum _ (g n) (h.accum (g := g) ha n)
      unfold lost at ih ⊢
      rw [accum, Finset.sum_range_succ, Finset.sum_range_succ]
      omega

/-- **Nothing is lost** when each item meets the sum of those before it without a loss. -/
theorem lost_eq_zero_iff (h : Loses f loss value P) (ha : P a) (n : ℕ) :
    lost f loss a g n = 0 ↔ ∀ k < n, loss (a + ∑ i ∈ Finset.range k, value (g i)) (g k) = 0 := by
  induction n with
  | zero => exact iff_of_true rfl fun k hk => absurd hk (Nat.not_lt_zero k)
  | succ n ih =>
      have hsum := accum_add_lost (g := g) h ha n
      have hsplit : lost f loss a g (n + 1) = lost f loss a g n + loss (accum f a g n) (g n) :=
        Finset.sum_range_succ _ _
      rw [hsplit, Nat.add_eq_zero_iff, Nat.forall_lt_succ_right, ← ih]
      refine and_congr_right fun hzero => ?_
      rw [hzero, Nat.add_zero] at hsum
      rw [hsum]

end Lib
