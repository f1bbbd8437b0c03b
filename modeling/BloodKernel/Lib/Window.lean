import Mathlib.Order.Interval.Finset.Nat
import Mathlib.Data.Finset.Image

set_option autoImplicit false

/-!
# Windows of a cyclic memory

`window p a n k`: the `k` addresses counted on from `a`, modulo `n`, in the block of `n` addresses at
`p`. **`window_eq_iff`**: it is an interval exactly when it does not wrap.
-/

namespace Lib

/-- `k` addresses counted on from `a`, modulo `n`, in the page at `p`. -/
def window (p a n k : ℕ) : Finset ℕ := (Finset.range k).image fun i => p + (a + i) % n

theorem lt_of_mem_window {p a n k m : ℕ} (hn : 0 < n) (h : m ∈ window p a n k) : m < p + n := by
  obtain ⟨i, -, rfl⟩ := Finset.mem_image.mp h
  have := Nat.mod_lt (a + i) hn
  omega

/-- A window is an interval exactly when it does not wrap. -/
theorem window_eq_iff {p a n k m : ℕ} (ha : a < n) (hm : p + a = m) :
    window p a n k = Finset.Ico m (m + k) ↔ a + k ≤ n := by
  subst hm
  constructor
  · intro h
    by_contra hlt
    have hmem : p + n ∈ window p a n k := by
      rw [h, Finset.mem_Ico]
      omega
    exact Nat.lt_irrefl _ (lt_of_mem_window (by omega) hmem)
  · intro h
    ext m
    simp only [window, Finset.mem_image, Finset.mem_range, Finset.mem_Ico]
    constructor
    · rintro ⟨i, hi, rfl⟩
      rw [Nat.mod_eq_of_lt (by omega)]
      omega
    · rintro ⟨h₁, h₂⟩
      refine ⟨m - (p + a), by omega, ?_⟩
      rw [Nat.mod_eq_of_lt (by omega)]
      omega

end Lib
