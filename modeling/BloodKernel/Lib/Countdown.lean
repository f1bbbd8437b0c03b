import Mathlib.Data.BitVec

set_option autoImplicit false

/-!
# Polling with a counter that is decremented before the test

`while (n-- && !done(poll()));` on a counter of `w` bits. Polls are numbered; `done k` says what the `k`-th
one sees. After the last poll the counter is tested and decremented once more, and wraps.

* `countdown`: the counter after the loop, and the number of the next poll.
* `countdown_of_first`, `countdown_of_none`: the loop ends at the first poll that sees `done`, or with all
  bits of the counter set.
* **`countdown_eq_zero_iff`**: the counter ends at zero exactly when the last poll is the first one to see
  `done`.
-/

namespace Lib

/-- The loop from counter `n` and poll `k` on: the counter at its end, and the next poll. -/
def countdown (w : ℕ) (done : ℕ → Bool) (k : ℕ) : ℕ → BitVec w × ℕ
  | 0 => (BitVec.allOnes w, k)
  | n + 1 => if done k then (BitVec.ofNat w n, k + 1) else countdown w done (k + 1) n

variable {w : ℕ} {done : ℕ → Bool} {k j n : ℕ}

/-- Poll `k + j` is the first to see `done`, and the counter lasts until then. -/
theorem countdown_of_first (hlt : ∀ i < j, done (k + i) = false) (hj : done (k + j) = true) (h : j < n) :
    countdown w done k n = (BitVec.ofNat w (n - (j + 1)), k + j + 1) := by
  induction j generalizing k n with
  | zero =>
      obtain ⟨n, rfl⟩ := Nat.exists_eq_succ_of_ne_zero (Nat.ne_of_gt h)
      exact if_pos hj
  | succ j ih =>
      obtain ⟨n, rfl⟩ := Nat.exists_eq_succ_of_ne_zero (Nat.ne_of_gt (Nat.lt_of_le_of_lt (Nat.zero_le _) h))
      have hhead : ¬done k = true := by
        have hfirst : done k = false := hlt 0 j.succ_pos
        rw [hfirst]
        decide
      have hshift (i : ℕ) : k + 1 + i = k + (i + 1) := by omega
      rw [countdown, if_neg hhead, ih (fun i hi => hshift i ▸ hlt (i + 1) (by omega))
        (hshift j ▸ hj) (by omega), hshift, Nat.succ_sub_succ]

theorem countdown_of_none (h : ∀ i < n, done (k + i) = false) : countdown w done k n = (BitVec.allOnes w, k + n) := by
  induction n generalizing k with
  | zero => rfl
  | succ n ih =>
      have hhead : ¬done k = true := by
        have hfirst : done k = false := h 0 n.succ_pos
        rw [hfirst]
        decide
      have hshift (i : ℕ) : k + 1 + i = k + (i + 1) := by omega
      rw [countdown, if_neg hhead, ih fun i hi => hshift i ▸ h (i + 1) (by omega), hshift]

/-- Either some poll is the first to see `done`, or none does. -/
theorem first_or_none (done : ℕ → Bool) (n : ℕ) :
    (∃ j < n, (∀ i < j, done i = false) ∧ done j = true) ∨ ∀ i < n, done i = false := by
  by_cases h : ∃ j, j < n ∧ done j = true
  · have hfind := Nat.find_spec h
    refine .inl ⟨Nat.find h, hfind.1, fun i hi => ?_, hfind.2⟩
    have hmin := Nat.find_min h hi
    rw [not_and, Bool.not_eq_true] at hmin
    exact hmin (hi.trans hfind.1)
  · refine .inr fun i hi => ?_
    rw [← Bool.not_eq_true]
    exact fun hdone => h ⟨i, hi, hdone⟩

/-- The polls of the loop see `done` exactly when one that the counter allows does. -/
theorem exists_polled_iff :
    (∃ i < (countdown w done 0 n).2, done i = true) ↔ ∃ i < n, done i = true := by
  rcases first_or_none done n with ⟨j, hj, hlt, hdone⟩ | hnone
  · rw [countdown_of_first (k := 0) (by simpa using hlt) (by simpa using hdone) hj]
    exact iff_of_true ⟨j, by omega, hdone⟩ ⟨j, hj, hdone⟩
  · rw [countdown_of_none (k := 0) (by simpa using hnone), Nat.zero_add]

/-- The polls of the loop see something else exactly when the first one does. -/
theorem exists_polled_not_iff :
    (∃ i < (countdown w done 0 (n + 1)).2, done i = false) ↔ done 0 = false := by
  rcases first_or_none done (n + 1) with ⟨j, hj, hlt, hdone⟩ | hnone
  · rw [countdown_of_first (k := 0) (by simpa using hlt) (by simpa using hdone) hj]
    constructor
    · rintro ⟨i, hi, hnot⟩
      have hne : i ≠ j := fun h => Bool.false_ne_true (hnot.symm.trans (h ▸ hdone))
      have hi : i < 0 + j + 1 := hi
      exact hlt 0 (by omega)
    · exact fun h => ⟨0, Nat.succ_pos _, h⟩
  · rw [countdown_of_none (k := 0) (by simpa using hnone)]
    exact iff_of_true ⟨0, by omega, hnone 0 n.succ_pos⟩ (hnone 0 n.succ_pos)

theorem polled_le : (countdown w done 0 n).2 ≤ n := by
  rcases first_or_none done n with ⟨j, hj, hlt, hdone⟩ | hnone
  · rw [countdown_of_first (k := 0) (by simpa using hlt) (by simpa using hdone) hj, Nat.zero_add]
    exact hj
  · rw [countdown_of_none (k := 0) (by simpa using hnone), Nat.zero_add]

/-- **The counter at the end.** It is zero exactly when the last poll it allows is the first to see
`done`. -/
theorem countdown_eq_zero_iff (hw : 0 < w) (hn : n < 2 ^ w) :
    (countdown w done 0 (n + 1)).1.toNat = 0 ↔ (∀ i < n, done i = false) ∧ done n = true := by
  rcases first_or_none done (n + 1) with ⟨j, hj, hlt, hdone⟩ | hnone
  · rw [countdown_of_first (k := 0) (by simpa using hlt) (by simpa using hdone) hj,
      BitVec.toNat_ofNat, Nat.mod_eq_of_lt (by omega)]
    constructor
    · intro hzero
      obtain rfl : j = n := by omega
      exact ⟨hlt, hdone⟩
    · rintro ⟨hfirst, -⟩
      by_contra hne
      exact Bool.false_ne_true ((hfirst j (by omega)).symm.trans hdone)
  · rw [countdown_of_none (k := 0) (by simpa using hnone), BitVec.toNat_allOnes]
    have hpow := Nat.one_lt_two_pow hw.ne'
    exact iff_of_false (by omega) fun h =>
      Bool.false_ne_true ((hnone n n.lt_succ_self).symm.trans h.2)

end Lib
