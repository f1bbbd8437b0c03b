import BloodKernel.Lib.Words

set_option autoImplicit false

/-!
# Double words

Arrays of 64-bit numbers in a memory of 32-bit words, the low word first. An array of up to 512 of them at the
start of a page fills that page and no other.

* `dword`, `setDword`, `fillDwords`: reading, writing and filling an array;
* **`dword_setDword`**, **`dword_fillDwords`**: arrays at the starts of pages are independent.
-/

namespace Lib

/-- `p[i]` -/
def dword (m : Words) (p : BitVec 32) (i : ℕ) : BitVec 64 := word m p (2 * i + 1) ++ word m p (2 * i)

/-- `p[i] = v` -/
def setDword (m : Words) (p : BitVec 32) (i : ℕ) (v : BitVec 64) : Words :=
  setWord (setWord m p (2 * i) (v.setWidth 32)) p (2 * i + 1) ((v >>> 32).setWidth 32)

/-- `p[0] = f 0`, …, `p[n - 1] = f (n - 1)`, in this order. -/
def fillDwords (m : Words) (p : BitVec 32) (f : ℕ → BitVec 64) : ℕ → Words
  | 0 => m
  | n + 1 => setDword (fillDwords m p f n) p n (f n)

variable {m : Words} {p q : BitVec 32} {v : BitVec 64} {i j n : ℕ}

theorem halves_append (v : BitVec 64) : (v >>> 32).setWidth 32 ++ v.setWidth 32 = v := by
  apply BitVec.eq_of_getLsbD_eq
  intro j hj
  rw [BitVec.getLsbD_append]
  by_cases hlow : j < 32
  · rw [if_pos hlow, BitVec.getLsbD_setWidth, decide_eq_true hlow, Bool.true_and]
  · have hadd : 32 + (j - 32) = j := by omega
    rw [if_neg hlow, BitVec.getLsbD_setWidth, BitVec.getLsbD_ushiftRight, hadd,
      decide_eq_true (show j - 32 < 32 by omega), Bool.true_and]

/-- **A write to a page** changes one double word of it. -/
theorem dword_setDword (hp : PageStart p) (hq : PageStart q) (hi : i < 512) (hj : j < 512) :
    dword (setDword m p i v) q j = if q = p ∧ j = i then v else dword m q j := by
  unfold dword setDword
  rw [word_setWord hp hq (by omega) (by omega), word_setWord hp hq (by omega) (by omega),
    word_setWord hp hq (by omega) (by omega), word_setWord hp hq (by omega) (by omega)]
  by_cases h : q = p ∧ j = i
  · obtain ⟨rfl, rfl⟩ := h
    rw [if_pos ⟨rfl, rfl⟩, if_neg (by omega), if_pos ⟨rfl, rfl⟩, if_pos ⟨rfl, rfl⟩]
    exact halves_append v
  · rw [if_neg fun he => h ⟨he.1, by omega⟩, if_neg fun he => h ⟨he.1, by omega⟩,
      if_neg fun he => h ⟨he.1, by omega⟩, if_neg fun he => h ⟨he.1, by omega⟩, if_neg h]

/-- **Filling** the beginning of a page changes this page only. -/
theorem dword_fillDwords {f : ℕ → BitVec 64} (hp : PageStart p) (hq : PageStart q) (hn : n ≤ 512) (hj : j < 512) :
    dword (fillDwords m p f n) q j = if q = p ∧ j < n then f j else dword m q j := by
  induction n with
  | zero => rw [fillDwords, if_neg fun h => Nat.not_lt_zero j h.2]
  | succ n ih =>
      rw [fillDwords, dword_setDword hp hq (by omega) hj, ih (by omega)]
      by_cases hlast : q = p ∧ j = n
      · rw [if_pos hlast, if_pos ⟨hlast.1, by omega⟩, hlast.2]
      · by_cases hfirst : q = p ∧ j < n
        · rw [if_neg hlast, if_pos hfirst, if_pos ⟨hfirst.1, by omega⟩]
        · rw [if_neg hlast, if_neg hfirst, if_neg fun h => hfirst ⟨h.1, by
            have hne : j ≠ n := fun he => hlast ⟨h.1, he⟩
            omega⟩]

-- the unifier must not run the loop
attribute [irreducible] fillDwords

end Lib
