import Mathlib.Data.BitVec
import Mathlib.Logic.Function.Basic

set_option autoImplicit false

/-!
# Word memories and pages

A memory of 32-bit words with 32-bit byte addresses, accessed through arrays: `word m p i` is `p[i]`. An
array of up to 1024 words at the start of a page fills that page and no other.

* `word`, `setWord`, `fill`: reading, writing and filling an array;
* `word_setWord`, `word_fill`: arrays at the starts of pages are independent.
-/

namespace Lib

abbrev Words := BitVec 32 → BitVec 32

/-- The address of `p[i]`. -/
def wordAddr (p : BitVec 32) (i : ℕ) : BitVec 32 := p + BitVec.ofNat 32 (4 * i)

/-- `p[i]` -/
def word (m : Words) (p : BitVec 32) (i : ℕ) : BitVec 32 := m (wordAddr p i)

/-- `p[i] = v` -/
def setWord (m : Words) (p : BitVec 32) (i : ℕ) (v : BitVec 32) : Words :=
  Function.update m (wordAddr p i) v

/-- `p[0] = v 0`, …, `p[n - 1] = v (n - 1)`, in this order. -/
def fill (m : Words) (p : BitVec 32) (v : ℕ → BitVec 32) : ℕ → Words
  | 0 => m
  | n + 1 => setWord (fill m p v n) p n (v n)

def PageStart (p : BitVec 32) : Prop := p.toNat % 4096 = 0

variable {m : Words} {p q v : BitVec 32} {i j n : ℕ}

theorem toNat_wordAddr (hp : PageStart p) (hi : i < 1024) : (wordAddr p i).toNat = p.toNat + 4 * i := by
  have hmod : p.toNat % 4096 = 0 := hp
  have := p.isLt
  rw [wordAddr, BitVec.toNat_add, BitVec.toNat_ofNat]
  omega

theorem wordAddr_inj (hp : PageStart p) (hq : PageStart q) (hi : i < 1024) (hj : j < 1024) :
    wordAddr p i = wordAddr q j ↔ p = q ∧ i = j := by
  have hpm : p.toNat % 4096 = 0 := hp
  have hqm : q.toNat % 4096 = 0 := hq
  constructor
  · intro h
    have ht := congrArg BitVec.toNat h
    rw [toNat_wordAddr hp hi, toNat_wordAddr hq hj] at ht
    exact ⟨BitVec.eq_of_toNat_eq (by omega), by omega⟩
  · rintro ⟨rfl, rfl⟩
    rfl

@[simp] theorem word_setWord_self : word (setWord m p i v) p i = v := Function.update_self _ _ _

theorem word_setWord_of_addr_ne (h : wordAddr q j ≠ wordAddr p i) :
    word (setWord m p i v) q j = word m q j := Function.update_of_ne h _ _

theorem word_setWord (hp : PageStart p) (hq : PageStart q) (hi : i < 1024) (hj : j < 1024) :
    word (setWord m p i v) q j = if q = p ∧ j = i then v else word m q j := by
  split_ifs with h
  · rw [h.1, h.2, word_setWord_self]
  · exact word_setWord_of_addr_ne fun he => h ((wordAddr_inj hq hp hj hi).mp he)

theorem word_fill_of_ne {f : ℕ → BitVec 32} (h : ∀ k < n, wordAddr q j ≠ wordAddr p k) :
    word (fill m p f n) q j = word m q j := by
  induction n with
  | zero => rfl
  | succ n ih =>
      rw [fill, word_setWord_of_addr_ne (h n n.lt_succ_self)]
      exact ih fun k hk => h k (hk.trans n.lt_succ_self)

/-- Filling the beginning of a page changes this page only. -/
theorem word_fill {f : ℕ → BitVec 32} (hp : PageStart p) (hq : PageStart q) (hn : n ≤ 1024)
    (hj : j < 1024) : word (fill m p f n) q j = if q = p ∧ j < n then f j else word m q j := by
  induction n with
  | zero => rw [fill, if_neg fun h => Nat.not_lt_zero j h.2]
  | succ n ih =>
      rw [fill, word_setWord hp hq (by omega) hj, ih (by omega)]
      by_cases hq' : q = p
      · rcases Nat.lt_trichotomy j n with h | h | h
        · rw [if_neg fun h' => h.ne h'.2, if_pos ⟨hq', h⟩, if_pos ⟨hq', h.trans n.lt_succ_self⟩]
        · rw [if_pos ⟨hq', h⟩, if_pos ⟨hq', h ▸ j.lt_succ_self⟩, h]
        · rw [if_neg fun h' => h.ne' h'.2, if_neg fun h' => h.not_gt h'.2, if_neg fun h' => by omega]
      · rw [if_neg fun h => hq' h.1, if_neg fun h => hq' h.1, if_neg fun h => hq' h.1]

theorem word_fill_page {f : ℕ → BitVec 32} (hp : PageStart p) (hq : PageStart q) (hj : j < 1024) :
    word (fill m p f 1024) q j = if q = p then f j else word m q j := by
  rw [word_fill hp hq (Nat.le_refl 1024) hj]
  exact if_congr (and_iff_left hj) rfl rfl

-- the unifier must not run the loop
attribute [irreducible] fill

end Lib
