import Mathlib.Data.BitVec

set_option autoImplicit false

/-!
# Little-endian words

`leByte v k` is byte `k` of a 32-bit word and `leWord b` the word with bytes `b 0 … b 3`; a word is
that of its bytes. `memcpy` copies between arrays of bytes. `store32` and `load32` access a byte memory
with 32-bit addresses.
-/

namespace Lib

/-- Byte `k` of a word, counting from the least significant. -/
def leByte (v : BitVec 32) (k : ℕ) : BitVec 8 := v.extractLsb' (8 * k) 8

/-- The word with the given bytes, the least significant first. -/
def leWord (b : ℕ → BitVec 8) : BitVec 32 :=
  BitVec.ofNat 32
    ((b 0).toNat + 2 ^ 8 * (b 1).toNat + 2 ^ 16 * (b 2).toNat + 2 ^ 24 * (b 3).toNat)

theorem toNat_leByte (v : BitVec 32) (k : ℕ) :
    (leByte v k).toNat = v.toNat / 2 ^ (8 * k) % 2 ^ 8 := by
  rw [leByte, BitVec.extractLsb'_toNat, Nat.shiftRight_eq_div_pow]

theorem toNat_leWord (b : ℕ → BitVec 8) : (leWord b).toNat =
    (b 0).toNat + 2 ^ 8 * (b 1).toNat + 2 ^ 16 * (b 2).toNat + 2 ^ 24 * (b 3).toNat := by
  have := (b 0).isLt
  have := (b 1).isLt
  have := (b 2).isLt
  have := (b 3).isLt
  rw [leWord, BitVec.toNat_ofNat, Nat.mod_eq_of_lt (by omega)]

theorem leWord_leByte (v : BitVec 32) : leWord (leByte v) = v := by
  have := v.isLt
  apply BitVec.eq_of_toNat_eq
  simp only [toNat_leWord, toNat_leByte]
  omega

theorem leWord_congr {b c : ℕ → BitVec 8} (h : ∀ k < 4, b k = c k) : leWord b = leWord c := by
  rw [leWord, leWord, h 0 (by omega), h 1 (by omega), h 2 (by omega), h 3 (by omega)]

theorem leWord_eq {b : ℕ → BitVec 8} {v : BitVec 32} (h : ∀ k < 4, b k = leByte v k) :
    leWord b = v := (leWord_congr h).trans (leWord_leByte v)

theorem leByte_leWord (b : ℕ → BitVec 8) {k : ℕ} (hk : k < 4) : leByte (leWord b) k = b k := by
  have := (b 0).isLt
  have := (b 1).isLt
  have := (b 2).isLt
  have := (b 3).isLt
  apply BitVec.eq_of_toNat_eq
  rw [toNat_leByte, toNat_leWord]
  obtain rfl | rfl | rfl | rfl : k = 0 ∨ k = 1 ∨ k = 2 ∨ k = 3 := by omega
  all_goals omega

theorem leWord_eq_iff {b : ℕ → BitVec 8} {v : BitVec 32} :
    leWord b = v ↔ ∀ k < 4, b k = leByte v k :=
  ⟨fun h _ hk => h ▸ (leByte_leWord b hk).symm, leWord_eq⟩

/-- `dst` after `len` bytes of `src`, from `j` on, have been copied to it, from `i` on. -/
def memcpy {n m : ℕ} (dst : Fin n → BitVec 8) (i : ℕ) (src : Fin m → BitVec 8) (j len : ℕ) :
    Fin n → BitVec 8 := fun k =>
  if h : i ≤ k ∧ k < i + len ∧ j + (k - i) < m then src ⟨j + (k - i), h.2.2⟩ else dst k

theorem memcpy_of_lt {n m : ℕ} {dst : Fin n → BitVec 8} {i : ℕ} {src : Fin m → BitVec 8} {j len : ℕ}
    {k : Fin n} (l : Fin m) (hi : i ≤ k) (hk : k < i + len) (hl : (l : ℕ) = j + (k - i)) :
    memcpy dst i src j len k = src l := by
  have h : i ≤ k ∧ k < i + len ∧ j + (k - i) < m := ⟨hi, hk, hl ▸ l.isLt⟩
  unfold memcpy
  rw [dif_pos h]
  exact congrArg src (Fin.ext hl.symm)

theorem memcpy_of_not {n m : ℕ} {dst : Fin n → BitVec 8} {i : ℕ} {src : Fin m → BitVec 8} {j len : ℕ}
    {k : Fin n} (hk : i ≤ k → i + len ≤ k) : memcpy dst i src j len k = dst k := by
  unfold memcpy
  rw [dif_neg fun h => by have := hk h.1; omega]

/-- A byte memory with 32-bit addresses. -/
abbrev Mem := BitVec 32 → BitVec 8

/-- Store a word at `a`; addresses wrap. -/
def store32 (m : Mem) (a v : BitVec 32) : Mem := fun x =>
  if (x - a).toNat < 4 then leByte v (x - a).toNat else m x

/-- Load the word at `a`. -/
def load32 (m : Mem) (a : BitVec 32) : BitVec 32 := leWord fun k => m (a + BitVec.ofNat 32 k)

end Lib
