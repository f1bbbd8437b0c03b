import Mathlib.Data.BitVec
import Mathlib.Logic.Function.Basic

set_option autoImplicit false

/-!
# Strings of bytes in words

Words of `w` bits that take up `k` bytes of a string each, the least significant first. The last one may have fewer.

* `packBytes`, `byteAt`: a word from its bytes, and a byte of it; `byteAt_packBytes`.
* `packWord`, `unpackWords`: the words of a string, and the string from the words.
* **`unpackWords_packWord`**: the string comes back, and nothing behind it is changed.
-/

namespace Lib

variable {w : ℕ}

/-- `word |= b[j] << 8*j`, for the first `n` bytes. -/
def packBytes (w : ℕ) (b : ℕ → BitVec 8) : ℕ → BitVec w
  | 0 => 0
  | n + 1 => packBytes w b n ||| (b n).setWidth w <<< (8 * n)

/-- `(v >> 8*j) & 0xFF` -/
def byteAt (v : BitVec w) (j : ℕ) : BitVec 8 := (v >>> (8 * j) &&& BitVec.ofNat w 0xFF).setWidth 8

/-- `dst[a + j] = (v >> 8*j) & 0xFF`, for the first `n` bytes. -/
def unpackBytes (dst : ℕ → BitVec 8) (a : ℕ) (v : BitVec w) : ℕ → ℕ → BitVec 8
  | 0 => dst
  | n + 1 => Function.update (unpackBytes dst a v n) (a + n) (byteAt v n)

/-- How many of the `k` bytes of word `i` belong to a string. -/
def piece (k len i : ℕ) : ℕ := min k (len - k * i)

/-- Word `i` of a string. -/
def packWord (k w len : ℕ) (b : ℕ → BitVec 8) (i : ℕ) : BitVec w :=
  packBytes w (fun j => b (k * i + j)) (piece k len i)

/-- The first words of a string, put into `dst` one after the other. -/
def unpackWords (k len : ℕ) (word : ℕ → BitVec w) (dst : ℕ → BitVec 8) : ℕ → ℕ → BitVec 8
  | 0 => dst
  | i + 1 => unpackBytes (unpackWords k len word dst i) (k * i) (word i) (piece k len i)

variable {b dst : ℕ → BitVec 8} {v : BitVec w} {word : ℕ → BitVec w} {a i j k len m n x : ℕ}

theorem getLsbD_byteAt (h : 8 * j + 8 ≤ w) (hi : i < 8) : (byteAt v j).getLsbD i = v.getLsbD (8 * j + i) := by
  have hmask : (BitVec.ofNat w 0xFF).getLsbD i = true := by
    rw [BitVec.getLsbD_ofNat, decide_eq_true (by omega), Bool.true_and, show (0xFF : ℕ) = 2 ^ 8 - 1 from rfl,
      Nat.testBit_two_pow_sub_one, decide_eq_true hi]
  unfold byteAt
  rw [BitVec.getLsbD_setWidth, BitVec.getLsbD_and, BitVec.getLsbD_ushiftRight, hmask, decide_eq_true hi,
    Bool.true_and, Bool.and_true]

theorem toNat_byteAt (h : 8 ≤ w) : (byteAt v j).toNat = v.toNat / 2 ^ (8 * j) % 2 ^ 8 := by
  have hle : 2 ^ 8 ≤ 2 ^ w := Nat.pow_le_pow_right Nat.two_pos h
  have hmask : (BitVec.ofNat w 0xFF).toNat = 2 ^ 8 - 1 := Nat.mod_eq_of_lt (by omega)
  unfold byteAt
  rw [BitVec.toNat_setWidth, BitVec.toNat_and, hmask, Nat.and_two_pow_sub_one_eq_mod, BitVec.toNat_ushiftRight,
    Nat.shiftRight_eq_div_pow, Nat.mod_mod]

theorem getLsbD_packBytes (h : x < w) :
    (packBytes w b n).getLsbD x = (decide (x < 8 * n) && (b (x / 8)).getLsbD (x % 8)) := by
  induction n with
  | zero => exact (BitVec.getLsbD_zero).trans (by simp)
  | succ n ih =>
      rw [packBytes, BitVec.getLsbD_or, ih, BitVec.getLsbD_shiftLeft, BitVec.getLsbD_setWidth]
      by_cases hlow : x < 8 * n
      · simp [hlow, h, show x < 8 * (n + 1) by omega]
      · by_cases hthis : x < 8 * (n + 1)
        · obtain rfl : n = x / 8 := by omega
          rw [show x - 8 * (x / 8) = x % 8 by omega]
          simp [h, hlow, hthis, show x % 8 < w by omega]
        · have hhigh : (b n).getLsbD (x - 8 * n) = false := BitVec.getLsbD_of_ge _ _ (by omega)
          simp [hlow, hthis, hhigh]

theorem byteAt_packBytes (hw : 8 * n ≤ w) (hj : j < n) : byteAt (packBytes w b n) j = b j := by
  apply BitVec.eq_of_getLsbD_eq
  intro i hi
  rw [getLsbD_byteAt (by omega) hi, getLsbD_packBytes (by omega), decide_eq_true (by omega), Bool.true_and,
    show (8 * j + i) / 8 = j by omega, show (8 * j + i) % 8 = i by omega]

theorem packBytes_byteAt (hw : w = 8 * n) : packBytes w (byteAt v) n = v := by
  apply BitVec.eq_of_getLsbD_eq
  intro i hi
  rw [getLsbD_packBytes hi, decide_eq_true (by omega), Bool.true_and, getLsbD_byteAt (by omega) (by omega),
    show 8 * (i / 8) + i % 8 = i by omega]

theorem packBytes_congr {c : ℕ → BitVec 8} (h : ∀ j < n, b j = c j) : packBytes w b n = packBytes w c n := by
  induction n with
  | zero => rfl
  | succ n ih => rw [packBytes, packBytes, ih fun j hj => h j (by omega), h n n.lt_succ_self]

theorem unpackBytes_apply :
    unpackBytes dst a v n x = if a ≤ x ∧ x < a + n then byteAt v (x - a) else dst x := by
  induction n with
  | zero => exact (if_neg (by omega)).symm
  | succ n ih =>
      unfold unpackBytes
      by_cases hx : x = a + n
      · rw [hx, Function.update_self, if_pos (by omega), Nat.add_sub_cancel_left]
      · rw [Function.update_of_ne hx, ih]
        exact if_congr (by omega) rfl rfl

theorem unpackWords_congr {word' : ℕ → BitVec w} (h : ∀ i < m, word i = word' i) :
    unpackWords k len word dst m = unpackWords k len word' dst m := by
  induction m with
  | zero => rfl
  | succ m ih => rw [unpackWords, unpackWords, ih fun i hi => h i (by omega), h m m.lt_succ_self]

theorem unpackWords_apply (hk : 0 < k) : unpackWords k len word dst m x =
    if x < len ∧ x < k * m then byteAt (word (x / k)) (x % k) else dst x := by
  induction m with
  | zero => exact (if_neg (by omega)).symm
  | succ m ih =>
      rw [unpackWords, unpackBytes_apply, ih, piece, Nat.mul_succ]
      by_cases hx : k * m ≤ x ∧ x < k * m + k
      · obtain ⟨j, rfl⟩ := Nat.exists_eq_add_of_le hx.1
        have hj : j < k := by omega
        have hdiv : (k * m + j) / k = m := by
          rw [Nat.mul_add_div hk, Nat.div_eq_of_lt hj, Nat.add_zero]
        have hmod : (k * m + j) % k = j := by rw [Nat.mul_add_mod, Nat.mod_eq_of_lt hj]
        rw [hdiv, hmod, Nat.add_sub_cancel_left]
        by_cases hlen : k * m + j < len
        · rw [if_pos (by omega), if_pos (by omega)]
        · rw [if_neg (by omega), if_neg (by omega), if_neg (by omega)]
      · rw [if_neg (by omega)]
        exact if_congr (by omega) rfl rfl

/-- **There and back**: the words of a string give the string, and what is behind it is left alone. -/
theorem unpackWords_packWord (hk : 0 < k) (hw : 8 * k ≤ w) (hm : len ≤ k * m) :
    unpackWords k len (packWord k w len b) dst m = fun x => if x < len then b x else dst x := by
  funext x
  rw [unpackWords_apply hk]
  by_cases hx : x < len
  · have hmod := Nat.mod_lt x hk
    have hsum := Nat.div_add_mod x k
    have hpiece : x % k < piece k len (x / k) := by unfold piece; omega
    have hfits : 8 * piece k len (x / k) ≤ w := by unfold piece; omega
    rw [if_pos ⟨hx, by omega⟩, if_pos hx, packWord, byteAt_packBytes hfits hpiece, hsum]
  · rw [if_neg (by omega), if_neg hx]

end Lib
