import BloodKernel.Lib.Region

set_option autoImplicit false

/-!
# Copying by words

A memory of bytes to which words are copied, one after the other. `burn x old b` is what the cell `x`, which
holds `old`, holds after `b` has been stored there: `b` in plain memory, `old &&& b` in a flash.

* `storeWord`, `copyWords`: a store, and the memory after a number of words; addresses wrap;
* `copyWords_of_not`, `copyWords_apply`: what it leaves alone, and what it puts in a byte;
* **`copyWords_eq_iff`**: when it makes a copy of what was in the source, which may overlap.
-/

namespace Lib

variable (burn : BitVec 32 → BitVec 8 → BitVec 8 → BitVec 8)

/-- Store a word at `a`. -/
def storeWord (m : Mem) (a v : BitVec 32) : Mem := fun x =>
  if InRange a 4 x then burn x (m x) (leByte v (x - a).toNat) else m x

/-- The memory after `n` words from `s` on have been copied to `d` on. -/
def copyWords (m : Mem) (d s : BitVec 32) : ℕ → Mem
  | 0 => m
  | n + 1 => storeWord burn (copyWords m d s n) (d + BitVec.ofNat 32 (4 * n))
      (load32 (copyWords m d s n) (s + BitVec.ofNat 32 (4 * n)))

/-- The byte that is copied to place `k`, if the places of the words before have the bytes of the source: it
may be one of these places. -/
def sourceByte (m : Mem) (d s : BitVec 32) (k : ℕ) : BitVec 8 :=
  if InRange d (4 * (k / 4)) (s + BitVec.ofNat 32 k) then m (s + (s + BitVec.ofNat 32 k - d))
  else m (s + BitVec.ofNat 32 k)

variable {burn} {m : Mem} {d s x : BitVec 32} {j k n : ℕ}

theorem copyWords_of_not (hn : 4 * n ≤ 2 ^ 32) (hx : ¬ InRange d (4 * n) x) :
    copyWords burn m d s n x = m x := by
  induction n with
  | zero => rfl
  | succ n ih =>
      have hword : ¬ InRange (d + BitVec.ofNat 32 (4 * n)) 4 x := fun h =>
        hx ((inRange_add_iff hn).mp h).1
      rw [copyWords, storeWord, if_neg hword, ih (by omega) fun h => hx (h.mono (by omega))]

/-- The byte at place `k`: the source is read when `k / 4` words have been copied. -/
theorem copyWords_apply (hn : 4 * n ≤ 2 ^ 32) (hk : k < 4 * n) :
    copyWords burn m d s n (d + BitVec.ofNat 32 k) =
      burn (d + BitVec.ofNat 32 k) (m (d + BitVec.ofNat 32 k))
        (copyWords burn m d s (k / 4) (s + BitVec.ofNat 32 k)) := by
  have hmem : ∀ l, InRange d l (d + BitVec.ofNat 32 k) ↔ k < l := fun l => by
    unfold InRange
    rw [add_sub_self, BitVec.toNat_ofNat, Nat.mod_eq_of_lt (by omega)]
  induction n with
  | zero => omega
  | succ n ih =>
      have hword : InRange (d + BitVec.ofNat 32 (4 * n)) 4 (d + BitVec.ofNat 32 k) ↔
          k < 4 * n + 4 ∧ ¬ k < 4 * n := by
        rw [inRange_add_iff (by omega), hmem, hmem]
      rw [copyWords, storeWord]
      by_cases hlast : 4 * n ≤ k
      · -- a byte of the last word
        obtain ⟨i, rfl⟩ : ∃ i, k = 4 * n + i := ⟨k - 4 * n, by omega⟩
        have hi : i < 4 := by omega
        have hoffset : (d + BitVec.ofNat 32 (4 * n + i) - (d + BitVec.ofNat 32 (4 * n))).toNat = i := by
          rw [BitVec.ofNat_add, ← BitVec.add_assoc, add_sub_self, BitVec.toNat_ofNat,
            Nat.mod_eq_of_lt (by omega)]
        have hdiv : (4 * n + i) / 4 = n := by omega
        rw [if_pos (hword.mpr ⟨hk, by omega⟩), hoffset, load32, leByte_leWord _ hi, hdiv,
          copyWords_of_not (by omega) (by rw [hmem]; omega), BitVec.add_assoc, ← BitVec.ofNat_add]
      · rw [if_neg fun h => (hword.mp h).2 (Nat.not_le.mp hlast)]
        exact ih (by omega) (Nat.not_le.mp hlast)

theorem copyWords_stable (hn : 4 * n ≤ 2 ^ 32) (hj : j ≤ n) (hk : k < 4 * j) :
    copyWords burn m d s j (d + BitVec.ofNat 32 k) = copyWords burn m d s n (d + BitVec.ofNat 32 k) := by
  rw [copyWords_apply (by omega) hk, copyWords_apply hn (by omega)]

theorem copyWords_source (hn : 4 * n ≤ 2 ^ 32) (hk : k < 4 * n)
    (h : ∀ j < 4 * (k / 4), copyWords burn m d s n (d + BitVec.ofNat 32 j) = m (s + BitVec.ofNat 32 j)) :
    copyWords burn m d s (k / 4) (s + BitVec.ofNat 32 k) = sourceByte m d s k := by
  unfold sourceByte
  split_ifs with hin
  · -- the byte has been written, to place `j`
    obtain ⟨j, hj, hjk⟩ := inRange_iff.mp hin
    rw [hjk, add_sub_self, copyWords_stable hn (by omega) hj]
    exact h j hj
  · exact copyWords_of_not (by omega) hin

/-- **When the copy is exact.** All places have the bytes that were in the source exactly when each of them
takes its byte. -/
theorem copyWords_eq_iff (hn : 4 * n ≤ 2 ^ 32) :
    (∀ k < 4 * n, copyWords burn m d s n (d + BitVec.ofNat 32 k) = m (s + BitVec.ofNat 32 k)) ↔
      ∀ k < 4 * n, burn (d + BitVec.ofNat 32 k) (m (d + BitVec.ofNat 32 k)) (sourceByte m d s k) =
        m (s + BitVec.ofNat 32 k) := by
  constructor
  · intro h k hk
    have hbyte := h k hk
    rwa [copyWords_apply hn hk, copyWords_source hn hk fun j hj => h j (by omega)] at hbyte
  · intro h k
    induction k using Nat.strong_induction_on with
    | _ k ih =>
        intro hk
        rw [copyWords_apply hn hk, copyWords_source hn hk fun j hj => ih j (by omega) (by omega)]
        exact h k hk

theorem sourceByte_of_apart {l : ℕ} (h : ∀ x, InRange d l x → ¬ InRange s l x) (hk : k < l) :
    sourceByte m d s k = m (s + BitVec.ofNat 32 k) :=
  if_neg fun hin => h _ (hin.mono (by omega)) (inRange_add hk)

end Lib
