import Mathlib.Data.List.OfFn
import Mathlib.Tactic.Linarith

set_option autoImplicit false

/-!
# Blocks of a list, prefixes of an array

`cut n l`: the blocks of `n` items of a list; **`cut_flatten`**: a list of blocks is the cut of their
concatenation. `write b i xs`: the array `b` with `xs` copied into it from index `i` on; `upTo b i`:
its first `i` items; **`upTo_write`**: a copy extends what is before it.
-/

namespace Lib

variable {α : Type}

/-! ## Blocks -/

/-- The blocks of `n` items. -/
def cut (n : ℕ) (l : List α) : List (List α) :=
  (List.range (l.length / n)).map fun i => (l.drop (n * i)).take n

theorem cut_append {n : ℕ} (hn : 0 < n) {b : List α} (hb : b.length = n) (l : List α) :
    cut n (b ++ l) = b :: cut n l := by
  have hlen : (b ++ l).length / n = l.length / n + 1 := by
    rw [List.length_append, hb, Nat.add_div_left _ hn]
  have hdrop (i : ℕ) : (b ++ l).drop (n * (i + 1)) = l.drop (n * i) := by
    rw [Nat.mul_succ, Nat.add_comm, ← List.drop_drop, ← hb, List.drop_left]
  unfold cut
  rw [hlen, List.range_succ_eq_map, List.map_cons, List.map_map]
  congr 1
  · rw [Nat.mul_zero, List.drop_zero, ← hb, List.take_left]
  · refine List.map_congr_left fun i _ => ?_
    rw [Function.comp_apply, hdrop]

/-- **Blocks of a concatenation.** -/
theorem cut_flatten {n : ℕ} (hn : 0 < n) {bs : List (List α)} (h : ∀ b ∈ bs, b.length = n) :
    cut n bs.flatten = bs := by
  induction bs with
  | nil => simp [cut]
  | cons b bs ih =>
      rw [List.flatten_cons, cut_append hn (h b List.mem_cons_self),
        ih fun b hb => h b (List.mem_cons_of_mem _ hb)]

/-! ## Prefixes -/

section Prefixes

variable {n : ℕ}

/-- The first `i` items of an array. -/
def upTo (b : Fin n → α) (i : ℕ) : List α := (List.ofFn b).take i

/-- Copy `xs` into an array, from index `i` on. -/
def write (b : Fin n → α) (i : ℕ) (xs : List α) : Fin n → α := fun k =>
  if h : i ≤ k ∧ k - i < xs.length then xs[k - i] else b k

theorem length_upTo {b : Fin n → α} {i : ℕ} (h : i ≤ n) : (upTo b i).length = i := by
  rw [upTo, List.length_take, List.length_ofFn, Nat.min_eq_left h]

theorem upTo_all (b : Fin n → α) : upTo b n = List.ofFn b :=
  List.take_of_length_le (List.length_ofFn (f := b)).le

/-- **A copy** extends what stands before it. -/
theorem upTo_write {b : Fin n → α} {i : ℕ} {xs : List α} (h : i + xs.length ≤ n) :
    upTo (write b i xs) (i + xs.length) = upTo b i ++ xs := by
  apply List.ext_getElem
  · rw [length_upTo h, List.length_append, length_upTo (by omega)]
  · intro k h₁ h₂
    rw [length_upTo h] at h₁
    by_cases hk : k < i
    · rw [List.getElem_append_left (by rw [length_upTo (by omega)]; exact hk)]
      simp [upTo, write, Nat.not_le.mpr hk]
    · rw [List.getElem_append_right (by rw [length_upTo (by omega)]; omega)]
      have hlt : k - i < xs.length := by omega
      have hmin : min i n = i := Nat.min_eq_left (by omega)
      simp [upTo, write, Nat.le_of_not_lt hk, hlt, hmin]

end Prefixes

end Lib
