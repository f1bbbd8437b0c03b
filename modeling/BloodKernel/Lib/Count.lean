import Mathlib.Data.Nat.Count
import Mathlib.Data.Nat.Cast.Defs

set_option autoImplicit false

/-!
# Counting below a bound

`Nat.count p n` is the number of `k < n` with `p k`.

* `foldl_count`: a loop that adds one for each of them;
* `count_congr`, **`count_erase`**: properties that agree, and that agree but for one number;
* `count_of_least`, `rank_erase`: the numbers with a property in their order, the rank of `k` being
  `Nat.count p k`.
-/

namespace Lib

variable {p q : ℕ → Prop} [DecidablePred p] [DecidablePred q] {i n : ℕ}

theorem foldl_count {α : Type} [AddMonoidWithOne α] (p : ℕ → Prop) [DecidablePred p] (n : ℕ) (a : α) :
    (List.range n).foldl (fun m k => if p k then m + 1 else m) a = a + Nat.count p n := by
  induction n with
  | zero => simp
  | succ n ih =>
      rw [List.range_succ, List.foldl_append, ih, Nat.count_succ, List.foldl_cons, List.foldl_nil]
      split_ifs
      · rw [Nat.cast_add, Nat.cast_one, add_assoc]
      · rw [add_zero]

theorem count_congr (h : ∀ k < n, p k ↔ q k) : Nat.count p n = Nat.count q n :=
  (Nat.count_mono_left fun k hk => (h k hk).mp).antisymm
    (Nat.count_mono_left fun k hk => (h k hk).mpr)

theorem count_ge (a n : ℕ) : Nat.count (a ≤ ·) n = n - a := by
  induction n with
  | zero => rw [Nat.count_zero, Nat.zero_sub]
  | succ n ih =>
      rw [Nat.count_succ, ih]
      split_ifs <;> omega

theorem count_erase (hi : i < n) (hp : p i) (h : ∀ k, q k ↔ p k ∧ k ≠ i) :
    Nat.count q n + 1 = Nat.count p n := by
  have hmem : i ∈ (Finset.range n).filter p := Finset.mem_filter.mpr ⟨Finset.mem_range.mpr hi, hp⟩
  have herase : (Finset.range n).filter q = ((Finset.range n).filter p).erase i := by
    ext k
    simp only [Finset.mem_filter, Finset.mem_erase, h]
    tauto
  rw [Nat.count_eq_card_filter_range, Nat.count_eq_card_filter_range, herase,
    Finset.card_erase_add_one hmem]

/-! ### Ranks -/

omit [DecidablePred q] in
theorem count_of_least (h : ∀ k, q k ↔ p k ∧ n ≤ Nat.count p k) (hi : q i) (hless : ∀ k < i, ¬ q k) :
    Nat.count p i = n := by
  refine ((h i).mp hi).2.antisymm' ?_
  have hle : ∀ m ≤ i, Nat.count p m ≤ n := fun m => by
    induction m with
    | zero => exact fun _ => (Nat.count_zero p).le.trans (Nat.zero_le n)
    | succ m ih =>
        intro hm
        rw [Nat.count_succ]
        split_ifs with hp
        · exact Nat.lt_of_not_le fun hle => hless m hm ((h m).mpr ⟨hp, hle⟩)
        · exact ih (Nat.le_of_succ_le hm)
  exact hle i le_rfl

omit [DecidablePred q] in
/-- Without the number of rank `n` those of rank greater than `n` are left. -/
theorem rank_erase {r : ℕ → Prop} (h : ∀ k, q k ↔ p k ∧ n ≤ Nat.count p k) (hi : p i)
    (hrank : Nat.count p i = n) (hr : ∀ k, r k ↔ q k ∧ k ≠ i) (k : ℕ) :
    r k ↔ p k ∧ n + 1 ≤ Nat.count p k := by
  rw [hr, h, and_assoc]
  refine and_congr_right fun hk => ⟨fun ⟨hle, hne⟩ => ?_, fun hlt => ⟨Nat.le_of_succ_le hlt, ?_⟩⟩
  · exact Nat.lt_of_le_of_ne hle fun he => hne (Nat.count_injective hk hi (by rw [← he, hrank]))
  · rintro rfl
    omega

end Lib
