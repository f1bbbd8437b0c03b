import Mathlib.Data.Fintype.Card

set_option autoImplicit false

/-!
# Counting

`tally p f`: how many of the values of `f` satisfy `p`. It changes by one when one value starts to
satisfy `p` (`tally_update_new`), and not at all when one keeps doing so or not (`tally_update`).
-/

namespace Lib

variable {α : Type} {n : ℕ} {p : α → Prop} [DecidablePred p] {f : Fin n → α} {i : Fin n} {x : α}

/-- The number of values of `f` satisfying `p`. -/
def tally (p : α → Prop) [DecidablePred p] (f : Fin n → α) : ℕ :=
  (Finset.univ.filter fun j => p (f j)).card

theorem tally_le : tally p f ≤ n :=
  (Finset.card_filter_le _ _).trans (Finset.card_univ.trans (Fintype.card_fin n)).le

theorem tally_eq_iff : tally p f = n ↔ ∀ j, p (f j) := by
  have hcard : (Finset.univ : Finset (Fin n)).card = n := Finset.card_univ.trans (Fintype.card_fin n)
  constructor
  · intro h j
    exact Finset.card_filter_eq_iff.mp (h.trans hcard.symm) j (Finset.mem_univ j)
  · intro h
    exact (Finset.card_filter_eq_iff.mpr fun j _ => h j).trans hcard

theorem tally_eq_zero (h : ∀ j, ¬ p (f j)) : tally p f = 0 := by
  unfold tally
  rw [Finset.card_eq_zero, Finset.filter_eq_empty_iff]
  exact fun j _ => h j

theorem tally_update (h : p x ↔ p (f i)) : tally p (Function.update f i x) = tally p f := by
  unfold tally
  congr 1
  ext j
  by_cases hj : j = i
  · subst hj
    simp [h]
  · simp [Function.update_of_ne hj]

theorem tally_update_new (h : ¬ p (f i)) (hx : p x) :
    tally p (Function.update f i x) = tally p f + 1 := by
  have hnot : i ∉ Finset.univ.filter fun j => p (f j) := by simpa using h
  unfold tally
  rw [← Finset.card_insert_of_notMem hnot]
  congr 1
  ext j
  by_cases hj : j = i
  · subst hj
    simp [hx]
  · simp [hj]

end Lib
