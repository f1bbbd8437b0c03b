import Mathlib.Data.Fintype.Card

set_option autoImplicit false

/-!
# Slots with keys

A slot is free or holds a key: `key i` is `none` or `some k`.

* `Distinct`: no key is held twice. **`distinct_update`**: filling a free slot keeps this exactly when the key is
  new; `Distinct.clear`: freeing a slot keeps it.
* `numKeys`: the number of slots that hold a key; `numKeys_update`: filling a free slot adds one.
-/

namespace Lib

variable {ι κ : Type} [DecidableEq ι] {key : ι → Option κ} {i : ι} {k : κ}

/-- No key is held by two slots. -/
def Distinct (key : ι → Option κ) : Prop := ∀ i j k, key i = some k → key j = some k → i = j

omit [DecidableEq ι] in
theorem distinct_of_free (h : ∀ i, key i = none) : Distinct key := by
  intro i j k hi
  rw [h i] at hi
  cases hi

theorem Distinct.clear (h : Distinct key) (i : ι) : Distinct (Function.update key i none) := by
  intro j l k hj hl
  rw [Function.update_apply] at hj hl
  split_ifs at hj hl
  exact h j l k hj hl

/-- **Filling a free slot.** -/
theorem distinct_update (hi : key i = none) :
    Distinct (Function.update key i (some k)) ↔ Distinct key ∧ ∀ j, key j ≠ some k := by
  constructor
  · intro h
    have hold : ∀ j k', key j = some k' → Function.update key i (some k) j = some k' := by
      intro j k' hj
      rw [Function.update_of_ne]
      · exact hj
      · rintro rfl
        rw [hi] at hj
        cases hj
    refine ⟨fun j l k' hj hl => h j l k' (hold j k' hj) (hold l k' hl), fun j hj => ?_⟩
    have hji : j = i := h j i k (hold j k hj) (Function.update_self i _ key)
    rw [hji, hi] at hj
    cases hj
  · rintro ⟨h, hnew⟩ j l k' hj hl
    rw [Function.update_apply] at hj hl
    split_ifs at hj hl with hji hli hli
    · rw [hji, hli]
    · cases hj
      exact absurd hl (hnew l)
    · cases hl
      exact absurd hj (hnew j)
    · exact h j l k' hj hl

/-! ## Counting -/

variable [Fintype ι]

/-- How many slots hold a key. -/
def numKeys (key : ι → Option κ) : ℕ := (Finset.univ.filter fun i => (key i).isSome).card

omit [DecidableEq ι] in
theorem numKeys_of_free (h : ∀ i, key i = none) : numKeys key = 0 := by
  rw [numKeys, Finset.card_eq_zero, Finset.filter_eq_empty_iff]
  intro i _
  rw [h i]
  exact Bool.false_ne_true

omit [DecidableEq ι] in
theorem numKeys_le (key : ι → Option κ) : numKeys key ≤ Fintype.card ι := Finset.card_le_univ _

theorem numKeys_update (hi : key i = none) : numKeys (Function.update key i (some k)) = numKeys key + 1 := by
  have hnot : i ∉ Finset.univ.filter fun j => (key j).isSome := by
    rw [Finset.mem_filter, hi]
    exact fun h => Bool.false_ne_true h.2
  have hinsert : (Finset.univ.filter fun j => (Function.update key i (some k) j).isSome) =
      insert i (Finset.univ.filter fun j => (key j).isSome) := by
    ext j
    rw [Finset.mem_insert, Finset.mem_filter, Finset.mem_filter, Function.update_apply]
    split_ifs with hji
    · exact iff_of_true ⟨Finset.mem_univ j, rfl⟩ (.inl hji)
    · exact (or_iff_right hji).symm
  rw [numKeys, hinsert, Finset.card_insert_of_notMem hnot, numKeys]

end Lib
