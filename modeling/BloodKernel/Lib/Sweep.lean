import Mathlib.Data.List.Basic
import Mathlib.Data.Prod.Lex

set_option autoImplicit false

/-!
# Sweeping over keys

Two nested loops, the outer one over the values of a key in increasing order, the inner one over all items,
which looks at those with this key. The first item found is the smallest in the order of key and position.

* `sweep`: the items in the order of the visits; `pairwise_sweep`, `mem_sweep`;
* **`find_sweep`**: the first one found has the least key, and among these the least position.
-/

namespace Lib

variable {α κ ι : Type} [LinearOrder κ] [LinearOrder ι]

/-- The items in the order of the visits. -/
def sweep (keys : List κ) (items : List α) (key : α → κ) : List α :=
  keys.flatMap fun k => items.filter fun a => key a = k

variable {keys : List κ} {items : List α} {key : α → κ} {pos : α → ι} {p : α → Bool} {a : α}

theorem mem_sweep : a ∈ sweep keys items key ↔ a ∈ items ∧ key a ∈ keys := by
  unfold sweep
  rw [List.mem_flatMap]
  constructor
  · rintro ⟨k, hk, ha⟩
    obtain ⟨hitem, hkey⟩ := List.mem_filter.mp ha
    exact ⟨hitem, (of_decide_eq_true hkey).symm ▸ hk⟩
  · rintro ⟨hitem, hkey⟩
    exact ⟨key a, hkey, List.mem_filter.mpr ⟨hitem, decide_eq_true rfl⟩⟩

theorem pairwise_sweep (hkeys : keys.Pairwise (· < ·)) (hitems : items.Pairwise fun a b => pos a < pos b) :
    (sweep keys items key).Pairwise fun a b => toLex (key a, pos a) < toLex (key b, pos b) := by
  refine List.pairwise_flatMap.mpr ⟨fun k _ => ?_, hkeys.imp fun hlt a ha b hb => ?_⟩
  · refine List.pairwise_filter.mpr (hitems.imp fun hlt ha hb => ?_)
    rw [of_decide_eq_true ha, of_decide_eq_true hb]
    exact Prod.Lex.toLex_lt_toLex.mpr (.inr ⟨rfl, hlt⟩)
  · rw [of_decide_eq_true (List.mem_filter.mp ha).2, of_decide_eq_true (List.mem_filter.mp hb).2]
    exact Prod.Lex.toLex_lt_toLex.mpr (.inl hlt)

/-- **The first item found** is the least one. -/
theorem find_sweep (hkeys : keys.Pairwise (· < ·)) (hitems : items.Pairwise fun a b => pos a < pos b)
    (h : (sweep keys items key).find? p = some a) :
    (p a = true ∧ a ∈ items) ∧ ∀ b ∈ items, key b ∈ keys → p b = true →
      toLex (key a, pos a) ≤ toLex (key b, pos b) := by
  have hmem := mem_sweep.mp (List.mem_of_find?_eq_some h)
  have hsorted := @pairwise_sweep α κ ι _ _ keys items key pos hkeys hitems
  obtain ⟨hp, before, after, hsplit, hbefore⟩ := List.find?_eq_some_iff_append.mp h
  refine ⟨⟨hp, hmem.1⟩, fun b hb hkey hpb => ?_⟩
  have hvisit : b ∈ before ++ a :: after := hsplit ▸ mem_sweep.mpr ⟨hb, hkey⟩
  rw [hsplit] at hsorted
  rcases List.mem_append.mp hvisit with hb | hb
  · have hnot := hbefore b hb
    rw [hpb] at hnot
    cases hnot
  · rcases List.mem_cons.mp hb with rfl | hb
    · exact le_rfl
    · exact (List.rel_of_pairwise_cons (List.pairwise_append.mp hsorted).2.1 hb).le

theorem find_sweep_eq_none : (sweep keys items key).find? p = none ↔
    ∀ b ∈ items, key b ∈ keys → p b = false := by
  rw [List.find?_eq_none]
  refine ⟨fun h b hb hkey => ?_, fun h b hb => ?_⟩
  · exact Bool.eq_false_iff.mpr (h b (mem_sweep.mpr ⟨hb, hkey⟩))
  · obtain ⟨hitem, hkey⟩ := mem_sweep.mp hb
    exact Bool.eq_false_iff.mp (h b hitem hkey)

end Lib
