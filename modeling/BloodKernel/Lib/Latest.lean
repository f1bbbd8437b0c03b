import Mathlib.Data.List.Basic
import Mathlib.Data.List.Induction

set_option autoImplicit false

/-!
# The last value that is set

A loop goes over the items of a list, of which some set a register and the others leave it as it is.

* `latest`: the last value that is set; `latest_eq_none_iff`, `latest_eq_some`, `latest_filter`, `latest_ite`.
* **`get_foldl`**: the register after the loop holds the last value that was set, if any was, or what it held before.
-/

namespace Lib

variable {σ α β : Type} {step : σ → α → σ} {sets : α → Option β} {l m : List α} {v : β}

/-- The last value that the items of a list set. -/
def latest (sets : α → Option β) (l : List α) : Option β := (l.filterMap sets).getLast?

theorem latest_append : latest sets (l ++ m) = (latest sets m).or (latest sets l) := by
  unfold latest
  rw [List.filterMap_append, List.getLast?_append]

theorem latest_singleton (a : α) : latest sets [a] = sets a := by
  unfold latest
  cases h : sets a with
  | none => rw [List.filterMap_cons_none h]; rfl
  | some v => rw [List.filterMap_cons_some h]; rfl

theorem latest_eq_none_iff : latest sets l = none ↔ ∀ a ∈ l, sets a = none := by
  unfold latest
  rw [List.getLast?_eq_none_iff, List.filterMap_eq_nil_iff]

theorem exists_of_latest (h : latest sets l = some v) : ∃ a ∈ l, sets a = some v :=
  List.mem_filterMap.mp (List.mem_of_getLast? h)

/-- Where the items with a property set the same value, and the others none. -/
theorem latest_eq_some {p : α → Prop} (hset : ∀ a ∈ l, p a → sets a = some v) (hnot : ∀ a ∈ l, ¬p a → sets a = none)
    (h : ∃ a ∈ l, p a) : latest sets l = some v := by
  obtain ⟨a, ha, hp⟩ := h
  cases hl : latest sets l with
  | none => exact absurd ((hset a ha hp).symm.trans (latest_eq_none_iff.mp hl a ha)) (Option.some_ne_none v)
  | some w =>
      obtain ⟨b, hb, hw⟩ := exists_of_latest hl
      by_cases hpb : p b
      · exact hw.symm.trans (hset b hb hpb)
      · exact absurd (hw.symm.trans (hnot b hb hpb)) (Option.some_ne_none w)

/-- Only the items that set the register matter. -/
theorem latest_filter (p : α → Prop) [DecidablePred p] (h : ∀ a, ¬p a → sets a = none) :
    latest sets (l.filter fun a => decide (p a)) = latest sets l := by
  unfold latest
  rw [List.filterMap_filter]
  refine congrArg List.getLast? (List.filterMap_congr fun a _ => ?_)
  by_cases hp : p a
  · rw [decide_eq_true hp, if_pos rfl]
  · rw [decide_eq_false hp, if_neg Bool.false_ne_true, h a hp]

theorem latest_ite (p : α → Prop) [DecidablePred p] (g : α → β) (l : List α) :
    latest (fun a => if p a then some (g a) else none) l = (l.filter fun a => decide (p a)).getLast?.map g := by
  induction l using List.reverseRecOn with
  | nil => rfl
  | append_singleton l a ih =>
      rw [latest_append, latest_singleton, List.filter_append, List.filter_singleton, ih]
      by_cases hp : p a
      · rw [if_pos hp, decide_eq_true hp, cond_true, List.getLast?_concat]
        rfl
      · rw [if_neg hp, decide_eq_false hp, cond_false, List.append_nil]
        rfl

/-- **The register after the loop.** -/
theorem get_foldl (get : σ → β) (h : ∀ s a, get (step s a) = (sets a).getD (get s)) (s : σ) (l : List α) :
    get (l.foldl step s) = (latest sets l).getD (get s) := by
  induction l using List.reverseRecOn with
  | nil => rfl
  | append_singleton l a ih =>
      rw [List.foldl_append, List.foldl_cons, List.foldl_nil, h, ih, latest_append, latest_singleton]
      cases sets a with
      | none => rfl
      | some v => rfl

end Lib
