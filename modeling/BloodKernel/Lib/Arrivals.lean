import BloodKernel.Lib.Keyed
import Mathlib.Data.Fin.SuccPred
import Mathlib.Data.Fintype.Fin
import Mathlib.Data.List.Basic
import Mathlib.Logic.Function.Basic
import Mathlib.Tactic.SplitIfs

set_option autoImplicit false

/-!
# Places taken in the order of arrival

There are `n` places. Each newcomer takes the next one as long as there is one, and keeps it.

* `firsts n l`: the first `n` different elements of `l`; **`firsts_concat`**: one more arrival; `firsts_of_forall_eq`:
  where all are the same.
* `Seated place xs`: the places are taken by `xs` from the first on; **`Seated.take`**: the first free place is next;
  `Seated.numKeys`: how many are taken.
-/

namespace Lib

variable {α : Type} [DecidableEq α] {n : ℕ} {l : List α} {a : α}

/-- The first `n` different elements. -/
def firsts (n : ℕ) (l : List α) : List α := l.eraseDups.take n

@[simp] theorem firsts_nil (n : ℕ) : firsts n ([] : List α) = [] := List.take_nil

theorem length_firsts_le (n : ℕ) (l : List α) : (firsts n l).length ≤ n := List.length_take_le _ _

theorem mem_of_mem_firsts (h : a ∈ firsts n l) : a ∈ l := List.mem_eraseDups.mp (List.mem_of_mem_take h)

theorem mem_firsts_append (h : a ∈ firsts n l) (l' : List α) : a ∈ firsts n (l ++ l') := by
  unfold firsts
  rw [List.eraseDups_append, List.take_append]
  exact List.mem_append_left _ h

/-- **One more arrival.** -/
theorem firsts_concat (n : ℕ) (l : List α) (a : α) :
    firsts n (l ++ [a]) = if a ∈ firsts n l ∨ n ≤ (firsts n l).length then firsts n l else firsts n l ++ [a] := by
  unfold firsts
  rw [List.eraseDups_append]
  by_cases hmem : a ∈ l
  · have hcontains : l.contains a = true := List.contains_iff_mem.mpr hmem
    have hnone : [a].removeAll l = [] := by
      rw [List.cons_removeAll, hcontains]
      rfl
    rw [hnone, List.eraseDups_nil, List.append_nil]
    split_ifs with h
    · rfl
    · -- it has come before, and is among the first as there are places left
      rw [not_or, List.length_take] at h
      have hall : l.eraseDups.take n = l.eraseDups := List.take_of_length_le (Nat.le_of_not_le (by omega))
      rw [hall] at h
      exact absurd (List.mem_eraseDups.mpr hmem) h.1
  · have hcontains : l.contains a = false := by
      rw [Bool.eq_false_iff, ne_eq, List.contains_iff_mem]
      exact hmem
    have hone : [a].removeAll l = [a] := by
      rw [List.cons_removeAll, hcontains]
      rfl
    have hnew : a ∉ l.eraseDups.take n := fun h => hmem (mem_of_mem_firsts h)
    have hdups : [a].eraseDups = [a] := by
      rw [List.eraseDups_cons]
      rfl
    rw [hone, hdups, List.take_append]
    by_cases hfull : n ≤ l.eraseDups.length
    · rw [if_pos (Or.inr (by rw [List.length_take]; omega)), Nat.sub_eq_zero_of_le hfull, List.take_zero,
        List.append_nil]
    · have hlen : (l.eraseDups.take n).length < n := by
        rw [List.length_take]
        omega
      have hone : [a].length ≤ n - l.eraseDups.length := by
        rw [List.length_singleton]
        omega
      rw [if_neg (not_or.mpr ⟨hnew, Nat.not_le.mpr hlen⟩), List.take_of_length_le hone]

theorem firsts_of_forall_eq (h : ∀ b ∈ l, b = a) : firsts (n + 1) l = if l = [] then [] else [a] := by
  cases l with
  | nil => rw [firsts_nil, if_pos rfl]
  | cons b l =>
      obtain rfl : b = a := h b List.mem_cons_self
      have hfilter : (l.filter fun c => !c == b) = [] := by
        rw [List.filter_eq_nil_iff]
        intro c hc
        rw [h c (List.mem_cons_of_mem _ hc)]
        simp
      rw [if_neg (List.cons_ne_nil _ _), firsts, List.eraseDups_cons, hfilter, List.eraseDups_nil, List.take_succ_cons,
        List.take_nil]

/-! ## Places -/

section Places

variable {κ : Type} {place : Fin n → Option κ} {xs : List κ} {i : Fin n} {k : κ}

/-- The places are taken by `xs`, from the first on. -/
def Seated (place : Fin n → Option κ) (xs : List κ) : Prop := ∀ i, place i = xs[(i : ℕ)]?

theorem Seated.eq_none (h : Seated place xs) : place i = none ↔ xs.length ≤ i := by
  rw [h i, List.getElem?_eq_none_iff]

theorem Seated.eq_length (h : Seated place xs) (hi : place i = none) (hfirst : ∀ j < i, place j ≠ none) :
    (i : ℕ) = xs.length := by
  have hle : xs.length ≤ i := h.eq_none.mp hi
  refine Nat.le_antisymm (Nat.not_lt.mp fun hlt => ?_) hle
  exact hfirst ⟨xs.length, Nat.lt_trans hlt i.isLt⟩ hlt (h.eq_none.mpr (Nat.le_refl _))

/-- **The next one** takes the first free place. -/
theorem Seated.take (h : Seated place xs) (hi : (i : ℕ) = xs.length) (k : κ) :
    Seated (Function.update place i (some k)) (xs ++ [k]) := by
  intro j
  by_cases hj : j = i
  · rw [hj, Function.update_self, hi, List.getElem?_concat_length]
  · have hne : (j : ℕ) ≠ xs.length := fun he => hj (Fin.ext (he.trans hi.symm))
    rw [Function.update_of_ne hj, h j]
    by_cases hlt : (j : ℕ) < xs.length
    · rw [List.getElem?_append_left hlt]
    · rw [List.getElem?_eq_none (Nat.not_lt.mp hlt), List.getElem?_eq_none]
      rw [List.length_append, List.length_singleton]
      omega

theorem Seated.numKeys (h : Seated place xs) (hn : xs.length ≤ n) : numKeys place = xs.length := by
  have hfilter : (Finset.univ.filter fun i => (place i).isSome) =
      Finset.univ.filter fun i : Fin n => (i : ℕ) < xs.length := by
    refine Finset.filter_congr fun i _ => ?_
    rw [Option.isSome_iff_ne_none, ne_eq, h.eq_none, Nat.not_le]
  rw [Lib.numKeys, hfilter, Fin.card_filter_val_lt, Nat.min_eq_right hn]

end Places

end Lib
