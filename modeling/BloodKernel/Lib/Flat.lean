import Mathlib.Data.List.GetD
import Mathlib.Logic.Function.Basic
import Mathlib.Tactic.SplitIfs
import Mathlib.Data.Nat.Notation

set_option autoImplicit false

/-!
# Flat memories

A memory is a function on addresses; `readAt m a n` are the `n` cells from `a` on, `writeAt m a xs` is the memory
after `xs` has been stored there.

* `readAt_writeAt`: what is stored is read back. **`readAt_writeAt_of_apart`**: cells apart from it keep what
  they hold.
* `writeAt_eq_self_iff`: storing changes nothing exactly when the cells hold it already.
* `foldl_update_zipIdx`: a loop that stores cell after cell; `readAt_add`, `writeAt_append`: ranges in two parts.
-/

namespace Lib

variable {α : Type} {m m' : ℕ → α} {a b k n : ℕ} {xs : List α}

/-- The cells `a`, `a + 1`, …, `a + n - 1`. -/
def readAt (m : ℕ → α) (a n : ℕ) : List α := (List.range n).map fun i => m (a + i)

/-- Store a list from `a` on. -/
def writeAt (m : ℕ → α) (a : ℕ) (xs : List α) : ℕ → α := fun k =>
  if a ≤ k then xs.getD (k - a) (m k) else m k

/-- Two ranges of cells do not meet. -/
def Apart (a n b k : ℕ) : Prop := a + n ≤ b ∨ b + k ≤ a

instance decidableApart (a n b k : ℕ) : Decidable (Apart a n b k) := inferInstanceAs (Decidable (_ ∨ _))

/-- Cells of one range, and cells of the other from `p` on. -/
theorem Apart.part {l p q : ℕ} (h : Apart a n b k) (hq : q ≤ n) (hl : p + l ≤ k) : Apart a q (b + p) l := by
  unfold Apart at h ⊢
  omega

@[simp] theorem length_readAt (m : ℕ → α) (a n : ℕ) : (readAt m a n).length = n := by
  rw [readAt, List.length_map, List.length_range]

theorem getElem_readAt {i : ℕ} (h : i < (readAt m a n).length) : (readAt m a n)[i] = m (a + i) := by
  simp [readAt]

theorem take_readAt (m : ℕ → α) (a : ℕ) {k n : ℕ} (h : k ≤ n) : (readAt m a n).take k = readAt m a k := by
  unfold readAt
  rw [← List.map_take, List.take_range, Nat.min_eq_left h]

theorem readAt_congr (h : ∀ i < n, m (a + i) = m' (a + i)) : readAt m a n = readAt m' a n :=
  List.map_congr_left fun i hi => h i (List.mem_range.mp hi)

theorem writeAt_add {i : ℕ} (h : i < xs.length) : writeAt m a xs (a + i) = xs[i] := by
  rw [writeAt, if_pos (Nat.le_add_right a i), Nat.add_sub_cancel_left, List.getD_eq_getElem _ _ h]

theorem writeAt_of_not (h : ¬(a ≤ k ∧ k < a + xs.length)) : writeAt m a xs k = m k := by
  unfold writeAt
  split_ifs with hle
  · rw [List.getD_eq_default]
    omega
  · rfl

theorem readAt_writeAt (m : ℕ → α) (a : ℕ) (xs : List α) : readAt (writeAt m a xs) a xs.length = xs := by
  refine List.ext_getElem (length_readAt _ _ _) fun i _ h => ?_
  rw [getElem_readAt, writeAt_add h]

/-- **Cells apart** from what is stored keep what they hold. -/
theorem readAt_writeAt_of_apart (h : Apart a xs.length b n) : readAt (writeAt m a xs) b n = readAt m b n := by
  refine readAt_congr fun i hi => writeAt_of_not ?_
  rcases h with h | h <;> omega

theorem writeAt_eq_self_iff : writeAt m a xs = m ↔ readAt m a xs.length = xs := by
  constructor
  · intro h
    rw [← h]
    exact readAt_writeAt m a xs
  · intro h
    funext k
    by_cases hk : a ≤ k ∧ k < a + xs.length
    · obtain ⟨i, rfl⟩ := Nat.exists_eq_add_of_le hk.1
      have hi : i < xs.length := by omega
      rw [writeAt_add hi, ← List.getElem_of_eq h (by rwa [length_readAt]), getElem_readAt]
    · exact writeAt_of_not hk

theorem readAt_add (m : ℕ → α) (a n k : ℕ) : readAt m a (n + k) = readAt m a n ++ readAt m (a + n) k := by
  unfold readAt
  rw [List.range_add, List.map_append, List.map_map]
  refine congrArg (_ ++ ·) (List.map_congr_left fun i _ => ?_)
  rw [Function.comp_apply, Nat.add_assoc]

theorem readAt_update_succ (m : ℕ → α) (a n : ℕ) (v : α) :
    readAt (Function.update m (a + n) v) a (n + 1) = readAt m a n ++ [v] := by
  have hfirst : readAt (Function.update m (a + n) v) a n = readAt m a n :=
    readAt_congr fun i hi => Function.update_of_ne (by omega) _ _
  have hlast : readAt (Function.update m (a + n) v) (a + n) 1 = [v] :=
    congrArg (fun w => [w]) (Function.update_self (a + n) v m)
  rw [readAt_add, hfirst, hlast]

theorem writeAt_append (m : ℕ → α) (a : ℕ) (xs ys : List α) :
    writeAt (writeAt m a xs) (a + xs.length) ys = writeAt m a (xs ++ ys) := by
  funext k
  by_cases hfirst : a ≤ k ∧ k < a + xs.length
  · obtain ⟨i, rfl⟩ := Nat.exists_eq_add_of_le hfirst.1
    have hi : i < xs.length := by omega
    rw [writeAt_of_not (by omega), writeAt_add hi, writeAt_add (by rw [List.length_append]; omega),
      List.getElem_append_left hi]
  · by_cases hsecond : a + xs.length ≤ k ∧ k < a + xs.length + ys.length
    · obtain ⟨i, rfl⟩ := Nat.exists_eq_add_of_le hsecond.1
      have hi : i < ys.length := by omega
      have hlt : xs.length + i < (xs ++ ys).length := by rw [List.length_append]; omega
      rw [writeAt_add hi, Nat.add_assoc, writeAt_add hlt, List.getElem_append_right (Nat.le_add_right _ _)]
      simp only [Nat.add_sub_cancel_left]
    · rw [writeAt_of_not hsecond, writeAt_of_not hfirst, writeAt_of_not (by rw [List.length_append]; omega)]

theorem foldl_update_zipIdx (xs : List α) (m : ℕ → α) (a : ℕ) :
    (xs.zipIdx a).foldl (fun m w => Function.update m w.2 w.1) m = writeAt m a xs := by
  induction xs generalizing m a with
  | nil =>
      funext k
      exact (writeAt_of_not (by rw [List.length_nil]; omega)).symm
  | cons x xs ih =>
      rw [List.zipIdx_cons, List.foldl_cons, ih]
      funext k
      by_cases hk : a + 1 ≤ k ∧ k < a + 1 + xs.length
      · obtain ⟨i, rfl⟩ := Nat.exists_eq_add_of_le hk.1
        have hi : i < xs.length := by omega
        rw [writeAt_add hi, Nat.add_assoc, writeAt_add (by rw [List.length_cons]; omega), List.getElem_cons]
        simp [Nat.add_comm 1 i]
      · rw [writeAt_of_not hk]
        by_cases hak : k = a
        · subst hak
          have hzero : 0 < (x :: xs).length := Nat.succ_pos _
          rw [Function.update_self]
          exact (writeAt_add hzero).symm
        · rw [Function.update_of_ne hak, writeAt_of_not (by rw [List.length_cons]; omega)]

end Lib
