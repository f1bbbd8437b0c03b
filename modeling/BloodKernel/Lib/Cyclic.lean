import Mathlib.Logic.Function.Basic
import Mathlib.Data.List.Basic

set_option autoImplicit false

/-!
# Cyclic memories

A memory of `n` cells read and written along lists that go on at cell `0` after the last cell.

* `readCyclic`, `writeCyclic`: the `k` cells from `a` on, and a list written from `a` on.
* `readCyclic_add`, `readCyclic_mod`: reading in two parts, and from an equal position.
* **`readCyclic_writeCyclic`**, **`readCyclic_writeCyclic_ahead`**: what was written is read back, and
  what is written ahead changes nothing before it.
-/

namespace Lib

variable {α : Type} {n : ℕ}

/-- The `k` cells from position `a` on. -/
def readCyclic (n : ℕ) (m : ℕ → α) (a k : ℕ) : List α := (List.range k).map fun i => m ((a + i) % n)

/-- The memory after a list has been written from position `a` on. -/
def writeCyclic (n : ℕ) (m : ℕ → α) (a : ℕ) : List α → ℕ → α
  | [] => m
  | x :: l => writeCyclic n (Function.update m (a % n) x) (a + 1) l

@[simp] theorem length_readCyclic (m : ℕ → α) (a k : ℕ) : (readCyclic n m a k).length = k := by
  simp [readCyclic]

theorem readCyclic_succ (m : ℕ → α) (a k : ℕ) :
    readCyclic n m a (k + 1) = m (a % n) :: readCyclic n m (a + 1) k := by
  unfold readCyclic
  rw [List.range_succ_eq_map, List.map_cons, List.map_map, Nat.add_zero]
  refine congrArg _ (List.map_congr_left fun i _ => ?_)
  show m ((a + (i + 1)) % n) = _
  rw [← Nat.add_assoc, Nat.add_right_comm]

theorem readCyclic_add (m : ℕ → α) (a j k : ℕ) :
    readCyclic n m a (j + k) = readCyclic n m a j ++ readCyclic n m (a + j) k := by
  unfold readCyclic
  rw [List.range_add, List.map_append, List.map_map]
  refine congrArg _ (List.map_congr_left fun i _ => ?_)
  show m ((a + (j + i)) % n) = _
  rw [← Nat.add_assoc]

theorem readCyclic_mod (m : ℕ → α) (a k : ℕ) : readCyclic n m (a % n) k = readCyclic n m a k :=
  List.map_congr_left fun i _ => by rw [Nat.mod_add_mod]

theorem readCyclic_congr {m m' : ℕ → α} {a k : ℕ} (h : ∀ i < k, m ((a + i) % n) = m' ((a + i) % n)) :
    readCyclic n m a k = readCyclic n m' a k :=
  List.map_congr_left fun i hi => h i (List.mem_range.mp hi)

theorem take_readCyclic (m : ℕ → α) (a : ℕ) {j k : ℕ} (h : j ≤ k) :
    (readCyclic n m a k).take j = readCyclic n m a j := by
  unfold readCyclic
  rw [← List.map_take, List.take_range, Nat.min_eq_left h]

/-- Positions less than `n` apart are different cells. -/
theorem add_mod_ne {a i j : ℕ} (hij : i < j) (hj : j < i + n) : (a + i) % n ≠ (a + j) % n := by
  intro h
  have hdvd : n ∣ (a + j) - (a + i) := Nat.dvd_of_mod_eq_zero (Nat.sub_mod_eq_zero_of_mod_eq h.symm)
  rw [Nat.add_sub_add_left] at hdvd
  have := Nat.le_of_dvd (Nat.sub_pos_of_lt hij) hdvd
  omega

theorem writeCyclic_of_mod_eq {m : ℕ → α} {a b : ℕ} {l : List α} (h : a % n = b % n) :
    writeCyclic n m a l = writeCyclic n m b l := by
  induction l generalizing m a b with
  | nil => rfl
  | cons x l ih =>
      have hnext : (a + 1) % n = (b + 1) % n := by rw [Nat.add_mod, h, ← Nat.add_mod]
      rw [writeCyclic, writeCyclic, h, ih hnext]

theorem writeCyclic_of_ne {m : ℕ → α} {a b : ℕ} {l : List α}
    (h : ∀ i < l.length, (a + i) % n ≠ b) : writeCyclic n m a l b = m b := by
  induction l generalizing m a with
  | nil => rfl
  | cons x l ih =>
      have hhead : b ≠ a % n := fun he => h 0 (Nat.succ_pos _) he.symm
      rw [writeCyclic, ih, Function.update_of_ne hhead]
      intro i hi
      rw [Nat.add_assoc, Nat.add_comm 1]
      exact h (i + 1) (Nat.succ_lt_succ hi)

/-- **What was written is read back.** -/
theorem readCyclic_writeCyclic {m : ℕ → α} {a : ℕ} {l : List α} (h : l.length ≤ n) :
    readCyclic n (writeCyclic n m a l) a l.length = l := by
  induction l generalizing m a with
  | nil => rfl
  | cons x l ih =>
      rw [List.length_cons] at h
      -- the rest of the list does not come round to the first cell
      have hhead : writeCyclic n (Function.update m (a % n) x) (a + 1) l (a % n) = x := by
        rw [writeCyclic_of_ne, Function.update_self]
        intro i hi
        rw [Nat.add_assoc]
        exact (add_mod_ne (a := a) (i := 0) (by omega) (by omega)).symm
      rw [List.length_cons, readCyclic_succ, writeCyclic, hhead, ih (by omega)]

/-- **What is written ahead**, and not round to the start, changes nothing before it. -/
theorem readCyclic_writeCyclic_ahead {m : ℕ → α} {a d k : ℕ} {l : List α} (hk : k ≤ d)
    (h : d + l.length ≤ n) :
    readCyclic n (writeCyclic n m (a + d) l) a k = readCyclic n m a k := by
  refine readCyclic_congr fun i hi => writeCyclic_of_ne fun j hj => ?_
  rw [Nat.add_assoc]
  exact (add_mod_ne (by omega) (by omega)).symm

end Lib
