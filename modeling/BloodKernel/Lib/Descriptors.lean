import Mathlib.Data.Int.ModEq
import Mathlib.Logic.Function.Basic

set_option autoImplicit false

/-!
# Descriptor rings

A ring of `n` slots between two parties: one fills the slot at its own index and goes on to the next, the other
empties the slot at its own index and goes on. Neither sees the index of the other.

* `Holds slot head tail xs`: the slots from `head` to `tail` are filled with `xs`, the others are empty.
* **`Holds.push`**, **`Holds.pop`**: filling and emptying act on `xs` as on a queue; `Holds.lt_of_empty`,
  `Holds.eq_of_filled`.
-/

namespace Lib

variable {n : ℕ} {α : Type}

/-- The index `k` places ahead. -/
def ahead (a : Fin n) (k : ℕ) : Fin n := ⟨(a + k) % n, Nat.mod_lt _ (Nat.zero_lt_of_lt a.isLt)⟩

/-- The slots hold `xs`, from `head` to before `tail`. -/
structure Holds (slot : Fin n → Option α) (head tail : Fin n) (xs : List α) : Prop where
  le : xs.length ≤ n
  tail_eq : tail = ahead head xs.length
  slot_eq : ∀ i < n, slot (ahead head i) = xs[i]?

variable {slot : Fin n → Option α} {head tail a : Fin n} {x : α} {xs : List α}

theorem ahead_zero (a : Fin n) : ahead a 0 = a := Fin.ext (Nat.mod_eq_of_lt a.isLt)

theorem ahead_ahead (a : Fin n) (i j : ℕ) : ahead (ahead a i) j = ahead a (i + j) := by
  apply Fin.ext
  show ((a + i) % n + j) % n = (a + (i + j)) % n
  rw [Nat.mod_add_mod, Nat.add_assoc]

theorem ahead_self (a : Fin n) : ahead a n = a := by
  apply Fin.ext
  show (a + n) % n = (a : ℕ)
  rw [Nat.add_mod_right, Nat.mod_eq_of_lt a.isLt]

theorem ahead_injective {i j : ℕ} (hi : i < n) (hj : j < n) (h : ahead a i = ahead a j) : i = j := by
  have hmod : (a + i) % n = (a + j) % n := Fin.val_eq_of_eq h
  have hij : i % n = j % n := Nat.ModEq.add_left_cancel' a.val hmod
  rwa [Nat.mod_eq_of_lt hi, Nat.mod_eq_of_lt hj] at hij

theorem holds_nil (h : ∀ i, slot i = none) (a : Fin n) : Holds slot a a [] where
  le := Nat.zero_le _
  tail_eq := (ahead_zero a).symm
  slot_eq := fun _ _ => h _

theorem Holds.slot_head (h : Holds slot head tail xs) : slot head = xs.head? := by
  have hfirst := h.slot_eq 0 (Nat.zero_lt_of_lt head.isLt)
  rwa [ahead_zero, ← List.head?_eq_getElem?] at hfirst

theorem Holds.mem (h : Holds slot head tail xs) (hx : slot a = some x) : x ∈ xs := by
  obtain ⟨i, hi, rfl⟩ : ∃ i < n, a = ahead head i := by
    refine ⟨(a + (n - head)) % n, Nat.mod_lt _ (Nat.zero_lt_of_lt a.isLt), Fin.ext ?_⟩
    show (a : ℕ) = (head + (a + (n - head)) % n) % n
    have hsum : head + (a + (n - head)) = a + n := by omega
    rw [Nat.add_mod_mod, hsum, Nat.add_mod_right, Nat.mod_eq_of_lt a.isLt]
  rw [h.slot_eq i hi] at hx
  exact List.mem_of_getElem? hx

/-- An empty slot at `tail`: the ring is not full. -/
theorem Holds.lt_of_empty (h : Holds slot head tail xs) (hempty : slot tail = none) : xs.length < n := by
  refine h.le.lt_of_ne fun hfull => ?_
  have hturn : tail = head := by rw [h.tail_eq, hfull, ahead_self]
  have hnil : xs = [] := by rwa [hturn, h.slot_head, List.head?_eq_none_iff] at hempty
  have hzero : n = 0 := by rw [← hfull, hnil, List.length_nil]
  have hhead := head.isLt
  omega

theorem Holds.eq_of_filled (h : Holds slot head tail xs) (hfilled : slot tail ≠ none) : xs.length = n := by
  by_contra hne
  have hlt : xs.length < n := h.le.lt_of_ne hne
  have hlast := h.slot_eq xs.length hlt
  rw [← h.tail_eq, List.getElem?_eq_none le_rfl] at hlast
  exact hfilled hlast

/-- **Filling a slot.** -/
theorem Holds.push (h : Holds slot head tail xs) (hempty : slot tail = none) (x : α) :
    Holds (Function.update slot tail (some x)) head (ahead tail 1) (xs ++ [x]) := by
  have hlt := h.lt_of_empty hempty
  have hlen : (xs ++ [x]).length = xs.length + 1 := List.length_append
  refine ⟨by rw [hlen]; exact hlt, by rw [h.tail_eq, ahead_ahead, hlen], fun i hi => ?_⟩
  by_cases hi' : i = xs.length
  · rw [hi', ← h.tail_eq, Function.update_self, List.getElem?_concat_length]
  · have hne : ahead head i ≠ tail := by
      rw [h.tail_eq]
      exact fun he => hi' (ahead_injective hi hlt he)
    rw [Function.update_of_ne hne, h.slot_eq i hi]
    by_cases hlast : i < xs.length
    · rw [List.getElem?_append_left hlast]
    · rw [List.getElem?_eq_none (by omega), List.getElem?_eq_none (by omega)]

/-- **Emptying the slot of the first.** -/
theorem Holds.pop (h : Holds slot head tail (x :: xs)) :
    Holds (Function.update slot head none) (ahead head 1) tail xs := by
  have hle : xs.length + 1 ≤ n := h.le
  refine ⟨by omega, ?_, fun i hi => ?_⟩
  · rw [h.tail_eq, ahead_ahead, List.length_cons, Nat.add_comm]
  · rw [ahead_ahead, Nat.add_comm]
    by_cases hlast : i + 1 < n
    · have hne : ahead head (i + 1) ≠ head := by
        intro he
        rw [← ahead_zero head, ahead_ahead, Nat.zero_add] at he
        exact Nat.succ_ne_zero i (ahead_injective hlast (by omega) he)
      rw [Function.update_of_ne hne, h.slot_eq _ hlast, List.getElem?_cons_succ]
    · have hturn : i + 1 = n := by omega
      rw [hturn, ahead_self, Function.update_self, List.getElem?_eq_none (by omega)]

end Lib
