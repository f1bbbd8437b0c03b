import BloodKernel.Lib.Ring

set_option autoImplicit false

/-!
# Ring buffers with a gap

A ring buffer given by its write index `head` and its read index `tail`. Equal indices mean that it is
empty, so one of the `n` cells stays free. An item offered to a full buffer is dropped.

* `offer`: what a queue of bounded capacity does with an item; `GapRing.put`, `GapRing.drop`.
* `GapRing.toRing`: the same buffer as a ring with a count.
* **`toList_put`**, **`toList_drop`**: the buffer acts as a queue of capacity `n - 1`.
-/

namespace Lib

variable {α : Type} {n : ℕ}

/-- A queue of capacity `n` takes one more item, or drops it. -/
def offer (n : ℕ) (held : List α) (x : α) : List α := if held.length < n then held ++ [x] else held

/-- A ring buffer without a count. -/
structure GapRing (n : ℕ) (α : Type) where
  cell : Fin n → α
  head : Fin n
  tail : Fin n

namespace GapRing

/-- The index after `i`, cyclically. -/
def next (i : Fin n) : Fin n := ⟨(i + 1) % n, Nat.mod_lt _ (Nat.zero_lt_of_lt i.isLt)⟩

/-- Write an item, unless the write index would meet the read index. -/
def put (r : GapRing n α) (x : α) : GapRing n α :=
  if next r.head = r.tail then r
  else { r with cell := Function.update r.cell r.head x, head := next r.head }

/-- Advance the read index. -/
def drop (r : GapRing n α) : GapRing n α := { r with tail := next r.tail }

/-- The number of held items. -/
def count (r : GapRing n α) : ℕ := (r.head + (n - r.tail)) % n

theorem count_lt (r : GapRing n α) : r.count < n := Nat.mod_lt _ (Nat.zero_lt_of_lt r.head.isLt)

/-- The buffer with a count instead of a write index. -/
def toRing (r : GapRing n α) : Ring n α := ⟨r.cell, r.tail, r.count, r.count_lt.le⟩

theorem count_toRing_lt (r : GapRing n α) : r.toRing.count < n := r.count_lt

/-- The held items, oldest first. -/
def toList (r : GapRing n α) : List α := r.toRing.toList

@[simp] theorem length_toList (r : GapRing n α) : r.toList.length = r.count := r.toRing.length_toList

theorem head_toRing (r : GapRing n α) : r.toRing.head = r.head := by
  apply Fin.ext
  show (r.tail + (r.head + (n - r.tail)) % n) % n = r.head
  have := r.tail.isLt
  rw [Nat.add_mod_mod, show (r.tail : ℕ) + (r.head + (n - r.tail)) = r.head + n by omega,
    Nat.add_mod_right, Nat.mod_eq_of_lt r.head.isLt]

theorem count_eq (r : GapRing n α) :
    r.count = if (r.tail : ℕ) ≤ r.head then (r.head - r.tail : ℕ) else r.head + (n - r.tail) := by
  have h₁ := r.head.isLt
  have h₂ := r.tail.isLt
  unfold count
  by_cases h : (r.tail : ℕ) ≤ r.head
  · rw [if_pos h, show (r.head : ℕ) + (n - r.tail) = r.head - r.tail + n by omega, Nat.add_mod_right,
      Nat.mod_eq_of_lt (by omega)]
  · rw [if_neg h, Nat.mod_eq_of_lt (by omega)]

theorem val_next (i : Fin n) : (next i : ℕ) = if (i + 1 : ℕ) = n then 0 else (i + 1 : ℕ) := by
  have hi := i.isLt
  show (i + 1 : ℕ) % n = _
  by_cases h : (i + 1 : ℕ) = n
  · rw [if_pos h, h, Nat.mod_self]
  · rw [if_neg h, Nat.mod_eq_of_lt (by omega)]

theorem count_eq_zero {r : GapRing n α} : r.count = 0 ↔ r.head = r.tail := by
  have h₂ := r.tail.isLt
  rw [count_eq, Fin.ext_iff]
  split_ifs <;> omega

/-- The next write index meets the read index exactly when all cells but one are in use. -/
theorem next_eq_tail {r : GapRing n α} : next r.head = r.tail ↔ ¬r.count < n - 1 := by
  have h₁ := r.head.isLt
  have h₂ := r.tail.isLt
  rw [count_eq, Fin.ext_iff, val_next]
  split_ifs <;> omega

theorem toList_eq_nil {r : GapRing n α} : r.toList = [] ↔ r.head = r.tail := by
  rw [← List.length_eq_zero_iff, length_toList, count_eq_zero]

theorem put_of_ne {r : GapRing n α} (x : α) (h : next r.head ≠ r.tail) :
    r.put x = { r with cell := Function.update r.cell r.head x, head := next r.head } := if_neg h

theorem count_put {r : GapRing n α} (x : α) (h : next r.head ≠ r.tail) :
    (r.put x).count = r.count + 1 := by
  have h₁ := r.head.isLt
  have h₂ := r.tail.isLt
  have hne : (next r.head : ℕ) ≠ r.tail := fun he => h (Fin.ext he)
  have hput : (r.put x).head = next r.head ∧ (r.put x).tail = r.tail := by
    rw [put_of_ne x h]
    exact ⟨rfl, rfl⟩
  rw [val_next] at hne
  rw [count_eq, count_eq, hput.1, hput.2, val_next]
  split_ifs at hne ⊢ <;> omega

theorem toRing_put {r : GapRing n α} (x : α) (h : next r.head ≠ r.tail) :
    (r.put x).toRing = r.toRing.push x r.count_toRing_lt := by
  have hcount := count_put x h
  have hcell : (r.put x).cell = Function.update r.cell r.toRing.head x := by
    rw [put_of_ne x h, head_toRing]
  have htail : (r.put x).tail = r.tail := by rw [put_of_ne x h]
  exact Ring.ext hcell htail hcount

/-- **An offer.** The item is appended, or dropped when all cells but one are in use. -/
theorem toList_put (r : GapRing n α) (x : α) : (r.put x).toList = offer (n - 1) r.toList x := by
  unfold offer
  rw [length_toList]
  by_cases h : next r.head = r.tail
  · rw [if_neg (next_eq_tail.mp h), put, if_pos h]
  · rw [if_pos (not_not.mp (next_eq_tail.not.mp h)), toList, toRing_put x h, Ring.toList_push]
    rfl

theorem count_drop {r : GapRing n α} (h : r.head ≠ r.tail) : r.drop.count = r.count - 1 := by
  have h₁ := r.head.isLt
  have h₂ := r.tail.isLt
  have hne : (r.head : ℕ) ≠ r.tail := fun he => h (Fin.ext he)
  have hdrop : r.drop.head = r.head := rfl
  rw [count_eq, count_eq, hdrop, drop, val_next]
  split_ifs <;> omega

/-- **A take.** The oldest item is under the read index. -/
theorem toList_drop {r : GapRing n α} (h : r.head ≠ r.tail) :
    r.toList = r.cell r.tail :: r.drop.toList := by
  have hpos : 0 < r.count := Nat.pos_of_ne_zero (count_eq_zero.not.mpr h)
  have hpop : r.drop.toRing = r.toRing.pop := Ring.ext rfl rfl (count_drop h)
  unfold toList
  rw [hpop]
  exact Ring.toList_pop r.toRing hpos

end GapRing

end Lib
