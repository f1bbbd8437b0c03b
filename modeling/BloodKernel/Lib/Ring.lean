import Mathlib.Data.Int.ModEq

set_option autoImplicit false

/-!
# Ring buffers

A ring buffer of `n` cells with a read index and a count. The cells from the read index on,
cyclically, are the held items; the write index is where the next item goes.

* `Ring.push`, `Ring.pop`, `Ring.toList`: the operations and the held items;
* **`toList_push`**, **`toList_pop`**: the operations act on the held items as on a list.
-/

namespace Lib

/-- A ring buffer: the indices are in range by construction. -/
@[ext] structure Ring (n : ℕ) (α : Type) where
  cell : Fin n → α
  tail : Fin n
  count : ℕ
  count_le : count ≤ n

namespace Ring

variable {n : ℕ} {α : Type}

/-- The cell `k` places after the read index. -/
def index (r : Ring n α) (k : ℕ) : Fin n :=
  ⟨(r.tail + k) % n, Nat.mod_lt _ (Nat.zero_lt_of_lt r.tail.isLt)⟩

/-- The write index. -/
def head (r : Ring n α) : Fin n := r.index r.count

/-- The held items, oldest first. -/
def toList (r : Ring n α) : List α := (List.range r.count).map fun k => r.cell (r.index k)

/-- Write `x` at the write index. -/
def push (r : Ring n α) (x : α) (h : r.count < n) : Ring n α where
  cell := Function.update r.cell r.head x
  tail := r.tail
  count := r.count + 1
  count_le := h

/-- Advance the read index. -/
def pop (r : Ring n α) : Ring n α where
  cell := r.cell
  tail := r.index 1
  count := r.count - 1
  count_le := (Nat.sub_le _ _).trans r.count_le

@[simp] theorem length_toList (r : Ring n α) : r.toList.length = r.count := by simp [toList]

theorem index_zero (r : Ring n α) : r.index 0 = r.tail :=
  Fin.ext (Nat.mod_eq_of_lt r.tail.isLt)

/-- The write index does not meet a held item. -/
theorem index_ne_head (r : Ring n α) (h : r.count < n) {k : ℕ} (hk : k < r.count) :
    r.index k ≠ r.head := by
  intro he
  have h₁ : (r.tail + k) % n = (r.tail + r.count) % n := Fin.val_eq_of_eq he
  have h₂ : k % n = r.count % n := Nat.ModEq.add_left_cancel' r.tail.val h₁
  rw [Nat.mod_eq_of_lt (hk.trans h), Nat.mod_eq_of_lt h] at h₂
  omega

theorem head_push (r : Ring n α) (x : α) (h : r.count < n) :
    ((r.push x h).head : ℕ) = (r.head + 1) % n := by
  simp only [head, index, push, Nat.mod_add_mod, Nat.add_assoc]

/-- **A push appends.** -/
theorem toList_push (r : Ring n α) (x : α) (h : r.count < n) :
    (r.push x h).toList = r.toList ++ [x] := by
  have hindex : ∀ k, (r.push x h).index k = r.index k := fun _ => rfl
  have hlast : (r.push x h).cell r.head = x := Function.update_self _ _ _
  have hcount : (r.push x h).count = r.count + 1 := rfl
  unfold toList
  rw [hcount, List.range_succ, List.map_append, List.map_singleton, hindex]
  congr 1
  · refine List.map_congr_left fun k hk => ?_
    exact Function.update_of_ne (r.index_ne_head h (List.mem_range.mp hk)) _ _
  · rw [← head, hlast]

theorem index_pop (r : Ring n α) (k : ℕ) : r.pop.index k = r.index (k + 1) := by
  apply Fin.ext
  show ((r.tail + 1) % n + k) % n = (r.tail + (k + 1)) % n
  rw [Nat.mod_add_mod, Nat.add_assoc, Nat.add_comm 1 k]

theorem head_pop (r : Ring n α) (h : 0 < r.count) : r.pop.head = r.head := by
  unfold head
  rw [index_pop]
  exact congrArg r.index (Nat.sub_add_cancel h)

/-- **A pop takes the first item.** -/
theorem toList_pop (r : Ring n α) (h : 0 < r.count) : r.toList = r.cell r.tail :: r.pop.toList := by
  obtain ⟨c, hc⟩ : ∃ c, r.count = c + 1 := ⟨r.count - 1, by omega⟩
  have hcount : r.pop.count = c := by
    show r.count - 1 = c
    omega
  unfold toList
  rw [hc, hcount, List.range_succ_eq_map, List.map_cons, List.map_map, index_zero]
  congr 1
  refine List.map_congr_left fun k _ => ?_
  rw [index_pop]
  rfl

end Ring

end Lib
