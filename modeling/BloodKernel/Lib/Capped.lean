import Mathlib.Data.List.Basic

set_option autoImplicit false

/-!
# A table with a capacity

`Capped n α` is a table of at most `n` entries. `push` has no result where the entry would be stored behind the
table; `fill` adds as many of some entries as there is room for.

* `push_eq`, `fill_fill`, `fill_of_full`: how the operations compose;
* `untilFull`: a loop that ends when the table is full;
* **`untilFull_eq`**: if its body fills in some entries, so does the loop, those of all its items in order.
-/

namespace Lib

/-- At most `n` entries. -/
@[ext] structure Capped (n : ℕ) (α : Type) where
  entries : List α
  le : entries.length ≤ n

namespace Capped

variable {n : ℕ} {α β : Type}

def empty (n : ℕ) (α : Type) : Capped n α := ⟨[], Nat.zero_le n⟩

/-- The table has no room for another entry. -/
def Full (t : Capped n α) : Prop := n ≤ t.entries.length

instance (t : Capped n α) : Decidable t.Full := inferInstanceAs (Decidable (_ ≤ _))

/-- Store an entry behind the others. -/
def push (t : Capped n α) (a : α) : Option (Capped n α) :=
  if h : t.entries.length < n then some ⟨t.entries ++ [a], by rw [List.length_append]; exact h⟩ else none

/-- The table with as many of the entries `l` as fit. -/
def fill (t : Capped n α) (l : List α) : Capped n α := ⟨(t.entries ++ l).take n, List.length_take_le n _⟩

/-- A loop over `bs`, which ends when the table is full. -/
def untilFull (f : β → Capped n α → Option (Capped n α)) : List β → Capped n α → Option (Capped n α)
  | [], t => some t
  | b :: bs, t => if t.Full then some t else (f b t).bind (untilFull f bs)

variable {t : Capped n α} {l l' : List α} {a : α} {f : β → Capped n α → Option (Capped n α)} {g : β → List α}

theorem fill_empty (l : List α) : ((empty n α).fill l).entries = l.take n := rfl

theorem fill_nil (t : Capped n α) : t.fill [] = t := by
  apply Capped.ext
  show (t.entries ++ []).take n = t.entries
  rw [List.append_nil, List.take_of_length_le t.le]

theorem fill_of_full (h : t.Full) (l : List α) : t.fill l = t := by
  apply Capped.ext
  have hlength : t.entries.length = n := Nat.le_antisymm t.le h
  show (t.entries ++ l).take n = t.entries
  rw [List.take_append, hlength, Nat.sub_self, List.take_zero, List.append_nil, List.take_of_length_le t.le]

theorem fill_fill (t : Capped n α) (l l' : List α) : (t.fill l).fill l' = t.fill (l ++ l') := by
  by_cases hfull : n ≤ (t.entries ++ l).length
  · have hlength : ((t.entries ++ l).take n).length = n := by rw [List.length_take, Nat.min_eq_left hfull]
    rw [fill_of_full (t := t.fill l) (Nat.le_of_eq hlength.symm)]
    apply Capped.ext
    show (t.entries ++ l).take n = (t.entries ++ (l ++ l')).take n
    rw [← List.append_assoc, List.take_append_of_le_length hfull]
  · apply Capped.ext
    show ((t.entries ++ l).take n ++ l').take n = (t.entries ++ (l ++ l')).take n
    rw [List.take_of_length_le (Nat.le_of_not_le hfull), List.append_assoc]

theorem push_eq (h : ¬t.Full) (a : α) : t.push a = some (t.fill [a]) := by
  have hlt : t.entries.length < n := Nat.lt_of_not_le h
  unfold push
  rw [dif_pos hlt]
  refine congrArg some (Capped.ext ?_)
  show t.entries ++ [a] = (t.entries ++ [a]).take n
  rw [List.take_of_length_le (by rw [List.length_append]; exact hlt)]

/-- **The entries of all items**, as many as fit. -/
theorem untilFull_eq {bs : List β} (h : ∀ b ∈ bs, ∀ t, ¬t.Full → f b t = some (t.fill (g b))) (t : Capped n α) :
    untilFull f bs t = some (t.fill (bs.flatMap g)) := by
  induction bs generalizing t with
  | nil => exact congrArg some (fill_nil t).symm
  | cons b bs ih =>
      rw [untilFull, List.flatMap_cons]
      split_ifs with hfull
      · rw [fill_of_full hfull]
      · rw [h b List.mem_cons_self t hfull, Option.bind_some,
          ih fun b' hb' => h b' (List.mem_cons_of_mem _ hb'), fill_fill]

end Capped

end Lib
