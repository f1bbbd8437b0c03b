import Mathlib.Data.List.Perm.Basic

set_option autoImplicit false

/-!
# Accounts

Entries with a key and an amount, and for each key the sum of the amounts of its entries.

* `charged`: this sum.
* **`charged_cons`**, **`charged_erase`**: a new entry, and an entry that is removed, change one account.
-/

namespace Lib

variable {α β : Type} [DecidableEq α] [DecidableEq β] (key : α → β) (amount : α → ℕ)

/-- The sum of the amounts of the entries with key `k`. -/
def charged : List α → β → ℕ
  | [], _ => 0
  | a :: l, k => (if key a = k then amount a else 0) + charged l k

omit [DecidableEq α] in
theorem charged_cons (a : α) (l : List α) (k : β) :
    charged key amount (a :: l) k = (if key a = k then amount a else 0) + charged key amount l k :=
  rfl

omit [DecidableEq α] in
theorem charged_perm {l l' : List α} (h : l.Perm l') (k : β) : charged key amount l k = charged key amount l' k := by
  induction h with
  | nil => rfl
  | cons a _ ih => rw [charged_cons, charged_cons, ih]
  | swap a b l => rw [charged_cons, charged_cons, charged_cons, charged_cons, Nat.add_left_comm]
  | trans _ _ ih ih' => rw [ih, ih']

theorem charged_erase {a : α} {l : List α} (h : a ∈ l) (k : β) :
    (if key a = k then amount a else 0) + charged key amount (l.erase a) k = charged key amount l k := by
  rw [← charged_cons]
  exact (charged_perm key amount (List.perm_cons_erase h) k).symm

end Lib
