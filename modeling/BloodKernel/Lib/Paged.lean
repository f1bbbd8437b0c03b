import Mathlib.Data.BitVec

set_option autoImplicit false

/-!
# Data split at the pages of a memory

Some data from an address on, cut into chunks of which none goes beyond a page. Addresses are words, and wrap.

* `cells`: the data with their addresses; `cells_append`.
* `Covers`: chunks that have the same data at the same addresses, none empty and each in one page.
* **`Covers.nil`**, **`Covers.cons`**: how a loop that cuts off chunk after chunk covers the data.
-/

namespace Lib

variable {w p : ℕ} {α : Type} {a : BitVec w} {xs ys : List α}

/-- The data from an address on, with the address of each element. -/
def cells (a : BitVec w) : List α → List (BitVec w × α)
  | [] => []
  | x :: xs => (a, x) :: cells (a + 1#w) xs

theorem cells_append (a : BitVec w) (xs ys : List α) :
    cells a (xs ++ ys) = cells a xs ++ cells (a + BitVec.ofNat w xs.length) ys := by
  induction xs generalizing a with
  | nil => exact congrArg (cells · ys) (BitVec.add_zero a).symm
  | cons x xs ih =>
      have hnext : a + BitVec.ofNat w (xs.length + 1) = a + 1#w + BitVec.ofNat w xs.length := by
        rw [Nat.add_comm, BitVec.ofNat_add, BitVec.add_assoc]
      rw [List.cons_append, cells, ih, List.length_cons, hnext, cells, List.cons_append]

/-- Some data for an address. -/
structure Chunk (w : ℕ) (α : Type) where
  addr : BitVec w
  data : List α

/-- The chunks have, in order, the data from `a` on; none is empty, and each is in one page of size `p`. -/
structure Covers (p : ℕ) (a : BitVec w) (xs : List α) (cs : List (Chunk w α)) : Prop where
  cells_eq : cs.flatMap (fun c => cells c.addr c.data) = cells a xs
  nonempty : ∀ c ∈ cs, c.data ≠ []
  page : ∀ c ∈ cs, c.addr.toNat % p + c.data.length ≤ p

theorem Covers.nil (p : ℕ) (a : BitVec w) : Covers p a ([] : List α) [] :=
  ⟨rfl, fun _ hc => absurd hc List.not_mem_nil, fun _ hc => absurd hc List.not_mem_nil⟩

/-- **One chunk**, and those of the rest. -/
theorem Covers.cons {cs : List (Chunk w α)} (hne : xs ≠ []) (hpage : a.toNat % p + xs.length ≤ p)
    (h : Covers p (a + BitVec.ofNat w xs.length) ys cs) : Covers p a (xs ++ ys) (⟨a, xs⟩ :: cs) := by
  refine ⟨?_, ?_, ?_⟩
  · rw [List.flatMap_cons, h.cells_eq, cells_append]
  · rintro c (_ | ⟨_, hc⟩)
    · exact hne
    · exact h.nonempty c hc
  · rintro c (_ | ⟨_, hc⟩)
    · exact hpage
    · exact h.page c hc

end Lib
