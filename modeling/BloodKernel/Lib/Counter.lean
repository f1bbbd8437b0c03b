import Mathlib.Data.BitVec

set_option autoImplicit false

/-!
# The values of a loop counter

`counter w start n` are the words of `w` bits that a loop counter takes on from `start`, `n` of them.

* **`mem_counter`**, **`pairwise_counter`**: if they do not wrap, they are the words between the ends, in
  increasing order.
* **`isSome_foldlM_iff`**: a loop ends when its body does for each of them.
-/

namespace Lib

/-- The values of a counter of `w` bits. -/
def counter (w start n : ℕ) : List (BitVec w) := (List.range' start n).map (BitVec.ofNat w)

variable {w start n : ℕ}

theorem mem_counter (h : start + n ≤ 2 ^ w) {x : BitVec w} :
    x ∈ counter w start n ↔ start ≤ x.toNat ∧ x.toNat < start + n := by
  unfold counter
  rw [List.mem_map]
  constructor
  · rintro ⟨i, hi, rfl⟩
    have hrange := List.mem_range'_1.mp hi
    rwa [BitVec.toNat_ofNat, Nat.mod_eq_of_lt (by omega)]
  · refine fun hx => ⟨x.toNat, List.mem_range'_1.mpr hx, ?_⟩
    rw [BitVec.ofNat_toNat, BitVec.setWidth_eq]

theorem pairwise_counter (h : start + n ≤ 2 ^ w) :
    (counter w start n).Pairwise fun x y => x.toNat < y.toNat := by
  unfold counter
  refine List.pairwise_map.mpr (List.Pairwise.imp_of_mem (fun {i j} hi hj hlt => ?_) List.pairwise_lt_range')
  have hi' := List.mem_range'_1.mp hi
  have hj' := List.mem_range'_1.mp hj
  rwa [BitVec.toNat_ofNat, BitVec.toNat_ofNat, Nat.mod_eq_of_lt (by omega), Nat.mod_eq_of_lt (by omega)]

/-- **A loop** over some values, whose body ends or not whatever the state. -/
theorem isSome_foldlM_iff {α σ : Type} {f : σ → α → Option σ} {P : α → Prop} {l : List α}
    (h : ∀ s, ∀ a ∈ l, (f s a).isSome ↔ P a) (s : σ) : (l.foldlM f s).isSome ↔ ∀ a ∈ l, P a := by
  induction l generalizing s with
  | nil => exact iff_of_true rfl fun a ha => absurd ha List.not_mem_nil
  | cons a l ih =>
      rw [List.foldlM_cons, List.forall_mem_cons, ← h s a List.mem_cons_self]
      cases hs : f s a with
      | none => exact iff_of_false (fun hnone => by cases hnone) fun hall => by cases hall.1
      | some t => exact (ih (fun s b hb => h s b (List.mem_cons_of_mem _ hb)) t).trans (and_iff_right rfl).symm

end Lib
