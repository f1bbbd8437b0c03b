import BloodKernel.Lib.Bytes
import Mathlib.Data.List.GetD

set_option autoImplicit false

/-!
# Lists in memory

`Lies m a l`: the bytes of `l` lie in memory from `a` on, one after the other; addresses wrap.

* `lies_append`, `Lies.drop`: the parts of a list.
* `Lies.get`: a byte by its position; `toNat_address`: its address, when the list does not wrap.
* `lies_bytesFrom`: any memory holds the list of its own bytes; `lies_holding`: a memory with a given list.
-/

namespace Lib

variable {m : Mem} {a : BitVec 32} {l l' : List (BitVec 8)}

/-- The bytes of the list lie from `a` on. -/
def Lies (m : Mem) (a : BitVec 32) : List (BitVec 8) → Prop
  | [] => True
  | x :: l => m a = x ∧ Lies m (a + 1) l

instance decidableLies (m : Mem) : (a : BitVec 32) → (l : List (BitVec 8)) → Decidable (Lies m a l)
  | _, [] => inferInstanceAs (Decidable True)
  | a, x :: l =>
      haveI := decidableLies m (a + 1) l
      inferInstanceAs (Decidable (m a = x ∧ Lies m (a + 1) l))

theorem add_ofNat_succ (a : BitVec 32) (k : ℕ) :
    a + 1 + BitVec.ofNat 32 k = a + BitVec.ofNat 32 (k + 1) := by
  rw [Nat.add_comm k, BitVec.ofNat_add, BitVec.add_assoc]
  rfl

/-- **A list in two parts.** -/
theorem lies_append :
    Lies m a (l ++ l') ↔ Lies m a l ∧ Lies m (a + BitVec.ofNat 32 l.length) l' := by
  induction l generalizing a with
  | nil =>
      rw [List.nil_append, List.length_nil]
      exact (BitVec.add_zero a).symm ▸ (and_iff_right trivial).symm
  | cons x l ih =>
      rw [List.cons_append, Lies, Lies, ih, and_assoc, List.length_cons, add_ofNat_succ]

theorem Lies.drop (h : Lies m a l) {k : ℕ} (hk : k ≤ l.length) :
    Lies m (a + BitVec.ofNat 32 k) (l.drop k) := by
  rw [← List.take_append_drop k l, lies_append, List.length_take, Nat.min_eq_left hk] at h
  exact h.2

theorem Lies.get (h : Lies m a l) {k : ℕ} (hk : k < l.length) : m (a + BitVec.ofNat 32 k) = l[k] := by
  have hdrop := h.drop hk.le
  rw [List.drop_eq_getElem_cons hk] at hdrop
  exact hdrop.1

theorem toNat_address {k : ℕ} (h : a.toNat + k < 2 ^ 32) :
    (a + BitVec.ofNat 32 k).toNat = a.toNat + k := by
  rw [BitVec.toNat_add, BitVec.toNat_ofNat]
  omega

/-- The `n` bytes from `a` on. -/
def bytesFrom (m : Mem) (a : BitVec 32) : ℕ → List (BitVec 8)
  | 0 => []
  | n + 1 => m a :: bytesFrom m (a + 1) n

@[simp] theorem length_bytesFrom (m : Mem) (a : BitVec 32) (n : ℕ) : (bytesFrom m a n).length = n := by
  induction n generalizing a with
  | zero => rfl
  | succ n ih => rw [bytesFrom, List.length_cons, ih]

theorem lies_bytesFrom (m : Mem) (a : BitVec 32) (n : ℕ) : Lies m a (bytesFrom m a n) := by
  induction n generalizing a with
  | zero => exact trivial
  | succ n ih => exact ⟨rfl, ih (a + 1)⟩

theorem bytesFrom_eq_of_lies (h : Lies m a l) : bytesFrom m a l.length = l := by
  induction l generalizing a with
  | nil => rfl
  | cons x l ih => rw [List.length_cons, bytesFrom, h.1, ih h.2]

/-- A memory with a list from `a` on, and zeros elsewhere. -/
def holding (a : BitVec 32) (l : List (BitVec 8)) : Mem := fun x => l.getD (x - a).toNat 0

theorem holding_add {k : ℕ} (hk : k < 2 ^ 32) : holding a l (a + BitVec.ofNat 32 k) = l.getD k 0 := by
  unfold holding
  rw [BitVec.add_comm, BitVec.add_sub_cancel, BitVec.toNat_ofNat, Nat.mod_eq_of_lt hk]

theorem lies_holding (a : BitVec 32) {l : List (BitVec 8)} (h : l.length ≤ 2 ^ 32) :
    Lies (holding a l) a l := by
  have hsuffix : ∀ j, j ≤ l.length →
      Lies (holding a l) (a + BitVec.ofNat 32 (l.length - j)) (l.drop (l.length - j)) := by
    intro j
    induction j with
    | zero =>
        intro _
        rw [Nat.sub_zero, List.drop_length]
        exact trivial
    | succ j ih =>
        intro hj
        have hlt : l.length - (j + 1) < l.length := by omega
        have hnext : l.length - j = l.length - (j + 1) + 1 := by omega
        rw [List.drop_eq_getElem_cons hlt]
        refine ⟨?_, ?_⟩
        · rw [holding_add (by omega), List.getD_eq_getElem _ _ hlt]
        · rw [BitVec.add_assoc, ← hnext]
          have hone : BitVec.ofNat 32 (l.length - (j + 1)) + 1 = BitVec.ofNat 32 (l.length - j) := by
            rw [hnext, BitVec.ofNat_add]
            rfl
          rw [hone]
          exact ih (by omega)
  have hall := hsuffix l.length (Nat.le_refl _)
  rw [Nat.sub_self, show a + BitVec.ofNat 32 0 = a from BitVec.add_zero a] at hall
  exact hall

end Lib
