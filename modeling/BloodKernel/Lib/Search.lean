import Mathlib.Algebra.GroupWithZero.Nat
import Mathlib.Data.List.FinRange
import Mathlib.Data.Fin.Basic
import Mathlib.Order.WellFounded

set_option autoImplicit false

/-!
# Linear and cyclic search in an array of `n` slots

`first p` scans the slots in increasing order; `nextFrom p start` scans `start + 1, start + 2, …`
modulo `n` and comes back to `start` last. Both stop at the first slot satisfying `p`.

* `first_eq_some_iff`, `first_eq_none_iff`, `findSome_range_eq_some_iff`, `nextFrom_eq_some_iff`,
  `nextFrom_eq_none_iff`, `nextFrom_eq_start`: where the searches stop;
* **`nextFrom_avoids_iff`**: the cyclic search never stops at a bad slot exactly when every bad
  candidate is preceded, in the order of the search, by a good one.
-/

namespace Lib

variable {n : ℕ}

/-- The first slot satisfying `p`. -/
def first (p : Fin n → Bool) : Option (Fin n) := (List.finRange n).find? p

theorem first_eq_some_iff {p : Fin n → Bool} {i : Fin n} :
    first p = some i ↔ p i = true ∧ ∀ j < i, p j = false := by
  rw [first, List.find?_eq_some_iff_getElem]
  constructor
  · rintro ⟨hp, k, hk, rfl, hlt⟩
    refine ⟨hp, fun j hj => ?_⟩
    have hjk : (j : ℕ) < k := by simpa [Fin.lt_def] using hj
    simpa using hlt j hjk
  · rintro ⟨hp, hlt⟩
    refine ⟨hp, i, by simp, by simp, fun j hj => ?_⟩
    simpa using hlt ⟨j, by omega⟩ hj

theorem first_eq_none_iff {p : Fin n → Bool} : first p = none ↔ ∀ i, p i = false := by
  simp [first, List.find?_eq_none]

section FindSome

variable {α : Type} {f : ℕ → Option α} {x : α}

theorem findSome_range_eq_some_iff :
    (List.range n).findSome? f = some x ↔ ∃ i < n, f i = some x ∧ ∀ j < i, f j = none := by
  induction n with
  | zero => simp
  | succ n ih =>
      rw [List.range_succ, List.findSome?_append, Option.or_eq_some_iff, ih,
        List.findSome?_eq_none_iff]
      constructor
      · rintro (⟨i, hi, h⟩ | ⟨hnone, h⟩)
        · exact ⟨i, hi.trans n.lt_succ_self, h⟩
        · exact ⟨n, n.lt_succ_self, by simpa using h, fun j hj => hnone j (List.mem_range.mpr hj)⟩
      · rintro ⟨i, hi, h, hlt⟩
        rcases Nat.lt_or_eq_of_le (Nat.le_of_lt_succ hi) with hin | rfl
        · exact .inl ⟨i, hin, h, hlt⟩
        · exact .inr ⟨fun j hj => hlt j (List.mem_range.mp hj), by simpa using h⟩

theorem findSome_range_eq_none_iff : (List.range n).findSome? f = none ↔ ∀ i < n, f i = none := by
  rw [List.findSome?_eq_none_iff]
  exact forall_congr' fun i => by rw [List.mem_range]

end FindSome

variable [NeZero n]

/-- The slot `k` places after `start`, cyclically. -/
def slotAfter (n : ℕ) [NeZero n] (start k : ℕ) : Fin n := Fin.ofNat n (start + k)

/-- The first slot satisfying `p` after `start`, going round once. -/
def nextFrom (p : Fin n → Bool) (start : ℕ) : Option (Fin n) :=
  ((List.range' 1 n).map (slotAfter n start)).find? p

theorem exists_slotAfter (start : ℕ) (i : Fin n) : ∃ k, 1 ≤ k ∧ k ≤ n ∧ slotAfter n start k = i := by
  have hn : 0 < n := Nat.pos_of_ne_zero (NeZero.ne n)
  have hs : start % n < n := Nat.mod_lt _ hn
  by_cases h : start % n < i
  · refine ⟨i - start % n, by omega, by omega, Fin.ext ?_⟩
    have e : start + (i - start % n) = i + n * (start / n) := by
      have := Nat.mod_add_div start n
      omega
    rw [slotAfter, Fin.val_ofNat, e, Nat.add_mul_mod_self_left, Nat.mod_eq_of_lt i.isLt]
  · refine ⟨i + n - start % n, by omega, by omega, Fin.ext ?_⟩
    have e : start + (i + n - start % n) = i + n * (start / n + 1) := by
      have := Nat.mod_add_div start n
      rw [Nat.mul_add]
      omega
    rw [slotAfter, Fin.val_ofNat, e, Nat.add_mul_mod_self_left, Nat.mod_eq_of_lt i.isLt]

theorem nextFrom_eq_some_iff {p : Fin n → Bool} {start : ℕ} {i : Fin n} :
    nextFrom p start = some i ↔ p i = true ∧ ∃ k, 1 ≤ k ∧ k ≤ n ∧ slotAfter n start k = i ∧
      ∀ j, 1 ≤ j → j < k → p (slotAfter n start j) = false := by
  rw [nextFrom, List.find?_eq_some_iff_getElem]
  constructor
  · rintro ⟨hp, k, hk, rfl, hlt⟩
    have hkn : k < n := by simpa using hk
    refine ⟨hp, 1 + k, by omega, by omega, by simp, fun j hj hjk => ?_⟩
    have := hlt (j - 1) (by omega)
    rw [List.getElem_map, List.getElem_range', Nat.one_mul, show 1 + (j - 1) = j by omega] at this
    simpa using this
  · rintro ⟨hp, k, h1, hkn, rfl, hlt⟩
    refine ⟨hp, k - 1, by simp; omega, ?_, fun j hj => ?_⟩
    · rw [List.getElem_map, List.getElem_range', Nat.one_mul, show 1 + (k - 1) = k by omega]
    · rw [List.getElem_map, List.getElem_range', Nat.one_mul, hlt (1 + j) (by omega) (by omega)]
      rfl

theorem nextFrom_eq_none_iff {p : Fin n → Bool} {start : ℕ} :
    nextFrom p start = none ↔ ∀ i, p i = false := by
  rw [nextFrom, List.find?_eq_none]
  constructor
  · intro h i
    obtain ⟨k, h1, hk, rfl⟩ := exists_slotAfter start i
    simpa using h _ (List.mem_map_of_mem (List.mem_range'_1.mpr ⟨h1, by omega⟩))
  · intro h i _
    simp [h i]

theorem nextFrom_holds {p : Fin n → Bool} {start : ℕ} {i : Fin n}
    (h : nextFrom p start = some i) : p i = true :=
  (nextFrom_eq_some_iff.mp h).1

theorem slotAfter_self (i : Fin n) : slotAfter n i n = i :=
  Fin.ext (by rw [slotAfter, Fin.val_ofNat, Nat.add_mod_right, Nat.mod_eq_of_lt i.isLt])

/-- The search comes back to its start only if no other slot satisfies `p`. -/
theorem nextFrom_eq_start {p : Fin n → Bool} {i : Fin n} (h : nextFrom p i = some i) {j : Fin n}
    (hj : j ≠ i) : p j = false := by
  obtain ⟨-, k, h1, hk, hki, hlt⟩ := nextFrom_eq_some_iff.mp h
  obtain ⟨l, hl1, hl, rfl⟩ := exists_slotAfter (n := n) i j
  -- `i` is met first at the end of the round
  have hkn : k = n := by
    by_contra hne
    have hv := congrArg Fin.val hki
    have hi := i.isLt
    rw [slotAfter, Fin.val_ofNat] at hv
    rcases Nat.lt_or_ge (i + k) n with hlt' | hge
    · rw [Nat.mod_eq_of_lt hlt'] at hv
      omega
    · rw [Nat.mod_eq_sub_mod hge, Nat.mod_eq_of_lt (by omega)] at hv
      omega
  have hln : l ≠ n := fun e => hj (by rw [e, slotAfter_self])
  exact hlt l hl1 (by omega)

/-- **Avoiding slots.** The cyclic search stops at no slot in `B` exactly when every candidate in
`B` comes after a candidate outside `B`. -/
theorem nextFrom_avoids_iff {p : Fin n → Bool} {start : ℕ} (B : Fin n → Prop) :
    (∀ i, nextFrom p start = some i → ¬ B i) ↔
      ∀ k, 1 ≤ k → k ≤ n → p (slotAfter n start k) = true → B (slotAfter n start k) →
        ∃ j, 1 ≤ j ∧ j < k ∧ p (slotAfter n start j) = true ∧ ¬ B (slotAfter n start j) := by
  constructor
  · intro h k h1 hk hp hB
    cases hf : nextFrom p start with
    | none => rw [nextFrom_eq_none_iff.mp hf] at hp; cases hp
    | some i =>
        obtain ⟨hpi, j, hj1, hjn, rfl, hlt⟩ := nextFrom_eq_some_iff.mp hf
        -- the search stops at `j`, no later than at the candidate `k`
        have hjk : j ≤ k := by
          by_contra hc
          rw [hlt k h1 (by omega)] at hp
          cases hp
        rcases Nat.lt_or_eq_of_le hjk with hjk | rfl
        · exact ⟨j, hj1, hjk, hpi, h _ hf⟩
        · exact absurd hB (h _ hf)
  · intro h i hf hB
    obtain ⟨hpi, k, h1, hk, rfl, hlt⟩ := nextFrom_eq_some_iff.mp hf
    obtain ⟨j, hj1, hjk, hpj, -⟩ := h k h1 hk hpi hB
    rw [hlt j hj1 hjk] at hpj
    cases hpj

end Lib
