import BloodKernel.Lib.Bytes

set_option autoImplicit false

/-!
# Ranges of addresses

`InRange a n x`: the address `x` is one of the `n` addresses from `a` on; addresses wrap. A range is
empty, or its first address and the range of the others (`inRange_succ`). `inRange_subset_iff` and
`inRange_disjoint_iff` compare two ranges. `load16` and `load32` depend on the bytes of their range only.
-/

namespace Lib

/-- `x` is one of the `n` addresses from `a` on. -/
def InRange (a : BitVec 32) (n : ℕ) (x : BitVec 32) : Prop := (x - a).toNat < n

instance decidableInRange (a : BitVec 32) (n : ℕ) (x : BitVec 32) : Decidable (InRange a n x) :=
  inferInstanceAs (Decidable ((x - a).toNat < n))

variable {a x : BitVec 32} {n k : ℕ}

theorem not_inRange_zero : ¬ InRange a 0 x := Nat.not_lt_zero _

theorem InRange.mono {l : ℕ} (h : InRange a n x) (hl : n ≤ l) : InRange a l x := Nat.lt_of_lt_of_le h hl

theorem inRange_self (h : 0 < n) : InRange a n a := by
  unfold InRange
  rwa [BitVec.sub_self, BitVec.toNat_zero]

theorem add_sub_self (a : BitVec 32) (k : ℕ) : a + BitVec.ofNat 32 k - a = BitVec.ofNat 32 k := by
  rw [BitVec.add_comm, BitVec.add_sub_cancel]

theorem add_sub_of (a x : BitVec 32) : a + (x - a) = x := by
  rw [BitVec.add_comm, BitVec.sub_add_cancel]

theorem inRange_add (h : k < n) : InRange a n (a + BitVec.ofNat 32 k) := by
  unfold InRange
  rw [add_sub_self, BitVec.toNat_ofNat]
  exact (Nat.mod_le _ _).trans_lt h

theorem inRange_iff : InRange a n x ↔ ∃ k < n, x = a + BitVec.ofNat 32 k := by
  refine ⟨fun h => ⟨(x - a).toNat, h, ?_⟩, ?_⟩
  · rw [BitVec.ofNat_toNat, BitVec.setWidth_eq, add_sub_of]
  · rintro ⟨k, hk, rfl⟩
    exact inRange_add hk

theorem toNat_sub_succ (h : x ≠ a) : (x - a).toNat = (x - (a + 1)).toNat + 1 := by
  have hne : x.toNat ≠ a.toNat := fun h0 => h (BitVec.eq_of_toNat_eq h0)
  have hone : (1 : BitVec 32).toNat = 1 := rfl
  have := x.isLt
  have := a.isLt
  rw [BitVec.toNat_sub, BitVec.toNat_sub, BitVec.toNat_add, hone]
  omega

theorem inRange_succ : InRange a (n + 1) x ↔ x = a ∨ InRange (a + 1) n x := by
  by_cases h : x = a
  · have hzero : (a - a).toNat = 0 := by rw [BitVec.sub_self]; rfl
    exact iff_of_true (by unfold InRange; rw [h, hzero]; exact n.succ_pos) (.inl h)
  · unfold InRange
    rw [toNat_sub_succ h, Nat.add_lt_add_iff_right]
    exact (or_iff_right h).symm

theorem inRange_add_iff (h : k + n ≤ 2 ^ 32) :
    InRange (a + BitVec.ofNat 32 k) n x ↔ InRange a (k + n) x ∧ ¬ InRange a k x := by
  have := x.isLt
  have := a.isLt
  unfold InRange
  rw [BitVec.toNat_sub, BitVec.toNat_sub, BitVec.toNat_add, BitVec.toNat_ofNat]
  omega

theorem InRange.of_add {l : ℕ} (h : InRange (a + BitVec.ofNat 32 k) n x) (hl : k + n ≤ l) :
    InRange a l x := by
  obtain ⟨j, hj, rfl⟩ := inRange_iff.mp h
  rw [BitVec.add_assoc, ← BitVec.ofNat_add]
  exact inRange_add (by omega)

theorem inRange_subset_iff {l : ℕ} (hn : n ≤ 2 ^ 32) :
    (∀ x, InRange a n x → InRange a l x) ↔ n ≤ l := by
  refine ⟨fun h => ?_, fun h x hx => hx.mono h⟩
  by_contra hlt
  have hx := h _ (inRange_add (show l < n by omega))
  unfold InRange at hx
  rw [add_sub_self, BitVec.toNat_ofNat, Nat.mod_eq_of_lt (by omega)] at hx
  exact lt_irrefl _ hx

/-- Two ranges without a common address: neither reaches the other, in either direction. -/
theorem inRange_disjoint_iff {l : ℕ} (hl : 0 < l) (hn : 0 < n) (hk : k < 2 ^ 32) :
    (∀ x, InRange a l x → ¬ InRange (a + BitVec.ofNat 32 k) n x) ↔ l ≤ k ∧ k + n ≤ 2 ^ 32 := by
  constructor
  · intro h
    have hlk : l ≤ k := by
      by_contra hlt
      exact h _ (inRange_add (show k < l by omega)) (inRange_self hn)
    refine ⟨hlk, ?_⟩
    by_contra hlt
    refine h a (inRange_self hl) ?_
    have := a.isLt
    unfold InRange
    rw [BitVec.toNat_sub, BitVec.toNat_add, BitVec.toNat_ofNat]
    omega
  · rintro ⟨hlk, hkn⟩ x hx hx'
    have := a.isLt
    have := x.isLt
    unfold InRange at hx hx'
    rw [BitVec.toNat_sub] at hx
    rw [BitVec.toNat_sub, BitVec.toNat_add, BitVec.toNat_ofNat] at hx'
    omega

/-- Load the half-word at `a`. -/
def load16 (m : Mem) (a : BitVec 32) : BitVec 16 := m (a + 1) ++ m a

theorem load16_congr {m m' : Mem} (h : ∀ x, InRange a 2 x → m' x = m x) :
    load16 m' a = load16 m a := by
  have h₀ := h _ (inRange_add (a := a) (k := 0) (by omega))
  have h₁ : m' (a + 1) = m (a + 1) := h _ (inRange_add (a := a) (k := 1) (by omega))
  rw [BitVec.add_zero] at h₀
  unfold load16
  rw [h₀, h₁]

theorem load32_congr {m m' : Mem} (h : ∀ x, InRange a 4 x → m' x = m x) :
    load32 m' a = load32 m a :=
  leWord_congr fun _ hk => h _ (inRange_add hk)

end Lib
