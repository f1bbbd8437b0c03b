import Mathlib.Data.BitVec
import Mathlib.Logic.Function.Iterate

set_option autoImplicit false

/-!
# Waiting for a deadline on a counter that wraps

A program reads a counter of `w` bits, adds a delay, and then reads the counter until it is not below the
sum. Ticks come at any time between the reads.

* `Counter`, `Counter.waitUntil`: the counter and the loop, for the ticks that come before each read;
* `Counter.exists_waitUntil_iff`: after how many ticks the loop can return;
* **`Counter.waits_iff`**: it returns only after enough ticks exactly when the deadline does not wrap and
  the delay is not too short.
-/

namespace Lib

structure Counter (S : Type) (w : ℕ) where
  tick : S → S
  read : S → BitVec w
  read_tick : ∀ s, read (tick s) = read s + 1

namespace Counter

variable {S : Type} {w : ℕ} (c : Counter S w)

/-- Read the counter until it is not below the deadline. `gaps` are the ticks before each read; the result is
the number of all ticks, and the state. `none` if it is below the deadline at all these reads. -/
def waitUntil (deadline : BitVec w) : List ℕ → S → Option (ℕ × S)
  | [], _ => none
  | n :: gaps, s =>
      if c.read (c.tick^[n] s) < deadline then
        (waitUntil deadline gaps (c.tick^[n] s)).map fun r => (n + r.1, r.2)
      else some (n, c.tick^[n] s)

variable {c} {s s' : S} {deadline d : BitVec w} {gaps : List ℕ} {k r : ℕ}

theorem read_iterate (n : ℕ) (s : S) : c.read (c.tick^[n] s) = c.read s + BitVec.ofNat w n := by
  induction n with
  | zero => simp
  | succ n ih => rw [Function.iterate_succ_apply', c.read_tick, ih, BitVec.ofNat_add, BitVec.add_assoc]; rfl

theorem waitUntil_eq_some (h : c.waitUntil deadline gaps s = some (k, s')) :
    s' = c.tick^[k] s ∧ deadline ≤ c.read s' := by
  induction gaps generalizing s k with
  | nil => cases h
  | cons n gaps ih =>
      rw [waitUntil] at h
      split_ifs at h with hlt
      · obtain ⟨⟨j, t⟩, hrest, hk⟩ := Option.map_eq_some_iff.mp h
        cases hk
        obtain ⟨hs', hge⟩ := ih hrest
        rw [Nat.add_comm, Function.iterate_add_apply]
        exact ⟨hs', hge⟩
      · cases h
        exact ⟨rfl, BitVec.not_lt.mp hlt⟩

/-- The loop can return after `k` ticks exactly when the counter is not below the deadline then. -/
theorem exists_waitUntil_iff :
    (∃ gaps s', c.waitUntil deadline gaps s = some (k, s')) ↔ deadline ≤ c.read s + BitVec.ofNat w k := by
  rw [← read_iterate]
  constructor
  · rintro ⟨gaps, s', h⟩
    obtain ⟨rfl, hge⟩ := waitUntil_eq_some h
    exact hge
  · intro h
    exact ⟨[k], c.tick^[k] s, by rw [waitUntil, if_neg (BitVec.not_lt.mpr h)]⟩

/-- **When a delay is long enough.** For all schedules of the ticks, the loop returns only after `r` ticks, if
and only if the deadline does not wrap and the delay is all of `r`. -/
theorem waits_iff (hd : d.toNat ≤ r) :
    (∀ gaps k s', c.waitUntil (c.read s + d) gaps s = some (k, s') → r ≤ k) ↔
      (c.read s).toNat + d.toNat < 2 ^ w ∧ d.toNat = r := by
  have hreturn : (∀ gaps k s', c.waitUntil (c.read s + d) gaps s = some (k, s') → r ≤ k) ↔
      ∀ k, c.read s + d ≤ c.read s + BitVec.ofNat w k → r ≤ k := by
    refine ⟨fun h k hk => ?_, fun h gaps k s' hk => h k (exists_waitUntil_iff.mp ⟨gaps, s', hk⟩)⟩
    obtain ⟨gaps, s', hwait⟩ := exists_waitUntil_iff.mpr hk
    exact h gaps k s' hwait
  have hread := (c.read s).isLt
  rw [hreturn]
  constructor
  · intro h
    have hwrap : (c.read s).toNat + d.toNat < 2 ^ w := by
      by_contra hge
      -- the deadline is behind the counter, and the first read returns
      have hzero : c.read s + d ≤ c.read s + BitVec.ofNat w 0 := by
        rw [BitVec.le_def, BitVec.add_zero, BitVec.toNat_add,
          Nat.mod_eq_sub_mod (Nat.not_lt.mp hge)]
        exact (Nat.mod_le _ _).trans (by have := d.isLt; omega)
      have := h 0 hzero
      omega
    have hdelay := h d.toNat (by rw [BitVec.ofNat_toNat, BitVec.setWidth_eq]; exact BitVec.le_refl _)
    exact ⟨hwrap, Nat.le_antisymm hd hdelay⟩
  · rintro ⟨hwrap, rfl⟩ k hk
    by_contra hlt
    rw [BitVec.le_def, BitVec.toNat_add, BitVec.toNat_add, BitVec.toNat_ofNat, Nat.mod_eq_of_lt hwrap,
      Nat.mod_eq_of_lt (show k < 2 ^ w by omega), Nat.mod_eq_of_lt (by omega)] at hk
    omega

end Counter

end Lib
