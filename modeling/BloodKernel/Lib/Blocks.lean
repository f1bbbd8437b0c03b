import Mathlib.Data.Nat.Notation

set_option autoImplicit false

/-!
# Loops over blocks

`while (remaining >= width) { body; p += width; remaining -= width; }`, which goes over the whole blocks of an array.

* `whileAtLeast`: the loop.
* **`whileAtLeast_invariant`**: it preserves what its body does, and leaves less than a block.
-/

namespace Lib

variable {σ : Type}

/-- The state, the place and what remains, after the loop. -/
def whileAtLeast (width : ℕ) (hwidth : 0 < width) (body : σ → ℕ → σ) (s : σ) (p remaining : ℕ) : σ × ℕ × ℕ :=
  if width ≤ remaining then whileAtLeast width hwidth body (body s p) (p + width) (remaining - width)
  else (s, p, remaining)
termination_by remaining

/-- **The invariant rule.** -/
theorem whileAtLeast_invariant (width : ℕ) (hwidth : 0 < width) (body : σ → ℕ → σ) (I : σ → ℕ → ℕ → Prop)
    (hbody : ∀ s p r, width ≤ r → I s p r → I (body s p) (p + width) (r - width)) {s : σ} {p r : ℕ} (h : I s p r) :
    I (whileAtLeast width hwidth body s p r).1 (whileAtLeast width hwidth body s p r).2.1
        (whileAtLeast width hwidth body s p r).2.2 ∧
      (whileAtLeast width hwidth body s p r).2.2 < width := by
  induction s, p, r using whileAtLeast.induct width hwidth body with
  | case1 s p r hle ih =>
      rw [whileAtLeast, if_pos hle]
      exact ih (hbody s p r hle h)
  | case2 s p r hlt =>
      rw [whileAtLeast, if_neg hlt]
      exact ⟨h, Nat.not_le.mp hlt⟩

end Lib
