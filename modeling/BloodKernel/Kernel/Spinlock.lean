import BloodKernel.Kernel.Types

set_option autoImplicit false

/-!
# Spin locks

`spin_lock` and `spin_unlock` of `src/kernel/spinklock.c`, on the word of a `spinlock_t`, at two
levels: a call as one step, and the loop of `spin_lock` one access to the word at a time.

* `spinLock`, `spinUnlock`: the calls; `SpinPc`, `spinStep`: the loop;
* `spinLock_eq_some_iff`: the call is the first access of the loop when that acquires the lock;
* `spinStep_held`: on a held lock the loop goes on.
-/

namespace BloodKernel

/-- A call of `spin_lock`. On a held lock it does not return. -/
def spinLock (lock : U32) : Option U32 := if lock = 0 then some 1 else none

/-- `__sync_lock_release` stores 0, whatever the word is. -/
def spinUnlock (_lock : U32) : U32 := 0

/-- The positions of `spin_lock`: the atomic exchange, and the inner loop around `cpu_relax`. -/
inductive SpinPc
  | testAndSet
  | relax
  deriving DecidableEq

/-- One access to the lock: the next position, `none` once the lock is acquired, and the word. -/
def spinStep : SpinPc → U32 → Option SpinPc × U32
  | .testAndSet, lock => (if lock = 0 then none else some .relax, 1)
  | .relax, lock => (if lock = 0 then some .testAndSet else some .relax, lock)

theorem spinLock_of_zero : spinLock 0 = some 1 := rfl

theorem spinLock_eq_some_iff {lock lock' : U32} :
    spinLock lock = some lock' ↔ spinStep .testAndSet lock = (none, lock') := by
  unfold spinLock spinStep
  by_cases h : lock = 0
  · simp only [if_pos h, Option.some.injEq, Prod.mk.injEq, true_and]
  · simp only [if_neg h, reduceCtorEq, Prod.mk.injEq, false_and]

/-- On a held lock the loop stays in the inner loop, and the lock held. -/
theorem spinStep_held (pc : SpinPc) {lock : U32} (h : lock ≠ 0) :
    ∃ lock', spinStep pc lock = (some .relax, lock') ∧ lock' ≠ 0 := by
  cases pc with
  | testAndSet => exact ⟨1, by rw [spinStep, if_neg h], by decide⟩
  | relax => exact ⟨lock, by rw [spinStep, if_neg h], h⟩

end BloodKernel
