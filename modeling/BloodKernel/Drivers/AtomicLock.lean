import BloodKernel.Kernel.Types
import BloodKernel.Lib.Locked

set_option autoImplicit false

/-!
# The spin lock of the atomic operations

`atomic_spinlock_acquire`, `atomic_spinlock_try_acquire` and `atomic_spinlock_release` of `src/drivers/atomic.c`, one
access to `lock->lock` at a time; `owner_cpu` and `recursion_count` are only initialised. The accesses of different
CPUs come in some order, which the fences do not change.

* `atomicCompareExchangeU32`, `atomicAttempt`, `atomicWord`: the accesses, and the lock that they make;
* **`atomicSpinlock_calls`**: code between acquire and release, any code, takes effect as one step;
* **`atomicSpinlock_completes`**: some call can always be completed.
-/

namespace BloodKernel

open Lib

/-! ### The functions -/

def atomicLoadU32 (word : U32) : U32 := word

/-- The locked `cmpxchg`: the result, `*expected` afterwards, and the word. -/
def atomicCompareExchangeU32 (word expected desired : U32) : U8 × U32 × U32 :=
  let oldValue := expected
  let result := word      -- in `eax`, equal to `oldValue` if the exchange is made
  (if result = oldValue then 1 else 0, result, if word = oldValue then desired else word)

def atomicSpinlockIsLocked (word : U32) : U8 := if atomicLoadU32 word ≠ 0 then 1 else 0

/-- The places before an access of the acquiring functions. -/
inductive AtomicPc
  /-- The exchange of `atomic_spinlock_acquire`. -/
  | acquire
  /-- The load in its inner loop. -/
  | spin
  /-- The exchange of `atomic_spinlock_try_acquire`. -/
  | tryAcquire
  deriving DecidableEq

def atomicAttempt : AtomicPc → U32 → Locked.Attempt AtomicPc × U32
  | .acquire, word =>
      let (success, _, word) := atomicCompareExchangeU32 word 0 1
      (if success ≠ 0 then .acquired else .again .spin, word)
  | .spin, word => (.again (if atomicLoadU32 word ≠ 0 then .spin else .acquire), word)
  | .tryAcquire, word =>
      let (success, _, word) := atomicCompareExchangeU32 word 0 1
      (if success ≠ 0 then .acquired else .gaveUp, word)

/-- `atomic_spinlock_release` stores 0. -/
def atomicSpinlockRelease (_word : U32) : U32 := 0

/-! ### The lock -/

variable {word word' : U32} {pc : AtomicPc} {t : Locked.Attempt AtomicPc}

theorem compareExchange_held (h : word ≠ 0) : atomicCompareExchangeU32 word 0 1 = (0, word, word) := by
  simp only [atomicCompareExchangeU32, if_neg h]

theorem attempt_acquire_held (h : word ≠ 0) : atomicAttempt .acquire word = (.again .spin, word) := by
  rw [atomicAttempt, compareExchange_held h]
  rfl

theorem attempt_tryAcquire_held (h : word ≠ 0) : atomicAttempt .tryAcquire word = (.gaveUp, word) := by
  rw [atomicAttempt, compareExchange_held h]
  rfl

/-- What an access leads to: only a word that is 0 is acquired, and any other access leaves the word alone. -/
theorem atomicAttempt_eq (h : atomicAttempt pc word = (t, word')) :
    t = .acquired ∧ word = 0 ∧ word' = 1 ∨ t ≠ .acquired ∧ word' = word := by
  cases pc with
  | acquire =>
      by_cases h0 : word = 0
      · subst h0
        cases h
        exact Or.inl ⟨rfl, rfl, rfl⟩
      · rw [attempt_acquire_held h0] at h
        cases h
        exact Or.inr ⟨nofun, rfl⟩
  | spin =>
      cases h
      exact Or.inr ⟨nofun, rfl⟩
  | tryAcquire =>
      by_cases h0 : word = 0
      · subst h0
        cases h
        exact Or.inl ⟨rfl, rfl, rfl⟩
      · rw [attempt_tryAcquire_held h0] at h
        cases h
        exact Or.inr ⟨nofun, rfl⟩

theorem atomicAttempt_held (h : atomicAttempt pc word = (t, word')) (ht : t ≠ .acquired) :
    word' ≠ 0 ↔ word ≠ 0 := by
  rcases atomicAttempt_eq h with ⟨ht', -⟩ | ⟨-, rfl⟩
  · exact absurd ht' ht
  · exact Iff.rfl

def atomicWord : Locked.SpinLock U32 AtomicPc where
  attempt := atomicAttempt
  release := atomicSpinlockRelease
  Held word := word ≠ 0
  free_of_acquired pc word word' h := by
    rcases atomicAttempt_eq h with ⟨-, rfl, rfl⟩ | ⟨ht, -⟩
    · exact ⟨not_not.mpr rfl, by decide⟩
    · exact absurd rfl ht
  held_of_again _ _ _ _ h := atomicAttempt_held h nofun
  held_of_gaveUp _ _ _ h := atomicAttempt_held h nofun
  free_release _ := not_not.mpr rfl
  enters pc word h := by
    obtain rfl : word = 0 := not_not.mp h
    have hacquire : Locked.Enters atomicAttempt .acquire 0 := .acquired rfl
    cases pc with
    | acquire => exact hacquire
    | spin => exact .again rfl hacquire
    | tryAcquire => exact .acquired rfl

/-! ### The code between -/

section Guarded

variable {A D O R L : Type} [DecidableEq A] {obj : Locked.Object D O R L} {tries : O → Bool} {d : D}
  {s : Locked.State A U32 AtomicPc D O R L} {es : List (Locked.Op A O × Locked.Ret O R)}

/-- The first access of an operation that acquires the lock, or only tries to. -/
def atomicEntry (tries : O → Bool) (o : O) : AtomicPc := if tries o then .tryAcquire else .acquire

/-- One access of one CPU. -/
abbrev atomicLockStep (A : Type) [DecidableEq A] (tries : O → Bool) (obj : Locked.Object D O R L) :=
  Locked.step (A := A) atomicWord.toWordOps (atomicEntry tries) obj

/-- After `atomic_spinlock_init`. -/
abbrev atomicLockBoot (A : Type) (L R O : Type) (d : D) : Locked.State A U32 AtomicPc D O R L := Locked.boot 0 d

omit [DecidableEq A] in
theorem inv_atomicLockBoot : Locked.Inv atomicWord obj (atomicLockBoot A L R O d) d :=
  Locked.inv_boot (fun h : (0 : U32) ≠ 0 => h rfl) d

/-- **Guarded code is atomic.** Let the operations of an object run between `atomic_spinlock_acquire`, or a successful
`atomic_spinlock_try_acquire`, and `atomic_spinlock_release`. In every interleaving of the accesses of any number of
CPUs at most one is between the two, `atomic_spinlock_is_locked` tells whether one is, and the operations that have
returned, in the order of their releases, are operations that take one step each. -/
theorem atomicSpinlock_calls {call : D → O → Option (R × D)}
    (hcall : ∀ d o r d', Locked.Does obj d o r d' → call d o = some (r, d'))
    (h : Run (atomicLockStep A tries obj) (atomicLockBoot A L R O d) es s) :
    (∀ a b, (s.pos a).Holds → (s.pos b).Holds → a = b) ∧
    (atomicSpinlockIsLocked s.word = 1 ↔ ∃ a, (s.pos a).Holds) ∧
    ∃ d', Run call d (Locked.returned es) d' ∧ ((∀ a, ¬(s.pos a).Holds) → s.data = d') := by
  obtain ⟨d', hrun, hinv⟩ := Locked.exists_run_returned hcall h inv_atomicLockBoot
  refine ⟨hinv.excl, ?_, d', hrun, hinv.free⟩
  rw [← hinv.held]
  unfold atomicSpinlockIsLocked
  by_cases h0 : s.word = 0
  · rw [h0]
    exact iff_of_false (by decide) fun h => h rfl
  · exact ⟨fun _ => h0, fun _ => if_pos h0⟩

/-- **No deadlock.** Where the operations come to a result on their own, in every state that such a run reaches with
some CPU in a call there is a CPU that completes a call on its own. -/
theorem atomicSpinlock_completes {call : D → O → R × D}
    (hcall : ∀ d o, Locked.Does obj d o (call d o).1 (call d o).2)
    (h : Run (atomicLockStep A tries obj) (atomicLockBoot A L R O d) es s) {a : A} (ha : s.pos a ≠ .idle) :
    ∃ b fs s', Run (atomicLockStep A tries obj) s fs s' ∧ Locked.Completes b fs := by
  have hdoes : ∀ d o r d', Locked.Does obj d o r d' → total call d o = some (r, d') := by
    intro d o r d' hd
    obtain ⟨rfl, rfl⟩ := (hcall d o).unique hd
    rfl
  obtain ⟨d', -, hinv⟩ := Locked.exists_run_returned hdoes h inv_atomicLockBoot
  exact Locked.exists_completion (fun o => ⟨_, _, hcall d' o⟩) hinv ha

end Guarded

/-! ### A counter that is loaded and stored -/

/-- `counter++` on a counter of its own, as a load and a store: before the load, or with what was loaded. -/
def plainIncrement : Locked.Object U32 Bool U32 (Option U32) where
  start _ := none
  access
    | none, d => some (.inl (some d), d)
    | some v, _ => some (.inr (v + 1), v + 1)

def incremented (d : U32) (_ : Bool) : U32 × U32 := (d + 1, d + 1)

theorem does_plainIncrement (d : U32) (o : Bool) :
    Locked.Does plainIncrement d o (incremented d o).1 (incremented d o).2 :=
  (Locked.Path.single (l := none) rfl).snoc rfl

theorem total_incremented (d : U32) (o : Bool) (r d' : U32) (h : Locked.Does plainIncrement d o r d') :
    total incremented d o = some (r, d') := by
  obtain ⟨rfl, rfl⟩ := (does_plainIncrement d o).unique h
  rfl

/-- One CPU increments, one spins, and the third tries and gives up. -/
def incrementRace {A : Type} (a b c : A) : List (Locked.Op A Bool × Locked.Ret Bool U32) :=
  [(.call a false, .none), (.call b false, .none), (.step a, .none), (.step b, .none), (.call c true, .none),
    (.step c, .refused true), (.step a, .none), (.step a, .none), (.step a, .returned false 1), (.step b, .none),
    (.step b, .none)]

theorem exists_incrementRace : ∃ s, Run (atomicLockStep (Fin 3) id plainIncrement) (atomicLockBoot _ _ _ _ 0)
    (incrementRace 0 1 2) s ∧ s.pos 1 = .inside false none :=
  ⟨_, .cons rfl (.cons rfl (.cons rfl (.cons rfl (.cons rfl (.cons rfl (.cons rfl (.cons rfl (.cons rfl
    (.cons rfl (.cons rfl (.nil _))))))))))), rfl⟩

theorem atomicSpinlock_calls_race : ∃ s, Run (atomicLockStep (Fin 3) id plainIncrement) (atomicLockBoot _ _ _ _ 0)
    (incrementRace 0 1 2) s ∧ (∀ a b, (s.pos a).Holds → (s.pos b).Holds → a = b) ∧
    (atomicSpinlockIsLocked s.word = 1 ↔ ∃ a, (s.pos a).Holds) ∧
    ∃ d', Run (total incremented) 0 (Locked.returned (incrementRace 0 1 2)) d' ∧
      ((∀ a, ¬(s.pos a).Holds) → s.data = d') := by
  obtain ⟨s, h, -⟩ := exists_incrementRace
  exact ⟨s, h, atomicSpinlock_calls total_incremented h⟩

theorem atomicSpinlock_completes_race : ∃ s, Run (atomicLockStep (Fin 3) id plainIncrement)
    (atomicLockBoot _ _ _ _ 0) (incrementRace 0 1 2) s ∧
    ∃ b fs s', Run (atomicLockStep (Fin 3) id plainIncrement) s fs s' ∧ Locked.Completes b fs := by
  obtain ⟨s, h, hpos⟩ := exists_incrementRace
  have ha : s.pos 1 ≠ .idle := by
    rw [hpos]
    exact fun hidle => nomatch hidle
  exact ⟨s, h, atomicSpinlock_completes does_plainIncrement h ha⟩

end BloodKernel
