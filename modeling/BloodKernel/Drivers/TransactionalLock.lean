import BloodKernel.Drivers.AtomicLock

set_option autoImplicit false

/-!
# Elided locks

The spin locks of `drivers/hw_transactional.c` with lock elision: `hw_transactional_hle_acquire`,
`hw_transactional_hle_try_acquire` and `hw_transactional_hle_xchg_acquire`, with their releases, one access to the
word at a time. The prefixes let a processor run the code between as a transaction, which takes effect as if the
exchange had been made. Without elision the functions return at once.

* `hleAttempt`, `hleRelease`: the accesses, by the capabilities of the driver; `hleWord`: with elision, a lock;
* **`hleSpinlock_guards_iff`**: the functions guard code exactly when the processor has elision.
-/

namespace BloodKernel

open Lib

/-! ### The functions -/

/-- `hw_transactional_has_hle`: `TSX_CAP_HLE` is bit 1. -/
def HasHle (capabilities : U32) : Prop := capabilities &&& bit 1 ≠ 0

instance decidableHasHle (capabilities : U32) : Decidable (HasHle capabilities) := inferInstanceAs (Decidable (_ ≠ _))

/-- The places before an access of the acquiring functions. -/
inductive HlePc
  /-- The `cmpxchg` of `hw_transactional_hle_acquire`. -/
  | acquire
  /-- The load in its inner loop. -/
  | spin
  /-- The `cmpxchg` of `hw_transactional_hle_try_acquire`. -/
  | tryAcquire
  /-- The `xchg` of `hw_transactional_hle_xchg_acquire`. -/
  | xchgAcquire
  /-- The load in its inner loop. -/
  | xchgSpin
  deriving DecidableEq

/-- The locked `cmpxchg` of 0 and 1: whether it is made, and the word. -/
def hleExchange (word : U32) : Bool × U32 := if word = 0 then (true, 1) else (false, word)

def hleElided : HlePc → U32 → Locked.Attempt HlePc × U32
  | .acquire, word =>
      let (success, word) := hleExchange word
      (if success then .acquired else .again .spin, word)
  | .spin, word => (.again (if word ≠ 0 then .spin else .acquire), word)
  | .tryAcquire, word =>
      let (success, word) := hleExchange word
      (if success then .acquired else .gaveUp, word)
  | .xchgAcquire, word => (if word = 0 then .acquired else .again .xchgSpin, 1)
  | .xchgSpin, word => (.again (if word ≠ 0 then .xchgSpin else .xchgAcquire), word)

/-- Without elision `hw_transactional_hle_try_acquire` returns 0, and the other two just return. -/
def hleAttempt (capabilities : U32) (pc : HlePc) (word : U32) : Locked.Attempt HlePc × U32 :=
  if HasHle capabilities then hleElided pc word
  else if pc = .tryAcquire then (.gaveUp, word)
  else (.acquired, word)

/-- `hw_transactional_hle_release` and `hw_transactional_hle_xchg_release`. -/
def hleRelease (capabilities word : U32) : U32 := if HasHle capabilities then 0 else word

def hleOps (capabilities : U32) : Locked.WordOps U32 HlePc := ⟨hleAttempt capabilities, hleRelease capabilities⟩

/-! ### The lock -/

variable {word word' : U32} {pc : HlePc} {t : Locked.Attempt HlePc} {capabilities : U32}

theorem hleExchange_held (h : word ≠ 0) : hleExchange word = (false, word) := if_neg h

/-- What an access leads to: only a word that is 0 is acquired, and any other access leaves it 0 or not 0. -/
theorem hleElided_eq (h : hleElided pc word = (t, word')) :
    t = .acquired ∧ word = 0 ∧ word' = 1 ∨ t ≠ .acquired ∧ (word' ≠ 0 ↔ word ≠ 0) := by
  by_cases h0 : word = 0
  · subst h0
    cases pc with
    | acquire | tryAcquire | xchgAcquire =>
        cases h
        exact Or.inl ⟨rfl, rfl, rfl⟩
    | spin | xchgSpin =>
        cases h
        exact Or.inr ⟨nofun, Iff.rfl⟩
  · refine Or.inr ?_
    cases pc with
    | acquire | tryAcquire =>
        rw [hleElided, hleExchange_held h0] at h
        cases h
        exact ⟨nofun, Iff.rfl⟩
    | xchgAcquire =>
        rw [hleElided, if_neg h0] at h
        cases h
        exact ⟨nofun, iff_of_true (by decide) h0⟩
    | spin | xchgSpin =>
        cases h
        exact ⟨nofun, Iff.rfl⟩

theorem hleElided_held (h : hleElided pc word = (t, word')) (ht : t ≠ .acquired) : word' ≠ 0 ↔ word ≠ 0 := by
  rcases hleElided_eq h with ⟨ht', -⟩ | ⟨-, hw⟩
  · exact absurd ht' ht
  · exact hw

def hleWord : Locked.SpinLock U32 HlePc where
  attempt := hleElided
  release _ := 0
  Held word := word ≠ 0
  free_of_acquired pc word word' h := by
    rcases hleElided_eq h with ⟨-, rfl, rfl⟩ | ⟨ht, -⟩
    · exact ⟨not_not.mpr rfl, by decide⟩
    · exact absurd rfl ht
  held_of_again _ _ _ _ h := hleElided_held h nofun
  held_of_gaveUp _ _ _ h := hleElided_held h nofun
  free_release _ := not_not.mpr rfl
  enters pc word h := by
    obtain rfl : word = 0 := not_not.mp h
    have hacquire : Locked.Enters hleElided .acquire 0 := .acquired rfl
    have hxchg : Locked.Enters hleElided .xchgAcquire 0 := .acquired rfl
    cases pc with
    | acquire => exact hacquire
    | spin => exact .again rfl hacquire
    | tryAcquire => exact .acquired rfl
    | xchgAcquire => exact hxchg
    | xchgSpin => exact .again rfl hxchg

theorem hleOps_eq (h : HasHle capabilities) : hleOps capabilities = hleWord.toWordOps := by
  have hattempt : hleAttempt capabilities = hleElided := by
    funext pc word
    exact if_pos h
  have hrelease : hleRelease capabilities = fun _ => 0 := by
    funext word
    exact if_pos h
  rw [hleOps, hattempt, hrelease]
  rfl

/-- Without elision the functions that wait go through. -/
theorem hleAttempt_of_not (h : ¬HasHle capabilities) (hpc : pc ≠ .tryAcquire) :
    hleAttempt capabilities pc word = (.acquired, word) := by
  rw [hleAttempt, if_neg h, if_neg hpc]

/-! ### The code between -/

/-- The three ways to acquire the lock. -/
inductive HleCall
  | acquire
  | tryAcquire
  | xchgAcquire
  deriving DecidableEq

def HleCall.entry : HleCall → HlePc
  | .acquire => .acquire
  | .tryAcquire => .tryAcquire
  | .xchgAcquire => .xchgAcquire

variable {A D O R L : Type} [DecidableEq A] {obj : Locked.Object D O R L} {how : O → HleCall} {d : D}

/-- One access of one CPU. -/
abbrev hleStep (A : Type) [DecidableEq A] (capabilities : U32) (how : O → HleCall) (obj : Locked.Object D O R L) :=
  Locked.step (A := A) (hleOps capabilities) (fun o => (how o).entry) obj

/-- After `hw_transactional_hle_spinlock_init`. -/
abbrev hleBoot (A : Type) (L R O : Type) (d : D) : Locked.State A U32 HlePc D O R L := Locked.boot 0 d

/-- Without elision two CPUs come between acquire and release. -/
theorem exists_two_holders {o : O} (ho : how o ≠ .tryAcquire) {a b : A} (hab : a ≠ b) (h : ¬HasHle capabilities) :
    ∃ es s, Run (hleStep A capabilities how obj) (hleBoot A L R O d) es s ∧ (s.pos a).Holds ∧ (s.pos b).Holds := by
  have hpc : (how o).entry ≠ .tryAcquire := by
    cases hhow : how o with
    | tryAcquire => exact absurd hhow ho
    | acquire | xchgAcquire => exact fun he => by cases he
  have henters : ∀ (s : Locked.State A U32 HlePc D O R L) (c : A), s.pos c = .idle → s.word = 0 →
      ∃ es t, Run (hleStep A capabilities how obj) s es t ∧ t.word = 0 ∧
        t.pos = Function.update s.pos c (.inside o (obj.start o)) := by
    intro s c hc hw
    have hcall : hleStep A capabilities how obj s (.call c o) = some (.none, s.move c (.locking o (how o).entry)) := by
      simp only [hleStep, Locked.step, hc]
    have hself : (s.move c (.locking o (how o).entry)).pos c = .locking o (how o).entry := Function.update_self _ _ _
    have hstep : hleStep A capabilities how obj (s.move c (.locking o (how o).entry)) (.step c) =
        some (.none, { (s.move c (.locking o (how o).entry)).move c (.inside o (obj.start o)) with
          word := s.word }) := by
      simp only [hleStep, Locked.step, hself, hleOps, hleAttempt_of_not h hpc]
      rfl
    exact ⟨_, _, .cons hcall (.cons hstep (.nil _)), hw, Function.update_idem _ _ _⟩
  obtain ⟨es, s, hs, hw, hpos⟩ := henters (hleBoot A L R O d) a rfl rfl
  have hb : s.pos b = .idle := by rw [hpos, Function.update_of_ne hab.symm]; rfl
  obtain ⟨fs, t, ht, -, hpos'⟩ := henters s b hb hw
  refine ⟨es ++ fs, t, hs.append ht, ?_, ?_⟩
  · rw [hpos', Function.update_of_ne hab, hpos, Function.update_self]
    exact Option.some_ne_none _
  · rw [hpos', Function.update_self]
    exact Option.some_ne_none _

/-- **Elided locks guard code exactly with elision.** Let the operations of an object run between the functions that
acquire and release the lock, at least one of them after an acquire that waits. In all interleavings of two or more
CPUs at most one CPU is between the two, and the operations take effect in the order of their releases, if and only
if the processor has elision: there is no other lock to fall back to. -/
theorem hleSpinlock_guards_iff {call : D → O → Option (R × D)}
    (hcall : ∀ d o r d', Locked.Does obj d o r d' → call d o = some (r, d')) {o : O} (ho : how o ≠ .tryAcquire)
    {a b : A} (hab : a ≠ b) :
    (∀ es s, Run (hleStep A capabilities how obj) (hleBoot A L R O d) es s →
      (∀ a b, (s.pos a).Holds → (s.pos b).Holds → a = b) ∧
      ∃ d', Run call d (Locked.returned es) d' ∧ ((∀ a, ¬(s.pos a).Holds) → s.data = d')) ↔
    HasHle capabilities := by
  constructor
  · intro h
    by_contra hnot
    obtain ⟨es, s, hs, ha, hb⟩ : ∃ es s, Run (hleStep A capabilities how obj) (hleBoot A L R O d) es s ∧
        (s.pos a).Holds ∧ (s.pos b).Holds := exists_two_holders ho hab hnot
    exact hab ((h es s hs).1 a b ha hb)
  · intro h es s hs
    rw [hleStep, hleOps_eq h] at hs
    have hboot : Locked.Inv hleWord obj (hleBoot A L R O d) d := Locked.inv_boot (fun h : (0 : U32) ≠ 0 => h rfl) d
    obtain ⟨d', hrun, hinv⟩ := Locked.exists_run_returned hcall hs hboot
    exact ⟨hinv.excl, d', hrun, hinv.free⟩

/-- How the two kinds of increments acquire the lock. -/
def incrementHow (tries : Bool) : HleCall := if tries then .tryAcquire else .xchgAcquire

/-- Two CPUs increment the counter. -/
theorem hleSpinlock_guards_iff_counter :
    (∀ es s, Run (hleStep (Fin 2) 2 incrementHow plainIncrement) (hleBoot _ _ _ _ 0) es s →
      (∀ a b, (s.pos a).Holds → (s.pos b).Holds → a = b) ∧
      ∃ d', Run (total incremented) 0 (Locked.returned es) d' ∧ ((∀ a, ¬(s.pos a).Holds) → s.data = d')) ↔
    HasHle 2 :=
  hleSpinlock_guards_iff total_incremented (o := false) (by decide) (a := 0) (b := 1)
    (by decide)

end BloodKernel
