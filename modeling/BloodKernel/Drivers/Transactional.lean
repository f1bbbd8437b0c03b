import BloodKernel.Kernel.Types

set_option autoImplicit false

/-!
# Hardware transactions

`drivers/hw_transactional.c` runs a function in a transaction of the processor, again after an abort that it takes
to be worth it, and a fallback function when it gives up. The retry policy that it is given only decides whether it
pauses before the next attempt.

* `Cpu`: what the processor answers; `State`: memory, open transactions and the driver.
* `hwTransactionalBegin`, `hwTransactionalEnd`, `hwTransactionalShouldRetry`, `hwTransactionalExecute`,
  `hwTransactionalExecuteWithFallback`: the functions. A division by zero has no result.
* `begin_of_aborted`, `executeLoop_ended`: one attempt, and the loop.
* **`execute_meets_iff`**: a call that returns 1 keeps to the policy exactly when the aborts are such that the driver
  does not try again.
-/

namespace BloodKernel.Transactional

/-! ### The processor and the driver -/

/-- The status after each `xbegin`, and the values of the time stamp counter. -/
structure Cpu where
  status : ℕ → U32
  tsc : ℕ → BitVec 64

/-- `tsx_stats_t`, without the fields that these functions do not use. -/
structure Stats where
  totalAttempts : U32
  successfulCommits : U32
  explicitAborts : U32
  retryAborts : U32
  conflictAborts : U32
  capacityAborts : U32
  debugAborts : U32
  nestedAborts : U32
  fallbackExecutions : U32
  totalTxCycles : BitVec 64
  totalFallbackCycles : BitVec 64
  avgTxCycles : U32
  avgFallbackCycles : U32

/-- `tsx_context_t` -/
structure Context where
  nestLevel : U8
  startCycles : U32
  abortCode : U32
  retryCount : U8
  retryPolicy : U8
  forceFallback : U8

/-- The memory as the processor sees it, the number of its open transactions, the numbers of `xbegin`, `rdtsc` and
`pause` executed so far, and the variables of the driver. -/
structure State (σ : Type) where
  mem : σ
  opened : ℕ
  begun : ℕ
  ticks : ℕ
  pauses : ℕ
  capabilities : U32
  forceFallback : U8
  stats : Stats
  globalCtx : Context

/-- `RTM_STARTED` -/
def rtmStarted : U32 := 0xFFFFFFFF

/-- `TX_STATUS_UNSUPPORTED` -/
def txStatusUnsupported : U32 := 7

/-- `TX_RETRY_NEVER` -/
def txRetryNever : U8 := 0

/-- `TX_RETRY_ONCE` -/
def txRetryOnce : U8 := 1

/-- `TX_RETRY_ADAPTIVE` -/
def txRetryAdaptive : U8 := 2

section Functions

variable {σ : Type}

/-- `hw_transactional_has_rtm`: `TSX_CAP_RTM` is bit 0. -/
def State.hasRtm (s : State σ) : Prop := s.capabilities &&& bit 0 ≠ 0

instance decidableHasRtm (s : State σ) : Decidable s.hasRtm := inferInstanceAs (Decidable (_ ≠ _))

/-- Transactions are tried. -/
def State.enabled (s : State σ) : Prop := s.hasRtm ∧ s.forceFallback = 0

instance decidableEnabled (s : State σ) : Decidable s.enabled := inferInstanceAs (Decidable (_ ∧ _))

/-- One more, if a bit of the status is set. -/
def countIf (status : U32) (i : ℕ) (n : U32) : U32 := if status &&& bit i ≠ 0 then n + 1 else n

def Stats.countAborts (t : Stats) (status : U32) : Stats :=
  { t with
    explicitAborts := countIf status 0 t.explicitAborts
    retryAborts := countIf status 1 t.retryAborts
    conflictAborts := countIf status 2 t.conflictAborts
    capacityAborts := countIf status 3 t.capacityAborts
    debugAborts := countIf status 4 t.debugAborts
    nestedAborts := countIf status 5 t.nestedAborts }

/-- `(u32)rdtsc() - global_ctx.start_cycles`, added up. -/
def Stats.addCycles (t : Stats) (now : BitVec 64) (start : U32) : Stats :=
  { t with totalTxCycles := t.totalTxCycles + (now.setWidth 32 - start).setWidth 64 }

variable (cpu : Cpu)

/-- The source does not set `eax` before `xbegin`, which leaves it alone when a transaction starts: the status
is taken to be `RTM_STARTED` then, and that of the abort otherwise. -/
def hwTransactionalBegin (s : State σ) : U32 × State σ :=
  if ¬s.enabled then (txStatusUnsupported, s)
  else
    let status := cpu.status s.begun
    let now := cpu.tsc s.ticks
    let stats := { s.stats with totalAttempts := s.stats.totalAttempts + 1 }
    let s := { s with begun := s.begun + 1, ticks := s.ticks + 1 }
    if status = rtmStarted then
      let ctx := { s.globalCtx with nestLevel := s.globalCtx.nestLevel + 1, startCycles := now.setWidth 32 }
      (rtmStarted, { s with opened := s.opened + 1, stats := stats, globalCtx := ctx })
    else
      let stats := (stats.addCycles now s.globalCtx.startCycles).countAborts status
      (status, { s with stats := stats, globalCtx := { s.globalCtx with abortCode := status } })

/-- The counters after the outermost transaction has ended. The average is a division. -/
def Stats.committed (t : Stats) (now : BitVec 64) (start : U32) : Option Stats :=
  let t := { t with successfulCommits := t.successfulCommits + 1 }.addCycles now start
  if t.successfulCommits = 0 then none
  else some { t with avgTxCycles := (t.totalTxCycles / t.successfulCommits.setWidth 64).setWidth 32 }

/-- `xend` outside of a transaction is a fault. -/
def hwTransactionalEnd (s : State σ) : Option (State σ) :=
  if ¬s.hasRtm ∨ s.globalCtx.nestLevel = 0 then some s
  else if s.opened = 0 then none
  else
    let ctx := { s.globalCtx with nestLevel := s.globalCtx.nestLevel - 1 }
    let t := { s with opened := s.opened - 1, globalCtx := ctx }
    if ctx.nestLevel = 0 then
      (s.stats.committed (cpu.tsc s.ticks) ctx.startCycles).map fun stats =>
        { t with stats := stats, ticks := s.ticks + 1 }
    else some t

def hwTransactionalShouldRetry (abortCode retryCount : U32) : U8 :=
  if abortCode &&& bit 0 ≠ 0 then 0
  else if abortCode &&& bit 1 ≠ 0 then 1
  else if abortCode &&& bit 2 ≠ 0 then if retryCount < 8 then 1 else 0
  else if abortCode &&& (bit 3 ||| bit 4) ≠ 0 then 0
  else if retryCount < 3 then 1 else 0

/-- The pauses before the next attempt, `1 << retry_count` of them. -/
def backoff (policy : U8) (retryCount : U32) (s : State σ) : State σ :=
  if policy = txRetryAdaptive then { s with pauses := s.pauses + 2 ^ (retryCount.toNat % 32) } else s

/-- `tsx_stats.fallback_executions++` -/
def State.countFallback (s : State σ) : State σ :=
  { s with stats := { s.stats with fallbackExecutions := s.stats.fallbackExecutions + 1 } }

/-- The loop of `hw_transactional_execute`. -/
def executeLoop (f : σ → σ) (policy : U8) (maxRetries : U32) : ℕ → U32 → State σ → Option (U8 × State σ)
  | 0, _, _ => none
  | fuel + 1, retryCount, s =>
      if retryCount ≤ maxRetries then
        let r := hwTransactionalBegin cpu s
        if r.1 = rtmStarted then
          (hwTransactionalEnd cpu { r.2 with mem := f r.2.mem }).map fun s => (1, s)
        else if hwTransactionalShouldRetry r.1 retryCount = 0 then some (0, r.2.countFallback)
        else executeLoop f policy maxRetries fuel (retryCount + 1) (backoff policy (retryCount + 1) r.2)
      else some (0, s.countFallback)

def hwTransactionalExecute (f : Option (σ → σ)) (policy : U8) (maxRetries : U32) (fuel : ℕ) (s : State σ) :
    Option (U8 × State σ) :=
  match f with
  | none => some (0, s)
  | some f => executeLoop cpu f policy maxRetries fuel 0 s

/-- The counters after a fallback function. The average is a division. -/
def Stats.fellBack (t : Stats) (start now : BitVec 64) : Option Stats :=
  let total := t.totalFallbackCycles + ((now - start).setWidth 32).setWidth 64
  if t.fallbackExecutions = 0 then none
  else
    some { t with
           totalFallbackCycles := total
           avgFallbackCycles := (total / t.fallbackExecutions.setWidth 64).setWidth 32 }

def hwTransactionalExecuteWithFallback (f g : Option (σ → σ)) (policy : U8) (maxRetries : U32) (fuel : ℕ)
    (s : State σ) : Option (U8 × State σ) :=
  let start := cpu.tsc s.ticks
  (hwTransactionalExecute cpu f policy maxRetries fuel { s with ticks := s.ticks + 1 }).bind fun r =>
    if r.1 ≠ 0 then some (1, r.2)
    else
      match g with
      | none => some (0, r.2)
      | some g =>
          (r.2.stats.fellBack start (cpu.tsc r.2.ticks)).map fun stats =>
            (1, { r.2 with mem := g r.2.mem, stats := stats, ticks := r.2.ticks + 1 })

end Functions

/-! ### One attempt -/

section Attempts

variable {σ : Type} {cpu : Cpu} {s t s' : State σ} {f g : σ → σ} {policy r : U8} {maxRetries k : U32}
  {fuel : ℕ}

/-- What an attempt that is aborted leaves as it was. -/
structure Kept (s t : State σ) : Prop where
  mem : t.mem = s.mem
  opened : t.opened = s.opened
  capabilities : t.capabilities = s.capabilities
  forceFallback : t.forceFallback = s.forceFallback
  nestLevel : t.globalCtx.nestLevel = s.globalCtx.nestLevel

theorem Kept.enabled (h : Kept s t) (hs : s.enabled) : t.enabled := by
  unfold State.enabled State.hasRtm at hs ⊢
  rwa [h.capabilities, h.forceFallback]

theorem Kept.trans {u : State σ} (h : Kept s t) (h' : Kept t u) : Kept s u :=
  ⟨h'.mem.trans h.mem, h'.opened.trans h.opened, h'.capabilities.trans h.capabilities,
    h'.forceFallback.trans h.forceFallback, h'.nestLevel.trans h.nestLevel⟩

theorem kept_backoff (s : State σ) : Kept s (backoff policy k s) ∧ (backoff policy k s).begun = s.begun := by
  unfold backoff
  split_ifs <;> exact ⟨⟨rfl, rfl, rfl, rfl, rfl⟩, rfl⟩

theorem kept_countFallback (s : State σ) : Kept s s.countFallback :=
  ⟨rfl, rfl, rfl, rfl, rfl⟩

/-- **An attempt that is aborted.** -/
theorem begin_of_aborted (hs : s.enabled) (h : cpu.status s.begun ≠ rtmStarted) :
    (hwTransactionalBegin cpu s).1 = cpu.status s.begun ∧ Kept s (hwTransactionalBegin cpu s).2 ∧
      (hwTransactionalBegin cpu s).2.begun = s.begun + 1 := by
  unfold hwTransactionalBegin
  rw [if_neg (not_not.mpr hs)]
  dsimp only
  rw [if_neg h]
  exact ⟨rfl, ⟨rfl, rfl, rfl, rfl, rfl⟩, rfl⟩

/-- From `s` to `t` a transaction has been begun. -/
structure Begun (s t : State σ) : Prop where
  mem : t.mem = s.mem
  opened : t.opened = s.opened + 1
  begun : t.begun = s.begun + 1
  capabilities : t.capabilities = s.capabilities
  nestLevel : t.globalCtx.nestLevel = s.globalCtx.nestLevel + 1

/-- **An attempt that is not.** -/
theorem begin_of_started (hs : s.enabled) (h : cpu.status s.begun = rtmStarted) :
    (hwTransactionalBegin cpu s).1 = rtmStarted ∧ Begun s (hwTransactionalBegin cpu s).2 := by
  unfold hwTransactionalBegin
  rw [if_neg (not_not.mpr hs)]
  dsimp only
  rw [if_pos h]
  exact ⟨rfl, ⟨rfl, rfl, rfl, rfl, rfl⟩⟩

/-- **The end of a transaction**: it is closed, unless the nesting level is zero. -/
theorem end_spec (h : hwTransactionalEnd cpu s = some t) : t.mem = s.mem ∧ t.begun = s.begun ∧
    (s.hasRtm → t.opened = if s.globalCtx.nestLevel = 0 then s.opened else s.opened - 1) := by
  unfold hwTransactionalEnd at h
  dsimp only at h
  split_ifs at h with hnone hclosed hzero
  · obtain rfl := Option.some_inj.mp h
    exact ⟨rfl, rfl, fun hs => (if_pos (hnone.resolve_left (not_not.mpr hs))).symm⟩
  · obtain ⟨stats, -, rfl⟩ := Option.map_eq_some_iff.mp h
    exact ⟨rfl, rfl, fun _ => (if_neg fun h0 => hnone (.inr h0)).symm⟩
  · obtain rfl := Option.some_inj.mp h
    exact ⟨rfl, rfl, fun _ => (if_neg fun h0 => hnone (.inr h0)).symm⟩

/-! ### The loop -/

/-- After attempt `n` of a call, counted from zero, another one is made, if there may be one. -/
def Retried (cpu : Cpu) (s : State σ) (n : ℕ) : Prop :=
  hwTransactionalShouldRetry (cpu.status (s.begun + n)) (BitVec.ofNat 32 n) ≠ 0

/-- The attempts before attempt `n` are all followed by another one. -/
def Reached (cpu : Cpu) (s : State σ) (n : ℕ) : Prop := ∀ j < n, Retried cpu s j

/-- The effects of an execution whose last attempt was attempt `n`. -/
structure Ended (cpu : Cpu) (f : σ → σ) (maxRetries : U32) (s : State σ) (n : ℕ) (r : U8) (s' : State σ) :
    Prop where
  le : n ≤ maxRetries.toNat
  reached : Reached cpu s n
  last : ¬Retried cpu s n ∨ n = maxRetries.toNat
  begun : s'.begun = s.begun + (n + 1)
  started : cpu.status (s.begun + n) = rtmStarted → r = 1 ∧ s'.mem = f s.mem ∧
    s'.opened = if s.globalCtx.nestLevel = 255 then s.opened + 1 else s.opened
  aborted : cpu.status (s.begun + n) ≠ rtmStarted → r = 0 ∧ s'.mem = s.mem ∧ s'.opened = s.opened

theorem not_retried_of_started {n : ℕ} (h : cpu.status (s.begun + n) = rtmStarted) : ¬Retried cpu s n := by
  unfold Retried
  rw [h]
  unfold hwTransactionalShouldRetry
  rw [if_pos (by decide)]
  exact not_not.mpr rfl

theorem succ_eq_zero_iff : ∀ n : U8, n + 1 = 0 ↔ n = 255 := by
  decide

section Last

variable {n : ℕ} (hkept : Kept s t) (hbegun : t.begun = s.begun + n) (hle : n ≤ maxRetries.toNat)
  (hreached : Reached cpu s n)

include hkept hbegun hle hreached

theorem ended_of_started (ht : t.enabled) (hstarted : cpu.status t.begun = rtmStarted)
    (h : hwTransactionalEnd cpu { (hwTransactionalBegin cpu t).2 with mem := f (hwTransactionalBegin cpu t).2.mem } =
      some s') : Ended cpu f maxRetries s n 1 s' := by
  obtain ⟨-, hbegan⟩ := begin_of_started ht hstarted
  have hrtm : (hwTransactionalBegin cpu t).2.hasRtm := by
    unfold State.hasRtm
    rw [hbegan.capabilities]
    exact ht.1
  obtain ⟨hmem, hcount, hclosed⟩ := end_spec h
  have hopened := hclosed hrtm
  dsimp only at hmem hcount hopened
  rw [hbegun] at hstarted
  refine ⟨hle, hreached, .inl (not_retried_of_started hstarted), ?_, fun _ => ⟨rfl, ?_, ?_⟩,
    fun hne => absurd hstarted hne⟩
  · rw [hcount, ← Nat.add_assoc, ← hbegun]
    exact hbegan.begun
  · rw [hmem, hbegan.mem, hkept.mem]
  · rw [hopened, hbegan.nestLevel, hbegan.opened, hkept.nestLevel, hkept.opened]
    exact if_congr (succ_eq_zero_iff _) rfl (Nat.add_sub_cancel _ _)

theorem ended_of_refused (ht : t.enabled) (haborted : cpu.status t.begun ≠ rtmStarted) (hlast : ¬Retried cpu s n) :
    Ended cpu f maxRetries s n 0 (hwTransactionalBegin cpu t).2.countFallback := by
  obtain ⟨-, hkept', hbegun'⟩ := begin_of_aborted ht haborted
  have hall := hkept.trans (hkept'.trans (kept_countFallback _))
  rw [hbegun] at haborted
  refine ⟨hle, hreached, .inl hlast, ?_, fun he => absurd he haborted, fun _ => ⟨rfl, hall.mem, hall.opened⟩⟩
  show (hwTransactionalBegin cpu t).2.begun = _
  rw [hbegun', hbegun, Nat.add_assoc]

end Last

theorem ended_of_exhausted (hkept : Kept s t) (hbegun : t.begun = s.begun + (maxRetries.toNat + 1))
    (hreached : Reached cpu s (maxRetries.toNat + 1)) :
    Ended cpu f maxRetries s maxRetries.toNat 0 t.countFallback := by
  have hretried := hreached maxRetries.toNat (Nat.lt_succ_self _)
  have hall := hkept.trans (kept_countFallback t)
  exact ⟨le_rfl, fun j hj => hreached j (Nat.lt_succ_of_lt hj), .inr rfl, hbegun,
    fun he => absurd hretried (not_retried_of_started he), fun _ => ⟨rfl, hall.mem, hall.opened⟩⟩

theorem Reached.succ {n : ℕ} (h : Reached cpu s n) (hn : Retried cpu s n) : Reached cpu s (n + 1) := by
  intro j hj
  rcases Nat.lt_succ_iff_lt_or_eq.mp hj with hj | rfl
  · exact h j hj
  · exact hn

/-- **The loop**, from attempt `k` on. -/
theorem executeLoop_ended (hs : s.enabled) (hmax : maxRetries.toNat < 2 ^ 32 - 1) : ∀ (fuel : ℕ) (k : U32)
    (t : State σ), Kept s t → t.begun = s.begun + k.toNat → k.toNat ≤ maxRetries.toNat + 1 →
      Reached cpu s k.toNat → executeLoop cpu f policy maxRetries fuel k t = some (r, s') →
        ∃ n, Ended cpu f maxRetries s n r s' := by
  intro fuel
  induction fuel with
  | zero => exact fun k t _ _ _ _ h => by cases h
  | succ fuel ih =>
      intro k t hkept hbegun hk hreached h
      have ht := hkept.enabled hs
      unfold executeLoop at h
      dsimp only at h
      by_cases hle : k ≤ maxRetries
      · have hkmax : k.toNat ≤ maxRetries.toNat := hle
        rw [if_pos hle] at h
        by_cases hstarted : cpu.status t.begun = rtmStarted
        · rw [if_pos (begin_of_started ht hstarted).1] at h
          obtain ⟨u, hend, hu⟩ := Option.map_eq_some_iff.mp h
          obtain ⟨rfl, rfl⟩ := Prod.mk.inj hu
          exact ⟨_, ended_of_started hkept hbegun hkmax hreached ht hstarted hend⟩
        · obtain ⟨hstatus, hkept', hbegun'⟩ := begin_of_aborted ht hstarted
          rw [hstatus, if_neg hstarted] at h
          have hretried : hwTransactionalShouldRetry (cpu.status t.begun) k ≠ 0 ↔ Retried cpu s k.toNat := by
            unfold Retried
            rw [hbegun, BitVec.ofNat_toNat, BitVec.setWidth_eq]
          by_cases hretry : hwTransactionalShouldRetry (cpu.status t.begun) k = 0
          · rw [if_pos hretry] at h
            obtain ⟨rfl, rfl⟩ := Prod.mk.inj (Option.some_inj.mp h)
            exact ⟨_, ended_of_refused hkept hbegun hkmax hreached ht hstarted fun hr => hretried.mpr hr hretry⟩
          · rw [if_neg hretry] at h
            have hone : (1 : U32).toNat = 1 := rfl
            have hnext : (k + 1).toNat = k.toNat + 1 := by
              rw [BitVec.toNat_add, hone]
              omega
            obtain ⟨hpause, hpausebegun⟩ := @kept_backoff σ policy (k + 1) (hwTransactionalBegin cpu t).2
            refine ih (k + 1) _ (hkept.trans (hkept'.trans hpause)) ?_ (by omega) ?_ h
            · rw [hpausebegun, hbegun', hbegun, hnext, Nat.add_assoc]
            · rw [hnext]
              exact hreached.succ (hretried.mp hretry)
      · rw [if_neg hle] at h
        obtain ⟨rfl, rfl⟩ := Prod.mk.inj (Option.some_inj.mp h)
        have hlast : k.toNat = maxRetries.toNat + 1 := by
          rw [BitVec.not_le, BitVec.lt_def] at hle
          omega
        rw [hlast] at hreached hbegun
        exact ⟨_, ended_of_exhausted hkept hbegun hreached⟩

/-! ### The call -/

/-- A transaction of the call is begun and not aborted. -/
def Starts (cpu : Cpu) (s : State σ) (maxRetries : U32) : Prop :=
  ∃ n ≤ maxRetries.toNat, Reached cpu s n ∧ cpu.status (s.begun + n) = rtmStarted

theorem Ended.starts_iff {n : ℕ} (h : Ended cpu f maxRetries s n r s') :
    Starts cpu s maxRetries ↔ cpu.status (s.begun + n) = rtmStarted := by
  constructor
  · rintro ⟨m, hm, hreached, hstarted⟩
    have hnm : n ≤ m := Nat.not_lt.mp fun hlt => not_retried_of_started hstarted (h.reached m hlt)
    have hmn : m ≤ n := by
      rcases h.last with hlast | hlast
      · exact Nat.not_lt.mp fun hlt => hlast (hreached n hlt)
      · exact hlast.symm ▸ hm
    rwa [Nat.le_antisymm hnm hmn]
  · exact fun hstarted => ⟨n, h.le, h.reached, hstarted⟩

/-- The memory is as after exactly one of the two functions, run once, no transaction of the call is left open, and
no more of them have been begun than the number of retries and the policy allow. -/
structure Meets (f g : σ → σ) (policy : U8) (maxRetries : U32) (s s' : State σ) : Prop where
  once : s'.mem = f s.mem ∨ s'.mem = g s.mem
  closed : s'.opened = s.opened
  bounded : s'.begun ≤ s.begun + (maxRetries.toNat + 1)
  never : policy = txRetryNever → s'.begun ≤ s.begun + 1
  retryOnce : policy = txRetryOnce → s'.begun ≤ s.begun + 2

/-- The aborts are such that the driver makes no more attempts than the policy allows; and the nesting level, of 8
bits, does not wrap in a transaction. -/
structure StaysWithin (cpu : Cpu) (policy : U8) (maxRetries : U32) (s : State σ) : Prop where
  never : policy = txRetryNever → maxRetries.toNat = 0 ∨ ¬Retried cpu s 0
  retryOnce : policy = txRetryOnce → maxRetries.toNat ≤ 1 ∨ ¬Retried cpu s 0 ∨ ¬Retried cpu s 1
  nested : s.globalCtx.nestLevel = 255 → ¬Starts cpu s maxRetries

theorem Ended.lt_iff {n m : ℕ} (h : Ended cpu f maxRetries s n r s') :
    n < m ↔ maxRetries.toNat < m ∨ ∃ j < m, ¬Retried cpu s j := by
  constructor
  · intro hlt
    rcases h.last with hlast | rfl
    · exact .inr ⟨n, hlt, hlast⟩
    · exact .inl hlt
  · rintro (hlt | ⟨j, hj, hlast⟩)
    · exact h.le.trans_lt hlt
    · exact (Nat.not_lt.mp fun hlt => hlast (h.reached j hlt)).trans_lt hj

theorem executeLoop_of_not_enabled (hs : ¬s.enabled)
    (h : executeLoop cpu f policy maxRetries fuel 0 s = some (r, s')) : r = 0 ∧ s' = s.countFallback := by
  cases fuel with
  | zero => cases h
  | succ fuel =>
      have hbegin : hwTransactionalBegin cpu s = (txStatusUnsupported, s) := if_pos hs
      have hretry : hwTransactionalShouldRetry txStatusUnsupported 0 = 0 := by decide
      have hzero : (0 : U32) ≤ maxRetries := Nat.zero_le _
      unfold executeLoop at h
      rw [if_pos hzero, hbegin] at h
      dsimp only at h
      rw [if_neg (by decide), if_pos hretry] at h
      obtain ⟨rfl, rfl⟩ := Prod.mk.inj (Option.some_inj.mp h)
      exact ⟨rfl, rfl⟩

theorem executeWithFallback_cases
    (h : hwTransactionalExecuteWithFallback cpu (some f) (some g) policy maxRetries fuel s = some (1, s')) :
    ∃ r u, executeLoop cpu f policy maxRetries fuel 0 { s with ticks := s.ticks + 1 } = some (r, u) ∧
      s'.opened = u.opened ∧ s'.begun = u.begun ∧ s'.mem = if r = 0 then g u.mem else u.mem := by
  unfold hwTransactionalExecuteWithFallback at h
  obtain ⟨⟨r, u⟩, hloop, hrest⟩ := Option.bind_eq_some_iff.mp h
  refine ⟨r, u, hloop, ?_⟩
  dsimp only at hrest
  by_cases hr : r = 0
  · rw [if_neg (not_not.mpr hr)] at hrest
    obtain ⟨stats, -, hu⟩ := Option.map_eq_some_iff.mp hrest
    obtain ⟨-, rfl⟩ := Prod.mk.inj hu
    exact ⟨rfl, rfl, (if_pos hr).symm⟩
  · rw [if_pos hr] at hrest
    obtain ⟨-, rfl⟩ := Prod.mk.inj (Option.some_inj.mp hrest)
    exact ⟨rfl, rfl, (if_neg hr).symm⟩

theorem Ended.begun_le_iff {n m : ℕ} (h : Ended cpu f maxRetries s n r s') :
    s'.begun ≤ s.begun + m ↔ maxRetries.toNat < m ∨ ∃ j < m, ¬Retried cpu s j := by
  rw [← h.lt_iff, h.begun]
  omega

/-- The transaction of the call is closed, unless the nesting level wraps. -/
theorem Ended.opened_eq_iff {n : ℕ} (h : Ended cpu f maxRetries s n r s') :
    s'.opened = s.opened ↔ (s.globalCtx.nestLevel = 255 → ¬Starts cpu s maxRetries) := by
  rw [h.starts_iff]
  by_cases hstarted : cpu.status (s.begun + n) = rtmStarted
  · obtain ⟨-, -, hu⟩ := h.started hstarted
    rw [hu]
    split_ifs with hnest
    · exact iff_of_false (Nat.succ_ne_self _) fun hno => hno hnest hstarted
    · exact iff_of_true rfl fun hnest' => absurd hnest' hnest
  · obtain ⟨-, -, hu⟩ := h.aborted hstarted
    exact iff_of_true hu fun _ => hstarted

theorem Ended.mem_eq {n : ℕ} (h : Ended cpu f maxRetries s n r s') :
    (if r = 0 then g s'.mem else s'.mem) = f s.mem ∨ (if r = 0 then g s'.mem else s'.mem) = g s.mem := by
  by_cases hstarted : cpu.status (s.begun + n) = rtmStarted
  · obtain ⟨rfl, hu, -⟩ := h.started hstarted
    rw [if_neg (by decide)]
    exact .inl hu
  · obtain ⟨rfl, hu, -⟩ := h.aborted hstarted
    rw [if_pos rfl]
    exact .inr (congrArg g hu)

/-- **An execution, and what the call adds to it**: when it meets what is wanted. -/
theorem Ended.meets_iff {n : ℕ} {u : State σ} (h : Ended cpu f maxRetries s n r u) (hopened : s'.opened = u.opened)
    (hbegun : s'.begun = u.begun) (hmem : s'.mem = if r = 0 then g u.mem else u.mem) :
    Meets f g policy maxRetries s s' ↔ StaysWithin cpu policy maxRetries s := by
  have honce : s'.mem = f s.mem ∨ s'.mem = g s.mem := by
    rw [hmem]
    exact h.mem_eq
  have hclosed : s'.opened = s.opened ↔ (s.globalCtx.nestLevel = 255 → ¬Starts cpu s maxRetries) := by
    rw [hopened]
    exact h.opened_eq_iff
  have hnever : s'.begun ≤ s.begun + 1 ↔ maxRetries.toNat = 0 ∨ ¬Retried cpu s 0 := by
    rw [hbegun, h.begun_le_iff, Nat.lt_one_iff]
    simp only [Nat.lt_one_iff, exists_eq_left]
  have htwice : s'.begun ≤ s.begun + 2 ↔ maxRetries.toNat ≤ 1 ∨ ¬Retried cpu s 0 ∨ ¬Retried cpu s 1 := by
    rw [hbegun, h.begun_le_iff, Nat.lt_succ_iff]
    simp only [Nat.exists_lt_succ_right, Nat.not_lt_zero, false_and, exists_false, false_or]
  have hbounded : s'.begun ≤ s.begun + (maxRetries.toNat + 1) := by
    rw [hbegun, h.begun_le_iff]
    exact .inl (Nat.lt_succ_self _)
  constructor
  · intro hm
    exact ⟨fun hp => hnever.mp (hm.never hp), fun hp => htwice.mp (hm.retryOnce hp), hclosed.mp hm.closed⟩
  · intro hw
    exact ⟨honce, hclosed.mpr hw.nested, hbounded, fun hp => hnever.mpr (hw.never hp),
      fun hp => htwice.mpr (hw.retryOnce hp)⟩

/-- **Exactness.** A call that returns 1 has made the effect of exactly one of the functions visible, once, with no
more transactions than the policy and the number of retries allow, exactly when the aborts do not lead the driver to
another attempt. -/
theorem execute_meets_iff (cpu : Cpu) (f g : σ → σ) (policy : U8) (maxRetries : U32) (fuel : ℕ) (s s' : State σ)
    (hmax : maxRetries.toNat < 2 ^ 32 - 1)
    (h : hwTransactionalExecuteWithFallback cpu (some f) (some g) policy maxRetries fuel s = some (1, s')) :
    Meets f g policy maxRetries s s' ↔ (s.enabled → StaysWithin cpu policy maxRetries s) := by
  obtain ⟨r, u, hloop, hopened, hbegun, hmem⟩ := executeWithFallback_cases h
  by_cases hs : s.enabled
  · obtain ⟨n, hn⟩ := executeLoop_ended hs hmax fuel 0 { s with ticks := s.ticks + 1 } ⟨rfl, rfl, rfl, rfl, rfl⟩ rfl
      (Nat.zero_le _) (fun j hj => absurd hj (Nat.not_lt_zero j)) hloop
    rw [hn.meets_iff hopened hbegun hmem]
    exact ⟨fun hw _ => hw, fun hw => hw hs⟩
  · obtain ⟨rfl, rfl⟩ := executeLoop_of_not_enabled (s := { s with ticks := s.ticks + 1 }) hs hloop
    rw [if_pos rfl] at hmem
    have hcount : s'.begun = s.begun := hbegun
    refine iff_of_true ⟨.inr hmem, hopened, ?_, fun _ => ?_, fun _ => ?_⟩ fun henabled => absurd henabled hs
    · exact hcount.trans_le (Nat.le_add_right _ _)
    · exact hcount.trans_le (Nat.le_add_right _ _)
    · exact hcount.trans_le (Nat.le_add_right _ _)

end Attempts

/-- A driver with RTM, before the first transaction. The memory is a number. -/
def idle : State ℕ where
  mem := 0
  opened := 0
  begun := 0
  ticks := 0
  pauses := 0
  capabilities := 1
  forceFallback := 0
  stats := ⟨0, 0, 0, 0, 0, 0, 0, 0, 0, 0, 0, 0, 0⟩
  globalCtx := ⟨0, 0, 0, 0, txRetryAdaptive, 0⟩

/-- A processor that aborts the first transaction with the given status. -/
def abortsFirst (status : U32) : Cpu := ⟨fun n => if n = 0 then status else rtmStarted, fun _ => 0⟩

/-- Both functions count up, by different numbers. -/
def call (status : U32) : Option (U8 × State ℕ) :=
  hwTransactionalExecuteWithFallback (abortsFirst status) (some (· + 1)) (some (· + 10)) txRetryNever 3 4 idle

/-- With an explicit abort, of which the driver makes no second attempt. -/
theorem meets_explicit : ∃ s', call 0x01 = some (1, s') ∧ Meets (· + 1) (· + 10) txRetryNever 3 idle s' := by
  refine ⟨_, rfl, (execute_meets_iff (abortsFirst 0x01) (· + 1) (· + 10) txRetryNever 3 4 idle _ (by decide) rfl).mpr
    fun _ => ⟨fun _ => .inr ?_, fun h => absurd h (by decide), fun h => absurd h (by decide)⟩⟩
  unfold Retried
  decide

/-- With one after which the processor advises to retry, there are two transactions under `TX_RETRY_NEVER`. -/
theorem not_meets_retry : ∃ s', call 0x02 = some (1, s') ∧ ¬Meets (· + 1) (· + 10) txRetryNever 3 idle s' :=
  ⟨_, rfl, fun h => absurd (h.never rfl) (by decide)⟩

end BloodKernel.Transactional
