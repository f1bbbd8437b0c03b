import BloodKernel.Drivers.Transactional
import BloodKernel.Lib.Run

set_option autoImplicit false

/-!
# Transaction contexts

The contexts of `drivers/hw_transactional.c`. A transaction that is begun through a context is counted in the nesting
level of the global one, while the end looks at that of the context.

* `hwTransactionalContextInit`, `hwTransactionalContextBegin`, `hwTransactionalContextEnd`: the functions.
* `Sys`, `step`: a context with its open transactions; `Tracks`: its nesting level tells how many there are.
* **`context_tracks_iff`**: it does throughout a run exactly when no transaction is ever begun.
-/

namespace BloodKernel.Transactional

open Lib

/-! ### The driver -/

def hwTransactionalContextInit (retryPolicy : U8) : Context := ⟨0, 0, 0, 0, retryPolicy, 0⟩

section Functions

variable {σ : Type} (cpu : Cpu)

def hwTransactionalContextBegin (ctx : Context) (s : State σ) : U8 × Context × State σ :=
  let r := hwTransactionalBegin cpu s
  if r.1 = rtmStarted then (1, ctx, r.2)
  else (0, { ctx with abortCode := r.1, retryCount := ctx.retryCount + 1 }, r.2)

def hwTransactionalContextEnd (ctx : Context) (s : State σ) : Option (U8 × Context × State σ) :=
  if ctx.nestLevel = 0 then some (0, ctx, s)
  else (hwTransactionalEnd cpu s).map fun s => (1, { ctx with retryCount := 0 }, s)

/-! ### Runs -/

inductive Op
  | contextBegin
  | contextEnd

/-- A context, the number of transactions that have been begun through it and not ended, and the driver. An abort
takes the run back to the begin, which then returns 0, so that the calls of a run are those that are not undone. -/
structure Sys (σ : Type) where
  ctx : Context
  active : ℕ
  driver : State σ

def step (x : Sys σ) : Op → Option (U8 × Sys σ)
  | .contextBegin =>
      let r := hwTransactionalContextBegin cpu x.ctx x.driver
      some (r.1, ⟨r.2.1, if r.1 = 1 then x.active + 1 else x.active, r.2.2⟩)
  | .contextEnd =>
      (hwTransactionalContextEnd cpu x.ctx x.driver).map fun r =>
        (r.1, ⟨r.2.1, if r.1 = 1 then x.active - 1 else x.active, r.2.2⟩)

/-- The nesting level of the context is the number of its open transactions; an end would return 1 and end one of
them if there are any, and 0 otherwise. -/
structure Tracks (x : Sys σ) : Prop where
  nestLevel : x.ctx.nestLevel.toNat = x.active
  ends : 0 < x.active → ∃ y, step cpu x .contextEnd = some (1, y) ∧ y.driver.opened + 1 = x.driver.opened
  refuses : x.active = 0 → ∃ y, step cpu x .contextEnd = some (0, y)

/-- The context is new. -/
def fresh (retryPolicy : U8) (s : State σ) : Sys σ := ⟨hwTransactionalContextInit retryPolicy, 0, s⟩

/-- A begin does not start a transaction: they are not tried, or the processor aborts it. -/
def NotStarted (x : Sys σ) (e : Op × U8) : Prop :=
  e.1 = .contextBegin → ¬x.driver.enabled ∨ cpu.status x.driver.begun ≠ rtmStarted

end Functions

variable {σ : Type} {cpu : Cpu} {x y : Sys σ} {s : State σ} {ctx : Context} {r : U8} {o : Op}

/-- **A begin** returns 1 exactly when the transaction is started, and leaves the nesting level as it is. -/
theorem contextBegin_spec (cpu : Cpu) (ctx : Context) (s : State σ) :
    ((hwTransactionalContextBegin cpu ctx s).1 = 1 ↔ s.enabled ∧ cpu.status s.begun = rtmStarted) ∧
      (hwTransactionalContextBegin cpu ctx s).2.1.nestLevel = ctx.nestLevel := by
  unfold hwTransactionalContextBegin
  dsimp only
  by_cases hs : s.enabled
  · by_cases hstarted : cpu.status s.begun = rtmStarted
    · rw [if_pos (begin_of_started hs hstarted).1]
      exact ⟨iff_of_true rfl ⟨hs, hstarted⟩, rfl⟩
    · rw [(begin_of_aborted hs hstarted).1, if_neg hstarted]
      exact ⟨iff_of_false (show (0 : U8) ≠ 1 by decide) fun h => hstarted h.2, rfl⟩
  · have hbegin : hwTransactionalBegin cpu s = (txStatusUnsupported, s) := if_pos hs
    rw [hbegin, if_neg (show txStatusUnsupported ≠ rtmStarted by decide)]
    exact ⟨iff_of_false (show (0 : U8) ≠ 1 by decide) fun h => hs h.1, rfl⟩

/-- **An end** at nesting level zero. -/
theorem step_end (h : x.ctx.nestLevel = 0) : step cpu x .contextEnd = some (0, x) := by
  unfold step hwTransactionalContextEnd
  dsimp only
  rw [if_pos h]
  rfl

/-- The nesting level of the context is never changed. -/
theorem nestLevel_step (h : x.ctx.nestLevel = 0) (hstep : step cpu x o = some (r, y)) : y.ctx.nestLevel = 0 := by
  cases o with
  | contextBegin =>
      obtain ⟨-, rfl⟩ := Prod.mk.inj (Option.some_inj.mp hstep)
      exact (contextBegin_spec cpu x.ctx x.driver).2.trans h
  | contextEnd =>
      rw [step_end h] at hstep
      obtain ⟨-, rfl⟩ := Prod.mk.inj (Option.some_inj.mp hstep)
      exact h

/-- At nesting level zero only a context without open transactions is tracked. -/
theorem tracks_iff (h : x.ctx.nestLevel = 0) : Tracks cpu x ↔ x.active = 0 := by
  have hzero : (0 : U8).toNat = 0 := rfl
  constructor
  · intro ht
    rw [← ht.nestLevel, h, hzero]
  · intro ho
    exact ⟨by rw [h, ho, hzero], fun hpos => absurd ho (Nat.pos_iff_ne_zero.mp hpos), fun _ => ⟨x, step_end h⟩⟩

/-- **One call.** -/
theorem tracks_step_iff (h : x.ctx.nestLevel = 0) (hx : Tracks cpu x) (hstep : step cpu x o = some (r, y)) :
    Tracks cpu y ↔ NotStarted cpu x (o, r) := by
  rw [tracks_iff h] at hx
  rw [tracks_iff (nestLevel_step h hstep)]
  cases o with
  | contextBegin =>
      obtain ⟨-, rfl⟩ := Prod.mk.inj (Option.some_inj.mp hstep)
      have hspec := (contextBegin_spec cpu x.ctx x.driver).1
      have hopen : (if (hwTransactionalContextBegin cpu x.ctx x.driver).1 = 1 then x.active + 1 else x.active) = 0 ↔
          ¬(hwTransactionalContextBegin cpu x.ctx x.driver).1 = 1 := by
        rw [hx]
        split_ifs with hone
        · exact iff_of_false (by decide) (not_not.mpr hone)
        · exact iff_of_true rfl hone
      refine hopen.trans ?_
      unfold NotStarted
      rw [hspec, not_and_or]
      exact ⟨fun hno _ => hno, fun hno => hno rfl⟩
  | contextEnd =>
      rw [step_end h] at hstep
      obtain ⟨-, rfl⟩ := Prod.mk.inj (Option.some_inj.mp hstep)
      exact iff_of_true hx fun he => by cases he

/-- **Exactness.** Throughout a run of calls on a new context its nesting level is the number of its open transactions,
and the ends return what they should, exactly when no begin of the run starts a transaction. -/
theorem context_tracks_iff (cpu : Cpu) (retryPolicy : U8) (s : State σ) {es : List (Op × U8)} {t : Sys σ}
    (h : Run (step cpu) (fresh retryPolicy s) es t) :
    Throughout (step cpu) (Tracks cpu) (fresh retryPolicy s) es ↔
      Along (step cpu) (NotStarted cpu) (fresh retryPolicy s) es :=
  h.throughout_iff_along (I := fun x => x.ctx.nestLevel = 0) (Q := Tracks cpu) (P := NotStarted cpu)
    (fun _ _ _ _ hx hstep => nestLevel_step hx hstep) (fun _ _ _ _ hx ht hstep => tracks_step_iff hx ht hstep) rfl
    ((tracks_iff rfl).mpr rfl)

/-- A begin that the processor aborts, and an end. -/
theorem tracks_aborted : Throughout (step (abortsFirst 0x08)) (Tracks (abortsFirst 0x08)) (fresh txRetryNever idle)
    [(.contextBegin, 0), (.contextEnd, 0)] := by
  refine (context_tracks_iff (abortsFirst 0x08) txRetryNever idle (.cons rfl (.cons rfl (.nil _)))).mpr ?_
  refine (along_cons rfl).mpr ⟨fun _ => .inr (by decide), (along_cons rfl).mpr ⟨fun h => ?_, along_nil _ _⟩⟩
  cases h

/-- A begin that succeeds: the end after it returns 0 and leaves the transaction open. -/
theorem not_tracks_begun : ∃ t, Run (step (abortsFirst rtmStarted)) (fresh txRetryNever idle)
    [(.contextBegin, 1), (.contextEnd, 0)] t ∧ t.driver.opened = 1 ∧
      ¬Throughout (step (abortsFirst rtmStarted)) (Tracks (abortsFirst rtmStarted)) (fresh txRetryNever idle)
        [(.contextBegin, 1), (.contextEnd, 0)] := by
  have hrun : Run (step (abortsFirst rtmStarted)) (fresh txRetryNever idle) [(.contextBegin, 1), (.contextEnd, 0)] _ :=
    .cons rfl (.cons rfl (.nil _))
  refine ⟨_, hrun, rfl, fun h => ?_⟩
  have hlast := (tracks_iff rfl).mp (h.last hrun)
  exact absurd hlast (by decide)

end BloodKernel.Transactional
