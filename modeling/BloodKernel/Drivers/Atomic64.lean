import BloodKernel.Kernel.Types
import BloodKernel.Lib.DoubleWords
import BloodKernel.Lib.Run

set_option autoImplicit false

/-!
# The 64-bit atomic operations

`atomic_load_u64`, `atomic_store_u64` and `atomic_compare_exchange_u64` of `src/drivers/atomic.c` on one `u64`, with
`cmpxchg8b` or without it, one memory access at a time on any number of CPUs.

* `cmpxchg8b`, `atomicLoadU64`, `atomicCompareExchangeU64`: the accesses;
* `registerCall`: a register whose operations take one step; `step_cases`: what an access does to the `u64`;
* **`atomic64_register`**: with `cmpxchg8b` the operations are those of the register, in the order of their returns;
* **`atomic64_lockFree`**: and no CPU makes more than two steps before some call returns.
-/

namespace BloodKernel.Atomic64

open Lib

/-! ### The accesses -/

/-- The locked `cmpxchg8b`: ZF, `eax`, `edx`, and the memory operand. -/
def cmpxchg8b (mem : U64) (eax edx ebx ecx : U32) : Bool × U32 × U32 × U64 :=
  if mem = edx ++ eax then (true, eax, edx, ecx ++ ebx)
  else (false, mem.setWidth 32, (mem >>> 32).setWidth 32, mem)

/-- The supported branch: the value, and the memory operand, which the instruction also writes. -/
def atomicLoadU64 (mem : U64) : U64 × U64 :=
  let (_, eax, edx, mem) := cmpxchg8b mem 0 0 0 0
  (edx ++ eax, mem)

/-- The result, `*expected` afterwards, and the memory operand. -/
def atomicCompareExchangeU64 (supported : Bool) (mem expected desired : U64) : U8 × U64 × U64 :=
  if !supported then (0, expected, mem)
  else
    let (success, expectedLow, expectedHigh, mem) := cmpxchg8b mem (expected.setWidth 32)
      ((expected >>> 32).setWidth 32) (desired.setWidth 32) ((desired >>> 32).setWidth 32)
    (if success then 1 else 0, expectedHigh.setWidth 64 <<< 32 ||| expectedLow.setWidth 64, mem)

inductive Call
  | load
  | store (value : U64)
  | compareExchange (expected desired : U64)
  deriving DecidableEq

/-- What a call returns, and for the exchange what `*expected` is afterwards. -/
inductive Result
  | loaded (value : U64)
  | stored
  | exchanged (success : U8) (expected : U64)
  deriving DecidableEq

/-- The place of a CPU: outside, or before an access. -/
inductive Pc
  | idle
  | load
  /-- The load in the loop of `atomic_store_u64`. -/
  | store (value : U64)
  /-- The exchange in that loop. -/
  | storeExchange (value old : U64)
  | exchange (expected desired : U64)
  /-- Without `cmpxchg8b`: the second half of a load, and of a store. -/
  | loadHigh (low : U32)
  | storeHigh (value : U64)

structure State (A : Type) where
  pc : A → Pc
  mem : U64

inductive Op (A : Type)
  | call (a : A) (c : Call)
  | step (a : A)

def Op.cpu {A : Type} : Op A → A
  | .call a _ => a
  | .step a => a

/-- A step inside a call, or the last one of a call. -/
inductive Ret
  | none
  | done (c : Call) (r : Result)
  deriving DecidableEq

def firstPc : Call → Pc
  | .load => .load
  | .store value => .store value
  | .compareExchange expected desired => .exchange expected desired

section Steps

variable {A : Type} [DecidableEq A]

/-- CPU `a` goes on to the place `p`, and leaves `mem` behind. -/
def State.goto (s : State A) (a : A) (p : Pc) (mem : U64) : State A := ⟨Function.update s.pc a p, mem⟩

def step (supported : Bool) (s : State A) : Op A → Option (Ret × State A)
  | .call a c => match s.pc a with
      | .idle => some (.none, s.goto a (firstPc c) s.mem)
      | _ => none
  | .step a => match s.pc a with
      | .idle => none
      | .load =>
          if supported then
            let (result, mem) := atomicLoadU64 s.mem
            some (.done .load (.loaded result), s.goto a .idle mem)
          else some (.none, s.goto a (.loadHigh (s.mem.setWidth 32)) s.mem)
      | .loadHigh low =>
          some (.done .load (.loaded ((s.mem >>> 32).setWidth 32 ++ low)), s.goto a .idle s.mem)
      | .store value =>
          if supported then
            let (old, mem) := atomicLoadU64 s.mem
            some (.none, s.goto a (.storeExchange value old) mem)
          else some (.none, s.goto a (.storeHigh value) ((s.mem >>> 32).setWidth 32 ++ value.setWidth 32))
      | .storeHigh value => some (.done (.store value) .stored,
          s.goto a .idle ((value >>> 32).setWidth 32 ++ s.mem.setWidth 32))
      | .storeExchange value old =>
          let (success, _, mem) := atomicCompareExchangeU64 supported s.mem old value
          if success ≠ 0 then some (.done (.store value) .stored, s.goto a .idle mem)
          else some (.none, s.goto a (.store value) mem)
      | .exchange expected desired =>
          let (success, expected', mem) := atomicCompareExchangeU64 supported s.mem expected desired
          some (.done (.compareExchange expected desired) (.exchanged success expected'), s.goto a .idle mem)

/-- All CPUs are outside. -/
def boot (A : Type) (mem : U64) : State A := ⟨fun _ => .idle, mem⟩

/-! ### A register -/

def registerCall (mem : U64) : Call → Result × U64
  | .load => (.loaded mem, mem)
  | .store value => (.stored, value)
  | .compareExchange expected desired =>
      if mem = expected then (.exchanged 1 expected, desired) else (.exchanged 0 mem, mem)

/-- The calls that have returned, in order. -/
def completed (es : List (Op A × Ret)) : List (Call × Result) := es.filterMap fun e => match e.2 with
  | .done c r => some (c, r)
  | .none => none

theorem append_eq_or (high low : U32) : high.setWidth 64 <<< 32 ||| low.setWidth 64 = high ++ low :=
  BitVec.setWidth_append_eq_shiftLeft_setWidth_or.symm.trans (BitVec.setWidth_eq _)

theorem cmpxchg8b_halves (mem expected desired : U64) : cmpxchg8b mem (expected.setWidth 32)
    ((expected >>> 32).setWidth 32) (desired.setWidth 32) ((desired >>> 32).setWidth 32) =
      if mem = expected then (true, expected.setWidth 32, (expected >>> 32).setWidth 32, desired)
      else (false, mem.setWidth 32, (mem >>> 32).setWidth 32, mem) := by
  unfold cmpxchg8b
  rw [halves_append, halves_append]

/-- The load changes nothing: where the comparison with 0 succeeds, it writes 0 over 0. -/
theorem atomicLoadU64_eq (mem : U64) : atomicLoadU64 mem = (mem, mem) := by
  have h := cmpxchg8b_halves mem 0 0
  have hhalf : (((0 : U64) >>> 32).setWidth 32 : U32) = 0 := by decide
  have hlow : ((0 : U64).setWidth 32 : U32) = 0 := by decide
  rw [hhalf, hlow] at h
  unfold atomicLoadU64
  rw [h]
  split_ifs with h0
  · rw [h0]
    rfl
  · exact congrArg (Prod.mk · mem) (halves_append mem)

theorem atomicCompareExchangeU64_eq (mem expected desired : U64) :
    atomicCompareExchangeU64 true mem expected desired =
      if mem = expected then (1, expected, desired) else (0, mem, mem) := by
  unfold atomicCompareExchangeU64
  rw [cmpxchg8b_halves, if_neg (by decide)]
  split_ifs with h
  · simp only [if_true, append_eq_or, halves_append]
  · simp only [append_eq_or, halves_append, Bool.false_eq_true, if_false]

variable {s s' t : State A} {op : Op A} {ret : Ret} {a : A} {mem : U64} {es : List (Op A × Ret)}

/-- Between the two halves of a load or a store. -/
def Pc.half : Pc → Bool
  | .loadHigh _ | .storeHigh _ => true
  | _ => false

/-- No CPU is between two halves. -/
def Whole (s : State A) : Prop := ∀ a, (s.pc a).half = false

theorem Whole.goto (hw : Whole s) {p : Pc} (hp : p.half = false) : Whole (s.goto a p mem) := by
  intro b
  show (Function.update s.pc a p b).half = false
  by_cases hb : b = a
  · rw [hb, Function.update_self, hp]
  · rw [Function.update_of_ne hb, hw b]

/-- The steps that a CPU can still make without any call returning, if the `u64` stays as it is. -/
def slack (mem : U64) : Pc → ℕ
  | .idle => 2
  | .store _ => 1
  | .storeExchange _ old => if old = mem then 0 else 2
  | _ => 0

/-- **What a step does.** It ends a call, as one step of the register; or it leaves the `u64` alone, and the CPU has
less slack. -/
theorem step_cases (hw : Whole s) (h : step true s op = some (ret, s')) : Whole s' ∧
    ((∃ c r, ret = .done c r ∧ registerCall s.mem c = (r, s'.mem)) ∨
      ret = .none ∧ s'.mem = s.mem ∧ slack s.mem (s'.pc op.cpu) < slack s.mem (s.pc op.cpu) ∧
        ∀ b, b ≠ op.cpu → s'.pc b = s.pc b) := by
  have hgoto : ∀ (a : A) p mem, (s.goto a p mem).pc a = p := fun a p mem => Function.update_self _ _ _
  have hothers : ∀ (a : A) p mem b, b ≠ a → (s.goto a p mem).pc b = s.pc b := fun a p mem b hb =>
    Function.update_of_ne hb _ _
  cases op with
  | call a c =>
      cases hp : s.pc a with
      | idle =>
          simp only [step, hp, Option.some.injEq, Prod.mk.injEq] at h
          obtain ⟨rfl, rfl⟩ := h
          refine ⟨hw.goto (by cases c <;> rfl), Or.inr ⟨rfl, rfl, ?_, hothers a _ _⟩⟩
          rw [Op.cpu, hgoto, hp]
          cases c <;> simp [firstPc, slack]
      | load | store | storeExchange | exchange | loadHigh | storeHigh => simp [step, hp] at h
  | step a =>
      cases hp : s.pc a with
      | idle => simp [step, hp] at h
      | load =>
          simp only [step, hp, if_true, atomicLoadU64_eq, Option.some.injEq, Prod.mk.injEq] at h
          obtain ⟨rfl, rfl⟩ := h
          exact ⟨hw.goto rfl, Or.inl ⟨_, _, rfl, rfl⟩⟩
      | store value =>
          simp only [step, hp, if_true, atomicLoadU64_eq, Option.some.injEq, Prod.mk.injEq] at h
          obtain ⟨rfl, rfl⟩ := h
          refine ⟨hw.goto rfl, Or.inr ⟨rfl, rfl, ?_, hothers a _ _⟩⟩
          rw [Op.cpu, hgoto, hp]
          simp [slack]
      | storeExchange value old =>
          simp only [step, hp, atomicCompareExchangeU64_eq] at h
          by_cases hold : s.mem = old
          · simp only [if_pos hold] at h
            cases h
            exact ⟨hw.goto rfl, Or.inl ⟨_, _, rfl, rfl⟩⟩
          · simp only [if_neg hold] at h
            cases h
            refine ⟨hw.goto rfl, Or.inr ⟨rfl, rfl, ?_, hothers a _ _⟩⟩
            rw [Op.cpu, hgoto, hp]
            simp [slack, Ne.symm hold]
      | exchange expected desired =>
          simp only [step, hp, atomicCompareExchangeU64_eq, Option.some.injEq, Prod.mk.injEq] at h
          obtain ⟨rfl, rfl⟩ := h
          refine ⟨hw.goto rfl, Or.inl ⟨_, _, rfl, ?_⟩⟩
          by_cases hm : s.mem = expected
          · simp only [registerCall, if_pos hm, State.goto]
          · simp only [registerCall, if_neg hm, State.goto]
      | loadHigh low =>
          have hhalf := hw a
          rw [hp] at hhalf
          cases hhalf
      | storeHigh value =>
          have hhalf := hw a
          rw [hp] at hhalf
          cases hhalf

/-- A run from a state without halves is a run of the register. -/
theorem run_register (hw : Whole s) (h : Run (step true) s es t) :
    Whole t ∧ Run (total registerCall) s.mem (completed es) t.mem := by
  induction h with
  | nil s => exact ⟨hw, .nil _⟩
  | @cons s s' t op ret es hstep _ ih =>
      obtain ⟨hw', hcase⟩ := step_cases hw hstep
      obtain ⟨ht, hrun⟩ := ih hw'
      refine ⟨ht, ?_⟩
      rcases hcase with ⟨c, r, rfl, hcall⟩ | ⟨rfl, hmem, -⟩
      · exact .cons (congrArg some hcall) hrun
      · rw [← hmem]
        exact hrun

/-- **A register.** With `cmpxchg8b`, in every interleaving of the memory accesses of any number of CPUs, the calls
that have returned, in the order of their returns, are those of a register that takes each of them in one step, and
the `u64` holds its value: no value is torn, and no store is lost. -/
theorem atomic64_register (h : Run (step true) (boot A mem) es t) :
    Run (total registerCall) mem (completed es) t.mem :=
  (run_register (fun _ => rfl) h).2

/-- The steps of a CPU in a run. -/
def stepsOf (a : A) (es : List (Op A × Ret)) : ℕ := es.countP fun e => e.1.cpu = a

theorem stepsOf_add_slack (hw : Whole s) (h : Run (step true) s es t) (hnone : completed es = []) (a : A) :
    stepsOf a es + slack s.mem (t.pc a) ≤ slack s.mem (s.pc a) := by
  induction h with
  | nil s => simp [stepsOf]
  | @cons s s' t op ret es hstep _ ih =>
      obtain ⟨hw', ⟨c, r, rfl, -⟩ | ⟨rfl, hmem, hlt, hothers⟩⟩ := step_cases hw hstep
      · simp [completed] at hnone
      · have hrest := ih hw' hnone
        rw [hmem] at hrest
        by_cases ha : op.cpu = a
        · have hcount : stepsOf a ((op, Ret.none) :: es) = stepsOf a es + 1 :=
            List.countP_cons_of_pos (decide_eq_true ha)
          rw [ha] at hlt
          omega
        · have hcount : stepsOf a ((op, Ret.none) :: es) = stepsOf a es :=
            List.countP_cons_of_neg (by simpa using ha)
          rw [hothers a (Ne.symm ha)] at hrest
          omega

/-- **Lock freedom.** With `cmpxchg8b`, in every stretch of a run in which no call returns, each CPU makes at most two
steps: an exchange of `atomic_store_u64` fails only when another CPU has changed the `u64`. -/
theorem atomic64_lockFree {es fs : List (Op A × Ret)} {u : State A} (h : Run (step true) (boot A mem) es t)
    (h' : Run (step true) t fs u) (hnone : completed fs = []) (a : A) : stepsOf a fs ≤ 2 := by
  have hle := stepsOf_add_slack (run_register (fun _ => rfl) h).1 h' hnone a
  have hslack : slack t.mem (t.pc a) ≤ 2 := by
    cases t.pc a with
    | storeExchange value old =>
        simp only [slack]
        split_ifs <;> omega
    | idle | load | store | exchange | loadHigh | storeHigh => simp [slack]
  omega

end Steps

/-! Two CPUs store: the second one comes between the load and the exchange of the first, which has to load again. -/

def storeRace : List (Op Bool × Ret) :=
  [(.call false (.store 5), .none), (.step false, .none), (.call true (.store 7), .none), (.step true, .none),
    (.step true, .done (.store 7) .stored)]

def storeRetry : List (Op Bool × Ret) := [(.step false, .none), (.step false, .none)]

theorem exists_storeRace : ∃ t u, Run (step true) (boot Bool 0) storeRace t ∧ Run (step true) t storeRetry u :=
  ⟨_, _, .cons rfl (.cons rfl (.cons rfl (.cons rfl (.cons rfl (.nil _))))), .cons rfl (.cons rfl (.nil _))⟩

theorem atomic64_register_race : ∃ t, Run (step true) (boot Bool 0) storeRace t ∧
    Run (total registerCall) 0 (completed storeRace) t.mem := by
  obtain ⟨t, -, h, -⟩ := exists_storeRace
  exact ⟨t, h, atomic64_register h⟩

theorem atomic64_lockFree_race : ∃ t u, Run (step true) (boot Bool 0) storeRace t ∧
    Run (step true) t storeRetry u ∧ ∀ a, stepsOf a storeRetry ≤ 2 := by
  obtain ⟨t, u, h, h'⟩ := exists_storeRace
  exact ⟨t, u, h, h', fun a => atomic64_lockFree h h' rfl a⟩

end BloodKernel.Atomic64
