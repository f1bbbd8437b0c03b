import BloodKernel.Kernel.Types
import BloodKernel.Lib.Run
import Mathlib.Algebra.BigOperators.Group.List.Basic

set_option autoImplicit false

/-!
# The atomic updates

`atomic_add_u32`, `atomic_sub_u32`, `atomic_inc_u32`, `atomic_dec_u32`, `atomic_and_u32`, `atomic_or_u32` and
`atomic_xor_u32` of `src/drivers/atomic.c`: a locked update of the word, and then a read of its own, `return *ptr`.

* `Update`, `step`: the functions, one access at a time, on any number of CPUs; `updates`: the updates of a run;
* **`atomicUpdate_returned`**: no update is lost, and what a call returns is the word after its own update and those
  that came between it and the read; `word_eq_sum`: the word of a counter.
-/

namespace BloodKernel.AtomicUpdate

open Lib

inductive Update
  | add (value : U32)
  | sub (value : U32)
  | inc
  | dec
  | and (value : U32)
  | or (value : U32)
  | xor (value : U32)
  deriving DecidableEq

/-- The locked instruction. -/
def Update.apply (word : U32) : Update → U32
  | .add value => word + value
  | .sub value => word - value
  | .inc => word + 1
  | .dec => word - 1
  | .and value => word &&& value
  | .or value => word ||| value
  | .xor value => word ^^^ value

/-- The place of a CPU: outside, before the locked instruction, or before the read of `*ptr`. -/
inductive Pc
  | idle
  | update (u : Update)
  | reread (u : Update)

structure State (A : Type) where
  pc : A → Pc
  word : U32

inductive Op (A : Type)
  | call (a : A) (u : Update)
  | step (a : A)

def Op.cpu {A : Type} : Op A → A
  | .call a _ => a
  | .step a => a

inductive Ret
  | none
  | updated (u : Update)
  | returned (u : Update) (value : U32)
  deriving DecidableEq

/-- The updates, in the order of the locked instructions. -/
def updates {A : Type} (es : List (Op A × Ret)) : List Update := es.filterMap fun e => match e.2 with
  | .updated u => some u
  | _ => none

/-- All CPUs are outside. -/
def boot (A : Type) (word : U32) : State A := ⟨fun _ => .idle, word⟩

section Steps

variable {A : Type} [DecidableEq A]

def step (s : State A) : Op A → Option (Ret × State A)
  | .call a u => match s.pc a with
      | .idle => some (.none, { s with pc := Function.update s.pc a (.update u) })
      | _ => none
  | .step a => match s.pc a with
      | .idle => none
      | .update u => some (.updated u, ⟨Function.update s.pc a (.reread u), u.apply s.word⟩)
      | .reread u => some (.returned u s.word, { s with pc := Function.update s.pc a .idle })

variable {s s' t : State A} {op : Op A} {ret : Ret} {a b : A} {u : Update} {w v : U32} {es pre post : List (Op A × Ret)}

/-- **What a step does.** A call starts, updates the word, or returns it. -/
theorem step_cases (h : step s op = some (ret, s')) :
    (∃ a u, op = .call a u ∧ s.pc a = .idle ∧ ret = .none ∧ s' = ⟨Function.update s.pc a (.update u), s.word⟩) ∨
    (∃ a u, op = .step a ∧ s.pc a = .update u ∧ ret = .updated u ∧
      s' = ⟨Function.update s.pc a (.reread u), u.apply s.word⟩) ∨
    ∃ a u, op = .step a ∧ s.pc a = .reread u ∧ ret = .returned u s.word ∧
      s' = ⟨Function.update s.pc a .idle, s.word⟩ := by
  cases op with
  | call a u =>
      cases hp : s.pc a with
      | idle =>
          simp only [step, hp, Option.some.injEq, Prod.mk.injEq] at h
          exact Or.inl ⟨a, u, rfl, hp, h.1.symm, h.2.symm⟩
      | update | reread => simp [step, hp] at h
  | step a =>
      cases hp : s.pc a with
      | idle => simp [step, hp] at h
      | update u =>
          simp only [step, hp, Option.some.injEq, Prod.mk.injEq] at h
          exact Or.inr (Or.inl ⟨a, u, rfl, hp, h.1.symm, h.2.symm⟩)
      | reread u =>
          simp only [step, hp, Option.some.injEq, Prod.mk.injEq] at h
          exact Or.inr (Or.inr ⟨a, u, rfl, hp, h.1.symm, h.2.symm⟩)

omit [DecidableEq A] in
theorem updates_snoc (es : List (Op A × Ret)) (op : Op A) (ret : Ret) :
    updates (es ++ [(op, ret)]) = updates es ++ updates [(op, ret)] := List.filterMap_append

theorem word_eq_foldl (h : Run step (boot A w) es t) : t.word = (updates es).foldl Update.apply w := by
  refine h.history (fun es t => t.word = (updates es).foldl Update.apply w) rfl ?_
  intro es t op ret t' _ ih hs
  rw [updates_snoc, List.foldl_append, ← ih]
  rcases step_cases hs with ⟨a, u, rfl, -, rfl, rfl⟩ | ⟨a, u, rfl, -, rfl, rfl⟩ | ⟨a, u, rfl, -, rfl, rfl⟩ <;> rfl

/-- The last event of `a` is its locked instruction. -/
def LastUpdated (a : A) (u : Update) (es : List (Op A × Ret)) : Prop :=
  ∃ pre between, es = pre ++ (.step a, .updated u) :: between ∧ ∀ e ∈ between, e.1.cpu ≠ a

omit [DecidableEq A] in
theorem LastUpdated.snoc (h : LastUpdated a u es) (hop : op.cpu ≠ a) : LastUpdated a u (es ++ [(op, ret)]) := by
  obtain ⟨pre, between, rfl, hb⟩ := h
  refine ⟨pre, between ++ [(op, ret)], by simp, fun e he => ?_⟩
  rcases List.mem_append.mp he with he | he
  · exact hb e he
  · rw [List.mem_singleton.mp he]
    exact hop

/-- A step moves one CPU; before its read only if the step was its update. -/
theorem step_pc (h : step s op = some (ret, s')) : ∃ p, s'.pc = Function.update s.pc op.cpu p ∧
    ∀ u, p = .reread u → op = .step op.cpu ∧ ret = .updated u := by
  rcases step_cases h with ⟨a, u, rfl, -, rfl, rfl⟩ | ⟨a, u, rfl, -, rfl, rfl⟩ | ⟨a, u, rfl, -, rfl, rfl⟩
  · exact ⟨_, rfl, nofun⟩
  · exact ⟨_, rfl, fun u' hu => ⟨rfl, congrArg Ret.updated (Pc.reread.inj hu)⟩⟩
  · exact ⟨_, rfl, nofun⟩

theorem lastUpdated_of_reread (h : Run step (boot A w) es t) : ∀ a u, t.pc a = .reread u → LastUpdated a u es := by
  refine h.history (fun es t => ∀ a u, t.pc a = .reread u → LastUpdated a u es) (fun a u hp => by cases hp) ?_
  intro es t op ret t' _ ih hs a u hp
  obtain ⟨p, hpc, hreread⟩ := step_pc hs
  rw [hpc] at hp
  by_cases ha : a = op.cpu
  · rw [ha, Function.update_self] at hp
    obtain ⟨hop, rfl⟩ := hreread u hp
    rw [hop, ha]
    exact ⟨es, [], rfl, by simp⟩
  · rw [Function.update_of_ne ha] at hp
    exact (ih a u hp).snoc (Ne.symm ha)

/-- **What the updates return.** In every interleaving, the word is the initial word after all updates, in the order of
their locked instructions. A call returns the word after the updates up to its own, and after those that other CPUs
make between its update and its read. -/
theorem atomicUpdate_returned (h : Run step (boot A w) es t) : t.word = (updates es).foldl Update.apply w ∧
    ∀ pre post a u v, es = pre ++ (.step a, .returned u v) :: post →
      ∃ before between, pre = before ++ (.step a, .updated u) :: between ∧ (∀ e ∈ between, e.1.cpu ≠ a) ∧
        v = (updates between).foldl Update.apply (u.apply ((updates before).foldl Update.apply w)) := by
  refine ⟨word_eq_foldl h, ?_⟩
  rintro pre post a u v rfl
  obtain ⟨s, hpre, hrest⟩ := run_append.mp h
  obtain ⟨s', hs, -⟩ := run_cons.mp hrest
  rcases step_cases hs with ⟨b, u', hop, -⟩ | ⟨b, u', -, -, hret, -⟩ | ⟨b, u', hop, hpc, hret, -⟩
  · cases hop
  · cases hret
  · cases hop
    cases hret
    obtain ⟨before, between, rfl, hb⟩ := lastUpdated_of_reread hpre _ _ hpc
    refine ⟨before, between, rfl, hb, ?_⟩
    have happend : updates (before ++ (Op.step a, Ret.updated u) :: between) =
        updates before ++ u :: updates between := List.filterMap_append
    rw [word_eq_foldl hpre, happend, List.foldl_append, List.foldl_cons]

/-- What an update of a counter adds. -/
def Update.delta : Update → Option U32
  | .add value => some value
  | .sub value => some (-value)
  | .inc => some 1
  | .dec => some (-1)
  | _ => none

omit [DecidableEq A] in
theorem apply_of_delta {d : U32} (h : u.delta = some d) : u.apply w = w + d := by
  cases u with
  | add value | inc => exact congrArg (w + ·) (Option.some.inj h)
  | sub value | dec => exact (BitVec.sub_eq_add_neg w _).trans (congrArg (w + ·) (Option.some.inj h))
  | and | or | xor => cases h

/-- A word that is only counted up and down is its initial value and all that was added, in any order. -/
theorem word_eq_sum {ds : List U32} (h : Run step (boot A w) es t) (hc : (updates es).map Update.delta = ds.map some) :
    t.word = w + ds.sum := by
  rw [word_eq_foldl h]
  generalize updates es = us at hc
  clear h
  induction us generalizing w ds with
  | nil =>
      obtain rfl : ds = [] := List.map_eq_nil_iff.mp hc.symm
      simp
  | cons u us ih =>
      cases ds with
      | nil => cases hc
      | cons d ds =>
          obtain ⟨hu, hus⟩ := List.cons.inj hc
          rw [List.foldl_cons, ih hus, apply_of_delta hu, List.sum_cons, add_assoc]

end Steps

/-! Two decrements of a counter of 2: both calls return 0. -/

def decrementRace : List (Op Bool × Ret) :=
  [(.call false .dec, .none), (.call true .dec, .none), (.step false, .updated .dec), (.step true, .updated .dec),
    (.step false, .returned .dec 0), (.step true, .returned .dec 0)]

theorem atomicUpdate_returned_race : ∃ t, Run step (boot Bool 2) decrementRace t ∧
    t.word = (updates decrementRace).foldl Update.apply 2 ∧
    ∀ pre post a u v, decrementRace = pre ++ (.step a, .returned u v) :: post →
      ∃ before between, pre = before ++ (.step a, .updated u) :: between ∧ (∀ e ∈ between, e.1.cpu ≠ a) ∧
        v = (updates between).foldl Update.apply (u.apply ((updates before).foldl Update.apply 2)) := by
  have h : ∃ t, Run step (boot Bool 2) decrementRace t :=
    ⟨_, .cons rfl (.cons rfl (.cons rfl (.cons rfl (.cons rfl (.cons rfl (.nil _))))))⟩
  obtain ⟨t, h⟩ := h
  exact ⟨t, h, atomicUpdate_returned h⟩

end BloodKernel.AtomicUpdate
