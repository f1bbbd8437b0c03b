import BloodKernel.Kernel.SchedRound
import BloodKernel.Lib.Region

set_option autoImplicit false

/-!
# The stacks of the tasks

The stack of slot `i` starts at a fixed place, `stride` bytes after that of slot `i - 1`; its size is the
caller's.

* `InStack`, `createdWords`, `fillSlot_mem_frame`: a stack, and the words that `task_create` writes;
* `Separate`: the stacks are disjoint and contain these words; `Fits`, `FitsAt`: the sizes;
* `separate_iff`, `fillSlot_fits_iff`: a state, and one creation;
* **`stacks_separate_iff`**: the stacks are separate throughout a run exactly when every created task
  has a size that fits beside the tasks in the pool.
-/

namespace BloodKernel.Sched

open Lib

/-- The distance between the stacks of two neighbouring slots. -/
def Arch.stride : Arch → ℕ
  | .arm => 0x4000
  | _ => 0x400

/-- `sp` of a new task. -/
def initialSp (t : Task) : U32 := t.stackBase + t.stackSize - 32

/-- The addresses of the words written through `sp`. -/
def Arch.initWords : Arch → U32 → List U32
  | .arm, sp => [sp, sp + 4, sp + 8]
  | .x86, sp => [sp]
  | .other, _ => []

/-- The addresses of the words that `task_create` writes for the task: the canary and those through
`sp`. -/
def createdWords (arch : Arch) (t : Task) : List U32 := t.stackBase :: arch.initWords (initialSp t)

/-- `x` is an address in the stack of slot `i`. -/
def InStack (s : State) (i : Fin maxTasks) (x : U32) : Prop :=
  InRange (s.taskPool i).stackBase (s.taskPool i).stackSize.toNat x

/-- The stacks of the tasks are disjoint, and each contains the words written for its task. -/
structure Separate (arch : Arch) (s : State) : Prop where
  disjoint : ∀ i j x, Populated s i → Populated s j → InStack s i x → InStack s j x → i = j
  contained : ∀ i, Populated s i → ∀ w ∈ createdWords arch (s.taskPool i), ∀ x, InRange w 4 x →
    InStack s i x

/-- The least size of a stack that contains the words written for its task. -/
def Arch.minSize : Arch → ℕ
  | .other => 4
  | _ => 32

/-- Two stacks, `d` bytes from the first to the second: the first ends before the second, and the
second does not wrap into the first. -/
def Beside (d : ℕ) (size size' : U32) : Prop := size.toNat ≤ d ∧ d + size'.toNat ≤ 2 ^ 32

/-- The sizes in the pool. -/
structure Fits (arch : Arch) (s : State) : Prop where
  min : ∀ i, Populated s i → arch.minSize ≤ (s.taskPool i).stackSize.toNat
  beside : ∀ i j, i < j → Populated s i → Populated s j →
    Beside ((j - i) * arch.stride) (s.taskPool i).stackSize (s.taskPool j).stackSize

/-- A stack of the given size in slot `i` fits beside the tasks in the other slots. -/
def FitsIn (arch : Arch) (s : State) (i : Fin maxTasks) (size : U32) : Prop :=
  arch.minSize ≤ size.toNat ∧
  (∀ j, i < j → Populated s j → Beside ((j - i) * arch.stride) size (s.taskPool j).stackSize) ∧
  ∀ j, j < i → Populated s j → Beside ((i - j) * arch.stride) (s.taskPool j).stackSize size

/-- If the call creates a task, its size fits in the slot that it gets. -/
def FitsAt (arch : Arch) (s : State) (e : Event) : Prop :=
  ∀ entry stackSize i, e.1 = .create entry stackSize →
    first (fun i => (s.taskPool i).state == 0) = some i → s.nextPid ≠ 0 → FitsIn arch s i stackSize

/-! ### The words written -/

variable {arch : Arch} {s s' : State} {entry stackSize : U32} {i : Fin maxTasks}

theorem store32_of_not {m : Mem} {a x : U32} (h : ¬ InRange a 4 x) (v : U32) :
    store32 m a v x = m x := if_neg h

@[simp] theorem fillSlot_stackBase :
    ((fillSlot arch entry stackSize s i).taskPool i).stackBase = arch.stackBase i := by
  simp [fillSlot, writeCanary]

@[simp] theorem fillSlot_stackSize :
    ((fillSlot arch entry stackSize s i).taskPool i).stackSize = stackSize := by
  simp [fillSlot, writeCanary]

theorem fillSlot_mem : (fillSlot arch entry stackSize s i).mem =
    arch.initStack (store32 s.mem (arch.stackBase i) stackCanary) (arch.stackBase i + stackSize - 32)
      entry := rfl

theorem initStack_of_not {m : Mem} {sp x : U32} (h : ∀ w ∈ arch.initWords sp, ¬ InRange w 4 x) :
    arch.initStack m sp entry x = m x := by
  cases arch with
  | arm =>
      simp only [Arch.initWords, List.forall_mem_cons] at h
      obtain ⟨h₀, h₁, h₂, -⟩ := h
      simp only [Arch.initStack]
      rw [store32_of_not h₂, store32_of_not h₁, store32_of_not h₀]
  | x86 => exact store32_of_not (h sp List.mem_cons_self) entry
  | other => rfl

theorem fillSlot_mem_frame {x : U32}
    (h : ∀ w ∈ createdWords arch ((fillSlot arch entry stackSize s i).taskPool i), ¬ InRange w 4 x) :
    (fillSlot arch entry stackSize s i).mem x = s.mem x := by
  unfold createdWords initialSp at h
  rw [fillSlot_stackBase, fillSlot_stackSize, List.forall_mem_cons] at h
  rw [fillSlot_mem, initStack_of_not h.2, store32_of_not h.1]

/-! ### One state -/

theorem Arch.stride_le (arch : Arch) : arch.stride ≤ 0x4000 := by
  cases arch <;> decide

theorem Arch.minSize_pos (arch : Arch) : 4 ≤ arch.minSize := by
  cases arch <;> decide

theorem Arch.stackBase_add (arch : Arch) {i j : Fin maxTasks} (h : i ≤ j) :
    arch.stackBase j = arch.stackBase i + BitVec.ofNat 32 ((j - i) * arch.stride) := by
  have hle : i.val ≤ j.val := h
  have hsplit : ∀ k, j.val * k = i * k + (j - i) * k := fun k => by
    rw [← Nat.add_mul, Nat.add_sub_cancel' hle]
  cases arch <;> simp only [Arch.stackBase, Arch.stride] <;>
    rw [hsplit, BitVec.ofNat_add, BitVec.add_assoc]

theorem le_stackSize_of_inRange {t : Task}
    (h : InRange t.stackBase t.stackSize.toNat (initialSp t)) : 32 ≤ t.stackSize.toNat := by
  have := t.stackBase.isLt
  have := t.stackSize.isLt
  have h32 : (32 : U32).toNat = 32 := rfl
  unfold InRange initialSp at h
  rw [BitVec.toNat_sub, BitVec.toNat_sub, BitVec.toNat_add, h32] at h
  omega

theorem inRange_of_initialSp {t : Task} {k : ℕ} (hk : k + 4 ≤ 32) (h : 32 ≤ t.stackSize.toNat) {x : U32}
    (hx : InRange (initialSp t + BitVec.ofNat 32 k) 4 x) : InRange t.stackBase t.stackSize.toNat x := by
  have hsp : initialSp t = t.stackBase + BitVec.ofNat 32 (t.stackSize.toNat - 32) := by
    have := t.stackBase.isLt
    have := t.stackSize.isLt
    have h32 : (32 : U32).toNat = 32 := rfl
    apply BitVec.eq_of_toNat_eq
    unfold initialSp
    rw [BitVec.toNat_sub, BitVec.toNat_add, BitVec.toNat_add, h32, BitVec.toNat_ofNat]
    omega
  rw [hsp, BitVec.add_assoc, ← BitVec.ofNat_add] at hx
  exact hx.of_add (by omega)

/-- The words are in a stack of at least `minSize` bytes, and in no smaller one. -/
theorem contained_iff {t : Task} : (∀ w ∈ createdWords arch t, ∀ x, InRange w 4 x →
    InRange t.stackBase t.stackSize.toNat x) ↔ arch.minSize ≤ t.stackSize.toNat := by
  have hfirst : ∀ h : 32 ≤ t.stackSize.toNat, ∀ x, InRange (initialSp t) 4 x →
      InRange t.stackBase t.stackSize.toNat x := fun h x hx =>
    inRange_of_initialSp (k := 0) (by omega) h (by rwa [BitVec.add_zero])
  have hcanary := inRange_subset_iff (a := t.stackBase) (n := 4) (l := t.stackSize.toNat) (by omega)
  unfold createdWords
  rw [List.forall_mem_cons, hcanary]
  cases arch with
  | arm =>
      have hmin : Arch.arm.minSize = 32 := rfl
      simp only [Arch.initWords, List.forall_mem_cons, List.not_mem_nil, false_imp_iff, implies_true,
        and_true, hmin]
      refine ⟨fun h => le_stackSize_of_inRange (h.2.1 _ (inRange_self (by omega))), fun h => ?_⟩
      exact ⟨by omega, hfirst h, fun x => inRange_of_initialSp (k := 4) (by omega) h,
        fun x => inRange_of_initialSp (k := 8) (by omega) h⟩
  | x86 =>
      have hmin : Arch.x86.minSize = 32 := rfl
      simp only [Arch.initWords, List.forall_mem_cons, List.not_mem_nil, false_imp_iff, implies_true,
        and_true, hmin]
      refine ⟨fun h => le_stackSize_of_inRange (h.2 _ (inRange_self (by omega))), fun h => ?_⟩
      exact ⟨by omega, hfirst h⟩
  | other =>
      exact ⟨And.left, fun h => ⟨h, fun w hw => absurd hw List.not_mem_nil⟩⟩

/-- Every task has the stack of its slot. -/
def Based (arch : Arch) (s : State) : Prop :=
  ∀ i, Populated s i → (s.taskPool i).stackBase = arch.stackBase i

/-- **Separate stacks**, by their sizes. -/
theorem separate_iff (hb : Based arch s) : Separate arch s ↔ Fits arch s := by
  have hmin : (∀ i, Populated s i → ∀ w ∈ createdWords arch (s.taskPool i), ∀ x, InRange w 4 x →
      InStack s i x) ↔ ∀ i, Populated s i → arch.minSize ≤ (s.taskPool i).stackSize.toNat :=
    forall₂_congr fun i _ => contained_iff
  have hpair : ∀ i j, i < j → Populated s i → Populated s j →
      0 < (s.taskPool i).stackSize.toNat → 0 < (s.taskPool j).stackSize.toNat →
      ((∀ x, InStack s i x → ¬ InStack s j x) ↔
        Beside ((j - i) * arch.stride) (s.taskPool i).stackSize (s.taskPool j).stackSize) := by
    intro i j hij hi hj hpi hpj
    have hd : (j - i) * arch.stride < 2 ^ 32 := by
      have hj31 : j.val < 32 := j.isLt
      exact lt_of_le_of_lt (Nat.mul_le_mul (show j.val - i.val ≤ 31 by omega) arch.stride_le)
        (by decide)
    unfold InStack
    rw [hb i hi, hb j hj, arch.stackBase_add hij.le]
    exact inRange_disjoint_iff hpi hpj hd
  have hpos : ∀ i, arch.minSize ≤ (s.taskPool i).stackSize.toNat →
      0 < (s.taskPool i).stackSize.toNat := fun i h => by
    have := arch.minSize_pos
    omega
  constructor
  · intro h
    have hm := hmin.mp h.contained
    refine ⟨hm, fun i j hij hi hj => ?_⟩
    rw [← hpair i j hij hi hj (hpos i (hm i hi)) (hpos j (hm j hj))]
    exact fun x hx hx' => absurd (h.disjoint i j x hi hj hx hx') hij.ne
  · intro h
    have hdis : ∀ i j, i < j → Populated s i → Populated s j → ∀ x, InStack s i x →
        ¬ InStack s j x := fun i j hij hi hj =>
      (hpair i j hij hi hj (hpos i (h.min i hi)) (hpos j (h.min j hj))).mpr (h.beside i j hij hi hj)
    refine ⟨fun i j x hi hj hx hx' => ?_, hmin.mpr h.min⟩
    obtain hij | hij | hij := lt_trichotomy i j
    · exact absurd hx' (hdis i j hij hi hj x hx)
    · exact hij
    · exact absurd hx (hdis j i hij hj hi x hx')

/-! ### One call -/

/-- What the stack of a task depends on. -/
def stackOf (t : Task) : U32 × U32 × U32 := (t.pid, t.stackBase, t.stackSize)

@[simp] theorem setState_stackOf (p : Pool) (i j : Fin maxTasks) (st : U8) :
    stackOf (p.setState i st j) = stackOf (p j) := by
  by_cases h : j = i
  · rw [h, Pool.setState, Function.update_self]
    rfl
  · rw [setState_of_ne p h]

@[simp] theorem taskStackCheck_stackOf (j : Fin maxTasks) :
    stackOf ((taskStackCheck s).taskPool j) = stackOf (s.taskPool j) := by
  simp only [taskStackCheck]
  split_ifs <;> rfl

@[simp] theorem switchTo_stackOf (n j : Fin maxTasks) :
    stackOf ((switchTo s n).2.taskPool j) = stackOf (s.taskPool j) := by
  unfold switchTo
  cases s.currentTask <;> simp

@[simp] theorem taskYield_stackOf (j : Fin maxTasks) :
    stackOf ((taskYield s).2.taskPool j) = stackOf (s.taskPool j) :=
  taskYield_keeps s (fun s => stackOf (s.taskPool j)) (fun _ => taskStackCheck_stackOf j)
    fun _ n => switchTo_stackOf n j

@[simp] theorem schedStart_stackOf (j : Fin maxTasks) :
    stackOf ((schedStart s).2.taskPool j) = stackOf (s.taskPool j) :=
  schedStart_keeps s (fun s => stackOf (s.taskPool j)) fun s i => by simp

theorem step_stackOf {op : Op} {r : Ret} (hop : ∀ entry stackSize, op ≠ .create entry stackSize)
    (h : step arch s op = some (r, s')) (j : Fin maxTasks) :
    stackOf (s'.taskPool j) = stackOf (s.taskPool j) := by
  cases op with
  | create entry stackSize => exact absurd rfl (hop entry stackSize)
  | start => cases h; exact schedStart_stackOf j
  | yield => cases h; exact taskYield_stackOf j
  | exit =>
      simp only [step, taskExit, Option.map_map, Option.map_eq_some_iff] at h
      obtain ⟨c, -, h⟩ := h
      cases h
      exact (taskYield_stackOf j).trans (setState_stackOf s.taskPool c j 0)
  | outside m sp => cases h; rfl

section Congr

variable (h : ∀ j, stackOf (s'.taskPool j) = stackOf (s.taskPool j))

include h

theorem populated_congr (j : Fin maxTasks) : Populated s' j ↔ Populated s j := by
  have hpid : (s'.taskPool j).pid = (s.taskPool j).pid := congrArg Prod.fst (h j)
  rw [Populated, hpid, Populated]

theorem stackBase_congr (j : Fin maxTasks) :
    (s'.taskPool j).stackBase = (s.taskPool j).stackBase :=
  congrArg (fun x => x.2.1) (h j)

theorem stackSize_congr (j : Fin maxTasks) :
    (s'.taskPool j).stackSize = (s.taskPool j).stackSize :=
  congrArg (fun x => x.2.2) (h j)

theorem Based.congr (hb : Based arch s) : Based arch s' := fun j hj => by
  rw [stackBase_congr h]
  exact hb j ((populated_congr h j).mp hj)

theorem Fits.congr (hf : Fits arch s) : Fits arch s' := by
  refine ⟨fun j hj => ?_, fun j k hjk hj hk => ?_⟩
  · rw [stackSize_congr h]
    exact hf.min j ((populated_congr h j).mp hj)
  · rw [stackSize_congr h, stackSize_congr h]
    exact hf.beside j k hjk ((populated_congr h j).mp hj) ((populated_congr h k).mp hk)

end Congr

theorem populated_fillSlot_self : Populated (fillSlot arch entry stackSize s i) i ↔ s.nextPid ≠ 0 := by
  rw [Populated, fillSlot_pid]

theorem populated_fillSlot_of_ne {j : Fin maxTasks} (h : j ≠ i) :
    Populated (fillSlot arch entry stackSize s i) j ↔ Populated s j := by
  rw [Populated, fillSlot_of_ne h, Populated]

theorem Based.fillSlot (h : Based arch s) : Based arch (fillSlot arch entry stackSize s i) := by
  intro j hj
  by_cases hji : j = i
  · rw [hji, fillSlot_stackBase]
  · rw [fillSlot_of_ne hji]
    exact h j ((populated_fillSlot_of_ne hji).mp hj)

/-- **One creation.** The sizes still fit exactly when the new one does. -/
theorem fillSlot_fits_iff (h : Fits arch s) : Fits arch (fillSlot arch entry stackSize s i) ↔
    (s.nextPid ≠ 0 → FitsIn arch s i stackSize) := by
  constructor
  · intro h' hn
    have hi : Populated (fillSlot arch entry stackSize s i) i := populated_fillSlot_self.mpr hn
    refine ⟨?_, fun j hij hj => ?_, fun j hji hj => ?_⟩
    · have := h'.min i hi
      rwa [fillSlot_stackSize] at this
    · have := h'.beside i j hij hi ((populated_fillSlot_of_ne hij.ne').mpr hj)
      rwa [fillSlot_stackSize, fillSlot_of_ne hij.ne'] at this
    · have := h'.beside j i hji ((populated_fillSlot_of_ne hji.ne).mpr hj) hi
      rwa [fillSlot_stackSize, fillSlot_of_ne hji.ne] at this
  · intro hnew
    refine ⟨fun j hj => ?_, fun j k hjk hj hk => ?_⟩
    · by_cases hji : j = i
      · rw [hji, fillSlot_stackSize]
        exact (hnew (populated_fillSlot_self.mp (hji ▸ hj))).1
      · rw [fillSlot_of_ne hji]
        exact h.min j ((populated_fillSlot_of_ne hji).mp hj)
    · by_cases hji : j = i
      · have hki : k ≠ i := fun e => hjk.ne (hji.trans e.symm)
        rw [hji, fillSlot_stackSize, fillSlot_of_ne hki]
        exact (hnew (populated_fillSlot_self.mp (hji ▸ hj))).2.1 k (hji ▸ hjk)
          ((populated_fillSlot_of_ne hki).mp hk)
      · by_cases hki : k = i
        · rw [hki, fillSlot_stackSize, fillSlot_of_ne hji]
          exact (hnew (populated_fillSlot_self.mp (hki ▸ hk))).2.2 j (hki ▸ hjk)
            ((populated_fillSlot_of_ne hji).mp hj)
        · rw [fillSlot_of_ne hji, fillSlot_of_ne hki]
          exact h.beside j k hjk ((populated_fillSlot_of_ne hji).mp hj)
            ((populated_fillSlot_of_ne hki).mp hk)

/-- What a call does to the stacks: nothing, or it is a `task_create` that finds no slot, or fills one. -/
theorem step_cases {op : Op} {r : Ret} (hs : step arch s op = some (r, s')) :
    ((∀ entry stackSize, op ≠ .create entry stackSize) ∧
      ∀ j, stackOf (s'.taskPool j) = stackOf (s.taskPool j)) ∨
    ∃ entry stackSize, op = .create entry stackSize ∧
      (first (fun i => (s.taskPool i).state == 0) = none ∧ s' = s ∨
        ∃ i, first (fun i => (s.taskPool i).state == 0) = some i ∧
          s' = fillSlot arch entry stackSize s i) := by
  by_cases hop : ∀ entry stackSize, op ≠ .create entry stackSize
  · exact .inl ⟨hop, step_stackOf hop hs⟩
  · push Not at hop
    obtain ⟨entry, stackSize, rfl⟩ := hop
    simp only [step, Option.some.injEq, Prod.mk.injEq] at hs
    refine .inr ⟨entry, stackSize, rfl, ?_⟩
    rw [← hs.2]
    cases hf : first fun i => (s.taskPool i).state == 0 with
    | none => exact .inl ⟨rfl, by rw [taskCreate_none s hf]⟩
    | some i => exact .inr ⟨i, rfl, by rw [taskCreate_some s hf]⟩

theorem step_based {op : Op} {r : Ret} (h : Based arch s) (hs : step arch s op = some (r, s')) :
    Based arch s' := by
  rcases step_cases hs with ⟨-, hstack⟩ | ⟨entry, stackSize, -, ⟨-, rfl⟩ | ⟨i, -, rfl⟩⟩
  · exact h.congr hstack
  · exact h
  · exact h.fillSlot

/-- **One call.** The sizes still fit exactly when `FitsAt` says so. -/
theorem step_fits_iff {op : Op} {r : Ret} (h : Fits arch s) (hs : step arch s op = some (r, s')) :
    Fits arch s' ↔ FitsAt arch s (op, r) := by
  rcases step_cases hs with ⟨hop, hstack⟩ | ⟨entry, stackSize, rfl, ⟨hf, rfl⟩ | ⟨i, hf, rfl⟩⟩
  · exact iff_of_true (h.congr hstack) fun e sz _ he => absurd he (hop e sz)
  · refine iff_of_true h fun _ _ i _ hi => ?_
    rw [hf] at hi
    cases hi
  · rw [fillSlot_fits_iff h]
    constructor
    · intro hfit e sz k he hk hn
      obtain ⟨rfl, rfl⟩ := Op.create.inj he
      exact Option.some.inj (hf.symm.trans hk) ▸ hfit hn
    · exact fun hat => hat entry stackSize i rfl hf

/-! ### Every run -/

theorem not_populated_boot (m : Mem) (i : Fin maxTasks) : ¬ Populated (boot m) i := fun h => h rfl

/-- **When the stacks stay separate.** Throughout a run the stacks of the tasks in the pool are disjoint
and contain the words written for their tasks if and only if every `task_create` of the run has a size
of at least `minSize` bytes, no larger than the distance to the next task's stack, and no task's stack
before it is larger than the distance to the new one. -/
theorem stacks_separate_iff (arch : Arch) (m : Mem) {es : List Event} {t : State}
    (h : Run (step arch) (boot m) es t) :
    Throughout (step arch) (Separate arch) (boot m) es ↔
      Along (step arch) (FitsAt arch) (boot m) es := by
  have hbase : Based arch (boot m) := fun i hi => absurd hi (not_populated_boot m i)
  have hfits : Fits arch (boot m) :=
    ⟨fun i hi => absurd hi (not_populated_boot m i), fun i _ _ hi => absurd hi (not_populated_boot m i)⟩
  refine h.throughout_iff_along (I := Based arch) (fun _ _ _ _ hb hs => step_based hb hs) ?_ hbase
    ((separate_iff hbase).mpr hfits)
  intro s op r s' hb hsep hs
  rw [separate_iff (step_based hb hs)]
  exact step_fits_iff ((separate_iff hb).mp hsep) hs

/-- Task 1 with 32 KiB of stack, running; then a second task. -/
def largeStack : State := (schedStart (taskCreate .arm 0x08001000 0x8000 (boot fun _ => 0)).2).2

def largeEvents : List Event :=
  [(.create 0x08001000 0x8000, .pid 1), (.start, .switch (some ⟨none, 0x20017FE0⟩)),
    (.create 0x08002000 256, .pid 2)]

def overlapped : State := (taskCreate .arm 0x08002000 256 largeStack).2

theorem run_largeEvents : Run (step .arm) (boot fun _ => 0) largeEvents overlapped :=
  .cons rfl (.cons rfl (.cons rfl (.nil _)))

theorem stacks_separate_iff_large :
    Throughout (step .arm) (Separate .arm) (boot fun _ => 0) largeEvents ↔
      Along (step .arm) (FitsAt .arm) (boot fun _ => 0) largeEvents :=
  stacks_separate_iff .arm _ run_largeEvents

/-- The stack of the second task lies in that of the first. -/
theorem stacks_not_separate : ¬ ∀ (arch : Arch) (m : Mem) (es : List Event) (t : State),
    Run (step arch) (boot m) es t → Separate arch t := by
  intro hall
  have h := (hall .arm _ _ _ run_largeEvents).disjoint 0 1 0x20014000 (by decide) (by decide)
    (by unfold InStack; decide) (by unfold InStack; decide)
  exact absurd h (by decide)

end BloodKernel.Sched
