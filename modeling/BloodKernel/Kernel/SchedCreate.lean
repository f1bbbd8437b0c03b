import BloodKernel.Kernel.Sched

set_option autoImplicit false

/-!
# Created tasks and the slots of the pool

`task_create` takes the first slot with state 0, which is the state of a free slot and of a ready
task alike.

* `createdPids`, `PoolInv`: the pids a run handed out, and the pool's bookkeeping;
* `TakesFree`: the slot that `task_create` would take is free;
* **`created_kept_iff`**: a run keeps every created task exactly when every `task_create` of it
  starts in a state with `TakesFree`.
-/

namespace BloodKernel.Sched

open Lib

/-- The nonzero pids returned by the `task_create` calls, in order. -/
def createdPids : List Event → List U32
  | [] => []
  | (.create _ _, .pid p) :: es => if p = 0 then createdPids es else p :: createdPids es
  | _ :: es => createdPids es

/-- Every created task is in exactly one slot. -/
def Kept (es : List Event) (t : State) : Prop :=
  ∀ p ∈ createdPids es, ∃! i, (t.taskPool i).pid = p

/-- If some slot has state 0, the first such slot holds no task. -/
def TakesFree (s : State) : Prop :=
  ∀ i, (s.taskPool i).state = 0 → (∀ j < i, (s.taskPool j).state ≠ 0) → (s.taskPool i).pid = 0

/-- A condition on the states in which `task_create` is called. -/
def AtCreate (P : State → Prop) (s : State) (e : Event) : Prop :=
  ∀ entry stackSize, e.1 = .create entry stackSize → P s

theorem createdPids_append (es fs : List Event) :
    createdPids (es ++ fs) = createdPids es ++ createdPids fs := by
  fun_induction createdPids es <;> simp_all [createdPids]

theorem ne_zero_of_mem_createdPids {es : List Event} {p : U32} (h : p ∈ createdPids es) :
    p ≠ 0 := by
  fun_induction createdPids es with
  | case1 => cases h
  | case2 _ _ _ ih => exact ih h
  | case3 _ _ q es hq ih =>
      rcases List.mem_cons.mp h with rfl | h
      · exact hq
      · exact ih h
  | case4 _ _ _ ih => exact ih h

theorem createdPids_single_of_ne {op : Op} {r : Ret}
    (hop : ∀ entry stackSize, op ≠ .create entry stackSize) : createdPids [(op, r)] = [] := by
  cases op <;> simp_all [createdPids]

/-- The bookkeeping of a run that handed out the pids `ps`. -/
structure PoolInv (ps : List U32) (t : State) : Prop where
  next : t.nextPid.toNat = ps.length + 1
  lt : ∀ p ∈ ps, p.toNat < t.nextPid.toNat
  mem : ∀ i, (t.taskPool i).pid ≠ 0 → (t.taskPool i).pid ∈ ps
  inj : ∀ i j, (t.taskPool i).pid = (t.taskPool j).pid → (t.taskPool i).pid ≠ 0 → i = j

theorem poolInv_boot (m : Mem) : PoolInv [] (boot m) where
  next := rfl
  lt := by simp
  mem i h := absurd rfl h
  inj i j _ h := absurd rfl h

theorem PoolInv.congr {ps : List U32} {s t : State} (h : PoolInv ps s)
    (hp : ∀ i, (t.taskPool i).pid = (s.taskPool i).pid) (hn : t.nextPid = s.nextPid) :
    PoolInv ps t where
  next := hn ▸ h.next
  lt := hn ▸ h.lt
  mem i := by rw [hp]; exact h.mem i
  inj i j := by rw [hp, hp]; exact h.inj i j

section Fill

variable {arch : Arch} {entry stackSize : U32} {s : State} {ps : List U32}

theorem fillSlot_nextPid_toNat {i : Fin maxTasks} (h : PoolInv ps s) (hmax : ps.length < maxTasks) :
    (fillSlot arch entry stackSize s i).nextPid.toNat = ps.length + 2 := by
  have := h.next
  have hm : ps.length < 32 := hmax
  show (s.nextPid + 1).toNat = _
  bv_omega

theorem PoolInv.fill {i : Fin maxTasks} (h : PoolInv ps s) (hmax : ps.length < maxTasks) :
    PoolInv (ps ++ [s.nextPid]) (fillSlot arch entry stackSize s i) := by
  have hn := @fillSlot_nextPid_toNat arch entry stackSize s ps i h hmax
  -- the new pid is larger than every pid in the pool
  have hnew : ∀ j, (s.taskPool j).pid ≠ s.nextPid := by
    intro j he
    by_cases h0 : (s.taskPool j).pid = 0
    · have := h.next
      rw [← he, h0] at this
      simp at this
    · have := h.lt _ (h.mem j h0)
      rw [he] at this
      exact lt_irrefl _ this
  refine ⟨by rw [hn]; simp, fun p hp => ?_, fun j hj => ?_, fun j k hjk hj => ?_⟩
  · rw [hn]
    rcases List.mem_append.mp hp with hp | hp
    · have := h.lt p hp
      have := h.next
      omega
    · rw [List.mem_singleton.mp hp, h.next]
      omega
  · by_cases hji : j = i
    · rw [hji, fillSlot_pid]
      simp
    · rw [fillSlot_of_ne hji] at hj ⊢
      exact List.mem_append_left _ (h.mem j hj)
  · by_cases hji : j = i
    · by_cases hki : k = i
      · rw [hji, hki]
      · rw [hji, fillSlot_pid, fillSlot_of_ne hki] at hjk
        exact absurd hjk.symm (hnew k)
    · by_cases hki : k = i
      · rw [hki, fillSlot_pid, fillSlot_of_ne hji] at hjk
        exact absurd hjk (hnew j)
      · rw [fillSlot_of_ne hji] at hj hjk
        rw [fillSlot_of_ne hki] at hjk
        exact h.inj j k hjk hj

/-- Filling slot `i` keeps all tasks of the pool exactly when slot `i` held none. -/
theorem held_fill_iff {i : Fin maxTasks} (h : PoolInv ps s) (h0 : ∀ p ∈ ps, p ≠ 0) :
    (∀ p ∈ ps ++ [s.nextPid], ∃ j, ((fillSlot arch entry stackSize s i).taskPool j).pid = p) ↔
      (∀ p ∈ ps, ∃ j, (s.taskPool j).pid = p) ∧ (s.taskPool i).pid = 0 := by
  have hne : ∀ p ∈ ps, p ≠ s.nextPid := fun p hp he => by
    have := h.lt p hp
    rw [he] at this
    exact lt_irrefl _ this
  -- a task created before is in the new pool only outside slot `i`
  have hold : ∀ p ∈ ps, ∀ j, ((fillSlot arch entry stackSize s i).taskPool j).pid = p →
      j ≠ i ∧ (s.taskPool j).pid = p := fun p hp j hj => by
    have hji : j ≠ i := fun e => hne p hp (by rw [← hj, e, fillSlot_pid])
    rw [fillSlot_of_ne hji] at hj
    exact ⟨hji, hj⟩
  refine ⟨fun hk => ⟨fun p hp => ?_, ?_⟩, fun ⟨hk, hi⟩ p hp => ?_⟩
  · obtain ⟨j, hj⟩ := hk p (List.mem_append_left _ hp)
    exact ⟨j, (hold p hp j hj).2⟩
  · by_contra hi
    have hp := h.mem i hi
    obtain ⟨j, hj⟩ := hk _ (List.mem_append_left _ hp)
    obtain ⟨hji, hj'⟩ := hold _ hp j hj
    exact hji (h.inj j i hj' (hj' ▸ hi))
  · rcases List.mem_append.mp hp with hp | hp
    · obtain ⟨j, hj⟩ := hk p hp
      have hji : j ≠ i := fun e => h0 p hp (by rw [← hj, e, hi])
      exact ⟨j, by rw [fillSlot_of_ne hji, hj]⟩
    · exact ⟨i, by rw [fillSlot_pid, List.mem_singleton.mp hp]⟩

end Fill

/-- `TakesFree` in terms of the slot that `task_create` takes. -/
theorem takesFree_iff {s : State} {i : Fin maxTasks}
    (h : first (fun i => (s.taskPool i).state == 0) = some i) :
    TakesFree s ↔ (s.taskPool i).pid = 0 := by
  obtain ⟨hi, hlt⟩ := first_eq_some_iff.mp h
  simp only [beq_iff_eq] at hi
  simp only [beq_eq_false_iff_ne, ne_eq] at hlt
  refine ⟨fun ht => ht i hi hlt, fun h0 j hj hjlt => ?_⟩
  obtain hji | hji | hji := lt_trichotomy j i
  · exact absurd hj (hlt j hji)
  · rw [hji, h0]
  · exact absurd hi (hjlt i hji)

theorem takesFree_of_none {s : State}
    (h : first (fun i => (s.taskPool i).state == 0) = none) : TakesFree s := by
  intro i hi
  have := first_eq_none_iff.mp h i
  simp [hi] at this

variable {arch : Arch}

/-- **One step.** Under the bookkeeping, a call keeps all tasks of the pool exactly when it is not a
`task_create` on an occupied slot; and the bookkeeping goes on. -/
theorem step_held_iff {s s' : State} {op : Op} {r : Ret} {ps : List U32} (h : PoolInv ps s)
    (h0 : ∀ p ∈ ps, p ≠ 0) (hmax : (ps ++ createdPids [(op, r)]).length ≤ maxTasks)
    (hs : step arch s op = some (r, s')) :
    PoolInv (ps ++ createdPids [(op, r)]) s' ∧
      ((∀ p ∈ ps ++ createdPids [(op, r)], ∃ i, (s'.taskPool i).pid = p) ↔
        (∀ p ∈ ps, ∃ i, (s.taskPool i).pid = p) ∧ AtCreate TakesFree s (op, r)) := by
  by_cases hop : ∀ entry stackSize, op ≠ .create entry stackSize
  · obtain ⟨hp, hn⟩ := step_pid hop hs
    rw [createdPids_single_of_ne hop, List.append_nil]
    refine ⟨h.congr hp hn, ?_⟩
    simp only [hp]
    exact ⟨fun hk => ⟨hk, fun e sz he => absurd he (hop e sz)⟩, And.left⟩
  · push Not at hop
    obtain ⟨entry, stackSize, rfl⟩ := hop
    have hat : AtCreate TakesFree s (.create entry stackSize, r) ↔ TakesFree s :=
      ⟨fun ha => ha entry stackSize rfl, fun ht _ _ _ => ht⟩
    simp only [step, Option.some.injEq, Prod.mk.injEq] at hs
    obtain ⟨rfl, rfl⟩ := hs
    rw [hat]
    cases hf : first fun i => (s.taskPool i).state == 0 with
    | none =>
        simp only [taskCreate_none s hf, createdPids, if_true, List.append_nil]
        exact ⟨h, fun hk => ⟨hk, takesFree_of_none hf⟩, And.left⟩
    | some i =>
        have hnz : s.nextPid ≠ 0 := fun he => by
          have := h.next
          rw [he] at this
          simp at this
        simp only [taskCreate_some s hf, createdPids, if_neg hnz] at hmax ⊢
        rw [takesFree_iff hf]
        refine ⟨h.fill ?_, held_fill_iff h h0⟩
        simp only [List.length_append, List.length_singleton] at hmax
        omega

theorem run_held_iff (m : Mem) {es : List Event} {t : State} (h : Run (step arch) (boot m) es t)
    (hmax : (createdPids es).length ≤ maxTasks) :
    PoolInv (createdPids es) t ∧ ((∀ p ∈ createdPids es, ∃ i, (t.taskPool i).pid = p) ↔
      Along (step arch) (AtCreate TakesFree) (boot m) es) := by
  refine h.history (fun es t => (createdPids es).length ≤ maxTasks →
    PoolInv (createdPids es) t ∧ ((∀ p ∈ createdPids es, ∃ i, (t.taskPool i).pid = p) ↔
      Along (step arch) (AtCreate TakesFree) (boot m) es)) ?_ ?_ hmax
  · exact fun _ => ⟨poolInv_boot m, by simp [createdPids, along_nil]⟩
  · intro es t op r u hrun ih hs hmax
    rw [createdPids_append] at hmax ⊢
    obtain ⟨hinv, hiff⟩ := ih (by rw [List.length_append] at hmax; omega)
    obtain ⟨hinv', hiff'⟩ := step_held_iff hinv (fun p => ne_zero_of_mem_createdPids) hmax hs
    exact ⟨hinv', by rw [hiff', hiff, along_snoc hrun]⟩

/-- **What keeps the created tasks.** In a run with at most `MAX_TASKS` created tasks, every pid
that was returned is the pid of exactly one slot if and only if no `task_create` of the run found
an occupied slot first. Neither exits nor broken canaries matter. -/
theorem created_kept_iff (arch : Arch) (m : Mem) {es : List Event} {t : State}
    (h : Run (step arch) (boot m) es t) (hmax : (createdPids es).length ≤ maxTasks) :
    Kept es t ↔ Along (step arch) (AtCreate TakesFree) (boot m) es := by
  obtain ⟨hinv, hiff⟩ := run_held_iff m h hmax
  rw [← hiff]
  refine forall₂_congr fun p hp => ⟨fun ⟨i, hi, _⟩ => ⟨i, hi⟩, fun ⟨i, hi⟩ => ⟨i, hi, ?_⟩⟩
  intro j hj
  have h0 := ne_zero_of_mem_createdPids hp
  exact hinv.inj j i (hj.trans hi.symm) (fun he => h0 (hj.symm.trans he))

/-! ### Two tasks created in a row -/

/-- Every task's canary is as recorded. -/
def CanariesIntact (s : State) : Prop :=
  ∀ i, (s.taskPool i).pid ≠ 0 → checkCanary s.mem (s.taskPool i) = 1

instance : DecidablePred CanariesIntact := fun _ => by unfold CanariesIntact; infer_instance

/-- Two tasks created on the ARM target, as `kernel_main` does. -/
def twoCreates : List Event :=
  [(.create 0x08001000 256, .pid 1), (.create 0x08002000 256, .pid 2)]

def afterCreate : State := (taskCreate .arm 0x08001000 256 (boot fun _ => 0)).2

def afterTwoCreates : State := (taskCreate .arm 0x08002000 256 afterCreate).2

theorem step_firstCreate : step .arm (boot fun _ => 0) (.create 0x08001000 256) =
    some (.pid 1, afterCreate) := rfl

theorem step_secondCreate : step .arm afterCreate (.create 0x08002000 256) =
    some (.pid 2, afterTwoCreates) := rfl

theorem run_twoCreates : Run (step .arm) (boot fun _ => 0) twoCreates afterTwoCreates :=
  .cons step_firstCreate (.cons step_secondCreate (.nil _))

theorem created_kept_iff_twoCreates : Kept twoCreates afterTwoCreates ↔
    Along (step .arm) (AtCreate TakesFree) (boot fun _ => 0) twoCreates :=
  created_kept_iff .arm _ run_twoCreates (by decide)

/-- The second `task_create` overwrites the first task. -/
theorem created_not_kept : ¬ ∀ (arch : Arch) (m : Mem) (es : List Event) (t : State),
    Run (step arch) (boot m) es t → (∀ e ∈ es, e.1 ≠ .exit) →
    Throughout (step arch) CanariesIntact (boot m) es →
    (createdPids es).length ≤ maxTasks → Kept es t := by
  intro hall
  have hcan : Throughout (step .arm) CanariesIntact (boot fun _ => 0) twoCreates := by
    rw [twoCreates, throughout_cons step_firstCreate, throughout_cons step_secondCreate,
      throughout_nil]
    decide
  have hkept := hall .arm _ twoCreates afterTwoCreates run_twoCreates (by simp [twoCreates]) hcan
    (by decide)
  obtain ⟨i, hi, -⟩ := hkept 1 (by decide)
  revert i
  decide

end BloodKernel.Sched
