import BloodKernel.Kernel.SchedYield

set_option autoImplicit false

/-!
# The running task

* `RunningOk`: the current task, and no other, has state 1;
* `taskYield_runningOk_iff`: when a yield establishes it;
* **`running_iff`**: after the first dispatch it holds throughout a run exactly when the running
  task neither exits nor yields with a broken canary while it is the only candidate.
-/

namespace BloodKernel.Sched

open Lib

/-- `current_task` points to a slot with state 1, and no other slot has state 1. -/
def RunningOk (s : State) : Prop :=
  ∃ c, s.currentTask = some c ∧ (s.taskPool c).state = 1 ∧ ∀ i ≠ c, (s.taskPool i).state ≠ 1

/-- If the call is an exit, or a yield of a task with a broken canary, another slot is a candidate
of the yield. -/
def NotAlone (s : State) (e : Event) : Prop :=
  ∀ c, s.currentTask = some c →
    (e.1 = .exit → ∃ j ≠ c, Runnable s j) ∧
    (e.1 = .yield → Overflowed s c → ∃ j ≠ c, Runnable s j)

variable {s : State}

theorem switchTo_state {n i : Fin maxTasks} : ((switchTo s n).2.taskPool i).state =
    if i = n then 1 else if s.currentTask = some i then 0 else (s.taskPool i).state := by
  simp only [switchTo]
  by_cases hn : i = n
  · simp [hn]
  · rw [if_neg hn, setState_of_ne _ hn]
    cases hc : s.currentTask with
    | none => simp
    | some c =>
        by_cases h : c = i
        · simp [h]
        · simp [h, setState_of_ne _ (Ne.symm h)]

theorem switchTo_runningOk {n : Fin maxTasks}
    (hs : ∀ i, s.currentTask ≠ some i → (s.taskPool i).state ≠ 1) :
    RunningOk (switchTo s n).2 := by
  refine ⟨n, rfl, by simp [switchTo_state], fun i hi => ?_⟩
  rw [switchTo_state, if_neg hi]
  split_ifs with hc
  · decide
  · exact hs i hc

theorem taskStackCheck_state_ne_one {i : Fin maxTasks} (h : (s.taskPool i).state ≠ 1) :
    ((taskStackCheck s).taskPool i).state ≠ 1 := by
  rw [taskStackCheck_state]
  split_ifs
  · decide
  · exact h

/-- **When a yield leaves exactly the current task running.** -/
theorem taskYield_runningOk_iff {c : Fin maxTasks} (hc : s.currentTask = some c)
    (hs : ∀ i ≠ c, (s.taskPool i).state ≠ 1) : RunningOk (taskYield s).2 ↔
      (∃ j ≠ c, Runnable s j) ∨ ((s.taskPool c).state = 1 ∧ ¬ Overflowed s c) := by
  have hothers : ∀ i ≠ c, ((taskStackCheck s).taskPool i).state ≠ 1 := fun i hi =>
    taskStackCheck_state_ne_one (hs i hi)
  -- without a switch, the stack check decides
  have hstay : RunningOk (taskStackCheck s) ↔ (s.taskPool c).state = 1 ∧ ¬ Overflowed s c := by
    have hval := taskStackCheck_state s c
    refine ⟨fun ⟨c', hc', h1, _⟩ => ?_, fun ⟨h1, ho⟩ => ⟨c, hc, ?_, hothers⟩⟩
    · obtain rfl : c = c' := Option.some.inj (hc.symm.trans hc')
      rw [hval] at h1
      split_ifs at h1 with ho
      · exact absurd h1 (by decide)
      · exact ⟨h1, ho⟩
    · rw [hval, if_neg ho, h1]
  rw [taskYield_eq]
  cases hn : nextSlot s with
  | none =>
      have hnone := (nextSlot_eq_none_iff s).mp hn
      refine hstay.trans ⟨.inr, fun h => h.resolve_left ?_⟩
      exact fun ⟨j, _, hj⟩ => hnone j hj
  | some n =>
      have hr := runnable_of_nextSlot hn
      by_cases hnc : n = c
      · subst hnc
        have hnot : ¬ ∃ j ≠ n, Runnable s j := fun ⟨j, hj, hrj⟩ =>
          not_runnable_of_nextSlot_self hc hn hj hrj
        simp only [if_pos hc]
        exact hstay.trans ⟨.inr, fun h => h.resolve_left hnot⟩
      · have hne : ¬ s.currentTask = some n := fun h => hnc (Option.some.inj (h.symm.trans hc))
        simp only [if_neg hne]
        refine iff_of_true (switchTo_runningOk fun i hi => hothers i fun e => hi ?_) (.inl ⟨n, hnc, hr⟩)
        rw [e]
        exact hc

theorem markExit_of_ne {c j : Fin maxTasks} (hj : j ≠ c) :
    (markExit s c).taskPool j = s.taskPool j := setState_of_ne _ hj 0

theorem runnable_markExit {c j : Fin maxTasks} (hj : j ≠ c) :
    Runnable (markExit s c) j ↔ Runnable s j := by
  rw [Runnable, Runnable, markExit_of_ne hj]
  rfl

/-- **When the yield of an exit leaves exactly the current task running**: it has to switch. -/
theorem exit_runningOk_iff {c : Fin maxTasks} (hc : s.currentTask = some c)
    (hs : ∀ i ≠ c, (s.taskPool i).state ≠ 1) :
    RunningOk (taskYield (markExit s c)).2 ↔ ∃ j ≠ c, Runnable s j := by
  have hmark : ∀ i ≠ c, ((markExit s c).taskPool i).state ≠ 1 := fun i hi => by
    rw [markExit_of_ne hi]
    exact hs i hi
  have hself : ((markExit s c).taskPool c).state ≠ 1 := by
    have h0 : ((markExit s c).taskPool c).state = 0 := setState_self _ _ _
    rw [h0]
    decide
  rw [taskYield_runningOk_iff (s := markExit s c) hc hmark, or_iff_left fun h => hself h.1]
  exact exists_congr fun j => and_congr_right fun hj => runnable_markExit hj

theorem taskCreate_state {arch : Arch} {entry stackSize : U32} (i : Fin maxTasks) :
    ((taskCreate arch entry stackSize s).2.taskPool i).state = (s.taskPool i).state := by
  cases hf : first fun i => (s.taskPool i).state == 0 with
  | none => rw [taskCreate_none s hf]
  | some k =>
      rw [taskCreate_some s hf]
      by_cases hi : i = k
      · have := (first_eq_some_iff.mp hf).1
        simp only [beq_iff_eq] at this
        rw [hi, fillSlot_state, this]
      · rw [fillSlot_of_ne hi]

theorem taskCreate_currentTask {arch : Arch} {entry stackSize : U32} :
    (taskCreate arch entry stackSize s).2.currentTask = s.currentTask := by
  cases hf : first fun i => (s.taskPool i).state == 0 with
  | none => rw [taskCreate_none s hf]
  | some k => rw [taskCreate_some s hf]; rfl

theorem schedStart_of_some {c : Fin maxTasks} (hc : s.currentTask = some c) :
    (schedStart s).2 = s := by
  simp only [schedStart, hc]

/-- `RunningOk` reads the current task and the states only. -/
theorem runningOk_congr {t : State} (hc : t.currentTask = s.currentTask)
    (hs : ∀ i, (t.taskPool i).state = (s.taskPool i).state) : RunningOk t ↔ RunningOk s := by
  simp only [RunningOk, hc, hs]

theorem notAlone_of_ne {op : Op} {r : Ret} (he : op ≠ .exit) (hy : op ≠ .yield) :
    NotAlone s (op, r) :=
  fun _ _ => ⟨fun h => absurd h he, fun h => absurd h hy⟩

/-- **One step.** From a good state, a call leads to a good state exactly when it is `NotAlone`. -/
theorem step_runningOk_iff {arch : Arch} {op : Op} {r : Ret} {s' : State} (h : RunningOk s)
    (hs : step arch s op = some (r, s')) : RunningOk s' ↔ NotAlone s (op, r) := by
  obtain ⟨c, hc, h1, hothers⟩ := h
  have hgood : RunningOk s := ⟨c, hc, h1, hothers⟩
  have hcur : ∀ c', s.currentTask = some c' → c' = c := fun c' h =>
    Option.some.inj (h.symm.trans hc)
  cases op with
  | create entry stackSize =>
      cases hs
      refine iff_of_true ((runningOk_congr taskCreate_currentTask taskCreate_state).mpr hgood) ?_
      exact notAlone_of_ne (by simp) (by simp)
  | start =>
      cases hs
      rw [schedStart_of_some hc]
      exact iff_of_true hgood (notAlone_of_ne (by simp) (by simp))
  | outside m sp =>
      cases hs
      exact iff_of_true hgood (notAlone_of_ne (by simp) (by simp))
  | yield =>
      cases hs
      rw [taskYield_runningOk_iff hc hothers]
      refine ⟨fun h c' hc' => ⟨fun he => absurd he (by simp), fun _ ho => ?_⟩, fun h => ?_⟩
      · rw [hcur c' hc'] at ho ⊢
        exact h.resolve_right fun hn => hn.2 ho
      · by_cases ho : Overflowed s c
        · exact .inl ((h c hc).2 rfl ho)
        · exact .inr ⟨h1, ho⟩
  | exit =>
      simp only [step, taskExit, hc, Option.map_some, Option.some.injEq, Prod.mk.injEq] at hs
      obtain ⟨-, rfl⟩ := hs
      rw [exit_runningOk_iff hc hothers]
      refine ⟨fun h c' hc' => ⟨fun _ => ?_, fun he => absurd he (by simp)⟩, fun h => (h c hc).1 rfl⟩
      rw [hcur c' hc']
      exact h

/-- Before the first dispatch no slot is running. -/
def NoneRunning (s : State) : Prop :=
  s.currentTask = none → ∀ i, (s.taskPool i).state ≠ 1

theorem taskYield_noneRunning (h : NoneRunning s) : NoneRunning (taskYield s).2 := by
  intro hnone i
  rw [taskYield_currentTask] at hnone
  obtain ⟨hn, hc⟩ := Option.or_eq_none_iff.mp hnone
  rw [taskYield_eq, hn]
  exact taskStackCheck_state_ne_one (h hc i)

theorem step_noneRunning {arch : Arch} {op : Op} {r : Ret} {s' : State} (h : NoneRunning s)
    (hs : step arch s op = some (r, s')) : NoneRunning s' := by
  cases op with
  | create entry stackSize =>
      cases hs
      intro hc i
      have hc' : s.currentTask = none := taskCreate_currentTask.symm.trans hc
      exact fun he => h hc' i ((taskCreate_state i).symm.trans he)
  | start =>
      cases hs
      intro hc i
      unfold schedStart at hc ⊢
      cases hcur : s.currentTask with
      | some c => simp [hcur] at hc
      | none =>
          cases hf : first fun i => ready (s.taskPool i) with
          | some k => simp [hcur, hf] at hc
          | none => simpa [hcur, hf] using h hcur i
  | yield =>
      cases hs
      exact taskYield_noneRunning h
  | exit =>
      simp only [step, taskExit, Option.map_map, Option.map_eq_some_iff] at hs
      obtain ⟨c, hc, hs⟩ := hs
      cases hs
      exact taskYield_noneRunning fun hnone => absurd (hc.symm.trans hnone) (Option.some_ne_none c)
  | outside m sp =>
      cases hs
      exact h

theorem schedStart_runningOk {s₁ : State} {sw : Switch} (hc : s.currentTask = none)
    (hn : NoneRunning s) (hs : schedStart s = (some sw, s₁)) : RunningOk s₁ := by
  unfold schedStart at hs
  cases hf : first fun i => ready (s.taskPool i) with
  | none => simp [hc, hf] at hs
  | some k =>
      simp only [hc, hf, Prod.mk.injEq] at hs
      obtain ⟨-, rfl⟩ := hs
      refine ⟨k, rfl, setState_self _ _ _, fun i hi => ?_⟩
      show (s.taskPool.setState k 1 i).state ≠ 1
      rw [setState_of_ne _ hi]
      exact hn hc i

/-- **When the current task stays the only running one.** After `sched_start` has dispatched a first
task, `RunningOk` holds throughout a run if and only if every call of it is `NotAlone`. -/
theorem running_iff (arch : Arch) (m : Mem) {pre es : List Event} {s₀ s₁ t : State} {sw : Switch}
    (h₀ : Run (step arch) (boot m) pre s₀) (hc : s₀.currentTask = none)
    (hs : schedStart s₀ = (some sw, s₁)) (h : Run (step arch) s₁ es t) :
    Throughout (step arch) RunningOk s₁ es ↔ Along (step arch) NotAlone s₁ es := by
  have hboot : NoneRunning (boot m) := fun _ i => by
    show (0 : U8) ≠ 1
    decide
  have hnone : NoneRunning s₀ :=
    h₀.invariant NoneRunning (fun _ _ _ _ h hs => step_noneRunning h hs) hboot
  exact h.throughout_iff_along (I := fun _ => True) (fun _ _ _ _ _ _ => trivial)
    (fun _ _ _ _ _ h hs => step_runningOk_iff h hs) trivial (schedStart_runningOk hc hnone hs)

/-- The only task exits: the yield finds no other slot and does not switch. -/
def loneExit : State := (taskYield (markExit startA 0)).2

theorem run_loneExit : Run (step .arm) startA [(.exit, .switch none)] loneExit :=
  .cons rfl (.nil _)

theorem run_createA : Run (step .arm) (boot fun _ => 0) [(.create 0x08001000 256, .pid 1)]
    afterCreate := .cons step_firstCreate (.nil _)

theorem schedStart_createA : schedStart afterCreate = (some ⟨none, 0x200100E0⟩, startA) := rfl

theorem running_iff_loneExit : Throughout (step .arm) RunningOk startA [(.exit, .switch none)] ↔
    Along (step .arm) NotAlone startA [(.exit, .switch none)] :=
  running_iff .arm _ run_createA rfl schedStart_createA run_loneExit

/-- After the exit of the only task the current slot has state 0. -/
theorem running_not_kept : ¬ ∀ (arch : Arch) (m : Mem) (pre es : List Event) (s₀ s₁ t : State)
    (sw : Switch), Run (step arch) (boot m) pre s₀ → s₀.currentTask = none →
    schedStart s₀ = (some sw, s₁) → Run (step arch) s₁ es t → RunningOk t := by
  intro hall
  obtain ⟨c, -, h1, -⟩ := hall .arm _ _ _ _ _ _ _ run_createA rfl schedStart_createA run_loneExit
  revert c
  decide

end BloodKernel.Sched
