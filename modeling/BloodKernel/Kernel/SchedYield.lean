import BloodKernel.Kernel.SchedCreate

set_option autoImplicit false

/-!
# Which task `task_yield` selects

A slot is a candidate of `task_yield` if its pid is nonzero and its state is 0, which
`task_stack_check` also makes the state of a slot with a broken canary.

* `Runnable`, `taskYield_currentTask`: the candidates, and the slot that is current after a yield;
* `PassesOver`, **`curPid_taskYield_ne_iff`**: when a yield does not leave the CPU with a given task;
* **`exit_final_iff`**: when tasks that called `task_exit` never run again;
* **`overflow_final_iff`**: when tasks with a broken canary never run again.
-/

namespace BloodKernel.Sched

open Lib

/-- The slot holds a task whose canary is broken. -/
def Overflowed (s : State) (i : Fin maxTasks) : Prop :=
  (s.taskPool i).pid ≠ 0 ∧ checkCanary s.mem (s.taskPool i) = 0

/-- The slot is a candidate of a `task_yield` that starts in `s`. -/
def Runnable (s : State) (i : Fin maxTasks) : Prop :=
  (s.taskPool i).pid ≠ 0 ∧ ((s.taskPool i).state = 0 ∨ checkCanary s.mem (s.taskPool i) = 0)

instance (s : State) : DecidablePred (Overflowed s) := fun _ => by unfold Overflowed; infer_instance

instance (s : State) : DecidablePred (Runnable s) := fun _ => by unfold Runnable; infer_instance

variable (s : State)

theorem Overflowed.runnable {s : State} {i : Fin maxTasks} (h : Overflowed s i) : Runnable s i :=
  ⟨h.1, .inr h.2⟩

theorem taskStackCheck_state (i : Fin maxTasks) : ((taskStackCheck s).taskPool i).state =
    if Overflowed s i then 0 else (s.taskPool i).state := by
  by_cases h : Overflowed s i
  · rw [if_pos h, taskStackCheck]
    exact congrArg Task.state (if_pos h)
  · rw [if_neg h, taskStackCheck]
    exact congrArg Task.state (if_neg h)

theorem ready_taskStackCheck (i : Fin maxTasks) :
    ready ((taskStackCheck s).taskPool i) = decide (Runnable s i) := by
  rw [ready, taskStackCheck_state, taskStackCheck_pid, Bool.eq_iff_iff, decide_eq_true_iff,
    Bool.and_eq_true, beq_iff_eq, bne_iff_ne]
  by_cases h : Overflowed s i
  · rw [if_pos h]
    exact ⟨fun _ => h.runnable, fun _ => ⟨rfl, h.1⟩⟩
  · rw [if_neg h]
    refine ⟨fun hr => ⟨hr.2, .inl hr.1⟩, fun hr => ⟨?_, hr.1⟩⟩
    exact hr.2.resolve_right fun hc => h ⟨hr.1, hc⟩

/-- The search of `task_yield`. -/
def nextSlot : Option (Fin maxTasks) := nextFrom (fun i => decide (Runnable s i)) (yieldStart s)

theorem taskYield_eq : taskYield s = match nextSlot s with
    | some n => if s.currentTask = some n then (none, taskStackCheck s)
        else switchTo (taskStackCheck s) n
    | none => (none, taskStackCheck s) := by
  simp only [taskYield, ready_taskStackCheck]
  rfl

theorem taskYield_currentTask : (taskYield s).2.currentTask = (nextSlot s).or s.currentTask := by
  rw [taskYield_eq]
  cases nextSlot s with
  | none => rfl
  | some n =>
      by_cases h : s.currentTask = some n
      · simp [h]
      · simp [h]

theorem runnable_of_nextSlot {s : State} {n : Fin maxTasks} (h : nextSlot s = some n) :
    Runnable s n := of_decide_eq_true (nextFrom_holds h)

theorem nextSlot_eq_none_iff : nextSlot s = none ↔ ∀ i, ¬ Runnable s i := by
  simp [nextSlot, nextFrom_eq_none_iff]

/-- The search finds the current slot only if there is no other candidate. -/
theorem not_runnable_of_nextSlot_self {s : State} {c : Fin maxTasks} (hc : s.currentTask = some c)
    (h : nextSlot s = some c) {j : Fin maxTasks} (hj : j ≠ c) : ¬ Runnable s j := by
  have hstart : yieldStart s = c := by rw [yieldStart, hc]
  rw [nextSlot, hstart] at h
  exact of_decide_eq_false (nextFrom_eq_start h hj)

/-- The pid of the current task. -/
def curPid : Option U32 := s.currentTask.map fun c => (s.taskPool c).pid

/-- The yield starting in `s` passes over the task `p`: going round from the slot after the current
one, every candidate slot of `p` comes after a candidate slot of another task; and if there is no
candidate at all, `p` is not current. -/
def PassesOver (p : U32) (s : State) : Prop :=
  (∀ k, 1 ≤ k → k ≤ maxTasks → Runnable s (slotAfter maxTasks (yieldStart s) k) →
    (s.taskPool (slotAfter maxTasks (yieldStart s) k)).pid = p →
    ∃ j, 1 ≤ j ∧ j < k ∧ Runnable s (slotAfter maxTasks (yieldStart s) j) ∧
      (s.taskPool (slotAfter maxTasks (yieldStart s) j)).pid ≠ p) ∧
  ((∀ i, ¬ Runnable s i) → curPid s ≠ some p)

/-- **When a yield does not leave the CPU with task `p`.** -/
theorem curPid_taskYield_ne_iff (p : U32) : curPid (taskYield s).2 ≠ some p ↔ PassesOver p s := by
  have havoid := @nextFrom_avoids_iff _ _ (fun i => decide (Runnable s i)) (yieldStart s)
    fun i => (s.taskPool i).pid = p
  simp only [decide_eq_true_eq] at havoid
  rw [PassesOver, ← havoid, curPid, taskYield_currentTask]
  simp only [taskYield_pid]
  show _ ↔ (∀ i, nextSlot s = some i → _) ∧ _
  cases hn : nextSlot s with
  | none => simp [(nextSlot_eq_none_iff s).mp hn, curPid]
  | some n =>
      have hr := runnable_of_nextSlot hn
      have hnone : ¬ ∀ i, ¬ Runnable s i := fun h => h n hr
      simp [hnone]

/-! ### Yields of a run -/

/-- The state in which the `task_yield` of a call starts, if the call yields. -/
def yieldState (s : State) : Op → Option State
  | .yield => some s
  | .exit => s.currentTask.map (markExit s)
  | _ => none

/-- A condition on the state in which a call yields. -/
def AtYield (Q : State → Prop) (s : State) (e : Event) : Prop :=
  ∀ y, yieldState s e.1 = some y → Q y

/-- In the run `es`, `Q p` holds at every yield after task `p` called `task_exit`. -/
def AfterExit (arch : Arch) (Q : U32 → State → Prop) (s₀ : State) (es : List Event) : Prop :=
  ∀ pre r post s₁ s₂ c, es = pre ++ (.exit, r) :: post → Run (step arch) s₀ pre s₁ →
    s₁.currentTask = some c → step arch s₁ .exit = some (r, s₂) →
    Along (step arch) (AtYield (Q (s₁.taskPool c).pid)) s₂ post

/-- In the run `es`, `Q p` holds at every yield that finds the canary of task `p` broken, and at
every later one. -/
def AfterOverflow (arch : Arch) (Q : U32 → State → Prop) (s₀ : State) (es : List Event) : Prop :=
  ∀ pre op r post s₁ y i, es = pre ++ (op, r) :: post → Run (step arch) s₀ pre s₁ →
    yieldState s₁ op = some y → Overflowed y i →
    Along (step arch) (AtYield (Q (y.taskPool i).pid)) s₁ ((op, r) :: post)

/-- In the run `es`, every `task_exit` in a state with another ready task switches to another
task. -/
def ExitHandsOver (arch : Arch) (s₀ : State) (es : List Event) : Prop :=
  ∀ pre r post s₁ s₂ c j, es = pre ++ (.exit, r) :: post → Run (step arch) s₀ pre s₁ →
    s₁.currentTask = some c → step arch s₁ .exit = some (r, s₂) → j ≠ c →
    ready (s₁.taskPool j) = true →
    ∃ n, n ≠ c ∧ s₂.currentTask = some n ∧ r = .switch (some ⟨some c, (s₁.taskPool n).sp⟩)

/-- The task left with the CPU by a yield starting in `y` is not `p`. -/
def NotSelected (p : U32) (y : State) : Prop := curPid (taskYield y).2 ≠ some p

theorem notSelected_eq : NotSelected = PassesOver := by
  funext p y
  exact propext (curPid_taskYield_ne_iff y p)

variable {s}

theorem taskExit_handsOver {c j : Fin maxTasks} (hc : s.currentTask = some c) (hj : j ≠ c)
    (hr : ready (s.taskPool j) = true) :
    ∃ n, n ≠ c ∧ (taskYield (markExit s c)).2.currentTask = some n ∧
      (taskYield (markExit s c)).1 = some ⟨some c, (s.taskPool n).sp⟩ := by
  have hcur : (markExit s c).currentTask = some c := hc
  have hrun : Runnable (markExit s c) j := by
    simp only [ready, Bool.and_eq_true, beq_iff_eq, bne_iff_ne] at hr
    simp only [Runnable, markExit, setState_of_ne _ hj]
    exact ⟨hr.2, .inl hr.1⟩
  cases hn : nextSlot (markExit s c) with
  | none => exact absurd hrun ((nextSlot_eq_none_iff _).mp hn j)
  | some n =>
      have hnc : n ≠ c := fun e =>
        not_runnable_of_nextSlot_self hcur (e ▸ hn) hj hrun
      have hcn : ¬ (markExit s c).currentTask = some n := by
        rw [hcur]
        exact fun e => hnc (Option.some.inj e).symm
      rw [taskYield_eq, hn]
      simp only [if_neg hcn]
      refine ⟨n, hnc, rfl, ?_⟩
      simp only [switchTo, taskStackCheck_currentTask, hcur, setState_sp, taskStackCheck_sp]
      simp only [markExit, setState_sp]

theorem exitHandsOver (arch : Arch) (s₀ : State) (es : List Event) : ExitHandsOver arch s₀ es := by
  intro pre r post s₁ s₂ c j _ _ hc hs hj hr
  simp only [step, taskExit, hc, Option.map_some, Option.some.injEq, Prod.mk.injEq] at hs
  obtain ⟨rfl, rfl⟩ := hs
  obtain ⟨n, hn, hcur, hsw⟩ := taskExit_handsOver hc hj hr
  exact ⟨n, hn, hcur, by rw [hsw]⟩

/-! ### Finality -/

/-- **When exits are final.** In a run, no task that called `task_exit` is left with the CPU by a
later yield, and every exit hands the CPU over if it can, if and only if every yield after the exit
of a task passes over it. -/
theorem exit_final_iff (arch : Arch) (m : Mem) (es : List Event) :
    (AfterExit arch NotSelected (boot m) es ∧ ExitHandsOver arch (boot m) es) ↔
      AfterExit arch PassesOver (boot m) es := by
  rw [notSelected_eq]
  exact ⟨And.left, fun h => ⟨h, exitHandsOver arch (boot m) es⟩⟩

/-- Task 1 running, task 2 ready. -/
def startA : State := (schedStart afterCreate).2

def withB : State := (taskCreate .arm 0x08002000 256 startA).2

def startEvents : List Event :=
  [(.create 0x08001000 256, .pid 1), (.start, .switch (some ⟨none, 0x200100E0⟩)),
    (.create 0x08002000 256, .pid 2)]

theorem run_startEvents : Run (step .arm) (boot fun _ => 0) startEvents withB :=
  .cons step_firstCreate (.cons rfl (.cons rfl (.nil _)))

/-- Task 1 exits, then task 2 yields. -/
def exitEvents : List Event :=
  [(.exit, .switch (some ⟨some 0, 0x200140E0⟩)), (.yield, .switch (some ⟨some 1, 0x200100E0⟩))]

def afterExit : State := (taskYield (markExit withB 0)).2

theorem step_exit : step .arm withB .exit =
    some (.switch (some ⟨some 0, 0x200140E0⟩), afterExit) := rfl

theorem run_exitEvents : Run (step .arm) withB exitEvents (taskYield afterExit).2 :=
  .cons step_exit (.cons rfl (.nil _))

/-- The yield after its exit runs task 1 again. -/
theorem exit_not_final : ¬ ∀ (arch : Arch) (m : Mem) (es : List Event) (t : State),
    Run (step arch) (boot m) es t →
    AfterExit arch NotSelected (boot m) es ∧ ExitHandsOver arch (boot m) es := by
  intro hall
  have h := (hall .arm _ _ _ (run_startEvents.append run_exitEvents)).1
  have hyield := h startEvents _ _ withB afterExit 0 rfl run_startEvents rfl step_exit
  exact hyield [] _ [] afterExit rfl (.nil _) afterExit rfl (by decide)

/-- **When an overflow is final.** In a run, no task whose canary a yield found broken is left with
the CPU by that yield or a later one if and only if all these yields pass over it. -/
theorem overflow_final_iff (arch : Arch) (m : Mem) (es : List Event) :
    AfterOverflow arch NotSelected (boot m) es ↔ AfterOverflow arch PassesOver (boot m) es := by
  rw [notSelected_eq]

/-- Task 1 overwrites its canary word. -/
def smashed : State := { withB with mem := store32 withB.mem 0x20010000 0 }

/-- Task 1 smashes its stack and yields to task 2, which yields. -/
def smashEvents : List Event :=
  [(.outside smashed.mem fun i => (withB.taskPool i).sp, .none),
    (.yield, .switch (some ⟨some 0, 0x200140E0⟩)), (.yield, .switch (some ⟨some 1, 0x200100E0⟩))]

theorem run_smashEvents :
    Run (step .arm) withB smashEvents (taskYield (taskYield smashed).2).2 :=
  .cons rfl (.cons rfl (.cons rfl (.nil _)))

/-- The second yield after its overflow runs task 1 again. -/
theorem overflow_not_final : ¬ ∀ (arch : Arch) (m : Mem) (es : List Event) (t : State),
    Run (step arch) (boot m) es t → AfterOverflow arch NotSelected (boot m) es := by
  intro hall
  have h := hall .arm _ _ _ (run_startEvents.append run_smashEvents)
  have hrun : Run (step .arm) (boot fun _ => 0) (startEvents ++ [smashEvents[0]]) smashed :=
    run_startEvents.append (.cons rfl (.nil _))
  have hyield := h (startEvents ++ [smashEvents[0]]) .yield _ _ smashed smashed 0 rfl hrun rfl
    (by decide)
  exact hyield [smashEvents[1]] _ [] (taskYield smashed).2 rfl (.cons rfl (.nil _)) _ rfl (by decide)

end BloodKernel.Sched
