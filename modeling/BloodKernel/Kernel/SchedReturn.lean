import BloodKernel.Kernel.SchedRound
import Mathlib.Data.List.Count

set_option autoImplicit false

/-!
# Tasks that run again

`task_exit` and `task_stack_check` leave a slot with its pid and state 0, and `task_yield` searches at most
`MAX_TASKS` slots. Every yield comes nearer to the slot, so the task is soon left with the CPU again, unless
a `task_create` fills the slot anew.

* `Ahead`, `Ahead.yield`: the slot, and how a yield comes nearer;
* **`exited_runs_again`**, **`overflowed_runs_again`**: within `MAX_TASKS` yields;
* `exit_final_yields`, `overflow_final_yields`: what exits and overflows that are final take.
-/

namespace BloodKernel.Sched

open Lib

def Op.yields : Op → Bool
  | .yield | .exit => true
  | _ => false

def Op.creates : Op → Bool
  | .create _ _ => true
  | _ => false

/-- A yield of the run `es` from `s` leaves the CPU with task `p`. -/
def RunsAgain (arch : Arch) (p : U32) (s : State) (es : List Event) : Prop :=
  ∃ pre e post t y, es = pre ++ e :: post ∧ Run (step arch) s pre t ∧ yieldState t e.1 = some y ∧
    curPid (taskYield y).2 = some p

/-- Slot `c` holds task `p` with state 0, and comes at most `k` places after the slot of the current task. -/
structure Ahead (p : U32) (c : Fin maxTasks) (k : ℕ) (s : State) : Prop where
  pid : (s.taskPool c).pid = p
  ready : (s.taskPool c).state = 0
  current : s.currentTask ≠ none
  place : ∃ j, 1 ≤ j ∧ j ≤ k ∧ slotAfter maxTasks (yieldStart s) j = c

variable {arch : Arch} {s s' s₀ s₁ t y : State} {p : U32} {c i : Fin maxTasks} {k : ℕ} {op : Op} {r : Ret}
  {es pre mid post : List Event}

theorem runsAgain_iff :
    RunsAgain arch p s es ↔ ¬ Along (step arch) (AtYield (NotSelected p)) s es := by
  unfold Along AtYield NotSelected RunsAgain
  push Not
  constructor
  · rintro ⟨pre, e, post, t, y, he, hrun, hy, hp⟩
    exact ⟨pre, e, post, t, he, hrun, y, hy, hp⟩
  · rintro ⟨pre, e, post, t, he, hrun, y, hy, hp⟩
    exact ⟨pre, e, post, t, y, he, hrun, hy, hp⟩

/-! ### One yield -/

/-- A slot with state 0 keeps it, unless it is selected and not current yet. -/
theorem taskYield_state_zero {n : Fin maxTasks} (hn : nextSlot s = some n)
    (hc : n ≠ c ∨ s.currentTask = some c) (h : ((taskStackCheck s).taskPool c).state = 0) :
    ((taskYield s).2.taskPool c).state = 0 := by
  rw [taskYield_eq, hn]
  by_cases hcn : s.currentTask = some n
  · simp only [if_pos hcn]
    exact h
  · have hne : c ≠ n := by
      rintro rfl
      exact hc.elim (absurd rfl) hcn
    simp only [if_neg hcn, switchTo_state, if_neg hne, h, ite_self]

theorem current_taskYield {n : Fin maxTasks} (hn : nextSlot s = some n) :
    (taskYield s).2.currentTask = some n := by
  rw [taskYield_currentTask, hn]
  rfl

theorem Ahead.runnable (h : Ahead p c k s) (hp : p ≠ 0) : Runnable s c :=
  ⟨h.pid.symm ▸ hp, .inl h.ready⟩

/-- **A yield comes nearer.** The search does not go past the slot. -/
theorem Ahead.yield (h : Ahead p c (k + 1) s) (hp : p ≠ 0) :
    curPid (taskYield s).2 = some p ∨ Ahead p c k (taskYield s).2 := by
  have hrun := h.runnable hp
  obtain ⟨j, hj, hjk, hjc⟩ := h.place
  cases hn : nextSlot s with
  | none => exact absurd hrun ((nextSlot_eq_none_iff s).mp hn c)
  | some n =>
      have hcurrent := current_taskYield hn
      by_cases hnc : n = c
      · refine .inl ?_
        rw [curPid, hcurrent, Option.map_some, taskYield_pid, hnc, h.pid]
      · have hn' := hn
        rw [nextSlot, nextFrom_eq_some_iff] at hn'
        obtain ⟨-, i, hi, -, hin, hless⟩ := hn'
        have hij : i < j := by
          rcases Nat.lt_trichotomy i j with hlt | rfl | hgt
          · exact hlt
          · exact absurd (hin.symm.trans hjc) hnc
          · have hfalse := hless j hj hgt
            rw [hjc] at hfalse
            exact absurd hrun (of_decide_eq_false hfalse)
        have hstart : yieldStart (taskYield s).2 = n := by rw [yieldStart, hcurrent]
        refine .inr ⟨(taskYield_pid s c).trans h.pid, taskYield_state_zero hn (.inl hnc) ?_, ?_,
          j - i, by omega, by omega, ?_⟩
        · rw [taskStackCheck_state, h.ready, ite_self]
        · rw [hcurrent]
          exact Option.some_ne_none n
        · rw [hstart, ← hin, slotAfter_add, Nat.add_sub_cancel' hij.le, hjc]

theorem ahead_taskYield {n : Fin maxTasks} (hn : nextSlot y = some n) (hc : n ≠ c ∨ y.currentTask = some c)
    (hzero : ((taskStackCheck y).taskPool c).state = 0) :
    Ahead (y.taskPool c).pid c maxTasks (taskYield y).2 := by
  refine ⟨taskYield_pid y c, taskYield_state_zero hn hc hzero, ?_, exists_slotAfter _ c⟩
  rw [current_taskYield hn]
  exact Option.some_ne_none n

/-- A yield that finds a broken canary leaves the task with the CPU, or ahead. -/
theorem Overflowed.ahead (h : Overflowed y c) : curPid (taskYield y).2 = some (y.taskPool c).pid ∨
    Ahead (y.taskPool c).pid c maxTasks (taskYield y).2 := by
  cases hn : nextSlot y with
  | none => exact absurd h.runnable ((nextSlot_eq_none_iff y).mp hn c)
  | some n =>
      by_cases hnc : n = c
      · refine .inl ?_
        rw [curPid, current_taskYield hn, Option.map_some, taskYield_pid, hnc]
      · refine .inr (ahead_taskYield hn (.inl hnc) ?_)
        rw [taskStackCheck_state, if_pos h]

theorem ahead_of_exit (hc : s.currentTask = some c) (hpid : (s.taskPool c).pid ≠ 0)
    (hexit : step arch s .exit = some (r, s')) : Ahead (s.taskPool c).pid c maxTasks s' := by
  simp only [step, taskExit, hc, Option.map_some, Option.some.injEq, Prod.mk.injEq] at hexit
  obtain ⟨-, rfl⟩ := hexit
  have hp : ((markExit s c).taskPool c).pid = (s.taskPool c).pid := setState_pid s.taskPool c c 0
  have hzero : ((markExit s c).taskPool c).state = 0 := setState_self s.taskPool c 0
  have hrun : Runnable (markExit s c) c := ⟨hp.symm ▸ hpid, .inl hzero⟩
  rw [← hp]
  cases hn : nextSlot (markExit s c) with
  | none => exact absurd hrun ((nextSlot_eq_none_iff _).mp hn c)
  | some n =>
      refine ahead_taskYield hn (.inr hc) ?_
      rw [taskStackCheck_state, hzero, ite_self]

/-! ### Runs -/

theorem Ahead.markExit (h : Ahead p c k s) (i : Fin maxTasks) : Ahead p c k (markExit s i) where
  pid := (setState_pid s.taskPool i c 0).trans h.pid
  ready := by
    by_cases hci : c = i
    · rw [hci, Sched.markExit, setState_self]
    · exact (congrArg Task.state (setState_of_ne s.taskPool hci 0)).trans h.ready
  current := h.current
  place := h.place

theorem step_of_yields (hop : op.yields = true) (h : step arch s op = some (r, s')) :
    ∃ y, yieldState s op = some y ∧ s' = (taskYield y).2 := by
  cases op with
  | yield =>
      cases h
      exact ⟨s, rfl, rfl⟩
  | exit =>
      simp only [step, taskExit, Option.map_map, Option.map_eq_some_iff] at h
      obtain ⟨c, hc, h⟩ := h
      cases h
      exact ⟨markExit s c, by rw [yieldState, hc, Option.map_some], rfl⟩
  | create | start | outside => cases hop

theorem Ahead.yieldState (h : Ahead p c k s) (hy : yieldState s op = some y) : Ahead p c k y := by
  cases op with
  | yield =>
      cases hy
      exact h
  | exit =>
      obtain ⟨i, -, rfl⟩ := Option.map_eq_some_iff.mp hy
      exact h.markExit i
  | create | start | outside => cases hy

theorem Ahead.other (h : Ahead p c k s) (hop : op.yields = false) (hno : op.creates = false)
    (hstep : step arch s op = some (r, s')) : Ahead p c k s' := by
  cases op with
  | start =>
      cases hstep
      obtain ⟨i, hi⟩ := Option.ne_none_iff_exists'.mp h.current
      rwa [schedStart_of_some hi]
  | outside m sp =>
      cases hstep
      exact ⟨h.pid, h.ready, h.current, h.place⟩
  | yield | exit => cases hop
  | create => cases hno

/-- **Runs.** Within as many yields as the slot is places ahead the task runs again. -/
theorem Ahead.runsAgain (h : Ahead p c k s) (hp : p ≠ 0) (hrun : Run (step arch) s es t)
    (hno : ∀ e ∈ es, e.1.creates = false) (hk : k ≤ es.countP fun e => e.1.yields) :
    RunsAgain arch p s es := by
  rw [runsAgain_iff]
  intro ha
  induction hrun generalizing k with
  | nil s =>
      obtain ⟨j, hj, hjk, -⟩ := h.place
      rw [List.countP_nil] at hk
      omega
  | @cons s s' t op r es hstep _ ih =>
      have hno' : ∀ e ∈ es, e.1.creates = false := fun e he => hno e (List.mem_cons_of_mem _ he)
      obtain ⟨hat, ha'⟩ := (along_cons hstep).mp ha
      cases hop : op.yields with
      | false =>
          rw [List.countP_cons_of_neg (by simp [hop])] at hk
          exact ih (h.other hop (hno _ List.mem_cons_self) hstep) hno' hk ha'
      | true =>
          rw [List.countP_cons_of_pos (by simp [hop])] at hk
          obtain ⟨y, hy, rfl⟩ := step_of_yields hop hstep
          have hahead := h.yieldState hy
          obtain ⟨j, hj, hjk, hjc⟩ := hahead.place
          have hsucc : k = k - 1 + 1 := by omega
          rw [hsucc] at hahead
          exact (hahead.yield hp).elim (hat y hy) fun h' => ih h' hno' (by omega) ha'

theorem ahead_of_overflow (hy : yieldState s op = some y) (ho : Overflowed y i)
    (hstep : step arch s op = some (r, s')) :
    ¬NotSelected (y.taskPool i).pid y ∨ Ahead (y.taskPool i).pid i maxTasks s' := by
  have hop : op.yields = true := by
    cases op with
    | yield | exit => rfl
    | create | start | outside => cases hy
  obtain ⟨y', hy', rfl⟩ := step_of_yields hop hstep
  obtain rfl : y = y' := Option.some.inj (hy.symm.trans hy')
  exact ho.ahead.imp_left not_not_intro

theorem exists_yields (arch : Arch) (n : ℕ) (s : State) : ∃ es t, Run (step arch) s es t ∧
    (∀ e ∈ es, e.1.creates = false) ∧ n = es.countP fun e => e.1.yields := by
  induction n generalizing s with
  | zero => exact ⟨[], s, .nil s, fun e he => (List.not_mem_nil he).elim, rfl⟩
  | succ n ih =>
      obtain ⟨es, t, hrun, hno, hcount⟩ := ih (taskYield s).2
      refine ⟨(.yield, .switch (taskYield s).1) :: es, t, .cons rfl hrun, fun e he => ?_, ?_⟩
      · rcases List.mem_cons.mp he with rfl | he
        · rfl
        · exact hno e he
      · rw [List.countP_cons_of_pos rfl, ← hcount]

/-- **A task that has exited runs again**: one of the next `MAX_TASKS` yields leaves it with the CPU, unless
a task is created before. -/
theorem exited_runs_again (hc : s.currentTask = some c) (hpid : (s.taskPool c).pid ≠ 0)
    (hexit : step arch s .exit = some (r, s')) (hrun : Run (step arch) s' es t)
    (hno : ∀ e ∈ es, e.1.creates = false) (hk : maxTasks ≤ es.countP fun e => e.1.yields) :
    RunsAgain arch (s.taskPool c).pid s' es :=
  (ahead_of_exit hc hpid hexit).runsAgain hpid hrun hno hk

theorem exited_runs_again_first : ∃ es t, Run (step .arm) afterExit es t ∧
    RunsAgain .arm 1 afterExit es := by
  obtain ⟨es, t, hrun, hno, hcount⟩ := exists_yields .arm maxTasks afterExit
  exact ⟨es, t, hrun, exited_runs_again (s := withB) (c := 0) rfl (by decide) step_exit hrun hno hcount.le⟩

/-- **A task whose canary a yield has found broken runs again**: that yield or one of the next `MAX_TASKS`
leaves it with the CPU, unless a task is created before. -/
theorem overflowed_runs_again (hy : yieldState s op = some y) (ho : Overflowed y i)
    (hstep : step arch s op = some (r, s')) (hrun : Run (step arch) s' es t)
    (hno : ∀ e ∈ es, e.1.creates = false) (hk : maxTasks ≤ es.countP fun e => e.1.yields) :
    RunsAgain arch (y.taskPool i).pid s ((op, r) :: es) := by
  rw [runsAgain_iff, along_cons hstep, not_and]
  intro hat
  rcases ahead_of_overflow hy ho hstep with hcur | hahead
  · exact absurd (hat y hy) hcur
  · exact runsAgain_iff.mp (hahead.runsAgain ho.1 hrun hno hk)

theorem overflowed_runs_again_first : ∃ es t, Run (step .arm) (taskYield smashed).2 es t ∧
    RunsAgain .arm 1 smashed ((.yield, .switch (taskYield smashed).1) :: es) := by
  obtain ⟨es, t, hrun, hno, hcount⟩ := exists_yields .arm maxTasks (taskYield smashed).2
  exact ⟨es, t, hrun, overflowed_runs_again (i := 0) (y := smashed) rfl (by decide) rfl hrun hno hcount.le⟩

/-- In a run in which exits are final, fewer than `MAX_TASKS` yields come between the exit of a task and the
next `task_create`. -/
theorem exit_final_yields (hfinal : AfterExit arch NotSelected s₀ es)
    (hes : es = pre ++ (.exit, r) :: (mid ++ post)) (hpre : Run (step arch) s₀ pre s)
    (hc : s.currentTask = some c) (hpid : (s.taskPool c).pid ≠ 0)
    (hexit : step arch s .exit = some (r, s')) (hmid : Run (step arch) s' mid t)
    (hno : ∀ e ∈ mid, e.1.creates = false) : (mid.countP fun e => e.1.yields) < maxTasks := by
  by_contra hk
  obtain ⟨pre', e, post', u, y, rfl, hrun, hy, hp⟩ :=
    (ahead_of_exit hc hpid hexit).runsAgain hpid hmid hno (Nat.le_of_not_lt hk)
  exact hfinal pre r _ s s' c hes hpre hc hexit pre' e (post' ++ post) u (by simp) hrun y hy hp

/-- In a run in which overflows are final, fewer than `MAX_TASKS` yields come between one that finds a broken
canary and the next `task_create`. -/
theorem overflow_final_yields (hfinal : AfterOverflow arch NotSelected s₀ es)
    (hes : es = pre ++ (op, r) :: (mid ++ post)) (hpre : Run (step arch) s₀ pre s)
    (hy : yieldState s op = some y) (ho : Overflowed y i) (hstep : step arch s op = some (r, s'))
    (hmid : Run (step arch) s' mid t) (hno : ∀ e ∈ mid, e.1.creates = false) :
    (mid.countP fun e => e.1.yields) < maxTasks := by
  by_contra hk
  have hafter := hfinal pre op r _ s y i hes hpre hy ho
  rcases ahead_of_overflow hy ho hstep with hcur | hahead
  · exact hcur (hafter [] (op, r) _ s rfl (.nil s) y hy)
  · obtain ⟨pre', e, post', u, y', rfl, hrun, hy', hp⟩ :=
      hahead.runsAgain ho.1 hmid hno (Nat.le_of_not_lt hk)
    exact hafter ((op, r) :: pre') e (post' ++ post) u (by simp) (.cons hstep hrun) y' hy' hp

end BloodKernel.Sched
