import BloodKernel.Kernel.SchedRunning
import BloodKernel.Lib.Round

set_option autoImplicit false

/-!
# Round robin

A round: as many calls of `task_yield` in a row as there are tasks. Between two calls the tasks use
their stacks (`Between`), and leave all canaries intact.

* `OneRunning`, `pid_of_running`: one task is running and the others are ready; a running slot holds a
  task in every run;
* `yields`, `turns`, `Intact`: the calls, the slots they make current, and the states they start in;
* `Turn`, `Turn.yield`: the round at the slot `x`, and one call;
* **`round_robin`**: the round makes every task current once, in the order of the slots after the
  running one, and leaves the states as they were.
-/

namespace BloodKernel.Sched

open Lib

/-- The slot holds a task. -/
def Populated (s : State) (i : Fin maxTasks) : Prop := (s.taskPool i).pid ≠ 0

instance (s : State) : DecidablePred (Populated s) := fun _ => by unfold Populated; infer_instance

/-- Slot `c` holds the current task, no other slot has state 1, and all other tasks are ready. -/
structure OneRunning (s : State) (c : Fin maxTasks) : Prop where
  current : s.currentTask = some c
  populated : Populated s c
  running : (s.taskPool c).state = 1
  alone : ∀ i ≠ c, (s.taskPool i).state ≠ 1
  ready : ∀ i ≠ c, Populated s i → (s.taskPool i).state = 0

/-- What the tasks and `context_switch` leave before a call: the stacks and the saved stack pointers. -/
structure Between where
  mem : Mem
  sp : Fin maxTasks → U32

/-- The state in which the next call starts. -/
def resume (s : State) (o : Between) : State :=
  { s with mem := o.mem, taskPool := fun i => { s.taskPool i with sp := o.sp i } }

def yields : State → List Between → State
  | s, [] => s
  | s, o :: os => yields (taskYield (resume s o)).2 os

/-- The slots that are current after each of the calls. -/
def turns : State → List Between → List (Option (Fin maxTasks))
  | _, [] => []
  | s, o :: os => (taskYield (resume s o)).2.currentTask :: turns (taskYield (resume s o)).2 os

/-- Every call starts with all canaries intact. -/
def Intact : State → List Between → Prop
  | _, [] => True
  | s, o :: os => CanariesIntact (resume s o) ∧ Intact (taskYield (resume s o)).2 os

/-! ### Running slots hold tasks -/

/-- Every slot with state 1 holds a task. -/
def RunningHeld (s : State) : Prop := ∀ i, (s.taskPool i).state = 1 → Populated s i

variable {s s₀ : State}

theorem RunningHeld.switchTo {n : Fin maxTasks} (h : RunningHeld s) (hn : Populated s n) :
    RunningHeld (switchTo s n).2 := by
  intro i hi
  rw [switchTo_state] at hi
  unfold Populated
  rw [switchTo_pid]
  split_ifs at hi with hin hc
  · exact hin ▸ hn
  · exact absurd hi (by decide)
  · exact h i hi

theorem RunningHeld.taskStackCheck (h : RunningHeld s) : RunningHeld (taskStackCheck s) := by
  intro i hi
  rw [taskStackCheck_state] at hi
  unfold Populated
  rw [taskStackCheck_pid]
  split_ifs at hi with ho
  · exact absurd hi (by decide)
  · exact h i hi

theorem RunningHeld.taskYield (h : RunningHeld s) : RunningHeld (taskYield s).2 := by
  rw [taskYield_eq]
  cases hn : nextSlot s with
  | none => exact h.taskStackCheck
  | some n =>
      by_cases hc : s.currentTask = some n
      · simp only [if_pos hc]
        exact h.taskStackCheck
      · simp only [if_neg hc]
        refine h.taskStackCheck.switchTo ?_
        unfold Populated
        rw [taskStackCheck_pid]
        exact (runnable_of_nextSlot hn).1

theorem RunningHeld.schedStart (h : RunningHeld s) : RunningHeld (schedStart s).2 := by
  cases hc : s.currentTask with
  | some c =>
      rw [schedStart_of_some hc]
      exact h
  | none =>
      intro i hi
      unfold Populated
      rw [schedStart_pid]
      cases hf : first fun i => Sched.ready (s.taskPool i) with
      | none => exact h i (by simpa [Sched.schedStart, hc, hf] using hi)
      | some k =>
          by_cases hik : i = k
          · have hk := (first_eq_some_iff.mp hf).1
            simp only [Sched.ready, Bool.and_eq_true, bne_iff_ne] at hk
            exact hik ▸ hk.2
          · have hi : (s.taskPool.setState k 1 i).state = 1 := by
              simpa [Sched.schedStart, hc, hf] using hi
            rw [setState_of_ne _ hik] at hi
            exact h i hi

theorem RunningHeld.step {arch : Arch} {op : Op} {r : Ret} {s' : State} (h : RunningHeld s)
    (hs : step arch s op = some (r, s')) : RunningHeld s' := by
  cases op with
  | create entry stackSize =>
      cases hs
      intro i hi
      have hi := (taskCreate_state i).symm.trans hi
      show Populated (taskCreate arch entry stackSize s).2 i
      cases hf : first fun i => (s.taskPool i).state == 0 with
      | none => rw [taskCreate_none s hf]; exact h i hi
      | some k =>
          have hik : i ≠ k := fun e => by
            have hk := (first_eq_some_iff.mp hf).1
            rw [beq_iff_eq, ← e, hi] at hk
            exact absurd hk (by decide)
          rw [taskCreate_some s hf, Populated, fillSlot_of_ne hik]
          exact h i hi
  | start => cases hs; exact h.schedStart
  | yield => cases hs; exact h.taskYield
  | exit =>
      simp only [Sched.step, taskExit, Option.map_map, Option.map_eq_some_iff] at hs
      obtain ⟨c, -, hs⟩ := hs
      cases hs
      refine RunningHeld.taskYield fun i hi => ?_
      by_cases hic : i = c
      · have h0 : ((markExit s c).taskPool c).state = 0 := setState_self _ _ _
        rw [hic, h0] at hi
        exact absurd hi (by decide)
      · rw [markExit_of_ne hic] at hi
        rw [Populated, markExit_of_ne hic]
        exact h i hi
  | outside m sp => cases hs; exact h

/-- **In every run a running slot holds a task.** -/
theorem pid_of_running {arch : Arch} {m : Mem} {es : List Event} {t : State}
    (h : Run (step arch) (boot m) es t) {i : Fin maxTasks} (hi : (t.taskPool i).state = 1) :
    Populated t i := by
  have hboot : RunningHeld (boot m) := fun i hi => absurd hi (by show (0 : U8) ≠ 1; decide)
  exact h.invariant RunningHeld (fun _ _ _ _ h hs => h.step hs) hboot i hi

/-! ### One call -/

/-- The round that started in `s₀` is at slot `x`. -/
structure Turn (s₀ s : State) (x : Fin maxTasks) : Prop where
  current : s.currentTask = some x
  pid : ∀ i, (s.taskPool i).pid = (s₀.taskPool i).pid
  populated : Populated s₀ x
  running : (s.taskPool x).state = 1
  ready : ∀ i ≠ x, Populated s₀ i → (s.taskPool i).state = 0
  free : ∀ i, ¬ Populated s₀ i → (s.taskPool i).state = (s₀.taskPool i).state

theorem OneRunning.turn {c : Fin maxTasks} (h : OneRunning s c) : Turn s s c :=
  ⟨h.current, fun _ => rfl, h.populated, h.running, h.ready, fun _ _ => rfl⟩

theorem Turn.resume {x : Fin maxTasks} (h : Turn s₀ s x) (o : Between) : Turn s₀ (resume s o) x :=
  ⟨h.current, h.pid, h.populated, h.running, h.ready, h.free⟩

section Yield

variable {x y c : Fin maxTasks} (h : Turn s₀ s x) (hcan : CanariesIntact s)

include hcan in
theorem not_overflowed_of_intact (i : Fin maxTasks) : ¬ Overflowed s i := fun ho => by
  have := hcan i ho.1
  rw [ho.2] at this
  exact absurd this (by decide)

include hcan in
theorem taskStackCheck_of_intact : taskStackCheck s = s := by
  have hpool : (taskStackCheck s).taskPool = s.taskPool :=
    funext fun i => if_neg (not_overflowed_of_intact hcan i)
  exact congrArg (fun p => ({ s with taskPool := p } : State)) hpool

include h hcan in
theorem Turn.runnable_iff (i : Fin maxTasks) : Runnable s i ↔ Populated s₀ i ∧ i ≠ x := by
  unfold Runnable Populated
  rw [h.pid]
  refine and_congr_right fun hp => ?_
  have hno : ¬ checkCanary s.mem (s.taskPool i) = 0 := fun h0 =>
    not_overflowed_of_intact hcan i ⟨h.pid i ▸ hp, h0⟩
  rw [or_iff_left hno]
  refine ⟨fun h0 e => ?_, fun hi => h.ready i hi hp⟩
  rw [e, h.running] at h0
  exact absurd h0 (by decide)

include h hcan in
/-- **One call** switches to the first task ahead. -/
theorem Turn.yield {d : ℕ} {ys : List (Fin maxTasks)} (hx : slotAfter maxTasks c d = x)
    (hy : slotsAfter (fun i => decide (Populated s₀ i)) c d = y :: ys) :
    Turn s₀ (taskYield s).2 y := by
  have hstart : yieldStart s = x := by rw [yieldStart, h.current]
  have hcand : (fun i => decide (Runnable s i)) =
      fun i => decide (Populated s₀ i) && decide (i ≠ x) := by
    funext i
    rw [decide_eq_decide.mpr (h.runnable_iff hcan i), Bool.decide_and]
  have hnext : nextSlot s = if y = x then none else some y := by
    rw [nextSlot, hstart, hcand]
    exact nextFrom_slotsAfter hx hy
  obtain ⟨-, -, -, -, hp, -⟩ := slotsAfter_eq_cons hy
  have hpop : Populated s₀ y := of_decide_eq_true hp
  rw [taskYield_eq, hnext]
  by_cases hyx : y = x
  · -- there is no other task
    rw [if_pos hyx, taskStackCheck_of_intact hcan, hyx]
    exact h
  · have hcur : ¬ s.currentTask = some y := fun e =>
      hyx (Option.some.inj (e.symm.trans h.current))
    simp only [if_neg hyx, if_neg hcur, taskStackCheck_of_intact hcan]
    refine ⟨rfl, fun i => (switchTo_pid s y i).trans (h.pid i), hpop, ?_, fun i hi hpi => ?_,
      fun i hi => ?_⟩
    · rw [switchTo_state, if_pos rfl]
    · rw [switchTo_state, if_neg hi]
      by_cases hix : i = x
      · rw [if_pos (hix ▸ h.current)]
      · rw [if_neg fun e => hix (Option.some.inj (e.symm.trans h.current)), h.ready i hix hpi]
    · have hiy : i ≠ y := fun e => hi (e ▸ hpop)
      have hix : i ≠ x := fun e => hi (e ▸ h.populated)
      rw [switchTo_state, if_neg hiy, if_neg fun e => hix (Option.some.inj (e.symm.trans h.current)),
        h.free i hi]

end Yield

/-! ### The round -/

theorem Turn.rest {c x : Fin maxTasks} (hc : Populated s₀ c) {os : List Between} {d : ℕ}
    (h : Turn s₀ s x) (hx : slotAfter maxTasks c d = x) (hd : d ≤ maxTasks) (hi : Intact s os)
    (hk : os.length = (slotsAfter (fun i => decide (Populated s₀ i)) c d).length) :
    turns s os = (slotsAfter (fun i => decide (Populated s₀ i)) c d).map some ∧
      Turn s₀ (yields s os) c := by
  induction os generalizing s x d with
  | nil =>
      have hnil := List.eq_nil_of_length_eq_zero hk.symm
      -- `c` is populated, so it is ahead unless the round is over
      have hdn : d = maxTasks := by
        refine le_antisymm hd (Nat.not_lt.mp fun hlt => ?_)
        have hmem : c ∈ slotsAfter (fun i => decide (Populated s₀ i)) c d := by
          rw [mem_slotsAfter, decide_eq_true_eq]
          refine ⟨hc, ?_⟩
          have hself := places_slotAfter (c := c) (k := maxTasks) (by omega) le_rfl
          rw [slotAfter_self] at hself
          rw [hself]
          exact hlt
        rw [hnil] at hmem
        cases hmem
      have hxc : x = c := by
        rw [← hx, hdn, slotAfter_self]
      rw [hnil]
      exact ⟨rfl, hxc ▸ h⟩
  | cons o os ih =>
      cases hl : slotsAfter (fun i => decide (Populated s₀ i)) c d with
      | nil =>
          rw [hl] at hk
          cases hk
      | cons y ys =>
          have hnext := (h.resume o).yield hi.1 hx hl
          obtain ⟨e, -, he, hy, -, hys, -⟩ := slotsAfter_eq_cons hl
          have hlen : os.length = ys.length := by
            rw [hl] at hk
            exact Nat.succ.inj hk
          obtain ⟨hturns, hlast⟩ := ih hnext hy.symm he hi.2 (hys ▸ hlen)
          refine ⟨?_, hlast⟩
          rw [turns, hturns, hnext.current, ← hys, List.map_cons]

/-- **Round robin.** With one task running and `k` tasks in all, `k` calls of `task_yield` in a row that
find all canaries intact make every task current exactly once, in increasing order of their slots
modulo `MAX_TASKS` after the running one, and leave every state as it was. -/
theorem round_robin {s : State} {c : Fin maxTasks} (h : OneRunning s c) {os : List Between}
    (hi : Intact s os) (hk : os.length = (Finset.univ.filter fun i => Populated s i).card) :
    (∃ l : List (Fin maxTasks), turns s os = l.map some ∧ l.Nodup ∧ (∀ i, i ∈ l ↔ Populated s i) ∧
      l.Pairwise fun i j => places c i < places c j) ∧
    ∀ i, ((yields s os).taskPool i).state = (s.taskPool i).state := by
  have hlen : os.length = (roundFrom (fun i => decide (Populated s i)) c).length := by
    rw [hk, length_roundFrom]
    simp only [decide_eq_true_eq]
  obtain ⟨hturns, hlast⟩ := h.turn.rest h.populated (slotAfter_zero c) (Nat.zero_le _) hi hlen
  refine ⟨⟨_, hturns, nodup_roundFrom, fun i => ?_, pairwise_roundFrom⟩, fun i => ?_⟩
  · exact mem_roundFrom.trans decide_eq_true_iff
  · by_cases hp : Populated s i
    · by_cases hic : i = c
      · rw [hic, hlast.running, h.running]
      · rw [hlast.ready i hic hp, h.ready i hic hp]
    · exact hlast.free i hp

theorem oneRunning_withB : OneRunning withB 0 where
  current := rfl
  populated := by decide
  running := rfl
  alone := by decide
  ready := by decide

/-- Two calls of two tasks that do not touch their canaries. -/
def twoYields : List Between := List.replicate 2 ⟨withB.mem, fun i => (withB.taskPool i).sp⟩

theorem round_robin_withB :
    (∃ l : List (Fin maxTasks), turns withB twoYields = l.map some ∧ l.Nodup ∧
      (∀ i, i ∈ l ↔ Populated withB i) ∧ l.Pairwise fun i j => places 0 i < places 0 j) ∧
    ∀ i, ((yields withB twoYields).taskPool i).state = (withB.taskPool i).state :=
  round_robin oneRunning_withB ⟨by decide, by decide, trivial⟩ (by decide)

end BloodKernel.Sched
