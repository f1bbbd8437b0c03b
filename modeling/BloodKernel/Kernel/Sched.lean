import BloodKernel.Kernel.Types
import BloodKernel.Lib.Bytes
import BloodKernel.Lib.Run
import BloodKernel.Lib.Search
import Mathlib.Logic.Function.Basic

set_option autoImplicit false

/-!
# The round-robin scheduler

`src/kernel/sched.c`. Every call runs under `sched_lock`, so a call is one step. The stacks live in
a byte memory of their own, apart from the scheduler's static data; between two calls the tasks and
`context_switch` may change that memory and the saved stack pointers, and nothing else (`outside`).

* `taskCreate`, `taskStackCheck`, `schedStart`, `taskYield`, `taskExit`: the functions;
* `step`, `boot`: one call, and the state `sched_init` leaves;
* `taskCreate_none`, `taskCreate_some`, `taskYield_eq`: what a call can do.
-/

namespace BloodKernel.Sched

open Lib

abbrev maxTasks : ℕ := 32

instance neZero_maxTasks : NeZero maxTasks := ⟨by decide⟩

def stackCanary : U32 := 0xDEADBEEF

/-- `struct task`, without the priority that nothing reads. -/
structure Task where
  sp : U32
  stackBase : U32
  stackSize : U32
  canary : U32
  state : U8        -- 0=ready, 1=running, 2=blocked
  pid : U32

abbrev Pool := Fin maxTasks → Task

/-- The scheduler's static data and the memory of the stacks. -/
structure State where
  taskPool : Pool
  currentTask : Option (Fin maxTasks)
  nextPid : U32
  mem : Mem

/-- The targets that `task_create` tells apart: `__arm__`, `__x86_64__`, any other. -/
inductive Arch
  | arm
  | x86
  | other

/-- The stack of slot `i`. -/
def Arch.stackBase : Arch → Fin maxTasks → U32
  | .arm, i => 0x20010000 + BitVec.ofNat 32 (i * 0x4000)
  | _, i => 0x8000 + BitVec.ofNat 32 (i * 0x400)

/-- The words that `task_create` writes through `sp`. -/
def Arch.initStack : Arch → Mem → U32 → U32 → Mem
  | .arm, m, sp, entry => store32 (store32 (store32 m sp 0x01000000) (sp + 4) entry) (sp + 8) 0xFFFFFFFD
  | .x86, m, sp, entry => store32 m sp entry
  | .other, m, _, _ => m

/-! ### The functions -/

def writeCanary (m : Mem) (t : Task) : Mem × Task :=
  (store32 m t.stackBase stackCanary, { t with canary := stackCanary })

def checkCanary (m : Mem) (t : Task) : U8 := if load32 m t.stackBase = t.canary then 1 else 0

def schedInit (s : State) : State :=
  { s with taskPool := fun i => { s.taskPool i with state := 0, pid := 0 } }

/-- Fill slot `i` for a new task. -/
def fillSlot (arch : Arch) (entry stackSize : U32) (s : State) (i : Fin maxTasks) : State :=
  let t := { s.taskPool i with pid := s.nextPid, stackSize := stackSize, stackBase := arch.stackBase i }
  let t := { t with sp := t.stackBase + stackSize - 32 }
  let (m, t) := writeCanary s.mem t
  let m := arch.initStack m t.sp entry
  let t := { t with state := 0 }
  { s with taskPool := Function.update s.taskPool i t, nextPid := s.nextPid + 1, mem := m }

/-- The argument `arg` of the source is not used. -/
def taskCreate (arch : Arch) (entry stackSize : U32) (s : State) : U32 × State :=
  match first fun i => (s.taskPool i).state == 0 with
  | some i =>
      let s' := fillSlot arch entry stackSize s i
      ((s'.taskPool i).pid, s')
  | none => (0, s)

def taskStackCheck (s : State) : State :=
  { s with taskPool := fun i =>
      if (s.taskPool i).pid ≠ 0 ∧ checkCanary s.mem (s.taskPool i) = 0 then
        { s.taskPool i with state := 0 }
      else s.taskPool i }

/-- The slots that `sched_start` and `task_yield` look for. -/
def ready (t : Task) : Bool := t.state == 0 && t.pid != 0

def Pool.setState (p : Pool) (i : Fin maxTasks) (st : U8) : Pool :=
  Function.update p i { p i with state := st }

/-- A call of `context_switch`: the slot whose `sp` field is to be saved into, if any, and the new
stack pointer. -/
structure Switch where
  old : Option (Fin maxTasks)
  newSp : U32
  deriving DecidableEq

def schedStart (s : State) : Option Switch × State :=
  let s := match s.currentTask with
    | some _ => s
    | none => match first fun i => ready (s.taskPool i) with
      | some i => { s with currentTask := some i, taskPool := s.taskPool.setState i 1 }
      | none => s
  match s.currentTask with
  | some c => (some ⟨none, (s.taskPool c).sp⟩, s)
  | none => (none, s)

/-- The slot after which `task_yield` starts to search. -/
def yieldStart (s : State) : ℕ :=
  match s.currentTask with
  | some c => c
  | none => 0

/-- The branch of `task_yield` that switches to slot `n`. -/
def switchTo (s : State) (n : Fin maxTasks) : Option Switch × State :=
  let pool := match s.currentTask with
    | some old => s.taskPool.setState old 0
    | none => s.taskPool
  let pool := pool.setState n 1
  (some ⟨s.currentTask, (pool n).sp⟩, { s with taskPool := pool, currentTask := some n })

def taskYield (s : State) : Option Switch × State :=
  let s := taskStackCheck s
  match nextFrom (fun i => ready (s.taskPool i)) (yieldStart s) with
  | some n => if s.currentTask = some n then (none, s) else switchTo s n
  | none => (none, s)     -- `next` is still `current_task`

/-- The state in which the `task_yield` inside `task_exit` runs. -/
def markExit (s : State) (c : Fin maxTasks) : State :=
  { s with taskPool := s.taskPool.setState c 0 }

/-- `none`: the source dereferences a null `current_task`. -/
def taskExit (s : State) : Option (Option Switch × State) :=
  s.currentTask.map fun c => taskYield (markExit s c)

/-! ### Calls -/

/-- The calls on the scheduler, and what happens outside it between two calls. -/
inductive Op
  | create (entry stackSize : U32)
  | start
  | yield
  | exit
  | outside (mem : Mem) (sp : Fin maxTasks → U32)

inductive Ret
  | pid (p : U32)
  | switch (sw : Option Switch)
  | none
  deriving DecidableEq

def step (arch : Arch) (s : State) : Op → Option (Ret × State)
  | .create entry stackSize =>
      let (p, s') := taskCreate arch entry stackSize s
      some (.pid p, s')
  | .start => some (.switch (schedStart s).1, (schedStart s).2)
  | .yield => some (.switch (taskYield s).1, (taskYield s).2)
  | .exit => (taskExit s).map fun x => (.switch x.1, x.2)
  | .outside m sp => some (.none, { s with mem := m, taskPool := fun i => { s.taskPool i with sp := sp i } })

/-- The state after `sched_init`: the static data is zero at reset, the memory arbitrary. -/
def boot (m : Mem) : State :=
  schedInit ⟨fun _ => ⟨0, 0, 0, 0, 0, 0⟩, none, 1, m⟩

abbrev Event := Op × Ret

/-! ### What a call changes -/

variable (s : State)

@[simp] theorem setState_pid (p : Pool) (i j : Fin maxTasks) (st : U8) :
    (p.setState i st j).pid = (p j).pid := by
  unfold Pool.setState
  by_cases h : j = i
  · rw [h, Function.update_self]
  · rw [Function.update_of_ne h]

@[simp] theorem setState_sp (p : Pool) (i j : Fin maxTasks) (st : U8) :
    (p.setState i st j).sp = (p j).sp := by
  unfold Pool.setState
  by_cases h : j = i
  · rw [h, Function.update_self]
  · rw [Function.update_of_ne h]

@[simp] theorem setState_self (p : Pool) (i : Fin maxTasks) (st : U8) :
    (p.setState i st i).state = st := by
  rw [Pool.setState, Function.update_self]

theorem setState_of_ne (p : Pool) {i j : Fin maxTasks} (h : j ≠ i) (st : U8) :
    p.setState i st j = p j := by
  rw [Pool.setState, Function.update_of_ne h]

@[simp] theorem taskStackCheck_pid (i : Fin maxTasks) :
    ((taskStackCheck s).taskPool i).pid = (s.taskPool i).pid := by
  simp only [taskStackCheck]
  split_ifs <;> rfl

@[simp] theorem taskStackCheck_sp (i : Fin maxTasks) :
    ((taskStackCheck s).taskPool i).sp = (s.taskPool i).sp := by
  simp only [taskStackCheck]
  split_ifs <;> rfl

@[simp] theorem taskStackCheck_currentTask : (taskStackCheck s).currentTask = s.currentTask := rfl

@[simp] theorem taskStackCheck_nextPid : (taskStackCheck s).nextPid = s.nextPid := rfl

@[simp] theorem switchTo_pid (n i : Fin maxTasks) :
    ((switchTo s n).2.taskPool i).pid = (s.taskPool i).pid := by
  unfold switchTo
  cases s.currentTask <;> simp

@[simp] theorem switchTo_currentTask (n : Fin maxTasks) :
    (switchTo s n).2.currentTask = some n := rfl

@[simp] theorem switchTo_nextPid (n : Fin maxTasks) : (switchTo s n).2.nextPid = s.nextPid := rfl

theorem taskYield_keeps {α : Type} (φ : State → α) (hcheck : ∀ s, φ (taskStackCheck s) = φ s)
    (hswitch : ∀ s n, φ (switchTo s n).2 = φ s) : φ (taskYield s).2 = φ s := by
  simp only [taskYield]
  split
  · split_ifs
    · exact hcheck s
    · exact (hswitch _ _).trans (hcheck s)
  · exact hcheck s

theorem schedStart_keeps {α : Type} (φ : State → α) (hstart : ∀ s i,
    φ { s with currentTask := some i, taskPool := s.taskPool.setState i 1 } = φ s) :
    φ (schedStart s).2 = φ s := by
  unfold schedStart
  cases hc : s.currentTask with
  | some c => simp [hc]
  | none =>
      cases first fun i => ready (s.taskPool i) with
      | none => simp [hc]
      | some i => exact hstart s i

@[simp] theorem taskYield_pid (i : Fin maxTasks) :
    ((taskYield s).2.taskPool i).pid = (s.taskPool i).pid :=
  taskYield_keeps s (fun s => (s.taskPool i).pid) (fun s => taskStackCheck_pid s i)
    fun s n => switchTo_pid s n i

@[simp] theorem taskYield_nextPid : (taskYield s).2.nextPid = s.nextPid :=
  taskYield_keeps s State.nextPid taskStackCheck_nextPid switchTo_nextPid

@[simp] theorem schedStart_pid (i : Fin maxTasks) :
    ((schedStart s).2.taskPool i).pid = (s.taskPool i).pid :=
  schedStart_keeps s (fun s => (s.taskPool i).pid) fun s j => by simp

@[simp] theorem schedStart_nextPid : (schedStart s).2.nextPid = s.nextPid :=
  schedStart_keeps s State.nextPid fun _ _ => rfl

theorem taskCreate_none {arch : Arch} {entry stackSize : U32}
    (h : first (fun i => (s.taskPool i).state == 0) = none) :
    taskCreate arch entry stackSize s = (0, s) := by
  rw [taskCreate, h]

theorem taskCreate_some {arch : Arch} {entry stackSize : U32} {i : Fin maxTasks}
    (h : first (fun i => (s.taskPool i).state == 0) = some i) :
    taskCreate arch entry stackSize s = (s.nextPid, fillSlot arch entry stackSize s i) := by
  rw [taskCreate, h]
  simp [fillSlot, writeCanary]

variable {s}

theorem fillSlot_of_ne {arch : Arch} {entry stackSize : U32} {i j : Fin maxTasks} (h : j ≠ i) :
    (fillSlot arch entry stackSize s i).taskPool j = s.taskPool j :=
  Function.update_of_ne h _ _

@[simp] theorem fillSlot_pid {arch : Arch} {entry stackSize : U32} {i : Fin maxTasks} :
    ((fillSlot arch entry stackSize s i).taskPool i).pid = s.nextPid := by
  simp [fillSlot, writeCanary]

@[simp] theorem fillSlot_state {arch : Arch} {entry stackSize : U32} {i : Fin maxTasks} :
    ((fillSlot arch entry stackSize s i).taskPool i).state = 0 := by
  simp [fillSlot, writeCanary]

/-- **Only `task_create` touches pids.** -/
theorem step_pid {arch : Arch} {op : Op} {r : Ret} {s' : State}
    (hop : ∀ entry stackSize, op ≠ .create entry stackSize)
    (h : step arch s op = some (r, s')) :
    (∀ i, (s'.taskPool i).pid = (s.taskPool i).pid) ∧ s'.nextPid = s.nextPid := by
  cases op with
  | create entry stackSize => exact absurd rfl (hop entry stackSize)
  | start => cases h; simp
  | yield => cases h; simp
  | exit =>
      simp only [step, taskExit, Option.map_map, Option.map_eq_some_iff] at h
      obtain ⟨c, -, h⟩ := h
      cases h
      simp [markExit]
  | outside m sp => cases h; simp

end BloodKernel.Sched
