import BloodKernel.Kernel.Can

set_option autoImplicit false

/-!
# The receive interrupt inside `can_recv`

A task in `can_recv` and the handler `CEC_CAN_IRQHandler` on one core, one access to shared data at
a time. The interrupt may come before any of the task's accesses; from then on only the handler runs
until it returns. Frames arrive at any time.

* `step`: one access of the task or of the handler, an interrupt, or an arrival;
* `run_task`, `run_isr`: without an interruption the accesses are a call of `canRecv`, and of
  `canIrqHandler`;
* `isrStep_cases`: what an access of the handler does to the lock;
* `Completes`: the handler, running on, returns; `Stuck`: it spins on the lock that the task holds;
* **`handlerRuns_iff`**: the handler always completes, and is never stuck, exactly when every
  interrupt that finds bit 0 of RF0R set finds the lock free.
-/

namespace BloodKernel.CanPreempt

open Lib

/-- Where the task is in `can_recv`, with `msg_recv` in line: before the access named. -/
inductive TaskPc
  | out
  | lock (pc : SpinPc)
  | test
  | unlockEmpty
  | copy
  | tail
  | count
  | unlock
  deriving DecidableEq

/-- Where the handler is, with `msg_send` in line. -/
inductive IsrPc
  | off
  | readMailbox
  | lock (pc : SpinPc)
  | test
  | unlockFull
  | store
  | head
  | count
  | unlock
  | release
  deriving DecidableEq

/-- The shared data, the task's position, local `msg` and caller's buffer, and the handler's position
and local `msg`. -/
structure State where
  rx : CanRx
  task : TaskPc
  msg : Msg
  frame : CanFrame
  isr : IsrPc
  isrMsg : Msg

/-- `can_init` has run; the task is outside `can_recv`, the handler is not running. -/
def start (s : State) : State := { s with rx := canInit s.rx, task := .out, isr := .off }

/-! ### The accesses -/

/-- One access of the task, with the result of `can_recv` when it returns. -/
def taskStep (s : State) : Option (Option CanErr × State) :=
  match s.task with
  | .out => none
  | .lock pc =>
      let (pc', lock) := spinStep pc s.rx.rxq.lock
      some (none, { s with rx.rxq.lock := lock, task := pc'.elim .test .lock })
  | .test => some (none, { s with task := if s.rx.rxq.count = 0 then .unlockEmpty else .copy })
  | .unlockEmpty => some (some .errRx, { s with rx.rxq := s.rx.rxq.release, task := .out })
  | .copy => (bufCell s.rx.rxq.tail).map fun i =>
      (none, { s with msg := s.rx.rxq.buf i, task := .tail })
  | .tail => some (none, { s with rx.rxq.tail := nextIndex s.rx.rxq.tail, task := .count })
  | .count => some (none, { s with rx.rxq.count := s.rx.rxq.count - 1, task := .unlock })
  | .unlock => some (some .ok,
      { s with rx.rxq := s.rx.rxq.release, frame := ofMsg s.msg, task := .out })

/-- One access of the handler. -/
def isrStep (flags : U32) (pad : Fin 3 → U8) (s : State) : Option State :=
  match s.isr with
  | .off => none
  | .readMailbox => some { s with
      isrMsg := toMsg pad (readFrame s.rx.fifo0.output), isr := .lock .testAndSet }
  | .lock pc =>
      let (pc', lock) := spinStep pc s.rx.rxq.lock
      some { s with rx.rxq.lock := lock, isr := pc'.elim .test .lock }
  | .test => some { s with isr := if s.rx.rxq.count.toNat ≥ msgDepth then .unlockFull else .store }
  | .unlockFull => some { s with rx.rxq := s.rx.rxq.release, isr := .release }
  | .store => (bufCell s.rx.rxq.head).map fun i =>
      { s with rx.rxq.buf := Function.update s.rx.rxq.buf i s.isrMsg, isr := .head }
  | .head => some { s with rx.rxq.head := nextIndex s.rx.rxq.head, isr := .count }
  | .count => some { s with rx.rxq.count := s.rx.rxq.count + 1, isr := .unlock }
  | .unlock => some { s with rx.rxq := s.rx.rxq.release, isr := .release }
  | .release => some { s with
      rx.fifo0 := writeRf0r s.rx.fifo0 (rf0r flags s.rx.fifo0 ||| bit 5), isr := .off }

inductive Op
  | call
  | task
  | irq (flags : U32)
  | isr (flags : U32) (pad : Fin 3 → U8)
  | arrive (locked : Bool) (m : RxMailbox)

abbrev Event := Op × Option CanErr

/-- One step. An interrupt enters the handler, which reads RF0R and returns if bit 0 is clear. -/
def step (s : State) : Op → Option (Option CanErr × State)
  | .call => if s.isr = .off ∧ s.task = .out then
      some (none, { s with task := .lock .testAndSet }) else none
  | .task => if s.isr = .off then taskStep s else none
  | .irq flags => if s.isr = .off then
      some (none, { s with
        isr := if rf0r flags s.rx.fifo0 &&& bit 0 ≠ 0 then .readMailbox else .off }) else none
  | .isr flags pad => (isrStep flags pad s).map fun s => (none, s)
  | .arrive locked m => some (none, { s with rx.fifo0 := s.rx.fifo0.arrive locked m })

/-! ### Without an interruption -/

/-- `n` accesses of the task before the one with which `can_recv` returns `err`. -/
def taskEvents (n : ℕ) (err : CanErr) : List Event :=
  (.call, none) :: (List.replicate n (.task, none) ++ [(.task, some err)])

/-- The interrupt, and `n` accesses of the handler. -/
def isrEvents (flags : U32) (pad : Fin 3 → U8) (n : ℕ) : List Event :=
  (.irq flags, none) :: List.replicate n (.isr flags pad, none)

/-- **The accesses of the task are a call of `canRecv`.** -/
theorem run_task {s : State} {err : CanErr} {frame : CanFrame} {rx : CanRx} (hoff : s.isr = .off)
    (hout : s.task = .out) (h : canRecv s.rx s.frame = some (err, frame, rx)) :
    ∃ n t, Run step s (taskEvents n err) t ∧ t.rx = rx ∧ t.frame = frame ∧ t.task = .out ∧
      t.isr = .off := by
  obtain ⟨⟨⟨buf, head, tail, count, lock⟩, fifo⟩, task, msg, frame₀, isr, isrMsg⟩ := s
  obtain rfl : task = .out := hout
  obtain rfl : isr = .off := hoff
  unfold canRecv at h
  by_cases hl : lock = 0
  · subst hl
    rw [msgRecv_of_lock rfl] at h
    by_cases hc : count = 0
    · subst hc
      cases h
      exact ⟨2, _, .cons rfl (.cons rfl (.cons rfl (.cons rfl (.nil _)))), rfl, rfl, rfl, rfl⟩
    · rw [if_neg hc] at h
      cases hcell : bufCell tail with
      | none =>
          rw [hcell] at h
          cases h
      | some i =>
          rw [hcell] at h
          cases h
          have htest : step ⟨⟨⟨buf, head, tail, count, 1⟩, fifo⟩, .test, msg, frame₀, .off, isrMsg⟩
              .task = some (none,
                ⟨⟨⟨buf, head, tail, count, 1⟩, fifo⟩, .copy, msg, frame₀, .off, isrMsg⟩) := by
            simp only [step, taskStep, if_neg hc, if_true]
          have hcopy : step ⟨⟨⟨buf, head, tail, count, 1⟩, fifo⟩, .copy, msg, frame₀, .off, isrMsg⟩
              .task = some (none,
                ⟨⟨⟨buf, head, tail, count, 1⟩, fifo⟩, .tail, buf i, frame₀, .off, isrMsg⟩) := by
            simp only [step, taskStep, hcell, Option.map_some, if_true]
          exact ⟨5, _, .cons rfl (.cons rfl (.cons htest (.cons hcopy (.cons rfl (.cons rfl
            (.cons rfl (.nil _))))))), rfl, rfl, rfl, rfl⟩
  · rw [msgRecv_of_held hl] at h
    cases h

/-- **The accesses of the handler are a call of `canIrqHandler`.** -/
theorem run_isr {s : State} {flags : U32} {pad : Fin 3 → U8} {took : Option (RxMailbox × U8)}
    {rx : CanRx} (hoff : s.isr = .off) (h : canIrqHandler flags pad s.rx = some (took, rx)) :
    ∃ n t, Run step s (isrEvents flags pad n) t ∧ t.rx = rx ∧ t.task = s.task ∧ t.msg = s.msg ∧
      t.frame = s.frame ∧ t.isr = .off := by
  obtain ⟨⟨⟨buf, head, tail, count, lock⟩, fifo⟩, task, msg, frame, isr, isrMsg⟩ := s
  obtain rfl : isr = .off := hoff
  by_cases hb : rf0r flags fifo &&& bit 0 = 0
  · rw [canIrqHandler_even ((rf0r_and_bit fifo).mp hb)] at h
    cases h
    have hirq : step ⟨⟨⟨buf, head, tail, count, lock⟩, fifo⟩, task, msg, frame, .off, isrMsg⟩
        (.irq flags) = some (none,
          ⟨⟨⟨buf, head, tail, count, lock⟩, fifo⟩, task, msg, frame, .off, isrMsg⟩) := by
      simp only [step, if_true, hb, ne_eq, not_true_eq_false, if_false]
    exact ⟨0, _, .cons hirq (.nil _), rfl, rfl, rfl, rfl, rfl⟩
  · have hodd : fifo.val.length % 2 = 1 := Nat.mod_two_ne_zero.mp (mt (rf0r_and_bit fifo).mpr hb)
    have hrel : ∀ q, (⟨q, writeRf0r fifo (rf0r flags fifo ||| bit 5)⟩ : CanRx) = ⟨q, fifo.release⟩ :=
      fun q => congrArg (CanRx.mk q) (writeRf0r_release fifo _)
    rw [canIrqHandler_odd hodd] at h
    have hirq : step ⟨⟨⟨buf, head, tail, count, lock⟩, fifo⟩, task, msg, frame, .off, isrMsg⟩
        (.irq flags) = some (none,
          ⟨⟨⟨buf, head, tail, count, lock⟩, fifo⟩, task, msg, frame, .readMailbox, isrMsg⟩) := by
      simp only [step, if_true, hb, ne_eq, not_false_eq_true]
    by_cases hl : lock = 0
    · subst hl
      rw [msgSend_of_lock rfl] at h
      by_cases hc : count.toNat ≥ msgDepth
      · rw [if_pos hc] at h
        cases h
        have htest : ∀ m, step ⟨⟨⟨buf, head, tail, count, 1⟩, fifo⟩, task, msg, frame, .test, m⟩
            (.isr flags pad) = some (none,
              ⟨⟨⟨buf, head, tail, count, 1⟩, fifo⟩, task, msg, frame, .unlockFull, m⟩) := by
          intro m
          simp only [step, isrStep, if_pos hc, Option.map_some]
        exact ⟨5, _, .cons hirq (.cons rfl (.cons rfl (.cons (htest _) (.cons rfl (.cons rfl
          (.nil _)))))), hrel _, rfl, rfl, rfl, rfl⟩
      · rw [if_neg hc] at h
        cases hcell : bufCell head with
        | none =>
            rw [hcell] at h
            cases h
        | some i =>
            rw [hcell] at h
            cases h
            have htest : ∀ m, step ⟨⟨⟨buf, head, tail, count, 1⟩, fifo⟩, task, msg, frame, .test, m⟩
                (.isr flags pad) = some (none,
                  ⟨⟨⟨buf, head, tail, count, 1⟩, fifo⟩, task, msg, frame, .store, m⟩) := by
              intro m
              simp only [step, isrStep, if_neg hc, Option.map_some]
            have hstore : ∀ m, step ⟨⟨⟨buf, head, tail, count, 1⟩, fifo⟩, task, msg, frame, .store,
                m⟩ (.isr flags pad) = some (none, ⟨⟨⟨Function.update buf i m, head, tail, count, 1⟩,
                  fifo⟩, task, msg, frame, .head, m⟩) := by
              intro m
              simp only [step, isrStep, hcell, Option.map_some]
            exact ⟨8, _, .cons hirq (.cons rfl (.cons rfl (.cons (htest _) (.cons (hstore _)
              (.cons rfl (.cons rfl (.cons rfl (.cons rfl (.nil _))))))))), hrel _, rfl, rfl, rfl, rfl⟩
    · rw [msgSend_of_held hl] at h
      cases h

/-! ### What the handler may meet -/

def TaskPc.holds : TaskPc → Bool
  | .out | .lock _ => false
  | _ => true

/-- The handler has work to do and does not hold the lock yet. -/
def IsrPc.waits : IsrPc → Bool
  | .readMailbox | .lock _ => true
  | _ => false

/-- The handler holds the lock. -/
def IsrPc.holds : IsrPc → Bool
  | .off | .readMailbox | .lock _ | .release => false
  | _ => true

/-- The handler is not running, or returns if it runs on. -/
inductive Completes : State → Prop
  | done {s : State} (h : s.isr = .off) : Completes s
  | step {s s' : State} {flags : U32} {pad : Fin 3 → U8} (h : isrStep flags pad s = some s')
      (hc : Completes s') : Completes s

/-- The handler is in `spin_lock` while the preempted task holds the lock. -/
def Stuck (s : State) : Prop := (∃ pc, s.isr = .lock pc) ∧ s.task.holds = true

/-- The handler can run to completion. -/
def HandlerRuns (s : State) : Prop := Completes s ∧ ¬ Stuck s

/-- An interrupt finds the lock free, or bit 0 of RF0R clear. -/
def EntersFree (s : State) (e : Event) : Prop :=
  ∀ flags, e.1 = .irq flags → s.rx.rxq.lock = 0 ∨ rf0r flags s.rx.fifo0 &&& bit 0 = 0

/-- What holds in every state: a holder of the lock excludes the other party, and the write index is
in range. -/
structure Inv (s : State) : Prop where
  task_lock : s.task.holds = true → s.rx.rxq.lock ≠ 0
  exclusive : s.task.holds = true → s.isr.holds = false
  head_lt : s.rx.rxq.head.toNat < msgDepth

variable {s s' : State} {op : Op} {r : Option CanErr}

theorem nextIndex_lt (i : U8) : (nextIndex i).toNat < msgDepth := by
  rw [toNat_nextIndex]
  exact Nat.mod_lt _ (by decide)

theorem Inv.of_not_holds (ht : s.task.holds ≠ true) (hh : s.rx.rxq.head.toNat < msgDepth) : Inv s :=
  ⟨fun h => absurd h ht, fun h => absurd h ht, hh⟩

/-- A bound on the number of accesses left once the lock is free. -/
def IsrPc.rank : IsrPc → ℕ
  | .off => 0
  | .release => 1
  | .unlockFull | .unlock => 2
  | .count => 3
  | .head => 4
  | .store => 5
  | .test => 6
  | .lock .testAndSet => 7
  | .lock .relax => 8
  | .readMailbox => 9

theorem IsrPc.holds_eq_false_of_waits {pc : IsrPc} (h : pc.waits = true) : pc.holds = false := by
  cases pc with
  | readMailbox | lock _ => rfl
  | _ => cases h

/-- **One access of the handler.** The task stays where it is, and the write index in range. The
handler waits for a held lock, and waits on; or waits for a free one; or holds it; or releases the
FIFO. -/
theorem isrStep_cases {flags : U32} {pad : Fin 3 → U8} (hs : isrStep flags pad s = some s') :
    s'.task = s.task ∧ (s.rx.rxq.head.toNat < msgDepth → s'.rx.rxq.head.toNat < msgDepth) ∧
      ((s.isr.waits = true ∧ s.rx.rxq.lock ≠ 0 ∧ s'.isr.waits = true ∧ s'.rx.rxq.lock ≠ 0) ∨
        (s.isr.waits = true ∧ s.rx.rxq.lock = 0 ∧ (s'.isr.waits = true → s'.rx.rxq.lock = 0)) ∨
        (s.isr.holds = true ∧ s'.isr.waits = false) ∨
        (s.isr.waits = false ∧ s'.isr = .off ∧ s'.rx.rxq.lock = s.rx.rxq.lock)) := by
  unfold isrStep at hs
  cases hpc : s.isr with
  | off => rw [hpc] at hs; cases hs
  | readMailbox =>
      simp only [hpc, Option.some.injEq] at hs
      obtain rfl := hs
      refine ⟨rfl, id, ?_⟩
      by_cases hl : s.rx.rxq.lock = 0
      · exact .inr (.inl ⟨rfl, hl, fun _ => hl⟩)
      · exact .inl ⟨rfl, hl, rfl, hl⟩
  | lock pc =>
      simp only [hpc, Option.some.injEq] at hs
      obtain rfl := hs
      refine ⟨rfl, id, ?_⟩
      by_cases hl : s.rx.rxq.lock = 0
      · refine .inr (.inl ⟨rfl, hl, fun hw => ?_⟩)
        -- the exchange acquires a free lock, the inner loop leaves it free
        cases pc with
        | testAndSet =>
            rw [hl] at hw
            exact absurd hw Bool.false_ne_true
        | relax => exact hl
      · obtain ⟨lock', hsp, hl'⟩ := spinStep_held pc hl
        rw [hsp]
        exact .inl ⟨rfl, hl, rfl, hl'⟩
  | test =>
      simp only [hpc, Option.some.injEq] at hs
      obtain rfl := hs
      refine ⟨rfl, id, .inr (.inr (.inl ⟨rfl, ?_⟩))⟩
      split_ifs <;> rfl
  | store =>
      simp only [hpc, Option.map_eq_some_iff] at hs
      obtain ⟨k, -, rfl⟩ := hs
      exact ⟨rfl, id, .inr (.inr (.inl ⟨rfl, rfl⟩))⟩
  | head =>
      simp only [hpc, Option.some.injEq] at hs
      obtain rfl := hs
      exact ⟨rfl, fun _ => nextIndex_lt _, .inr (.inr (.inl ⟨rfl, rfl⟩))⟩
  | unlockFull | count | unlock =>
      simp only [hpc, Option.some.injEq] at hs
      obtain rfl := hs
      exact ⟨rfl, id, .inr (.inr (.inl ⟨rfl, rfl⟩))⟩
  | release =>
      simp only [hpc, Option.some.injEq] at hs
      obtain rfl := hs
      exact ⟨rfl, id, .inr (.inr (.inr ⟨rfl, rfl, rfl⟩))⟩

theorem isrStep_waits {flags : U32} {pad : Fin 3 → U8} (hw : s.isr.waits = true)
    (hl : s.rx.rxq.lock ≠ 0) (hs : isrStep flags pad s = some s') :
    s'.isr.waits = true ∧ s'.rx.rxq.lock ≠ 0 := by
  rcases (isrStep_cases hs).2.2 with h | h | h | h
  · exact h.2.2
  · exact absurd h.2.1 hl
  · rw [IsrPc.holds_eq_false_of_waits hw] at h
    cases h.1
  · rw [hw] at h
    cases h.1

/-- A handler that does not wait for a held lock never does. -/
theorem isrStep_free {flags : U32} {pad : Fin 3 → U8} (h : s.isr.waits = true → s.rx.rxq.lock = 0)
    (hs : isrStep flags pad s = some s') (hw' : s'.isr.waits = true) : s'.rx.rxq.lock = 0 := by
  rcases (isrStep_cases hs).2.2 with hc | hc | hc | hc
  · exact absurd (h hc.1) hc.2.1
  · exact hc.2.2 hw'
  · rw [hc.2] at hw'
    cases hw'
  · rw [hc.2.1] at hw'
    cases hw'

/-- The handler does not wait for a held lock, and its write index is in range. -/
def Free (s : State) : Prop :=
  (s.isr.waits = true → s.rx.rxq.lock = 0) ∧ s.rx.rxq.head.toNat < msgDepth

theorem Free.isrStep {flags : U32} {pad : Fin 3 → U8} (h : Free s)
    (hs : isrStep flags pad s = some s') : Free s' :=
  ⟨isrStep_free h.1 hs, (isrStep_cases hs).2.1 h.2⟩

theorem Free.progress (h : Free s) (hoff : s.isr ≠ .off) :
    ∃ s', CanPreempt.isrStep 0 (fun _ => 0) s = some s' ∧ s'.isr.rank < s.isr.rank := by
  unfold CanPreempt.isrStep
  cases hpc : s.isr with
  | off => exact absurd hpc hoff
  | lock pc =>
      rw [h.1 (by rw [hpc]; rfl)]
      cases pc with
      | testAndSet => exact ⟨_, rfl, by simp [IsrPc.rank]⟩
      | relax => exact ⟨_, rfl, by simp [IsrPc.rank]⟩
  | test =>
      refine ⟨_, rfl, ?_⟩
      show (if s.rx.rxq.count.toNat ≥ msgDepth then IsrPc.unlockFull else IsrPc.store).rank < _
      split_ifs
      · exact (by decide : IsrPc.unlockFull.rank < IsrPc.test.rank)
      · exact (by decide : IsrPc.store.rank < IsrPc.test.rank)
  | store =>
      have hcell : bufCell s.rx.rxq.head = some ⟨s.rx.rxq.head.toNat, h.2⟩ := dif_pos h.2
      simp only [hcell]
      exact ⟨_, rfl, by simp [IsrPc.rank]⟩
  | readMailbox | unlockFull | head | count | unlock | release =>
      exact ⟨_, rfl, by simp [IsrPc.rank]⟩

theorem Free.completes (h : Free s) : Completes s := by
  induction hn : s.isr.rank using Nat.strong_induction_on generalizing s with
  | _ n ih =>
      by_cases hoff : s.isr = .off
      · exact .done hoff
      · obtain ⟨s', hs, hlt⟩ := h.progress hoff
        exact .step hs (ih _ (hn ▸ hlt) (h.isrStep hs) rfl)

theorem Completes.lock_eq_zero (h : Completes s) (hw : s.isr.waits = true) :
    s.rx.rxq.lock = 0 := by
  induction h with
  | done h => rw [h] at hw; cases hw
  | step hs _ ih =>
      by_contra hl
      obtain ⟨hw', hl'⟩ := isrStep_waits hw hl hs
      exact hl' (ih hw')

/-- **When the handler can run to completion.** -/
theorem handlerRuns_iff_free (hi : Inv s) : HandlerRuns s ↔
    (s.isr.waits = true → s.rx.rxq.lock = 0) := by
  refine ⟨fun h => h.1.lock_eq_zero, fun h => ⟨Free.completes ⟨h, hi.head_lt⟩, ?_⟩⟩
  rintro ⟨⟨pc, hpc⟩, ht⟩
  exact hi.task_lock ht (h (by rw [hpc]; rfl))

/-! ### One step -/

theorem inv_start (s : State) : Inv (start s) :=
  .of_not_holds Bool.false_ne_true (by decide : (0 : U8).toNat < msgDepth)

/-- An access of the task, while the handler is not running. -/
theorem Inv.taskStep (hi : Inv s) (hoff : s.isr = .off) (hs : taskStep s = some (r, s')) :
    Inv s' ∧ s'.isr = .off := by
  unfold CanPreempt.taskStep at hs
  cases hpc : s.task with
  | out => rw [hpc] at hs; cases hs
  | lock pc =>
      simp only [hpc, Option.some.injEq, Prod.mk.injEq] at hs
      obtain ⟨-, rfl⟩ := hs
      refine ⟨⟨fun ht => ?_, fun _ => by simp [hoff, IsrPc.holds], hi.head_lt⟩, hoff⟩
      -- the task holds the lock after the step only if its exchange found the word 0
      cases pc with
      | testAndSet => exact (by decide : (1 : U32) ≠ 0)
      | relax =>
          by_cases hl : s.rx.rxq.lock = 0
          · simp [spinStep, hl, TaskPc.holds] at ht
          · exact hl
  | copy =>
      simp only [hpc, Option.map_eq_some_iff, Prod.mk.injEq] at hs
      obtain ⟨k, -, -, rfl⟩ := hs
      exact ⟨⟨fun _ => hi.task_lock (by rw [hpc]; rfl), fun _ => by simp [hoff, IsrPc.holds],
        hi.head_lt⟩, hoff⟩
  | test | tail | count =>
      simp only [hpc, Option.some.injEq, Prod.mk.injEq] at hs
      obtain ⟨-, rfl⟩ := hs
      exact ⟨⟨fun _ => hi.task_lock (by rw [hpc]; rfl), fun _ => by simp [hoff, IsrPc.holds],
        hi.head_lt⟩, hoff⟩
  | unlockEmpty | unlock =>
      simp only [hpc, Option.some.injEq, Prod.mk.injEq] at hs
      obtain ⟨-, rfl⟩ := hs
      exact ⟨.of_not_holds Bool.false_ne_true hi.head_lt, hoff⟩

theorem Inv.task_free (hi : Inv s) (h : s.isr.holds = true) : s.task.holds ≠ true := fun ht => by
  rw [hi.exclusive ht] at h
  cases h

theorem Inv.isrStep {flags : U32} {pad : Fin 3 → U8} (hi : Inv s)
    (hs : isrStep flags pad s = some s') : Inv s' := by
  obtain ⟨htask, hhead, hcase⟩ := isrStep_cases hs
  rcases hcase with h | h | h | h
  · exact ⟨fun _ => h.2.2.2, fun _ => IsrPc.holds_eq_false_of_waits h.2.2.1, hhead hi.head_lt⟩
  · exact .of_not_holds (htask ▸ fun ht => hi.task_lock ht h.2.1) (hhead hi.head_lt)
  · exact .of_not_holds (htask ▸ hi.task_free h.1) (hhead hi.head_lt)
  · refine ⟨fun ht => ?_, fun _ => ?_, hhead hi.head_lt⟩
    · rw [h.2.2]
      exact hi.task_lock (htask ▸ ht)
    · rw [h.2.1]
      rfl

theorem Inv.step (hi : Inv s) (hs : step s op = some (r, s')) : Inv s' := by
  unfold CanPreempt.step at hs
  cases op with
  | call =>
      simp only [Option.ite_none_right_eq_some, Option.some.injEq, Prod.mk.injEq] at hs
      obtain ⟨-, -, rfl⟩ := hs
      exact .of_not_holds Bool.false_ne_true hi.head_lt
  | task =>
      simp only [Option.ite_none_right_eq_some] at hs
      exact (hi.taskStep hs.1 hs.2).1
  | irq flags =>
      simp only [Option.ite_none_right_eq_some, Option.some.injEq, Prod.mk.injEq] at hs
      obtain ⟨-, -, rfl⟩ := hs
      refine ⟨hi.task_lock, fun _ => ?_, hi.head_lt⟩
      split_ifs <;> rfl
  | isr flags pad =>
      simp only [Option.map_eq_some_iff, Prod.mk.injEq] at hs
      obtain ⟨s₁, h₁, -, rfl⟩ := hs
      exact hi.isrStep h₁
  | arrive locked m =>
      simp only [Option.some.injEq, Prod.mk.injEq] at hs
      obtain ⟨-, rfl⟩ := hs
      exact ⟨hi.task_lock, hi.exclusive, hi.head_lt⟩

/-- **One step.** It leads to a state whose handler can run to completion exactly when it
`EntersFree`. -/
theorem step_handlerRuns_iff (hi : Inv s) (h : HandlerRuns s) (hs : step s op = some (r, s')) :
    HandlerRuns s' ↔ EntersFree s (op, r) := by
  rw [handlerRuns_iff_free (hi.step hs)]
  have hfree := (handlerRuns_iff_free hi).mp h
  unfold step at hs
  cases op with
  | call =>
      simp only [Option.ite_none_right_eq_some, Option.some.injEq, Prod.mk.injEq] at hs
      obtain ⟨-, -, rfl⟩ := hs
      exact iff_of_true hfree fun _ he => by cases he
  | task =>
      simp only [Option.ite_none_right_eq_some] at hs
      refine iff_of_true (fun hw => ?_) fun _ he => by cases he
      rw [(hi.taskStep hs.1 hs.2).2] at hw
      cases hw
  | isr flags pad =>
      simp only [Option.map_eq_some_iff, Prod.mk.injEq] at hs
      obtain ⟨s₁, h₁, -, rfl⟩ := hs
      exact iff_of_true (isrStep_free hfree h₁) fun _ he => by cases he
  | arrive locked m =>
      simp only [Option.some.injEq, Prod.mk.injEq] at hs
      obtain ⟨-, rfl⟩ := hs
      exact iff_of_true hfree fun _ he => by cases he
  | irq flags =>
      simp only [Option.ite_none_right_eq_some, Option.some.injEq, Prod.mk.injEq] at hs
      obtain ⟨-, -, rfl⟩ := hs
      have hirq : EntersFree s (.irq flags, r) ↔
          s.rx.rxq.lock = 0 ∨ rf0r flags s.rx.fifo0 &&& bit 0 = 0 :=
        ⟨fun h => h flags rfl, fun h _ he => by cases he; exact h⟩
      rw [hirq]
      by_cases hb : rf0r flags s.rx.fifo0 &&& bit 0 = 0
      · simp only [hb, ne_eq, not_true_eq_false, if_false, or_true, iff_true]
        exact fun hw => absurd hw Bool.false_ne_true
      · simp only [hb, ne_eq, not_false_eq_true, if_true, or_false]
        exact ⟨fun h => h rfl, fun h _ => h⟩

/-- **When the handler can always run to completion.** After `can_init`, in any interleaving, the
handler can always return, and is never in `spin_lock` on a lock that the preempted task holds, if
and only if every interrupt that finds bit 0 of RF0R set finds the lock free. -/
theorem handlerRuns_iff {s₀ t : State} {es : List Event} (h : Run step (start s₀) es t) :
    Throughout step HandlerRuns (start s₀) es ↔ Along step EntersFree (start s₀) es :=
  h.throughout_iff_along (fun _ _ _ _ hi hs => hi.step hs)
    (fun _ _ _ _ hi h hs => step_handlerRuns_iff hi h hs) (inv_start s₀)
    ((handlerRuns_iff_free (inv_start s₀)).mpr fun hw => absurd hw Bool.false_ne_true)

/-- The interrupt comes after the task has acquired the lock. -/
def idle : State where
  rx := ⟨⟨fun _ => ⟨fun _ => 0⟩, 0, 0, 0, 0⟩, .empty⟩
  task := .out
  msg := ⟨fun _ => 0⟩
  frame := ⟨0, 0, fun _ => 0⟩
  isr := .off
  isrMsg := ⟨fun _ => 0⟩

def spinning : State :=
  { idle with
    rx := ⟨{ idle.rx.rxq with lock := 1 }, ⟨[⟨0, 0, 0, 0⟩], by decide⟩⟩
    task := .test
    isr := .lock .relax
    isrMsg := toMsg (fun _ => 0) (readFrame ⟨0, 0, 0, 0⟩) }

def preempt : List Event := [(.call, none), (.task, none), (.arrive false ⟨0, 0, 0, 0⟩, none),
  (.irq 0, none), (.isr 0 fun _ => 0, none), (.isr 0 fun _ => 0, none)]

theorem run_preempt : Run step (start idle) preempt spinning :=
  .cons rfl (.cons rfl (.cons rfl (.cons rfl (.cons rfl (.cons rfl (.nil _))))))

theorem handlerRuns_iff_preempt : Throughout step HandlerRuns (start idle) preempt ↔
    Along step EntersFree (start idle) preempt := handlerRuns_iff run_preempt

/-- The handler spins on the lock of the task that it has preempted. -/
theorem handler_stuck : ¬ ∀ (s₀ t : State) (es : List Event),
    Run step (start s₀) es t → ¬ Stuck t :=
  fun hall => hall idle spinning preempt run_preempt ⟨⟨.relax, rfl⟩, rfl⟩

end BloodKernel.CanPreempt
