import BloodKernel.Kernel.Spinlock
import BloodKernel.Lib.Fifo
import BloodKernel.Lib.Ring

set_option autoImplicit false

/-!
# Message queues

`src/kernel/msg.c`, each call one step. A call that finds the lock held does not return, and an
index outside `buf` is an error; both are `none`.

* `msgInit`, `msgSend`, `msgRecv`: the functions;
* `Represents`, `Holds`: the ring buffer of a queue, and the messages in it;
* `msgSend_room`, `msgSend_full`, `msgRecv_cons`, `msgRecv_nil`: what a call does to them;
* **`msg_refines_fifo`**: after `msg_init` the calls are those of a bounded FIFO.
-/

namespace BloodKernel

open Lib

abbrev msgSize : ℕ := 16
abbrev msgDepth : ℕ := 8

@[ext]
structure Msg where
  data : Fin msgSize → U8
  deriving DecidableEq

/-- `msg_queue_t`; `lock` is the word of the `spinlock_t`. -/
structure MsgQueue where
  buf : Fin msgDepth → Msg
  head : U8
  tail : U8
  count : U8
  lock : U32

/-! ### The functions -/

def msgInit (q : MsgQueue) : MsgQueue := { q with head := 0, tail := 0, count := 0, lock := 0 }

/-- The cell of `buf` with index `i`. -/
def bufCell (i : U8) : Option (Fin msgDepth) :=
  if h : i.toNat < msgDepth then some ⟨i.toNat, h⟩ else none

/-- `(i + 1) % MSG_DEPTH`, computed in `int`. -/
def nextIndex (i : U8) : U8 := BitVec.ofNat 8 ((i.toNat + 1) % msgDepth)

def MsgQueue.acquire (q : MsgQueue) : Option MsgQueue :=
  (spinLock q.lock).map fun lock => { q with lock := lock }

def MsgQueue.release (q : MsgQueue) : MsgQueue := { q with lock := spinUnlock q.lock }

def msgSend (q : MsgQueue) (msg : Msg) : Option (U8 × MsgQueue) := do
  let q ← q.acquire
  if q.count.toNat ≥ msgDepth then
    return (0, q.release)      -- full
  let i ← bufCell q.head
  let q := { q with buf := Function.update q.buf i msg }
  let q := { q with head := nextIndex q.head }
  let q := { q with count := q.count + 1 }
  return (1, q.release)

/-- `msg` is what the caller's buffer holds at the call. -/
def msgRecv (q : MsgQueue) (msg : Msg) : Option (U8 × Msg × MsgQueue) := do
  let q ← q.acquire
  if q.count = 0 then
    return (0, msg, q.release)      -- empty
  let i ← bufCell q.tail
  let msg := q.buf i
  let q := { q with tail := nextIndex q.tail }
  let q := { q with count := q.count - 1 }
  return (1, msg, q.release)

/-! ### The messages in a queue -/

/-- `q` is unlocked and stores the ring buffer `r`. -/
structure Represents (q : MsgQueue) (r : Ring msgDepth Msg) : Prop where
  lock : q.lock = 0
  buf : q.buf = r.cell
  head : q.head.toNat = r.head
  tail : q.tail.toNat = r.tail
  count : q.count.toNat = r.count

/-- `q` is unlocked and holds the messages `l`, oldest first. -/
def Holds (q : MsgQueue) (l : List Msg) : Prop := ∃ r, Represents q r ∧ r.toList = l

variable {q : MsgQueue} {m : Msg} {l : List Msg}

theorem bufCell_of_toNat_eq {i : U8} {k : Fin msgDepth} (h : i.toNat = k) : bufCell i = some k := by
  have hlt : i.toNat < msgDepth := h ▸ k.isLt
  unfold bufCell
  rw [dif_pos hlt]
  exact congrArg some (Fin.ext h)

theorem toNat_nextIndex (i : U8) : (nextIndex i).toNat = (i.toNat + 1) % msgDepth := by
  have : (i.toNat + 1) % msgDepth < msgDepth := Nat.mod_lt _ (by decide)
  unfold nextIndex
  rw [BitVec.toNat_ofNat]
  exact Nat.mod_eq_of_lt (this.trans (by decide))

theorem holds_msgInit (q : MsgQueue) : Holds (msgInit q) [] :=
  ⟨⟨q.buf, 0, 0, Nat.zero_le _⟩, ⟨rfl, rfl, rfl, rfl, rfl⟩, rfl⟩

theorem Holds.length_le (h : Holds q l) : l.length ≤ msgDepth := by
  obtain ⟨r, -, rfl⟩ := h
  exact r.length_toList.trans_le r.count_le

theorem Holds.lock (h : Holds q l) : q.lock = 0 := h.choose_spec.1.lock

theorem Holds.toNat_count (h : Holds q l) : q.count.toNat = l.length := by
  obtain ⟨r, hr, rfl⟩ := h
  rw [hr.count, r.length_toList]

theorem Represents.unique {r r' : Ring msgDepth Msg} (h : Represents q r) (h' : Represents q r') :
    r = r' := by
  obtain ⟨cell, tail, count, _⟩ := r
  obtain ⟨cell', tail', count', _⟩ := r'
  obtain rfl : cell = cell' := h.buf.symm.trans h'.buf
  obtain rfl : tail = tail' := Fin.ext (h.tail.symm.trans h'.tail)
  obtain rfl : count = count' := h.count.symm.trans h'.count
  rfl

theorem Holds.unique {l' : List Msg} (h : Holds q l) (h' : Holds q l') : l = l' := by
  obtain ⟨r, hr, rfl⟩ := h
  obtain ⟨r', hr', rfl⟩ := h'
  rw [hr.unique hr']

theorem acquire_of_lock (h : q.lock = 0) : q.acquire = some { q with lock := 1 } := by
  unfold MsgQueue.acquire
  rw [h, spinLock_of_zero]
  rfl

/-- Locking and unlocking an unlocked queue leaves it as it was. -/
theorem release_lock (h : q.lock = 0) : MsgQueue.release { q with lock := 1 } = q := by
  obtain ⟨_, _, _, _, _⟩ := q
  exact congrArg (MsgQueue.mk _ _ _ _) h.symm

theorem msgSend_of_lock (h : q.lock = 0) : msgSend q m =
    if q.count.toNat ≥ msgDepth then some (0, q)
    else (bufCell q.head).map fun i =>
      (1, ⟨Function.update q.buf i m, nextIndex q.head, q.tail, q.count + 1, 0⟩) := by
  unfold msgSend
  rw [acquire_of_lock h]
  simp only [Option.bind_eq_bind, Option.bind_some, release_lock h]
  cases bufCell q.head with
  | none => rfl
  | some i => rfl

theorem msgRecv_of_lock (h : q.lock = 0) : msgRecv q m =
    if q.count = 0 then some (0, m, q)
    else (bufCell q.tail).map fun i =>
      (1, q.buf i, ⟨q.buf, q.head, nextIndex q.tail, q.count - 1, 0⟩) := by
  unfold msgRecv
  rw [acquire_of_lock h]
  simp only [Option.bind_eq_bind, Option.bind_some, release_lock h]
  cases bufCell q.tail with
  | none => rfl
  | some i => rfl

theorem msgSend_of_held (h : q.lock ≠ 0) : msgSend q m = none := by
  unfold msgSend MsgQueue.acquire spinLock
  rw [if_neg h]
  rfl

theorem msgRecv_of_held (h : q.lock ≠ 0) : msgRecv q m = none := by
  unfold msgRecv MsgQueue.acquire spinLock
  rw [if_neg h]
  rfl

theorem msgSend_full (h : Holds q l) (hl : l.length = msgDepth) : msgSend q m = some (0, q) := by
  have hc : q.count.toNat ≥ msgDepth := by
    rw [h.toNat_count, hl]
  rw [msgSend_of_lock h.lock, if_pos hc]

theorem msgSend_room (h : Holds q l) (hl : l.length < msgDepth) :
    ∃ q', msgSend q m = some (1, q') ∧ Holds q' (l ++ [m]) := by
  have hc : ¬ q.count.toNat ≥ msgDepth := by
    rw [h.toNat_count]
    omega
  rw [msgSend_of_lock h.lock, if_neg hc]
  obtain ⟨r, hr, rfl⟩ := h
  have hroom : r.count < msgDepth := by rwa [r.length_toList] at hl
  rw [bufCell_of_toNat_eq hr.head]
  refine ⟨_, rfl, r.push m hroom, ⟨rfl, ?_, ?_, hr.tail, ?_⟩, r.toList_push m hroom⟩
  · show Function.update q.buf r.head m = Function.update r.cell r.head m
    rw [hr.buf]
  · show (nextIndex q.head).toNat = _
    rw [toNat_nextIndex, hr.head, r.head_push]
  · show (q.count + 1).toNat = r.count + 1
    rw [BitVec.toNat_add, hr.count]
    exact Nat.mod_eq_of_lt ((Nat.succ_le_of_lt hroom).trans_lt (by decide))

theorem msgRecv_nil (h : Holds q []) : msgRecv q m = some (0, m, q) := by
  have hc : q.count = 0 := BitVec.eq_of_toNat_eq h.toNat_count
  rw [msgRecv_of_lock h.lock, if_pos hc]

theorem msgRecv_cons {x : Msg} (h : Holds q (x :: l)) :
    ∃ q', msgRecv q m = some (1, x, q') ∧ Holds q' l := by
  have hc : ¬ q.count = 0 := by
    intro hz
    have := h.toNat_count
    rw [hz] at this
    cases this
  rw [msgRecv_of_lock h.lock, if_neg hc]
  obtain ⟨r, hr, hrl⟩ := h
  have hpos : 0 < r.count := by
    rw [← r.length_toList, hrl]
    exact Nat.zero_lt_succ _
  rw [r.toList_pop hpos, List.cons.injEq] at hrl
  rw [bufCell_of_toNat_eq hr.tail, ← hrl.1, ← hr.buf]
  refine ⟨_, rfl, r.pop, ⟨rfl, hr.buf, ?_, ?_, ?_⟩, hrl.2⟩
  · rw [r.head_pop hpos]
    exact hr.head
  · show (nextIndex q.tail).toNat = _
    rw [toNat_nextIndex, hr.tail]
    rfl
  · show (q.count - 1).toNat = r.count - 1
    have := r.count_le
    have := hr.count
    bv_omega

/-! ### The calls on a queue -/

inductive MsgOp
  | send (msg : Msg)
  | recv (msg : Msg)

/-- The result of a call, and for `msg_recv` what the caller's buffer holds afterwards. -/
inductive MsgRet
  | sent (r : U8)
  | recvd (r : U8) (msg : Msg)

def msgCall (q : MsgQueue) : MsgOp → Option (MsgRet × MsgQueue)
  | .send msg => (msgSend q msg).map fun (r, q) => (.sent r, q)
  | .recv msg => (msgRecv q msg).map fun (r, msg, q) => (.recvd r msg, q)

/-- The calls on a FIFO of capacity `MSG_DEPTH`, with the results of the C functions. -/
def fifoCall (held : List Msg) : MsgOp → MsgRet × List Msg
  | .send msg => match Fifo.step msgDepth held (.send msg) with
    | (.sent true, held) => (.sent 1, held)
    | (_, held) => (.sent 0, held)
  | .recv msg => match Fifo.step msgDepth held .recv with
    | (.received (some x), held) => (.recvd 1 x, held)
    | (_, held) => (.recvd 0 msg, held)

/-- What a call did, read from its result. -/
def fifoEvent : MsgOp × MsgRet → Fifo.Op Msg × Fifo.Res Msg
  | (.send msg, .sent r) => (.send msg, .sent (r == 1))
  | (.send msg, .recvd _ _) => (.send msg, .sent false)
  | (.recv _, .recvd r msg) => (.recv, .received (if r = 1 then some msg else none))
  | (.recv _, .sent _) => (.recv, .received none)

/-- **One call.** A queue and the list of its messages take a call to the same result. -/
theorem msgCall_holds (h : Holds q l) (op : MsgOp) :
    ∃ q', msgCall q op = some ((fifoCall l op).1, q') ∧ Holds q' (fifoCall l op).2 := by
  cases op with
  | send msg =>
      by_cases hl : l.length < msgDepth
      · obtain ⟨q', hq, hq'⟩ := msgSend_room (m := msg) h hl
        refine ⟨q', ?_, ?_⟩
        · simp only [msgCall, hq, fifoCall, Fifo.step, if_pos hl, Option.map_some]
        · simpa only [fifoCall, Fifo.step, if_pos hl] using hq'
      · have hfull : l.length = msgDepth := le_antisymm h.length_le (not_lt.mp hl)
        refine ⟨q, ?_, ?_⟩
        · simp only [msgCall, msgSend_full h hfull, fifoCall, Fifo.step, if_neg hl, Option.map_some]
        · simpa only [fifoCall, Fifo.step, if_neg hl] using h
  | recv msg =>
      cases l with
      | nil =>
          refine ⟨q, ?_, h⟩
          simp only [msgCall, msgRecv_nil h, fifoCall, Fifo.step, Option.map_some]
      | cons x l =>
          obtain ⟨q', hq, hq'⟩ := msgRecv_cons (m := msg) h
          refine ⟨q', ?_, hq'⟩
          simp only [msgCall, hq, fifoCall, Fifo.step, Option.map_some]

theorem fifoCall_event (l : List Msg) (op : MsgOp) : Fifo.step msgDepth l
    (fifoEvent (op, (fifoCall l op).1)).1 =
      ((fifoEvent (op, (fifoCall l op).1)).2, (fifoCall l op).2) := by
  cases op with
  | send msg =>
      by_cases hl : l.length < msgDepth
      · simp [fifoCall, Fifo.step, hl, fifoEvent]
      · simp [fifoCall, Fifo.step, hl, fifoEvent]
  | recv msg =>
      cases l with
      | nil => simp [fifoCall, Fifo.step, fifoEvent]
      | cons x l => simp [fifoCall, Fifo.step, fifoEvent]

theorem Holds.run {held : List Msg} {es : List (MsgOp × MsgRet)} (h : Holds q l)
    (hf : Run (total fifoCall) l es held) : ∃ q', Run msgCall q es q' ∧ Holds q' held := by
  have hsim : ∀ l q op r l', Holds q l → total fifoCall l op = some (r, l') →
      ∃ q', msgCall q op = some (r, q') ∧ Holds q' l' := by
    intro l q op r l' hq hs
    have := msgCall_holds hq op
    rwa [total_eq_some.mp hs] at this
  have := hf.simulate (fun l q => Holds q l) id hsim h
  rwa [List.map_id] at this

theorem run_fifoEvent {held : List Msg} {es : List (MsgOp × MsgRet)}
    (hf : Run (total fifoCall) l es held) :
    Run (total (Fifo.step msgDepth)) l (es.map fifoEvent) held := by
  have hsim : ∀ l a op r l', l = a → total fifoCall l op = some (r, l') →
      ∃ a', total (Fifo.step msgDepth) a (fifoEvent (op, r)).1 = some ((fifoEvent (op, r)).2, a') ∧
        l' = a' := by
    intro l a op r l' hl hs
    have := fifoCall_event l op
    rw [total_eq_some.mp hs] at this
    refine ⟨l', ?_, rfl⟩
    rw [← hl]
    exact congrArg some this
  obtain ⟨_, hrun, rfl⟩ := hf.simulate Eq fifoEvent hsim rfl
  exact hrun

/-- **A queue is a bounded FIFO.** After `msg_init`, any sequence of calls runs through, with the
results of a FIFO of capacity `MSG_DEPTH` that is empty at first: what was received, followed by
what is still held, is what was accepted. -/
theorem msg_refines_fifo (q₀ : MsgQueue) (ops : List MsgOp) :
    ∃ es q held, es.map Prod.fst = ops ∧ Run msgCall (msgInit q₀) es q ∧
      Run (total fifoCall) [] es held ∧ held.length ≤ msgDepth ∧
      Fifo.received (es.map fifoEvent) ++ held = Fifo.accepted (es.map fifoEvent) := by
  have htotal : ∀ l op, True → ∃ r l', total fifoCall l op = some (r, l') ∧ True := fun _ _ _ =>
    ⟨_, _, rfl, trivial⟩
  obtain ⟨es, held, hops, hf, -⟩ := exists_run (fun _ => True) htotal (s := []) trivial ops
  obtain ⟨q, hq, -⟩ := (holds_msgInit q₀).run hf
  exact ⟨es, q, held, hops, hq, hf, Fifo.length_le (run_fifoEvent hf) (Nat.zero_le _),
    Fifo.conservation (run_fifoEvent hf)⟩

end BloodKernel
