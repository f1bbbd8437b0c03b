import BloodKernel.Kernel.Msg
import BloodKernel.Lib.Locked

set_option autoImplicit false

/-!
# Message queues on several CPUs

`msg_send` and `msg_recv` of `src/kernel/msg.c` one memory access at a time, under the loop of `spin_lock`, on any
number of CPUs. A `msg_t` is copied byte by byte.

* `spinWord`: the word of a `spinlock_t`; `MsgLoc`, `msgAccess`: the places in the two functions between the lock
  and the unlock, and the access at each;
* `does_send`, `does_recv`, `msgCall_of_does`: the accesses of a call, without any in between, are the call;
* **`msgLocked_fifo`**: in every interleaving the queue is a bounded FIFO; **`msgLocked_completes`**: and some call
  can always be completed.
-/

namespace BloodKernel

open Lib

/-! ### The lock -/

/-- The accesses of `spin_lock`. -/
def spinAttempt (pc : SpinPc) (lock : U32) : Locked.Attempt SpinPc × U32 :=
  match spinStep pc lock with
  | (none, lock) => (.acquired, lock)
  | (some pc, lock) => (.again pc, lock)

theorem spinAttempt_free : spinAttempt .testAndSet 0 = (.acquired, 1) := rfl

theorem spinAttempt_held {lock : U32} (h : lock ≠ 0) : spinAttempt .testAndSet lock = (.again .relax, 1) := by
  simp only [spinAttempt, spinStep, if_neg h]

theorem spinAttempt_relax (lock : U32) :
    spinAttempt .relax lock = (.again (if lock = 0 then .testAndSet else .relax), lock) := by
  by_cases h : lock = 0
  · simp only [spinAttempt, spinStep, if_pos h]
  · simp only [spinAttempt, spinStep, if_neg h]

theorem spinAttempt_eq {pc : SpinPc} {lock lock' : U32} {t : Locked.Attempt SpinPc}
    (h : spinAttempt pc lock = (t, lock')) :
    t = .acquired ∧ lock = 0 ∧ lock' ≠ 0 ∨ (∃ pc', t = .again pc') ∧ (lock' ≠ 0 ↔ lock ≠ 0) := by
  cases pc with
  | testAndSet =>
      by_cases h0 : lock = 0
      · rw [h0, spinAttempt_free] at h
        cases h
        exact Or.inl ⟨rfl, h0, by decide⟩
      · rw [spinAttempt_held h0] at h
        cases h
        exact Or.inr ⟨⟨_, rfl⟩, iff_of_true (by decide) h0⟩
  | relax =>
      rw [spinAttempt_relax] at h
      cases h
      exact Or.inr ⟨⟨_, rfl⟩, Iff.rfl⟩

/-- The word of a `spinlock_t`, held when it is not 0. -/
def spinWord : Locked.SpinLock U32 SpinPc where
  attempt := spinAttempt
  release := spinUnlock
  Held lock := lock ≠ 0
  free_of_acquired pc lock lock' h := by
    rcases spinAttempt_eq h with ⟨-, h0, h1⟩ | ⟨⟨pc', ht⟩, -⟩
    · exact ⟨not_not.mpr h0, h1⟩
    · cases ht
  held_of_again pc lock pc' lock' h := by
    rcases spinAttempt_eq h with ⟨ht, -⟩ | ⟨-, hiff⟩
    · cases ht
    · exact hiff
  held_of_gaveUp pc lock lock' h := by
    rcases spinAttempt_eq h with ⟨ht, -⟩ | ⟨-, hiff⟩
    · cases ht
    · exact hiff
  free_release _ := not_not.mpr rfl
  enters pc lock h := by
    obtain rfl : lock = 0 := not_not.mp h
    have htest : Locked.Enters spinAttempt .testAndSet 0 := .acquired spinAttempt_free
    cases pc with
    | testAndSet => exact htest
    | relax => exact .again (spinAttempt_relax 0) htest

/-! ### The accesses -/

/-- The fields of `msg_queue_t` but for the lock. -/
structure MsgFields where
  buf : Fin msgDepth → Msg
  head : U8
  tail : U8
  count : U8

def MsgQueue.fields (q : MsgQueue) : MsgFields := ⟨q.buf, q.head, q.tail, q.count⟩

def MsgFields.queue (d : MsgFields) : MsgQueue := ⟨d.buf, d.head, d.tail, d.count, 0⟩

/-- The places in `msg_send` and `msg_recv` before an access to the queue. -/
inductive MsgLoc
  /-- `q->count >= MSG_DEPTH`. -/
  | sendTest (msg : Msg)
  /-- The read of `head` in `q->buf[q->head] = *msg`. -/
  | sendCell (msg : Msg)
  /-- The store of byte `k` of the cell `i`. -/
  | sendCopy (msg : Msg) (i : Fin msgDepth) (k : Fin msgSize)
  /-- `q->head = (q->head + 1) % MSG_DEPTH`: the read and the store. -/
  | sendHead
  | sendSetHead (v : U8)
  /-- `q->count++`: the read and the store. -/
  | sendCount
  | sendSetCount (v : U8)
  /-- `q->count == 0`. -/
  | recvTest (msg : Msg)
  /-- The read of `tail` in `*msg = q->buf[q->tail]`. -/
  | recvCell (msg : Msg)
  /-- The load of byte `k` of the cell `i`. -/
  | recvCopy (msg : Msg) (i : Fin msgDepth) (k : Fin msgSize)
  | recvTail (msg : Msg)
  | recvSetTail (msg : Msg) (v : U8)
  | recvCount (msg : Msg)
  | recvSetCount (msg : Msg) (v : U8)

theorem msgSize_pos : 0 < msgSize := by decide

/-- The byte that a copy begins with. -/
def firstByte : Fin msgSize := ⟨0, msgSize_pos⟩

/-- `m` with byte `k` of `src`. -/
def Msg.copyByte (m src : Msg) (k : Fin msgSize) : Msg := ⟨Function.update m.data k (src.data k)⟩

/-- The access at a place. A cell outside `buf` is an error. -/
def msgAccess : MsgLoc → MsgFields → Option ((MsgLoc ⊕ MsgRet) × MsgFields)
  | .sendTest msg, d => some (if d.count.toNat ≥ msgDepth then .inr (.sent 0) else .inl (.sendCell msg), d)
  | .sendCell msg, d => (bufCell d.head).map fun i => (.inl (.sendCopy msg i firstByte), d)
  | .sendCopy msg i k, d =>
      some (.inl (if h : k + 1 < msgSize then .sendCopy msg i ⟨k + 1, h⟩ else .sendHead),
        { d with buf := Function.update d.buf i ((d.buf i).copyByte msg k) })
  | .sendHead, d => some (.inl (.sendSetHead (nextIndex d.head)), d)
  | .sendSetHead v, d => some (.inl .sendCount, { d with head := v })
  | .sendCount, d => some (.inl (.sendSetCount (d.count + 1)), d)
  | .sendSetCount v, d => some (.inr (.sent 1), { d with count := v })
  | .recvTest msg, d => some (if d.count = 0 then .inr (.recvd 0 msg) else .inl (.recvCell msg), d)
  | .recvCell msg, d => (bufCell d.tail).map fun i => (.inl (.recvCopy msg i firstByte), d)
  | .recvCopy msg i k, d =>
      let msg := msg.copyByte (d.buf i) k
      some (.inl (if h : k + 1 < msgSize then .recvCopy msg i ⟨k + 1, h⟩ else .recvTail msg), d)
  | .recvTail msg, d => some (.inl (.recvSetTail msg (nextIndex d.tail)), d)
  | .recvSetTail msg v, d => some (.inl (.recvCount msg), { d with tail := v })
  | .recvCount msg, d => some (.inl (.recvSetCount msg (d.count - 1)), d)
  | .recvSetCount msg v, d => some (.inr (.recvd 1 msg), { d with count := v })

def msgObject : Locked.Object MsgFields MsgOp MsgRet MsgLoc where
  start
    | .send msg => .sendTest msg
    | .recv msg => .recvTest msg
  access := msgAccess

/-- One access of one CPU to the queue, its lock included. -/
abbrev msgLockedStep (A : Type) [DecidableEq A] :=
  Locked.step (A := A) spinWord.toWordOps (fun _ => .testAndSet) msgObject

/-! ### The accesses of one call -/

variable {d : MsgFields} {msg src : Msg} {i : Fin msgDepth}

/-- The message after `n` bytes of `src` have been copied over it. -/
def Msg.copied (m src : Msg) (n : ℕ) : Msg := ⟨fun k => if k.val < n then src.data k else m.data k⟩

theorem copied_zero (m src : Msg) : m.copied src 0 = m := rfl

theorem copied_msgSize (m src : Msg) : m.copied src msgSize = src :=
  Msg.ext (funext fun k => if_pos k.isLt)

theorem copied_succ (m src : Msg) (k : Fin msgSize) :
    (m.copied src k).copyByte src k = m.copied src (k + 1) := by
  apply Msg.ext
  funext j
  show Function.update (m.copied src k).data k (src.data k) j = _
  by_cases hj : j = k
  · rw [hj, Function.update_self]
    exact (if_pos (Nat.lt_succ_self _)).symm
  · have hne : j.val ≠ k.val := fun h => hj (Fin.ext h)
    rw [Function.update_of_ne hj]
    show (if j.val < k then _ else _) = (if j.val < k + 1 then _ else _)
    split_ifs with h₁ h₂
    · rfl
    · omega
    · omega
    · rfl

theorem path_sendCopy (k : ℕ) (hk : k < msgSize) : Locked.Path msgAccess (.sendCopy msg i firstByte) d
    (.inl (.sendCopy msg i ⟨k, hk⟩)) { d with buf := Function.update d.buf i ((d.buf i).copied msg k) } := by
  induction k with
  | zero =>
      rw [copied_zero, Function.update_eq_self]
      exact .refl
  | succ k ih =>
      refine (ih (Nat.lt_of_succ_lt hk)).snoc ?_
      simp only [msgAccess, dif_pos hk, Function.update_self, Function.update_idem]
      rw [copied_succ _ _ ⟨k, Nat.lt_of_succ_lt hk⟩]

theorem path_sendCopied : Locked.Path msgAccess (.sendCopy msg i firstByte) d (.inl .sendHead)
    { d with buf := Function.update d.buf i msg } := by
  refine (path_sendCopy 15 (by decide)).snoc ?_
  simp only [msgAccess, dif_neg (show ¬15 + 1 < msgSize by decide), Function.update_self, Function.update_idem]
  rw [copied_succ _ _ ⟨15, by decide⟩]
  exact congrArg (fun m => some (_, { d with buf := Function.update d.buf i m })) (copied_msgSize _ _)

theorem path_recvCopy (k : ℕ) (hk : k < msgSize) : Locked.Path msgAccess (.recvCopy msg i firstByte) d
    (.inl (.recvCopy (msg.copied (d.buf i) k) i ⟨k, hk⟩)) d := by
  induction k with
  | zero =>
      rw [copied_zero]
      exact .refl
  | succ k ih =>
      refine (ih (Nat.lt_of_succ_lt hk)).snoc ?_
      simp only [msgAccess, dif_pos hk]
      rw [copied_succ _ _ ⟨k, Nat.lt_of_succ_lt hk⟩]

theorem path_recvCopied :
    Locked.Path msgAccess (.recvCopy msg i firstByte) d (.inl (.recvTail (d.buf i))) d := by
  refine (path_recvCopy 15 (by decide)).snoc ?_
  simp only [msgAccess, dif_neg (show ¬15 + 1 < msgSize by decide)]
  rw [copied_succ _ _ ⟨15, by decide⟩]
  exact congrArg (fun m => some (Sum.inl (MsgLoc.recvTail m), d)) (copied_msgSize _ _)

theorem does_send {r : U8} {q : MsgQueue} (h : msgSend d.queue msg = some (r, q)) :
    Locked.Does msgObject d (.send msg) (.sent r) q.fields ∧ q.lock = 0 := by
  rw [msgSend_of_lock rfl] at h
  by_cases hc : d.queue.count.toNat ≥ msgDepth
  · rw [if_pos hc] at h
    cases h
    exact ⟨.single (congrArg (fun x => some (x, d)) (if_pos hc)), rfl⟩
  · rw [if_neg hc, Option.map_eq_some_iff] at h
    obtain ⟨i, hi, heq⟩ := h
    cases heq
    refine ⟨?_, rfl⟩
    have htest : Locked.Path msgAccess (.sendTest msg) d (.inl (.sendCell msg)) d :=
      .single (congrArg (fun x => some (x, d)) (if_neg hc))
    have hcell : msgAccess (.sendCell msg) d = some (.inl (.sendCopy msg i firstByte), d) :=
      congrArg (Option.map _) hi
    exact ((((((htest.snoc hcell).trans path_sendCopied).snoc rfl).snoc rfl).snoc rfl).snoc rfl)

theorem does_recv {r : U8} {m : Msg} {q : MsgQueue} (h : msgRecv d.queue msg = some (r, m, q)) :
    Locked.Does msgObject d (.recv msg) (.recvd r m) q.fields ∧ q.lock = 0 := by
  rw [msgRecv_of_lock rfl] at h
  by_cases hc : d.queue.count = 0
  · rw [if_pos hc] at h
    cases h
    exact ⟨.single (congrArg (fun x => some (x, d)) (if_pos hc)), rfl⟩
  · rw [if_neg hc, Option.map_eq_some_iff] at h
    obtain ⟨i, hi, heq⟩ := h
    cases heq
    refine ⟨?_, rfl⟩
    have htest : Locked.Path msgAccess (.recvTest msg) d (.inl (.recvCell msg)) d :=
      .single (congrArg (fun x => some (x, d)) (if_neg hc))
    have hcell : msgAccess (.recvCell msg) d = some (.inl (.recvCopy msg i firstByte), d) :=
      congrArg (Option.map _) hi
    exact ((((((htest.snoc hcell).trans path_recvCopied).snoc rfl).snoc rfl).snoc rfl).snoc rfl)

theorem does_of_msgCall {op : MsgOp} {ret : MsgRet} {q : MsgQueue} (h : msgCall d.queue op = some (ret, q)) :
    Locked.Does msgObject d op ret q.fields ∧ q.lock = 0 := by
  cases op with
  | send msg =>
      obtain ⟨⟨r, q⟩, hs, heq⟩ := Option.map_eq_some_iff.mp h
      cases heq
      exact does_send hs
  | recv msg =>
      obtain ⟨⟨r, m, q⟩, hs, heq⟩ := Option.map_eq_some_iff.mp h
      cases heq
      exact does_recv hs

/-- The calls on the fields of an unlocked queue. -/
def fieldsCall (d : MsgFields) (op : MsgOp) : Option (MsgRet × MsgFields) :=
  (msgCall d.queue op).map fun (ret, q) => (ret, q.fields)

theorem not_does_of_msgCall {op : MsgOp} {ret : MsgRet} {d' : MsgFields} (h : msgCall d.queue op = none) :
    ¬Locked.Does msgObject d op ret d' := by
  intro hd
  cases op with
  | send msg =>
      have hs : msgSend d.queue msg = none := Option.map_eq_none_iff.mp h
      rw [msgSend_of_lock rfl] at hs
      by_cases hc : d.queue.count.toNat ≥ msgDepth
      · rw [if_pos hc] at hs
        cases hs
      · rw [if_neg hc] at hs
        have hcell : Locked.Path msgAccess (.sendTest msg) d (.inl (.sendCell msg)) d :=
          .single (congrArg (fun x => some (x, d)) (if_neg hc))
        exact hd.access_ne_none hcell (Option.map_eq_none_iff.mpr (Option.map_eq_none_iff.mp hs))
  | recv msg =>
      have hs : msgRecv d.queue msg = none := Option.map_eq_none_iff.mp h
      rw [msgRecv_of_lock rfl] at hs
      by_cases hc : d.queue.count = 0
      · rw [if_pos hc] at hs
        cases hs
      · rw [if_neg hc] at hs
        have hcell : Locked.Path msgAccess (.recvTest msg) d (.inl (.recvCell msg)) d :=
          .single (congrArg (fun x => some (x, d)) (if_neg hc))
        exact hd.access_ne_none hcell (Option.map_eq_none_iff.mpr (Option.map_eq_none_iff.mp hs))

/-- **A call is its accesses.** -/
theorem fieldsCall_of_does (d : MsgFields) (op : MsgOp) (ret : MsgRet) (d' : MsgFields)
    (h : Locked.Does msgObject d op ret d') : fieldsCall d op = some (ret, d') := by
  cases hc : msgCall d.queue op with
  | none => exact absurd h (not_does_of_msgCall hc)
  | some p =>
      obtain ⟨ret', q⟩ := p
      obtain ⟨rfl, rfl⟩ := (does_of_msgCall hc).1.unique h
      exact congrArg (Option.map _) hc

/-! ### All CPUs -/

theorem queue_fields {q : MsgQueue} (h : q.lock = 0) : q.fields.queue = q := by
  obtain ⟨_, _, _, _, _⟩ := q
  exact congrArg (MsgQueue.mk _ _ _ _) h.symm

/-- Calls on the fields are calls on the queue. -/
theorem run_msgCall {q : MsgQueue} {es : List (MsgOp × MsgRet)} {d' : MsgFields}
    (h : Run fieldsCall q.fields es d') (hq : q.lock = 0) :
    ∃ q', Run msgCall q es q' ∧ q'.lock = 0 ∧ q'.fields = d' := by
  have hsim : ∀ (d : MsgFields) (q : MsgQueue) op ret (d' : MsgFields), q.lock = 0 ∧ q.fields = d →
      fieldsCall d op = some (ret, d') →
      ∃ q', msgCall q op = some (ret, q') ∧ q'.lock = 0 ∧ q'.fields = d' := by
    rintro d q op ret d' ⟨hq, rfl⟩ hs
    obtain ⟨⟨ret', q'⟩, hc, heq⟩ := Option.map_eq_some_iff.mp hs
    cases heq
    refine ⟨q', ?_, (does_of_msgCall hc).2, rfl⟩
    rw [← hc, queue_fields hq]
  obtain ⟨q', hrun, hq'⟩ :=
    h.simulate (fun (d : MsgFields) (q : MsgQueue) => q.lock = 0 ∧ q.fields = d) id hsim ⟨hq, rfl⟩
  rw [List.map_id] at hrun
  exact ⟨q', hrun, hq'⟩

theorem holds_of_run {q q' : MsgQueue} {l : List Msg} {es : List (MsgOp × MsgRet)} (h : Run msgCall q es q')
    (hq : Holds q l) : ∃ held, Run (total fifoCall) l es held ∧ Holds q' held := by
  have hsim : ∀ (q : MsgQueue) l op ret (q' : MsgQueue), Holds q l → msgCall q op = some (ret, q') →
      ∃ l', total fifoCall l op = some (ret, l') ∧ Holds q' l' := by
    intro q l op ret q' hq hs
    obtain ⟨q₁, hc, hq₁⟩ := msgCall_holds hq op
    cases hs.symm.trans hc
    exact ⟨_, rfl, hq₁⟩
  obtain ⟨held, hrun, hheld⟩ := h.simulate (fun q l => Holds q l) id hsim hq
  rw [List.map_id] at hrun
  exact ⟨held, hrun, hheld⟩

variable {A : Type} [DecidableEq A] {t : Locked.State A U32 SpinPc MsgFields MsgOp MsgRet MsgLoc}
  {es : List (Locked.Op A MsgOp × Locked.Ret MsgOp MsgRet)}

/-- Nobody has called yet, and the queue is as `msg_init` leaves it. -/
def msgBoot (A : Type) (q₀ : MsgQueue) : Locked.State A U32 SpinPc MsgFields MsgOp MsgRet MsgLoc :=
  Locked.boot (msgInit q₀).lock (msgInit q₀).fields

theorem msgLocked_inv {q₀ : MsgQueue} (h : Run (msgLockedStep A) (msgBoot A q₀) es t) :
    ∃ q held, Run msgCall (msgInit q₀) (Locked.returned es) q ∧ Locked.Inv spinWord msgObject t q.fields ∧
      Run (total fifoCall) [] (Locked.returned es) held ∧ Holds q held := by
  obtain ⟨d, hrun, hinv⟩ := Locked.exists_run_returned fieldsCall_of_does h (Locked.inv_boot (not_not.mpr rfl) _)
  obtain ⟨q, hq, -, rfl⟩ := run_msgCall hrun rfl
  obtain ⟨held, hfifo, hheld⟩ := holds_of_run hq (holds_msgInit q₀)
  exact ⟨q, held, hq, hinv, hfifo, hheld⟩

/-- **One FIFO for all CPUs.** After `msg_init`, in every interleaving of the memory accesses of any number of
CPUs that call `msg_send` and `msg_recv`, at most one CPU is between the lock and the unlock; the calls that have
returned, in the order of their returns, are calls that take one step each; what they received, followed by what
is still held, is what they accepted; and no message is in the queue in part when no CPU has the lock. -/
theorem msgLocked_fifo {q₀ : MsgQueue} (h : Run (msgLockedStep A) (msgBoot A q₀) es t) :
    (∀ a b, (t.pos a).Holds → (t.pos b).Holds → a = b) ∧
    ∃ q held, Run msgCall (msgInit q₀) (Locked.returned es) q ∧
      Fifo.received ((Locked.returned es).map fifoEvent) ++ held =
        Fifo.accepted ((Locked.returned es).map fifoEvent) ∧
      held.length ≤ msgDepth ∧ Holds q held ∧ ((∀ a, ¬(t.pos a).Holds) → t.data = q.fields) := by
  obtain ⟨q, held, hq, hinv, hfifo, hheld⟩ := msgLocked_inv h
  exact ⟨hinv.excl, q, held, hq, Fifo.conservation (run_fifoEvent hfifo), hheld.length_le, hheld, hinv.free⟩

/-- **No deadlock.** In every state that such a run reaches with some CPU in a call, there is a CPU that completes
a call on its own. -/
theorem msgLocked_completes {q₀ : MsgQueue} (h : Run (msgLockedStep A) (msgBoot A q₀) es t) {a : A}
    (ha : t.pos a ≠ .idle) : ∃ b es' t', Run (msgLockedStep A) t es' t' ∧ Locked.Completes b es' := by
  obtain ⟨q, held, -, hinv, -, hheld⟩ := msgLocked_inv h
  refine Locked.exists_completion (fun op => ?_) hinv ha
  obtain ⟨q', hc, -⟩ := msgCall_holds hheld op
  rw [← queue_fields hheld.lock] at hc
  exact ⟨_, _, (does_of_msgCall hc).1⟩

/-! Two CPUs call at once: one has the lock and is about to copy, the other one waits. -/

def zeroMsg : Msg := ⟨fun _ => 0⟩

def emptyQueue : MsgQueue := ⟨fun _ => zeroMsg, 0, 0, 0, 0⟩

def msgRace : List (Locked.Op Bool MsgOp × Locked.Ret MsgOp MsgRet) :=
  [(.call false (.send ⟨fun _ => 7⟩), .none), (.call true (.recv zeroMsg), .none), (.step false, .none),
    (.step true, .none), (.step false, .none), (.step false, .none), (.step true, .none)]

theorem exists_msgRace : ∃ t, Run (msgLockedStep Bool) (msgBoot Bool emptyQueue) msgRace t ∧
    t.pos false = .inside (.send ⟨fun _ => 7⟩) (.sendCopy ⟨fun _ => 7⟩ 0 0) ∧
    t.pos true = .locking (.recv zeroMsg) .relax :=
  ⟨_, .cons rfl (.cons rfl (.cons rfl (.cons rfl (.cons rfl (.cons rfl (.cons rfl (.nil _))))))), rfl, rfl⟩

theorem msgLocked_fifo_race : ∃ t, Run (msgLockedStep Bool) (msgBoot Bool emptyQueue) msgRace t ∧
    (∀ a b, (t.pos a).Holds → (t.pos b).Holds → a = b) ∧
    ∃ q held, Run msgCall (msgInit emptyQueue) (Locked.returned msgRace) q ∧
      Fifo.received ((Locked.returned msgRace).map fifoEvent) ++ held =
        Fifo.accepted ((Locked.returned msgRace).map fifoEvent) ∧
      held.length ≤ msgDepth ∧ Holds q held ∧ ((∀ a, ¬(t.pos a).Holds) → t.data = q.fields) := by
  obtain ⟨t, h, -⟩ := exists_msgRace
  exact ⟨t, h, msgLocked_fifo h⟩

theorem msgLocked_completes_race : ∃ t, Run (msgLockedStep Bool) (msgBoot Bool emptyQueue) msgRace t ∧
    ∃ b es' t', Run (msgLockedStep Bool) t es' t' ∧ Locked.Completes b es' := by
  obtain ⟨t, h, -, hpos⟩ := exists_msgRace
  have ha : t.pos true ≠ .idle := by
    rw [hpos]
    exact fun hidle => nomatch hidle
  exact ⟨t, h, msgLocked_completes h ha⟩

end BloodKernel
