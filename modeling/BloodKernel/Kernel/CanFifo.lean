import BloodKernel.Kernel.Can

set_option autoImplicit false

/-!
# From the bus to the reader

Frames arrive from the bus, the interrupt handler moves them to `can_rx_q`, and `can_recv` hands
them out, in any order of the three.

* `step`: one arrival, handler invocation or call; `taken`, `received`: what a run moved to the
  queue, and what it handed out;
* `conserved`: what was received, followed by what is queued, is what was taken, always;
* `MovesOldest`: an invocation moves the oldest frame if there is one, and room for it;
* **`movesFrames_iff`**: so do all invocations of a run exactly when none of them finds two frames
  pending, and room. The handler tests one bit of the number of pending frames.
-/

namespace BloodKernel.CanFifo

open Lib

inductive Op
  | arrive (m : RxMailbox)
  | irq (flags : U32) (pad : Fin 3 → U8)
  | recv (frame : CanFrame)

inductive Ret
  | none
  | handled (took : Option (RxMailbox × U8))
  | recvd (err : CanErr) (frame : CanFrame)
  deriving DecidableEq

abbrev Event := Op × Ret

def step (locked : Bool) (s : CanRx) : Op → Option (Ret × CanRx)
  | .arrive m => some (.none, { s with fifo0 := s.fifo0.arrive locked m })
  | .irq flags pad => (canIrqHandler flags pad s).map fun (took, s) => (.handled took, s)
  | .recv frame => (canRecv s frame).map fun (err, frame, s) => (.recvd err frame, s)

/-- The frame that the registers of the output mailbox describe: a standard id in bits 31:21 of RIR,
the DLC in bits 3:0 of RDTR, the data in RDLR and RDHR. -/
def wireFrame (m : RxMailbox) : CanFrame where
  id := (m.rir.extractLsb' 21 11).setWidth 32
  len := (m.rdtr.extractLsb' 0 4).setWidth 8
  data := bytesOfWords m.rdlr m.rdhr

/-- The frames moved from the FIFO to the queue, in order. -/
def taken (es : List Event) : List CanFrame := es.filterMap fun e => match e.2 with
  | .handled (some (m, r)) => if r = 1 then some (wireFrame m) else none
  | _ => none

/-- The frames that `can_recv` returned, in order. -/
def received (es : List Event) : List CanFrame := es.filterMap fun e => match e.2 with
  | .recvd .ok frame => some frame
  | _ => none

/-- Received and queued together are the frames taken. -/
def Conserved (es : List Event) (t : CanRx) : Prop :=
  ∃ l, Holds t.rxq l ∧ received es ++ l.map ofMsg = taken es

/-- If this is a handler invocation with a frame pending and room in the queue, it moves the oldest
frame, and nothing else. -/
def MovesOldest (locked : Bool) (s : CanRx) (e : Event) : Prop :=
  ∀ flags pad m rest, e.1 = .irq flags pad → s.fifo0.val = m :: rest →
    s.rxq.count.toNat < msgDepth → e.2 = .handled (some (m, 1)) ∧
      ∃ s', step locked s e.1 = some (e.2, s') ∧ s'.fifo0.val = rest ∧
        ∀ l, Holds s.rxq l → Holds s'.rxq (l ++ [toMsg pad (wireFrame m)])

/-- Every invocation moves the oldest frame, and the frames received are those taken. -/
def MovesFrames (locked : Bool) (s : CanRx) (es : List Event) (t : CanRx) : Prop :=
  Along (step locked) (MovesOldest locked) s es ∧ Conserved es t

/-- This is not a handler invocation with two frames pending and room in the queue. -/
def NotTwo (s : CanRx) (e : Event) : Prop :=
  ∀ flags pad, e.1 = .irq flags pad → s.rxq.count.toNat < msgDepth → s.fifo0.val.length ≠ 2

variable {locked : Bool} {s s' : CanRx} {flags : U32} {pad : Fin 3 → U8} {l : List Msg} {op : Op}
  {r : Ret}

theorem readFrame_eq_wireFrame (m : RxMailbox) : readFrame m = wireFrame m := by
  apply CanFrame.ext
  · exact shift_and_mask m.rir 21 (by decide : 11 ≤ 32)
  · have h := shift_and_mask m.rdtr 0 (by decide : 4 ≤ 32)
    rw [BitVec.ushiftRight_zero] at h
    exact (congrArg (BitVec.setWidth 8) h).trans (BitVec.setWidth_setWidth_of_le _ (by decide))
  · rfl

/-! ### One step -/

theorem step_irq_even (h : s.fifo0.val.length % 2 = 0) :
    step locked s (.irq flags pad) = some (.handled none, s) := by
  rw [step, canIrqHandler_even h]
  rfl

theorem step_irq_room (hl : Holds s.rxq l) (h : s.fifo0.val.length % 2 = 1)
    (hroom : l.length < msgDepth) :
    ∃ q', step locked s (.irq flags pad) =
        some (.handled (some (s.fifo0.output, 1)), ⟨q', s.fifo0.release⟩) ∧
      Holds q' (l ++ [toMsg pad (wireFrame s.fifo0.output)]) := by
  obtain ⟨q', hq, hq'⟩ := msgSend_room (m := toMsg pad (wireFrame s.fifo0.output)) hl hroom
  refine ⟨q', ?_, hq'⟩
  rw [step, canIrqHandler_odd h, readFrame_eq_wireFrame, hq]
  rfl

theorem step_irq_full (hl : Holds s.rxq l) (h : s.fifo0.val.length % 2 = 1)
    (hfull : l.length = msgDepth) : step locked s (.irq flags pad) =
      some (.handled (some (s.fifo0.output, 0)), ⟨s.rxq, s.fifo0.release⟩) := by
  rw [step, canIrqHandler_odd h, msgSend_full hl hfull]
  rfl

/-- **One step conserves the frames.** And no step blocks. -/
theorem step_holds (hl : Holds s.rxq l) (op : Op) : ∃ r s' l', step locked s op = some (r, s') ∧
    Holds s'.rxq l' ∧ received [(op, r)] ++ l'.map ofMsg = l.map ofMsg ++ taken [(op, r)] := by
  cases op with
  | arrive m => exact ⟨_, _, l, rfl, hl, by simp [received, taken]⟩
  | irq flags pad =>
      by_cases hodd : s.fifo0.val.length % 2 = 1
      · by_cases hroom : l.length < msgDepth
        · obtain ⟨q', hs, hq'⟩ := @step_irq_room locked _ flags pad _ hl hodd hroom
          refine ⟨_, _, _, hs, hq', ?_⟩
          simp [received, taken, ofMsg_toMsg]
        · have hfull : l.length = msgDepth := le_antisymm hl.length_le (not_lt.mp hroom)
          exact ⟨_, _, l, step_irq_full hl hodd hfull, hl, by simp [received, taken]⟩
      · exact ⟨_, _, l, step_irq_even (by omega), hl, by simp [received, taken]⟩
  | recv frame =>
      cases l with
      | nil =>
          have hs : step locked s (.recv frame) = some (.recvd .errRx frame, s) := by
            rw [step, canRecv_nil hl]
            rfl
          exact ⟨_, _, [], hs, hl, by simp [received, taken]⟩
      | cons m l =>
          obtain ⟨q', hq, hq'⟩ := @canRecv_cons _ _ frame _ hl
          have hs : step locked s (.recv frame) =
              some (.recvd .ok (ofMsg m), { s with rxq := q' }) := by
            rw [step, hq]
            rfl
          exact ⟨_, _, l, hs, hq', by simp [received, taken]⟩

theorem step_holds_of_eq (hl : Holds s.rxq l) (hs : step locked s op = some (r, s')) :
    ∃ l', Holds s'.rxq l' ∧
      received [(op, r)] ++ l'.map ofMsg = l.map ofMsg ++ taken [(op, r)] := by
  obtain ⟨r₁, s₁, l', hs₁, hl', hc⟩ := @step_holds locked _ _ hl op
  obtain ⟨rfl, rfl⟩ : r₁ = r ∧ s₁ = s' := by simpa using hs₁.symm.trans hs
  exact ⟨l', hl', hc⟩

/-- **When one step moves the oldest frame.** -/
theorem movesOldest_iff (hl : Holds s.rxq l) (hs : step locked s op = some (r, s')) :
    MovesOldest locked s (op, r) ↔ NotTwo s (op, r) := by
  constructor
  · intro h flags pad hop hroom htwo
    -- with two frames pending the handler returns at once
    obtain ⟨m, rest, hf⟩ := List.exists_cons_of_length_pos (by omega : 0 < s.fifo0.val.length)
    have hr := (h flags pad m rest hop hf hroom).1
    have hop' : op = .irq flags pad := hop
    rw [hop', step_irq_even (by omega), Option.some.injEq, Prod.mk.injEq] at hs
    rw [← hs.1] at hr
    cases hr
  · intro h flags pad m rest hop hf hroom
    have hop' : op = .irq flags pad := hop
    have hlen : s.fifo0.val.length = rest.length + 1 := by rw [hf, List.length_cons]
    have hodd : s.fifo0.val.length % 2 = 1 := by
      have := s.fifo0.property
      have := h flags pad hop hroom
      omega
    have hout : s.fifo0.output = m := by
      unfold RxFifo.output
      rw [hf]
      rfl
    rw [hl.toNat_count] at hroom
    obtain ⟨q', hs', hq'⟩ := @step_irq_room locked _ flags pad _ hl hodd hroom
    rw [hop', hs', Option.some.injEq, Prod.mk.injEq] at hs
    rw [hout] at hs' hq' hs
    refine ⟨hs.1.symm, ⟨q', s.fifo0.release⟩, ?_, ?_, fun l' hl' => ?_⟩
    · rw [hop', ← hs.1]
      exact hs'
    · exact congrArg List.tail hf
    · rwa [hl'.unique hl]

/-! ### Runs -/

theorem step_conserved {es : List Event} (h : Conserved es s) (hs : step locked s op = some (r, s')) :
    Conserved (es ++ [(op, r)]) s' := by
  obtain ⟨l, hl, hc⟩ := h
  obtain ⟨l', hl', hc'⟩ := step_holds_of_eq hl hs
  refine ⟨l', hl', ?_⟩
  have hr : received (es ++ [(op, r)]) = received es ++ received [(op, r)] :=
    List.filterMap_append
  have ht : taken (es ++ [(op, r)]) = taken es ++ taken [(op, r)] := List.filterMap_append
  rw [hr, ht, List.append_assoc, hc', ← List.append_assoc, hc]

/-- **Nothing is lost, repeated or reordered on the way.** -/
theorem conserved {s₀ t : CanRx} {es : List Event} (h : Run (step locked) (canInit s₀) es t) :
    Conserved es t :=
  h.history Conserved ⟨[], holds_msgInit _, rfl⟩ fun _ _ _ _ _ _ hc hs => step_conserved hc hs

theorem exists_run_canInit (locked : Bool) (s₀ : CanRx) (ops : List Op) :
    ∃ es t, es.map Prod.fst = ops ∧ Run (step locked) (canInit s₀) es t := by
  have hI : ∀ (s : CanRx) op, (∃ l, Holds s.rxq l) →
      ∃ r s', step locked s op = some (r, s') ∧ ∃ l, Holds s'.rxq l := by
    intro s op ⟨l, hl⟩
    obtain ⟨r, s', l', hs, hl', -⟩ := @step_holds locked _ _ hl op
    exact ⟨r, s', hs, l', hl'⟩
  obtain ⟨es, t, hops, h, -⟩ := exists_run _ hI (s := canInit s₀) ⟨[], holds_msgInit s₀.rxq⟩ ops
  exact ⟨es, t, hops, h⟩

/-- **When the handler moves every frame.** After `can_init`, in any interleaving of arrivals,
handler invocations and calls of `can_recv`, every invocation that finds a frame pending, and room in
the queue, moves the oldest frame, and the frames received are those taken, in order, if and only if
no invocation finds two frames pending, and room. -/
theorem movesFrames_iff (locked : Bool) {s₀ t : CanRx} {es : List Event}
    (h : Run (step locked) (canInit s₀) es t) : MovesFrames locked (canInit s₀) es t ↔
      Along (step locked) NotTwo (canInit s₀) es := by
  have hI : ∀ (s : CanRx) op r s', (∃ l, Holds s.rxq l) → step locked s op = some (r, s') →
      ∃ l, Holds s'.rxq l := by
    intro s op r s' ⟨l, hl⟩ hs
    obtain ⟨l', hl', -⟩ := step_holds_of_eq hl hs
    exact ⟨l', hl'⟩
  have halong := h.along_iff hI (fun s op r s' ⟨l, hl⟩ hs => movesOldest_iff hl hs)
    ⟨[], holds_msgInit _⟩
  exact ⟨fun hm => halong.mp hm.1, fun hn => ⟨halong.mpr hn, conserved h⟩⟩

/-- Nothing queued, nothing pending. -/
def emptyRx : CanRx := ⟨⟨fun _ => ⟨fun _ => 0⟩, 0, 0, 0, 0⟩, .empty⟩

def twoPending : CanRx := ⟨emptyRx.rxq, ⟨[⟨0x20000000, 1, 7, 0⟩, ⟨0x40000000, 1, 8, 0⟩], by decide⟩⟩

/-- Two frames arrive before the handler runs. -/
def twoArrivals : List Event :=
  [(.arrive ⟨0x20000000, 1, 7, 0⟩, .none), (.arrive ⟨0x40000000, 1, 8, 0⟩, .none)]

theorem run_twoArrivals : Run (step false) (canInit emptyRx) twoArrivals twoPending :=
  .cons rfl (.cons rfl (.nil _))

theorem run_lateIrq : Run (step false) (canInit emptyRx)
    (twoArrivals ++ [(.irq 0 fun _ => 0, .handled none)]) twoPending :=
  run_twoArrivals.append (.cons (step_irq_even rfl) (.nil _))

theorem movesFrames_iff_lateIrq :
    MovesFrames false (canInit emptyRx) (twoArrivals ++ [(.irq 0 fun _ => 0, .handled none)])
      twoPending ↔
    Along (step false) NotTwo (canInit emptyRx)
      (twoArrivals ++ [(.irq 0 fun _ => 0, .handled none)]) := movesFrames_iff false run_lateIrq

/-- With two frames pending the handler moves none. -/
theorem frames_not_moved : ¬ ∀ (locked : Bool) (s₀ t : CanRx) (es : List Event),
    Run (step locked) (canInit s₀) es t → MovesFrames locked (canInit s₀) es t := by
  intro hall
  have hmoves := (hall false _ _ _ run_lateIrq).1 twoArrivals _ [] _ rfl run_twoArrivals
  have hlast := hmoves 0 (fun _ => 0) _ _ rfl rfl (by decide)
  exact absurd hlast.1 (by decide)

end BloodKernel.CanFifo
