import BloodKernel.Kernel.Msg
import BloodKernel.Lib.Bytes

set_option autoImplicit false

/-!
# The CAN driver

The `__arm__` half of `src/kernel/can.c`, on the registers of bxCAN that it uses; `can_init` but for
the call of `msg_init`, and the filters, are left out.

* `CanFrame`, `toMsg`, `ofMsg`: frames, and frames stored in messages;
* `RxFifo`, `rf0r`, `writeRf0r`: receive FIFO 0; `CanTx`: transmit mailbox 0;
* `canRecv`, `canIrqHandler`, `canSend`, `canTxMailboxFree`: the functions;
* `ofMsg_toMsg`, `rf0r_and_bit`, `canIrqHandler_odd`, `canIrqHandler_even`, `canSend_free`,
  `canSend_busy`: what they do.
-/

namespace BloodKernel

open Lib

/-- `can_frame_t`. -/
@[ext]
structure CanFrame where
  id : U32
  len : U8
  data : Fin 8 → U8
  deriving DecidableEq

inductive CanErr
  | ok
  | errTx
  | errRx
  | errBusoff
  deriving DecidableEq

/-! ### Frames in messages and in words -/

/-- Byte `k` of a `can_frame_t`: `id` from 0, `len` at 4, `data` from 5, padding from 13. -/
def CanFrame.byte (pad : Fin 3 → U8) (f : CanFrame) (k : Fin msgSize) : U8 :=
  if k.val < 4 then leByte f.id k
  else if k.val < 5 then f.len
  else if k.val < 13 then f.data (Fin.ofNat 8 (k - 5))
  else pad (Fin.ofNat 3 (k - 13))

/-- `*(can_frame_t*)msg.data = frm`. -/
def toMsg (pad : Fin 3 → U8) (frm : CanFrame) : Msg := ⟨frm.byte pad⟩

/-- `*(can_frame_t*)msg.data`. -/
def ofMsg (msg : Msg) : CanFrame where
  id := leWord fun k => msg.data (Fin.ofNat msgSize k)
  len := msg.data 4
  data i := msg.data (Fin.ofNat msgSize (i + 5))

/-- `*(u32*)(frame->data + i)`. -/
def CanFrame.word (f : CanFrame) (i : ℕ) : U32 := leWord fun k => f.data (Fin.ofNat 8 (i + k))

/-- The eight bytes that two words store. -/
def bytesOfWords (lo hi : U32) (i : Fin 8) : U8 := if i.val < 4 then leByte lo i else leByte hi (i - 4)

/-! ### The registers -/

/-- The registers of a receive FIFO's output mailbox. -/
structure RxMailbox where
  rir : U32
  rdtr : U32
  rdlr : U32
  rdhr : U32
  deriving DecidableEq

/-- The frames pending in a receive FIFO, oldest first. -/
def RxFifo := { l : List RxMailbox // l.length ≤ 3 }

def RxFifo.empty : RxFifo := ⟨[], Nat.zero_le _⟩

/-- A frame arrives. A full FIFO drops it if it is locked, else its newest frame. -/
def RxFifo.arrive (locked : Bool) (m : RxMailbox) (f : RxFifo) : RxFifo :=
  if h : f.val.length < 3 then ⟨f.val ++ [m], by
    rw [List.length_append]
    exact h⟩
  else if locked then f
  else ⟨f.val.dropLast ++ [m], by
    have := f.property
    simp only [List.length_append, List.length_dropLast, List.length_singleton]
    omega⟩

/-- The output mailbox shows the oldest frame; with no frame pending nothing reads it. -/
def RxFifo.output (f : RxFifo) : RxMailbox := f.val.headD ⟨0, 0, 0, 0⟩

def RxFifo.release (f : RxFifo) : RxFifo :=
  ⟨f.val.tail, by simpa using (Nat.sub_le _ 1).trans f.property⟩

/-- RF0R: the number of pending frames in bits 1:0, some flags above. -/
def rf0r (flags : U32) (f : RxFifo) : U32 := flags <<< 2 ||| BitVec.ofNat 32 f.val.length

/-- A write of RF0R: bit 5 releases the oldest frame. -/
def writeRf0r (f : RxFifo) (v : U32) : RxFifo := if v.getLsbD 5 then f.release else f

/-- The registers of a transmit mailbox. -/
structure TxMailbox where
  tir : U32
  tdtr : U32
  tdlr : U32
  tdhr : U32
  deriving DecidableEq

/-- The receiving side: the queue `can_rx_q` and FIFO 0. -/
structure CanRx where
  rxq : MsgQueue
  fifo0 : RxFifo

/-- The sending side: mailbox 0, the word of `can_lock`, and the transmissions requested so far. -/
structure CanTx where
  mb : TxMailbox
  canLock : U32
  requested : List TxMailbox

/-- A write of TIR: bit 0 requests the transmission of the mailbox. -/
def CanTx.writeTir (tx : CanTx) (v : U32) : CanTx :=
  let mb := { tx.mb with tir := v }
  { tx with mb := mb, requested := if v.getLsbD 0 then tx.requested ++ [mb] else tx.requested }

/-! ### The functions -/

/-- The call of `msg_init` in `can_init`. -/
def canInit (s : CanRx) : CanRx := { s with rxq := msgInit s.rxq }

def canSend (tx : CanTx) (frame : CanFrame) : Option (CanErr × CanTx) := do
  let lock ← spinLock tx.canLock
  let tx := { tx with canLock := lock }
  if tx.mb.tir &&& bit 0 = 0 then      -- TXE
    let tx := tx.writeTir (frame.id <<< 21 ||| bit 1)      -- STD ID
    let tx := { tx with mb.tdtr := frame.len.setWidth 32 }
    let tx := { tx with mb.tdlr := frame.word 0 }
    let tx := { tx with mb.tdhr := frame.word 4 }
    let tx := tx.writeTir (tx.mb.tir ||| bit 0)      -- request
    return (.ok, { tx with canLock := spinUnlock tx.canLock })
  return (.errTx, { tx with canLock := spinUnlock tx.canLock })

/-- `frame` is what the caller's buffer holds at the call. The local `msg` is not initialised; it is
read only after `msg_recv` has written it. -/
def canRecv (s : CanRx) (frame : CanFrame) : Option (CanErr × CanFrame × CanRx) := do
  let (r, msg, q) ← msgRecv s.rxq ⟨fun _ => 0⟩
  if r ≠ 0 then
    return (.ok, ofMsg msg, { s with rxq := q })
  return (.errRx, frame, { s with rxq := q })

def canTxMailboxFree (tx : CanTx) : U8 := if tx.mb.tir &&& bit 0 = 0 then 1 else 0

/-- The frame that the handler reads from the output mailbox. -/
def readFrame (m : RxMailbox) : CanFrame where
  id := (m.rir >>> 21) &&& 0x7FF
  len := (m.rdtr &&& 0x0F).setWidth 8
  data := bytesOfWords m.rdlr m.rdhr

/-- `CEC_CAN_IRQHandler`. The handler returns nothing; what it took from the FIFO, and the result of
`msg_send` that it ignores, are recorded for the statements about it. -/
def canIrqHandler (flags : U32) (pad : Fin 3 → U8) (s : CanRx) :
    Option (Option (RxMailbox × U8) × CanRx) := do
  if rf0r flags s.fifo0 &&& bit 0 ≠ 0 then      -- FMP0
    let frm := readFrame s.fifo0.output
    let (r, q) ← msgSend s.rxq (toMsg pad frm)
    -- release FIFO
    let f := writeRf0r s.fifo0 (rf0r flags s.fifo0 ||| bit 5)
    return (some (s.fifo0.output, r), ⟨q, f⟩)
  return (none, s)

/-! ### What they do -/

/-- **Frames survive the message queue.** -/
theorem ofMsg_toMsg (pad : Fin 3 → U8) (f : CanFrame) : ofMsg (toMsg pad f) = f := by
  apply CanFrame.ext
  · have hid : (ofMsg (toMsg pad f)).id = leWord fun k => (toMsg pad f).data (Fin.ofNat msgSize k) := rfl
    rw [hid]
    refine leWord_eq fun k hk => ?_
    have hmod : k % msgSize = k := Nat.mod_eq_of_lt (hk.trans (by decide))
    simp only [toMsg, CanFrame.byte, Fin.val_ofNat, hmod, if_pos hk]
  · rfl
  · funext i
    have hi : i.val < 8 := i.isLt
    have hmod : (i.val + 5) % msgSize = i + 5 := Nat.mod_eq_of_lt (by change _ < 16; omega)
    have h4 : ¬ i.val + 5 < 4 := by omega
    have h5 : ¬ i.val + 5 < 5 := by omega
    have h13 : i.val + 5 < 13 := by omega
    simp only [ofMsg, toMsg, CanFrame.byte, Fin.val_ofNat, hmod, if_neg h4, if_neg h5, if_pos h13,
      Nat.add_sub_cancel]
    exact congrArg f.data (Fin.ext (Nat.mod_eq_of_lt hi))

section Receive

variable {s : CanRx} {flags : U32} {pad : Fin 3 → U8} {l : List Msg}

/-- Bit 0 of RF0R, which the handler tests, is the parity of the number of pending frames. -/
theorem rf0r_and_bit (f : RxFifo) : rf0r flags f &&& bit 0 = 0 ↔ f.val.length % 2 = 0 := by
  rw [and_bit_eq_zero (by decide)]
  unfold rf0r
  rw [BitVec.getLsbD_or, BitVec.getLsbD_shiftLeft, BitVec.getLsbD_ofNat, Nat.testBit_zero]
  simp

theorem writeRf0r_release (f : RxFifo) (v : U32) : writeRf0r f (v ||| bit 5) = f.release := by
  unfold writeRf0r
  rw [getLsbD_or_bit, if_pos (by simp)]

/-- With an even number of pending frames the handler does nothing. -/
theorem canIrqHandler_even (h : s.fifo0.val.length % 2 = 0) :
    canIrqHandler flags pad s = some (none, s) := by
  unfold canIrqHandler
  rw [if_neg (not_not.mpr ((rf0r_and_bit s.fifo0).mpr h))]
  rfl

/-- With an odd number it hands over the oldest frame, if there is room, and releases it. -/
theorem canIrqHandler_odd (h : s.fifo0.val.length % 2 = 1) : canIrqHandler flags pad s =
    (msgSend s.rxq (toMsg pad (readFrame s.fifo0.output))).map fun (r, q) =>
      (some (s.fifo0.output, r), ⟨q, s.fifo0.release⟩) := by
  have hodd : ¬ s.fifo0.val.length % 2 = 0 := by omega
  unfold canIrqHandler
  rw [if_pos (mt (rf0r_and_bit s.fifo0).mp hodd)]
  simp only [writeRf0r_release]
  cases msgSend s.rxq (toMsg pad (readFrame s.fifo0.output)) with
  | none => rfl
  | some p => rfl

theorem canRecv_nil {frame : CanFrame} (h : Holds s.rxq []) :
    canRecv s frame = some (.errRx, frame, s) := by
  unfold canRecv
  rw [msgRecv_nil h]
  rfl

theorem canRecv_cons {frame : CanFrame} {m : Msg} (h : Holds s.rxq (m :: l)) :
    ∃ q', canRecv s frame = some (.ok, ofMsg m, { s with rxq := q' }) ∧ Holds q' l := by
  obtain ⟨q', hq, hq'⟩ := msgRecv_cons (m := ⟨fun _ => 0⟩) h
  refine ⟨q', ?_, hq'⟩
  unfold canRecv
  rw [hq]
  rfl

end Receive

section Send

variable {tx : CanTx} {frame : CanFrame}

/-- The registers that `can_send` leaves. -/
def sentMailbox (frame : CanFrame) : TxMailbox where
  tir := frame.id <<< 21 ||| bit 1 ||| bit 0
  tdtr := frame.len.setWidth 32
  tdlr := frame.word 0
  tdhr := frame.word 4

theorem canTxMailboxFree_eq_one_iff : canTxMailboxFree tx = 1 ↔ tx.mb.tir &&& bit 0 = 0 := by
  unfold canTxMailboxFree
  split_ifs with h
  · exact iff_of_true rfl h
  · exact iff_of_false (by decide) h

theorem canSend_free (hl : tx.canLock = 0) (h : canTxMailboxFree tx = 1) : canSend tx frame =
    some (.ok, ⟨sentMailbox frame, 0, tx.requested ++ [sentMailbox frame]⟩) := by
  have h0 : (frame.id <<< 21 ||| bit 1).getLsbD 0 = false := by
    rw [getLsbD_or_bit, BitVec.getLsbD_shiftLeft]
    rfl
  have h1 : (frame.id <<< 21 ||| bit 1 ||| bit 0).getLsbD 0 = true := by
    rw [getLsbD_or_bit, h0]
    rfl
  unfold canSend
  rw [hl, spinLock_of_zero]
  simp only [Option.bind_eq_bind, Option.bind_some, if_pos (canTxMailboxFree_eq_one_iff.mp h),
    CanTx.writeTir, h0, h1, if_true, Bool.false_eq_true, if_false]
  rfl

theorem canSend_busy (hl : tx.canLock = 0) (h : canTxMailboxFree tx ≠ 1) :
    canSend tx frame = some (.errTx, tx) := by
  unfold canSend
  rw [hl, spinLock_of_zero]
  simp only [Option.bind_eq_bind, Option.bind_some, if_neg (mt canTxMailboxFree_eq_one_iff.mpr h)]
  obtain ⟨_, _, _⟩ := tx
  exact congrArg (fun l => some (CanErr.errTx, CanTx.mk _ l _)) hl.symm

end Send

end BloodKernel
