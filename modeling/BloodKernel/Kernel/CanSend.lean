import BloodKernel.Kernel.Can

set_option autoImplicit false

/-!
# What `can_send` leaves in the mailbox

* `decodeTx`, `RequestsData`: a transmit mailbox read with the positions of the receive handler, and a
  request for a standard data frame;
* `canSend_ok`, `decodeTx_sentMailbox`: a successful call leaves `sentMailbox`, which decodes to the frame;
* **`canSend_remote`**: the request is for a remote frame, with the right id, length and data.
-/

namespace BloodKernel

open Lib

/-- The mailbox read with the field positions of the receive handler. -/
def decodeTx (mb : TxMailbox) : CanFrame := readFrame ⟨mb.tir, mb.tdtr, mb.tdlr, mb.tdhr⟩

/-- Bit 0 of TIR, the request; bit 1, a remote frame; bit 2, an extended id. -/
def txrq (mb : TxMailbox) : Bool := mb.tir.getLsbD 0

def rtr (mb : TxMailbox) : Bool := mb.tir.getLsbD 1

def ide (mb : TxMailbox) : Bool := mb.tir.getLsbD 2

/-- The mailbox holds a request to transmit `frame` as a standard data frame. -/
structure RequestsData (mb : TxMailbox) (frame : CanFrame) : Prop where
  requested : txrq mb = true
  standard : ide mb = false
  data : rtr mb = false
  decode : decodeTx mb = frame

variable {tx tx' : CanTx} {frame : CanFrame}

theorem canSend_ok (h : canSend tx frame = some (.ok, tx')) : tx'.mb = sentMailbox frame := by
  by_cases hl : tx.canLock = 0
  · by_cases hfree : canTxMailboxFree tx = 1
    · rw [canSend_free hl hfree] at h
      cases h
      rfl
    · rw [canSend_busy hl hfree] at h
      cases h
  · have hlock : spinLock tx.canLock = none := if_neg hl
    unfold canSend at h
    rw [hlock] at h
    cases h

theorem getLsbD_tir {k : ℕ} (hk : k < 21) :
    (sentMailbox frame).tir.getLsbD k = (decide (1 = k) || decide (0 = k)) := by
  show (frame.id <<< 21 ||| bit 1 ||| bit 0).getLsbD k = _
  rw [getLsbD_or_bit, getLsbD_or_bit, BitVec.getLsbD_shiftLeft, decide_eq_true hk]
  simp

theorem id_sentMailbox (hid : frame.id.toNat < 0x800) :
    ((sentMailbox frame).tir >>> 21) &&& 0x7FF = frame.id := by
  have h₁ : bit 1 >>> 21 = 0 := by decide
  have h₀ : bit 0 >>> 21 = 0 := by decide
  have hshift : (frame.id <<< 21) >>> 21 = frame.id := by
    apply BitVec.eq_of_toNat_eq
    rw [BitVec.toNat_ushiftRight, BitVec.toNat_shiftLeft, Nat.shiftLeft_eq, Nat.shiftRight_eq_div_pow]
    omega
  have hzero : frame.id ||| 0 = frame.id := BitVec.or_zero
  show ((frame.id <<< 21 ||| bit 1 ||| bit 0) >>> 21) &&& 0x7FF = _
  rw [BitVec.ushiftRight_or_distrib, BitVec.ushiftRight_or_distrib, hshift, h₁, h₀, hzero, hzero]
  apply BitVec.eq_of_toNat_eq
  rw [BitVec.toNat_and]
  exact (Nat.and_two_pow_sub_one_eq_mod frame.id.toNat 11).trans (Nat.mod_eq_of_lt hid)

theorem len_sentMailbox (hlen : frame.len.toNat ≤ 8) :
    (((sentMailbox frame).tdtr &&& 0x0F).setWidth 8) = frame.len := by
  show ((frame.len.setWidth 32 &&& 0x0F).setWidth 8) = frame.len
  apply BitVec.eq_of_toNat_eq
  have hwide : (frame.len.setWidth 32).toNat = frame.len.toNat := by
    rw [BitVec.toNat_setWidth, Nat.mod_eq_of_lt (by omega)]
  have hmask : (frame.len.setWidth 32 &&& 0x0F).toNat = frame.len.toNat := by
    rw [BitVec.toNat_and, hwide]
    exact (Nat.and_two_pow_sub_one_eq_mod frame.len.toNat 4).trans (Nat.mod_eq_of_lt (by omega))
  rw [BitVec.toNat_setWidth, hmask, Nat.mod_eq_of_lt (by omega)]

theorem data_sentMailbox (frame : CanFrame) :
    bytesOfWords (sentMailbox frame).tdlr (sentMailbox frame).tdhr = frame.data := by
  funext i
  have hi := i.isLt
  show (if i.val < 4 then leByte (frame.word 0) i else leByte (frame.word 4) (i - 4)) = _
  unfold CanFrame.word
  split_ifs with h4
  · rw [leByte_leWord _ h4]
    exact congrArg frame.data (Fin.ext (by rw [Fin.val_ofNat, Nat.zero_add, Nat.mod_eq_of_lt hi]))
  · rw [leByte_leWord _ (by omega)]
    refine congrArg frame.data (Fin.ext ?_)
    rw [Fin.val_ofNat, Nat.add_sub_cancel' (by omega), Nat.mod_eq_of_lt hi]

/-- **Encoder and decoder agree** on the id, the length and the data. -/
theorem decodeTx_sentMailbox (hid : frame.id.toNat < 0x800) (hlen : frame.len.toNat ≤ 8) :
    decodeTx (sentMailbox frame) = frame :=
  CanFrame.ext (id_sentMailbox hid) (len_sentMailbox hlen) (data_sentMailbox frame)

/-- **No data frame is sent.** For every frame with an 11-bit id and at most 8 bytes, when `can_send`
returns `CAN_OK` the mailbox requests no data frame: it decodes to the frame and requests a standard
frame, but its RTR bit is set. -/
theorem canSend_remote (hid : frame.id.toNat < 0x800) (hlen : frame.len.toNat ≤ 8)
    (h : canSend tx frame = some (.ok, tx')) : ¬ RequestsData tx'.mb frame ∧
      (txrq tx'.mb = true ∧ ide tx'.mb = false ∧ rtr tx'.mb = true ∧ decodeTx tx'.mb = frame) := by
  rw [canSend_ok h]
  have hrtr : rtr (sentMailbox frame) = true := getLsbD_tir (by omega)
  refine ⟨fun hreq => ?_, getLsbD_tir (by omega), getLsbD_tir (by omega), hrtr,
    decodeTx_sentMailbox hid hlen⟩
  rw [hreq.data] at hrtr
  cases hrtr

/-- A frame of two bytes, and an idle mailbox. -/
def pingFrame : CanFrame := ⟨0x123, 2, fun i => if i.val < 2 then 0xA5 else 0⟩

def idleTx : CanTx := ⟨⟨0, 0, 0, 0⟩, 0, []⟩

theorem canSend_ping : canSend idleTx pingFrame =
    some (.ok, ⟨sentMailbox pingFrame, 0, [sentMailbox pingFrame]⟩) :=
  canSend_free rfl (by decide)

theorem canSend_remote_ping : ¬ RequestsData (sentMailbox pingFrame) pingFrame ∧
    (txrq (sentMailbox pingFrame) = true ∧ ide (sentMailbox pingFrame) = false ∧
      rtr (sentMailbox pingFrame) = true ∧ decodeTx (sentMailbox pingFrame) = pingFrame) :=
  canSend_remote (by decide) (by decide) canSend_ping

/-- The ping is requested as a remote frame. -/
theorem ping_not_data : ¬ ∀ (tx tx' : CanTx) (frame : CanFrame), frame.id.toNat < 0x800 →
    frame.len.toNat ≤ 8 → canSend tx frame = some (.ok, tx') → RequestsData tx'.mb frame := by
  intro hall
  have h := (hall _ _ _ (by decide) (by decide) canSend_ping).data
  exact absurd h (by decide)

end BloodKernel
