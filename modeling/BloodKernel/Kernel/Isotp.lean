import BloodKernel.Kernel.Can

set_option autoImplicit false

/-!
# ISO-TP single frames

`src/kernel/isotp.c`: `isotp_send` and `isotp_recv`. The reassembly context `ctx` and `send_fc` are
not used by them.

* `isotpSend`, `isotpRecv`: the functions; `singleFrame`: the frame of a message;
* **`isotp_roundtrip`**: `isotp_recv` decodes the frames that `isotp_send` builds, and longer
  messages are refused.
-/

namespace BloodKernel

open Lib

abbrev isotpMaxPayload : ℕ := 4096

/-- `isotp_msg_t`. -/
structure IsotpMsg where
  id : U32
  data : Fin isotpMaxPayload → U8
  len : U16

/-- The frame of `send_sf`; its only call has `len` at most 7. -/
def sfFrame (id : U32) (data : Fin isotpMaxPayload → U8) (len : U8) : CanFrame :=
  let f : CanFrame := { id := id, len := len + 1, data := fun _ => 0 }
  let f := { f with data := Function.update f.data 0 len }
  { f with data := memcpy f.data 1 data 0 len.toNat }

def sendSf (tx : CanTx) (id : U32) (data : Fin isotpMaxPayload → U8) (len : U8) : Option CanTx := do
  let (_, tx) ← canSend tx (sfFrame id data len)      -- the result is not used
  return tx

def isotpSend (tx : CanTx) (msg : IsotpMsg) : Option (U8 × CanTx) := do
  if msg.len.toNat ≤ 7 then      -- single frame
    let tx ← sendSf tx msg.id msg.data (msg.len.setWidth 8)
    return (0, tx)
  return (1, tx)

/-- What stands for the uninitialised local `f` of `isotp_recv`, which is read only after `can_recv`
has written it. -/
def noFrame : CanFrame := ⟨0, 0, fun _ => 0⟩

/-- `msg` is what the caller's buffer holds at the call. -/
def isotpRecv (rx : CanRx) (msg : IsotpMsg) : Option (U8 × IsotpMsg × CanRx) := do
  let (err, f, rx) ← canRecv rx noFrame
  if err ≠ .ok then
    return (1, msg, rx)
  let type := f.data 0 >>> 4
  if type = 0 then      -- SF
    let len := f.data 0 &&& 0x0F
    if len.toNat > 7 then
      return (1, msg, rx)
    return (0, { data := memcpy msg.data 0 f.data 1 len.toNat, len := len.setWidth 16, id := f.id }, rx)
  return (1, msg, rx)

/-! ### The round trip -/

/-- The frame that `isotp_send` builds for `msg`. -/
def singleFrame (msg : IsotpMsg) : CanFrame := sfFrame msg.id msg.data (msg.len.setWidth 8)

variable {msg : IsotpMsg} {tx : CanTx} {rx rx' : CanRx}

theorem isotpSend_short (h : msg.len.toNat ≤ 7) :
    isotpSend tx msg = (canSend tx (singleFrame msg)).map fun (_, tx) => (0, tx) := by
  unfold isotpSend sendSf singleFrame
  rw [if_pos h]
  cases canSend tx (sfFrame msg.id msg.data (msg.len.setWidth 8)) with
  | none => rfl
  | some p => rfl

theorem isotpSend_long (h : 7 < msg.len.toNat) : isotpSend tx msg = some (1, tx) := by
  unfold isotpSend
  rw [if_neg (Nat.not_le.mpr h)]
  rfl

theorem toNat_shortLen (h : msg.len.toNat ≤ 7) : (msg.len.setWidth 8).toNat = msg.len.toNat := by
  rw [BitVec.toNat_setWidth]
  exact Nat.mod_eq_of_lt (by omega)

theorem singleFrame_bytes (msg : IsotpMsg) : (singleFrame msg).data =
    memcpy (Function.update (fun _ => 0) 0 (msg.len.setWidth 8)) 1 msg.data 0
      (msg.len.setWidth 8).toNat := rfl

theorem singleFrame_pci (msg : IsotpMsg) : (singleFrame msg).data 0 = msg.len.setWidth 8 := by
  rw [singleFrame_bytes, memcpy_of_not fun h => absurd h (by decide)]
  exact Function.update_self _ _ _

theorem singleFrame_data {i : Fin isotpMaxPayload} {k : Fin 8} (h : msg.len.toNat ≤ 7)
    (hi : i.val < msg.len.toNat) (hk : k.val = i + 1) : (singleFrame msg).data k = msg.data i := by
  have hlen := toNat_shortLen h
  rw [singleFrame_bytes]
  exact memcpy_of_lt i (by omega) (by omega) (by omega)

theorem pci_fields {n : U8} (h : n.toNat ≤ 7) : n >>> 4 = 0 ∧ n &&& 0x0F = n := by
  constructor
  · apply BitVec.eq_of_toNat_eq
    rw [BitVec.toNat_ushiftRight, Nat.shiftRight_eq_div_pow]
    exact Nat.div_eq_of_lt (by omega)
  · apply BitVec.eq_of_toNat_eq
    rw [BitVec.toNat_and]
    exact (Nat.and_two_pow_sub_one_eq_mod n.toNat 4).trans (Nat.mod_eq_of_lt (by omega))

theorem isotpRecv_singleFrame {out : IsotpMsg} (h : msg.len.toNat ≤ 7)
    (hrecv : canRecv rx noFrame = some (.ok, singleFrame msg, rx')) : isotpRecv rx out =
      some (0, ⟨msg.id, memcpy out.data 0 (singleFrame msg).data 1 msg.len.toNat, msg.len⟩, rx') := by
  have hlen := toNat_shortLen h
  obtain ⟨htype, hmask⟩ := pci_fields (hlen.trans_le h)
  have hwide : (msg.len.setWidth 8).setWidth 16 = msg.len := by
    apply BitVec.eq_of_toNat_eq
    rw [BitVec.toNat_setWidth, hlen]
    exact Nat.mod_eq_of_lt msg.len.isLt
  unfold isotpRecv
  rw [hrecv]
  simp only [Option.bind_eq_bind, Option.bind_some, singleFrame_pci, htype, hmask, hlen, hwide]
  rw [if_neg (by decide), if_pos trivial, if_neg (by omega)]
  rfl

/-- **The round trip.** For at most 7 bytes, `isotp_send` passes `singleFrame msg` to `can_send`; when
`can_recv` returns that frame, `isotp_recv` returns 0 with its id, length and bytes. A longer message
is refused, and nothing is sent. -/
theorem isotp_roundtrip (msg out : IsotpMsg) (tx : CanTx) (rx rx' : CanRx) :
    (msg.len.toNat ≤ 7 →
      isotpSend tx msg = (canSend tx (singleFrame msg)).map (fun (_, tx) => (0, tx)) ∧
      (canRecv rx noFrame = some (.ok, singleFrame msg, rx') →
        ∃ got, isotpRecv rx out = some (0, got, rx') ∧ got.id = msg.id ∧ got.len = msg.len ∧
          (∀ i, i.val < msg.len.toNat → got.data i = msg.data i) ∧
          ∀ i, msg.len.toNat ≤ i.val → got.data i = out.data i)) ∧
    (7 < msg.len.toNat → isotpSend tx msg = some (1, tx)) := by
  refine ⟨fun h => ⟨isotpSend_short h, fun hrecv => ?_⟩, isotpSend_long⟩
  refine ⟨_, isotpRecv_singleFrame h hrecv, rfl, rfl, fun i hi => ?_, fun i hi => ?_⟩
  · have hk : i.val + 1 < 8 := by omega
    rw [← singleFrame_data (k := ⟨i + 1, hk⟩) h hi rfl]
    refine memcpy_of_lt ⟨i + 1, hk⟩ (Nat.zero_le _) (by omega) ?_
    show i.val + 1 = 1 + (i.val - 0)
    omega
  · exact memcpy_of_not fun _ => by omega

/-- A message of three bytes, the queue with its frame, and the queue after the frame is read. -/
def shortMsg : IsotpMsg := ⟨0x7E8, fun i => BitVec.ofNat 8 (i + 1), 3⟩

def shortRx : CanRx :=
  ⟨⟨fun _ => toMsg (fun _ => 0) (singleFrame shortMsg), 1, 0, 1, 0⟩, .empty⟩

def readRx : CanRx := { shortRx with rxq := ⟨shortRx.rxq.buf, 1, 1, 0, 0⟩ }

theorem canRecv_shortRx : canRecv shortRx noFrame = some (.ok, singleFrame shortMsg, readRx) := by
  have h : canRecv shortRx noFrame =
      some (.ok, ofMsg (toMsg (fun _ => 0) (singleFrame shortMsg)), readRx) := rfl
  rwa [ofMsg_toMsg] at h

def longMsg : IsotpMsg := { shortMsg with len := 8 }

theorem isotp_roundtrip_short_long :
    (∃ got, isotpRecv shortRx longMsg = some (0, got, readRx) ∧ got.id = shortMsg.id ∧
      got.len = shortMsg.len ∧ (∀ i, i.val < shortMsg.len.toNat → got.data i = shortMsg.data i) ∧
      ∀ i, shortMsg.len.toNat ≤ i.val → got.data i = longMsg.data i) ∧
    isotpSend ⟨⟨0, 0, 0, 0⟩, 0, []⟩ longMsg = some (1, ⟨⟨0, 0, 0, 0⟩, 0, []⟩) :=
  ⟨((isotp_roundtrip shortMsg longMsg ⟨⟨0, 0, 0, 0⟩, 0, []⟩ shortRx readRx).1 (by decide)).2
      canRecv_shortRx,
    (isotp_roundtrip longMsg shortMsg ⟨⟨0, 0, 0, 0⟩, 0, []⟩ shortRx readRx).2 (by decide)⟩

end BloodKernel
