import BloodKernel.Drivers.Rtl8139
import BloodKernel.Lib.Traced

set_option autoImplicit false

/-!
# What the RTL8139 driver reads

`rtl8139_receive_packet` once more, with the offsets of the receive buffer it reads: the four bytes of the
header, and one byte for each byte it copies.

* `receiveTraced`: the call with its reads; **`value_receiveTraced`**: without them it is
  `rtl8139ReceivePacket`.
* `length_copied_le`: never more than `max_length` bytes are copied.
* **`bounded_iff`**: the call stays inside the buffer and inside the packet exactly when it finds nothing to
  read, or the header fits before the end of the buffer and a valid packet is at least as long as its CRC.
-/

namespace BloodKernel.Rtl8139

open Lib

/-- `*(u16*)(rx_buffer + i)` with its two reads. -/
def load16Traced (m : ℕ → U8) (i : ℕ) : Traced ℕ U16 :=
  (Traced.read m i).bind fun lo => (Traced.read m (i + 1)).bind fun hi => .pure (hi ++ lo)

/-- `rtl8139_receive_packet` with the offsets of `rx_buffer` it reads. -/
def receiveTraced (s : Nic) (maxLength : U16) : Traced ℕ ((U16 × List U8) × Nic) :=
  if s.initialized = false then .pure ((0, []), s)
  else if s.capr = s.cbr then .pure ((0, []), s)
  else
    let offset := (s.capr.toNat + 16) % rxBufferSize
    (load16Traced s.rxBuffer offset).bind fun status =>
    (load16Traced s.rxBuffer (offset + 2)).bind fun length =>
    if status &&& 0x01 = 0 then .pure ((0, []), s)
    else
      let length := cutTo maxLength (length - 4)
      let dataOffset := (offset + 4) % rxBufferSize
      let places := (List.range length.toNat).map fun i => (dataOffset + i) % rxBufferSize
      (Traced.readList s.rxBuffer places).bind fun dest =>
      let capr := (s.capr.toNat + (packetSize length).toNat) % rxBufferSize
      .pure ((length, dest), { s with capr := BitVec.ofNat 16 capr - 16 })

@[simp] theorem value_load16Traced (m : ℕ → U8) (i : ℕ) : (load16Traced m i).value = load16 m i := rfl

/-- **The driver's call** is the one with its reads, the reads forgotten. -/
theorem value_receiveTraced (s : Nic) (maxLength : U16) :
    (receiveTraced s maxLength).value = rtl8139ReceivePacket s maxLength := by
  unfold receiveTraced rtl8139ReceivePacket
  dsimp only
  split_ifs with hinit heq hstatus
  · rfl
  · rfl
  · rw [Traced.value_bind, Traced.value_bind, value_load16Traced, value_load16Traced,
      if_pos hstatus, Traced.value_pure]
  · rw [Traced.value_bind, Traced.value_bind, value_load16Traced, value_load16Traced,
      if_neg hstatus, Traced.value_bind, Traced.value_pure, Traced.value_readList, List.map_map]
    rfl

/-! ## The reads -/

/-- An offset of the receive buffer. -/
def InBuffer (i : ℕ) : Prop := i < rxBufferSize

theorem only_load16Traced {P : ℕ → Prop} {m : ℕ → U8} {i : ℕ} :
    (load16Traced m i).Only P ↔ P i ∧ P (i + 1) := by
  unfold load16Traced
  rw [Traced.only_bind, Traced.only_bind, Traced.only_read, Traced.only_read]
  exact and_congr_right fun _ => and_iff_left (Traced.only_pure _)

/-- A call that does not come to the header reads nothing. -/
theorem only_of_none {P : ℕ → Prop} {s : Nic} {maxLength : U16}
    (h : s.initialized = false ∨ s.capr = s.cbr) : (receiveTraced s maxLength).Only P := by
  unfold receiveTraced
  split_ifs with hinit heq
  · exact Traced.only_pure _
  · exact Traced.only_pure _
  · exact absurd h (not_or.mpr ⟨hinit, heq⟩)

/-- **The header decides.** The bytes of a packet are read inside the buffer; the header is if its last
byte is. -/
theorem only_inBuffer_iff {s : Nic} (hinit : s.initialized = true) (hne : s.capr ≠ s.cbr)
    (maxLength : U16) :
    (receiveTraced s maxLength).Only InBuffer ↔ s.offset + 4 ≤ rxBufferSize := by
  have hoffset : (s.capr.toNat + 16) % rxBufferSize = s.offset := rfl
  unfold receiveTraced
  rw [if_neg (by rw [hinit]; decide), if_neg hne]
  dsimp only
  rw [hoffset, Traced.only_bind, Traced.only_bind, only_load16Traced, only_load16Traced]
  constructor
  · rintro ⟨-, ⟨-, hlast⟩, -⟩
    exact hlast
  · intro h
    have hcell (i : ℕ) (hi : i < 4) : InBuffer (s.offset + i) := by
      show s.offset + i < rxBufferSize
      omega
    refine ⟨⟨hcell 0 (by omega), hcell 1 (by omega)⟩,
      ⟨hcell 2 (by omega), hcell 3 (by omega)⟩, ?_⟩
    split_ifs
    · exact Traced.only_pure _
    · refine Traced.only_bind.mpr ⟨Traced.only_readList.mpr fun i hi => ?_, Traced.only_pure _⟩
      obtain ⟨j, -, rfl⟩ := List.mem_map.mp hi
      exact Nat.mod_lt _ (by decide)

/-! ## The length -/

/-- The length field of the header at the read position. -/
def Nic.lengthField (s : Nic) : U16 := load16 s.rxBuffer (s.offset + 2)

/-- As many bytes are copied as the call reports. -/
theorem length_copied (s : Nic) (maxLength : U16) :
    (rtl8139ReceivePacket s maxLength).1.2.length = (rtl8139ReceivePacket s maxLength).1.1.toNat := by
  unfold rtl8139ReceivePacket
  dsimp only
  split_ifs
  · rfl
  · rfl
  · rfl
  · exact length_readCyclic _ _ _

/-- Never more than `max_length` bytes are copied. -/
theorem length_copied_le (s : Nic) (maxLength : U16) :
    (rtl8139ReceivePacket s maxLength).1.2.length ≤ maxLength.toNat := by
  rw [length_copied]
  unfold rtl8139ReceivePacket
  dsimp only
  split_ifs
  · exact Nat.zero_le _
  · exact Nat.zero_le _
  · exact Nat.zero_le _
  · exact (toNat_cutTo _ _).trans_le (Nat.min_le_right _ _)

/-- The 4 bytes of the CRC are not in the report. -/
theorem reported_le_iff {s : Nic} (hinit : s.initialized = true) (hne : s.capr ≠ s.cbr)
    (maxLength : U16) :
    (rtl8139ReceivePacket s maxLength).1.1.toNat ≤ s.lengthField.toNat - 4 ↔
      load16 s.rxBuffer s.offset &&& 0x01 = 0 ∨ 4 ≤ s.lengthField.toNat ∨ maxLength = 0 := by
  by_cases hstatus : load16 s.rxBuffer s.offset &&& 0x01 = 0
  · rw [receive_none hinit (.inr hstatus)]
    exact iff_of_true (Nat.zero_le _) (.inl hstatus)
  · rw [receive_some hinit hne hstatus rfl, or_iff_right hstatus]
    show (cutTo maxLength (s.lengthField - 4)).toNat ≤ _ ↔ _
    have hfield := s.lengthField.isLt
    have hfour : (4 : U16).toNat = 4 := rfl
    have hzero : maxLength = 0 ↔ maxLength.toNat = 0 :=
      ⟨fun h => h ▸ rfl, fun h => BitVec.eq_of_toNat_eq h⟩
    rw [toNat_cutTo, BitVec.toNat_sub, hfour, hzero]
    omega

/-! ## One call -/

/-- The call reads inside the buffer, copies at most `max_length` bytes, and reports no more than the
length field less the CRC: nothing when the field is below 4. -/
structure Bounded (s : Nic) (maxLength : U16) : Prop where
  reads : (receiveTraced s maxLength).Only InBuffer
  copied : (rtl8139ReceivePacket s maxLength).1.2.length ≤ maxLength.toNat
  reported : (rtl8139ReceivePacket s maxLength).1.1.toNat ≤ s.lengthField.toNat - 4

/-- **Exactness.** The call finds nothing to read; or the header ends inside the buffer, and when its
status bit is set its length field counts at least the CRC, or nothing is asked for. -/
theorem bounded_iff (s : Nic) (maxLength : U16) :
    Bounded s maxLength ↔
      s.initialized = false ∨ s.capr = s.cbr ∨
        s.offset + 4 ≤ rxBufferSize ∧
          (load16 s.rxBuffer s.offset &&& 0x01 = 0 ∨ 4 ≤ s.lengthField.toNat ∨ maxLength = 0) := by
  by_cases hnone : s.initialized = false ∨ s.capr = s.cbr
  · refine iff_of_true ⟨only_of_none hnone, length_copied_le _ _, ?_⟩ (or_assoc.mp (.inl hnone))
    have hres : (rtl8139ReceivePacket s maxLength).1.1 = 0 := by
      unfold rtl8139ReceivePacket
      dsimp only
      split_ifs with hinit heq
      · rfl
      · rfl
      · rfl
      · exact absurd hnone (not_or.mpr ⟨hinit, heq⟩)
    rw [hres]
    exact Nat.zero_le _
  · rw [← or_assoc, or_iff_right hnone]
    rw [not_or, Bool.not_eq_false] at hnone
    obtain ⟨hinit, hne⟩ := hnone
    rw [← only_inBuffer_iff hinit hne maxLength, ← reported_le_iff hinit hne maxLength]
    exact ⟨fun h => ⟨h.reads, h.reported⟩, fun h => ⟨h.1, length_copied_le _ _, h.2⟩⟩

/-- A packet of length 0 without an error, at the start of the buffer. -/
def emptyPacket : Nic where
  initialized := true
  rxBuffer i := if i = 0 then 0x01 else 0x00
  capr := 0xFFF0
  cbr := 0x0010

/-- The call takes the length for 65532 and hands out 1514 bytes. -/
theorem not_bounded_emptyPacket :
    (rtl8139ReceivePacket emptyPacket 1514).1.1 = 1514 ∧ ¬Bounded emptyPacket 1514 := by
  have hlength : (rtl8139ReceivePacket emptyPacket 1514).1.1 = 1514 := by decide
  refine ⟨hlength, fun h => ?_⟩
  have hreported := h.reported
  rw [hlength] at hreported
  exact absurd hreported (by decide)

end BloodKernel.Rtl8139
