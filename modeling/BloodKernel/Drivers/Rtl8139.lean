import BloodKernel.Kernel.Types
import BloodKernel.Lib.Cyclic
import BloodKernel.Lib.Run

set_option autoImplicit false

/-!
# Receiving with the RTL8139

`rtl8139_receive_packet` of `drivers/rtl8139.c`, and a controller that stores packets in the receive
ring. `Sys` keeps beside them which packets have not been taken yet, and where the oldest one starts.

* `rtl8139ReceivePacket`, `Nic.deposit`: the driver's call and the arrival of a packet.
* `Layout`: the packets not taken yet lie in the ring one after the other; `layout_step`.
* `receive_head`: what a call returns that reads at the start of the oldest packet.
* **`inOrder_iff_clear`**: all calls of a run return the packets in order exactly when none comes
  after a packet has been taken, and none finds a stale header in an empty ring.
-/

namespace BloodKernel.Rtl8139

open Lib

/-! ## The driver -/

/-- `RX_BUFFER_SIZE`. -/
def rxBufferSize : ℕ := 8192

/-- The receive buffer, the two position registers of the controller, and whether the driver has been
initialized. -/
structure Nic where
  initialized : Bool
  rxBuffer : ℕ → U8
  capr : U16
  cbr : U16

/-- `*(u16*)(rx_buffer + i)`. -/
def load16 (m : ℕ → U8) (i : ℕ) : U16 := m (i + 1) ++ m i

/-- `((length + 4 + 3) & ~3) + 4`. -/
def packetSize (length : U16) : U16 :=
  (((length.setWidth 32 + 4 + 3) &&& ~~~3 : U32) + 4).setWidth 16

/-- `if (length > max_length) length = max_length`. -/
def cutTo (maxLength length : U16) : U16 := if maxLength < length then maxLength else length

/-- The length returned and the bytes copied to the buffer, and the state after the call. -/
def rtl8139ReceivePacket (s : Nic) (maxLength : U16) : (U16 × List U8) × Nic :=
  if s.initialized = false then ((0, []), s)
  else if s.capr = s.cbr then ((0, []), s)
  else
    let offset := (s.capr.toNat + 16) % rxBufferSize
    let status := load16 s.rxBuffer offset
    let length := load16 s.rxBuffer (offset + 2)
    if status &&& 0x01 = 0 then ((0, []), s)
    else
      let length := cutTo maxLength (length - 4)
      let dataOffset := (offset + 4) % rxBufferSize
      let dest := readCyclic rxBufferSize s.rxBuffer dataOffset length.toNat
      let capr := (s.capr.toNat + (packetSize length).toNat) % rxBufferSize
      ((length, dest), { s with capr := BitVec.ofNat 16 capr - 16 })

/-! ## The controller -/

/-- A packet received without error: the status word of its header, its data and its CRC. -/
structure Packet where
  status : U16
  data : List U8
  crc : List U8
  received : status &&& 0x01 ≠ 0
  length_crc : crc.length = 4

/-- What a packet of `n` bytes takes in the ring: header, data and CRC, up to a multiple of 4. -/
def room (n : ℕ) : ℕ := (4 + n + 4 + 3) / 4 * 4

/-- The header holds the status and the length with the CRC, the low bytes first. -/
def header (status length : U16) : List U8 :=
  [status.extractLsb' 0 8, status.extractLsb' 8 8, length.extractLsb' 0 8, length.extractLsb' 8 8]

def Packet.bytes (p : Packet) : List U8 :=
  header p.status (BitVec.ofNat 16 (p.data.length + 4)) ++ p.data ++ p.crc

def Packet.room (p : Packet) : ℕ := Rtl8139.room p.data.length

/-- The controller writes a packet at its write position and goes on behind it. -/
def Nic.deposit (s : Nic) (p : Packet) : Nic :=
  { s with
    rxBuffer := writeCyclic rxBufferSize s.rxBuffer s.cbr.toNat p.bytes
    cbr := BitVec.ofNat 16 ((s.cbr.toNat + p.room) % rxBufferSize) }

/-! ## The system -/

/-- The controller and the driver, the packets that no call has taken yet, and where the oldest one
starts; `slips` counts the calls that took a packet but moved `CAPR` somewhere else than behind it. -/
structure Sys where
  nic : Nic
  start : ℕ
  pending : List Packet
  slips : ℕ

inductive Op
  | arrive (p : Packet)
  | receive (maxLength : U16)

inductive Res
  | stored
  | received (length : U16) (data : List U8)

/-- The space that packets take in the ring. -/
def used (ps : List Packet) : ℕ := (ps.map Packet.room).sum

/-- `CAPR` is set 16 bytes short each time: a call that takes a packet leaves `CAPR` behind it only if
the bytes cut off make up for the 16 bytes around the whole ring. -/
def Slips (p : Packet) (maxLength : U16) : Prop :=
  p.room ≠ room (min p.data.length maxLength.toNat) + (rxBufferSize - 16)

instance decidableSlips (p : Packet) (maxLength : U16) : Decidable (Slips p maxLength) :=
  inferInstanceAs (Decidable (p.room ≠ _))

/-- The oldest packet is taken. -/
def Sys.take (s : Sys) (maxLength : U16) : Sys :=
  match s.pending with
  | [] => s
  | p :: ps =>
      { s with
        start := (s.start + p.room) % rxBufferSize
        pending := ps
        slips := if Slips p maxLength then s.slips + 1 else s.slips }

/-- A packet arrives when the ring has room for it. A call takes the oldest packet. -/
def step (s : Sys) : Op → Option (Res × Sys)
  | .arrive p =>
      if used s.pending + p.room ≤ rxBufferSize then
        some (.stored, { s with nic := s.nic.deposit p, pending := s.pending ++ [p] })
      else none
  | .receive maxLength =>
      let r := rtl8139ReceivePacket s.nic maxLength
      some (.received r.1.1 r.1.2, { s.take maxLength with nic := r.2 })

/-- The state after `rtl8139_init`: an empty ring, with whatever its memory held before. -/
def boot (m : ℕ → U8) : Sys where
  nic := { initialized := true, rxBuffer := m, capr := 0xFFF0, cbr := 0 }
  start := 0
  pending := []
  slips := 0

/-- What a call should return: the oldest packet, cut to the length asked for. -/
def expected (ps : List Packet) (maxLength : U16) : Res :=
  match ps with
  | [] => .received 0 []
  | p :: _ =>
      .received (BitVec.ofNat 16 (min p.data.length maxLength.toNat)) (p.data.take maxLength.toNat)

/-- The driver reads where the oldest packet starts. -/
def Sys.Aligned (s : Sys) : Prop := (s.nic.capr.toNat + 16) % rxBufferSize = s.start

/-- A call reads at the start of the oldest packet and returns it; without a packet it changes
nothing. -/
def InOrder (s : Sys) : Op × Res → Prop
  | (.receive maxLength, r) =>
      s.Aligned ∧ r = expected s.pending maxLength ∧
        (s.pending = [] → (rtl8139ReceivePacket s.nic maxLength).2 = s.nic)
  | _ => True

/-- The status bit of the header at the read position is clear. -/
def Sys.NoStatus (s : Sys) : Prop := load16 s.nic.rxBuffer s.start &&& 0x01 = 0

/-- A call comes before any packet has been taken (that `CAPR` has slipped on). It finds no stale
header when the ring is empty; and when packets wait, `CAPR` and `CBR` differ or there is nothing to
return. -/
def Clear (s : Sys) : Op × Res → Prop
  | (.receive maxLength, _) =>
      s.slips = 0 ∧ match s.pending with
        | [] => s.NoStatus
        | p :: _ => s.nic.capr = s.nic.cbr → min p.data.length maxLength.toNat = 0
  | _ => True

theorem step_arrive {s : Sys} {p : Packet} (h : used s.pending + p.room ≤ rxBufferSize) :
    step s (.arrive p) =
      some (.stored, { s with nic := s.nic.deposit p, pending := s.pending ++ [p] }) := if_pos h

/-! ## The ring -/

theorem add_le_room (n : ℕ) : n + 8 ≤ room n := by
  unfold room
  omega

theorem room_mod (n : ℕ) : room n % 4 = 0 := by
  unfold room
  omega

theorem room_mono {m n : ℕ} (h : m ≤ n) : room m ≤ room n := by
  unfold room
  omega

theorem Packet.length_bytes (p : Packet) : p.bytes.length = p.data.length + 8 := by
  simp [Packet.bytes, header, p.length_crc]

theorem Packet.length_bytes_le (p : Packet) : p.bytes.length ≤ p.room :=
  p.length_bytes.trans_le (add_le_room _)

theorem used_cons (p : Packet) (ps : List Packet) : used (p :: ps) = p.room + used ps := rfl

theorem used_append (ps : List Packet) (p : Packet) : used (ps ++ [p]) = used ps + p.room := by
  simp [used]

/-- From position `a` on, the ring holds these packets one after the other. -/
def Stored (m : ℕ → U8) (a : ℕ) : List Packet → Prop
  | [] => True
  | p :: ps => readCyclic rxBufferSize m a p.bytes.length = p.bytes ∧ Stored m (a + p.room) ps

theorem stored_mod {m : ℕ → U8} {a b : ℕ} {ps : List Packet}
    (h : a % rxBufferSize = b % rxBufferSize) : Stored m a ps ↔ Stored m b ps := by
  induction ps generalizing a b with
  | nil => rfl
  | cons p ps ih =>
      have hnext : (a + p.room) % rxBufferSize = (b + p.room) % rxBufferSize := by
        rw [Nat.add_mod, h, ← Nat.add_mod]
      rw [Stored, Stored, ih hnext, ← readCyclic_mod m a, h, readCyclic_mod]

theorem stored_append {m : ℕ → U8} {a : ℕ} {ps : List Packet} {p : Packet} (h : Stored m a ps)
    (hfits : used ps + p.room ≤ rxBufferSize) :
    Stored (writeCyclic rxBufferSize m (a + used ps) p.bytes) a (ps ++ [p]) := by
  have hlen : p.bytes.length ≤ p.room := p.length_bytes_le
  induction ps generalizing a with
  | nil => exact ⟨readCyclic_writeCyclic (by omega), trivial⟩
  | cons q ps ih =>
      obtain ⟨hq, hps⟩ := h
      have hqlen : q.bytes.length ≤ q.room := q.length_bytes_le
      rw [used_cons] at hfits ⊢
      refine ⟨?_, ?_⟩
      · rw [readCyclic_writeCyclic_ahead (by omega) (by omega)]
        exact hq
      · rw [← Nat.add_assoc]
        exact ih hps (by omega)

/-- The packets that have not been taken lie in the ring, from `start` up to the write position. -/
structure Layout (s : Sys) : Prop where
  initialized : s.nic.initialized = true
  start_lt : s.start < rxBufferSize
  start_mod : s.start % 4 = 0
  used_le : used s.pending ≤ rxBufferSize
  cbr_eq : s.nic.cbr.toNat = (s.start + used s.pending) % rxBufferSize
  stored : Stored s.nic.rxBuffer s.start s.pending

theorem layout_boot (m : ℕ → U8) : Layout (boot m) where
  initialized := rfl
  start_lt := Nat.succ_pos _
  start_mod := rfl
  used_le := Nat.zero_le _
  cbr_eq := rfl
  stored := trivial

theorem receive_frame (s : Nic) (maxLength : U16) : (rtl8139ReceivePacket s maxLength).2 =
    { s with capr := (rtl8139ReceivePacket s maxLength).2.capr } := by
  unfold rtl8139ReceivePacket
  dsimp only
  split_ifs <;> rfl

theorem layout_arrive {s : Sys} (h : Layout s) {p : Packet}
    (hfits : used s.pending + p.room ≤ rxBufferSize) :
    Layout { s with nic := s.nic.deposit p, pending := s.pending ++ [p] } where
  initialized := h.initialized
  start_lt := h.start_lt
  start_mod := h.start_mod
  used_le := by rwa [used_append]
  cbr_eq := by
    have hlt : (s.nic.cbr.toNat + p.room) % rxBufferSize < 2 ^ 16 :=
      (Nat.mod_lt _ (by decide)).trans (by decide)
    show (BitVec.ofNat 16 ((s.nic.cbr.toNat + p.room) % rxBufferSize)).toNat = _
    rw [BitVec.toNat_ofNat, Nat.mod_eq_of_lt hlt, h.cbr_eq, Nat.mod_add_mod, used_append,
      Nat.add_assoc]
  stored := by
    show Stored (writeCyclic rxBufferSize s.nic.rxBuffer s.nic.cbr.toNat p.bytes) s.start _
    rw [writeCyclic_of_mod_eq (b := s.start + used s.pending)
      (by rw [h.cbr_eq, Nat.mod_mod])]
    exact stored_append h.stored hfits

theorem Sys.take_nil {s : Sys} (h : s.pending = []) (maxLength : U16) : s.take maxLength = s := by
  unfold Sys.take
  rw [h]

theorem Sys.take_cons {s : Sys} {p : Packet} {ps : List Packet} (h : s.pending = p :: ps)
    (maxLength : U16) : s.take maxLength =
      { s with
        start := (s.start + p.room) % rxBufferSize
        pending := ps
        slips := if Slips p maxLength then s.slips + 1 else s.slips } := by
  unfold Sys.take
  rw [h]

theorem layout_take {s : Sys} (h : Layout s) (maxLength : U16) : Layout (s.take maxLength) := by
  cases hps : s.pending with
  | nil =>
      rw [Sys.take_nil hps]
      exact h
  | cons p ps =>
      obtain ⟨hinit, -, hmod, hused, hcbr, hstored⟩ := h
      have hroom : p.room % 4 = 0 := room_mod _
      rw [hps, used_cons] at hused hcbr
      rw [hps, Stored] at hstored
      rw [Sys.take_cons hps]
      refine ⟨hinit, Nat.mod_lt _ (by decide), ?_, ?_, ?_, ?_⟩
      · show (s.start + p.room) % 8192 % 4 = 0
        omega
      · exact (Nat.le_add_left _ _).trans hused
      · show s.nic.cbr.toNat = ((s.start + p.room) % rxBufferSize + used ps) % rxBufferSize
        rw [hcbr, Nat.mod_add_mod, Nat.add_assoc]
      · exact (stored_mod (Nat.mod_mod _ _)).mpr hstored.2

/-- **One step** keeps the layout, wherever the driver reads. -/
theorem layout_step {s s' : Sys} (h : Layout s) {op : Op} {r : Res}
    (hstep : step s op = some (r, s')) : Layout s' := by
  cases op with
  | arrive p =>
      simp only [step] at hstep
      split_ifs at hstep with hfits
      simp only [Option.some_inj, Prod.mk.injEq] at hstep
      exact hstep.2 ▸ layout_arrive h hfits
  | receive maxLength =>
      simp only [step, Option.some_inj, Prod.mk.injEq] at hstep
      obtain ⟨-, rfl⟩ := hstep
      have htake := layout_take h maxLength
      have hnic : (s.take maxLength).nic = s.nic := by
        unfold Sys.take
        split <;> rfl
      rw [receive_frame, ← hnic]
      exact { htake with }

/-! ## One call -/

def Nic.offset (s : Nic) : ℕ := (s.capr.toNat + 16) % rxBufferSize

theorem toNat_and_not_three (v : U32) : (v &&& ~~~3).toNat = v.toNat / 4 * 4 := by
  have hmask : (~~~3 : U32) = BitVec.allOnes 32 <<< 2 := by decide
  rw [hmask]
  exact toNat_and_allOnes_shiftLeft v 2

/-- The driver goes on by the room that the returned bytes would have taken. -/
theorem toNat_packetSize {length : U16} (h : length.toNat ≤ rxBufferSize) :
    (packetSize length).toNat = room length.toNat := by
  change _ ≤ 8192 at h
  have h₃ : (3 : U32).toNat = 3 := rfl
  have h₄ : (4 : U32).toNat = 4 := rfl
  have hlength : (length.setWidth 32).toNat = length.toNat := by
    rw [BitVec.toNat_setWidth]
    omega
  unfold packetSize room
  rw [BitVec.toNat_setWidth, BitVec.toNat_add, toNat_and_not_three, BitVec.toNat_add,
    BitVec.toNat_add, hlength, h₃, h₄]
  omega

/-- Moving `CAPR` moves the place where the driver reads, but 16 bytes less far. -/
theorem offset_advance (capr : U16) (size : ℕ) :
    ((BitVec.ofNat 16 ((capr.toNat + size) % rxBufferSize) - 16).toNat + 16) % rxBufferSize =
      ((capr.toNat + 16) % rxBufferSize + size + (rxBufferSize - 16)) % rxBufferSize := by
  have h₁₆ : (16 : U16).toNat = 16 := rfl
  show ((BitVec.ofNat 16 ((capr.toNat + size) % 8192) - 16).toNat + 16) % 8192 =
    ((capr.toNat + 16) % 8192 + size + 8176) % 8192
  generalize hc : (capr.toNat + size) % 8192 = c
  have hlt : c < 8192 := hc ▸ Nat.mod_lt _ (by decide)
  have hval : (BitVec.ofNat 16 c).toNat = c := by
    rw [BitVec.toNat_ofNat]
    omega
  have hback : ((BitVec.ofNat 16 c - 16).toNat + 16) % 8192 = c := by
    rw [BitVec.toNat_sub, hval, h₁₆]
    omega
  rw [hback]
  omega

theorem load16_eq {m : ℕ → U8} {i : ℕ} {v : U16} (hlo : m i = v.extractLsb' 0 8)
    (hhi : m (i + 1) = v.extractLsb' 8 8) : load16 m i = v := by
  rw [load16, hlo, hhi]
  rw [BitVec.extractLsb'_append_extractLsb'_eq_extractLsb' (show 8 = 0 + 8 from rfl)]
  exact BitVec.extractLsb'_eq_self

theorem toNat_cutTo (maxLength length : U16) :
    (cutTo maxLength length).toNat = min length.toNat maxLength.toNat := by
  unfold cutTo
  split_ifs with h
  · exact (Nat.min_eq_right (Nat.le_of_lt (BitVec.lt_def.mp h))).symm
  · exact (Nat.min_eq_left (Nat.le_of_not_lt fun h' => h (BitVec.lt_def.mpr h'))).symm

theorem read_packet {m : ℕ → U8} {a : ℕ} {p : Packet} (hmod : a % 4 = 0) (ha : a < rxBufferSize)
    (h : readCyclic rxBufferSize m a p.bytes.length = p.bytes) :
    load16 m a = p.status ∧ load16 m (a + 2) = BitVec.ofNat 16 (p.data.length + 4) ∧
      ∀ k ≤ p.data.length,
        readCyclic rxBufferSize m ((a + 4) % rxBufferSize) k = p.data.take k := by
  change a < 8192 at ha
  have hsplit : readCyclic rxBufferSize m a 4 ++ readCyclic rxBufferSize m (a + 4) (p.data.length + 4) =
      header p.status (BitVec.ofNat 16 (p.data.length + 4)) ++ (p.data ++ p.crc) := by
    rw [← readCyclic_add, ← List.append_assoc, ← Packet.bytes, ← h, p.length_bytes]
    congr 1
    omega
  obtain ⟨hheader, hrest⟩ := List.append_inj hsplit (by rw [length_readCyclic]; rfl)
  have hcell (i : ℕ) (hi : i < 4) : (a + i) % rxBufferSize = a + i :=
    Nat.mod_eq_of_lt (show a + i < 8192 by omega)
  have hcells : readCyclic rxBufferSize m a 4 = [m a, m (a + 1), m (a + 2), m (a + 3)] := by
    have h₀ : a % rxBufferSize = a := hcell 0 (by omega)
    simp [readCyclic, List.range_succ, hcell, h₀]
  rw [hcells, header] at hheader
  simp only [List.cons.injEq, and_true] at hheader
  obtain ⟨h₀, h₁, h₂, h₃⟩ := hheader
  refine ⟨load16_eq h₀ h₁, load16_eq h₂ h₃, fun k hk => ?_⟩
  rw [readCyclic_mod, ← take_readCyclic m (a + 4) (hk.trans (Nat.le_add_right _ 4)), hrest,
    List.take_append_of_le_length hk]

/-- A call with nothing to take: `CAPR` equals `CBR`, or the header has no status bit. -/
theorem receive_none {s : Nic} (hinit : s.initialized = true)
    (h : s.capr = s.cbr ∨ load16 s.rxBuffer s.offset &&& 0x01 = 0) (maxLength : U16) :
    rtl8139ReceivePacket s maxLength = ((0, []), s) := by
  have hoffset : (s.capr.toNat + 16) % rxBufferSize = s.offset := rfl
  unfold rtl8139ReceivePacket
  dsimp only
  rw [if_neg (by rw [hinit]; decide), hoffset]
  split_ifs with h₁ h₂
  · rfl
  · rfl
  · exact absurd h (not_or.mpr ⟨h₁, h₂⟩)

/-- A call that finds the status bit set takes what the length field says. -/
theorem receive_some {s : Nic} (hinit : s.initialized = true) (hne : s.capr ≠ s.cbr)
    (hstatus : load16 s.rxBuffer s.offset &&& 0x01 ≠ 0) {maxLength length : U16}
    (hlength : cutTo maxLength (load16 s.rxBuffer (s.offset + 2) - 4) = length) :
    rtl8139ReceivePacket s maxLength =
      ((length, readCyclic rxBufferSize s.rxBuffer ((s.offset + 4) % rxBufferSize) length.toNat),
        { s with capr :=
            BitVec.ofNat 16 ((s.capr.toNat + (packetSize length).toNat) % rxBufferSize) - 16 }) := by
  have hoffset : (s.capr.toNat + 16) % rxBufferSize = s.offset := rfl
  unfold rtl8139ReceivePacket
  dsimp only
  rw [if_neg (by rw [hinit]; decide), if_neg hne, hoffset, if_neg hstatus, hlength]

theorem offset_receive {s : Nic} (hinit : s.initialized = true) (hne : s.capr ≠ s.cbr)
    (hstatus : load16 s.rxBuffer s.offset &&& 0x01 ≠ 0) {maxLength length : U16}
    (hlength : cutTo maxLength (load16 s.rxBuffer (s.offset + 2) - 4) = length) :
    (rtl8139ReceivePacket s maxLength).2.offset =
      (s.offset + (packetSize length).toNat + (rxBufferSize - 16)) % rxBufferSize := by
  rw [receive_some hinit hne hstatus hlength]
  exact offset_advance s.capr _

section Head

variable {s : Sys} {p : Packet} {ps : List Packet} {maxLength : U16}

theorem room_le (h : Layout s) (hps : s.pending = p :: ps) :
    p.room + used ps ≤ rxBufferSize ∧ p.data.length + 8 ≤ rxBufferSize := by
  have hused := h.used_le
  have hroom := add_le_room p.data.length
  rw [hps, used_cons] at hused
  exact ⟨hused, hroom.trans ((Nat.le_add_right _ _).trans hused)⟩

/-- At the start of the oldest packet the driver finds its header. -/
theorem head_found (h : Layout s) (ha : s.Aligned) (hps : s.pending = p :: ps) (maxLength : U16) :
    load16 s.nic.rxBuffer s.nic.offset &&& 0x01 ≠ 0 ∧
      (cutTo maxLength (load16 s.nic.rxBuffer (s.nic.offset + 2) - 4)).toNat =
        min p.data.length maxLength.toNat := by
  have hle : p.data.length + 8 ≤ 8192 := (room_le h hps).2
  have hstored := h.stored
  rw [hps, Stored] at hstored
  obtain ⟨hstatus, hlength, -⟩ := read_packet h.start_mod h.start_lt hstored.1
  have hdata : (BitVec.ofNat 16 (p.data.length + 4) - 4 : U16).toNat = p.data.length := by
    have h₄ : (4 : U16).toNat = 4 := rfl
    rw [BitVec.toNat_sub, BitVec.toNat_ofNat, h₄]
    omega
  have hoffset : s.nic.offset = s.start := ha
  rw [hoffset, hstatus, hlength, toNat_cutTo, hdata]
  exact ⟨p.received, rfl⟩

/-- **The oldest packet.** A call that reads at its start returns it, cut to the length asked for. -/
theorem receive_head (h : Layout s) (ha : s.Aligned) (hps : s.pending = p :: ps)
    (hne : s.nic.capr ≠ s.nic.cbr) :
    Res.received (rtl8139ReceivePacket s.nic maxLength).1.1 (rtl8139ReceivePacket s.nic maxLength).1.2 =
      expected s.pending maxLength := by
  obtain ⟨hstatus, hlength⟩ := head_found h ha hps maxLength
  have hstored := h.stored
  rw [hps, Stored] at hstored
  obtain ⟨-, -, hdata⟩ := read_packet h.start_mod h.start_lt hstored.1
  have hoffset : s.nic.offset = s.start := ha
  rw [← hoffset] at hdata
  rw [receive_some h.initialized hne hstatus rfl, hps]
  have htake : p.data.take (min p.data.length maxLength.toNat) = p.data.take maxLength.toNat :=
    List.take_eq_take_iff.mpr (by omega)
  show Res.received _ _ = Res.received _ _
  rw [hlength, hdata _ (Nat.min_le_left _ _), htake, ← hlength, BitVec.ofNat_toNat,
    BitVec.setWidth_eq]

theorem receive_head_iff (h : Layout s) (ha : s.Aligned) (hps : s.pending = p :: ps) :
    Res.received (rtl8139ReceivePacket s.nic maxLength).1.1
        (rtl8139ReceivePacket s.nic maxLength).1.2 = expected s.pending maxLength ↔
      (s.nic.capr = s.nic.cbr → min p.data.length maxLength.toNat = 0) := by
  by_cases heq : s.nic.capr = s.nic.cbr
  · rw [receive_none h.initialized (.inl heq), hps]
    show Res.received 0 [] = Res.received _ _ ↔ _
    constructor
    · intro hres _
      have hlength := congrArg List.length (Res.received.inj hres).2
      rw [List.length_take, List.length_nil] at hlength
      omega
    · intro hzero
      have hnil : p.data.take maxLength.toNat = [] := by
        rw [← List.length_eq_zero_iff, List.length_take, Nat.min_comm]
        exact hzero heq
      rw [hzero heq, hnil]
      rfl
  · exact iff_of_true (receive_head h ha hps heq) fun h => absurd h heq

theorem slips_of_le (h : p.room ≤ rxBufferSize - 16) : Slips p maxLength := by
  have := add_le_room (min p.data.length maxLength.toNat)
  unfold Slips
  omega

/-- `CAPR` equals `CBR` at the start of the oldest packet when 16 bytes of the ring are free. -/
theorem used_of_eq (h : Layout s) (ha : s.Aligned) (heq : s.nic.capr = s.nic.cbr) :
    used s.pending = rxBufferSize - 16 := by
  have ha : (s.nic.capr.toNat + 16) % 8192 = s.start := ha
  have hcbr : s.nic.cbr.toNat = (s.start + used s.pending) % 8192 := h.cbr_eq
  have hle : used s.pending ≤ 8192 := h.used_le
  have hstart : s.start < 8192 := h.start_lt
  rw [heq, hcbr] at ha
  show used s.pending = 8192 - 16
  omega

/-- **Alignment.** Taking the oldest packet leaves the driver at the start of the next one exactly when
`CAPR` does not slip. -/
theorem aligned_head_iff (h : Layout s) (ha : s.Aligned) (hps : s.pending = p :: ps) :
    ({ s.take maxLength with nic := (rtl8139ReceivePacket s.nic maxLength).2 } : Sys).Aligned ↔
      ¬Slips p maxLength := by
  obtain ⟨hused, hdata⟩ := room_le h hps
  have hoffset : s.nic.offset = s.start := ha
  have hstart : s.start < 8192 := h.start_lt
  have hroom := add_le_room p.data.length
  change _ ≤ p.room at hroom
  change _ ≤ 8192 at hused
  rw [Sys.take_cons hps]
  show (rtl8139ReceivePacket s.nic maxLength).2.offset = (s.start + p.room) % rxBufferSize ↔ _
  by_cases heq : s.nic.capr = s.nic.cbr
  · -- the call takes the ring for empty and stays where it is
    have hall := used_of_eq h ha heq
    rw [hps, used_cons] at hall
    have hle : p.room ≤ rxBufferSize - 16 := by omega
    change _ ≤ 8192 - 16 at hle
    rw [receive_none h.initialized (.inl heq), hoffset]
    refine iff_of_false ?_ (not_not.mpr (slips_of_le hle))
    show ¬s.start = (s.start + p.room) % 8192
    omega
  · obtain ⟨hstatus, hlength⟩ := head_found h ha hps maxLength
    have hmono : room (min p.data.length maxLength.toNat) ≤ p.room :=
      room_mono (Nat.min_le_left _ _)
    have hcut : min p.data.length maxLength.toNat ≤ rxBufferSize := by omega
    rw [offset_receive h.initialized heq hstatus rfl, toNat_packetSize (hlength.trans_le hcut), hlength,
      hoffset, Slips, not_not]
    show (s.start + _ + (8192 - 16)) % 8192 = (s.start + p.room) % 8192 ↔ _ = _ + (8192 - 16)
    omega

/-- **An empty ring.** A call returns nothing and leaves `CAPR` alone exactly when it finds no status
bit. -/
theorem receive_empty_iff (h : Layout s) (ha : s.Aligned) (hps : s.pending = []) (maxLength : U16) :
    (Res.received (rtl8139ReceivePacket s.nic maxLength).1.1
        (rtl8139ReceivePacket s.nic maxLength).1.2 = expected s.pending maxLength ∧
      (rtl8139ReceivePacket s.nic maxLength).2 = s.nic) ↔ s.NoStatus := by
  have hoffset : s.nic.offset = s.start := ha
  unfold Sys.NoStatus
  rw [← hoffset]
  constructor
  · rintro ⟨hres, hnic⟩
    by_contra hstatus
    have hne : s.nic.capr ≠ s.nic.cbr := fun heq => by
      have hused := used_of_eq h ha heq
      rw [hps] at hused
      exact absurd hused (by decide)
    -- a length of 0 is returned, so the driver moves by the room of a header and a CRC
    rw [receive_some h.initialized hne hstatus rfl, hps] at hres
    have hzero := (Res.received.inj hres).1
    have hmoved := offset_receive h.initialized hne hstatus hzero
    have hsize : (packetSize 0).toNat = 8 := by decide
    have hstart : s.start < 8192 := h.start_lt
    rw [hnic, hoffset, hsize] at hmoved
    change s.start = (s.start + 8 + (8192 - 16)) % 8192 at hmoved
    omega
  · intro hstatus
    rw [receive_none h.initialized (.inr hstatus), hps]
    exact ⟨rfl, rfl⟩

end Head

/-! ## Runs -/

/-- The packets lie in the ring, and the driver reads at the start of the oldest one exactly when `CAPR`
has not slipped. -/
structure Inv (s : Sys) : Prop where
  layout : Layout s
  aligned_iff : s.Aligned ↔ s.slips = 0

theorem inv_boot (m : ℕ → U8) : Inv (boot m) :=
  ⟨layout_boot m, iff_of_true (show ((0xFFF0 : U16).toNat + 16) % 8192 = 0 by decide) rfl⟩

/-- **One step.** A call is in order exactly when it is a clear one. -/
theorem inOrder_iff {s s' : Sys} {op : Op} {r : Res} (h : Inv s) (hstep : step s op = some (r, s')) :
    InOrder s (op, r) ↔ Clear s (op, r) := by
  cases op with
  | arrive p => exact Iff.rfl
  | receive maxLength =>
      simp only [step, Option.some_inj, Prod.mk.injEq] at hstep
      obtain ⟨rfl, -⟩ := hstep
      show s.Aligned ∧ _ ∧ _ ↔ _
      rw [h.aligned_iff]
      refine and_congr_right fun hslips => ?_
      have ha : s.Aligned := h.aligned_iff.mpr hslips
      cases hps : s.pending with
      | nil =>
          rw [← receive_empty_iff h.layout ha hps maxLength, hps]
          simp
      | cons p ps =>
          show _ ↔ (s.nic.capr = s.nic.cbr → min p.data.length maxLength.toNat = 0)
          rw [← receive_head_iff h.layout ha hps, hps]
          simp

/-- **One step** in order keeps the invariant. -/
theorem inv_step {s s' : Sys} {op : Op} {r : Res} (h : Inv s) (hr : InOrder s (op, r))
    (hstep : step s op = some (r, s')) : Inv s' := by
  refine ⟨layout_step h.layout hstep, ?_⟩
  cases op with
  | arrive p =>
      simp only [step] at hstep
      split_ifs at hstep with hfits
      simp only [Option.some_inj, Prod.mk.injEq] at hstep
      exact hstep.2 ▸ h.aligned_iff
  | receive maxLength =>
      simp only [step, Option.some_inj, Prod.mk.injEq] at hstep
      obtain ⟨-, rfl⟩ := hstep
      obtain ⟨ha, -, hnil⟩ := hr
      have hslips := h.aligned_iff.mp ha
      cases hps : s.pending with
      | nil =>
          rw [hnil hps, Sys.take_nil hps]
          exact h.aligned_iff
      | cons p ps =>
          rw [aligned_head_iff h.layout ha hps, Sys.take_cons hps]
          by_cases hslip : Slips p maxLength
          · simp [hslip]
          · simp [hslip, hslips]

/-- **Exactness.** All calls of a run return the packets in order exactly when all are clear. -/
theorem inOrder_iff_clear {m : ℕ → U8} {es : List (Op × Res)} {t : Sys} (h : Run step (boot m) es t) :
    Along step InOrder (boot m) es ↔ Along step Clear (boot m) es :=
  h.along_iff_along (fun _ _ _ _ hs hr hstep => inv_step hs hr hstep)
    (fun _ _ _ _ hs hstep => inOrder_iff hs hstep) (inv_boot m)

/-- 60 bytes, the smallest frame. -/
def frame : Packet where
  status := 0x0001
  data := List.replicate 60 0x41
  crc := [0x9A, 0x3C, 0x57, 0x21]
  received := by decide
  length_crc := rfl

/-- Two frames have arrived. -/
def twoStored : Sys :=
  { boot (fun _ => 0) with
    nic := ((boot fun _ => 0).nic.deposit frame).deposit frame
    pending := [frame, frame] }

/-- The state after a call for up to 1514 bytes, and what the call returns. -/
def Sys.taken (s : Sys) : Sys :=
  { s.take 1514 with nic := (rtl8139ReceivePacket s.nic 1514).2 }

def Sys.returned (s : Sys) : Res :=
  .received (rtl8139ReceivePacket s.nic 1514).1.1 (rtl8139ReceivePacket s.nic 1514).1.2

/-- Two frames arrive and are taken. -/
def twoFrames : List (Op × Res) :=
  [(.arrive frame, .stored), (.arrive frame, .stored), (.receive 1514, twoStored.returned),
    (.receive 1514, twoStored.taken.returned)]

theorem step_receive (s : Sys) : step s (.receive 1514) = some (s.returned, s.taken) := rfl

theorem run_twoStored : Run step (boot fun _ => 0)
    [(.arrive frame, .stored), (.arrive frame, .stored)] twoStored :=
  .cons (step_arrive (by decide)) (.cons (step_arrive (by decide)) (.nil _))

theorem run_twoFrames : Run step (boot fun _ => 0) twoFrames twoStored.taken.taken :=
  run_twoStored.append (.cons (step_receive _) (.cons (step_receive _) (.nil _)))

/-- The second call reads 16 bytes before the second frame, takes `0x4141` for its length and returns
1514 bytes of nonsense. -/
theorem not_inOrder_twoFrames : Run step (boot fun _ => 0) twoFrames twoStored.taken.taken ∧
    (rtl8139ReceivePacket twoStored.taken.nic 1514).1.1 = 1514 ∧
    ¬Along step InOrder (boot fun _ => 0) twoFrames := by
  have hlength : (rtl8139ReceivePacket twoStored.taken.nic 1514).1.1 = 1514 := by decide +kernel
  refine ⟨run_twoFrames, hlength, fun ha => ?_⟩
  have hrun : Run step (boot fun _ => 0)
      [(.arrive frame, .stored), (.arrive frame, .stored), (.receive 1514, twoStored.returned)]
      twoStored.taken := run_twoStored.append (.cons (step_receive _) (.nil _))
  obtain ⟨-, hres, -⟩ := ha _ _ [] _ rfl hrun
  have h60 := (Res.received.inj hres).1
  rw [hlength] at h60
  exact absurd h60 (by decide)

theorem inOrder_twoFrames : Along step InOrder (boot fun _ => 0) twoFrames ↔
    Along step Clear (boot fun _ => 0) twoFrames :=
  inOrder_iff_clear run_twoFrames

end BloodKernel.Rtl8139
