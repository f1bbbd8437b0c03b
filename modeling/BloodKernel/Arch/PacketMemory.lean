import BloodKernel.Kernel.Types
import BloodKernel.Lib.Flat
import BloodKernel.Lib.Pack
import BloodKernel.Lib.Stride

set_option autoImplicit false

/-!
# Packets in the memory of a peripheral

`arch/esp32s3/wifi_stub.c` puts packets into a FIFO of words and takes them from one, and `arch/gd32vf103/usb_fs.c`
puts them into the packet memory of the USB controller, by halfwords.

* `wifiTxRaw`, `wifiRxRaw`; `wifi_round_trips`: what is sent comes back, for all packets that are sent.
* `usbWritePma`, `usbReadPma`: the loops, whose counter has 16 bits and goes in steps of two.
* **`packets_round_trip`**: what is sent, and what is put into the packet memory, comes back.
-/

namespace BloodKernel.PacketMemory

open Lib

/-! ## The words of the WLAN -/

/-- The registers of the MAC that a packet goes through, from `WIFI_MAC_BASE` on. -/
structure Mac where
  txControl : U32
  txLength : U32
  rxControl : U32
  rxLength : U32
  txFifo : ℕ → U32
  rxFifo : ℕ → U32

/-- The number of words of a packet. -/
def numWords (len : U16) : ℕ := (len.toNat + 3) / 4

/-- `wifi_tx_raw`. The wait for the transmitter to be ready changes nothing. -/
def wifiTxRaw (pkt : ℕ → U8) (len : U16) (mac : Mac) : Mac :=
  if len > 1500 then mac
  else
    { mac with
      txLength := len.setWidth 32
      txFifo := writeAt mac.txFifo 0 ((List.range (numWords len)).map (packWord 4 32 len.toNat pkt))
      txControl := 1 }

/-- `wifi_rx_raw`: the length that is returned, the packet, and the registers. -/
def wifiRxRaw (pkt : ℕ → U8) (maxLen : U16) (mac : Mac) : U16 × (ℕ → U8) × Mac :=
  if mac.rxControl &&& 1 = 0 then (0, pkt, mac)
  else
    let received : U16 := (mac.rxLength &&& 0xFFFF).setWidth 16
    let len := if received > maxLen then maxLen else received
    (len, unpackWords 4 len.toNat mac.rxFifo pkt (numWords len), { mac with rxControl := 1 })

/-- A packet is received as it has been sent: the receiver has its words, and its length. Nothing behind it is
changed. -/
def WifiRoundTrips (pkt : ℕ → U8) (len : U16) : Prop :=
  ∀ (tx rx : Mac) (buf : ℕ → U8) (maxLen : U16), len ≤ maxLen → rx.rxControl &&& 1 ≠ 0 →
    (∀ i < numWords len, rx.rxFifo i = (wifiTxRaw pkt len tx).txFifo i) →
    rx.rxLength = (wifiTxRaw pkt len tx).txLength →
      (wifiRxRaw buf maxLen rx).1 = len ∧
        (wifiRxRaw buf maxLen rx).2.1 = fun k => if k < len.toNat then pkt k else buf k

/-! ## The halfwords of the USB controller -/

/-- A halfword at an address. -/
def load16 (m : ℕ → U8) (a : ℕ) : U16 := packBytes 16 (fun j => m (a + j)) 2

def store16 (m : ℕ → U8) (a : ℕ) (v : U16) : ℕ → U8 := writeAt m a [byteAt v 0, byteAt v 1]

def pmaBase (addr : U16) : ℕ := 0x40006000 + addr.toNat

/-- The address of `pma[i >> 1]`. -/
def pma (addr i : U16) : ℕ := pmaBase addr + 2 * (i >>> 1).toNat

def usbHalfword (src : ℕ → U8) (len i : U16) : U16 :=
  if i.toNat + 1 < len.toNat then (src (i.toNat + 1)).setWidth 16 <<< 8 ||| (src i.toNat).setWidth 16
  else (src i.toNat).setWidth 16

/-- `usb_write_pma`, with at most `fuel` tests of the condition of its loop. -/
def usbWritePma (addr : U16) (src : ℕ → U8) (len : U16) (m : ℕ → U8) (fuel : ℕ) : Option (ℕ → U8) :=
  strideLoop 2 len (fun m i => store16 m (pma addr i) (usbHalfword src len i)) fuel 0 m

/-- `dst[i]`, and `dst[i + 1]` if it belongs to the packet. -/
def usbBytes (m : ℕ → U8) (addr len : U16) (dst : ℕ → U8) (i : U16) : ℕ → U8 :=
  let val := load16 m (pma addr i)
  let dst := Function.update dst i.toNat (byteAt val 0)
  if i.toNat + 1 < len.toNat then Function.update dst (i.toNat + 1) (byteAt val 1) else dst

/-- `usb_read_pma`. -/
def usbReadPma (addr : U16) (dst : ℕ → U8) (len : U16) (m : ℕ → U8) (fuel : ℕ) : Option (ℕ → U8) :=
  strideLoop 2 len (usbBytes m addr len) fuel 0 dst

/-- How much of a packet `usb_control_send` and `usb_control_recv` pass to the loops. -/
def chunk (len : U16) : U16 := if len > 64 then 64 else len

/-- Both loops end, and the packet comes back. -/
def UsbRoundTrips (addr : U16) (src : ℕ → U8) (len : U16) : Prop :=
  ∀ m dst : ℕ → U8, ∃ m' dst', (∃ fuel, usbWritePma addr src len m fuel = some m') ∧
    (∃ fuel, usbReadPma addr dst len m' fuel = some dst') ∧ dst' = fun k => if k < len.toNat then src k else dst k

variable {pkt src dst m : ℕ → U8} {len addr v : U16} {a b k n : ℕ}

/-! ## The WLAN -/

theorem wifi_round_trips (pkt : ℕ → U8) (len : U16) (hlen : len.toNat ≤ 1500) : WifiRoundTrips pkt len := by
  intro tx rx buf maxLen hmax hready hfifo hlength
  have hsends : ¬len > 1500 := BitVec.not_lt.mpr (BitVec.le_def.mpr hlen)
  unfold wifiTxRaw at hfifo hlength
  rw [if_neg hsends] at hfifo hlength
  have hreceived : (rx.rxLength &&& 0xFFFF).setWidth 16 = len := by
    have hwide : (len.setWidth 32).setWidth 16 = len := by simp
    have hmask : ((0xFFFF : U32)).setWidth 16 = BitVec.allOnes 16 := by decide
    rw [hlength, BitVec.setWidth_and, hmask, hwide, BitVec.and_allOnes]
  have hkept : (if len > maxLen then maxLen else len) = len := if_neg (BitVec.not_lt.mpr hmax)
  have hwords : ∀ i < numWords len, rx.rxFifo i = packWord 4 32 len.toNat pkt i := by
    intro i hi
    have hstored : i < ((List.range (numWords len)).map (packWord 4 32 len.toNat pkt)).length := by
      rwa [List.length_map, List.length_range]
    have hword := writeAt_add (m := tx.txFifo) (a := 0) hstored
    rw [Nat.zero_add, List.getElem_map, List.getElem_range] at hword
    exact (hfifo i hi).trans hword
  have hbytes : unpackWords 4 len.toNat rx.rxFifo buf (numWords len) =
      unpackWords 4 len.toNat (packWord 4 32 len.toNat pkt) buf (numWords len) :=
    unpackWords_congr hwords
  unfold wifiRxRaw
  rw [if_neg hready]
  dsimp only
  rw [hreceived, hkept, hbytes, unpackWords_packWord (by decide) (by decide) (by unfold numWords; omega)]
  exact ⟨rfl, rfl⟩

/-! ## The USB controller -/

theorem load16_store16 : load16 (store16 m a v) a = v := by
  have hbyte : ∀ j < 2, store16 m a v (a + j) = byteAt v j := by
    intro j hj
    have hlength : j < [byteAt v 0, byteAt v 1].length := hj
    refine (writeAt_add hlength).trans ?_
    match j, hj with
    | 0, _ => rfl
    | 1, _ => rfl
  exact (packBytes_congr hbyte).trans (packBytes_byteAt rfl)

theorem load16_store16_of_apart (h : a + 2 ≤ b ∨ b + 2 ≤ a) : load16 (store16 m a v) b = load16 m b := by
  refine packBytes_congr fun j hj => writeAt_of_not ?_
  show ¬(a ≤ b + j ∧ b + j < a + 2)
  omega

theorem toNat_counter (hn : 2 * n < 2 ^ 16) : (0 + BitVec.ofNat 16 n * 2 : U16).toNat = 2 * n := by
  have hzero : (0 : U16).toNat = 0 := rfl
  have htwo : (2 : U16).toNat = 2 := rfl
  rw [BitVec.toNat_add, BitVec.toNat_mul, BitVec.toNat_ofNat, hzero, htwo]
  omega

theorem pma_counter (hn : 2 * n < 2 ^ 16) :
    pma addr (0 + BitVec.ofNat 16 n * 2) = pmaBase addr + 2 * n := by
  unfold pma
  rw [BitVec.toNat_ushiftRight, toNat_counter hn, Nat.shiftRight_eq_div_pow]
  omega

theorem usbHalfword_counter (hn : 2 * n < len.toNat) :
    usbHalfword src len (0 + BitVec.ofNat 16 n * 2) = packWord 2 16 len.toNat src n := by
  have := len.isLt
  unfold usbHalfword packWord piece
  rw [toNat_counter (by omega)]
  split_ifs with hlast
  · rw [show min 2 (len.toNat - 2 * n) = 2 by omega, BitVec.or_comm]
    simp [packBytes]
  · rw [show min 2 (len.toNat - 2 * n) = 1 by omega]
    simp [packBytes]

theorem usbBytes_counter (hn : 2 * n < len.toNat) : usbBytes m addr len dst (0 + BitVec.ofNat 16 n * 2) =
    unpackBytes dst (2 * n) (load16 m (pmaBase addr + 2 * n)) (piece 2 len.toNat n) := by
  have := len.isLt
  unfold usbBytes piece
  rw [pma_counter (by omega), toNat_counter (by omega)]
  dsimp only
  split_ifs with hlast
  · rw [show min 2 (len.toNat - 2 * n) = 2 by omega]
    rfl
  · rw [show min 2 (len.toNat - 2 * n) = 1 by omega]
    rfl

/-- **The writing loop**: the halfwords of its turns are those of the packet. -/
theorem load16_written (hn : 2 * n ≤ len.toNat + 1) (hk : k < n) :
    load16 (strided 2 (fun m i => store16 m (pma addr i) (usbHalfword src len i)) (0 : U16) n m)
      (pmaBase addr + 2 * k) = packWord 2 16 len.toNat src k := by
  have := len.isLt
  induction n with
  | zero => exact absurd hk (Nat.not_lt_zero k)
  | succ n ih =>
      rw [strided_concat, pma_counter (by omega), usbHalfword_counter (by omega)]
      rcases Nat.lt_succ_iff_lt_or_eq.mp hk with hlt | rfl
      · rw [load16_store16_of_apart (by omega), ih (by omega) hlt]
      · exact load16_store16

/-- **The reading loop.** -/
theorem strided_usbBytes (hn : 2 * n ≤ len.toNat + 1) : strided 2 (usbBytes m addr len) (0 : U16) n dst =
    unpackWords 2 len.toNat (fun k => load16 m (pmaBase addr + 2 * k)) dst n := by
  induction n with
  | zero => rfl
  | succ n ih =>
      rw [strided_concat, ih (by omega), usbBytes_counter (by omega)]
      rfl

/-- A loop with a counter of 16 bits and a step of two ends unless its bound is the largest number. -/
theorem exists_strideLoop_two {σ : Type} {body : σ → U16 → σ} {s t : σ} :
    (∃ fuel, strideLoop 2 len body fuel 0 s = some t) ↔
      len ≠ 65535 ∧ t = strided 2 body (0 : U16) ((len.toNat + 1) / 2) s := by
  have hzero : (0 : U16).toNat = 0 := rfl
  have htwo : (2 : U16).toNat = 2 := rfl
  have hmax : len = 65535 ↔ len.toNat = 65535 := BitVec.toNat_inj.symm
  have hstrides : strides 0 2 len.toNat = (len.toNat + 1) / 2 := Nat.ceilDiv_eq_add_pred_div _ _
  have := len.isLt
  refine (exists_strideLoop_iff (by decide) (by decide)).trans ?_
  rw [hzero, htwo, hstrides, ne_eq, hmax]
  refine and_congr_left' ?_
  omega

theorem usb_round_trips_iff : UsbRoundTrips addr src len ↔ len ≠ 65535 := by
  constructor
  · intro h
    obtain ⟨m', -, hwrite, -⟩ := h 0 0
    exact (exists_strideLoop_two.mp hwrite).1
  · intro hlen m dst
    refine ⟨_, _, exists_strideLoop_two.mpr ⟨hlen, rfl⟩, exists_strideLoop_two.mpr ⟨hlen, rfl⟩, ?_⟩
    rw [strided_usbBytes (by omega), unpackWords_congr fun k hk => load16_written (by omega) hk,
      unpackWords_packWord (by decide) (by decide) (by omega)]

theorem chunk_le (len : U16) : (chunk len).toNat ≤ 64 := by
  unfold chunk
  split_ifs with hmore
  · rfl
  · exact BitVec.le_def.mp (BitVec.not_lt.mp hmore)

/-- **What comes back.** A packet that is sent is received as it was, with every length, and so is a packet that is
put into the memory of the USB controller, at every address and with every length below the largest of 16 bits. No
caller passes this one: the memory has 512 bytes, and a `chunk` at most 64. -/
theorem packets_round_trip (pkt : ℕ → U8) (len : U16) (hlen : len.toNat ≤ 1500) (addr : U16) (src : ℕ → U8)
    (usbLen : U16) (husb : usbLen.toNat < 65535) : WifiRoundTrips pkt len ∧ UsbRoundTrips addr src usbLen :=
  ⟨wifi_round_trips pkt len hlen, usb_round_trips_iff.mpr fun hmax => by
    rw [hmax] at husb
    exact absurd husb (by decide)⟩

/-- A packet of five bytes, one of seven, and what is sent of a packet of 100 bytes. -/
theorem packets_round_trip_five : WifiRoundTrips (fun k => BitVec.ofNat 8 k) 5 ∧
    UsbRoundTrips 64 (fun k => BitVec.ofNat 8 k) 7 ∧
    UsbRoundTrips 64 (fun k => BitVec.ofNat 8 (k + 1)) (chunk 100) := by
  have hsmall := packets_round_trip (fun k => BitVec.ofNat 8 k) 5 (by decide) 64 (fun k => BitVec.ofNat 8 k) 7
    (by decide)
  have hlarge := packets_round_trip (fun k => BitVec.ofNat 8 k) 5 (by decide) 64 (fun k => BitVec.ofNat 8 (k + 1))
    (chunk 100) (lt_of_le_of_lt (chunk_le 100) (by decide))
  exact ⟨hsmall.1, hsmall.2, hlarge.2⟩

end BloodKernel.PacketMemory
