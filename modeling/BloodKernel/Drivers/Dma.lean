import BloodKernel.Kernel.Types
import BloodKernel.Lib.Window
import Mathlib.Tactic.FinCases

set_option autoImplicit false

/-!
# The 8237A DMA controllers

`drivers/dma.c` programs the pair of controllers through port writes. `Dmac` is what the pair keeps
of them: for each channel a page, an address and a count register, and for each controller the
flip-flop that says which byte of a 16-bit register is written next.

* `dmaSetupChannel`: the port writes of one request; `Dmac.touched`: what a transfer moves.
* `setup_registers`: the registers after a request, whatever the flip-flops were before it.
* **`moves_iff_fits`**: the transfer moves the requested bytes exactly when they lie in one 64 KiB
  page (8-bit channels) or in the first 128 KiB of memory (16-bit channels).
-/

namespace BloodKernel.Dma

open Lib

/-! ## The controllers -/

/-- What a write to a port reaches. Controller `0` has the channels 0 to 3. -/
inductive Target
  | addr (c : Fin 8)
  | count (c : Fin 8)
  | page (c : Fin 8)
  | mode (k : Fin 2)
  | mask (k : Fin 2)
  | clearFf (k : Fin 2)
  | other
  deriving DecidableEq

/-- The port map of the PC. -/
def decode (port : U16) : Target :=
  match port.toNat with
  | 0x00 => .addr 0 | 0x02 => .addr 1 | 0x04 => .addr 2 | 0x06 => .addr 3
  | 0xC0 => .addr 4 | 0xC4 => .addr 5 | 0xC8 => .addr 6 | 0xCC => .addr 7
  | 0x01 => .count 0 | 0x03 => .count 1 | 0x05 => .count 2 | 0x07 => .count 3
  | 0xC2 => .count 4 | 0xC6 => .count 5 | 0xCA => .count 6 | 0xCE => .count 7
  | 0x87 => .page 0 | 0x83 => .page 1 | 0x81 => .page 2 | 0x82 => .page 3
  | 0x8F => .page 4 | 0x8B => .page 5 | 0x89 => .page 6 | 0x8A => .page 7
  | 0x0A => .mask 0 | 0x0B => .mode 0 | 0x0C => .clearFf 0
  | 0xD4 => .mask 1 | 0xD6 => .mode 1 | 0xD8 => .clearFf 1
  | _ => .other

/-- The registers of one channel. -/
structure Regs where
  page : U8
  addr : U16
  count : U16
  mode : U8
  masked : Bool

/-- The registers of the eight channels, and whether the high byte is written next. -/
structure Dmac where
  high : Fin 2 → Bool
  regs : Fin 8 → Regs

/-- The controller of a channel. -/
def unit (c : Fin 8) : Fin 2 := if c < 4 then 0 else 1

/-- The channel of a controller that the low two bits of a mode or mask byte select. -/
def selected (k : Fin 2) (v : U8) : Fin 8 := Fin.ofNat 8 (4 * k + (v &&& 3).toNat)

/-- Write one byte of a 16-bit register. -/
def setByte (high : Bool) (r : U16) (v : U8) : U16 :=
  if high then v ++ r.extractLsb' 0 8 else r.extractLsb' 8 8 ++ v

/-- Change the registers of one channel. -/
def Dmac.modify (d : Dmac) (c : Fin 8) (f : Regs → Regs) : Dmac :=
  { d with regs := Function.update d.regs c (f (d.regs c)) }

/-- Set the flip-flop of one controller. -/
def Dmac.setFf (d : Dmac) (k : Fin 2) (high : Bool) : Dmac :=
  { d with high := Function.update d.high k high }

/-- The pair reacts to a port write. -/
def Dmac.outb (d : Dmac) (w : U16 × U8) : Dmac :=
  match decode w.1 with
  | .addr c =>
      (d.modify c fun r => { r with addr := setByte (d.high (unit c)) r.addr w.2 }).setFf (unit c)
        (!d.high (unit c))
  | .count c =>
      (d.modify c fun r => { r with count := setByte (d.high (unit c)) r.count w.2 }).setFf (unit c)
        (!d.high (unit c))
  | .page c => d.modify c fun r => { r with page := w.2 }
  | .mode k => d.modify (selected k w.2) fun r => { r with mode := w.2 }
  | .mask k => d.modify (selected k w.2) fun r => { r with masked := w.2.getLsbD 2 }
  | .clearFf k => d.setFf k false
  | .other => d

/-- The pair after some port writes. -/
def Dmac.run (d : Dmac) (ws : List (U16 × U8)) : Dmac := ws.foldl Dmac.outb d

/-- The byte addresses a transfer of channel `c` moves: bytes from `page * 0x10000 + addr` on for
the channels 0 to 3, words from `(page & 0xFE) * 0x10000 + 2 * addr` on for the others. The address
register wraps, the page register stays. -/
def Dmac.touched (d : Dmac) (c : Fin 8) : Finset ℕ :=
  let r := d.regs c
  if c < 4 then window (r.page.toNat * 0x10000) r.addr.toNat 0x10000 (r.count.toNat + 1)
  else
    window ((r.page &&& 0xFE).toNat * 0x10000) (2 * r.addr.toNat) 0x20000 (2 * (r.count.toNat + 1))

/-! ## The driver -/

/-- The record the driver keeps of a channel. -/
structure Channel where
  address : U32
  count : U16
  mode : U8
  inUse : Bool

def dmaAddrPorts : Vector U16 8 :=
  #v[0x00, 0x02, 0x04, 0x06, 0xC0, 0xC4, 0xC8, 0xCC]

def dmaCountPorts : Vector U16 8 :=
  #v[0x01, 0x03, 0x05, 0x07, 0xC2, 0xC6, 0xCA, 0xCE]

def dmaPagePorts : Vector U16 8 :=
  #v[0x87, 0x83, 0x81, 0x82, 0x8F, 0x8B, 0x89, 0x8A]

/-- The low byte of a word, as the argument of `outb`. -/
def byte {w : ℕ} (v : BitVec w) : U8 := (v &&& 0xFF).setWidth 8

/-- The writes of `dma_mask_channel`. -/
def dmaMaskChannel (channel : U8) : List (U16 × U8) :=
  if 8 ≤ channel.toNat then []
  else if channel.toNat < 4 then [(0x0A, 0x04 ||| (channel &&& 3))]
  else [(0xD4, 0x04 ||| (channel &&& 3))]

/-- `dma_setup_channel`: the new records and the port writes. -/
def dmaSetupChannel (channels : Fin 8 → Channel) (channel : U8) (address : U32) (count : U16)
    (mode : U8) : (Fin 8 → Channel) × List (U16 × U8) :=
  if h : 8 ≤ channel.toNat ∨ channel.toNat = 4 then (channels, [])
  else
    let c : Fin 8 := ⟨channel.toNat, by omega⟩
    let channels' := Function.update channels c
      { channels c with address := address, count := count, mode := mode }
    if channel.toNat < 4 then
      (channels', dmaMaskChannel channel ++
        [(0x0C, 0), (0x0B, (channel &&& 3) ||| mode),
          (dmaAddrPorts[c], byte address), (dmaAddrPorts[c], byte (address >>> 8)),
          (dmaPagePorts[c], byte (address >>> 16)),
          (dmaCountPorts[c], byte (count - 1)), (dmaCountPorts[c], byte ((count - 1) >>> 8))])
    else
      -- the address and the count are in words; the page is taken from the word address too
      let address := address >>> 1
      let count := count >>> 1
      (channels', dmaMaskChannel channel ++
        [(0xD8, 0), (0xD6, (channel &&& 3) ||| mode),
          (dmaAddrPorts[c], byte address), (dmaAddrPorts[c], byte (address >>> 8)),
          (dmaPagePorts[c], byte (address >>> 16)),
          (dmaCountPorts[c], byte (count - 1)), (dmaCountPorts[c], byte ((count - 1) >>> 8))])

/-! ## The registers after a request -/

theorem decode_addr (c : Fin 8) : decode dmaAddrPorts[c] = .addr c := by
  fin_cases c <;> rfl

theorem decode_count (c : Fin 8) : decode dmaCountPorts[c] = .count c := by
  fin_cases c <;> rfl

theorem decode_page (c : Fin 8) : decode dmaPagePorts[c] = .page c := by
  fin_cases c <;> rfl

theorem outb_addr (d : Dmac) (c : Fin 8) (v : U8) :
    d.outb (dmaAddrPorts[c], v) =
      (d.modify c fun r => { r with addr := setByte (d.high (unit c)) r.addr v }).setFf (unit c)
        (!d.high (unit c)) := by
  unfold Dmac.outb
  rw [decode_addr]

theorem outb_count (d : Dmac) (c : Fin 8) (v : U8) :
    d.outb (dmaCountPorts[c], v) =
      (d.modify c fun r => { r with count := setByte (d.high (unit c)) r.count v }).setFf (unit c)
        (!d.high (unit c)) := by
  unfold Dmac.outb
  rw [decode_count]

theorem outb_page (d : Dmac) (c : Fin 8) (v : U8) :
    d.outb (dmaPagePorts[c], v) = d.modify c fun r => { r with page := v } := by
  unfold Dmac.outb
  rw [decode_page]

@[simp] theorem Dmac.modify_high (d : Dmac) (c : Fin 8) (f : Regs → Regs) :
    (d.modify c f).high = d.high := rfl

@[simp] theorem Dmac.modify_self (d : Dmac) (c : Fin 8) (f : Regs → Regs) :
    (d.modify c f).regs c = f (d.regs c) := Function.update_self _ _ _

@[simp] theorem Dmac.setFf_regs (d : Dmac) (k : Fin 2) (b : Bool) : (d.setFf k b).regs = d.regs := rfl

@[simp] theorem Dmac.setFf_self (d : Dmac) (k : Fin 2) (b : Bool) : (d.setFf k b).high k = b :=
  Function.update_self _ _ _

theorem byte_eq {w : ℕ} (hw : 8 ≤ w) (v : BitVec w) : byte v = v.setWidth 8 := by
  have h : 255 < 2 ^ w := (by decide : 255 < 2 ^ 8).trans_le (Nat.pow_le_pow_right (by decide) hw)
  apply BitVec.eq_of_toNat_eq
  rw [byte, BitVec.toNat_setWidth, BitVec.toNat_and, BitVec.toNat_setWidth]
  show (v.toNat &&& (BitVec.ofNat w 255).toNat) % 2 ^ 8 = v.toNat % 2 ^ 8
  rw [BitVec.toNat_ofNat, Nat.mod_eq_of_lt h, Nat.and_two_pow_sub_one_eq_mod _ 8, Nat.mod_mod]

theorem setByte_setByte {w : ℕ} (hw : 16 ≤ w) (r : U16) (v : BitVec w) :
    setByte true (setByte false r (byte v)) (byte (v >>> 8)) = v.setWidth 16 := by
  rw [byte_eq (by omega), byte_eq (by omega)]
  show (v >>> 8).setWidth 8 ++ (r.extractLsb' 8 8 ++ v.setWidth 8).extractLsb' 0 8 = v.setWidth 16
  rw [BitVec.extractLsb'_append_eq_right]
  ext i hi
  simp
  grind

/-- The seven writes that follow the mask, with the flip-flop of the channel cleared first, set its
three registers. -/
theorem run_setup (d : Dmac) (c : Fin 8) {ff mp : U16} (hff : decode ff = .clearFf (unit c))
    {k : Fin 2} (hmp : decode mp = .mode k) (m : U8) (a : U32) (n : U16) :
    let r := (d.run [(ff, 0), (mp, m), (dmaAddrPorts[c], byte a), (dmaAddrPorts[c], byte (a >>> 8)),
      (dmaPagePorts[c], byte (a >>> 16)), (dmaCountPorts[c], byte n),
      (dmaCountPorts[c], byte (n >>> 8))]).regs c
    r.page = (a >>> 16).setWidth 8 ∧ r.addr = a.setWidth 16 ∧ r.count = n := by
  have hclear : d.outb (ff, 0) = d.setFf (unit c) false := by
    unfold Dmac.outb
    rw [hff]
  have hmode (d' : Dmac) : d'.outb (mp, m) = d'.modify (selected k m) fun r => { r with mode := m } := by
    unfold Dmac.outb
    rw [hmp]
  have hn : n.setWidth 16 = n := BitVec.setWidth_eq n
  simp only [Dmac.run, List.foldl_cons, List.foldl_nil, hclear, hmode, outb_addr, outb_page,
    outb_count, Dmac.setFf_regs, Dmac.modify_self, Dmac.setFf_self, Dmac.modify_high, Bool.not_false,
    Bool.not_true]
  rw [setByte_setByte (by decide), setByte_setByte (by decide), byte_eq (by decide)]
  exact ⟨rfl, rfl, hn⟩

/-- The registers after a request that is not refused: `a` and `n` are the address and the count in
the units of the channel. -/
theorem setup_registers (d : Dmac) (channels : Fin 8 → Channel) {channel : U8} (address : U32)
    (count : U16) (mode : U8) {c : Fin 8} (hc : (c : ℕ) = channel.toNat) (h4 : channel.toNat ≠ 4) :
    let ws := (dmaSetupChannel channels channel address count mode).2
    let a := if c < 4 then address else address >>> 1
    let n := if c < 4 then count else count >>> 1
    ws ≠ [] ∧ ((d.run ws).regs c).page = (a >>> 16).setWidth 8 ∧
      ((d.run ws).regs c).addr = a.setWidth 16 ∧ ((d.run ws).regs c).count = n - 1 := by
  have h8 : ¬(8 ≤ channel.toNat ∨ channel.toNat = 4) := by omega
  have hfin : (⟨channel.toNat, by omega⟩ : Fin 8) = c := Fin.ext hc.symm
  by_cases hlt : channel.toNat < 4
  · have hunit : unit c = 0 := if_pos (Fin.lt_def.mpr (hc ▸ hlt))
    have hff : decode 0x0C = .clearFf (unit c) := by rw [hunit]; rfl
    have hc4 : c < 4 := Fin.lt_def.mpr (hc ▸ hlt)
    simp only [dmaSetupChannel, dif_neg h8, if_pos hlt, if_pos hc4, hfin]
    refine ⟨by simp, ?_⟩
    rw [Dmac.run, List.foldl_append]
    exact run_setup _ c hff rfl _ _ _
  · have hc4 : ¬c < 4 := fun h => hlt (hc ▸ Fin.lt_def.mp h)
    have hff : decode 0xD8 = .clearFf (unit c) := by rw [unit, if_neg hc4]; rfl
    simp only [dmaSetupChannel, dif_neg h8, if_neg hlt, if_neg hc4, hfin]
    refine ⟨by simp, ?_⟩
    rw [Dmac.run, List.foldl_append]
    exact run_setup _ c hff rfl _ _ _

/-! ## What a transfer moves -/

section Requests

variable (d : Dmac) (channels : Fin 8 → Channel) (channel : U8) (address : U32) (count : U16)
  (mode : U8)

/-- The call refuses the request, or a transfer after it moves exactly the requested bytes. -/
def Moves : Prop :=
  let ws := (dmaSetupChannel channels channel address count mode).2
  ws = [] ∨ ∀ c : Fin 8, (c : ℕ) = channel.toNat →
    (d.run ws).touched c = Finset.Ico address.toNat (address.toNat + count.toNat)

/-- An 8-bit transfer stays in one 64 KiB page, a 16-bit transfer in the first 128 KiB. -/
def Fits : Prop :=
  (channel.toNat < 4 → address.toNat % 0x10000 + count.toNat ≤ 0x10000) ∧
    (5 ≤ channel.toNat → channel.toNat < 8 → address.toNat + count.toNat ≤ 0x20000)

variable {channel address count}

theorem touched_of_lt (h : channel.toNat < 4) (ha : address.toNat < 2 ^ 24) (hn : 0 < count.toNat)
    {c : Fin 8} (hc : (c : ℕ) = channel.toNat) :
    (d.run (dmaSetupChannel channels channel address count mode).2).touched c =
      window (address.toNat / 0x10000 * 0x10000) (address.toNat % 0x10000) 0x10000 count.toNat := by
  obtain ⟨-, hp, hr, hk⟩ := setup_registers d channels address count mode hc (by omega)
  have hc4 : c < 4 := Fin.lt_def.mpr (hc ▸ h)
  have hcount : (count - 1).toNat + 1 = count.toNat := by
    have h1 : (1 : U16).toNat = 1 := rfl
    have := count.isLt
    rw [BitVec.toNat_sub, h1]
    omega
  rw [Dmac.touched, if_pos hc4, hp, hr, hk, if_pos hc4, if_pos hc4, hcount, BitVec.toNat_setWidth,
    BitVec.toNat_setWidth, BitVec.toNat_ushiftRight, Nat.shiftRight_eq_div_pow,
    Nat.mod_eq_of_lt (a := address.toNat / 2 ^ 16) (by omega)]

theorem toNat_and_fe (v : U8) : (v &&& 0xFE).toNat = 2 * (v.toNat / 2) := by
  revert v
  decide

/-- A 16-bit transfer starts at its offset in a 128 KiB page, but in the page that bits 18 to 23 of
the address name. -/
theorem touched_of_le (h : 5 ≤ channel.toNat) (h8 : channel.toNat < 8) (ha : address.toNat < 2 ^ 24)
    (hn : 0 < count.toNat) (hea : 2 ∣ address.toNat) (hen : 2 ∣ count.toNat) {c : Fin 8}
    (hc : (c : ℕ) = channel.toNat) :
    (d.run (dmaSetupChannel channels channel address count mode).2).touched c =
      window (address.toNat / 0x40000 * 0x20000) (address.toNat % 0x20000) 0x20000 count.toNat := by
  obtain ⟨-, hp, hr, hk⟩ := setup_registers d channels address count mode hc (by omega)
  have hc4 : ¬c < 4 := fun hlt => by
    have : (c : ℕ) < 4 := Fin.lt_def.mp hlt
    omega
  have hcount : 2 * ((count >>> 1 - 1).toNat + 1) = count.toNat := by
    have h1 : (1 : U16).toNat = 1 := rfl
    have := count.isLt
    rw [BitVec.toNat_sub, BitVec.toNat_ushiftRight, Nat.shiftRight_eq_div_pow, h1]
    omega
  have hpage : ((((address >>> 1) >>> 16).setWidth 8 : U8) &&& 0xFE).toNat * 0x10000 =
      address.toNat / 0x40000 * 0x20000 := by
    rw [toNat_and_fe, BitVec.toNat_setWidth, BitVec.toNat_ushiftRight, BitVec.toNat_ushiftRight,
      Nat.shiftRight_eq_div_pow, Nat.shiftRight_eq_div_pow]
    omega
  have haddr : 2 * ((address >>> 1).setWidth 16 : U16).toNat = address.toNat % 0x20000 := by
    rw [BitVec.toNat_setWidth, BitVec.toNat_ushiftRight, Nat.shiftRight_eq_div_pow]
    omega
  rw [Dmac.touched, if_neg hc4, hp, hr, hk, if_neg hc4, if_neg hc4, hpage, haddr, hcount]

/-- The page named by bits 18 to 23 lies below an address from 128 KiB on. -/
theorem not_mem_window {a k : ℕ} (h : 0x20000 ≤ a) :
    a ∉ window (a / 0x40000 * 0x20000) (a % 0x20000) 0x20000 k := by
  intro hmem
  have := lt_of_mem_window (by omega) hmem
  omega

/-- **Exactness.** A request is carried out as asked exactly when it fits. -/
theorem moves_iff_fits (hc : channel ≠ 4) (ha : address.toNat < 2 ^ 24) (hn : 0 < count.toNat)
    (heven : 5 ≤ channel.toNat → channel.toNat < 8 → 2 ∣ address.toNat ∧ 2 ∣ count.toNat) :
    Moves d channels channel address count mode ↔ Fits channel address count := by
  have h4 : channel.toNat ≠ 4 := fun h => hc (BitVec.eq_of_toNat_eq h)
  unfold Moves Fits
  by_cases h8 : 8 ≤ channel.toNat
  · -- there is no such channel: the call returns at once
    refine iff_of_true (.inl ?_) ⟨fun _ => by omega, fun _ _ => by omega⟩
    rw [dmaSetupChannel, dif_pos (.inl h8)]
  · obtain ⟨c, hcc⟩ : ∃ c : Fin 8, (c : ℕ) = channel.toNat := ⟨⟨channel.toNat, by omega⟩, rfl⟩
    have hne := (setup_registers d channels address count mode hcc h4).1
    have huniq : ∀ c' : Fin 8, (c' : ℕ) = channel.toNat → c' = c :=
      fun c' h => Fin.ext (h.trans hcc.symm)
    have hall (P : Fin 8 → Prop) : (∀ c' : Fin 8, (c' : ℕ) = channel.toNat → P c') ↔ P c :=
      ⟨fun h => h c hcc, fun h c' hc' => huniq c' hc' ▸ h⟩
    rw [or_iff_right hne, hall]
    by_cases hlt : channel.toNat < 4
    · rw [touched_of_lt d channels mode hlt ha hn hcc]
      have hsplit : address.toNat / 0x10000 * 0x10000 + address.toNat % 0x10000 = address.toNat := by
        omega
      rw [window_eq_iff (by omega) hsplit]
      exact ⟨fun h => ⟨fun _ => h, fun _ _ => by omega⟩, fun h => h.1 hlt⟩
    · have h5 : 5 ≤ channel.toNat := by omega
      obtain ⟨hea, hen⟩ := heven h5 (by omega)
      rw [touched_of_le d channels mode h5 (by omega) ha hn hea hen hcc]
      by_cases hlow : address.toNat < 0x20000
      · have hsplit : address.toNat / 0x40000 * 0x20000 + address.toNat % 0x20000 = address.toNat := by
          omega
        rw [window_eq_iff (by omega) hsplit, Nat.mod_eq_of_lt hlow]
        exact ⟨fun h => ⟨fun _ => by omega, fun _ _ => h⟩, fun h => h.2 h5 (by omega)⟩
      · -- the page register names a page below the one of the address
        refine iff_of_false (fun h => ?_) fun h => ?_
        · have hmem : address.toNat ∈ Finset.Ico address.toNat (address.toNat + count.toNat) :=
            Finset.left_mem_Ico.mpr (by omega)
          rw [← h] at hmem
          exact not_mem_window (by omega) hmem
        · have := h.2 h5 (by omega)
          omega

/-- A DMA pair with every register and flip-flop in some state. -/
def someDmac : Dmac where
  high := fun _ => true
  regs := fun _ => { page := 0xAA, addr := 0x1234, count := 7, mode := 0x40, masked := false }

/-- The records of a driver that has set up nothing yet. -/
def noChannels : Fin 8 → Channel := fun _ => { address := 0, count := 0, mode := 0, inUse := false }

/-- A buffer of 4 KiB at 1 MiB, on the 16-bit channel 5, is not moved. -/
theorem not_moves_buffer : ¬Moves someDmac noChannels 5 0x100000 0x1000 0x48 := by
  have hc : ((5 : Fin 8) : ℕ) = (5 : U8).toNat := rfl
  rintro (hnil | h)
  · exact (setup_registers someDmac noChannels _ _ _ hc (by decide)).1 hnil
  · have hmem : (0x100000 : U32).toNat ∈
        Finset.Ico (0x100000 : U32).toNat ((0x100000 : U32).toNat + (0x1000 : U16).toNat) :=
      Finset.left_mem_Ico.mpr (by decide)
    rw [← h 5 hc, touched_of_le someDmac noChannels 0x48 (by decide) (by decide) (by decide)
      (by decide) (by decide) (by decide) hc] at hmem
    exact not_mem_window (by decide) hmem

/-- A 512-byte sector at 4 KiB, on channel 2. -/
theorem moves_floppy_sector :
    Moves someDmac noChannels 2 0x1000 0x200 0x46 ↔ Fits 2 0x1000 0x200 :=
  moves_iff_fits someDmac noChannels 0x46 (by decide) (by decide) (by decide)
    fun h => absurd h (by decide)

end Requests

end BloodKernel.Dma
