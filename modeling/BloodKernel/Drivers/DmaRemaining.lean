import BloodKernel.Drivers.Dma

set_option autoImplicit false

/-!
# What is left of a DMA transfer

`dma_get_remaining_count` of `drivers/dma.c`: the count register of the channel is read back, low byte
first. A transfer lowers it by one for each unit that it moves; an 8-bit channel moves bytes, a 16-bit one
words.

* `Dmac.inb`, `dmaGetRemainingCount`: the read;
* `remaining_eq`: what the call returns, by the register;
* **`reports_remaining_iff`**: the 8-bit channels return the bytes that are left, the others return one
  byte too few.
-/

namespace BloodKernel.Dma

/-- One byte of a 16-bit register. -/
def getByte (high : Bool) (r : U16) : U8 := if high then r.extractLsb' 8 8 else r.extractLsb' 0 8

/-- The pair is read at a port. The driver reads the count registers only. -/
def Dmac.inb (d : Dmac) (port : U16) : U8 × Dmac :=
  match decode port with
  | .count c => (getByte (d.high (unit c)) (d.regs c).count, d.setFf (unit c) (!d.high (unit c)))
  | _ => (0xFF, d)

theorem channel_lt {channel : U8} (h : ¬(8 ≤ channel.toNat ∨ channel.toNat = 4)) : channel.toNat < 8 := by omega

def dmaGetRemainingCount (d : Dmac) (channel : U8) : U16 × Dmac :=
  if h : 8 ≤ channel.toNat ∨ channel.toNat = 4 then (0, d)
  else
    let c : Fin 8 := ⟨channel.toNat, channel_lt h⟩
    let d := d.outb (if channel.toNat < 4 then 0x0C else 0xD8, 0)
    let low := d.inb (dmaCountPorts.get c)
    let high := low.2.inb (dmaCountPorts.get c)
    let count : U16 := low.1.setWidth 16 ||| (high.1.setWidth 16 <<< 8)
    -- words, in bytes
    let count := if channel.toNat < 4 then count else count <<< 1
    (count + 1, high.2)

def unitBytes (channel : U8) : ℕ := if channel.toNat < 4 then 1 else 2

/-- From `d` to `d'` the pair has moved `t` units of channel `c`, which it counts down. The other registers
and the flip-flops may have changed in any way. -/
def Transferred (d d' : Dmac) (c : Fin 8) (t : ℕ) : Prop :=
  (d'.regs c).count = (d.regs c).count - BitVec.ofNat 16 t

/-! ## The register that is read -/

variable {d d' : Dmac} {channel : U8} {count : U16} {c : Fin 8}

theorem inb_count (d : Dmac) (c : Fin 8) :
    d.inb (dmaCountPorts.get c) =
      (getByte (d.high (unit c)) (d.regs c).count, d.setFf (unit c) (!d.high (unit c))) := by
  have hdecode : decode (dmaCountPorts.get c) = .count c := decode_count c
  unfold Dmac.inb
  rw [hdecode]

theorem getByte_getByte (r : U16) :
    ((getByte false r).setWidth 16 ||| ((getByte true r).setWidth 16 <<< 8) : U16) = r := by
  unfold getByte
  ext i hi
  simp
  grind

/-- **The register, and one.** The flip-flop is cleared before the bytes are read. -/
theorem remaining_eq (hc : (c : ℕ) = channel.toNat) (h4 : channel.toNat ≠ 4) (d : Dmac) :
    (dmaGetRemainingCount d channel).1 =
      (if channel.toNat < 4 then (d.regs c).count else (d.regs c).count <<< 1) + 1 := by
  have h8 : ¬(8 ≤ channel.toNat ∨ channel.toNat = 4) := by omega
  have hfin : (⟨channel.toNat, channel_lt h8⟩ : Fin 8) = c := Fin.ext hc.symm
  have hclear : d.outb (if channel.toNat < 4 then 0x0C else 0xD8, 0) = d.setFf (unit c) false := by
    unfold Dmac.outb unit
    by_cases hlt : channel.toNat < 4
    · rw [if_pos hlt, if_pos (Fin.lt_def.mpr (hc ▸ hlt))]
      rfl
    · rw [if_neg hlt, if_neg fun h => hlt (hc ▸ Fin.lt_def.mp h)]
      rfl
  simp only [dmaGetRemainingCount, dif_neg h8, hfin, hclear, inb_count, Dmac.setFf_self, Dmac.setFf_regs,
    Bool.not_false, getByte_getByte]

theorem count_transferred {channels : Fin 8 → Channel} {address : U32} {mode : U8} {t : ℕ}
    (hc : (c : ℕ) = channel.toNat) (h4 : channel.toNat ≠ 4)
    (ht : Transferred (d.run (dmaSetupChannel channels channel address count mode).2) d' c t) :
    (d'.regs c).count =
      (if channel.toNat < 4 then count else count >>> 1) - 1 - BitVec.ofNat 16 t := by
  obtain ⟨-, -, -, hcount⟩ := setup_registers d channels address count mode hc h4
  have hlt : c < 4 ↔ channel.toNat < 4 := by
    rw [Fin.lt_def, hc]
    rfl
  rw [ht, hcount]
  simp only [hlt]

/-! ## What the call says -/

/-- The call refused the request, or after it and the transfer that leads to `d'` the bytes that are left
are returned: those of the request, without the `t` units that were moved. -/
def ReportsRemaining (d' : Dmac) (channels : Fin 8 → Channel) (channel : U8) (address : U32) (count : U16)
    (mode : U8) (t : ℕ) : Prop :=
  (dmaSetupChannel channels channel address count mode).2 = [] ∨
    (dmaGetRemainingCount d' channel).1.toNat = count.toNat - unitBytes channel * t

variable {channels : Fin 8 → Channel} {address : U32} {mode : U8} {t : ℕ}

/-- **The 8-bit channels** return what is left, at every point of a transfer. The 16-bit ones never do:
they return an odd number. -/
theorem reports_remaining_iff (h4 : channel ≠ 4) (hn : 0 < count.toNat)
    (heven : 5 ≤ channel.toNat → channel.toNat < 8 → 2 ∣ count.toNat)
    (hle : unitBytes channel * t ≤ count.toNat)
    (ht : ∀ c : Fin 8, (c : ℕ) = channel.toNat →
      Transferred (d.run (dmaSetupChannel channels channel address count mode).2) d' c t) :
    ReportsRemaining d' channels channel address count mode t ↔ channel.toNat < 4 ∨ 8 ≤ channel.toNat := by
  have h4 : channel.toNat ≠ 4 := fun h => h4 (BitVec.eq_of_toNat_eq h)
  unfold ReportsRemaining
  by_cases h8 : 8 ≤ channel.toNat
  · refine iff_of_true (.inl ?_) (.inr h8)
    rw [dmaSetupChannel, dif_pos (.inl h8)]
  · have hc : ((⟨channel.toNat, by omega⟩ : Fin 8) : ℕ) = channel.toNat := rfl
    have hne := (setup_registers d channels address count mode hc h4).1
    rw [or_iff_right hne, or_iff_left h8, remaining_eq hc h4, count_transferred hc h4 (ht _ hc)]
    have hsize := count.isLt
    have hone : (1 : U16).toNat = 1 := rfl
    unfold unitBytes at hle ⊢
    by_cases hlt : channel.toNat < 4
    · rw [if_pos hlt] at hle
      simp only [if_pos hlt, BitVec.toNat_add, BitVec.toNat_sub, BitVec.toNat_ofNat, hone]
      refine iff_of_true ?_ hlt
      omega
    · rw [if_neg hlt] at hle
      obtain ⟨n, hn'⟩ := heven (by omega) (by omega)
      simp only [if_neg hlt, BitVec.toNat_add, BitVec.toNat_shiftLeft, Nat.shiftLeft_eq, hone]
      refine iff_of_false (fun h => ?_) hlt
      omega

/-- The pair after `t` units of channel `c`, with nothing else changed. -/
def Dmac.moved (d : Dmac) (c : Fin 8) (t : ℕ) : Dmac :=
  d.modify c fun r => { r with count := r.count - BitVec.ofNat 16 t }

theorem transferred_moved (d : Dmac) (c : Fin 8) (t : ℕ) : Transferred d (d.moved c t) c t :=
  congrArg Regs.count (d.modify_self c _)

/-- A sector of 512 bytes on channel 2, all of which have been moved: none is left. -/
theorem reports_remaining_sector :
    let ws := (dmaSetupChannel noChannels 2 0x1000 0x200 0x46).2
    ReportsRemaining ((someDmac.run ws).moved 2 0x200) noChannels 2 0x1000 0x200 0x46 0x200 := by
  intro ws
  refine (reports_remaining_iff (d := someDmac) (by decide) (by decide) (fun h => absurd h (by decide))
    (by decide) fun c hc => ?_).mpr (.inl (by decide))
  obtain rfl : c = 2 := Fin.ext hc
  exact transferred_moved _ _ _

/-- A buffer of 4 KiB on channel 5: before the first unit, 4095 bytes are left. -/
theorem not_reports_remaining_buffer :
    let ws := (dmaSetupChannel noChannels 5 0x10000 0x1000 0x48).2
    ¬ReportsRemaining (someDmac.run ws) noChannels 5 0x10000 0x1000 0x48 0 := by
  intro ws
  have hc : ((5 : Fin 8) : ℕ) = (5 : U8).toNat := rfl
  have hzero : Transferred (someDmac.run ws) (someDmac.run ws) 5 0 := (BitVec.sub_zero _).symm
  rintro (hnil | h)
  · exact (setup_registers someDmac noChannels _ _ _ hc (by decide)).1 hnil
  · rw [remaining_eq hc (by decide), count_transferred hc (by decide) hzero] at h
    revert h
    decide

end BloodKernel.Dma
