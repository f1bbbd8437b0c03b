import BloodKernel.Kernel.Types
import BloodKernel.Lib.Run

set_option autoImplicit false

/-!
# The interrupt controllers

`drivers/pic.c` programs the two 8259A controllers through ports and keeps a copy of their mask
registers in `pic_irq_mask`.

* `Chip`: one controller, with the initialization words it expects next; `outb`: a write to a port.
* `Synced`: the copy is what the mask registers hold; `Isolated`: enabling or disabling an interrupt
  leaves the bits of the others.
* **`synced_throughout_iff`**: both hold throughout a run after `pic_init` exactly when the firmware left
  all interrupts masked.
-/

namespace BloodKernel.Pic

open Lib

/-! ## The controllers -/

/-- What a controller takes the next write to its data port for. -/
inductive Expects
  | mask
  | icw2
  | icw3
  | icw4
  deriving DecidableEq

/-- An 8259A: the mask register, the vector offset, and the state of the initialization sequence with the
bits of its first word that say which words follow. -/
structure Chip where
  imr : U8
  offset : U8
  expects : Expects
  single : Bool
  needsIcw4 : Bool

/-- A write to the command port. The first initialization word clears the mask register; the other commands
do not touch it. -/
def Chip.command (p : Chip) (v : U8) : Chip :=
  if v &&& 0x10 ≠ 0 then
    { p with imr := 0, expects := .icw2, single := v &&& 0x02 ≠ 0, needsIcw4 := v &&& 0x01 ≠ 0 }
  else p

/-- After the second or third word: the fourth, if there is one. -/
def Chip.last (p : Chip) : Expects := if p.needsIcw4 then .icw4 else .mask

/-- A write to the data port. -/
def Chip.data (p : Chip) (v : U8) : Chip :=
  match p.expects with
  | .mask => { p with imr := v }
  | .icw2 => { p with offset := v, expects := if p.single then p.last else .icw3 }
  | .icw3 => { p with expects := p.last }
  | .icw4 => { p with expects := .mask }

/-- The two controllers, and `pic_irq_mask`. -/
structure State where
  pic1 : Chip
  pic2 : Chip
  irqMask : U16

/-! ## The driver -/

/-- A write to a port. -/
def outb (s : State) (w : U16 × U8) : State :=
  if w.1 = 0x20 then { s with pic1 := s.pic1.command w.2 }
  else if w.1 = 0x21 then { s with pic1 := s.pic1.data w.2 }
  else if w.1 = 0xA0 then { s with pic2 := s.pic2.command w.2 }
  else if w.1 = 0xA1 then { s with pic2 := s.pic2.data w.2 }
  else s

/-- Several writes, one after the other. -/
def outs (s : State) (ws : List (U16 × U8)) : State := ws.foldl outb s

def ioWait : U16 × U8 := (0x80, 0)

/-- The initialization words with the given vector offsets, and then the masks. -/
def initWords (offset1 offset2 mask1 mask2 : U8) : List (U16 × U8) :=
  [(0x20, 0x11), ioWait, (0xA0, 0x11), ioWait,
    (0x21, offset1), ioWait, (0xA1, offset2), ioWait,
    (0x21, 4), ioWait, (0xA1, 2), ioWait,
    (0x21, 0x01), ioWait, (0xA1, 0x01), ioWait,
    (0x21, mask1), (0xA1, mask2)]

def picInit (s : State) : State := outs s (initWords 0x20 0x28 s.pic1.imr s.pic2.imr)

/-- `1 << irq`. -/
def irqBit (irq : U8) : U16 := BitVec.twoPow 16 irq.toNat

/-- `pic_irq_mask & 0xFF` to the first controller. -/
def writeLow (s : State) : State := outb s (0x21, s.irqMask.setWidth 8)

/-- `(pic_irq_mask >> 8) & 0xFF` to the second one. -/
def writeHigh (s : State) : State := outb s (0xA1, (s.irqMask >>> 8).setWidth 8)

def picEnableIrq (s : State) (irq : U8) : State :=
  if 16 ≤ irq.toNat then s
  else
    let s := { s with irqMask := s.irqMask &&& ~~~irqBit irq }
    if irq.toNat < 8 then writeLow s
    else
      let s := writeHigh s
      -- the second controller interrupts through line 2 of the first
      writeLow { s with irqMask := s.irqMask &&& ~~~irqBit 2 }

def picDisableIrq (s : State) (irq : U8) : State :=
  if 16 ≤ irq.toNat then s
  else
    let s := { s with irqMask := s.irqMask ||| irqBit irq }
    if irq.toNat < 8 then writeLow s else writeHigh s

def picMaskAll (s : State) : State := { outs s [(0x21, 0xFF), (0xA1, 0xFF)] with irqMask := 0xFFFF }

def picUnmaskAll (s : State) : State := { outs s [(0x21, 0x00), (0xA1, 0x00)] with irqMask := 0x0000 }

def picGetMask (s : State) : U16 := s.irqMask

def picSetMask (s : State) (mask : U16) : State := writeHigh (writeLow { s with irqMask := mask })

def picDisable (s : State) : State := outs (picMaskAll s) (initWords 0xF0 0xF8 0xFF 0xFF)

/-- The calls after `pic_init`. -/
inductive Op
  | enable (irq : U8)
  | disable (irq : U8)
  | maskAll
  | unmaskAll
  | getMask
  | setMask (mask : U16)
  | off

/-- A call, with the value that `pic_get_mask` returns. -/
def step (s : State) : Op → Option U16 × State
  | .enable irq => (none, picEnableIrq s irq)
  | .disable irq => (none, picDisableIrq s irq)
  | .maskAll => (none, picMaskAll s)
  | .unmaskAll => (none, picUnmaskAll s)
  | .getMask => (some (picGetMask s), s)
  | .setMask mask => (none, picSetMask s mask)
  | .off => (none, picDisable s)

/-! ## The copy and the registers -/

/-- The mask registers, the second controller in the high byte. -/
def State.registers (s : State) : U16 := s.pic2.imr ++ s.pic1.imr

/-- `pic_get_mask` returns what the registers hold. -/
def Synced (s : State) : Prop := picGetMask s = s.registers

/-- Enabling or disabling one interrupt changes the bit of no other one, but for the cascade line. -/
def Isolated (s : State) : Prop := ∀ (irq : U8) (j : ℕ), j ≠ irq.toNat → j ≠ 2 →
  (picEnableIrq s irq).registers.getLsbD j = s.registers.getLsbD j ∧
    (picDisableIrq s irq).registers.getLsbD j = s.registers.getLsbD j

/-- Both controllers take the next write to their data port for a mask. -/
def Ready (s : State) : Prop := s.pic1.expects = .mask ∧ s.pic2.expects = .mask

variable {s : State} {irq : U8} {mask : U16}

theorem append_halves (v : U16) : (v >>> 8).setWidth 8 ++ v.setWidth 8 = v := by
  apply BitVec.eq_of_getLsbD_eq
  intro i hi
  rw [BitVec.getLsbD_append]
  by_cases h : i < 8
  · simp [h]
  · have hadd : 8 + (i - 8) = i := by omega
    have hlt : i - 8 < 8 := by omega
    simp [h, hlt, hadd]

/-- After the initialization words both mask registers hold what is written last. -/
theorem outs_initWords (s : State) (offset1 offset2 mask1 mask2 : U8) :
    outs s (initWords offset1 offset2 mask1 mask2) =
      ⟨⟨mask1, offset1, .mask, false, true⟩, ⟨mask2, offset2, .mask, false, true⟩, s.irqMask⟩ := rfl

theorem ready_picInit (s : State) : Ready (picInit s) := by
  rw [picInit, outs_initWords]
  exact ⟨rfl, rfl⟩

theorem data_of_mask {p : Chip} (h : p.expects = .mask) (v : U8) : p.data v = { p with imr := v } := by
  unfold Chip.data
  rw [h]

theorem writeLow_eq (h : Ready s) :
    writeLow s = { s with pic1 := { s.pic1 with imr := s.irqMask.setWidth 8 } } := by
  show { s with pic1 := s.pic1.data (s.irqMask.setWidth 8) } = _
  rw [data_of_mask h.1]

theorem writeHigh_eq (h : Ready s) :
    writeHigh s = { s with pic2 := { s.pic2 with imr := (s.irqMask >>> 8).setWidth 8 } } := by
  show { s with pic2 := s.pic2.data ((s.irqMask >>> 8).setWidth 8) } = _
  rw [data_of_mask h.2]

theorem high_append (a b : U8) : (((a ++ b : U16)) >>> 8).setWidth 8 = a := by
  apply BitVec.eq_of_getLsbD_eq
  intro i hi
  have hlt : ¬8 + i < 8 := by omega
  rw [BitVec.getLsbD_setWidth, BitVec.getLsbD_ushiftRight, BitVec.getLsbD_append, if_neg hlt,
    Nat.add_sub_cancel_left, decide_eq_true hi, Bool.true_and]

theorem low_append (a b : U8) : ((a ++ b : U16)).setWidth 8 = b := by
  apply BitVec.eq_of_getLsbD_eq
  intro i hi
  rw [BitVec.getLsbD_setWidth, BitVec.getLsbD_append, if_pos hi, decide_eq_true hi, Bool.true_and]

theorem synced_iff : Synced s ↔
    s.pic2.imr = (s.irqMask >>> 8).setWidth 8 ∧ s.pic1.imr = s.irqMask.setWidth 8 := by
  unfold Synced picGetMask State.registers
  constructor
  · intro h
    rw [h]
    exact ⟨(high_append _ _).symm, (low_append _ _).symm⟩
  · rintro ⟨h₂, h₁⟩
    rw [h₂, h₁, append_halves]

/-! ## The calls -/

/-- The controllers are ready, and the copy is right. -/
structure Good (s : State) : Prop where
  ready : Ready s
  synced : Synced s

theorem good_writeLow (hr : Ready s) (h : s.pic2.imr = (s.irqMask >>> 8).setWidth 8) :
    Good (writeLow s) := by
  rw [writeLow_eq hr]
  exact ⟨hr, synced_iff.mpr ⟨h, rfl⟩⟩

theorem good_writeHigh (hr : Ready s) (h : s.pic1.imr = s.irqMask.setWidth 8) : Good (writeHigh s) := by
  rw [writeHigh_eq hr]
  exact ⟨hr, synced_iff.mpr ⟨rfl, h⟩⟩

theorem getLsbD_and_not_irqBit (v : U16) (irq : U8) {j : ℕ} (hj : j ≠ irq.toNat) :
    (v &&& ~~~irqBit irq).getLsbD j = v.getLsbD j := by
  rw [BitVec.getLsbD_and, BitVec.getLsbD_not, irqBit, BitVec.getLsbD_twoPow]
  by_cases hlt : j < 16
  · simp [hlt, hj.symm]
  · simp [BitVec.getLsbD_of_ge v j (Nat.not_lt.mp hlt)]

theorem getLsbD_or_irqBit (v : U16) (irq : U8) {j : ℕ} (hj : j ≠ irq.toNat) :
    (v ||| irqBit irq).getLsbD j = v.getLsbD j := by
  rw [BitVec.getLsbD_or, irqBit, BitVec.getLsbD_twoPow]
  simp [hj.symm]

/-- Clearing or setting a bit of the first controller leaves the high byte alone. -/
theorem high_bit (v : U16) {irq : U8} (h : irq.toNat < 8) :
    ((v &&& ~~~irqBit irq) >>> 8).setWidth 8 = (v >>> 8).setWidth 8 ∧
      ((v ||| irqBit irq) >>> 8).setWidth 8 = (v >>> 8).setWidth 8 := by
  constructor <;> apply BitVec.eq_of_getLsbD_eq <;> intro i hi
  · rw [BitVec.getLsbD_setWidth, BitVec.getLsbD_setWidth, BitVec.getLsbD_ushiftRight,
      BitVec.getLsbD_ushiftRight, getLsbD_and_not_irqBit v irq (by omega)]
  · rw [BitVec.getLsbD_setWidth, BitVec.getLsbD_setWidth, BitVec.getLsbD_ushiftRight,
      BitVec.getLsbD_ushiftRight, getLsbD_or_irqBit v irq (by omega)]

/-- Setting a bit of the second one leaves the low byte alone. -/
theorem low_or_bit (v : U16) {irq : U8} (h : 8 ≤ irq.toNat) :
    (v ||| irqBit irq).setWidth 8 = v.setWidth 8 := by
  apply BitVec.eq_of_getLsbD_eq
  intro i hi
  rw [BitVec.getLsbD_setWidth, BitVec.getLsbD_setWidth, getLsbD_or_irqBit v irq (by omega)]

theorem good_enable (h : Good s) (irq : U8) : Good (picEnableIrq s irq) := by
  obtain ⟨hr, hs⟩ := h
  have hs := synced_iff.mp hs
  unfold picEnableIrq
  split_ifs with hbig hlow
  · exact ⟨hr, synced_iff.mpr hs⟩
  · refine good_writeLow hr ?_
    show s.pic2.imr = ((s.irqMask &&& ~~~irqBit irq) >>> 8).setWidth 8
    rw [(high_bit _ hlow).1]
    exact hs.1
  · have hr' : Ready { s with irqMask := s.irqMask &&& ~~~irqBit irq } := hr
    simp only [writeHigh_eq hr']
    refine good_writeLow hr ?_
    exact (high_bit _ (by decide)).1.symm

theorem good_disable (h : Good s) (irq : U8) : Good (picDisableIrq s irq) := by
  obtain ⟨hr, hs⟩ := h
  have hs := synced_iff.mp hs
  unfold picDisableIrq
  split_ifs with hbig hlow
  · exact ⟨hr, synced_iff.mpr hs⟩
  · refine good_writeLow hr ?_
    show s.pic2.imr = ((s.irqMask ||| irqBit irq) >>> 8).setWidth 8
    rw [(high_bit _ hlow).2]
    exact hs.1
  · refine good_writeHigh hr ?_
    show s.pic1.imr = (s.irqMask ||| irqBit irq).setWidth 8
    rw [low_or_bit _ (Nat.not_lt.mp hlow)]
    exact hs.2

theorem good_setMask (h : Ready s) (mask : U16) : Good (picSetMask s mask) := by
  have hr : Ready { s with irqMask := mask } := h
  unfold picSetMask
  rw [writeLow_eq hr]
  exact good_writeHigh hr rfl

/-- Masking or unmasking all is setting the mask, in the other order. -/
theorem good_all (h : Ready s) (v : U8) (mask : U16) (hmask : mask = v ++ v) :
    Good { outs s [(0x21, v), (0xA1, v)] with irqMask := mask } := by
  have houts : outs s [(0x21, v), (0xA1, v)] =
      { s with pic1 := s.pic1.data v, pic2 := s.pic2.data v } := rfl
  rw [houts, data_of_mask h.1, data_of_mask h.2]
  exact ⟨h, hmask⟩

theorem halves_allMasked : ((0xFFFF : U16) >>> 8).setWidth 8 = (0xFF : U8) ∧
    (0xFFFF : U16).setWidth 8 = (0xFF : U8) := by decide

theorem good_off (s : State) : Good (picDisable s) := by
  unfold picDisable
  rw [outs_initWords]
  exact ⟨⟨rfl, rfl⟩, synced_iff.mpr ⟨halves_allMasked.1.symm, halves_allMasked.2.symm⟩⟩

/-- **One call.** -/
theorem good_step (h : Good s) (o : Op) : Good (step s o).2 := by
  cases o with
  | enable irq => exact good_enable h irq
  | disable irq => exact good_disable h irq
  | maskAll => exact good_all h.ready 0xFF 0xFFFF (by decide)
  | unmaskAll => exact good_all h.ready 0x00 0x0000 (by decide)
  | getMask => exact h
  | setMask mask => exact good_setMask h.ready mask
  | off => exact good_off s

/-! ## The bits of the other interrupts -/

theorem irqMask_enable (s : State) (irq : U8) {j : ℕ} (hj : j ≠ irq.toNat) (hcascade : j ≠ 2) :
    (picEnableIrq s irq).irqMask.getLsbD j = s.irqMask.getLsbD j := by
  unfold picEnableIrq
  split_ifs with hbig hlow
  · rfl
  · exact getLsbD_and_not_irqBit s.irqMask irq hj
  · show ((s.irqMask &&& ~~~irqBit irq) &&& ~~~irqBit 2).getLsbD j = _
    rw [getLsbD_and_not_irqBit _ 2 hcascade, getLsbD_and_not_irqBit s.irqMask irq hj]

theorem irqMask_disable (s : State) (irq : U8) {j : ℕ} (hj : j ≠ irq.toNat) :
    (picDisableIrq s irq).irqMask.getLsbD j = s.irqMask.getLsbD j := by
  unfold picDisableIrq
  split_ifs with hbig hlow
  · rfl
  · exact getLsbD_or_irqBit s.irqMask irq hj
  · exact getLsbD_or_irqBit s.irqMask irq hj

theorem Good.isolated (h : Good s) : Isolated s := by
  intro irq j hj hcascade
  have hs : s.irqMask = s.registers := h.synced
  have henable : (picEnableIrq s irq).irqMask = _ := (good_enable h irq).synced
  have hdisable : (picDisableIrq s irq).irqMask = _ := (good_disable h irq).synced
  rw [← hs, ← henable, ← hdisable]
  exact ⟨irqMask_enable s irq hj hcascade, irqMask_disable s irq hj⟩

/-! ## Runs -/

/-- What the firmware leaves: any controllers; `pic_irq_mask` says that all interrupts are masked. -/
def boot (pic1 pic2 : Chip) : State := ⟨pic1, pic2, 0xFFFF⟩

/-- The copy does not know what `pic_init` has restored. -/
theorem synced_picInit (pic1 pic2 : Chip) :
    Synced (picInit (boot pic1 pic2)) ↔ pic1.imr = 0xFF ∧ pic2.imr = 0xFF := by
  rw [synced_iff, picInit, outs_initWords, and_comm]
  show pic1.imr = (0xFFFF : U16).setWidth 8 ∧ pic2.imr = ((0xFFFF : U16) >>> 8).setWidth 8 ↔ _
  rw [halves_allMasked.1, halves_allMasked.2]

/-- **Exactness.** The copy is what the mask registers hold, and no interrupt that is enabled or disabled
changes the bit of another one, throughout a run after `pic_init` exactly when the firmware has left all
interrupts masked. -/
theorem synced_throughout_iff {pic1 pic2 : Chip} {t : State} {es : List (Op × Option U16)}
    (h : Run (total step) (picInit (boot pic1 pic2)) es t) :
    Throughout (total step) (fun s => Synced s ∧ Isolated s) (picInit (boot pic1 pic2)) es ↔
      pic1.imr = 0xFF ∧ pic2.imr = 0xFF := by
  refine ⟨fun hall => (synced_picInit _ _).mp hall.first.1, fun hmasked => ?_⟩
  have hgood : Good (picInit (boot pic1 pic2)) := ⟨ready_picInit _, (synced_picInit _ _).mpr hmasked⟩
  have hstep : ∀ s o r s', Good s → True → total step s o = some (r, s') → Good s' := by
    intro s o r s' hs _ hstep
    have hs' : (step s o).2 = s' := congrArg Prod.snd (total_eq_some.mp hstep)
    rw [← hs']
    exact good_step hs o
  exact h.throughout_of_along hstep (fun s hs => ⟨hs.synced, hs.isolated⟩) (fun _ _ _ _ _ _ => trivial) hgood

/-- A controller in operation, with the given mask. -/
def running (mask : U8) : Chip := ⟨mask, 0x08, .mask, false, true⟩

/-- Enabling the keyboard when the firmware has left everything masked. -/
theorem synced_keyboard : Throughout (total step) (fun s => Synced s ∧ Isolated s)
    (picInit (boot (running 0xFF) (running 0xFF))) [(.enable 1, none)] ↔
      (running 0xFF).imr = 0xFF ∧ (running 0xFF).imr = 0xFF :=
  synced_throughout_iff (.cons rfl (.nil _))

/-- With the masks 0xB8 and 0x8F of a usual firmware the copy is wrong after `pic_init`, and enabling the
keyboard masks the timer. -/
theorem not_synced_firmware :
    ¬Synced (picInit (boot (running 0xB8) (running 0x8F))) ∧
      ¬Isolated (picInit (boot (running 0xB8) (running 0x8F))) := by
  refine ⟨fun h => absurd ((synced_picInit _ _).mp h).1 (by decide), fun h => ?_⟩
  have htimer := (h 1 0 (by decide) (by decide)).1
  revert htimer
  decide

end BloodKernel.Pic
