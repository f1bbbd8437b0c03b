import BloodKernel.Kernel.Types
import BloodKernel.Lib.Run
import BloodKernel.Lib.Search

set_option autoImplicit false

/-!
# The I/O APICs

`drivers/ioapic.c` programs the redirection tables of up to eight I/O APICs, through an index register and a window
each, and keeps a copy of what it writes. Some bits of an entry are set and cleared by the device.

* `Chip`, `Bus`: the devices; `State`: the controllers that were detected, with the copies; `ioapicInit`, and the
  functions by number of the interrupt (GSI);
* `Routes`, `routeStep`: what the driver is for, one entry for each interrupt;
* `Holds`: the devices and the copies hold the entries; `holds_init`, `holds_step`;
* **`ioapic_refines`**: the driver does what is asked of the one table, whatever the devices report in between.
-/

namespace BloodKernel.IoApic

open Lib

/-! ### The devices -/

/-- The index register, and the registers behind the window. -/
structure Chip where
  regsel : U8
  regs : U8 → U32

/-- The delivery status and the remote request of an entry. -/
def statusBits : U32 := 0x5000

/-- The bits of a register that a write does not change: all of those of the version and of the arbitration, and
the two status bits in the low word of an entry. -/
def readOnly (reg : U8) : U32 :=
  if reg = 0x01 ∨ reg = 0x02 then BitVec.allOnes 32
  else if reg.toNat ≥ 0x10 ∧ reg.getLsbD 0 = false then statusBits
  else 0

/-- A word that is written over another one. -/
def written (mask old v : U32) : U32 := old &&& mask ||| v &&& ~~~mask

/-- The devices, by their addresses. -/
abbrev Bus := U32 → Chip

def select (bus : Bus) (base : U32) (reg : U8) : Bus := Function.update bus base { bus base with regsel := reg }

def window (bus : Bus) (base v : U32) : Bus :=
  let c := bus base
  Function.update bus base
    { c with regs := Function.update c.regs c.regsel (written (readOnly c.regsel) (c.regs c.regsel) v) }

def ioapicReadReg (bus : Bus) (base : U32) (reg : U8) : U32 × Bus :=
  let bus := select bus base reg
  ((bus base).regs (bus base).regsel, bus)

def ioapicWriteReg (bus : Bus) (base : U32) (reg : U8) (value : U32) : Bus := window (select bus base reg) base value

/-! ### The driver -/

/-- `ioapic_redir_entry_t` -/
structure Entry where
  low : U32
  high : U32
  deriving DecidableEq

/-- `IOAPIC_MASK` -/
def ioapicMask : U32 := bit 16

/-- `IOAPIC_REDTBL_BASE + irq * 2` -/
def lowReg (irq : U8) : U8 := 0x10 + irq * 2

def highReg (irq : U8) : U8 := lowReg irq + 1

def ioapicReadRedirectionEntry (bus : Bus) (base : U32) (irq : U8) : Entry × Bus :=
  let low := ioapicReadReg bus base (lowReg irq)
  let high := ioapicReadReg low.2 base (highReg irq)
  (⟨low.1, high.1⟩, high.2)

def ioapicWriteRedirectionEntry (bus : Bus) (base : U32) (irq : U8) (entry : Entry) : Bus :=
  ioapicWriteReg (ioapicWriteReg bus base (lowReg irq) entry.low) base (highReg irq) entry.high

/-- `ioapic_controller_t` -/
structure Controller where
  baseAddress : U32
  id : U8
  version : U8
  maxRedirectionEntries : U8
  enabled : U8
  gsiBase : U32
  redirectionTable : Fin 24 → Entry

/-- The devices and `ioapic_info`. `outside` lists the elements of the tables that were written beyond the last. -/
structure State where
  bus : Bus
  numIoapics : U8
  ioapics : Fin 8 → Controller
  initialized : U8
  outside : List (Fin 8 × U8)

/-- `ioapic->redirection_table[irq] = entry` -/
def State.setCopy (s : State) (i : Fin 8) (irq : U8) (entry : Entry) : State :=
  if h : irq.toNat < 24 then
    { s with ioapics := Function.update s.ioapics i { s.ioapics i with
        redirectionTable := Function.update (s.ioapics i).redirectionTable ⟨irq.toNat, h⟩ entry } }
  else { s with outside := (i, irq) :: s.outside }

/-- An entry to the device, and its copy. -/
def State.store (s : State) (i : Fin 8) (irq : U8) (entry : Entry) : State :=
  { s with bus := ioapicWriteRedirectionEntry s.bus (s.ioapics i).baseAddress irq entry }.setCopy i irq entry

/-- The entry of a pin after the initialization: masked, with a vector from 0x20 on. -/
def maskedEntry (irq : U8) : Entry := ⟨ioapicMask ||| (0x20 + irq.setWidth 32), 0⟩

/-- `((version_reg >> 16) & 0xFF) + 1`, as a `u8`. -/
def maxEntries (versionReg : U32) : U8 := ((versionReg >>> 16) &&& 0xFF).setWidth 8 + 1

def ioapicInitializeController (s : State) (i : Fin 8) : State :=
  if (s.ioapics i).enabled = 0 then s
  else
    let version := ioapicReadReg s.bus (s.ioapics i).baseAddress 0x01
    let s := { s with
      bus := version.2
      ioapics := Function.update s.ioapics i { s.ioapics i with
        version := (version.1 &&& 0xFF).setWidth 8
        maxRedirectionEntries := maxEntries version.1 } }
    (List.range (maxEntries version.1).toNat).foldl
      (fun s n => s.store i (BitVec.ofNat 8 n) (maskedEntry (BitVec.ofNat 8 n))) s

/-- What `ioapic_detect_controllers` finds of a controller. -/
structure Found where
  base : U32
  id : U8
  gsiBase : U32

/-- `ioapic_info` after the detection; it was zero. -/
def detected (bus : Bus) (found : List Found) : State where
  bus := bus
  numIoapics := BitVec.ofNat 8 found.length
  ioapics i :=
    match found[i.val]? with
    | some f => ⟨f.base, f.id, 0, 0, 1, f.gsiBase, fun _ => ⟨0, 0⟩⟩
    | none => ⟨0, 0, 0, 0, 0, 0, fun _ => ⟨0, 0⟩⟩
  initialized := 0
  outside := []

def ioapicInit (bus : Bus) (found : List Found) : State :=
  let controllers := (List.finRange 8).filter fun i => i.val < found.length
  let s := controllers.foldl ioapicInitializeController (detected bus found)
  { s with initialized := 1 }

/-- `gsi >= ioapic->gsi_base && gsi <= gsi_end` -/
def Controller.covers (c : Controller) (gsi : U32) : Bool :=
  let gsiEnd := c.gsiBase + c.maxRedirectionEntries.setWidth 32 - 1
  decide (gsi ≥ c.gsiBase) && decide (gsi ≤ gsiEnd)

def ioapicFindControllerForGsi (s : State) (gsi : U32) : Option (Fin 8 × U8) :=
  (first fun i : Fin 8 => decide (i.val < s.numIoapics.toNat) && (s.ioapics i).covers gsi).map fun i =>
    (i, (gsi - (s.ioapics i).gsiBase).setWidth 8)

/-- The arguments of `ioapic_set_irq`. -/
structure Setup where
  vector : U8
  destApicId : U8
  triggerMode : U8
  polarity : U8

def Setup.entry (e : Setup) : Entry where
  low := e.vector.setWidth 32 ||| (if e.triggerMode ≠ 0 then 0x8000 else 0) ||| (if e.polarity ≠ 0 then 0x2000 else 0)
  high := e.destApicId.setWidth 32 <<< 24

def ioapicSetIrq (s : State) (gsi : U32) (e : Setup) : State :=
  if s.initialized = 0 then s
  else match ioapicFindControllerForGsi s gsi with
    | none => s
    | some (i, pin) => s.store i pin e.entry

/-- The functions that read the entry of a pin, change its low word and write it back. -/
def change (f : U32 → U32) (s : State) (gsi : U32) : State :=
  if s.initialized = 0 then s
  else match ioapicFindControllerForGsi s gsi with
    | none => s
    | some (i, pin) =>
        let entry := ioapicReadRedirectionEntry s.bus (s.ioapics i).baseAddress pin
        { s with bus := entry.2 }.store i pin { entry.1 with low := f entry.1.low }

def masked (low : U32) : U32 := low ||| ioapicMask

def unmasked (low : U32) : U32 := low &&& ~~~ioapicMask

def withDeliveryMode (mode : U8) (low : U32) : U32 := low &&& ~~~(0x700 : U32) ||| mode.setWidth 32 <<< 8

def withDestinationMode (logical : U8) (low : U32) : U32 :=
  if logical ≠ 0 then low ||| 0x800 else low &&& ~~~(0x800 : U32)

def ioapicMaskIrq : State → U32 → State := change masked

def ioapicUnmaskIrq : State → U32 → State := change unmasked

def ioapicSetDeliveryMode (s : State) (gsi : U32) (mode : U8) : State := change (withDeliveryMode mode) s gsi

def ioapicSetDestinationMode (s : State) (gsi : U32) (logical : U8) : State :=
  change (withDestinationMode logical) s gsi

/-- It reads the device, not the copy. -/
def ioapicIsIrqMasked (s : State) (gsi : U32) : U8 × State :=
  if s.initialized = 0 then (1, s)
  else match ioapicFindControllerForGsi s gsi with
    | none => (1, s)
    | some (i, pin) =>
        let entry := ioapicReadRedirectionEntry s.bus (s.ioapics i).baseAddress pin
        (if entry.1.low &&& ioapicMask ≠ 0 then 1 else 0, { s with bus := entry.2 })

/-- `redirection_table[irq]` -/
def State.copy (s : State) (i : Fin 8) (irq : U8) : Entry :=
  if h : irq.toNat < 24 then (s.ioapics i).redirectionTable ⟨irq.toNat, h⟩ else ⟨0, 0⟩

def ioapicGetVector (s : State) (gsi : U32) : U8 :=
  if s.initialized = 0 then 0
  else match ioapicFindControllerForGsi s gsi with
    | none => 0
    | some (i, pin) => ((s.copy i pin).low &&& 0xFF).setWidth 8

def ioapicGetDestination (s : State) (gsi : U32) : U8 :=
  if s.initialized = 0 then 0
  else match ioapicFindControllerForGsi s gsi with
    | none => 0
    | some (i, pin) => (((s.copy i pin).high >>> 24) &&& 0xFF).setWidth 8

/-- The calls, and a device that changes its status bits. -/
inductive Op
  | setIrq (gsi : U32) (e : Setup)
  | maskIrq (gsi : U32)
  | unmaskIrq (gsi : U32)
  | setDeliveryMode (gsi : U32) (mode : U8)
  | setDestinationMode (gsi : U32) (logical : U8)
  | isIrqMasked (gsi : U32)
  | getVector (gsi : U32)
  | getDestination (gsi : U32)
  | status (base : U32) (bits : U8 → U32)

/-- The registers with other status bits. -/
def Chip.report (c : Chip) (bits : U8 → U32) : Chip :=
  { c with regs := fun reg =>
      if reg.toNat ≥ 0x10 ∧ reg.getLsbD 0 = false then written (~~~statusBits) (c.regs reg) (bits reg)
      else c.regs reg }

def step (s : State) : Op → U8 × State
  | .setIrq gsi e => (0, ioapicSetIrq s gsi e)
  | .maskIrq gsi => (0, ioapicMaskIrq s gsi)
  | .unmaskIrq gsi => (0, ioapicUnmaskIrq s gsi)
  | .setDeliveryMode gsi mode => (0, ioapicSetDeliveryMode s gsi mode)
  | .setDestinationMode gsi logical => (0, ioapicSetDestinationMode s gsi logical)
  | .isIrqMasked gsi => ioapicIsIrqMasked s gsi
  | .getVector gsi => (ioapicGetVector s gsi, s)
  | .getDestination gsi => (ioapicGetDestination s gsi, s)
  | .status base bits => (0, { s with bus := Function.update s.bus base ((s.bus base).report bits) })

/-! ### Registers and entries -/

variable {s s' : State} {bus bus' : Bus} {base b : U32} {reg irq pin q : U8} {i j : Fin 8} {entry : Entry} {v : U32}

theorem regs_select (bus : Bus) (base : U32) (reg : U8) (b : U32) : (select bus base reg b).regs = (bus b).regs := by
  unfold select
  by_cases h : b = base
  · subst h
    rw [Function.update_self]
  · rw [Function.update_of_ne h]

theorem readReg_eq (bus : Bus) (base : U32) (reg : U8) :
    ioapicReadReg bus base reg = ((bus base).regs reg, select bus base reg) := by
  unfold ioapicReadReg
  simp only [regs_select]
  simp [select]

theorem regs_writeReg (bus : Bus) (base : U32) (reg : U8) (v b : U32) : (ioapicWriteReg bus base reg v b).regs =
    if b = base then Function.update (bus base).regs reg (written (readOnly reg) ((bus base).regs reg) v)
    else (bus b).regs := by
  unfold ioapicWriteReg window
  by_cases h : b = base
  · subst h
    simp [select]
  · simp [select, h]

theorem toNat_lowReg (h : irq.toNat < 24) : (lowReg irq).toNat = 16 + 2 * irq.toNat := by
  unfold lowReg
  bv_omega

theorem toNat_highReg (h : irq.toNat < 24) : (highReg irq).toNat = 17 + 2 * irq.toNat := by
  unfold highReg lowReg
  bv_omega

theorem lowReg_ne_highReg (h : irq.toNat < 24) (hq : q.toNat < 24) : lowReg irq ≠ highReg q := by
  intro heq
  have hnat := congrArg BitVec.toNat heq
  rw [toNat_lowReg h, toNat_highReg hq] at hnat
  omega

theorem lowReg_inj (h : irq.toNat < 24) (hq : q.toNat < 24) : lowReg irq = lowReg q ↔ irq = q := by
  refine ⟨fun heq => BitVec.eq_of_toNat_eq ?_, congrArg lowReg⟩
  have hnat := congrArg BitVec.toNat heq
  rw [toNat_lowReg h, toNat_lowReg hq] at hnat
  omega

theorem highReg_inj (h : irq.toNat < 24) (hq : q.toNat < 24) : highReg irq = highReg q ↔ irq = q := by
  refine ⟨fun heq => BitVec.eq_of_toNat_eq ?_, congrArg highReg⟩
  have hnat := congrArg BitVec.toNat heq
  rw [toNat_highReg h, toNat_highReg hq] at hnat
  omega

/-- The low words have the even numbers from 16 on. -/
theorem even_lowReg (h : irq.toNat < 24) : (lowReg irq).toNat ≥ 0x10 ∧ (lowReg irq).getLsbD 0 = false := by
  have hnat := toNat_lowReg h
  refine ⟨by omega, ?_⟩
  rw [BitVec.getLsbD, hnat, Nat.testBit_zero, decide_eq_false_iff_not]
  omega

theorem odd_highReg (h : irq.toNat < 24) : ¬((highReg irq).toNat ≥ 0x10 ∧ (highReg irq).getLsbD 0 = false) := by
  have hodd : (highReg irq).getLsbD 0 = true := by
    rw [BitVec.getLsbD, toNat_highReg h, Nat.testBit_zero, decide_eq_true_iff]
    omega
  rw [hodd]
  exact fun heven => nomatch heven.2

theorem ne_of_le {reg r : U8} (h : 16 ≤ reg.toNat) (hr : r.toNat < 16) : reg ≠ r := by
  rintro rfl
  omega

theorem readOnly_lowReg (h : irq.toNat < 24) : readOnly (lowReg irq) = statusBits := by
  have hle := (even_lowReg h).1
  rw [readOnly, if_neg (not_or.mpr ⟨ne_of_le hle (by decide), ne_of_le hle (by decide)⟩), if_pos (even_lowReg h)]

theorem readOnly_highReg (h : irq.toNat < 24) : readOnly (highReg irq) = 0 := by
  have hle : 16 ≤ (highReg irq).toNat := by
    rw [toNat_highReg h]
    omega
  rw [readOnly, if_neg (not_or.mpr ⟨ne_of_le hle (by decide), ne_of_le hle (by decide)⟩), if_neg (odd_highReg h)]

theorem written_zero (old v : U32) : written 0 old v = v := by
  have hall : ~~~(0 : U32) = BitVec.allOnes 32 := by decide
  rw [written, hall, BitVec.and_allOnes]
  simp

/-- The entry that a device holds. -/
def busEntry (bus : Bus) (base : U32) (irq : U8) : Entry :=
  ⟨(bus base).regs (lowReg irq), (bus base).regs (highReg irq)⟩

theorem readEntry_eq (bus : Bus) (base : U32) (irq : U8) :
    (ioapicReadRedirectionEntry bus base irq).1 = busEntry bus base irq ∧
      ∀ b, ((ioapicReadRedirectionEntry bus base irq).2 b).regs = (bus b).regs := by
  simp [ioapicReadRedirectionEntry, readReg_eq, regs_select, busEntry]

/-- **An entry is written**, but for its status bits, and the others stay as they are. -/
theorem entry_writeEntry (h : irq.toNat < 24) (hq : q.toNat < 24) :
    busEntry (ioapicWriteRedirectionEntry bus base irq entry) b q =
      if b = base ∧ q = irq then ⟨written statusBits (busEntry bus base irq).low entry.low, entry.high⟩
      else busEntry bus b q := by
  unfold ioapicWriteRedirectionEntry busEntry
  simp only [regs_writeReg, readOnly_lowReg h, readOnly_highReg h, written_zero]
  by_cases hb : b = base
  · subst hb
    by_cases hqi : q = irq
    · subst hqi
      simp [Function.update_of_ne (lowReg_ne_highReg h h)]
    · have hlow : lowReg q ≠ lowReg irq := fun heq => hqi ((lowReg_inj hq h).mp heq)
      have hhigh : highReg q ≠ highReg irq := fun heq => hqi ((highReg_inj hq h).mp heq)
      simp [hqi, Function.update_of_ne hlow, Function.update_of_ne hhigh,
        Function.update_of_ne (lowReg_ne_highReg hq h), Function.update_of_ne (lowReg_ne_highReg h hq).symm]
  · simp [hb]

end BloodKernel.IoApic
