import BloodKernel.Kernel.Types
import BloodKernel.Lib.Run

set_option autoImplicit false

/-!
# The redirection table of the I/O APIC

`drivers/interrupt_routing.c` reaches the registers of the I/O APIC through an index register and a window, and
keeps a copy of the redirection table. The window is at byte offset `0x10`; the driver accesses word `0x10`.

* `IoApic`: the device; `State`: the copy beside it; `interruptRoutingDetectIoapic`,
  `interruptRoutingSetupIoapicEntry`, `interruptRoutingMaskIoapicEntry`, `interruptRoutingUnmaskIoapicEntry`:
  the functions.
* `regs_step`: no call changes a register of the device.
* **`copy_throughout_iff`**: the copy is the table, throughout a run, exactly when the reads at the start
  happen to return the table, and every call asks for what the table holds already.
-/

namespace BloodKernel.InterruptRouting

open Lib

/-! ## The device -/

/-- The index register and the registers behind the window. `reads` counts the reads at other offsets. -/
structure IoApic where
  index : U32
  regs : U8 → U32
  reads : ℕ

/-- A write at a byte offset. -/
def IoApic.write (h : IoApic) (offset : ℕ) (v : U32) : IoApic :=
  if offset = 0x00 then { h with index := v }
  else if offset = 0x10 then { h with regs := Function.update h.regs (h.index.setWidth 8) v }
  else h

/-- A read at a byte offset. Nothing is said of what other offsets return. -/
def IoApic.read (stray : ℕ → U32) (h : IoApic) (offset : ℕ) : U32 × IoApic :=
  if offset = 0x00 then (h.index, h)
  else if offset = 0x10 then (h.regs (h.index.setWidth 8), h)
  else (stray h.reads, { h with reads := h.reads + 1 })

/-- `IOAPIC_REGSEL` -/
def ioapicRegsel : ℕ := 0x00

/-- `IOAPIC_REGWIN` -/
def ioapicRegwin : ℕ := 0x10

/-- `ioapic[i]`, an array of words. -/
def wordOffset (i : ℕ) : ℕ := 4 * i

def ioapicReadReg (stray : ℕ → U32) (h : IoApic) (reg : U8) : U32 × IoApic :=
  (h.write (wordOffset ioapicRegsel) (reg.setWidth 32)).read stray (wordOffset ioapicRegwin)

def ioapicWriteReg (h : IoApic) (reg : U8) (value : U32) : IoApic :=
  (h.write (wordOffset ioapicRegsel) (reg.setWidth 32)).write (wordOffset ioapicRegwin) value

/-! ## The driver -/

/-- `ioapic_entry_t` -/
structure Entry where
  vector : U32
  deliveryMode : U8
  destMode : U8
  polarity : U8
  triggerMode : U8
  mask : U8
  destination : U8
  deriving DecidableEq

/-- The fields of the two words of an entry. -/
def decode (low high : U32) : Entry where
  vector := low &&& 0xFF
  deliveryMode := ((low >>> 8) &&& 0x7).setWidth 8
  destMode := ((low >>> 11) &&& 0x1).setWidth 8
  polarity := ((low >>> 13) &&& 0x1).setWidth 8
  triggerMode := ((low >>> 15) &&& 0x1).setWidth 8
  mask := ((low >>> 16) &&& 0x1).setWidth 8
  destination := ((high >>> 24) &&& 0xFF).setWidth 8

/-- `IOAPIC_REDTBL_BASE + (pin * 2)` -/
def lowReg (pin : U8) : U8 := 0x10 + pin * 2

/-- `IOAPIC_REDTBL_BASE + (pin * 2) + 1` -/
def highReg (pin : U8) : U8 := lowReg pin + 1

/-- The device, and what `interrupt_routing_info` has of it. `outside` lists the elements of `entries` written
beyond the last one. -/
structure State where
  hw : IoApic
  ioapicSupported : U8
  numIoapics : U8
  id : U8
  version : U8
  maxRedirectionEntries : U8
  entries : Fin 24 → Entry
  totalInterruptsRouted : U32
  outside : List U8

/-- Write `entries[pin]`. -/
def State.setEntry (s : State) (pin : U8) (f : Entry → Entry) : State :=
  if h : pin.toNat < 24 then
    { s with entries := Function.update s.entries ⟨pin.toNat, h⟩ (f (s.entries ⟨pin.toNat, h⟩)) }
  else { s with outside := pin :: s.outside }

/-- `interrupt_routing_init` before the detection. -/
def cleared (hw : IoApic) : State where
  hw := hw
  ioapicSupported := 0
  numIoapics := 0
  id := 0
  version := 0
  maxRedirectionEntries := 0
  entries _ := ⟨0, 0, 0, 0, 0, 1, 0⟩
  totalInterruptsRouted := 0
  outside := []

section Reads

-- what the reads return that are neither of the index register nor of the window
variable (stray : ℕ → U32)

/-- The loop of `interrupt_routing_detect_ioapic`, for the first `n` entries. -/
def detectEntries (s : State) : ℕ → State
  | 0 => s
  | n + 1 =>
      let s := detectEntries s n
      let pin := BitVec.ofNat 8 n
      let low := ioapicReadReg stray s.hw (lowReg pin)
      let high := ioapicReadReg stray low.2 (highReg pin)
      { s with hw := high.2 }.setEntry pin fun _ => decode low.1 high.1

/-- `((ver_reg >> 16) & 0xFF) + 1`, as a `u8`. -/
def maxEntries (ver : U32) : U8 := ((ver >>> 16) &&& 0xFF).setWidth 8 + 1

def interruptRoutingDetectIoapic (s : State) : State :=
  let id := ioapicReadReg stray s.hw 0x00
  if id.1 ≠ 0xFFFFFFFF then
    let ver := ioapicReadReg stray id.2 0x01
    let s :=
      { s with
        hw := ver.2, ioapicSupported := 1, numIoapics := 1, id := ((id.1 >>> 24) &&& 0xF).setWidth 8
        version := (ver.1 &&& 0xFF).setWidth 8, maxRedirectionEntries := maxEntries ver.1 }
    detectEntries stray s (min s.maxRedirectionEntries.toNat 24)
  else { s with hw := id.2 }

/-- The call is refused. Only `ioapics[0]` is ever in use. -/
def State.refuses (s : State) (ioapicIndex pin : U8) : Prop :=
  s.numIoapics ≤ ioapicIndex ∨ s.maxRedirectionEntries ≤ pin

instance decidableRefuses (s : State) (ioapicIndex pin : U8) : Decidable (s.refuses ioapicIndex pin) :=
  inferInstanceAs (Decidable (_ ∨ _))

/-- What `interrupt_routing_setup_ioapic_entry` is asked for. -/
structure Setup where
  vector : U8
  deliveryMode : U8
  destMode : U8
  polarity : U8
  triggerMode : U8
  destination : U8

def Setup.low (e : Setup) : U32 :=
  e.vector.setWidth 32 ||| (e.deliveryMode.setWidth 32 <<< 8) ||| (e.destMode.setWidth 32 <<< 11) |||
    (e.polarity.setWidth 32 <<< 13) ||| (e.triggerMode.setWidth 32 <<< 15)

def Setup.high (e : Setup) : U32 := e.destination.setWidth 32 <<< 24

/-- The local copy of it. -/
def Setup.entry (e : Setup) : Entry :=
  ⟨e.vector.setWidth 32, e.deliveryMode, e.destMode, e.polarity, e.triggerMode, 0, e.destination⟩

def interruptRoutingSetupIoapicEntry (s : State) (ioapicIndex pin : U8) (e : Setup) : U8 × State :=
  if s.refuses ioapicIndex pin then (0, s)
  else
    let hw := ioapicWriteReg (ioapicWriteReg s.hw (lowReg pin) e.low) (highReg pin) e.high
    let s := { s with hw := hw }.setEntry pin fun _ => e.entry
    (1, { s with totalInterruptsRouted := s.totalInterruptsRouted + 1 })

def changeMask (s : State) (ioapicIndex pin : U8) (f : U32 → U32) (mask : U8) : U8 × State :=
  if s.refuses ioapicIndex pin then (0, s)
  else
    let low := ioapicReadReg stray s.hw (lowReg pin)
    let hw := ioapicWriteReg low.2 (lowReg pin) (f low.1)
    (1, { s with hw := hw }.setEntry pin fun e => { e with mask := mask })

def interruptRoutingMaskIoapicEntry (s : State) (ioapicIndex pin : U8) : U8 × State :=
  changeMask stray s ioapicIndex pin (· ||| bit 16) 1

def interruptRoutingUnmaskIoapicEntry (s : State) (ioapicIndex pin : U8) : U8 × State :=
  changeMask stray s ioapicIndex pin (· &&& ~~~bit 16) 0

/-! ## The calls -/

inductive Op
  | setup (ioapicIndex pin : U8) (e : Setup)
  | mask (ioapicIndex pin : U8)
  | unmask (ioapicIndex pin : U8)

def step (s : State) : Op → U8 × State
  | .setup ioapicIndex pin e => interruptRoutingSetupIoapicEntry s ioapicIndex pin e
  | .mask ioapicIndex pin => interruptRoutingMaskIoapicEntry stray s ioapicIndex pin
  | .unmask ioapicIndex pin => interruptRoutingUnmaskIoapicEntry stray s ioapicIndex pin

/-- After `interrupt_routing_init`, with any registers. -/
def start (index : U32) (regs : U8 → U32) : State := interruptRoutingDetectIoapic stray (cleared ⟨index, regs, 0⟩)

end Reads

/-- The entry of a pin in the device. -/
def IoApic.entry (h : IoApic) (pin : U8) : Entry := decode (h.regs (lowReg pin)) (h.regs (highReg pin))

/-- The local copy of every pin is its entry in the device, and nothing has been written beyond the copies. -/
def State.Synced (s : State) : Prop :=
  (∀ pin, pin < s.maxRedirectionEntries → ∃ h : pin.toNat < 24, s.entries ⟨pin.toNat, h⟩ = s.hw.entry pin) ∧
    s.outside = []

/-- A call is refused, or asks for what the device holds already. -/
def State.Fits (s : State) : Op × U8 → Prop
  | (.setup ioapicIndex pin e, _) => s.refuses ioapicIndex pin ∨ s.hw.entry pin = e.entry
  | (.mask ioapicIndex pin, _) => s.refuses ioapicIndex pin ∨ (s.hw.entry pin).mask = 1
  | (.unmask ioapicIndex pin, _) => s.refuses ioapicIndex pin ∨ (s.hw.entry pin).mask = 0

/-- No device is found, or it has at most 24 pins and what is read for them is its table. -/
def Agrees (stray : ℕ → U32) (regs : U8 → U32) : Prop :=
  stray 0 = 0xFFFFFFFF ∨ ((maxEntries (stray 1)).toNat ≤ 24 ∧ ∀ pin, pin < maxEntries (stray 1) →
    decode (stray (2 + 2 * pin.toNat)) (stray (2 + 2 * pin.toNat + 1)) =
      decode (regs (lowReg pin)) (regs (highReg pin)))

/-! ## The window is missed -/

variable {stray : ℕ → U32} {s s' : State} {h : IoApic} {reg pin ioapicIndex r : U8} {o : Op} {n : ℕ} {i : Fin 24}

theorem readReg_eq (stray : ℕ → U32) (h : IoApic) (reg : U8) : ioapicReadReg stray h reg =
    (stray h.reads, { h with index := reg.setWidth 32, reads := h.reads + 1 }) := rfl

theorem writeReg_eq (h : IoApic) (reg : U8) (value : U32) :
    ioapicWriteReg h reg value = { h with index := reg.setWidth 32 } := rfl

theorem setEntry_frame (s : State) (pin : U8) (f : Entry → Entry) :
    (s.setEntry pin f).hw = s.hw ∧ (s.setEntry pin f).maxRedirectionEntries = s.maxRedirectionEntries ∧
      (s.setEntry pin f).numIoapics = s.numIoapics := by
  unfold State.setEntry
  split_ifs with hpin
  · exact ⟨rfl, rfl, rfl⟩
  · exact ⟨rfl, rfl, rfl⟩

theorem setEntry_hw (s : State) (hw : IoApic) (pin : U8) (f : Entry → Entry) :
    { s with hw := hw }.setEntry pin f = { s.setEntry pin f with hw := hw } := by
  unfold State.setEntry
  split_ifs with hpin
  · rfl
  · rfl

theorem setEntry_of_lt (s : State) (hpin : pin.toNat < 24) (f : Entry → Entry) :
    (s.setEntry pin f).outside = s.outside ∧
      (s.setEntry pin f).entries = Function.update s.entries ⟨pin.toNat, hpin⟩ (f (s.entries ⟨pin.toNat, hpin⟩)) := by
  unfold State.setEntry
  rw [dif_pos hpin]
  exact ⟨rfl, rfl⟩

/-- From `s` to `s'` the first `n` entries have been read, from the given number of reads on. -/
structure Detected (stray : ℕ → U32) (s s' : State) (n : ℕ) : Prop where
  reads : s'.hw.reads = s.hw.reads + 2 * n
  regs : s'.hw.regs = s.hw.regs
  max : s'.maxRedirectionEntries = s.maxRedirectionEntries
  outside : s'.outside = s.outside
  entries : ∀ i : Fin 24, i.val < n →
    s'.entries i = decode (stray (s.hw.reads + 2 * i.val)) (stray (s.hw.reads + 2 * i.val + 1))

theorem detected (stray : ℕ → U32) (s : State) (hn : n ≤ 24) : Detected stray s (detectEntries stray s n) n := by
  induction n with
  | zero => exact ⟨rfl, rfl, rfl, rfl, fun i hi => absurd hi (Nat.not_lt_zero _)⟩
  | succ n ih =>
      obtain ⟨hreads, hregs, hmax, houtside, hentries⟩ := ih (by omega)
      have hpin : (BitVec.ofNat 8 n).toNat = n := by
        rw [BitVec.toNat_ofNat]
        omega
      have hlt : (BitVec.ofNat 8 n).toNat < 24 := by omega
      rw [detectEntries]
      simp only [readReg_eq]
      generalize detectEntries stray s n = u at hreads hregs hmax houtside hentries ⊢
      have hframe := setEntry_frame
        { u with hw := { u.hw with index := (highReg (BitVec.ofNat 8 n)).setWidth 32, reads := u.hw.reads + 1 + 1 } }
        (BitVec.ofNat 8 n) fun _ => decode (stray u.hw.reads) (stray (u.hw.reads + 1))
      have hset := setEntry_of_lt
        { u with hw := { u.hw with index := (highReg (BitVec.ofNat 8 n)).setWidth 32, reads := u.hw.reads + 1 + 1 } }
        hlt fun _ => decode (stray u.hw.reads) (stray (u.hw.reads + 1))
      refine ⟨?_, ?_, hframe.2.1.trans hmax, hset.1.trans houtside, fun i hi => ?_⟩
      · rw [hframe.1]
        show u.hw.reads + 1 + 1 = _
        rw [hreads]
        omega
      · rw [hframe.1]
        exact hregs
      · rw [hset.2]
        by_cases hi' : i.val = n
        · have hfin : i = ⟨(BitVec.ofNat 8 n).toNat, hlt⟩ := Fin.ext (hi'.trans hpin.symm)
          rw [hfin, Function.update_self, hreads]
          simp only [hpin]
        · have hne : i ≠ ⟨(BitVec.ofNat 8 n).toNat, hlt⟩ := fun he => hi' ((congrArg Fin.val he).trans hpin)
          rw [Function.update_of_ne hne]
          exact hentries i (by omega)

/-- The state when the version register has been read. -/
def found (stray : ℕ → U32) (regs : U8 → U32) : State :=
  { cleared ⟨1, regs, 2⟩ with
    ioapicSupported := 1, numIoapics := 1, id := ((stray 0 >>> 24) &&& 0xF).setWidth 8
    version := (stray 1 &&& 0xFF).setWidth 8, maxRedirectionEntries := maxEntries (stray 1) }

theorem start_of_absent (h : stray 0 = 0xFFFFFFFF) (index : U32) (regs : U8 → U32) :
    start stray index regs = cleared ⟨0, regs, 1⟩ := if_neg (not_not.mpr h)

theorem start_of_found (h : stray 0 ≠ 0xFFFFFFFF) (index : U32) (regs : U8 → U32) :
    start stray index regs = detectEntries stray (found stray regs) (min (maxEntries (stray 1)).toNat 24) :=
  if_pos h

/-- **After the detection** the copy is the table exactly when the reads agree with it. -/
theorem synced_start (stray : ℕ → U32) (index : U32) (regs : U8 → U32) :
    (start stray index regs).Synced ↔ Agrees stray regs := by
  unfold Agrees
  by_cases hid : stray 0 = 0xFFFFFFFF
  · rw [start_of_absent hid]
    exact iff_of_true ⟨fun pin hpin => absurd (show pin.toNat < 0 from hpin) (Nat.not_lt_zero _), rfl⟩
      (.inl hid)
  · obtain ⟨-, hregs, hmax, houtside, hentries⟩ :=
      detected stray (found stray regs) (Nat.min_le_right (maxEntries (stray 1)).toNat 24)
    rw [start_of_found hid, or_iff_right hid]
    generalize detectEntries stray (found stray regs) (min (maxEntries (stray 1)).toNat 24) = s
      at hregs hmax houtside hentries ⊢
    have hentry : ∀ pin, s.hw.entry pin = decode (regs (lowReg pin)) (regs (highReg pin)) := fun pin => by
      rw [IoApic.entry, hregs]
      rfl
    change s.maxRedirectionEntries = maxEntries (stray 1) at hmax
    change s.outside = [] at houtside
    unfold State.Synced
    rw [hmax, and_iff_left houtside]
    constructor
    · intro hsync
      have hle : (maxEntries (stray 1)).toNat ≤ 24 := by
        by_contra hgt
        have hpin : (24 : U8) < maxEntries (stray 1) := Nat.not_le.mp hgt
        obtain ⟨hlt, -⟩ := hsync 24 hpin
        exact absurd hlt (by decide)
      refine ⟨hle, fun pin hpin => ?_⟩
      obtain ⟨hlt, he⟩ := hsync pin hpin
      rw [hentry, hentries ⟨pin.toNat, hlt⟩ (Nat.lt_min.mpr ⟨hpin, hlt⟩)] at he
      exact he
    · rintro ⟨hle, hagree⟩ pin hpin
      have hlt : pin.toNat < 24 := (show pin.toNat < _ from hpin).trans_le hle
      refine ⟨hlt, ?_⟩
      rw [hentry, hentries ⟨pin.toNat, hlt⟩ (Nat.lt_min.mpr ⟨hpin, hlt⟩)]
      exact hagree pin hpin

/-! ## Calls -/

/-- A call that is not refused has a pin with a copy, and the change of this copy is all that matters. -/
theorem synced_setEntry (h : s.Synced) (hpin : pin < s.maxRedirectionEntries) {f : Entry → Entry}
    (hregs : s'.hw.regs = s.hw.regs) (hmax : s'.maxRedirectionEntries = s.maxRedirectionEntries)
    (houtside : s'.outside = (s.setEntry pin f).outside) (hentries : s'.entries = (s.setEntry pin f).entries) :
    s'.Synced ↔ s.hw.entry pin = f (s.hw.entry pin) := by
  obtain ⟨hall, hempty⟩ := h
  obtain ⟨hlt, he⟩ := hall pin hpin
  have hset := setEntry_of_lt s hlt f
  have hentry : ∀ q, s'.hw.entry q = s.hw.entry q := fun q => by rw [IoApic.entry, IoApic.entry, hregs]
  rw [hset.1] at houtside
  rw [hset.2, he] at hentries
  unfold State.Synced
  rw [hmax, houtside, and_iff_left hempty, hentries]
  constructor
  · intro hsync
    obtain ⟨hlt', he'⟩ := hsync pin hpin
    rw [hentry, Function.update_self] at he'
    exact he'.symm
  · intro hf q hq
    obtain ⟨hltq, heq⟩ := hall q hq
    refine ⟨hltq, ?_⟩
    rw [hentry]
    by_cases hqp : q = pin
    · subst hqp
      rw [Function.update_self]
      exact hf.symm
    · have hne : (⟨q.toNat, hltq⟩ : Fin 24) ≠ ⟨pin.toNat, hlt⟩ := fun hfin =>
        hqp (BitVec.eq_of_toNat_eq (Fin.mk.inj hfin))
      rw [Function.update_of_ne hne]
      exact heq

theorem lt_of_not_refuses (h : ¬ s.refuses ioapicIndex pin) : pin < s.maxRedirectionEntries :=
  BitVec.not_le.mp (not_or.mp h).2

/-- A field of an entry has its value already exactly when writing it changes nothing. -/
theorem mask_iff (e : Entry) (v : U8) : e = { e with mask := v } ↔ e.mask = v :=
  ⟨fun h => congrArg Entry.mask h, fun h => by rw [← h]⟩

theorem changeMask_accepted (hr : ¬ s.refuses ioapicIndex pin) (f : U32 → U32) (v : U8) :
    (changeMask stray s ioapicIndex pin f v).2 = { s.setEntry pin (fun e => { e with mask := v }) with
      hw := { s.hw with index := (lowReg pin).setWidth 32, reads := s.hw.reads + 1 } } := by
  rw [changeMask, if_neg hr]
  simp only [readReg_eq, writeReg_eq, setEntry_hw]

theorem setup_accepted (hr : ¬ s.refuses ioapicIndex pin) (e : Setup) :
    (interruptRoutingSetupIoapicEntry s ioapicIndex pin e).2 = { s.setEntry pin (fun _ => e.entry) with
      hw := { s.hw with index := (highReg pin).setWidth 32 }
      totalInterruptsRouted := (s.setEntry pin fun _ => e.entry).totalInterruptsRouted + 1 } := by
  rw [interruptRoutingSetupIoapicEntry, if_neg hr]
  simp only [writeReg_eq, setEntry_hw]

/-- **The functions that change the mask** keep the copy right exactly when the device has this mask. -/
theorem synced_changeMask (h : s.Synced) (ioapicIndex pin : U8) (f : U32 → U32) (v : U8) :
    (changeMask stray s ioapicIndex pin f v).2.Synced ↔
      s.refuses ioapicIndex pin ∨ (s.hw.entry pin).mask = v := by
  by_cases hr : s.refuses ioapicIndex pin
  · rw [changeMask, if_pos hr]
    exact iff_of_true h (.inl hr)
  · rw [changeMask_accepted hr, or_iff_right hr, ← mask_iff]
    exact synced_setEntry (f := fun e => { e with mask := v }) h (lt_of_not_refuses hr) rfl
      (setEntry_frame s pin _).2.1 rfl rfl

theorem synced_setup (h : s.Synced) (ioapicIndex pin : U8) (e : Setup) :
    (interruptRoutingSetupIoapicEntry s ioapicIndex pin e).2.Synced ↔
      s.refuses ioapicIndex pin ∨ s.hw.entry pin = e.entry := by
  by_cases hr : s.refuses ioapicIndex pin
  · rw [interruptRoutingSetupIoapicEntry, if_pos hr]
    exact iff_of_true h (.inl hr)
  · rw [setup_accepted hr, or_iff_right hr]
    exact synced_setEntry (f := fun _ => e.entry) h (lt_of_not_refuses hr) rfl
      (setEntry_frame s pin _).2.1 rfl rfl

/-- **One call** keeps the copy right exactly when it asks for what the device holds. -/
theorem synced_step (h : s.Synced) (o : Op) : (step stray s o).2.Synced ↔ s.Fits (o, (step stray s o).1) := by
  cases o with
  | setup ioapicIndex pin e => exact synced_setup h ioapicIndex pin e
  | mask ioapicIndex pin => exact synced_changeMask h ioapicIndex pin (· ||| bit 16) 1
  | unmask ioapicIndex pin => exact synced_changeMask h ioapicIndex pin (· &&& ~~~bit 16) 0

/-- **The table never changes.** -/
theorem regs_step (stray : ℕ → U32) (s : State) (o : Op) : (step stray s o).2.hw.regs = s.hw.regs := by
  have hmask : ∀ ioapicIndex pin f v, (changeMask stray s ioapicIndex pin f v).2.hw.regs = s.hw.regs := by
    intro ioapicIndex pin f v
    by_cases hr : s.refuses ioapicIndex pin
    · rw [changeMask, if_pos hr]
    · rw [changeMask_accepted hr]
  cases o with
  | setup ioapicIndex pin e =>
      show (interruptRoutingSetupIoapicEntry s ioapicIndex pin e).2.hw.regs = _
      by_cases hr : s.refuses ioapicIndex pin
      · rw [interruptRoutingSetupIoapicEntry, if_pos hr]
      · rw [setup_accepted hr]
  | mask ioapicIndex pin => exact hmask ioapicIndex pin (· ||| bit 16) 1
  | unmask ioapicIndex pin => exact hmask ioapicIndex pin (· &&& ~~~bit 16) 0

/-- **Exactness.** For any registers and any stray reads, the copy is the table and is not overrun throughout a
run after `interrupt_routing_init` exactly when the detection agrees with the table, and every call asks for
what the device holds. -/
theorem copy_throughout_iff {index : U32} {regs : U8 → U32} {t : State} {es : List (Op × U8)}
    (h : Run (total (step stray)) (start stray index regs) es t) :
    Throughout (total (step stray)) State.Synced (start stray index regs) es ↔
      Agrees stray regs ∧ Along (total (step stray)) State.Fits (start stray index regs) es := by
  have hiff := h.throughout_iff_along (I := fun _ => True) (Q := State.Synced) (P := State.Fits)
    (fun _ _ _ _ _ _ => trivial) fun s o r s' _ hs hstep => by
      have he : step stray s o = (r, s') := total_eq_some.mp hstep
      have hiff := @synced_step stray s hs o
      rwa [he] at hiff
  rw [← synced_start stray index regs]
  exact ⟨fun hall => ⟨hall.first, (hiff trivial hall.first).mp hall⟩, fun hall => (hiff trivial hall.1).mpr hall.2⟩

/-- The entry that all registers zero hold. -/
def zeroSetup : Setup := ⟨0, 0, 0, 0, 0, 0⟩

/-- A device and reads with all bits zero: the entry it holds may be set up. -/
theorem synced_zero : Throughout (total (step fun _ => 0)) State.Synced (start (fun _ => 0) 0 fun _ => 0)
    [(.setup 0 0 zeroSetup, 1)] := by
  have hstep : total (step fun _ => 0) (start (fun _ => 0) 0 fun _ => 0) (.setup 0 0 zeroSetup) =
      some (1, (step (fun _ => 0) (start (fun _ => 0) 0 fun _ => 0) (.setup 0 0 zeroSetup)).2) := rfl
  refine (copy_throughout_iff (.cons hstep (.nil _))).mpr ⟨.inr ⟨by decide, fun pin hpin => rfl⟩, ?_⟩
  exact (along_cons hstep).mpr ⟨.inr (by decide), along_nil _ _⟩

/-- The same with vector `0x20`. -/
def vectorSetup : Setup := { zeroSetup with vector := 0x20 }

theorem not_synced_vector : Agrees (fun _ => 0) (fun _ => 0) ∧
    ∃ t, Run (total (step fun _ => 0)) (start (fun _ => 0) 0 fun _ => 0) [(.setup 0 0 vectorSetup, 1)] t ∧
      ¬ t.Synced := by
  refine ⟨.inr ⟨by decide, fun _ _ => rfl⟩,
    (step (fun _ => 0) (start (fun _ => 0) 0 fun _ => 0) (.setup 0 0 vectorSetup)).2, .cons rfl (.nil _),
    fun h => ?_⟩
  obtain ⟨_, he⟩ := h.1 0 (by decide)
  have hcopy : (step (fun _ => 0) (start (fun _ => 0) 0 fun _ => 0) (.setup 0 0 vectorSetup)).2.entries 0 =
      (step (fun _ => 0) (start (fun _ => 0) 0 fun _ => 0) (.setup 0 0 vectorSetup)).2.hw.entry 0 := he
  exact absurd hcopy (by decide)

end BloodKernel.InterruptRouting
