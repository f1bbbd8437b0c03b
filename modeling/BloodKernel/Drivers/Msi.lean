import BloodKernel.Drivers.PciWrite
import BloodKernel.Lib.Follow

set_option autoImplicit false

/-!
# Message signalled interrupts

`drivers/interrupt_routing.c` looks for the MSI capability in the list of a function's capabilities, and writes the
message and the enable bit through the configuration ports of `drivers/pci.c`. The control word is in the upper half
of its double word; it is written to the lower one.

* `capId`, `capNext`: the list; `interruptRoutingSetupMsi`: the call.
* `Programmed`: what the registers of the capability should hold then.
* `setup_eq`: what a call does; **`not_programmed`**: what it writes is never that.
* **`setup_msi_iff`**: the registers hold it exactly when the call does nothing.
-/

namespace BloodKernel.Msi

open Lib Pci

/-! ### The list of capabilities -/

section Capabilities

variable (cfg : Config) (bus device function : U8)

/-- The first pointer, at `0x34`. -/
def firstCap : U8 := (pciConfigRead cfg bus device function 0x34 &&& 0xFF).setWidth 8

/-- `cap_header & 0xFF` -/
def capId (capPtr : U8) : U8 := (pciConfigRead cfg bus device function capPtr &&& 0xFF).setWidth 8

/-- `(cap_header >> 8) & 0xFF` -/
def capNext (capPtr : U8) : U8 := ((pciConfigRead cfg bus device function capPtr >>> 8) &&& 0xFF).setWidth 8

/-- `MSI_CAP_ID` -/
def msiCapId : U8 := 0x05

/-- Where the search for the MSI capability stops: at it, or at the end of the list. -/
def StopsAtMsi (capPtr : U8) : Prop := capPtr = 0 ∨ capId cfg bus device function capPtr = msiCapId

instance decidableStopsAtMsi : DecidablePred (StopsAtMsi cfg bus device function) := fun _ =>
  inferInstanceAs (Decidable (_ ∨ _))

end Capabilities

/-! ### The driver -/

/-- `msi_entry_t` -/
structure MsiEntry where
  address : BitVec 64
  data : U32
  vector : U8
  deliveryMode : U8
  destination : U8
  enabled : U8

/-- What `interrupt_routing_info` has of MSI. -/
structure Info where
  msiSupported : U8
  msixSupported : U8
  msiEntries : Fin 256 → MsiEntry
  numMsiEntries : U32
  totalInterruptsRouted : U32

/-- `DELIVERY_MODE_FIXED` -/
def deliveryModeFixed : U8 := 0

def msiAddress (destination : U8) : U32 := 0xFEE00000 ||| (destination.setWidth 32 <<< 12)

def msiData (vector : U8) : U32 := vector.setWidth 32 ||| (deliveryModeFixed.setWidth 32 <<< 8)

theorem lt_of_not_full {n : U32} (h : ¬256 ≤ n) : n.toNat < 256 := by
  rw [BitVec.not_le, BitVec.lt_def] at h
  exact h

def Info.record (s : Info) (h : ¬256 ≤ s.numMsiEntries) (vector destination : U8) : Info :=
  let entry : MsiEntry :=
    ⟨(msiAddress destination).setWidth 64, msiData vector, vector, deliveryModeFixed, destination, 1⟩
  { s with
    msiEntries := Function.update s.msiEntries ⟨s.numMsiEntries.toNat, lt_of_not_full h⟩ entry
    numMsiEntries := s.numMsiEntries + 1, totalInterruptsRouted := s.totalInterruptsRouted + 1 }

section Setup

variable (cfg : Config) (bus device function : U8)

/-- Address and data are written. `cap_ptr + 8` and the others are cut to 8 bits by the access. -/
def writeMessage (capPtr vector destination : U8) : Config :=
  let cfg := pciConfigWrite cfg bus device function (capPtr + 4) (msiAddress destination)
  pciConfigWrite cfg bus device function (capPtr + 8) (msiData vector)

/-- The writes for a capability: the message, then the enable bit. -/
def programMsi (capPtr vector destination : U8) : Config :=
  let cfg := writeMessage cfg bus device function capPtr vector destination
  let control := pciConfigRead cfg bus device function (capPtr + 2)
  pciConfigWrite cfg bus device function (capPtr + 2) (control ||| bit 0)

/-- The search for the capability looks at no more than `fuel` pointers. -/
def interruptRoutingSetupMsi (s : Info) (vector destination : U8) (fuel : ℕ) : Option (U8 × Config × Info) :=
  if s.msiSupported = 0 then some (0, cfg, s)
  else if h : 256 ≤ s.numMsiEntries then some (0, cfg, s)
  else
    (follow (StopsAtMsi cfg bus device function) (capNext cfg bus device function) fuel
      (firstCap cfg bus device function)).map fun capPtr =>
        if capPtr = 0 then (0, cfg, s)
        else (1, programMsi cfg bus device function capPtr vector destination, s.record h vector destination)

/-! ### What should be written -/

/-- `MSI_CTRL_64BIT`, in the low byte of the control word. -/
def Is64 (p : U8) : Prop := (cfg bus device function (p + 2)).getLsbD 7 = true

instance decidableIs64 (p : U8) : Decidable (Is64 cfg bus device function p) := inferInstanceAs (Decidable (_ = _))

/-- `MSI_CTRL_PER_VECTOR_MASK`, in the high byte. -/
def HasMask (p : U8) : Prop := (cfg bus device function (p + 3)).getLsbD 0 = true

instance decidableHasMask (p : U8) : Decidable (HasMask cfg bus device function p) :=
  inferInstanceAs (Decidable (_ = _))

/-- The number of bytes of the message address. -/
def addressBytes (p : U8) : ℕ := if Is64 cfg bus device function p then 8 else 4

/-- The number of bytes of the capability: header, control and address, two bytes of data and with masks two more
and two double words. -/
def capBytes (p : U8) : ℕ :=
  4 + addressBytes cfg bus device function p + if HasMask cfg bus device function p then 12 else 2

/-- Byte `k` of the capability. -/
def capByte (p : U8) (k : ℕ) : U8 := cfg bus device function (p + BitVec.ofNat 8 k)

end Setup

/-- From `cfg` to `cfg'` the capability at `p` has been programmed: the address, the data, the enable bit, and
nothing else in it. -/
structure Programmed (cfg cfg' : Config) (bus device function p vector destination : U8) : Prop where
  address : ∀ k < addressBytes cfg bus device function p,
    capByte cfg' bus device function p (4 + k) = leByte (msiAddress destination) k
  data : ∀ k < 2, capByte cfg' bus device function p (4 + addressBytes cfg bus device function p + k) =
    leByte (msiData vector) k
  control : capByte cfg' bus device function p 2 = capByte cfg bus device function p 2 ||| 1
  frame : ∀ k < capBytes cfg bus device function p,
    k ≠ 2 → (k < 4 ∨ 4 + addressBytes cfg bus device function p + 2 ≤ k) →
      capByte cfg' bus device function p k = capByte cfg bus device function p k

/-- The function has an MSI capability, the first in its list at `p`. -/
def HasMsi (cfg : Config) (bus device function p : U8) : Prop :=
  p ≠ 0 ∧ ∃ n, FirstStop (StopsAtMsi cfg bus device function) (capNext cfg bus device function)
    (firstCap cfg bus device function) n ∧ (capNext cfg bus device function)^[n] (firstCap cfg bus device function) = p

/-! ### What is written -/

variable {cfg cfg' : Config} {s s' : Info} {bus device function p vector destination : U8} {fuel : ℕ}

/-- **What a call does** for a function with the capability, once the search has got to it. -/
theorem setup_eq_some_one (hcap : HasMsi cfg bus device function p)
    (h : interruptRoutingSetupMsi cfg bus device function s vector destination fuel = some (1, cfg', s')) :
    (s.msiSupported ≠ 0 ∧ ¬256 ≤ s.numMsiEntries) ∧
      cfg' = programMsi cfg bus device function p vector destination := by
  obtain ⟨hp, n, hn, rfl⟩ := hcap
  have hne : (0 : U8) ≠ 1 := by decide
  unfold interruptRoutingSetupMsi at h
  split_ifs at h with hsupported hfull
  · cases Option.some_inj.mp h
  · cases Option.some_inj.mp h
  · refine ⟨⟨hsupported, hfull⟩, ?_⟩
    obtain ⟨q, hq, hresult⟩ := Option.map_eq_some_iff.mp h
    obtain ⟨m, -, hm, rfl⟩ := follow_eq_some_iff.mp hq
    obtain rfl := hm.unique hn
    rw [if_neg hp] at hresult
    exact (congrArg (fun r => r.2.1) hresult).symm

/-- With MSI supported and room for an entry the call programs the capability. -/
theorem exists_setup_eq_one (hcap : HasMsi cfg bus device function p) (hsupported : s.msiSupported ≠ 0)
    (hfull : ¬256 ≤ s.numMsiEntries) (vector destination : U8) :
    ∃ fuel s', interruptRoutingSetupMsi cfg bus device function s vector destination fuel =
      some (1, programMsi cfg bus device function p vector destination, s') := by
  obtain ⟨hp, n, hn, rfl⟩ := hcap
  refine ⟨n + 1, s.record hfull vector destination, ?_⟩
  unfold interruptRoutingSetupMsi
  rw [if_neg hsupported, dif_neg hfull, follow_eq_some_iff.mpr ⟨n, Nat.lt_succ_self n, hn, rfl⟩, Option.map_some,
    if_neg hp]

theorem programMsi_apply (hd : device.toNat < 32) (hf : function.toNat < 8) (p vector destination offset : U8) :
    programMsi cfg bus device function p vector destination bus device function offset =
      if offset &&& 0xFC = (p + 2) &&& 0xFC then
        leByte (pciConfigRead (writeMessage cfg bus device function p vector destination) bus device function (p + 2)
          ||| bit 0) (offset &&& 3).toNat
      else if offset &&& 0xFC = (p + 8) &&& 0xFC then leByte (msiData vector) (offset &&& 3).toNat
      else if offset &&& 0xFC = (p + 4) &&& 0xFC then leByte (msiAddress destination) (offset &&& 3).toNat
      else cfg bus device function offset := by
  unfold programMsi
  rw [pciConfigWrite_apply _ bus _ hd hf]
  unfold writeMessage
  rw [pciConfigWrite_apply _ bus _ hd hf, pciConfigWrite_apply _ bus _ hd hf]
  simp only [true_and]

theorem leByte_msiData (vector : U8) {k : ℕ} (hk : k ≠ 0) : leByte (msiData vector) k = 0 := by
  have hdata : msiData vector = vector.setWidth 32 := by
    unfold msiData deliveryModeFixed
    exact BitVec.or_zero
  rw [hdata, leByte_setWidth, if_neg hk]

theorem leByte_msiAddress : ∀ destination : U8, leByte (msiAddress destination) 3 = 0xFE := by
  decide

/-- What is read at the upper half of a double word is in the lower half of the value. -/
theorem leByte_control (cfg : Config) (bus device function : U8) {offset : U8} (h : 2 ≤ (offset &&& 3).toNat) :
    leByte (pciConfigRead cfg bus device function offset ||| bit 0) (offset &&& 3).toNat = 0#8 := by
  apply BitVec.eq_of_getLsbD_eq
  intro i hi
  unfold pciConfigRead
  rw [leByte, BitVec.getLsbD_extractLsb', getLsbD_or_bit_of_ne (by omega), BitVec.getLsbD_ushiftRight,
    BitVec.getLsbD_of_ge (cfg.data _) _ (by omega), Bool.and_false, BitVec.getLsbD_zero]

/-- The places of the writes. If the capability begins in the first half of a double word, the control word is
shifted, otherwise the data are written over the address. -/
theorem places : ∀ p : U8, 2 ≤ ((p + 2) &&& 3).toNat ∨
    ((p + 7) &&& 0xFC ≠ (p + 2) &&& 0xFC ∧ (p + 7) &&& 0xFC = (p + 8) &&& 0xFC ∧ ((p + 7) &&& 3).toNat ≠ 0) := by
  decide

/-- **What is written** is never a programmed capability. -/
theorem not_programmed (hd : device.toNat < 32) (hf : function.toNat < 8) :
    ¬Programmed cfg (programMsi cfg bus device function p vector destination) bus device function p vector
      destination := by
  intro h
  rcases places p with hshift | ⟨hword, hdata, hplace⟩
  · -- the enable bit
    have hcontrol := h.control
    have hbyte := @programMsi_apply cfg bus device function hd hf p vector destination (p + 2)
    rw [if_pos rfl, leByte_control _ _ _ _ hshift] at hbyte
    have hzero : capByte (programMsi cfg bus device function p vector destination) bus device function p 2 = 0 := hbyte
    rw [hzero] at hcontrol
    have hbit := congrArg (fun v : U8 => v.getLsbD 0) hcontrol
    simp at hbit
  · -- the highest byte of the address
    have hfour : 3 < addressBytes cfg bus device function p := by
      unfold addressBytes
      split_ifs <;> decide
    have haddress := h.address 3 hfour
    have hbyte := @programMsi_apply cfg bus device function hd hf p vector destination (p + 7)
    rw [if_neg hword, if_pos hdata, leByte_msiData vector hplace] at hbyte
    have hzero : capByte (programMsi cfg bus device function p vector destination) bus device function p (4 + 3) = 0 :=
      hbyte
    rw [hzero, leByte_msiAddress] at haddress
    exact absurd haddress (by decide)

/-- When `interrupt_routing_setup_msi` returns 1, the capability has been programmed. -/
def ProgramsMsi (cfg : Config) (s : Info) (bus device function p vector destination : U8) : Prop :=
  ∀ fuel cfg' s', interruptRoutingSetupMsi cfg bus device function s vector destination fuel = some (1, cfg', s') →
    Programmed cfg cfg' bus device function p vector destination

/-- **Exactness.** For a function with an MSI capability, of either form and wherever it is, a call that returns 1
has not programmed it: it is programmed whenever the call returns 1 exactly when the call does nothing. -/
theorem setup_msi_iff (cfg : Config) (s : Info) (bus device function p vector destination : U8)
    (hd : device.toNat < 32) (hf : function.toNat < 8) (hcap : HasMsi cfg bus device function p) :
    ProgramsMsi cfg s bus device function p vector destination ↔
      s.msiSupported = 0 ∨ 256 ≤ s.numMsiEntries := by
  constructor
  · intro h
    by_contra hactive
    obtain ⟨hsupported, hfull⟩ := not_or.mp hactive
    obtain ⟨fuel, s', hsetup⟩ := exists_setup_eq_one hcap hsupported hfull vector destination
    exact not_programmed hd hf (h _ _ _ hsetup)
  · intro h fuel cfg' s' hsetup
    obtain ⟨⟨hsupported, hfull⟩, -⟩ := setup_eq_some_one hcap hsetup
    exact absurd h (not_or.mpr ⟨hsupported, hfull⟩)

/-- Functions with an MSI capability at `0x50`, of the 32-bit form. -/
def withMsi : Config := fun _ _ _ offset => if offset = 0x34 then 0x50 else if offset = 0x50 then 0x05 else 0

theorem hasMsi_withMsi : HasMsi withMsi 0 0 0 0x50 := by
  have hfirst : firstCap withMsi 0 0 0 = 0x50 := by decide
  have hid : StopsAtMsi withMsi 0 0 0 0x50 := by decide
  refine ⟨by decide, 0, .zero ?_, hfirst⟩
  rwa [hfirst]

/-- `interrupt_routing_info` after the initialization, with a flag for MSI. -/
def initial (msiSupported : U8) : Info := ⟨msiSupported, 0, fun _ => ⟨0, 0, 0, 0, 0, 0⟩, 0, 0⟩

/-- Where MSI is not supported, nothing is written. -/
theorem programsMsi_unsupported : ProgramsMsi withMsi (initial 0) 0 0 0 0x50 0x40 0 :=
  (setup_msi_iff withMsi (initial 0) 0 0 0 0x50 0x40 0 (by decide) (by decide) hasMsi_withMsi).mpr (.inl rfl)

/-- Where it is, a call returns 1 without enabling it. -/
theorem not_programsMsi : HasMsi withMsi 0 0 0 0x50 ∧ ¬ProgramsMsi withMsi (initial 1) 0 0 0 0x50 0x40 0 := by
  refine ⟨hasMsi_withMsi, fun h => ?_⟩
  obtain ⟨fuel, s', hsetup⟩ := exists_setup_eq_one (s := initial 1) hasMsi_withMsi (by decide) (by decide) 0x40 0
  exact not_programmed (by decide) (by decide) (h _ _ _ hsetup)

end BloodKernel.Msi
