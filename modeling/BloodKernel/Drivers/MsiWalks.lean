import BloodKernel.Drivers.Msi
import Mathlib.Data.FinEnum

set_option autoImplicit false

/-!
# The walks over the capabilities

`interrupt_routing_init` and `interrupt_routing_setup_msi` follow the pointers of a capability list until they come
to the end of it or to a capability that they look for. How many pointers they follow is not limited.

* `interruptRoutingDetectMsi`: the search in all functions of the first buses.
* `DetectEnds`; `detectMsi_ends_iff`, `setupMsi_ends_iff`: when each of the two ends.
* **`capability_walks_end_iff`**: they end exactly when the first 256 pointers of each list have one that stops.
-/

namespace BloodKernel.Msi

open Lib Pci

/-! ### The driver -/

section Detect

variable (cfg : Config) (bus device function : U8)

/-- `MSIX_CAP_ID` -/
def msixCapId : U8 := 0x11

/-- Where the search of `interrupt_routing_detect_msi` stops. -/
def StopsDetection (capPtr : U8) : Prop :=
  capPtr = 0 ∨ capId cfg bus device function capPtr = msiCapId ∨ capId cfg bus device function capPtr = msixCapId

instance decidableStopsDetection : DecidablePred (StopsDetection cfg bus device function) := fun _ =>
  inferInstanceAs (Decidable (_ ∨ _))

/-- What is noted down about the capability that was found. -/
def detected (s : Info) (capPtr : U8) : Info :=
  if capPtr = 0 then s
  else if capId cfg bus device function capPtr = msiCapId then { s with msiSupported := 1 }
  else { s with msixSupported := 1 }

def Absent : Prop := pciConfigRead cfg bus device function 0 = 0xFFFFFFFF

instance decidableAbsent : Decidable (Absent cfg bus device function) := inferInstanceAs (Decidable (_ = _))

def detectFunction (fuel : ℕ) (s : Info) : Option Info :=
  if Absent cfg bus device function then some s
  else
    (follow (StopsDetection cfg bus device function) (capNext cfg bus device function) fuel
      (firstCap cfg bus device function)).map (detected cfg bus device function s)

end Detect

def detectDevice (cfg : Config) (bus device : U8) (fuel : ℕ) (s : Info) : Option Info :=
  (counter 8 0 8).foldlM (fun s function => detectFunction cfg bus device function fuel s) s

def detectBus (cfg : Config) (bus : U8) (fuel : ℕ) (s : Info) : Option Info :=
  (counter 8 0 32).foldlM (fun s device => detectDevice cfg bus device fuel s) s

/-- Each search looks at no more than `fuel` pointers. -/
def interruptRoutingDetectMsi (cfg : Config) (fuel : ℕ) (s : Info) : Option Info :=
  (counter 8 0 8).foldlM (fun s bus => detectBus cfg bus fuel s) s

/-! ### Their ends -/

variable {cfg : Config} {bus device function : U8}

/-- Pointer `n` of the list. -/
def capPtrAt (cfg : Config) (bus device function : U8) (n : ℕ) : U8 :=
  (capNext cfg bus device function)^[n] (firstCap cfg bus device function)

theorem card_u8 : Fintype.card U8 = 256 := FinEnum.card_eq_fintypeCard.symm.trans rfl

/-- The search in a function ends within some fuel. -/
def DetectEnds (cfg : Config) (bus device function : U8) (fuel : ℕ) : Prop :=
  Absent cfg bus device function ∨
    ∃ n < fuel, StopsDetection cfg bus device function (capPtrAt cfg bus device function n)

theorem isSome_detectFunction_iff {fuel : ℕ} {s : Info} :
    (detectFunction cfg bus device function fuel s).isSome ↔ DetectEnds cfg bus device function fuel := by
  unfold detectFunction DetectEnds
  split_ifs with h
  · exact iff_of_true rfl (.inl h)
  · rw [Option.isSome_map, isSome_follow_iff, or_iff_right h]
    rfl

theorem isSome_detectMsi_iff {fuel : ℕ} {s : Info} : (interruptRoutingDetectMsi cfg fuel s).isSome ↔
    ∀ bus ∈ counter 8 0 8, ∀ device ∈ counter 8 0 32, ∀ function ∈ counter 8 0 8,
      DetectEnds cfg bus device function fuel := by
  have hfunction (bus device : U8) : ∀ s, ∀ function ∈ counter 8 0 8,
      (detectFunction cfg bus device function fuel s).isSome ↔ DetectEnds cfg bus device function fuel :=
    fun _ _ _ => isSome_detectFunction_iff
  have hdevice (bus : U8) : ∀ s, ∀ device ∈ counter 8 0 32, (detectDevice cfg bus device fuel s).isSome ↔
      ∀ function ∈ counter 8 0 8, DetectEnds cfg bus device function fuel :=
    fun s device _ => isSome_foldlM_iff (hfunction bus device) s
  have hbus : ∀ s, ∀ bus ∈ counter 8 0 8, (detectBus cfg bus fuel s).isSome ↔
      ∀ device ∈ counter 8 0 32, ∀ function ∈ counter 8 0 8, DetectEnds cfg bus device function fuel :=
    fun s bus _ => isSome_foldlM_iff (hdevice bus) s
  exact isSome_foldlM_iff hbus s

/-- More than 256 pointers need not be looked at. -/
theorem detectEnds_256 {fuel : ℕ} (h : DetectEnds cfg bus device function fuel) :
    DetectEnds cfg bus device function 256 := by
  refine h.imp_right fun hstop => ?_
  have hcard := exists_follow_iff.mp ⟨fuel, isSome_follow_iff.mpr hstop⟩
  rwa [card_u8] at hcard

/-- **The search at the start.** -/
theorem detectMsi_ends_iff (cfg : Config) (s : Info) : (∃ fuel, (interruptRoutingDetectMsi cfg fuel s).isSome) ↔
    ∀ bus ∈ counter 8 0 8, ∀ device ∈ counter 8 0 32, ∀ function ∈ counter 8 0 8,
      DetectEnds cfg bus device function 256 := by
  constructor
  · rintro ⟨fuel, h⟩ bus hbus device hdevice function hfunction
    exact detectEnds_256 (isSome_detectMsi_iff.mp h bus hbus device hdevice function hfunction)
  · exact fun h => ⟨256, isSome_detectMsi_iff.mpr h⟩

/-- **The search of a call.** -/
theorem setupMsi_ends_iff (cfg : Config) (bus device function : U8) (s : Info) (vector destination : U8) :
    (∃ fuel, (interruptRoutingSetupMsi cfg bus device function s vector destination fuel).isSome) ↔
      s.msiSupported = 0 ∨ 256 ≤ s.numMsiEntries ∨
        ∃ n < 256, StopsAtMsi cfg bus device function (capPtrAt cfg bus device function n) := by
  unfold interruptRoutingSetupMsi
  split_ifs with hsupported hfull
  · exact iff_of_true ⟨0, rfl⟩ (.inl hsupported)
  · exact iff_of_true ⟨0, rfl⟩ (.inr (.inl hfull))
  · rw [or_iff_right hsupported, or_iff_right hfull, ← card_u8]
    simp only [Option.isSome_map]
    exact exists_follow_iff

/-- **Exactness.** The walks of `interrupt_routing_init` end exactly when, in each function that there is, one of the
first 256 pointers is zero or leads to an MSI or MSI-X capability; the walk of a call that gets to it ends exactly
when one of the first 256 is zero or leads to an MSI capability. -/
theorem capability_walks_end_iff (cfg : Config) (s : Info) (bus device function vector destination : U8) :
    ((∃ fuel, (interruptRoutingDetectMsi cfg fuel s).isSome) ↔
      ∀ bus ∈ counter 8 0 8, ∀ device ∈ counter 8 0 32, ∀ function ∈ counter 8 0 8,
        DetectEnds cfg bus device function 256) ∧
    ((∃ fuel, (interruptRoutingSetupMsi cfg bus device function s vector destination fuel).isSome) ↔
      s.msiSupported = 0 ∨ 256 ≤ s.numMsiEntries ∨
        ∃ n < 256, StopsAtMsi cfg bus device function (capPtrAt cfg bus device function n)) :=
  ⟨detectMsi_ends_iff cfg s, setupMsi_ends_iff cfg bus device function s vector destination⟩

/-- One function, with a capability for power management and one for MSI behind it. -/
def powerThenMsi : Config := fun bus device function offset =>
  if bus = 0 ∧ device = 0 ∧ function = 0 then
    if offset = 0x34 then 0x40
    else if offset = 0x40 then 0x01
    else if offset = 0x41 then 0x50
    else if offset = 0x50 then 0x05
    else 0
  else 0xFF

theorem absent_powerThenMsi (h : ¬(bus = 0 ∧ device = 0 ∧ function = 0)) (hd : device.toNat < 32)
    (hf : function.toNat < 8) : Absent powerThenMsi bus device function := by
  have hones : (fun i => powerThenMsi bus device function (0 + BitVec.ofNat 8 i)) = fun _ => 0xFF :=
    funext fun _ => if_neg h
  unfold Absent
  rw [pciConfigRead_eq _ bus hd hf rfl, hones]
  decide

theorem walks_end_powerThenMsi :
    (∃ fuel, (interruptRoutingDetectMsi powerThenMsi fuel (initial 0)).isSome) ∧
      ∃ fuel, (interruptRoutingSetupMsi powerThenMsi 0 0 0 (initial 1) 0x40 0 fuel).isSome := by
  refine ⟨(capability_walks_end_iff powerThenMsi (initial 0) 0 0 0 0x40 0).1.mpr fun bus _ device hd function hf => ?_,
    (capability_walks_end_iff powerThenMsi (initial 1) 0 0 0 0x40 0).2.mpr (.inr (.inr ⟨1, by decide, by decide⟩))⟩
  by_cases h : bus = 0 ∧ device = 0 ∧ function = 0
  · obtain ⟨rfl, rfl, rfl⟩ := h
    exact .inr ⟨1, by decide, by decide⟩
  · exact .inl (absent_powerThenMsi h ((mem_counter (by decide)).mp hd).2 ((mem_counter (by decide)).mp hf).2)

/-- Functions with one capability, for power management, whose pointer leads back to it. -/
def selfPointing : Config := fun _ _ _ offset =>
  if offset = 0x34 ∨ offset = 0x41 then 0x40 else if offset = 0x40 then 0x01 else 0

theorem capPtrAt_selfPointing (n : ℕ) : capPtrAt selfPointing 0 0 0 n = 0x40 := by
  have hfirst : firstCap selfPointing 0 0 0 = 0x40 := by decide
  have hnext : capNext selfPointing 0 0 0 0x40 = 0x40 := by decide
  unfold capPtrAt
  rw [hfirst]
  exact Function.iterate_fixed hnext n

theorem not_walks_end_selfPointing :
    (¬∃ fuel, (interruptRoutingDetectMsi selfPointing fuel (initial 0)).isSome) ∧
      ¬∃ fuel, (interruptRoutingSetupMsi selfPointing 0 0 0 (initial 1) 0x40 0 fuel).isSome := by
  refine ⟨fun h => ?_, fun h => ?_⟩
  · have hzero : (0 : U8) ∈ counter 8 0 8 ∧ (0 : U8) ∈ counter 8 0 32 := by decide
    obtain habsent | ⟨n, -, hn⟩ := (detectMsi_ends_iff selfPointing (initial 0)).mp h 0 hzero.1 0 hzero.2 0 hzero.1
    · exact absurd habsent (by decide)
    · rw [capPtrAt_selfPointing] at hn
      exact absurd hn (by decide)
  · obtain hsupported | hfull | ⟨n, -, hn⟩ := (setupMsi_ends_iff selfPointing 0 0 0 (initial 1) 0x40 0).mp h
    · exact absurd hsupported (by decide)
    · exact absurd hfull (by decide)
    · rw [capPtrAt_selfPointing] at hn
      exact absurd hn (by decide)

end BloodKernel.Msi
