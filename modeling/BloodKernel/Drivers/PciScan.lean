import BloodKernel.Drivers.Pci
import Mathlib.Data.Prod.Lex

set_option autoImplicit false

/-!
# The scan of the PCI buses

What `pci_init` of `drivers/pci.c` records, for every content of the configuration space.

* `Present`, `MultiFunction`, `Recorded`: the functions that are recorded, by their configuration bytes;
  `PciDevice.of`: the entry of a function, by its bytes.
* `pciScanDevice_eq`, `scanBuses_eq`: a device, and some buses, as the entries that they add.
* **`pciInit_eq`**: the entries of all recorded functions in order, as many as fit.
* **`pci_init_records`**: these are increasing, and those of the recorded functions.
-/

namespace BloodKernel.Pci

open Lib

/-! ### The functions of a configuration space -/

variable {cfg : Config} {bus device function : U8} {t : Table}

def Config.vendor (cfg : Config) (bus device function : U8) : U16 :=
  cfg bus device function 0x01 ++ cfg bus device function 0x00

def Present (cfg : Config) (bus device function : U8) : Prop := cfg.vendor bus device function ≠ 0xFFFF

/-- The multi-function bit in the header type of function 0. -/
def MultiFunction (cfg : Config) (bus device : U8) : Prop := cfg bus device 0 0x0E &&& 0x80 ≠ 0

instance (cfg : Config) (bus device function : U8) : Decidable (Present cfg bus device function) :=
  inferInstanceAs (Decidable (_ ≠ _))

instance (cfg : Config) (bus device : U8) : Decidable (MultiFunction cfg bus device) :=
  inferInstanceAs (Decidable (_ ≠ _))

/-- The functions that are recorded: function 0 of a device that has one, and the functions 1 to 7 that such a
device has, if it says so. -/
def Recorded (cfg : Config) (bus device function : U8) : Prop :=
  device.toNat < 32 ∧ Present cfg bus device 0 ∧
    (function = 0 ∨
      MultiFunction cfg bus device ∧ 1 ≤ function.toNat ∧ function.toNat < 8 ∧ Present cfg bus device function)

/-- The entry of a function, by its configuration bytes. -/
def PciDevice.of (cfg : Config) (bus device function : U8) : PciDevice where
  bus := bus
  device := device
  function := function
  vendorId := cfg bus device function 0x01 ++ cfg bus device function 0x00
  deviceId := cfg bus device function 0x03 ++ cfg bus device function 0x02
  classCode := cfg bus device function 0x0B
  subclass := cfg bus device function 0x0A
  progIf := cfg bus device function 0x09
  revision := cfg bus device function 0x08
  headerType := cfg bus device function 0x0E
  bar := fun i => leWord fun k => cfg bus device function (0x10 + BitVec.ofNat 8 (i.val * 4) + BitVec.ofNat 8 k)
  irqLine := cfg bus device function 0x3C
  irqPin := cfg bus device function 0x3D

/-- The recorded functions of a device, in order. -/
def Config.functions (cfg : Config) (bus device : U8) : List U8 :=
  if Present cfg bus device 0 then
    0 :: if MultiFunction cfg bus device then (counter 8 1 7).filter fun f => Present cfg bus device f else []
  else []

def Config.entries (cfg : Config) (bus device : U8) : List PciDevice :=
  (cfg.functions bus device).map (.of cfg bus device)

/-- The entries of some buses, in order. -/
def Config.entriesOf (cfg : Config) (buses : List U8) : List PciDevice :=
  buses.flatMap fun bus => (counter 8 0 32).flatMap (cfg.entries bus)

/-! ### A device -/

theorem vendor_eq (cfg : Config) (bus : U8) (hd : device.toNat < 32) (hf : function.toNat < 8) :
    pciConfigRead16 cfg bus device function 0x00 = cfg.vendor bus device function :=
  pciConfigRead16_eq cfg bus hd hf rfl

theorem read_eq (cfg : Config) (bus : U8) (hd : device.toNat < 32) (hf : function.toNat < 8) :
    PciDevice.read cfg bus device function (cfg.vendor bus device function) = .of cfg bus device function := by
  have hbar (i : Fin 6) : (0x10 + BitVec.ofNat 8 (i.val * 4) : U8).toNat % 4 = 0 := by
    have hi := i.isLt
    have h16 : (0x10 : U8).toNat = 16 := rfl
    rw [BitVec.toNat_add, BitVec.toNat_ofNat, h16]
    omega
  apply PciDevice.ext
  · rfl
  · rfl
  · rfl
  · rfl
  · exact pciConfigRead16_eq cfg bus hd hf rfl
  · exact pciConfigRead8_eq cfg bus _ hd hf
  · exact pciConfigRead8_eq cfg bus _ hd hf
  · exact pciConfigRead8_eq cfg bus _ hd hf
  · exact pciConfigRead8_eq cfg bus _ hd hf
  · exact pciConfigRead8_eq cfg bus _ hd hf
  · exact funext fun i => pciConfigRead_eq cfg bus hd hf (hbar i)
  · exact pciConfigRead8_eq cfg bus _ hd hf
  · exact pciConfigRead8_eq cfg bus _ hd hf

/-- The loop over the functions adds the entries of those that are there, as many as fit. -/
theorem scanFunctions_eq (cfg : Config) (bus : U8) (hd : device.toNat < 32) {funcs : List U8}
    (hf : ∀ f ∈ funcs, f.toNat < 8) (t : Table) : scanFunctions cfg bus device funcs t =
      some (t.fill ((funcs.filter fun f => Present cfg bus device f).map (.of cfg bus device))) := by
  induction funcs generalizing t with
  | nil => exact congrArg some (Capped.fill_nil t).symm
  | cons f funcs ih =>
      have hf8 := hf f List.mem_cons_self
      have ih := ih fun g hg => hf g (List.mem_cons_of_mem _ hg)
      unfold scanFunctions
      simp only [vendor_eq cfg bus hd hf8]
      by_cases hp : Present cfg bus device f
      · rw [List.filter_cons_of_pos (by simpa using hp), List.map_cons]
        by_cases hfull : t.Full
        · rw [if_neg fun h => h.2 hfull, ih, Capped.fill_of_full hfull, Capped.fill_of_full hfull]
        · rw [if_pos ⟨hp, hfull⟩, Capped.push_eq hfull, Option.bind_some, ih, Capped.fill_fill,
            read_eq cfg bus hd hf8]
          rfl
      · rw [if_neg fun h => hp h.1, ih, List.filter_cons_of_neg (by simpa using hp)]

/-- **A device** adds the entries of its functions. -/
theorem pciScanDevice_eq (cfg : Config) (bus : U8) (hd : device.toNat < 32) (hfull : ¬t.Full) :
    pciScanDevice cfg bus device t = some (t.fill (cfg.entries bus device)) := by
  have hzero : (0 : U8).toNat < 8 := by decide
  unfold pciScanDevice Config.entries Config.functions
  simp only [vendor_eq cfg bus hd hzero, read_eq cfg bus hd hzero]
  by_cases hp : Present cfg bus device 0
  · rw [if_neg hp, if_pos hp, Capped.push_eq hfull, Option.bind_some, List.map_cons]
    by_cases hm : MultiFunction cfg bus device
    · have hfuncs : ∀ f ∈ counter 8 1 7, f.toNat < 8 := fun f hf => ((mem_counter (by decide)).mp hf).2
      have hmulti : (PciDevice.of cfg bus device 0).headerType &&& 0x80 ≠ 0 := hm
      rw [if_pos hm, if_pos hmulti, scanFunctions_eq cfg bus hd hfuncs, Capped.fill_fill, List.singleton_append]
    · have hsingle : ¬(PciDevice.of cfg bus device 0).headerType &&& 0x80 ≠ 0 := hm
      rw [if_neg hm, if_neg hsingle, List.map_nil]
  · rw [if_pos (not_not.mp hp), if_neg hp]
    exact congrArg some (Capped.fill_nil t).symm

/-- **Some buses** add the entries of their devices. -/
theorem scanBuses_eq (cfg : Config) (buses : List U8) (t : Table) :
    scanBuses cfg buses t = some (t.fill (cfg.entriesOf buses)) := by
  have hdevice : ∀ device ∈ counter 8 0 32, device.toNat < 32 := fun d hd => ((mem_counter (by decide)).mp hd).2
  have hbus (bus : U8) (t : Table) : Capped.untilFull (pciScanDevice cfg bus) (counter 8 0 32) t =
      some (t.fill ((counter 8 0 32).flatMap (cfg.entries bus))) :=
    Capped.untilFull_eq (g := cfg.entries bus)
      (fun device hd _ hfull => pciScanDevice_eq cfg bus (hdevice device hd) hfull) t
  induction buses generalizing t with
  | nil => exact congrArg some (Capped.fill_nil t).symm
  | cons bus buses ih =>
      rw [scanBuses, hbus, Option.bind_some, Config.entriesOf, List.flatMap_cons, ← Capped.fill_fill]
      split_ifs with hfull
      · rw [Capped.fill_of_full hfull]
      · exact ih _

/-- **The table** after the scan: the entries of all recorded functions, as many as fit. -/
theorem pciInit_eq (cfg : Config) : ∃ t : Table, pciInit cfg = some t ∧
    t.entries = (cfg.entriesOf (counter 8 0 256)).take 256 :=
  ⟨_, scanBuses_eq cfg _ _, Capped.fill_empty _⟩

/-! ### The order, and the functions -/

/-- The place of a function: bus, device and function, in this order. -/
def PciDevice.place (e : PciDevice) : ℕ ×ₗ ℕ ×ₗ ℕ := toLex (e.bus.toNat, toLex (e.device.toNat, e.function.toNat))

variable {e : PciDevice} {buses : List U8}

theorem mem_functions : function ∈ cfg.functions bus device ↔ Present cfg bus device 0 ∧
    (function = 0 ∨
      MultiFunction cfg bus device ∧ 1 ≤ function.toNat ∧ function.toNat < 8 ∧ Present cfg bus device function) := by
  unfold Config.functions
  by_cases hp : Present cfg bus device 0
  · rw [if_pos hp, List.mem_cons, and_iff_right hp]
    refine or_congr_right ?_
    by_cases hm : MultiFunction cfg bus device
    · rw [if_pos hm, List.mem_filter, mem_counter (by decide), decide_eq_true_iff, and_iff_right hm, and_assoc]
    · rw [if_neg hm]
      exact iff_of_false List.not_mem_nil fun h => hm h.1
  · rw [if_neg hp]
    exact iff_of_false List.not_mem_nil fun h => hp h.1

theorem pairwise_functions (cfg : Config) (bus device : U8) :
    (cfg.functions bus device).Pairwise fun f g => f.toNat < g.toNat := by
  unfold Config.functions
  split_ifs with hp hm
  · refine List.pairwise_cons.mpr ⟨fun f hf => ?_, (pairwise_counter (by decide)).filter _⟩
    exact ((mem_counter (by decide)).mp (List.mem_of_mem_filter hf)).1
  · exact List.pairwise_singleton _ _
  · exact .nil

theorem mem_entriesOf : e ∈ cfg.entriesOf buses ↔ ∃ bus ∈ buses, ∃ device ∈ counter 8 0 32,
    ∃ function ∈ cfg.functions bus device, .of cfg bus device function = e := by
  unfold Config.entriesOf Config.entries
  simp only [List.mem_flatMap, List.mem_map]

/-- **Increasing.** The entries are in the order of their places. -/
theorem pairwise_entriesOf (hbuses : buses.Pairwise fun b c => b.toNat < c.toNat) :
    (cfg.entriesOf buses).Pairwise fun a b => a.place < b.place := by
  unfold Config.entriesOf Config.entries
  refine List.pairwise_flatMap.mpr ⟨fun bus _ => List.pairwise_flatMap.mpr ⟨fun device _ => ?_, ?_⟩, ?_⟩
  · -- the functions of a device
    refine List.pairwise_map.mpr ((pairwise_functions cfg bus device).imp fun hlt => ?_)
    exact Prod.Lex.toLex_lt_toLex.mpr (.inr ⟨rfl, Prod.Lex.toLex_lt_toLex.mpr (.inr ⟨rfl, hlt⟩)⟩)
  · -- the devices of a bus
    refine (pairwise_counter (by decide)).imp fun hlt a ha b hb => ?_
    obtain ⟨f, -, rfl⟩ := List.mem_map.mp ha
    obtain ⟨g, -, rfl⟩ := List.mem_map.mp hb
    exact Prod.Lex.toLex_lt_toLex.mpr (.inr ⟨rfl, Prod.Lex.toLex_lt_toLex.mpr (.inl hlt)⟩)
  · refine hbuses.imp fun hlt a ha b hb => ?_
    obtain ⟨d, -, ha⟩ := List.mem_flatMap.mp ha
    obtain ⟨d', -, hb⟩ := List.mem_flatMap.mp hb
    obtain ⟨f, -, rfl⟩ := List.mem_map.mp ha
    obtain ⟨g, -, rfl⟩ := List.mem_map.mp hb
    exact Prod.Lex.toLex_lt_toLex.mpr (.inl hlt)

/-- **What `pci_init` records**: the entries of the recorded functions, in increasing order, without one behind
the table; the first 256 of them, if there are more. -/
theorem pci_init_records (cfg : Config) : ∃ (t : Table) (all : List PciDevice), pciInit cfg = some t ∧
    t.entries = all.take 256 ∧ (all.Pairwise fun a b => a.place < b.place) ∧
      ∀ e, e ∈ all ↔ ∃ bus device function, Recorded cfg bus device function ∧ e = .of cfg bus device function := by
  obtain ⟨t, hinit, hentries⟩ := pciInit_eq cfg
  refine ⟨t, _, hinit, hentries, pairwise_entriesOf (pairwise_counter (by decide)), fun e => ?_⟩
  rw [mem_entriesOf]
  constructor
  · rintro ⟨bus, -, device, hd, function, hf, rfl⟩
    exact ⟨bus, device, function, ⟨((mem_counter (by decide)).mp hd).2, mem_functions.mp hf⟩, rfl⟩
  · rintro ⟨bus, device, function, ⟨hd, hf⟩, rfl⟩
    have hbus : bus ∈ counter 8 0 256 := (mem_counter (by decide)).mpr ⟨Nat.zero_le _, bus.isLt⟩
    have hdevice : device ∈ counter 8 0 32 := (mem_counter (by decide)).mpr ⟨Nat.zero_le _, hd⟩
    exact ⟨bus, hbus, device, hdevice, function, mem_functions.mpr hf, rfl⟩

end BloodKernel.Pci
