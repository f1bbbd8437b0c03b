import BloodKernel.Kernel.Types
import BloodKernel.Lib.Bytes
import BloodKernel.Lib.Capped
import BloodKernel.Lib.Counter

set_option autoImplicit false

/-!
# The PCI configuration space

`drivers/pci.c` reads the configuration bytes of a function through an address and a data port, a double word at
a time, and `pci_init` records the functions that it finds in a table of 256 entries.

* `Config`: the configuration bytes, and what the data port reads; `pciConfigRead` and its narrower forms.
* `PciDevice.read`, `pciScanDevice`, `pciInit`: the scan. It has no result where an entry would be stored behind
  the table.
* **`pciConfigRead8_eq`**, **`pciConfigRead16_eq`**, **`pciConfigRead_eq`**: the reads return the bytes at their
  offset.
-/

namespace BloodKernel.Pci

open Lib

/-! ### The ports -/

/-- The configuration bytes, by bus, device, function and offset. -/
abbrev Config := U8 → U8 → U8 → U8 → U8

/-- What the data port reads with an address in the address port: the double word at this place. Without bit 31
the access is none to the configuration space. -/
def Config.data (cfg : Config) (address : U32) : U32 :=
  if address.getLsbD 31 then
    leWord fun i => cfg (address.extractLsb' 16 8) ((address.extractLsb' 11 5).setWidth 8)
      ((address.extractLsb' 8 3).setWidth 8) ((address.extractLsb' 0 8 &&& 0xFC) + BitVec.ofNat 8 i)
  else 0xFFFFFFFF

/-! ### The driver -/

/-- The word that is written to the address port. -/
def configAddress (bus device function offset : U8) : U32 :=
  ((1 : U32) <<< 31) ||| (bus.setWidth 32 <<< 16) ||| (device.setWidth 32 <<< 11) ||| (function.setWidth 32 <<< 8) |||
    (offset &&& 0xFC).setWidth 32

def pciConfigRead (cfg : Config) (bus device function offset : U8) : U32 :=
  cfg.data (configAddress bus device function offset) >>> ((offset &&& 3).toNat * 8)

def pciConfigRead16 (cfg : Config) (bus device function offset : U8) : U16 :=
  (pciConfigRead cfg bus device function offset &&& 0xFFFF).setWidth 16

def pciConfigRead8 (cfg : Config) (bus device function offset : U8) : U8 :=
  (pciConfigRead cfg bus device function offset &&& 0xFF).setWidth 8

/-- `pci_device_t` -/
@[ext] structure PciDevice where
  bus : U8
  device : U8
  function : U8
  vendorId : U16
  deviceId : U16
  classCode : U8
  subclass : U8
  progIf : U8
  revision : U8
  headerType : U8
  bar : Fin 6 → U32
  irqLine : U8
  irqPin : U8

def PciDevice.read (cfg : Config) (bus device function : U8) (vendorId : U16) : PciDevice where
  bus := bus
  device := device
  function := function
  vendorId := vendorId
  deviceId := pciConfigRead16 cfg bus device function 0x02
  classCode := pciConfigRead8 cfg bus device function 0x0B
  subclass := pciConfigRead8 cfg bus device function 0x0A
  progIf := pciConfigRead8 cfg bus device function 0x09
  revision := pciConfigRead8 cfg bus device function 0x08
  headerType := pciConfigRead8 cfg bus device function 0x0E
  irqLine := pciConfigRead8 cfg bus device function 0x3C
  irqPin := pciConfigRead8 cfg bus device function 0x3D
  bar := fun i => pciConfigRead cfg bus device function (0x10 + BitVec.ofNat 8 (i.val * 4))

/-- `pci_devices`, up to `pci_device_count`. -/
abbrev Table := Capped 256 PciDevice

/-- The loop over the functions of a device with several ones. -/
def scanFunctions (cfg : Config) (bus device : U8) : List U8 → Table → Option Table
  | [], t => some t
  | func :: funcs, t =>
      let funcVendor := pciConfigRead16 cfg bus device func 0x00
      if funcVendor ≠ 0xFFFF ∧ ¬t.Full then
        (t.push (.read cfg bus device func funcVendor)).bind (scanFunctions cfg bus device funcs)
      else scanFunctions cfg bus device funcs t

def pciScanDevice (cfg : Config) (bus device : U8) (t : Table) : Option Table :=
  let vendorId := pciConfigRead16 cfg bus device 0 0x00
  if vendorId = 0xFFFF then some t
  else
    let dev := PciDevice.read cfg bus device 0 vendorId
    (t.push dev).bind fun t =>
      if dev.headerType &&& 0x80 ≠ 0 then scanFunctions cfg bus device (counter 8 1 7) t else some t

/-- The outer loop of `pci_init`. The table is looked at before a device, and again after the last one of a
bus. -/
def scanBuses (cfg : Config) : List U8 → Table → Option Table
  | [], t => some t
  | bus :: buses, t =>
      (Capped.untilFull (pciScanDevice cfg bus) (counter 8 0 32) t).bind fun t =>
        if t.Full then some t else scanBuses cfg buses t

def pciInit (cfg : Config) : Option Table := scanBuses cfg (counter 8 0 256) (.empty 256 PciDevice)

/-! ### What is read -/

variable {cfg : Config} {bus device function offset : U8}


/-- Words without a common bit are joined by their sum. -/
theorem or_eq_add {a b : ℕ} (k : ℕ) (ha : 2 ^ k ∣ a) (hb : b < 2 ^ k) : a ||| b = a + b := by
  obtain ⟨c, rfl⟩ := ha
  exact (Nat.two_pow_add_eq_or_of_lt hb c).symm

theorem toNat_configAddress (bus offset : U8) (hd : device.toNat < 32) (hf : function.toNat < 8) :
    (configAddress bus device function offset).toNat =
      2 ^ 31 + bus.toNat * 2 ^ 16 + device.toNat * 2 ^ 11 + function.toNat * 2 ^ 8 + (offset &&& 0xFC).toNat := by
  have hbus := bus.isLt
  have hoffset := (offset &&& 0xFC).isLt
  have hone : ((1 : U32) <<< 31).toNat = 2 ^ 31 := rfl
  have hshift (v : U8) {k : ℕ} (hv : v.toNat * 2 ^ k < 2 ^ 32) : (v.setWidth 32 <<< k).toNat = v.toNat * 2 ^ k := by
    rw [BitVec.toNat_shiftLeft, BitVec.toNat_setWidth, Nat.mod_eq_of_lt (v.isLt.trans (by decide)),
      Nat.shiftLeft_eq, Nat.mod_eq_of_lt hv]
  have h24 : 2 ^ 31 ||| bus.toNat * 2 ^ 16 = 2 ^ 31 + bus.toNat * 2 ^ 16 :=
    or_eq_add 24 (by decide) (by omega)
  have h16 := @or_eq_add (2 ^ 31 + bus.toNat * 2 ^ 16) (device.toNat * 2 ^ 11) 16 (by omega) (by omega)
  have h11 := @or_eq_add (2 ^ 31 + bus.toNat * 2 ^ 16 + device.toNat * 2 ^ 11) (function.toNat * 2 ^ 8) 11
    (by omega) (by omega)
  unfold configAddress
  rw [BitVec.toNat_or, BitVec.toNat_or, BitVec.toNat_or, BitVec.toNat_or, hone, hshift bus (by omega),
    hshift device (by omega), hshift function (by omega), BitVec.toNat_setWidth,
    Nat.mod_eq_of_lt (hoffset.trans (by decide)), h24, h16, h11]
  exact or_eq_add 8 (by omega) hoffset

/-- **The address** names the place. -/
theorem configAddress_fields (bus offset : U8) (hd : device.toNat < 32) (hf : function.toNat < 8) :
    let address := configAddress bus device function offset
    address.getLsbD 31 = true ∧ address.extractLsb' 16 8 = bus ∧
      (address.extractLsb' 11 5).setWidth 8 = device ∧ (address.extractLsb' 8 3).setWidth 8 = function ∧
        address.extractLsb' 0 8 &&& 0xFC = offset &&& 0xFC := by
  have hnat := toNat_configAddress bus offset hd hf
  have hbus := bus.isLt
  have hoffset := (offset &&& 0xFC).isLt
  refine ⟨?_, ?_, ?_, ?_, ?_⟩
  · rw [← BitVec.testBit_toNat, hnat, Nat.testBit_eq_decide_div_mod_eq]
    exact decide_eq_true (by omega)
  · apply BitVec.eq_of_toNat_eq
    rw [BitVec.extractLsb'_toNat, Nat.shiftRight_eq_div_pow, hnat]
    omega
  · apply BitVec.eq_of_toNat_eq
    rw [BitVec.toNat_setWidth, BitVec.extractLsb'_toNat, Nat.shiftRight_eq_div_pow, hnat]
    omega
  · apply BitVec.eq_of_toNat_eq
    rw [BitVec.toNat_setWidth, BitVec.extractLsb'_toNat, Nat.shiftRight_eq_div_pow, hnat]
    omega
  · have hlow : (configAddress bus device function offset).extractLsb' 0 8 = offset &&& 0xFC := by
      apply BitVec.eq_of_toNat_eq
      rw [BitVec.extractLsb'_toNat, Nat.shiftRight_zero, hnat]
      omega
    rw [hlow, BitVec.and_assoc, BitVec.and_self]

theorem data_configAddress (cfg : Config) (bus offset : U8) (hd : device.toNat < 32) (hf : function.toNat < 8) :
    cfg.data (configAddress bus device function offset) =
      leWord fun i => cfg bus device function ((offset &&& 0xFC) + BitVec.ofNat 8 i) := by
  obtain ⟨henable, hbus, hdevice, hfunction, hoffset⟩ := configAddress_fields bus offset hd hf
  unfold Config.data
  rw [if_pos henable, hbus, hdevice, hfunction, hoffset]

theorem offset_split : ∀ offset : U8, (offset &&& 0xFC) + (offset &&& 3) = offset ∧
    (offset &&& 3).toNat = offset.toNat % 4 := by
  decide

theorem shift_byte (v : U32) (k : ℕ) : ((v >>> (k * 8)) &&& 0xFF).setWidth 8 = leByte v k := by
  have hmask : (0xFF : U32).toNat = 2 ^ 8 - 1 := rfl
  apply BitVec.eq_of_toNat_eq
  rw [BitVec.toNat_setWidth, BitVec.toNat_and, hmask, Nat.and_two_pow_sub_one_eq_mod, BitVec.toNat_ushiftRight,
    Nat.shiftRight_eq_div_pow, toNat_leByte, Nat.mod_mod, Nat.mul_comm]

theorem shift_bytes (v : U32) (k : ℕ) :
    ((v >>> (k * 8)) &&& 0xFFFF).setWidth 16 = leByte v (k + 1) ++ leByte v k := by
  have hmask : (0xFFFF : U32).toNat = 2 ^ 16 - 1 := rfl
  have hlow := (leByte v k).isLt
  apply BitVec.eq_of_toNat_eq
  rw [BitVec.toNat_setWidth, BitVec.toNat_and, hmask, Nat.and_two_pow_sub_one_eq_mod, BitVec.toNat_ushiftRight,
    Nat.shiftRight_eq_div_pow, Nat.mod_mod, BitVec.toNat_append, ← Nat.shiftLeft_add_eq_or_of_lt hlow,
    Nat.shiftLeft_eq, toNat_leByte, toNat_leByte, Nat.mul_comm k, Nat.mul_add, Nat.pow_add, ← Nat.div_div_eq_div_mul]
  omega

/-- **A byte** at any offset. -/
theorem pciConfigRead8_eq (cfg : Config) (bus offset : U8) (hd : device.toNat < 32) (hf : function.toNat < 8) :
    pciConfigRead8 cfg bus device function offset = cfg bus device function offset := by
  obtain ⟨hsplit, hmod⟩ := offset_split offset
  have hlt : (offset &&& 3).toNat < 4 := by omega
  unfold pciConfigRead8 pciConfigRead
  rw [data_configAddress cfg bus offset hd hf, shift_byte, leByte_leWord _ hlt, BitVec.ofNat_toNat,
    BitVec.setWidth_eq, hsplit]

/-- **Two bytes** at an even offset. -/
theorem pciConfigRead16_eq (cfg : Config) (bus : U8) (hd : device.toNat < 32) (hf : function.toNat < 8)
    (heven : offset.toNat % 2 = 0) : pciConfigRead16 cfg bus device function offset =
      cfg bus device function (offset + 1) ++ cfg bus device function offset := by
  obtain ⟨hsplit, hmod⟩ := offset_split offset
  have hlt : (offset &&& 3).toNat + 1 < 4 := by omega
  have hnext : (offset &&& 0xFC) + BitVec.ofNat 8 ((offset &&& 3).toNat + 1) = offset + 1 := by
    rw [BitVec.ofNat_add, BitVec.ofNat_toNat, BitVec.setWidth_eq, ← BitVec.add_assoc, hsplit]
    rfl
  unfold pciConfigRead16 pciConfigRead
  rw [data_configAddress cfg bus offset hd hf, shift_bytes, leByte_leWord _ hlt,
    leByte_leWord _ (Nat.lt_of_succ_lt hlt), hnext, BitVec.ofNat_toNat, BitVec.setWidth_eq, hsplit]

/-- **A double word** at an aligned offset. -/
theorem pciConfigRead_eq (cfg : Config) (bus : U8) (hd : device.toNat < 32) (hf : function.toNat < 8)
    (haligned : offset.toNat % 4 = 0) : pciConfigRead cfg bus device function offset =
      leWord fun i => cfg bus device function (offset + BitVec.ofNat 8 i) := by
  obtain ⟨hsplit, hmod⟩ := offset_split offset
  have hzero : offset &&& 3 = 0 := BitVec.eq_of_toNat_eq (hmod.trans haligned)
  rw [hzero] at hsplit
  have hsplit : offset &&& 0xFC = offset := (BitVec.add_zero _).symm.trans hsplit
  unfold pciConfigRead
  rw [data_configAddress cfg bus offset hd hf, hsplit, hzero]
  exact BitVec.ushiftRight_zero _

end BloodKernel.Pci
