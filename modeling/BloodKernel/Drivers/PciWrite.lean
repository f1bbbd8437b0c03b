import BloodKernel.Drivers.PciScan

set_option autoImplicit false

/-!
# Writes to the PCI configuration space

`drivers/pci.c` writes double words through the data port. `pci_config_write16` reads the double word first and
puts two bytes into it, while `pci_set_irq_line` writes a double word for one byte.

* `Config.setData`: what the data port writes; `pciConfigWrite`, `pciConfigWrite16`, `pciEnableDevice`,
  `pciSetIrqLine`: the functions.
* `pciConfigWrite_apply`, **`pciConfigWrite16_apply`**: the bytes after a write.
* **`narrow_writes_iff`**: the last two change no byte but their own exactly when the three bytes behind the
  interrupt line are zero.
-/

namespace BloodKernel.Pci

open Lib

/-! ### The driver -/

/-- The bytes after a word has been written to the data port. The registers store what is written. -/
def Config.setData (cfg : Config) (address value : U32) : Config := fun bus device function offset =>
  if address.getLsbD 31 = true ∧ bus = address.extractLsb' 16 8 ∧
      device = (address.extractLsb' 11 5).setWidth 8 ∧ function = (address.extractLsb' 8 3).setWidth 8 ∧
      offset &&& 0xFC = address.extractLsb' 0 8 &&& 0xFC then
    leByte value (offset &&& 3).toNat
  else cfg bus device function offset

def pciConfigWrite (cfg : Config) (bus device function offset : U8) (value : U32) : Config :=
  cfg.setData (configAddress bus device function offset) value

/-- `tmp` with two bytes put into it, from byte `k` on. -/
def insert16 (tmp : U32) (k : ℕ) (value : U16) : U32 :=
  (tmp &&& ~~~((0xFFFF : U32) <<< (k * 8))) ||| (value.setWidth 32 <<< (k * 8))

def pciConfigWrite16 (cfg : Config) (bus device function offset : U8) (value : U16) : Config :=
  let tmp := pciConfigRead cfg bus device function (offset &&& 0xFC)
  pciConfigWrite cfg bus device function (offset &&& 0xFC) (insert16 tmp (offset &&& 2).toNat value)

def pciEnableDevice (cfg : Config) (dev : PciDevice) : Config :=
  let command := pciConfigRead16 cfg dev.bus dev.device dev.function 0x04
  pciConfigWrite16 cfg dev.bus dev.device dev.function 0x04 (command ||| 0x07)

def pciSetIrqLine (cfg : Config) (dev : PciDevice) (irq : U8) : Config × PciDevice :=
  (pciConfigWrite cfg dev.bus dev.device dev.function 0x3C (irq.setWidth 32), { dev with irqLine := irq })

/-! ### The bytes after a write -/

variable {cfg : Config} {bus device function offset : U8}

/-- **A write** changes the four bytes of a double word. -/
theorem pciConfigWrite_apply (cfg : Config) (bus offset : U8) (hd : device.toNat < 32) (hf : function.toNat < 8)
    (value : U32) (bus' device' function' offset' : U8) :
    pciConfigWrite cfg bus device function offset value bus' device' function' offset' =
      if bus' = bus ∧ device' = device ∧ function' = function ∧ offset' &&& 0xFC = offset &&& 0xFC then
        leByte value (offset' &&& 3).toNat
      else cfg bus' device' function' offset' := by
  obtain ⟨henable, hbus, hdevice, hfunction, hoffset⟩ := configAddress_fields bus offset hd hf
  unfold pciConfigWrite Config.setData
  rw [hbus, hdevice, hfunction, hoffset]
  exact if_congr (and_iff_right henable) rfl rfl

theorem getLsbD_insert16 (tmp : U32) (value : U16) (k : ℕ) {i : ℕ} (hi : i < 32) : (insert16 tmp k value).getLsbD i =
    if 8 * k ≤ i ∧ i < 8 * k + 16 then value.getLsbD (i - 8 * k) else tmp.getLsbD i := by
  have hmask : (0xFFFF : U32) = (BitVec.allOnes 16).setWidth 32 := by decide
  have hcomm : k * 8 = 8 * k := Nat.mul_comm k 8
  unfold insert16
  rw [hmask, hcomm]
  simp only [BitVec.getLsbD_or, BitVec.getLsbD_and, BitVec.getLsbD_not, BitVec.getLsbD_shiftLeft,
    BitVec.getLsbD_setWidth, BitVec.getLsbD_allOnes, hi, decide_true, Bool.true_and]
  by_cases hle : 8 * k ≤ i
  · by_cases hlt : i < 8 * k + 16
    · rw [if_pos ⟨hle, hlt⟩]
      simp [Nat.not_lt.mpr hle, show i - 8 * k < 32 by omega, show i - 8 * k < 16 by omega]
    · rw [if_neg fun h => hlt h.2, BitVec.getLsbD_of_ge value _ (by omega)]
      simp [Nat.not_lt.mpr hle, show ¬i - 8 * k < 16 by omega]
  · rw [if_neg fun h => hle h.1]
    simp [Nat.lt_of_not_le hle]

theorem leByte_insert16 (tmp : U32) (value : U16) (k : ℕ) {j : ℕ} (hj : j < 4) : leByte (insert16 tmp k value) j =
    if j = k then value.setWidth 8 else if j = k + 1 then (value >>> 8).setWidth 8 else leByte tmp j := by
  apply BitVec.eq_of_getLsbD_eq
  intro i hi
  have hbit : (leByte (insert16 tmp k value) j).getLsbD i = (insert16 tmp k value).getLsbD (8 * j + i) := by
    rw [leByte, BitVec.getLsbD_extractLsb', decide_eq_true hi, Bool.true_and]
  rw [hbit, getLsbD_insert16 _ _ _ (by omega)]
  split_ifs with h h₀ h₁ h₀ h₁
  · subst h₀
    rw [BitVec.getLsbD_setWidth, decide_eq_true hi, Bool.true_and, Nat.add_sub_cancel_left]
  · subst h₁
    rw [BitVec.getLsbD_setWidth, BitVec.getLsbD_ushiftRight, decide_eq_true hi, Bool.true_and]
    exact congrArg value.getLsbD (by omega)
  · omega
  · omega
  · omega
  · rw [leByte, BitVec.getLsbD_extractLsb', decide_eq_true hi, Bool.true_and]

theorem toNat_offset : ∀ offset : U8, (offset &&& 0xFC).toNat = offset.toNat / 4 * 4 ∧
    (offset &&& 3).toNat = offset.toNat % 4 ∧ (offset &&& 2).toNat = offset.toNat % 4 / 2 * 2 ∧
      (offset &&& 0xFC) &&& 0xFC = offset &&& 0xFC := by
  decide

theorem leByte_pciConfigRead (cfg : Config) (bus : U8) (hd : device.toNat < 32) (hf : function.toNat < 8)
    {offset' : U8} (h : offset' &&& 0xFC = offset &&& 0xFC) :
    leByte (pciConfigRead cfg bus device function (offset &&& 0xFC)) (offset' &&& 3).toNat =
      cfg bus device function offset' := by
  obtain ⟨hfc, -, -, hidem⟩ := toNat_offset offset
  obtain ⟨hsplit, hmod⟩ := offset_split offset'
  rw [pciConfigRead_eq cfg bus hd hf (by rw [hfc]; omega), leByte_leWord _ (by omega), BitVec.ofNat_toNat,
    BitVec.setWidth_eq, ← h, hsplit]

/-- Both bytes from an even offset on are in its double word. -/
theorem succ_offset : ∀ offset : U8, offset.toNat % 2 = 0 →
    (offset + 1) &&& 0xFC = offset &&& 0xFC ∧ (offset + 1).toNat = offset.toNat + 1 := by
  decide

theorem eq_offset_iff {offset' : U8} (heven : offset.toNat % 2 = 0) (hword : offset' &&& 0xFC = offset &&& 0xFC) :
    (offset' = offset ↔ (offset' &&& 3).toNat = (offset &&& 2).toNat) ∧
      (offset' = offset + 1 ↔ (offset' &&& 3).toNat = (offset &&& 2).toNat + 1) := by
  obtain ⟨hfc, -, htwo, -⟩ := toNat_offset offset
  obtain ⟨hfc', hthree', -, -⟩ := toNat_offset offset'
  have hdiv : offset'.toNat / 4 * 4 = offset.toNat / 4 * 4 := by rw [← hfc', hword, hfc]
  rw [hthree', htwo, ← BitVec.toNat_inj, ← BitVec.toNat_inj, (succ_offset offset heven).2]
  omega

/-- **A write of 16 bits** changes two bytes. -/
theorem pciConfigWrite16_apply (cfg : Config) (bus : U8) (hd : device.toNat < 32) (hf : function.toNat < 8)
    (heven : offset.toNat % 2 = 0) (value : U16) (bus' device' function' offset' : U8) :
    pciConfigWrite16 cfg bus device function offset value bus' device' function' offset' =
      if bus' = bus ∧ device' = device ∧ function' = function ∧ offset' = offset then value.setWidth 8
      else if bus' = bus ∧ device' = device ∧ function' = function ∧ offset' = offset + 1 then
        (value >>> 8).setWidth 8
      else cfg bus' device' function' offset' := by
  obtain ⟨-, -, -, hidem⟩ := toNat_offset offset
  unfold pciConfigWrite16
  rw [pciConfigWrite_apply cfg bus _ hd hf, hidem]
  by_cases hplace : bus' = bus ∧ device' = device ∧ function' = function
  · obtain ⟨rfl, rfl, rfl⟩ := hplace
    simp only [true_and]
    by_cases hword : offset' &&& 0xFC = offset &&& 0xFC
    · obtain ⟨hself, hbehind⟩ := eq_offset_iff heven hword
      have hthree' := (toNat_offset offset').2.1
      rw [if_pos hword, leByte_insert16 _ _ _ (by omega), leByte_pciConfigRead cfg _ hd hf hword]
      exact if_congr hself.symm rfl (if_congr hbehind.symm rfl rfl)
    · have hself : offset' ≠ offset := fun h => hword (by rw [h])
      have hbehind : offset' ≠ offset + 1 := fun h => hword (by rw [h, (succ_offset offset heven).1])
      rw [if_neg hword, if_neg hself, if_neg hbehind]
  · rw [if_neg fun h => hplace ⟨h.1, h.2.1, h.2.2.1⟩, if_neg fun h => hplace ⟨h.1, h.2.1, h.2.2.1⟩,
      if_neg fun h => hplace ⟨h.1, h.2.1, h.2.2.1⟩]

/-! ### The frame -/

/-- Of all bytes only one is changed, to `value`. -/
def ChangesOnly (cfg cfg' : Config) (dev : PciDevice) (offset value : U8) : Prop :=
  ∀ bus' device' function' offset', cfg' bus' device' function' offset' =
    if bus' = dev.bus ∧ device' = dev.device ∧ function' = dev.function ∧ offset' = offset then value
    else cfg bus' device' function' offset'

def Config.byte (cfg : Config) (dev : PciDevice) (offset : U8) : U8 := cfg dev.bus dev.device dev.function offset

/-- What the two functions are to change: the interrupt line, and bits 0 to 2 of the command. -/
structure NarrowWrites (cfg : Config) (dev : PciDevice) (irq : U8) : Prop where
  irqLine : ChangesOnly cfg (pciSetIrqLine cfg dev irq).1 dev 0x3C irq
  command : ChangesOnly cfg (pciEnableDevice cfg dev) dev 0x04 (cfg.byte dev 0x04 ||| 0x07)

theorem leByte_setWidth (v : U8) {k : ℕ} : leByte (v.setWidth 32) k = if k = 0 then v else 0 := by
  have hv := v.isLt
  have hzero : (0 : U8).toNat = 0 := rfl
  have hvalue : (v.setWidth 32).toNat = v.toNat := by
    rw [BitVec.toNat_setWidth]
    exact Nat.mod_eq_of_lt (hv.trans (by decide))
  apply BitVec.eq_of_toNat_eq
  rw [toNat_leByte, hvalue]
  split_ifs with hk
  · subst hk
    omega
  · have hpow : 2 ^ 8 ≤ 2 ^ (8 * k) := Nat.pow_le_pow_right (by decide) (by omega)
    rw [Nat.div_eq_of_lt (hv.trans_le hpow), hzero, Nat.zero_mod]

variable {dev : PciDevice}

/-- **The interrupt line** is written with the three bytes behind it. -/
theorem irqLine_iff (hd : dev.device.toNat < 32) (hf : dev.function.toNat < 8) (irq : U8) :
    ChangesOnly cfg (pciSetIrqLine cfg dev irq).1 dev 0x3C irq ↔
      cfg.byte dev 0x3D = 0 ∧ cfg.byte dev 0x3E = 0 ∧ cfg.byte dev 0x3F = 0 := by
  have hwrite := pciConfigWrite_apply cfg dev.bus 0x3C hd hf (irq.setWidth 32)
  constructor
  · intro h
    have hbyte {k : U8} (hword : k &&& 0xFC = 0x3C &&& 0xFC) (hne : k ≠ 0x3C) (hthree : (k &&& 3).toNat ≠ 0) :
        cfg.byte dev k = 0 := by
      have hk := h dev.bus dev.device dev.function k
      rw [if_neg fun he => hne he.2.2.2] at hk
      unfold Config.byte
      rw [← hk]
      show pciConfigWrite cfg _ _ _ _ _ _ _ _ _ = 0
      rw [hwrite, if_pos ⟨rfl, rfl, rfl, hword⟩, leByte_setWidth, if_neg hthree]
    exact ⟨hbyte (by decide) (by decide) (by decide), hbyte (by decide) (by decide) (by decide),
      hbyte (by decide) (by decide) (by decide)⟩
  · rintro ⟨h₁, h₂, h₃⟩ bus' device' function' offset'
    have hcases : ∀ k : U8, k &&& 0xFC = 0x3C &&& 0xFC ↔ k = 0x3C ∨ k = 0x3D ∨ k = 0x3E ∨ k = 0x3F := by decide
    show pciConfigWrite cfg _ _ _ _ _ _ _ _ _ = _
    rw [hwrite]
    by_cases hplace : bus' = dev.bus ∧ device' = dev.device ∧ function' = dev.function
    · obtain ⟨rfl, rfl, rfl⟩ := hplace
      simp only [true_and, leByte_setWidth]
      by_cases hword : offset' &&& 0xFC = 0x3C &&& 0xFC
      · obtain rfl | rfl | rfl | rfl := (hcases offset').mp hword
        · rfl
        · exact h₁.symm
        · exact h₂.symm
        · exact h₃.symm
      · rw [if_neg hword, if_neg fun h => hword (by rw [h])]
    · rw [if_neg fun h => hplace ⟨h.1, h.2.1, h.2.2.1⟩, if_neg fun h => hplace ⟨h.1, h.2.1, h.2.2.1⟩]

/-- **The command** is written alone. -/
theorem enable_changesOnly (hd : dev.device.toNat < 32) (hf : dev.function.toNat < 8) :
    ChangesOnly cfg (pciEnableDevice cfg dev) dev 0x04 (cfg.byte dev 0x04 ||| 0x07) := by
  have hread : pciConfigRead16 cfg dev.bus dev.device dev.function 0x04 =
      cfg.byte dev 0x05 ++ cfg.byte dev 0x04 := pciConfigRead16_eq cfg dev.bus hd hf rfl
  have hcommand : (cfg.byte dev 0x05 ++ cfg.byte dev 0x04 : U16) ||| 0x07 =
      cfg.byte dev 0x05 ++ (cfg.byte dev 0x04 ||| 0x07) := by
    have hseven : (0x07 : U16) = 0#8 ++ (0x07 : U8) := by decide
    rw [hseven, BitVec.or_append, BitVec.or_zero]
  have hhigh : ((cfg.byte dev 0x05 ++ (cfg.byte dev 0x04 ||| 0x07) : U16) >>> 8).setWidth 8 = cfg.byte dev 0x05 :=
    BitVec.extractLsb'_append_eq_left
  intro bus' device' function' offset'
  unfold pciEnableDevice
  rw [hread, hcommand, pciConfigWrite16_apply cfg _ hd hf (by decide), BitVec.setWidth_append_eq_right, hhigh]
  refine if_congr Iff.rfl rfl ?_
  split_ifs with h
  · obtain ⟨rfl, rfl, rfl, rfl⟩ := h
    rfl
  · rfl

theorem Recorded.lt (h : Recorded cfg bus device function) : device.toNat < 32 ∧ function.toNat < 8 := by
  obtain ⟨hd, -, rfl | ⟨-, -, hf, -⟩⟩ := h
  · exact ⟨hd, by decide⟩
  · exact ⟨hd, hf⟩

/-- **Exactness.** For a device that was recorded, whatever its registers hold by now, the two functions change
nothing but the interrupt line and bits 0 to 2 of the command exactly when the interrupt pin and the two bytes
behind it are zero. -/
theorem narrow_writes_iff (cfg₀ cfg : Config) (dev : PciDevice) (irq : U8)
    (h : Recorded cfg₀ dev.bus dev.device dev.function) :
    NarrowWrites cfg dev irq ↔ cfg.byte dev 0x3D = 0 ∧ cfg.byte dev 0x3E = 0 ∧ cfg.byte dev 0x3F = 0 := by
  obtain ⟨hd, hf⟩ := h.lt
  rw [← irqLine_iff hd hf irq]
  exact ⟨NarrowWrites.irqLine, fun hline => ⟨hline, enable_changesOnly hd hf⟩⟩

/-- A configuration space with a value for the interrupt pins, and zero elsewhere. -/
def withPin (pin : U8) : Config := fun _ _ _ offset => if offset = 0x3D then pin else 0

theorem recorded_withPin (pin : U8) : Recorded (withPin pin) 0 0 0 := by
  have hvendor : (withPin pin).vendor 0 0 0 = 0 := by
    unfold Config.vendor withPin
    rw [if_neg (by decide), if_neg (by decide)]
    decide
  refine ⟨by decide, ?_, .inl rfl⟩
  unfold Present
  rw [hvendor]
  decide

def firstDevice (pin : U8) : PciDevice := .of (withPin pin) 0 0 0

/-- A device that uses no interrupt pin. -/
theorem narrowWrites_noPin : NarrowWrites (withPin 0) (firstDevice 0) 11 :=
  (narrow_writes_iff (withPin 0) (withPin 0) (firstDevice 0) 11 (recorded_withPin 0)).mpr ⟨rfl, rfl, rfl⟩

/-- The pin of a device that has one is lost. -/
theorem not_narrowWrites_pinA :
    Recorded (withPin 1) 0 0 0 ∧ ¬NarrowWrites (withPin 1) (firstDevice 1) 11 := by
  refine ⟨recorded_withPin 1, fun h => ?_⟩
  have hpin : (1 : U8) = 0 := ((irqLine_iff (recorded_withPin 1).lt.1 (recorded_withPin 1).lt.2 11).mp h.irqLine).1
  exact absurd hpin (by decide)

end BloodKernel.Pci
