import BloodKernel.Arch.FlashQspi
import BloodKernel.Lib.Bytes
import BloodKernel.Lib.Crc

set_option autoImplicit false

/-!
# The boot loader

The bootloader functions of `arch/rp2040/flash_qspi.c`. An image in the flash has a header of four words before
it. The memory that `flash_boot_validate` copies it to is left out.

* `Crc`: the table, which is computed once; `crc32Calc`: the checksum of a list of bytes.
* **`crc32Calc_detects_bit`**: it is the CRC-32, and tells a single changed bit.
* `flashBootValidate`, `flashBootJump`: the functions; `crc32`: the checksum bit by bit.
* `validate_eq_one_iff`: what is validated.
* **`jump_safe_iff`**: a jump goes into a valid image exactly when the header has no magic word, or the image is
  as its header says and the entry point is in it.
-/

namespace BloodKernel.FlashBoot

open Lib FlashQspi

/-! ## The checksum -/

/-- `0xEDB88320` -/
def poly : U32 := 0xEDB88320

/-- One round of the inner loop of `crc32_generate_table`. -/
def tableRound (crc : U32) : U32 := if crc &&& 1 ≠ 0 then (crc >>> 1) ^^^ poly else crc >>> 1

/-- `n` rounds. -/
def tableRounds : ℕ → U32 → U32
  | 0, crc => crc
  | n + 1, crc => tableRound (tableRounds n crc)

/-- `crc32_table[i]` -/
def tableEntry (i : U8) : U32 := tableRounds 8 (i.setWidth 32)

/-- `crc32_table` and `crc32_init`. -/
structure Crc where
  table : U8 → U32
  init : Bool
  computed : init = true → table = tableEntry

def crc32GenerateTable : Crc := ⟨tableEntry, true, fun _ => rfl⟩

/-- One round of the loop of `crc32_calc`. -/
def calcRound (table : U8 → U32) (crc : U32) (b : U8) : U32 :=
  table (((crc ^^^ b.setWidth 32) &&& 0xFF).setWidth 8) ^^^ (crc >>> 8)

def crc32Calc (c : Crc) (data : List U8) : U32 × Crc :=
  let c := if c.init then c else crc32GenerateTable
  (data.foldl (calcRound c.table) 0xFFFFFFFF ^^^ 0xFFFFFFFF, c)

/-- The CRC-32 of some bytes, bit by bit. -/
def crc32 (data : List U8) : U32 := crcBits poly 0xFFFFFFFF (data.flatMap bitsOf) ^^^ 0xFFFFFFFF

variable {c : Crc} {xip : U32 → U8} {addr entry : U32} {data : List U8}

theorem tableRound_eq (crc : U32) : tableRound crc = crcBit poly crc false := by
  have hbit : (1 : U32) = bit 0 := rfl
  have hlow : crc &&& 1 ≠ 0 ↔ crc.getLsbD 0 = true := by
    rw [ne_eq, hbit, and_bit_eq_zero (by decide), Bool.not_eq_false]
  rw [tableRound, crcBit_false]
  exact if_congr hlow rfl rfl

theorem tableRounds_eq (n : ℕ) (crc : U32) : tableRounds n crc = shifts poly n crc := by
  induction n with
  | zero => rfl
  | succ n ih => rw [tableRounds, shifts, ih, tableRound_eq]

/-- Whether the table has been computed before or not, it has been after. -/
theorem table_eq (c : Crc) : (crc32Calc c data).2.table = tableEntry := by
  show (if c.init then c else crc32GenerateTable).table = tableEntry
  split_ifs with h
  · exact c.computed h
  · rfl

theorem index_eq (v : U32) : (v &&& 0xFF).setWidth 8 = v.setWidth 8 := by
  apply BitVec.eq_of_toNat_eq
  have hmask : (0xFF : U32).toNat = 2 ^ 8 - 1 := rfl
  rw [BitVec.toNat_setWidth, BitVec.toNat_setWidth, BitVec.toNat_and, hmask, Nat.and_two_pow_sub_one_eq_mod,
    Nat.mod_mod]

/-- **The checksum by table** is the CRC-32. -/
theorem crc32Calc_eq (c : Crc) (data : List U8) : (crc32Calc c data).1 = crc32 data := by
  have hround : calcRound tableEntry = fun (v : U32) (x : U8) =>
      shifts poly 8 (((v ^^^ x.setWidth 32).setWidth 8).setWidth 32) ^^^ v >>> 8 := by
    funext v x
    rw [calcRound, index_eq, tableEntry, tableRounds_eq]
  have hfold : data.foldl (calcRound (crc32Calc c data).2.table) 0xFFFFFFFF ^^^ 0xFFFFFFFF = crc32 data := by
    rw [table_eq, hround, crc32, crcBits_flatMap (by decide)]
  exact hfold

/-- A byte is not the same with one bit changed. -/
theorem xor_one_shiftLeft_ne (x : U8) (j : Fin 8) : x ^^^ (1 : U8) <<< (j : ℕ) ≠ x := by
  have hbit : ∀ j : Fin 8, (1 : U8) <<< (j : ℕ) ≠ 0 := by decide
  intro h
  refine hbit j ((BitVec.xor_right_inj x).mp ?_)
  rw [h]
  exact (BitVec.xor_zero).symm

/-- Another byte in its place changes the CRC-32. -/
theorem crc32_set_ne {i : ℕ} (hi : i < data.length) {x : U8} (hx : x ≠ data[i]) :
    crc32 (data.set i x) ≠ crc32 data := by
  intro h
  exact crcBits_set_ne (by decide) (by decide) _ hi hx ((BitVec.xor_left_inj _).mp h)

/-- **The checksum** is the CRC-32, bit by bit, whether the table has been computed before or not, and a change of
any single bit changes it. -/
theorem crc32Calc_detects_bit (c : Crc) (data : List U8) : (crc32Calc c data).1 = crc32 data ∧
    ∀ (c' : Crc) (i : Fin data.length) (j : Fin 8),
      (crc32Calc c' (data.set i (data[i] ^^^ (1 : U8) <<< (j : ℕ)))).1 ≠ (crc32Calc c data).1 := by
  refine ⟨crc32Calc_eq c data, fun c' i j => ?_⟩
  rw [crc32Calc_eq, crc32Calc_eq]
  exact crc32_set_ne i.isLt (xor_one_shiftLeft_ne _ j)

/-! ## The functions -/

/-- `boot_header_t` -/
structure BootHeader where
  magic : U32
  size : U32
  crc32 : U32
  entryPoint : U32

/-- Word `k` of the header at an address. -/
def headerWord (xip : U32 → U8) (addr : U32) (k : ℕ) : U32 :=
  leWord fun i => (flashRead xip addr 16).getD (4 * k + i) 0

def readHeader (xip : U32 → U8) (addr : U32) : BootHeader :=
  ⟨headerWord xip addr 0, headerWord xip addr 1, headerWord xip addr 2, headerWord xip addr 3⟩

/-- `BOOTLOADER_MAGIC` -/
def bootloaderMagic : U32 := 0xB007C0DE

def image (xip : U32 → U8) (addr : U32) : List U8 :=
  flashRead xip (addr + 16) (readHeader xip addr).size.toNat

def flashBootValidate (c : Crc) (xip : U32 → U8) (addr : U32) : U8 × Crc :=
  let header := readHeader xip addr
  if header.magic ≠ bootloaderMagic then (0, c)
  else if 0x100000 < header.size then (0, c)
  else
    let r := crc32Calc c (image xip addr)
    (if r.1 = header.crc32 then 1 else 0, r.2)

/-- The address that `flash_boot_jump` calls. -/
def flashBootJump (xip : U32 → U8) (addr : U32) : Option U32 :=
  let header := readHeader xip addr
  if header.magic = bootloaderMagic then some header.entryPoint else none

/-- `0x10000000`, where the flash is mapped. -/
def xipBase : U32 := 0x10000000

/-- The address of a byte of the image. -/
def InImage (xip : U32 → U8) (addr entry : U32) : Prop :=
  ∃ i < (readHeader xip addr).size.toNat, entry = xipBase + (addr + 16 + BitVec.ofNat 32 i)

/-- The size and the checksum are as the header says. -/
def Intact (xip : U32 → U8) (addr : U32) : Prop :=
  (readHeader xip addr).size ≤ 0x100000 ∧ crc32 (image xip addr) = (readHeader xip addr).crc32

/-- **What is validated**: the magic word, a size of at most 1 MB, and the CRC-32, whatever the state of the
table. -/
theorem validate_eq_one_iff (c : Crc) (xip : U32 → U8) (addr : U32) :
    (flashBootValidate c xip addr).1 = 1 ↔ (readHeader xip addr).magic = bootloaderMagic ∧ Intact xip addr := by
  have h01 : (0 : U8) ≠ 1 := by decide
  unfold flashBootValidate Intact
  by_cases hmagic : (readHeader xip addr).magic ≠ bootloaderMagic
  · rw [if_pos hmagic]
    exact iff_of_false h01 fun h => hmagic h.1
  by_cases hsize : 0x100000 < (readHeader xip addr).size
  · rw [if_neg hmagic, if_pos hsize]
    exact iff_of_false h01 fun h => absurd hsize (BitVec.not_lt.mpr h.2.1)
  · rw [if_neg hmagic, if_neg hsize, and_iff_right (not_not.mp hmagic), and_iff_right (BitVec.not_lt.mp hsize),
      ← crc32Calc_eq c]
    show (if (crc32Calc c (image xip addr)).1 = _ then (1 : U8) else 0) = 1 ↔ _
    split_ifs with hcrc
    · exact iff_of_true rfl hcrc
    · exact iff_of_false h01 hcrc

/-- A jump goes only to an image that is validated, and to an address in it. -/
def JumpSafe (c : Crc) (xip : U32 → U8) (addr : U32) : Prop :=
  ∀ entry, flashBootJump xip addr = some entry → (flashBootValidate c xip addr).1 = 1 ∧ InImage xip addr entry

/-- **Exactness.** A jump is safe exactly when the header has no magic word, or the image has the size and the
checksum of its header and its entry point lies in it. -/
theorem jump_safe_iff (c : Crc) (xip : U32 → U8) (addr : U32) : JumpSafe c xip addr ↔
    (readHeader xip addr).magic ≠ bootloaderMagic ∨
      (Intact xip addr ∧ InImage xip addr (readHeader xip addr).entryPoint) := by
  unfold JumpSafe flashBootJump
  by_cases hmagic : (readHeader xip addr).magic = bootloaderMagic
  · rw [if_pos hmagic, or_iff_right (not_not.mpr hmagic), validate_eq_one_iff, and_iff_right hmagic]
    simp only [Option.some_inj, forall_eq']
  · rw [if_neg hmagic]
    exact iff_of_true (fun entry h => by cases h) (.inl hmagic)

/-- A flash in which nothing but the magic word has been written. -/
def magicOnly (x : U32) : U8 := if x < 4 then leByte bootloaderMagic x.toNat else 0xFF

/-- The jump goes to an erased word, with a size that is not validated. -/
theorem jump_magicOnly (c : Crc) :
    flashBootJump magicOnly 0 = some 0xFFFFFFFF ∧ (flashBootValidate c magicOnly 0).1 ≠ 1 := by
  have hsize : ¬ (readHeader magicOnly 0).size ≤ 0x100000 := by decide
  exact ⟨by decide, fun h => hsize ((validate_eq_one_iff c magicOnly 0).mp h).2.1⟩

theorem not_jump_safe : ¬ JumpSafe crc32GenerateTable magicOnly 0 := fun h =>
  (jump_magicOnly crc32GenerateTable).2 (h _ (jump_magicOnly crc32GenerateTable).1).1

end BloodKernel.FlashBoot
