import BloodKernel.Kernel.Kprintf
import BloodKernel.Lib.Bytes
import Mathlib.Algebra.BigOperators.Group.Finset.Basic
import Mathlib.Algebra.Order.BigOperators.Group.Finset

set_option autoImplicit false

/-!
# The memory map of the boot loader

`detect_memory_x86` of `kernel/mem.c` walks over the entries of a multiboot memory map and prints those of
type 1. The size field of an entry leads to the next one; addresses wrap.

* `detectMemoryX86`: the function; `none` when it has not returned after a number of rounds;
* `entry`, `sizes`: the address of an entry, and the sum of the size fields before it; `toNat_entry`;
* `isSome_walkEntries_iff`: how many entries the walk visits;
* **`isSome_detectMemoryX86_iff`**: when it visits at most `mmap_length / 4`.
-/

namespace BloodKernel.MemMap

open Lib Kprintf Finset

/-- `uart_puts` of a literal. -/
def uartPuts (s : String) (uart : List U8) : List U8 := uart ++ s.toList.map ascii

/-- `uart_hex`; its loop is the one of `print_hex`. -/
def uartHex (val : U32) (uart : List U8) : Option (List U8) := printHexLoop val 8 (uartPuts "0x" uart)

/-- `mbi[i]` -/
def mbiWord (m : Mem) (mbi : U32) (i : ℕ) : U32 := load32 m (mbi + BitVec.ofNat 32 (4 * i))

def mmapLength (m : Mem) (mbi : U32) : U32 := mbiWord m mbi 10

def mmapAddr (m : Mem) (mbi : U32) : U32 := mbiWord m mbi 11

def mmapEnd (m : Mem) (mbi : U32) : U32 := mmapAddr m mbi + mmapLength m mbi

/-- `mmap->size`; the structure is packed. -/
def size (m : Mem) (mmap : U32) : U32 := load32 m mmap

/-- `(u32)mmap->base_addr`. -/
def baseAddr (m : Mem) (mmap : U32) : U32 := load32 m (mmap + 4)

/-- `(u32)mmap->length`. -/
def length (m : Mem) (mmap : U32) : U32 := load32 m (mmap + 12)

def type (m : Mem) (mmap : U32) : U32 := load32 m (mmap + 20)

/-- The line that the body of the loop prints for an entry. The low word of the sum is the sum of the low words. -/
def printEntry (m : Mem) (mmap : U32) (uart : List U8) : Option (List U8) :=
  if type m mmap = 1 then do
    let uart ← uartHex (baseAddr m mmap) uart
    let uart ← uartHex (baseAddr m mmap + length m mmap) (uartPuts "-" uart)
    let uart ← uartHex (length m mmap) (uartPuts "  " uart)
    some (uartPuts " bytes\r\n" uart)
  else some uart

/-- The step to the next entry. -/
def next (m : Mem) (mmap : U32) : U32 := mmap + size m mmap + 4

/-- `while ((u32)mmap < mmap_end)`, for at most `fuel` entries. -/
def walkEntries (m : Mem) (end' : U32) : ℕ → U32 → List U8 → Option (List U8)
  | 0, mmap, uart => if mmap < end' then none else some uart
  | fuel + 1, mmap, uart =>
      if mmap < end' then do
        let uart ← printEntry m mmap uart
        walkEntries m end' fuel (next m mmap) uart
      else some uart

/-- The function, for at most `fuel` entries. -/
def detectMemoryX86 (m : Mem) (mbi : U32) (fuel : ℕ) (uart : List U8) : Option (List U8) :=
  if mbi = 0 then some (uartPuts "no multiboot info\r\n" uart)
  else if mbiWord m mbi 0 &&& bit 6 = 0 then some (uartPuts "no memory map\r\n" uart)
  else walkEntries m (mmapEnd m mbi) fuel (mmapAddr m mbi) (uartPuts "Memory map:\r\n" uart)

/-- A block with the memory-map flag set. -/
structure HasMap (m : Mem) (mbi : U32) : Prop where
  mbi_ne : mbi ≠ 0
  flag : mbiWord m mbi 0 &&& bit 6 ≠ 0

/-! ### The entries -/

/-- The address of the `n`-th entry of the map at `mmap`. -/
def entry (m : Mem) (mmap : U32) (n : ℕ) : U32 := (next m)^[n] mmap

/-- The sum of the first `n` size fields. -/
def sizes (m : Mem) (mmap : U32) (n : ℕ) : ℕ := ∑ k ∈ range n, (size m (entry m mmap k)).toNat

/-- No entry of the map that the walk visits leads beyond the last address. -/
def NoWrap (m : Mem) (end' mmap : U32) : Prop :=
  ∀ n, (∀ k ≤ n, entry m mmap k < end') →
    (entry m mmap n).toNat + (size m (entry m mmap n)).toNat + 4 < 2 ^ 32

variable {m : Mem} {mbi mmap end' : U32} {n fuel : ℕ}

theorem entry_succ (m : Mem) (mmap : U32) (n : ℕ) : entry m mmap (n + 1) = next m (entry m mmap n) :=
  Function.iterate_succ_apply' _ _ _

theorem sizes_succ (m : Mem) (mmap : U32) (n : ℕ) :
    sizes m mmap (n + 1) = sizes m mmap n + (size m (entry m mmap n)).toNat := sum_range_succ _ _

theorem sizes_mono (m : Mem) (mmap : U32) : Monotone (sizes m mmap) :=
  monotone_nat_of_le_succ fun n => by rw [sizes_succ]; exact Nat.le_add_right _ _

theorem toNat_next (m : Mem) (mmap : U32) :
    (next m mmap).toNat = (mmap.toNat + (size m mmap).toNat + 4) % 2 ^ 32 := by
  have hfour : (4 : U32).toNat = 4 := rfl
  rw [next, BitVec.toNat_add, BitVec.toNat_add, hfour, Nat.mod_add_mod]

theorem toNat_entry (m : Mem) (mmap : U32) (n : ℕ) :
    (entry m mmap n).toNat = (mmap.toNat + (4 * n + sizes m mmap n)) % 2 ^ 32 := by
  induction n with
  | zero => exact (Nat.mod_eq_of_lt mmap.isLt).symm
  | succ n ih =>
      rw [entry_succ, toNat_next, ih, sizes_succ]
      omega

/-- Without a step that wraps, the entries follow each other. -/
theorem NoWrap.toNat_entry (h : NoWrap m end' mmap) (hn : ∀ k < n, entry m mmap k < end') :
    (entry m mmap n).toNat = mmap.toNat + (4 * n + sizes m mmap n) := by
  induction n with
  | zero => rfl
  | succ n ih =>
      have hwrap := h n fun k hk => hn k (Nat.lt_succ_of_le hk)
      have ih := ih fun k hk => hn k (Nat.lt_succ_of_lt hk)
      rw [entry_succ, toNat_next, Nat.mod_eq_of_lt hwrap, sizes_succ]
      omega

/-! ### The walk -/

theorem printEntry_isSome (m : Mem) (mmap : U32) (uart : List U8) :
    ∃ uart', printEntry m mmap uart = some uart' := by
  unfold printEntry uartHex
  split_ifs with h
  · simp [printHexLoop_eq]
  · exact ⟨uart, rfl⟩

/-- **The number of entries that are visited**: the walk returns after at most `fuel` of them exactly when
one of the entries up to the one with this number is not below the end. -/
theorem isSome_walkEntries_iff (uart : List U8) :
    (walkEntries m end' fuel mmap uart).isSome ↔ ∃ n ≤ fuel, end' ≤ entry m mmap n := by
  induction fuel generalizing mmap uart with
  | zero =>
      rw [walkEntries]
      by_cases h : mmap < end'
      · rw [if_pos h]
        refine iff_of_false nofun ?_
        rintro ⟨n, hn, hle⟩
        obtain rfl : n = 0 := Nat.le_zero.mp hn
        exact absurd h (BitVec.not_lt.mpr hle)
      · rw [if_neg h]
        exact iff_of_true rfl ⟨0, le_rfl, BitVec.not_lt.mp h⟩
  | succ fuel ih =>
      rw [walkEntries]
      by_cases h : mmap < end'
      · obtain ⟨uart', hprint⟩ := printEntry_isSome m mmap uart
        rw [if_pos h, hprint, Option.bind_eq_bind, Option.bind_some, ih]
        constructor
        · rintro ⟨n, hn, hle⟩
          exact ⟨n + 1, Nat.succ_le_succ hn, hle⟩
        · rintro ⟨_ | n, hn, hle⟩
          · exact absurd h (BitVec.not_lt.mpr hle)
          · exact ⟨n, Nat.le_of_succ_le_succ hn, hle⟩
      · rw [if_neg h]
        exact iff_of_true rfl ⟨0, Nat.zero_le _, BitVec.not_lt.mp h⟩

theorem detectMemoryX86_of_hasMap (h : HasMap m mbi) (fuel : ℕ) (uart : List U8) :
    detectMemoryX86 m mbi fuel uart =
      walkEntries m (mmapEnd m mbi) fuel (mmapAddr m mbi) (uartPuts "Memory map:\r\n" uart) := by
  rw [detectMemoryX86, if_neg h.mbi_ne, if_neg h.flag]

/-- **Maps without a step that wraps**: the number of entries is at most a quarter of the length unless the
length is no multiple of 4 and the first entries have next to no size. -/
theorem NoWrap.exists_le_iff {len : U32} (h : NoWrap m (mmap + len) mmap) :
    (∃ n ≤ len.toNat / 4, mmap + len ≤ entry m mmap n) ↔
      mmap + len ≤ mmap ∨ len.toNat % 4 ≤ sizes m mmap (len.toNat / 4) := by
  by_cases hle : mmap + len ≤ mmap
  · exact iff_of_true ⟨0, Nat.zero_le _, hle⟩ (.inl hle)
  have hend : (mmap + len).toNat = mmap.toNat + len.toNat := by
    have hlt : mmap.toNat < (mmap + len).toNat := BitVec.not_le.mp hle
    have := mmap.isLt
    have := len.isLt
    rw [BitVec.toNat_add] at hlt ⊢
    omega
  rw [or_iff_right hle]
  constructor
  · intro hex
    classical
    obtain ⟨hn, hge⟩ := Nat.find_spec hex
    -- the entries before the first one behind the end
    have hbefore : ∀ k < Nat.find hex, entry m mmap k < mmap + len := fun k hk =>
      BitVec.not_le.mp fun hk' => Nat.find_min hex hk ⟨hk.le.trans hn, hk'⟩
    have hge' : (mmap + len).toNat ≤ (entry m mmap (Nat.find hex)).toNat := hge
    have hmono := sizes_mono m mmap hn
    rw [hend, h.toNat_entry hbefore] at hge'
    omega
  · intro hsizes
    by_contra hex
    push Not at hex
    have hbelow : ∀ k ≤ len.toNat / 4, entry m mmap k < mmap + len := fun k hk =>
      BitVec.not_le.mp (hex k hk)
    have hlast : (entry m mmap (len.toNat / 4)).toNat < (mmap + len).toNat := hbelow _ le_rfl
    rw [hend, h.toNat_entry fun k hk => hbelow k hk.le] at hlast
    omega

/-- **When the walk visits at most `mmap_length / 4` entries.** Some number of entries up to this one leads to
an address that is not below the end, addresses counted modulo `2 ^ 32`. If no step wraps: the end does, or
the remainder of the length is at most the sum of as many size fields. -/
theorem isSome_detectMemoryX86_iff (h : HasMap m mbi) (uart : List U8) :
    ((detectMemoryX86 m mbi ((mmapLength m mbi).toNat / 4) uart).isSome ↔
      ∃ n ≤ (mmapLength m mbi).toNat / 4, (mmapEnd m mbi).toNat ≤
        ((mmapAddr m mbi).toNat + (4 * n + sizes m (mmapAddr m mbi) n)) % 2 ^ 32) ∧
    (NoWrap m (mmapEnd m mbi) (mmapAddr m mbi) →
      ((detectMemoryX86 m mbi ((mmapLength m mbi).toNat / 4) uart).isSome ↔
        mmapEnd m mbi ≤ mmapAddr m mbi ∨ (mmapLength m mbi).toNat % 4 ≤
          sizes m (mmapAddr m mbi) ((mmapLength m mbi).toNat / 4))) := by
  rw [detectMemoryX86_of_hasMap h, isSome_walkEntries_iff]
  refine ⟨exists_congr fun n => and_congr_right fun _ => ?_, NoWrap.exists_le_iff⟩
  rw [BitVec.le_def, toNat_entry]

/-- A block at address 4096 with a map of 24 bytes at 8192, the size field of its entry the given one. -/
def oneEntry (b₀ b₁ : U8) : Mem := fun x =>
  if x = 4096 then 0x40
  else if x = 4136 then 24
  else if x = 4141 then 32
  else if x = 8192 then b₀
  else if x = 8193 ∨ x = 8194 ∨ x = 8195 then b₁
  else 0

theorem hasMap_oneEntry (b₀ b₁ : U8) : HasMap (oneEntry b₀ b₁) 4096 := ⟨by decide, by
  show mbiWord (oneEntry 0 0) 4096 0 &&& bit 6 ≠ 0
  decide⟩

theorem noWrap_oneEntry : NoWrap (oneEntry 20 0) (mmapEnd (oneEntry 20 0) 4096)
    (mmapAddr (oneEntry 20 0) 4096) := by
  intro n hn
  cases n with
  | zero => decide
  | succ n => exact absurd (hn 1 (Nat.le_add_left 1 n)) (by decide)

theorem isSome_detectMemoryX86_iff_oneEntry :
    (detectMemoryX86 (oneEntry 20 0) 4096 ((mmapLength (oneEntry 20 0) 4096).toNat / 4) []).isSome ↔
      mmapEnd (oneEntry 20 0) 4096 ≤ mmapAddr (oneEntry 20 0) 4096 ∨
        (mmapLength (oneEntry 20 0) 4096).toNat % 4 ≤ sizes (oneEntry 20 0)
          (mmapAddr (oneEntry 20 0) 4096) ((mmapLength (oneEntry 20 0) 4096).toNat / 4) :=
  (isSome_detectMemoryX86_iff (hasMap_oneEntry 20 0) []).2 noWrap_oneEntry

/-- An entry whose size field is `0xFFFFFFFC` leads to itself. -/
theorem detectMemoryX86_never : HasMap (oneEntry 0xFC 0xFF) 4096 ∧
    ∀ fuel uart, detectMemoryX86 (oneEntry 0xFC 0xFF) 4096 fuel uart = none := by
  refine ⟨hasMap_oneEntry _ _, fun fuel uart => ?_⟩
  have hentry : ∀ n, entry (oneEntry 0xFC 0xFF) 8192 n = 8192 := fun n => by
    induction n with
    | zero => rfl
    | succ n ih => rw [entry_succ, ih]; decide
  rw [detectMemoryX86_of_hasMap (hasMap_oneEntry _ _), ← Option.not_isSome_iff_eq_none,
    isSome_walkEntries_iff]
  rintro ⟨n, -, hle⟩
  have haddr : mmapAddr (oneEntry 0xFC 0xFF) 4096 = 8192 := by decide
  rw [haddr, hentry] at hle
  exact absurd hle (by decide)

end BloodKernel.MemMap
