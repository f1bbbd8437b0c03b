import BloodKernel.Drivers.LowMemory
import BloodKernel.Drivers.Smbios

set_option autoImplicit false

/-!
# The SMBIOS entry points

`smbios_find_entry_point` and `smbios_init` of `drivers/smbios.c`, on a memory of bytes.

* `Anchored`, `Anchored3`: the entry points that the BIOS area is searched for.
* `biosLoop_blank`: paragraphs without an anchor.
* `smbiosInit_entry3`: the table of an SMBIOS 3 entry point; **`length_eq_iff`**: its length, in 16 bits.
-/

namespace BloodKernel.Smbios

open Lib LowMemory

/-! ## The driver -/

/-- `*(u32*)SMBIOS_ANCHOR`. -/
def anchor : U32 := 0x5F4D535F

/-- `*(u32*)SMBIOS3_ANCHOR`. -/
def anchor3 : U32 := 0x334D535F

/-- `smbios_checksum`. -/
def smbiosChecksum : Mem → U32 → ℕ → U8 := checksum

/-- The static variables; `0` is the null pointer. -/
structure Driver where
  smbiosEntry : U32
  smbios3Entry : U32
  table : Table
  versionMajor : U8
  versionMinor : U8

/-- The entry points that the search of the BIOS area returns. -/
def Anchored (m : Mem) (addr : U32) : Prop :=
  load32 m addr = anchor ∧ 0x1F ≤ m (addr + 5) ∧ smbiosChecksum m addr (m (addr + 5)).toNat = 0

instance decidableAnchored (m : Mem) : DecidablePred (Anchored m) := fun addr =>
  inferInstanceAs (Decidable (_ ∧ 0x1F ≤ m (addr + 5) ∧ _))

/-- The entry points that the search of the BIOS area keeps; `'_'` is `0x5F`. -/
def Anchored3 (m : Mem) (addr : U32) : Prop :=
  load32 m addr = anchor3 ∧ m (addr + 4) = 0x5F ∧ smbiosChecksum m addr (m (addr + 6)).toNat = 0

instance decidableAnchored3 (m : Mem) : DecidablePred (Anchored3 m) := fun addr =>
  inferInstanceAs (Decidable (_ ∧ m (addr + 4) = 0x5F ∧ _))

def ebdaEntry (m : Mem) : Option U32 :=
  (ebdaParagraphs m).find? fun addr =>
    load32 m addr = anchor ∧ smbiosChecksum m addr (m (addr + 5)).toNat = 0

/-- The search of the BIOS area: what is returned, and `smbios3_entry` then. -/
def biosLoop (m : Mem) : List U32 → U32 → U32 × U32
  | [], smbios3Entry => (0, smbios3Entry)
  | addr :: addrs, smbios3Entry =>
      if Anchored m addr then (addr, smbios3Entry)
      else biosLoop m addrs (if Anchored3 m addr then addr else smbios3Entry)

/-- `smbios_find_entry_point`, from the value of `smbios3_entry` on. -/
def smbiosFindEntryPoint (m : Mem) (smbios3Entry : U32) : U32 × U32 :=
  match ebdaEntry m with
  | some entry => (entry, smbios3Entry)
  | none => biosLoop m (paragraphs 0xF0000 0x1000) smbios3Entry

/-- `structure_table_max_size` of an SMBIOS 3 entry point. -/
def structureTableMaxSize (m : Mem) (entry3 : U32) : U32 := load32 m (entry3 + 0x0C)

/-- `smbios_init`. The table of an SMBIOS 3 entry point is a `u64`, of which a pointer keeps 32 bits. -/
def smbiosInit (m : Mem) (d : Driver) : Driver :=
  let entry := (smbiosFindEntryPoint m d.smbios3Entry).1
  let entry3 := (smbiosFindEntryPoint m d.smbios3Entry).2
  if entry ≠ 0 then
    { smbiosEntry := entry
      smbios3Entry := entry3
      table := { address := load32 m (entry + 0x18), length := load16 m (entry + 0x16) }
      versionMajor := m (entry + 6)
      versionMinor := m (entry + 7) }
  else if entry3 ≠ 0 then
    { smbiosEntry := entry
      smbios3Entry := entry3
      table :=
        { address := load32 m (entry3 + 0x10)
          length := (structureTableMaxSize m entry3).setWidth 16 }
      versionMajor := m (entry3 + 7)
      versionMinor := m (entry3 + 8) }
  else { d with smbiosEntry := entry, smbios3Entry := entry3 }

/-! ## The search of the BIOS area -/

variable {m : Mem} {addrs : List U32} {e : U32}

theorem first_of_load32 {addr v : U32} (h : load32 m addr = v) : m addr = leByte v 0 := by
  have hbyte := leWord_eq_iff.mp h 0 (by decide)
  rwa [show addr + BitVec.ofNat 32 0 = addr from BitVec.add_zero addr] at hbyte

theorem biosLoop_blank (h : ∀ a ∈ addrs, m a ≠ 0x5F) : biosLoop m addrs e = (0, e) := by
  induction addrs with
  | nil => rfl
  | cons addr addrs ih =>
      have hfirst := h addr List.mem_cons_self
      have hnot : ¬Anchored m addr := fun hanchor => hfirst (first_of_load32 hanchor.1)
      have hnot3 : ¬Anchored3 m addr := fun hanchor => hfirst (first_of_load32 hanchor.1)
      rw [biosLoop, if_neg hnot, if_neg hnot3]
      exact ih fun a ha => h a (List.mem_cons_of_mem _ ha)

/-! ## The table of an SMBIOS 3 entry point -/

theorem smbiosInit_entry3 {d : Driver} (h : smbiosFindEntryPoint m d.smbios3Entry = (0, e)) (he : e ≠ 0) :
    (smbiosInit m d).table =
      { address := load32 m (e + 0x10), length := (structureTableMaxSize m e).setWidth 16 } := by
  simp only [smbiosInit, h]
  rw [if_neg (not_not.mpr rfl), if_pos he]

/-- **The length** is the one of the entry point exactly when that fits in 16 bits. -/
theorem length_eq_iff {d : Driver} (h : smbiosFindEntryPoint m d.smbios3Entry = (0, e)) (he : e ≠ 0) :
    (smbiosInit m d).table.length.toNat = (structureTableMaxSize m e).toNat ↔
      (structureTableMaxSize m e).toNat < 2 ^ 16 := by
  rw [smbiosInit_entry3 h he]
  show ((structureTableMaxSize m e).setWidth 16).toNat = _ ↔ _
  rw [BitVec.toNat_setWidth]
  exact Nat.mod_eq_iff_lt (by decide)

end BloodKernel.Smbios
