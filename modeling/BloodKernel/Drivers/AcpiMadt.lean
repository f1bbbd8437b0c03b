import BloodKernel.Drivers.AcpiRsdp
import BloodKernel.Lib.Laid

set_option autoImplicit false

/-!
# Walking the MADT

`acpi_init`, `acpi_enumerate_io_apics` and `acpi_enumerate_interrupt_overrides` of `drivers/acpi.c`, on a memory
of bytes. The three walk over the entries of the MADT in the same way, `walk`.

* `Entry`, `InMemory`: the entries of a well-formed MADT, and that they lie in memory.
* **`walk_laid`**: a walk runs its body once for each entry, in table order.
* **`madt_walks`**: the processors that are counted, and the calls that are made.
-/

namespace BloodKernel.Acpi

open Lib LowMemory

/-! ## The driver -/

/-- `*(u32*)ACPI_FADT_SIGNATURE`. -/
def fadtSignature : U32 := 0x50434146

/-- `*(u32*)ACPI_MADT_SIGNATURE`. -/
def madtSignature : U32 := 0x43495041

/-- The static variables; `0` is the null pointer. -/
structure Driver where
  rsdp : U32
  rsdt : U32
  fadt : U32
  madt : U32
  localApicBase : U32
  cpuCount : U8

/-- `header->length`. -/
def headerLength (m : Mem) (header : U32) : U32 := load32 m (header + 4)

/-- The `tables` of the RSDT, as many as its length has room for. -/
def tables (m : Mem) (rsdt : U32) : List U32 :=
  (List.range ((headerLength m rsdt - 36).toNat / 4)).map fun i =>
    load32 m (rsdt + 36 + BitVec.ofNat 32 (4 * i))

/-- `acpi_find_table`. -/
def acpiFindTable (m : Mem) (rsdt signature : U32) : U32 :=
  if rsdt = 0 then 0
  else
    ((tables m rsdt).find? fun header => load32 m header = signature ∧
      acpiChecksum m header (headerLength m header).toNat = 0).getD 0

/-- `while (entry < end) { body; entry += entry[1]; }`. `none`: the loop has not ended after `fuel` rounds. -/
def walk {σ : Type} (m : Mem) (stop : U32) (body : U32 → σ → σ) : ℕ → U32 → σ → Option σ
  | 0, _, _ => none
  | fuel + 1, entry, s =>
      if entry < stop then walk m stop body fuel (entry + (m (entry + 1)).setWidth 32) (body entry s)
      else some s

/-- The walk from `acpi_madt->entries` to the end of the table. -/
def walkMadt {σ : Type} (m : Mem) (madt : U32) (body : U32 → σ → σ) (fuel : ℕ) (s : σ) : Option σ :=
  walk m (madt + headerLength m madt) body fuel (madt + 44) s

/-- `lapic->flags & 1`. -/
def Enabled (m : Mem) (lapic : U32) : Prop := load32 m (lapic + 4) &&& 1 ≠ 0

instance decidableEnabled (m : Mem) : DecidablePred (Enabled m) := fun lapic =>
  inferInstanceAs (Decidable (load32 m (lapic + 4) &&& 1 ≠ 0))

/-- `acpi_rsdp->rsdt_address`. -/
def rsdtAddress (m : Mem) (rsdp : U32) : U32 := load32 m (rsdp + 16)

/-- `acpi_init`. -/
def acpiInit (m : Mem) (fuel : ℕ) (d : Driver) : Option Driver :=
  let rsdp := acpiFindRsdp m
  let rsdt := rsdtAddress m rsdp
  if rsdp = 0 then some { d with rsdp := rsdp }
  else if rsdt = 0 ∨ acpiChecksum m rsdt (headerLength m rsdt).toNat ≠ 0 then
    some { d with rsdp := rsdp, rsdt := rsdt }
  else
    let fadt := acpiFindTable m rsdt fadtSignature
    let madt := acpiFindTable m rsdt madtSignature
    if madt ≠ 0 then
      (walkMadt m madt (fun entry cpuCount =>
          if m entry = 0 then if Enabled m entry then cpuCount + 1 else cpuCount else cpuCount)
        fuel d.cpuCount).map fun cpuCount =>
          { rsdp := rsdp
            rsdt := rsdt
            fadt := fadt
            madt := madt
            localApicBase := load32 m (madt + 36)
            cpuCount := cpuCount }
    else some { d with rsdp := rsdp, rsdt := rsdt, fadt := fadt, madt := madt }

/-- The calls of `callback` for the entries of a type, with their arguments. -/
def enumerate {β : Type} (m : Mem) (type : U8) (fields : U32 → β) (d : Driver) (callback : U32)
    (fuel : ℕ) : Option (List β) :=
  if d.madt = 0 ∨ callback = 0 then some []
  else
    walkMadt m d.madt (fun entry calls => if m entry = type then calls ++ [fields entry] else calls)
      fuel []

/-- `io_apic_id`, `io_apic_address` and `global_system_interrupt_base`. -/
def ioApicFields (m : Mem) (ioapic : U32) : U8 × U32 × U32 :=
  (m (ioapic + 2), load32 m (ioapic + 4), load32 m (ioapic + 8))

/-- `source`, `global_system_interrupt` and `flags`. -/
def intOverrideFields (m : Mem) (override : U32) : U8 × U32 × U16 :=
  (m (override + 3), load32 m (override + 4), load16 m (override + 8))

/-- `acpi_enumerate_io_apics`. -/
def acpiEnumerateIoApics (m : Mem) (d : Driver) (callback : U32) (fuel : ℕ) :
    Option (List (U8 × U32 × U32)) := enumerate m 1 (ioApicFields m) d callback fuel

/-- `acpi_enumerate_interrupt_overrides`. -/
def acpiEnumerateInterruptOverrides (m : Mem) (d : Driver) (callback : U32) (fuel : ℕ) :
    Option (List (U8 × U32 × U16)) := enumerate m 2 (intOverrideFields m) d callback fuel

/-! ## Well-formed tables -/

/-- An entry: its type, and what stands behind its type and its length. -/
structure Entry where
  type : U8
  body : List U8
  length_lt : body.length + 2 < 256

def Entry.length (e : Entry) : ℕ := e.body.length + 2

def Entry.bytes (e : Entry) : List U8 := e.type :: BitVec.ofNat 8 e.length :: e.body

/-- A MADT in memory, from where on addresses do not wrap: the entries, one after the other, are its entry
area. -/
structure InMemory (m : Mem) (madt : U32) (es : List Entry) : Prop where
  length_eq : (headerLength m madt).toNat = 44 + (es.flatMap Entry.bytes).length
  fits : madt.toNat + (44 + (es.flatMap Entry.bytes).length) < 2 ^ 32
  lies : Lies m (madt + 44) (es.flatMap Entry.bytes)

/-- The entries of a MADT with their addresses. -/
def entries (madt : U32) (es : List Entry) : List (U32 × Entry) := laid Entry.bytes (madt + 44) es

/-- The addresses of the entries of a type, in table order. -/
def ofType (type : U8) (madt : U32) (es : List Entry) : List U32 :=
  ((entries madt es).filter fun q => q.2.type = type).map Prod.fst

variable {m : Mem} {stop p madt : U32} {es : List Entry} {fuel : ℕ}

theorem InMemory.at (h : InMemory m madt es) :
    At m (madt + headerLength m madt) (madt + 44) (es.flatMap Entry.bytes) := by
  have hfits := h.fits
  have hlength := h.length_eq
  have hstart : (madt + 44).toNat = madt.toNat + 44 := toNat_address (k := 44) (by omega)
  refine ⟨h.lies, ?_⟩
  rw [hstart, BitVec.toNat_add, hlength]
  omega

theorem type_eq (h : At m stop p (es.flatMap Entry.bytes)) {q : U32 × Entry}
    (hq : q ∈ laid Entry.bytes p es) : m q.1 = q.2.type := by
  obtain ⟨-, rest, hat⟩ := h.of_mem_laid hq
  exact hat.lies.1

/-! ## The walk -/

section Walk

variable {σ : Type} {body : U32 → σ → σ}

theorem next_entry {e : Entry} {rest : List U8} (h : At m stop p (e.bytes ++ rest)) :
    p + (m (p + 1)).setWidth 32 = p + BitVec.ofNat 32 e.bytes.length := by
  have hlength : m (p + 1) = BitVec.ofNat 8 e.length := h.lies.2.1
  refine congrArg (p + ·) (BitVec.eq_of_toNat_eq ?_)
  rw [hlength, BitVec.toNat_setWidth, BitVec.toNat_ofNat, BitVec.toNat_ofNat,
    Nat.mod_eq_of_lt (show e.length < 2 ^ 8 from e.length_lt)]
  rfl

/-- **A walk** over entries runs its body once for each of them, in their order. -/
theorem walk_laid (h : At m stop p (es.flatMap Entry.bytes)) (hfuel : es.length < fuel) (s : σ) :
    walk m stop body fuel p s = some ((laid Entry.bytes p es).foldl (fun s q => body q.1 s) s) := by
  obtain ⟨fuel, rfl⟩ := Nat.exists_eq_add_one.mpr (Nat.zero_lt_of_lt hfuel)
  induction es generalizing p s fuel with
  | nil => exact if_neg h.not_lt
  | cons e es ih =>
      rw [List.flatMap_cons] at h
      have hheader : At m stop p (e.type :: _) := h
      obtain ⟨fuel, rfl⟩ := Nat.exists_eq_add_one.mpr (Nat.zero_lt_of_lt (Nat.lt_of_succ_lt_succ hfuel))
      rw [walk, if_pos hheader.lt, next_entry h, ih h.append _ fuel (Nat.lt_of_succ_lt_succ hfuel)]
      rfl

end Walk

/-! ## The three walks -/

section Bodies

variable {α β : Type} (P : α → Prop) [DecidablePred P]

theorem foldl_cpuCount (l : List α) (n : U8) :
    l.foldl (fun n q => if P q then n + 1 else n) n = n + BitVec.ofNat 8 (l.filter (P ·)).length := by
  induction l generalizing n with
  | nil => exact (BitVec.add_zero n).symm
  | cons q l ih =>
      rw [List.foldl_cons, ih, List.filter_cons]
      by_cases h : P q
      · rw [if_pos h, if_pos (decide_eq_true h), List.length_cons, Nat.add_comm, BitVec.ofNat_add,
          BitVec.add_assoc]
        rfl
      · rw [if_neg h, if_neg (ne_true_of_eq_false (decide_eq_false h))]

theorem foldl_calls (f : α → β) (l : List α) (calls : List β) :
    l.foldl (fun calls q => if P q then calls ++ [f q] else calls) calls =
      calls ++ (l.filter (P ·)).map f := by
  induction l generalizing calls with
  | nil => exact (List.append_nil calls).symm
  | cons q l ih =>
      rw [List.foldl_cons, ih, List.filter_cons]
      by_cases h : P q
      · rw [if_pos h, if_pos (decide_eq_true h), List.map_cons, List.append_assoc, List.singleton_append]
      · rw [if_neg h, if_neg (ne_true_of_eq_false (decide_eq_false h))]

end Bodies

/-- **The calls** for the entries of a type. -/
theorem enumerate_eq {β : Type} {type : U8} {fields : U32 → β} {d : Driver} {callback : U32}
    (h : InMemory m d.madt es) (hmadt : d.madt ≠ 0) (hcallback : callback ≠ 0) (hfuel : es.length < fuel) :
    enumerate m type fields d callback fuel = some ((ofType type d.madt es).map fields) := by
  unfold enumerate walkMadt ofType
  rw [if_neg (not_or.mpr ⟨hmadt, hcallback⟩), walk_laid h.at hfuel, List.map_map]
  refine congrArg some ?_
  calc (laid Entry.bytes (d.madt + 44) es).foldl
        (fun calls q => if m q.1 = type then calls ++ [fields q.1] else calls) []
      = (laid Entry.bytes (d.madt + 44) es).foldl
          (fun calls q => if q.2.type = type then calls ++ [fields q.1] else calls) [] :=
        List.foldl_ext _ _ _ fun _ q hq => by rw [type_eq h.at hq]
    _ = _ := foldl_calls (fun q : U32 × Entry => q.2.type = type) _ _ _

/-- The processors that are enabled. -/
def cpus (m : Mem) (madt : U32) (es : List Entry) : List U32 :=
  (ofType 0 madt es).filter (Enabled m ·)

/-- **The count** of the processors, modulo 256. -/
theorem countCpus_eq (h : InMemory m madt es) (hfuel : es.length < fuel) (n : U8) :
    walkMadt m madt (fun entry cpuCount =>
        if m entry = 0 then if Enabled m entry then cpuCount + 1 else cpuCount else cpuCount) fuel n =
      some (n + BitVec.ofNat 8 (cpus m madt es).length) := by
  have hcpus : (cpus m madt es).length =
      ((entries madt es).filter fun q => q.2.type = 0 ∧ Enabled m q.1).length := by
    unfold cpus ofType
    rw [List.filter_map, List.length_map, List.filter_filter]
    refine congrArg List.length (List.filter_congr fun q _ => ?_)
    rw [Bool.decide_and, Bool.and_comm]
    rfl
  unfold walkMadt
  rw [walk_laid h.at hfuel, hcpus]
  refine congrArg some ?_
  calc (laid Entry.bytes (madt + 44) es).foldl
        (fun n q => if m q.1 = 0 then if Enabled m q.1 then n + 1 else n else n) n
      = (laid Entry.bytes (madt + 44) es).foldl
          (fun n q => if q.2.type = 0 ∧ Enabled m q.1 then n + 1 else n) n :=
        List.foldl_ext _ _ _ fun _ q hq => by rw [type_eq h.at hq, ite_and]
    _ = _ := foldl_cpuCount (fun q : U32 × Entry => q.2.type = 0 ∧ Enabled m q.1) _ _

/-- The MADT that `acpi_init` finds. -/
structure Locates (m : Mem) (madt : U32) : Prop where
  rsdp_ne : acpiFindRsdp m ≠ 0
  rsdt_ne : rsdtAddress m (acpiFindRsdp m) ≠ 0
  checksum_eq : acpiChecksum m (rsdtAddress m (acpiFindRsdp m))
    (headerLength m (rsdtAddress m (acpiFindRsdp m))).toNat = 0
  madt_eq : acpiFindTable m (rsdtAddress m (acpiFindRsdp m)) madtSignature = madt

theorem acpiInit_of_locates {d : Driver} (h : Locates m madt) (hmem : InMemory m madt es) (hne : madt ≠ 0)
    (hfuel : es.length < fuel) : ∃ d', acpiInit m fuel d = some d' ∧ d'.madt = madt ∧
      d'.cpuCount = d.cpuCount + BitVec.ofNat 8 (cpus m madt es).length := by
  have hrsdt : ¬(rsdtAddress m (acpiFindRsdp m) = 0 ∨ acpiChecksum m (rsdtAddress m (acpiFindRsdp m))
      (headerLength m (rsdtAddress m (acpiFindRsdp m))).toNat ≠ 0) :=
    not_or.mpr ⟨h.rsdt_ne, not_not.mpr h.checksum_eq⟩
  simp only [acpiInit, if_neg h.rsdp_ne, if_neg hrsdt, h.madt_eq, if_pos hne, countCpus_eq hmem hfuel,
    Option.map_some]
  exact ⟨_, rfl, rfl, rfl⟩

/-- **The three walks over a MADT.** From one round more than there are entries on, the processors that are
enabled are counted, starting from zero and if there are fewer than 256; and the callbacks are called once for
each I/O APIC and for each override, in table order, with the fields of the entry. -/
theorem madt_walks (h : InMemory m madt es) (hne : madt ≠ 0) (hfuel : es.length < fuel) :
    (∀ d, Locates m madt → d.cpuCount = 0 → (cpus m madt es).length < 256 →
      ∃ d', acpiInit m fuel d = some d' ∧ d'.madt = madt ∧
        d'.cpuCount.toNat = (cpus m madt es).length) ∧
    (∀ d callback, d.madt = madt → callback ≠ 0 →
      acpiEnumerateIoApics m d callback fuel = some ((ofType 1 madt es).map (ioApicFields m)) ∧
      acpiEnumerateInterruptOverrides m d callback fuel =
        some ((ofType 2 madt es).map (intOverrideFields m))) := by
  constructor
  · intro d hlocates hzero hlt
    obtain ⟨d', hinit, hmadt, hcount⟩ := acpiInit_of_locates hlocates h hne hfuel
    refine ⟨d', hinit, hmadt, ?_⟩
    rw [hcount, hzero, show (0 : U8) + _ = _ from BitVec.zero_add _, BitVec.toNat_ofNat]
    exact Nat.mod_eq_of_lt hlt
  · rintro d callback rfl hcallback
    exact ⟨enumerate_eq h hne hcallback hfuel, enumerate_eq h hne hcallback hfuel⟩

/-- A processor, an I/O APIC and an override. -/
def smallEntries : List Entry :=
  [{ type := 0
     body := [0, 0, 1, 0, 0, 0]
     length_lt := by decide },
   { type := 1
     body := [2, 0, 0, 0, 0xC0, 0xFE, 0, 0, 0, 0]
     length_lt := by decide },
   { type := 2
     body := [0, 0, 2, 0, 0, 0, 0, 0]
     length_lt := by decide }]

/-- An RSDP at `0xE0000`, the RSDT at `0xE0020` and the MADT with these entries at `0xE0060`. -/
def smallMemory : Mem := holding 0xE0000 <|
  [0x52, 0x53, 0x44, 0x20, 0x50, 0x54, 0x52, 0x20, 0xB3, 0, 0, 0, 0, 0, 0, 0, 0x20, 0, 0x0E, 0] ++
  List.replicate 12 0 ++
  [0x52, 0x53, 0x44, 0x54, 0x28, 0, 0, 0, 1, 0x2C] ++ List.replicate 26 0 ++ [0x60, 0, 0x0E, 0] ++
  List.replicate 24 0 ++
  [0x41, 0x50, 0x49, 0x43, 0x4A, 0, 0, 0, 1, 0xD5] ++ List.replicate 26 0 ++ [0, 0, 0xE0, 0xFE, 1, 0, 0, 0] ++
  smallEntries.flatMap Entry.bytes

/-- The driver before `acpi_init`. -/
def start : Driver where
  rsdp := 0
  rsdt := 0
  fadt := 0
  madt := 0
  localApicBase := 0
  cpuCount := 0

theorem acpiFindRsdp_eq (hsegment : segment m = 0) (h : IsRsdp m 0xE0000) : acpiFindRsdp m = 0xE0000 := by
  have hebda : ebdaParagraphs m = [] := if_pos hsegment
  unfold acpiFindRsdp
  rw [hebda, List.find?_nil]
  show ((paragraphs _ (0x1FFF + 1)).find? _).getD 0 = _
  rw [paragraphs_succ, List.find?_cons, decide_eq_true h]
  rfl

theorem madt_walks_small :
    (∃ d', acpiInit smallMemory 4 start = some d' ∧ d'.cpuCount.toNat = 1) ∧
      acpiEnumerateIoApics smallMemory { start with madt := 0xE0060 } 1 4 =
        some [(2, 0xFEC00000, 0)] ∧
      acpiEnumerateInterruptOverrides smallMemory { start with madt := 0xE0060 } 1 4 =
        some [(0, 2, 0)] := by
  have hmem : InMemory smallMemory 0xE0060 smallEntries := ⟨by decide, by decide, by decide⟩
  have hlocates : Locates smallMemory 0xE0060 := by
    constructor <;> rw [acpiFindRsdp_eq (by decide) (by decide)]
    · decide
    · decide
    · decide +kernel
    · decide +kernel
  obtain ⟨hinit, hcalls⟩ := madt_walks hmem (by decide) (show smallEntries.length < 4 by decide)
  obtain ⟨d', hd', -, hcount⟩ := hinit start hlocates rfl (by decide)
  obtain ⟨hioApics, hoverrides⟩ := hcalls { start with madt := 0xE0060 } 1 rfl (by decide)
  exact ⟨⟨d', hd', hcount⟩, hioApics, hoverrides⟩

end BloodKernel.Acpi
