import BloodKernel.Drivers.AcpiMadt

set_option autoImplicit false

/-!
# How far the walks over the ACPI tables go

The search of `acpi_init` for a table looks at as many pointers as the length of the RSDT says, and the walks
over the MADT add the length byte of an entry to get to the next one. The driver checks neither.

* `acpiFindTable_eq`: the headers that a search looks at.
* `Chain`: entries that lead to the end of a table; `walkFits_iff`: a walk ends when there are.
* `Regular`: a MADT with no more entries than it has room for; `InMemory.regular`: the well-formed ones are.
* **`walks_fit_iff`**: when `acpi_init` and the two enumerations end, and visit no more than fits.
-/

namespace BloodKernel.Acpi

open Lib LowMemory

/-! ## What is visited -/

/-- The headers that a search looks at, up to the first that it returns. -/
def searched (P : U32 → Prop) [DecidablePred P] : List U32 → List U32
  | [] => []
  | header :: headers => if P header then [header] else header :: searched P headers

/-- The two tests of a header. -/
def IsTable (m : Mem) (signature header : U32) : Prop :=
  load32 m header = signature ∧ acpiChecksum m header (headerLength m header).toNat = 0

instance decidableIsTable (m : Mem) (signature : U32) : DecidablePred (IsTable m signature) := fun _ =>
  inferInstanceAs (Decidable (_ ∧ _))

/-- The headers that `acpi_find_table` looks at. -/
def lookedAt (m : Mem) (rsdt signature : U32) : List U32 :=
  if rsdt = 0 then [] else searched (IsTable m signature) (tables m rsdt)

/-- The body of a walk that notes down the entries. -/
def note (entry : U32) (visited : List U32) : List U32 := visited ++ [entry]

/-- The entries that a walk over the MADT visits. -/
def visits (m : Mem) (madt : U32) (fuel : ℕ) : Option (List U32) := walkMadt m madt note fuel []

/-- A search looks at no more pointers than the RSDT has room for, of 4 bytes each. -/
def SearchFits (m : Mem) (rsdt signature : U32) : Prop :=
  4 * (lookedAt m rsdt signature).length ≤ (headerLength m rsdt).toNat - 36

/-- A walk ends, and has visited no more entries than the MADT has room for: an entry has a type and a
length, of one byte each. -/
def WalkFits (m : Mem) (madt : U32) : Prop :=
  ∃ fuel visited, visits m madt fuel = some visited ∧
    2 * visited.length ≤ (headerLength m madt).toNat - 44

/-- `acpi_rsdt` in `acpi_init`. -/
def rsdtFound (m : Mem) : U32 := rsdtAddress m (acpiFindRsdp m)

/-- `acpi_madt` in `acpi_init`. -/
def madtFound (m : Mem) : U32 := acpiFindTable m (rsdtFound m) madtSignature

/-- `acpi_init` gets to its searches. -/
structure Searches (m : Mem) : Prop where
  rsdp_ne : acpiFindRsdp m ≠ 0
  rsdt_ne : rsdtFound m ≠ 0
  checksum_eq : acpiChecksum m (rsdtFound m) (headerLength m (rsdtFound m)).toNat = 0

/-- `acpi_init` ends, and visits no more than fits. -/
structure InitFits (m : Mem) (d : Driver) : Prop where
  ends : ∃ fuel, (acpiInit m fuel d).isSome
  searches : Searches m → SearchFits m (rsdtFound m) fadtSignature ∧ SearchFits m (rsdtFound m) madtSignature
  walk : Searches m → madtFound m ≠ 0 → WalkFits m (madtFound m)

/-- An enumeration ends, and visits no more than fits. -/
structure EnumerationFits {β : Type} (m : Mem) (d : Driver) (callback : U32)
    (enumeration : ℕ → Option (List β)) : Prop where
  ends : ∃ fuel, (enumeration fuel).isSome
  walk : d.madt ≠ 0 → callback ≠ 0 → WalkFits m d.madt

variable {m : Mem} {stop p madt rsdt signature : U32} {sizes : List ℕ}

/-! ## The search -/

section Search

variable {P : U32 → Prop} [DecidablePred P]

theorem find_searched (headers : List U32) : (searched P headers).find? (P ·) = headers.find? (P ·) := by
  induction headers with
  | nil => rfl
  | cons header headers ih =>
      rw [searched]
      by_cases h : P header
      · rw [if_pos h, List.find?_cons, List.find?_cons, decide_eq_true h]
      · rw [if_neg h, List.find?_cons, List.find?_cons, decide_eq_false h, ih]

theorem length_searched_le (headers : List U32) : (searched P headers).length ≤ headers.length := by
  induction headers with
  | nil => exact Nat.le_refl _
  | cons header headers ih =>
      rw [searched]
      split_ifs
      · exact Nat.succ_le_succ (Nat.zero_le _)
      · exact Nat.succ_le_succ ih

theorem length_searched_pos {headers : List U32} (h : 0 < headers.length) :
    0 < (searched P headers).length := by
  cases headers with
  | nil => exact absurd h (lt_irrefl _)
  | cons header headers =>
      rw [searched]
      split_ifs <;> exact Nat.zero_lt_succ _

end Search

/-- What `acpi_find_table` returns is the first of the headers that it looks at to pass the tests. -/
theorem acpiFindTable_eq (m : Mem) (rsdt signature : U32) : acpiFindTable m rsdt signature =
    ((lookedAt m rsdt signature).find? (IsTable m signature ·)).getD 0 := by
  unfold acpiFindTable lookedAt
  by_cases h : rsdt = 0
  · rw [if_pos h, if_pos h]
    rfl
  · rw [if_neg h, if_neg h, find_searched]
    rfl

theorem length_tables (m : Mem) (rsdt : U32) :
    (tables m rsdt).length = (headerLength m rsdt - 36).toNat / 4 := by
  rw [tables, List.length_map, List.length_range]

/-- **The search.** A length below the 36 bytes of the header makes the count of the pointers wrap. -/
theorem searchFits_iff (h : rsdt ≠ 0) : SearchFits m rsdt signature ↔ 36 ≤ (headerLength m rsdt).toNat := by
  have htables := length_tables m rsdt
  have hlt := (headerLength m rsdt).isLt
  have hcount : (headerLength m rsdt - 36).toNat = (2 ^ 32 - 36 + (headerLength m rsdt).toNat) % 2 ^ 32 :=
    BitVec.toNat_sub _ _
  unfold SearchFits lookedAt
  rw [if_neg h]
  constructor
  · intro hfits
    by_contra hshort
    have hpos : 0 < (tables m rsdt).length := by omega
    have hvisited := @length_searched_pos (IsTable m signature) _ _ hpos
    omega
  · intro hle
    have hvisited := @length_searched_le (IsTable m signature) _ (tables m rsdt)
    omega

/-! ## The walk -/

theorem walk_eq_visits {σ : Type} (body : U32 → σ → σ) (fuel : ℕ) (p : U32) (visited : List U32) (s : σ) :
    walk m stop body fuel p (visited.foldl (fun s a => body a s) s) =
      (walk m stop note fuel p visited).map fun visited => visited.foldl (fun s a => body a s) s := by
  induction fuel generalizing p visited with
  | zero => rfl
  | succ fuel ih =>
      rw [walk, walk]
      by_cases h : p < stop
      · rw [if_pos h, if_pos h, ← ih, note, List.foldl_append]
        rfl
      · rw [if_neg h, if_neg h, Option.map_some]

theorem walkMadt_eq_visits {σ : Type} (body : U32 → σ → σ) (fuel : ℕ) (s : σ) :
    walkMadt m madt body fuel s =
      (visits m madt fuel).map fun visited => visited.foldl (fun s a => body a s) s :=
  walk_eq_visits body fuel _ [] s

/-- The entries from `p` on have these lengths, none of them zero, and lead to the end. -/
def Chain (m : Mem) (stop : U32) : U32 → List ℕ → Prop
  | p, [] => ¬p < stop
  | p, size :: sizes => p < stop ∧ 0 < size ∧ (m (p + 1)).toNat = size ∧
      Chain m stop (p + BitVec.ofNat 32 size) sizes

theorem Chain.visits (h : Chain m stop p sizes) (visited : List U32) :
    ∃ visited', walk m stop note (sizes.length + 1) p visited = some visited' ∧
      visited'.length = visited.length + sizes.length := by
  induction sizes generalizing p visited with
  | nil => exact ⟨visited, if_neg h, rfl⟩
  | cons size sizes ih =>
      obtain ⟨hlt, -, hsize, hchain⟩ := h
      obtain ⟨visited', hwalk, hlength⟩ := ih hchain (note p visited)
      refine ⟨visited', ?_, ?_⟩
      · rw [List.length_cons, walk, if_pos hlt, ← BitVec.ofNat_toNat, hsize, hwalk]
      · rw [hlength, note, List.length_append, List.length_singleton, List.length_cons]
        omega

theorem walk_eq_none {σ : Type} {body : U32 → σ → σ} (hlt : p < stop) (hzero : m (p + 1) = 0) (fuel : ℕ)
    (s : σ) : walk m stop body fuel p s = none := by
  induction fuel generalizing s with
  | zero => rfl
  | succ fuel ih =>
      have hnext : p + (0 : U8).setWidth 32 = p := BitVec.add_zero p
      rw [walk, if_pos hlt, hzero, hnext, ih]

theorem chain_of_walk {fuel : ℕ} {visited visited' : List U32}
    (h : walk m stop note fuel p visited = some visited') :
    ∃ sizes, Chain m stop p sizes ∧ visited'.length = visited.length + sizes.length := by
  induction fuel generalizing p visited with
  | zero => exact absurd h (Option.some_ne_none _).symm
  | succ fuel ih =>
      by_cases hlt : p < stop
      · have hpos : 0 < (m (p + 1)).toNat := by
          by_contra hzero
          have hbyte : m (p + 1) = 0 := BitVec.eq_of_toNat_eq (Nat.eq_zero_of_not_pos hzero)
          rw [walk_eq_none hlt hbyte] at h
          exact absurd h (Option.some_ne_none _).symm
        rw [walk, if_pos hlt, ← BitVec.ofNat_toNat] at h
        obtain ⟨sizes, hchain, hlength⟩ := ih h
        refine ⟨(m (p + 1)).toNat :: sizes, ⟨hlt, hpos, rfl, hchain⟩, ?_⟩
        rw [hlength, note, List.length_append, List.length_singleton, List.length_cons]
        omega
      · rw [walk, if_neg hlt] at h
        exact ⟨[], hlt, congrArg List.length (Option.some.inj h).symm⟩

theorem walkFits_iff : WalkFits m madt ↔
    ∃ sizes, Chain m (madt + headerLength m madt) (madt + 44) sizes ∧
      2 * sizes.length ≤ (headerLength m madt).toNat - 44 := by
  constructor
  · rintro ⟨fuel, visited, hvisits, hle⟩
    obtain ⟨sizes, hchain, hlength⟩ := chain_of_walk hvisits
    rw [hlength, List.length_nil, Nat.zero_add] at hle
    exact ⟨sizes, hchain, hle⟩
  · rintro ⟨sizes, hchain, hle⟩
    obtain ⟨visited, hvisits, hlength⟩ := hchain.visits []
    rw [List.length_nil, Nat.zero_add] at hlength
    exact ⟨sizes.length + 1, visited, hvisits, hlength ▸ hle⟩

/-! ## Regular tables -/

/-- The entries of a MADT are as long as their length bytes say, none of them of length zero, and lead to its
end; a table that is shorter than its header has none. The entries of one byte, and the bytes by which the
last one runs over the end, are no more than the bytes that the other entries have beyond two. -/
def Regular (m : Mem) (madt : U32) : Prop :=
  ∃ sizes, Chain m (madt + headerLength m madt) (madt + 44) sizes ∧
    (sizes = [] ∨ 44 ≤ (headerLength m madt).toNat) ∧
    sizes.count 1 + (sizes.sum - ((headerLength m madt).toNat - 44)) ≤ (sizes.map (· - 2)).sum

theorem Chain.pos (h : Chain m stop p sizes) : ∀ size ∈ sizes, 0 < size := by
  induction sizes generalizing p with
  | nil => exact fun _ h => absurd h List.not_mem_nil
  | cons size sizes ih =>
      obtain ⟨-, hpos, -, hchain⟩ := h
      exact List.forall_mem_cons.mpr ⟨hpos, ih hchain⟩

theorem Chain.le_sum (h : Chain m stop p sizes) : stop.toNat ≤ p.toNat + sizes.sum := by
  induction sizes generalizing p with
  | nil => exact Nat.le_of_not_lt h
  | cons size sizes ih =>
      obtain ⟨-, -, -, hchain⟩ := h
      have hnext : (p + BitVec.ofNat 32 size).toNat ≤ p.toNat + size := by
        rw [BitVec.toNat_add, BitVec.toNat_ofNat]
        omega
      have hsum := ih hchain
      rw [List.sum_cons]
      omega

/-- What the entries have beyond two bytes, and what those of one byte lack. -/
theorem sum_add_count (h : ∀ size ∈ sizes, 0 < size) :
    sizes.sum + sizes.count 1 = 2 * sizes.length + (sizes.map (· - 2)).sum := by
  induction sizes with
  | nil => rfl
  | cons size sizes ih =>
      obtain ⟨hpos, hsizes⟩ := List.forall_mem_cons.mp h
      have hsum := ih hsizes
      rw [List.sum_cons, List.count_cons, List.length_cons, List.map_cons, List.sum_cons]
      by_cases hone : size = 1
      · rw [hone, if_pos (beq_self_eq_true 1)]
        omega
      · rw [if_neg (by simpa using hone)]
        omega

/-- **The walk over a MADT.** -/
theorem walkFits_iff_regular : WalkFits m madt ↔ Regular m madt := by
  rw [walkFits_iff]
  refine exists_congr fun sizes => and_congr_right fun hchain => ?_
  cases sizes with
  | nil => exact iff_of_true (Nat.zero_le _) ⟨.inl rfl, Nat.le_of_eq ((Nat.zero_add _).trans (Nat.zero_sub _))⟩
  | cons size sizes =>
      have hsum := sum_add_count hchain.pos
      have hend := hchain.le_sum
      have hlt : (madt + 44).toNat < (madt + headerLength m madt).toNat := hchain.1
      have hstart : (madt + 44).toNat = (madt.toNat + 44) % 2 ^ 32 := BitVec.toNat_add _ _
      have hstop : (madt + headerLength m madt).toNat = (madt.toNat + (headerLength m madt).toNat) % 2 ^ 32 :=
        BitVec.toNat_add _ _
      rw [or_iff_right (List.cons_ne_nil _ _)]
      rw [List.length_cons] at hsum ⊢
      omega

theorem chain_of_at {es : List Entry} (h : At m stop p (es.flatMap Entry.bytes)) :
    Chain m stop p (es.map Entry.length) := by
  induction es generalizing p with
  | nil => exact h.not_lt
  | cons e es ih =>
      rw [List.flatMap_cons] at h
      have hheader : At m stop p (e.type :: _) := h
      have hbyte : m (p + 1) = BitVec.ofNat 8 e.length := h.lies.2.1
      refine ⟨hheader.lt, Nat.zero_lt_succ _, ?_, ih h.append⟩
      rw [hbyte, BitVec.toNat_ofNat]
      exact Nat.mod_eq_of_lt e.length_lt

/-- **A well-formed MADT** is regular. -/
theorem InMemory.regular {es : List Entry} (h : InMemory m madt es) : Regular m madt := by
  have hlength : (headerLength m madt).toNat = 44 + (es.map Entry.length).sum := by
    rw [h.length_eq, List.length_flatMap]
    rfl
  have hone : (es.map Entry.length).count 1 = 0 := by
    refine List.count_eq_zero.mpr fun hmem => ?_
    obtain ⟨e, -, he⟩ := List.mem_map.mp hmem
    exact absurd he (Nat.succ_ne_succ_iff.mpr (Nat.succ_ne_zero _))
  refine ⟨_, chain_of_at h.at, .inr ?_, ?_⟩ <;> omega

/-! ## When no more is visited than fits -/

theorem acpiInit_ends (d : Driver) (h : Searches m → madtFound m ≠ 0 → WalkFits m (madtFound m)) :
    ∃ fuel, (acpiInit m fuel d).isSome := by
  by_cases hrsdp : acpiFindRsdp m = 0
  · exact ⟨0, congrArg Option.isSome (if_pos hrsdp)⟩
  by_cases hrsdt : rsdtFound m = 0 ∨ acpiChecksum m (rsdtFound m) (headerLength m (rsdtFound m)).toNat ≠ 0
  · exact ⟨0, congrArg Option.isSome ((if_neg hrsdp).trans (if_pos hrsdt))⟩
  have hinit fuel := congrArg Option.isSome
    ((if_neg hrsdp).trans (if_neg hrsdt) : acpiInit m fuel d = ite (madtFound m ≠ 0) _ _)
  by_cases hmadt : madtFound m = 0
  · refine ⟨0, (hinit 0).trans ?_⟩
    rw [if_neg (not_not.mpr hmadt)]
    rfl
  · obtain ⟨hne, hchecksum⟩ := not_or.mp hrsdt
    obtain ⟨fuel, visited, hvisits, -⟩ := h ⟨hrsdp, hne, not_not.mp hchecksum⟩ hmadt
    refine ⟨fuel, (hinit fuel).trans ?_⟩
    rw [if_pos hmadt, Option.isSome_map, walkMadt_eq_visits, Option.isSome_map]
    exact congrArg Option.isSome hvisits

theorem enumerate_ends {β : Type} {type : U8} {fields : U32 → β} {d : Driver} {callback : U32}
    (h : d.madt ≠ 0 → callback ≠ 0 → WalkFits m d.madt) :
    ∃ fuel, (enumerate m type fields d callback fuel).isSome := by
  unfold enumerate
  by_cases hnull : d.madt = 0 ∨ callback = 0
  · exact ⟨0, congrArg Option.isSome (if_pos hnull)⟩
  · obtain ⟨hmadt, hcallback⟩ := not_or.mp hnull
    obtain ⟨fuel, visited, hvisits, -⟩ := h hmadt hcallback
    refine ⟨fuel, ?_⟩
    rw [if_neg hnull, walkMadt_eq_visits, Option.isSome_map]
    exact congrArg Option.isSome hvisits

theorem initFits_iff (m : Mem) (d : Driver) : InitFits m d ↔
    (Searches m → 36 ≤ (headerLength m (rsdtFound m)).toNat ∧
      (madtFound m ≠ 0 → Regular m (madtFound m))) := by
  constructor
  · intro h hsearches
    exact ⟨(searchFits_iff hsearches.rsdt_ne).mp (h.searches hsearches).1,
      fun hmadt => walkFits_iff_regular.mp (h.walk hsearches hmadt)⟩
  · intro h
    have hwalk : Searches m → madtFound m ≠ 0 → WalkFits m (madtFound m) := fun hsearches hmadt =>
      walkFits_iff_regular.mpr ((h hsearches).2 hmadt)
    refine ⟨acpiInit_ends d hwalk, fun hsearches => ?_, hwalk⟩
    have hlength := (h hsearches).1
    exact ⟨(searchFits_iff hsearches.rsdt_ne).mpr hlength, (searchFits_iff hsearches.rsdt_ne).mpr hlength⟩

theorem enumerationFits_iff {β : Type} (m : Mem) (type : U8) (fields : U32 → β) (d : Driver)
    (callback : U32) : EnumerationFits m d callback (enumerate m type fields d callback) ↔
      (d.madt ≠ 0 → callback ≠ 0 → Regular m d.madt) :=
  ⟨fun h hmadt hcallback => walkFits_iff_regular.mp (h.walk hmadt hcallback),
    fun h =>
      have hwalk hmadt hcallback := walkFits_iff_regular.mpr (h hmadt hcallback)
      ⟨enumerate_ends hwalk, hwalk⟩⟩

/-- **When no more is visited than fits.** `acpi_init` does when it does not get to its searches; else the RSDT
must be as long as its header, and the MADT, when one is found, regular. The enumerations do when there is no
MADT or no callback; else the MADT must be regular. -/
theorem walks_fit_iff (m : Mem) (d : Driver) (callback : U32) :
    (InitFits m d ↔
      (Searches m → 36 ≤ (headerLength m (rsdtFound m)).toNat ∧
        (madtFound m ≠ 0 → Regular m (madtFound m)))) ∧
    (EnumerationFits m d callback (acpiEnumerateIoApics m d callback) ↔
      (d.madt ≠ 0 → callback ≠ 0 → Regular m d.madt)) ∧
    (EnumerationFits m d callback (acpiEnumerateInterruptOverrides m d callback) ↔
      (d.madt ≠ 0 → callback ≠ 0 → Regular m d.madt)) :=
  ⟨initFits_iff m d, enumerationFits_iff m 1 _ d callback, enumerationFits_iff m 2 _ d callback⟩

/-- The MADT of `smallMemory`, cut behind the type and the length of its first entry, with a length of zero. -/
def zeroMemory : Mem := Function.update (Function.update smallMemory 0xE0064 0x2E) 0xE008D 0

theorem acpiFindRsdp_zeroMemory : acpiFindRsdp zeroMemory = 0xE0000 :=
  acpiFindRsdp_eq (by decide) (by decide)

theorem rsdtFound_zeroMemory : rsdtFound zeroMemory = 0xE0020 := by
  unfold rsdtFound
  rw [acpiFindRsdp_zeroMemory]
  decide

theorem searches_zeroMemory : Searches zeroMemory := by
  constructor
  · rw [acpiFindRsdp_zeroMemory]
    decide
  · rw [rsdtFound_zeroMemory]
    decide
  · rw [rsdtFound_zeroMemory]
    decide +kernel

theorem madtFound_zeroMemory : madtFound zeroMemory = 0xE0060 := by
  unfold madtFound
  rw [rsdtFound_zeroMemory]
  decide +kernel

/-- Over a MADT whose first entry has length zero the walks do not end. -/
theorem not_walks_fit_zero : ¬InitFits zeroMemory start ∧
    ∀ fuel, acpiEnumerateIoApics zeroMemory { start with madt := 0xE0060 } 1 fuel = none := by
  have hnone : ∀ fuel, visits zeroMemory 0xE0060 fuel = none := fun fuel =>
    walk_eq_none (by decide) (by decide) fuel []
  constructor
  · intro h
    obtain ⟨fuel, visited, hvisits, -⟩ := madtFound_zeroMemory ▸ h.walk searches_zeroMemory (by
      rw [madtFound_zeroMemory]
      decide)
    exact absurd hvisits (by
      rw [hnone]
      exact (Option.some_ne_none _).symm)
  · intro fuel
    show walkMadt _ _ _ fuel _ = none
    rw [walkMadt_eq_visits, hnone]
    rfl

end BloodKernel.Acpi
