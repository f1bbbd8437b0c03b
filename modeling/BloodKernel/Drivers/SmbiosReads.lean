import BloodKernel.Drivers.SmbiosEntry
import BloodKernel.Drivers.SmbiosTable

set_option autoImplicit false

/-!
# What the search of the SMBIOS table reads

The search on tables of any content. It keeps to the bytes of the table only when every structure that it
gets to has its header in the table, and its string set ends in the table or is cut off behind a byte that is
not zero.

* `Inside`: the tables on which it does, by the structures; `room` is the number of addresses behind them.
* `skip_of_lt`, `not_only_of_wrap`: the step over a structure, without and with a wrap of the pointer.
* **`findLoop_of_inside`**, **`findLoop_of_not_inside`**: the search on these tables, and on the others.
* **`stays_and_length_iff`**: where the search stays, and when the length of the table is that of an SMBIOS 3
  entry point.
-/

namespace BloodKernel.Smbios

open Lib LowMemory

/-! ## Tables that are searched without other reads -/

/-- How far behind the end of `n` bytes the search goes on, when a structure is `headerLength` long there
and the string set reaches `beyond` behind the end. -/
def overshoot (headerLength : U8) (n beyond : ℕ) : ℕ := beyond + (headerLength.toNat - n)

/-- The table `l` is searched inside, with `found` structures of the type found. -/
inductive Inside (type instance' : U8) (room : ℕ) : U8 → List U8 → Prop
  | empty {found : U8} : Inside type instance' room found []
  | hit {l : List U8} : Inside type instance' room instance' (type :: l)
  | endOfTable {found : U8} {l : List U8} : Inside type instance' room found (127 :: l)
  | next {found headerType headerLength : U8} {l rest : List U8} {beyond : ℕ}
      (hskip : afterStrings ((headerType :: headerLength :: l).drop headerLength.toNat) =
        some (rest, beyond))
      (hroom : overshoot headerLength (l.length + 2) beyond < room)
      (hrest : Inside type instance' room (if headerType = type then found + 1 else found) rest) :
      Inside type instance' room found (headerType :: headerLength :: l)

theorem length_afterStrings {l rest : List U8} {beyond : ℕ} (h : afterStrings l = some (rest, beyond)) :
    beyond = 0 ∧ rest.length + 2 ≤ l.length ∨ beyond = 2 ∧ rest = [] := by
  induction l using afterStrings.induct with
  | case1 =>
      cases h
      exact .inr ⟨rfl, rfl⟩
  | case2 x hx =>
      rw [afterStrings, if_pos hx] at h
      cases h
      exact .inr ⟨rfl, rfl⟩
  | case3 x hx =>
      rw [afterStrings, if_neg hx] at h
      cases h
  | case4 x y l hxy ih =>
      rw [afterStrings, if_pos hxy] at h
      exact (ih h).imp (And.imp_right Nat.le_succ_of_le) id
  | case5 x y l hxy =>
      rw [afterStrings, if_neg hxy] at h
      cases h
      exact .inl ⟨rfl, Nat.le_refl _⟩

theorem length_rest_lt {headerType headerLength : U8} {l rest : List U8} {beyond : ℕ}
    (h : afterStrings ((headerType :: headerLength :: l).drop headerLength.toNat) = some (rest, beyond)) :
    rest.length < l.length + 2 := by
  rcases length_afterStrings h with ⟨-, hle⟩ | ⟨-, rfl⟩
  · rw [List.length_drop, List.length_cons, List.length_cons] at hle
    omega
  · exact Nat.succ_pos _

/-! ## The step over a structure -/

variable {m : Mem} {end' p lo : U32} {type instance' found headerType headerLength : U8}
  {l rest : List U8} {beyond fuel : ℕ}

/-- The pointer stands at `l`, or behind the end of the table with nothing left. -/
def Stands (m : Mem) (end' p : U32) (l : List U8) : Prop := At m end' p l ∨ l = [] ∧ ¬p < end'

theorem skip_value (h : At m end' p (headerType :: headerLength :: l)) (hlo : lo.toNat ≤ p.toNat)
    (hafter : afterStrings ((headerType :: headerLength :: l).drop headerLength.toNat) =
      some (rest, beyond))
    (hwrap : p.toNat + headerLength.toNat < 2 ^ 32) {q : U32}
    (hq : q = p + BitVec.ofNat 32 headerLength.toNat) :
    (skipStrings m end' q).Only (Within lo end') ∧
      (skipStrings m end' q).value.toNat + 2 + rest.length = end'.toNat +
        overshoot headerLength (l.length + 2) beyond ∧
      p.toNat ≤ (skipStrings m end' q).value.toNat ∧
      Lies m ((skipStrings m end' q).value + 2) rest := by
  have hvalue : q.toNat = p.toNat + headerLength.toNat := hq ▸ toNat_address hwrap
  have hlength := h.toNat_add
  rw [List.length_cons, List.length_cons] at hlength
  unfold overshoot
  by_cases hle : headerLength.toNat ≤ l.length + 2
  · have hat := h.drop (k := headerLength.toNat) hle
    rw [← hq] at hat
    obtain ⟨honly, hsum, hge, hlies⟩ := skipStrings_some hat (hlo.trans (by omega)) hafter
    exact ⟨honly, by omega, by omega, hlies⟩
  · rw [List.drop_eq_nil_of_le (show _ ≤ headerLength.toNat by
      rw [List.length_cons, List.length_cons]; omega)] at hafter
    cases hafter
    rw [skipStrings_of_not_lt (by rw [lt_iff_toNat]; omega)]
    refine ⟨Traced.only_pure _, ?_, ?_, trivial⟩
    · show q.toNat + 2 + 0 = _
      omega
    · show p.toNat ≤ q.toNat
      omega

/-- **The pointer does not wrap**: it stands behind the string set. -/
theorem skip_of_lt (h : At m end' p (headerType :: headerLength :: l)) (hlo : lo.toNat ≤ p.toNat)
    (hafter : afterStrings ((headerType :: headerLength :: l).drop headerLength.toNat) =
      some (rest, beyond))
    (hroom : overshoot headerLength (l.length + 2) beyond < 2 ^ 32 - end'.toNat) :
    let skipped := skipStrings m end' (p + BitVec.ofNat 32 headerLength.toNat)
    skipped.Only (Within lo end') ∧ lo.toNat ≤ (skipped.value + 2).toNat ∧
      Stands m end' (skipped.value + 2) rest := by
  obtain ⟨q, hq⟩ : ∃ q, q = p + BitVec.ofNat 32 headerLength.toNat := ⟨_, rfl⟩
  rw [← hq]
  intro skipped
  have hlength := h.toNat_add
  rw [List.length_cons, List.length_cons] at hlength
  have hwrap : p.toNat + headerLength.toNat < 2 ^ 32 := by
    unfold overshoot at hroom
    omega
  obtain ⟨honly, hvalue, hge, hlies⟩ := skip_value h hlo hafter hwrap hq
  change skipped.value.toNat + 2 + _ = _ at hvalue
  change _ ≤ skipped.value.toNat at hge
  have htwo : (skipped.value + 2).toNat = skipped.value.toNat + 2 :=
    toNat_address (k := 2) (by omega)
  refine ⟨honly, by omega, ?_⟩
  rcases length_afterStrings hafter with ⟨rfl, hle⟩ | ⟨rfl, rfl⟩
  · rw [List.length_drop, List.length_cons, List.length_cons] at hle
    unfold overshoot at hvalue
    exact .inl ⟨hlies, by omega⟩
  · rw [List.length_nil] at hvalue
    exact .inr ⟨rfl, by rw [lt_iff_toNat]; omega⟩

theorem not_only_of_below (hp : p < end') (hbelow : p.toNat < lo.toNat)
    (hsome : (findLoop m end' type instance' fuel p found).value.isSome) :
    ¬(findLoop m end' type instance' fuel p found).Only (Within lo end') := by
  intro honly
  cases fuel with
  | zero => cases hsome
  | succ fuel =>
      rw [findLoop, if_pos hp, Traced.only_bind, Traced.only_read] at honly
      have hle := honly.1.1
      omega

/-- **The pointer wraps** behind the formatted area: the string set is looked for below the table. -/
theorem not_only_of_wrap_header (h : At m end' p (headerType :: l)) (hlo : lo.toNat ≤ p.toNat)
    (hsize : end'.toNat < lo.toNat + 2 ^ 16)
    (hwrap : ¬p.toNat + headerLength.toNat < 2 ^ 32) :
    ¬(skipStrings m end' (p + BitVec.ofNat 32 headerLength.toNat)).Only (Within lo end') := by
  have hlength := h.toNat_add
  have hheader := headerLength.isLt
  have hend := end'.isLt
  have hbelow : (p + BitVec.ofNat 32 headerLength.toNat).toNat < 256 := by
    rw [BitVec.toNat_add, BitVec.toNat_ofNat]
    omega
  have hlt : p + BitVec.ofNat 32 headerLength.toNat < end' := by
    rw [lt_iff_toNat]
    omega
  intro honly
  rw [skipStrings, if_pos hlt, Traced.only_bind, Traced.only_read] at honly
  have hle := honly.1.1
  omega

/-- **The pointer wraps**: then the search reads below the table. -/
theorem not_only_of_wrap (h : At m end' p (headerType :: headerLength :: l))
    (hlo : lo.toNat ≤ p.toNat) (hsize : end'.toNat < lo.toNat + 2 ^ 16)
    (hafter : afterStrings ((headerType :: headerLength :: l).drop headerLength.toNat) =
      some (rest, beyond))
    (hroom : ¬overshoot headerLength (l.length + 2) beyond < 2 ^ 32 - end'.toNat)
    (hsome : (findLoop m end' type instance' fuel
      ((skipStrings m end' (p + BitVec.ofNat 32 headerLength.toNat)).value + 2) found).value.isSome) :
    ¬((skipStrings m end' (p + BitVec.ofNat 32 headerLength.toNat)).Only (Within lo end') ∧
      (findLoop m end' type instance' fuel
        ((skipStrings m end' (p + BitVec.ofNat 32 headerLength.toNat)).value + 2) found).Only
          (Within lo end')) := by
  by_cases hwrap : p.toNat + headerLength.toNat < 2 ^ 32
  · -- behind the string set
    obtain ⟨q, hq⟩ : ∃ q, q = p + BitVec.ofNat 32 headerLength.toNat := ⟨_, rfl⟩
    rw [← hq] at hsome ⊢
    obtain ⟨-, hvalue, -, -⟩ := skip_value h hlo hafter hwrap hq
    have hlength := h.toNat_add
    have hheader := headerLength.isLt
    have hend := end'.isLt
    rw [List.length_cons, List.length_cons] at hlength
    have htwo : (2 : U32).toNat = 2 := rfl
    obtain ⟨hnext, hhigh⟩ : ((skipStrings m end' q).value + 2).toNat < 256 ∧ 2 ^ 17 ≤ end'.toNat := by
      have hlt := (skipStrings m end' q).value.isLt
      unfold overshoot at hroom hvalue
      rw [BitVec.toNat_add, htwo]
      rcases length_afterStrings hafter with ⟨rfl, -⟩ | ⟨rfl, rfl⟩
      · exact ⟨by omega, by omega⟩
      · rw [List.length_nil] at hvalue
        exact ⟨by omega, by omega⟩
    exact fun honly => not_only_of_below (by rw [lt_iff_toNat]; omega) (by omega) hsome honly.2
  · exact fun honly => not_only_of_wrap_header h hlo hsize hwrap honly.1

/-! ## The search -/

theorem findLoop_of_stop (h : At m end' p (headerType :: l)) (hlo : lo.toNat ≤ p.toNat)
    (hstop : headerType = type ∧ found = instance' ∨ headerType = 127) :
    (findLoop m end' type instance' (fuel + 1) p found).value.isSome ∧
      (findLoop m end' type instance' (fuel + 1) p found).Only (Within lo end') := by
  have hread : Traced.Only (Within lo end') (Traced.read m p) := Traced.only_read.mpr (h.within hlo)
  by_cases hhit : headerType = type ∧ found = instance'
  · rw [findLoop_of_hit h hhit, Traced.only_bind]
    exact ⟨rfl, hread, Traced.only_pure _⟩
  · rw [findLoop_of_last h hhit (hstop.resolve_left hhit), Traced.only_bind]
    exact ⟨rfl, hread, Traced.only_pure _⟩

/-- **On these tables** the search ends, after reads of bytes of the table only. -/
theorem findLoop_of_inside (h : Inside type instance' (2 ^ 32 - end'.toNat) found l)
    (hat : Stands m end' p l) (hlo : lo.toNat ≤ p.toNat) (hfuel : l.length < fuel) :
    (findLoop m end' type instance' fuel p found).value.isSome ∧
      (findLoop m end' type instance' fuel p found).Only (Within lo end') := by
  obtain ⟨fuel, rfl⟩ := Nat.exists_eq_add_one.mpr (Nat.zero_lt_of_lt hfuel)
  induction h generalizing p fuel with
  | empty =>
      have hlt : ¬p < end' := hat.elim At.not_lt And.right
      rw [findLoop_of_not_lt hlt]
      exact ⟨rfl, Traced.only_pure _⟩
  | hit =>
      exact findLoop_of_stop (hat.resolve_right fun h => by cases h.1) hlo (.inl ⟨rfl, rfl⟩)
  | endOfTable =>
      exact findLoop_of_stop (hat.resolve_right fun h => by cases h.1) hlo (.inr rfl)
  | @next found headerType headerLength l rest beyond hskip hroom hrest ih =>
      have hat := hat.resolve_right fun h => by cases h.1
      by_cases hstop : headerType = type ∧ found = instance' ∨ headerType = 127
      · exact findLoop_of_stop hat hlo hstop
      · rw [not_or] at hstop
        have hlength : m (p + 1) = headerLength := hat.lies.2.1
        obtain ⟨honly, hle, hstands⟩ := skip_of_lt hat hlo hskip hroom
        have hlt := length_rest_lt hskip
        rw [List.length_cons, List.length_cons] at hfuel
        obtain ⟨fuel, rfl⟩ := Nat.exists_eq_succ_of_ne_zero (show fuel ≠ 0 by omega)
        obtain ⟨hsome, hreads⟩ := ih hstands hle fuel (by omega)
        rw [findLoop_of_next hat hstop.1 hstop.2]
        simp only [Traced.only_bind, Traced.only_read, Traced.value_bind, Traced.value_read]
        rw [hlength]
        exact ⟨hsome, hat.within hlo, hat.tail.within (hat.le_succ hlo), honly, hreads⟩

/-- **On the other tables** the search, if it ends, has read another byte. -/
theorem findLoop_of_not_inside (h : ¬Inside type instance' (2 ^ 32 - end'.toNat) found l)
    (hat : Stands m end' p l) (hlo : lo.toNat ≤ p.toNat) (hsize : end'.toNat < lo.toNat + 2 ^ 16)
    (hsome : (findLoop m end' type instance' fuel p found).value.isSome) :
    ¬(findLoop m end' type instance' fuel p found).Only (Within lo end') := by
  induction fuel generalizing p found l with
  | zero => cases hsome
  | succ fuel ih =>
      match l with
      | [] => exact absurd .empty h
      | headerType :: l =>
          have hat := hat.resolve_right fun h => by cases h.1
          have hhit : ¬(headerType = type ∧ found = instance') := by
            rintro ⟨rfl, rfl⟩
            exact h .hit
          have hlast : headerType ≠ 127 := by
            rintro rfl
            exact h .endOfTable
          rw [findLoop_of_next hat hhit hlast] at hsome ⊢
          simp only [Traced.only_bind, Traced.only_read, Traced.value_bind, Traced.value_read] at hsome ⊢
          match l with
          | [] =>
              -- the length of the last header lies behind the table
              exact fun honly => hat.tail.not_lt honly.2.1.2
          | headerLength :: l =>
              have hlength : m (p + 1) = headerLength := hat.lies.2.1
              rw [hlength] at hsome ⊢
              rintro ⟨-, -, hskipped, hnext⟩
              cases hafter : afterStrings ((headerType :: headerLength :: l).drop headerLength.toNat) with
              | none =>
                  have hle : headerLength.toNat ≤ (headerType :: headerLength :: l).length := by
                    by_contra hgt
                    rw [List.drop_eq_nil_of_le (Nat.le_of_not_le hgt)] at hafter
                    cases hafter
                  exact skipStrings_none (hat.drop hle) hafter hskipped
              | some r =>
                  obtain ⟨rest, beyond⟩ := r
                  by_cases hroom : overshoot headerLength (l.length + 2) beyond < 2 ^ 32 - end'.toNat
                  · obtain ⟨-, hle, hstands⟩ := skip_of_lt hat hlo hafter hroom
                    exact ih (fun hrest => h (.next hafter hroom hrest)) hstands hle hsome hnext
                  · exact not_only_of_wrap hat hlo hsize hafter hroom hsome ⟨hskipped, hnext⟩

/-! ## The function -/

def Table.Contains (t : Table) (a : U32) : Prop :=
  t.address.toNat ≤ a.toNat ∧ a.toNat < t.address.toNat + t.length.toNat

/-- The search ends, and reads no byte outside the table. -/
def Bounded (m : Mem) (t : Table) (type instance' : U8) : Prop :=
  ∃ fuel, (smbiosFindStructure m t type instance' fuel).value.isSome ∧
    (smbiosFindStructure m t type instance' fuel).Only t.Contains

/-- The table, up to its last byte, is searched inside. -/
def Table.Inside (m : Mem) (t : Table) (type instance' : U8) : Prop :=
  Smbios.Inside type instance' (2 ^ 32 - (t.address.toNat + t.length.toNat)) 0
    (bytesFrom m t.address t.length.toNat)

variable {t : Table}

theorem toNat_end (h : t.address.toNat + t.length.toNat < 2 ^ 32) :
    (t.address + t.length.setWidth 32).toNat = t.address.toNat + t.length.toNat := by
  rw [BitVec.toNat_add, BitVec.toNat_setWidth]
  omega

/-- A table that ends behind the last address is not searched at all. -/
theorem not_lt_end (h : 2 ^ 32 ≤ t.address.toNat + t.length.toNat) :
    ¬t.address < t.address + t.length.setWidth 32 := by
  have haddress := t.address.isLt
  have hlength := t.length.isLt
  rw [lt_iff_toNat, BitVec.toNat_add, BitVec.toNat_setWidth]
  omega

/-- **Where the search stays.** -/
theorem bounded_iff_inside (m : Mem) (t : Table) (type instance' : U8) :
    Bounded m t type instance' ↔
      t.address = 0 ∨ 2 ^ 32 ≤ t.address.toNat + t.length.toNat ∨ t.Inside m type instance' := by
  unfold Bounded smbiosFindStructure
  by_cases hzero : t.address = 0
  · simp only [if_pos hzero]
    exact iff_of_true ⟨0, rfl, Traced.only_pure _⟩ (.inl hzero)
  simp only [if_neg hzero]
  rw [or_iff_right hzero]
  by_cases hwrap : 2 ^ 32 ≤ t.address.toNat + t.length.toNat
  · refine iff_of_true ⟨1, ?_⟩ (.inl hwrap)
    rw [findLoop_of_not_lt (not_lt_end hwrap)]
    exact ⟨rfl, Traced.only_pure _⟩
  rw [or_iff_right hwrap]
  have hend := toNat_end (Nat.lt_of_not_le hwrap)
  have hcontains : t.Contains = Within t.address (t.address + t.length.setWidth 32) := by
    funext a
    unfold Within
    rw [hend]
    rfl
  have hat : At m (t.address + t.length.setWidth 32) t.address
      (bytesFrom m t.address t.length.toNat) :=
    ⟨lies_bytesFrom m _ _, by rw [length_bytesFrom, hend]⟩
  have hsize : (t.address + t.length.setWidth 32).toNat < t.address.toNat + 2 ^ 16 := by
    have hlength := t.length.isLt
    omega
  rw [hcontains, Table.Inside, ← hend]
  constructor
  · rintro ⟨fuel, hsome, honly⟩
    by_contra hnot
    exact findLoop_of_not_inside hnot (.inl hat) (Nat.le_refl _) hsize hsome honly
  · intro hinside
    exact ⟨_, findLoop_of_inside hinside (.inl hat) (Nat.le_refl _) (Nat.lt_succ_self _)⟩

/-! ## Well-formed tables -/

theorem inside_structures {front : List Structure} {last : Structure} {room : ℕ}
    (hlast : last.type = 127) (hroom : 0 < room) (found : U8) :
    Inside type instance' room found (bytesOf (front ++ [last])) := by
  induction front generalizing found with
  | nil =>
      rw [List.nil_append, bytesOf, List.flatMap_singleton, Structure.bytes, hlast]
      exact .endOfTable
  | cons s front ih =>
      have hskip : afterStrings ((s.bytes ++ bytesOf (front ++ [last])).drop
          (BitVec.ofNat 8 s.length).toNat) = some (bytesOf (front ++ [last]), 0) := by
        rw [toNat_length, drop_bytes]
        exact afterStrings_stringSet s.strings_ok _
      rw [List.cons_append, bytesOf, List.flatMap_cons]
      refine .next hskip ?_ (ih _)
      show overshoot _ ((s.body ++ stringSet s.strings ++ bytesOf (front ++ [last])).length + 2) 0 < room
      unfold overshoot
      rw [toNat_length, List.length_append, List.length_append]
      unfold Structure.length
      omega

/-- **A well-formed table** in memory is searched without other reads. -/
theorem bounded_of_inMemory {t : Listing} {table : Table} (h : InMemory m table t)
    (type instance' : U8) : Bounded m table type instance' := by
  rw [bounded_iff_inside]
  have hroom : 0 < 2 ^ 32 - (table.address.toNat + table.length.toNat) := by
    have hfits := h.fits
    rw [h.length_eq]
    omega
  refine .inr (.inr ?_)
  unfold Table.Inside
  rw [h.length_eq, bytesFrom_eq_of_lies h.lies]
  exact inside_structures t.last_eq (h.length_eq ▸ hroom) 0

/-! ## Reads and lengths -/

/-- **What the driver reads, and the length of the table.** The search ends and stays inside the table
exactly when there is no table, the table ends behind the last address (then nothing is read), or its
structures lead inside; and the length of an SMBIOS 3 entry point is taken over exactly when it fits in 16
bits. -/
theorem stays_and_length_iff (m : Mem) (t : Table) (type instance' : U8) (d : Driver) :
    (Bounded m t type instance' ↔
      t.address = 0 ∨ 2 ^ 32 ≤ t.address.toNat + t.length.toNat ∨ t.Inside m type instance') ∧
    (∀ e, smbiosFindEntryPoint m d.smbios3Entry = (0, e) → e ≠ 0 →
      ((smbiosInit m d).table.length.toNat = (structureTableMaxSize m e).toNat ↔
        (structureTableMaxSize m e).toNat < 2 ^ 16)) :=
  ⟨bounded_iff_inside m t type instance', fun _ h he => length_eq_iff h he⟩

/-- An SMBIOS 3 entry point for a table of up to 65536 bytes at `0x100000`. -/
def largeEntry : List U8 :=
  [0x5F, 0x53, 0x4D, 0x33, 0x5F, 0x42, 0x18, 3, 0, 0, 1, 0, 0, 0, 1, 0, 0, 0, 0x10, 0, 0, 0, 0, 0]

/-- The memory with this entry point at the start of the BIOS area. -/
def largeMemory : Mem := holding 0xF0000 largeEntry

/-- The driver before `smbios_init`. -/
def start : Driver where
  smbiosEntry := 0
  smbios3Entry := 0
  table := { address := 0, length := 0 }
  versionMajor := 0
  versionMinor := 0

theorem find_largeMemory : smbiosFindEntryPoint largeMemory start.smbios3Entry = (0, 0xF0000) := by
  have hebda : ebdaEntry largeMemory = none := by
    unfold ebdaEntry ebdaParagraphs
    rw [if_pos (by decide)]
    rfl
  have hblank : ∀ a ∈ paragraphs 0xF0010 0xFFF, largeMemory a ≠ 0x5F := by
    intro a ha
    obtain ⟨i, hi, rfl⟩ := mem_paragraphs.mp ha
    have haddress : (0xF0010 : U32) + BitVec.ofNat 32 (16 * i) =
        0xF0000 + BitVec.ofNat 32 (16 * (i + 1)) := by
      rw [Nat.mul_succ, Nat.add_comm (16 * i), BitVec.ofNat_add, ← BitVec.add_assoc]
      rfl
    rw [haddress, largeMemory, holding_add (by omega)]
    cases i with
    | zero => decide
    | succ i =>
        rw [List.getD_eq_default _ _ (show largeEntry.length ≤ _ by
          have hlength : largeEntry.length = 24 := rfl
          omega)]
        decide
  have hnot : ¬Anchored largeMemory 0xF0000 := by decide
  have hanchor3 : Anchored3 largeMemory 0xF0000 := by decide
  unfold smbiosFindEntryPoint
  rw [hebda]
  show biosLoop _ (paragraphs _ (0xFFF + 1)) _ = _
  rw [paragraphs_succ, biosLoop, if_neg hnot, if_pos hanchor3]
  exact biosLoop_blank hblank

theorem stays_and_length_iff_large :
    (smbiosInit largeMemory start).table.length.toNat ≠ (structureTableMaxSize largeMemory 0xF0000).toNat :=
  fun h => absurd (((stays_and_length_iff largeMemory start.table 0 0 start).2 0xF0000 find_largeMemory
    (by decide)).mp h) (by decide)

/-- A table of one byte, a header that is cut off: its length is read behind it. And a table of 65536 bytes
gets the length 0. -/
theorem not_stays_and_length_truncated :
    ¬Bounded (fun _ => 1) { address := 0xF0000, length := 1 } 0 0 ∧
      (smbiosInit largeMemory start).table.length = 0 ∧
      (structureTableMaxSize largeMemory 0xF0000).toNat = 65536 := by
  refine ⟨fun hbounded => ?_, ?_, by decide⟩
  · rcases (bounded_iff_inside _ _ _ _).mp hbounded with h | h | h
    · cases h
    · exact absurd h (by decide)
    · cases h
  · rw [smbiosInit_entry3 find_largeMemory (by decide)]
    decide

end BloodKernel.Smbios
