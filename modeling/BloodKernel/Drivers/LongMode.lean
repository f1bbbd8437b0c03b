import BloodKernel.Drivers.PagingPhysical
import BloodKernel.Lib.DoubleWords

set_option autoImplicit false

/-!
# Pages in long mode

`longmode_setup_paging`, `longmode_map_page` and `longmode_unmap_page` of `drivers/longmode.c`. The tables are pages
of `paging_alloc_pages`, and the driver uses their addresses as pointers, of 32 bits. It allocates a page table for
the entries that have `PTE_PAGESIZE` clear, and after the setup all have it set: so a mapped page is written to the
memory that an entry maps.

* `State`: the tables, the memory and the allocator; `State.walk`: the translation of an address;
* `longmodeSetupPaging`, `longmodeMapPage`, `longmodeUnmapPage`: the functions;
* `Ready`: the directory after the setup, which no call changes; `mapPage_eq`, `unmapPage_eq`: what a call does;
* **`right_along_iff`**: the calls of a run do what they should exactly when none maps a page, and no page that is
  translated is unmapped.
-/

namespace BloodKernel.LongMode

open Lib

abbrev U64 := BitVec 64

/-- `PTE_PRESENT` -/
def ptePresent : U64 := 0x001

/-- `PTE_WRITABLE` -/
def pteWritable : U64 := 0x002

/-- `PTE_USER` -/
def pteUser : U64 := 0x004

/-- `PTE_PAGESIZE` -/
def ptePageSize : U64 := 0x080

/-- `longmode_info_t` -/
structure Info where
  enabled : Bool
  pml4Table : U32
  pdptTable : U32
  pdTable : U32
  ptTable : U32

/-- `longmode_info`, and the memory with the state of the allocator. `written` records the addresses that this
driver writes; no function reads it. -/
structure State where
  paging : Paging.State
  info : Info
  written : List U32

/-- `table[i]` -/
def State.entry (s : State) (table : U32) (i : ℕ) : U64 := dword s.paging.mem table i

/-- `&table[i]` -/
def entryAddr (table : U32) (i : ℕ) : U32 := table + BitVec.ofNat 32 (8 * i)

/-- `table[i] = v` -/
def State.write (s : State) (table : U32) (i : ℕ) (v : U64) : State :=
  { s with
    paging := { s.paging with mem := setDword s.paging.mem table i v }
    written := s.written ++ [entryAddr table i] }

/-- `table[0] = f 0`, …, `table[n - 1] = f (n - 1)` -/
def State.fill (s : State) (table : U32) (f : ℕ → U64) (n : ℕ) : State :=
  { s with
    paging := { s.paging with mem := fillDwords s.paging.mem table f n }
    written := s.written ++ (List.range n).map (entryAddr table) }

/-- `(u64)p`: a pointer converted to a wider integer has its sign extended. -/
def ptrU64 (p : U32) : U64 := p.signExtend 64

/-- `(u64*)(entry & ~0xFFF)` -/
def tableAddr (e : U64) : U32 := (e &&& 0xFFFFFFFFFFFFF000).setWidth 32

def tableEntry (table : U32) : U64 := ptrU64 table ||| ptePresent ||| pteWritable ||| pteUser

/-! ### The setup -/

/-- The tables, cleared together. -/
def clearTables (s : State) : ℕ → State
  | 0 => s
  | n + 1 =>
      let s := clearTables s n
      (((s.write s.info.pml4Table n 0).write s.info.pdptTable n 0).write s.info.pdTable n 0).write s.info.ptTable n 0

/-- The entry that maps 2 MB to themselves. -/
def identityEntry (i : ℕ) : U64 := (BitVec.ofNat 32 (i * 0x200000) ||| 0x001 ||| 0x002 ||| 0x080).setWidth 64

/-- The four tables, allocated. -/
def allocTables (s : State) : State :=
  let pml4 := Paging.pagingAllocPages s.paging 1
  let pdpt := Paging.pagingAllocPages pml4.2 1
  let pd := Paging.pagingAllocPages pdpt.2 1
  let pt := Paging.pagingAllocPages pd.2 1
  { s with
    paging := pt.2
    info := { s.info with pml4Table := pml4.1, pdptTable := pdpt.1, pdTable := pd.1, ptTable := pt.1 } }

def fillTables (s : State) : State :=
  let s := clearTables s 512
  let s := s.write s.info.pml4Table 0 (tableEntry s.info.pdptTable)
  let s := s.write s.info.pdptTable 0 (tableEntry s.info.pdTable)
  s.fill s.info.pdTable identityEntry 512

def longmodeSetupPaging (s : State) : U8 × State :=
  let s := allocTables s
  if s.info.pml4Table = 0 ∨ s.info.pdptTable = 0 ∨ s.info.pdTable = 0 ∨ s.info.ptTable = 0 then (0, s)
  else (1, fillTables s)

/-! ### Mapping -/

def pml4Index (v : U64) : ℕ := ((v >>> 39) &&& 0x1FF).toNat

def pdptIndex (v : U64) : ℕ := ((v >>> 30) &&& 0x1FF).toNat

def pdIndex (v : U64) : ℕ := ((v >>> 21) &&& 0x1FF).toNat

def ptIndex (v : U64) : ℕ := ((v >>> 12) &&& 0x1FF).toNat

/-- The condition of both functions. -/
def Covered (v : U64) : Prop := pml4Index v = 0 ∧ pdptIndex v = 0 ∧ pdIndex v < 512

instance decidableCovered (v : U64) : Decidable (Covered v) := inferInstanceAs (Decidable (_ ∧ _))

/-- Allocate and clear a page table, if the entry has `PTE_PAGESIZE` clear: whether to go on. -/
def ensureTable (s : State) (i : ℕ) : Bool × State :=
  if s.entry s.info.pdTable i &&& ptePageSize = 0 then
    let r := Paging.pagingAllocPages s.paging 1
    let s := { s with paging := r.2 }
    if r.1 = 0 then (false, s)
    else
      let s := s.fill r.1 (fun _ => 0) 512
      (true, s.write s.info.pdTable i (tableEntry r.1))
  else (true, s)

def longmodeMapPage (s : State) (virtualAddr physicalAddr flags : U64) : U64 × State :=
  if s.info.enabled = false then (0, s)
  else if Covered virtualAddr then
    let r := ensureTable s (pdIndex virtualAddr)
    if r.1 then
      let pt := tableAddr (r.2.entry r.2.info.pdTable (pdIndex virtualAddr))
      (virtualAddr, r.2.write pt (ptIndex virtualAddr) (physicalAddr ||| flags))
    else (0, r.2)
  else (0, s)

def longmodeUnmapPage (s : State) (virtualAddr : U64) : State :=
  if s.info.enabled = false then s
  else if Covered virtualAddr then
    if s.entry s.info.pdTable (pdIndex virtualAddr) &&& ptePageSize = 0 then
      let pt := tableAddr (s.entry s.info.pdTable (pdIndex virtualAddr))
      if pt ≠ 0 then s.write pt (ptIndex virtualAddr) 0 else s
    else s
  else s

/-! ### Translation -/

def Present (e : U64) : Prop := e &&& ptePresent ≠ 0

instance decidablePresent (e : U64) : Decidable (Present e) := inferInstanceAs (Decidable (_ ≠ _))

/-- The entry that maps an address, and whether it maps 2 MB. The tables are where the driver reads them. -/
def State.leaf (s : State) (v : U64) : Option (Bool × U64) :=
  let pml4e := s.entry s.info.pml4Table (pml4Index v)
  if ¬ Present pml4e then none
  else
    let pdpte := s.entry (tableAddr pml4e) (pdptIndex v)
    if ¬ Present pdpte then none
    else
      let pde := s.entry (tableAddr pdpte) (pdIndex v)
      if ¬ Present pde then none
      else if pde &&& ptePageSize ≠ 0 then some (true, pde)
      else
        let pte := s.entry (tableAddr pde) (ptIndex v)
        if ¬ Present pte then none else some (false, pte)

/-- The address that such an entry gives. -/
def leafAddr (e : Bool × U64) (v : U64) : U64 :=
  if e.1 then (e.2 &&& 0x000FFFFFFFE00000) ||| (v &&& 0x1FFFFF)
  else (e.2 &&& 0x000FFFFFFFFFF000) ||| (v &&& 0xFFF)

/-- The four levels. -/
def State.walk (s : State) (v : U64) : Option U64 := (s.leaf v).map (leafAddr · v)

/-- The number of the page of an address: the upper 16 bits do not matter. -/
def pageNumber (v : U64) : ℕ := v.toNat / 4096 % 2 ^ 36

/-- An address in a table: one of the setup, or one of an entry that does not map 2 MB. -/
def State.InTable (s : State) (a : U32) : Prop :=
  ∃ table, (table = s.info.pml4Table ∨ table = s.info.pdptTable ∨ table = s.info.pdTable ∨ table = s.info.ptTable ∨
    ∃ i < 512, s.entry s.info.pdTable i &&& ptePageSize = 0 ∧ table = tableAddr (s.entry s.info.pdTable i)) ∧
    a.toNat / 4096 = table.toNat / 4096

/-- The page of `v` is mapped to the page `p`, no other page is affected, and only tables are written. -/
structure Maps (s s' : State) (v p : U64) : Prop where
  page : ∀ x, pageNumber x = pageNumber v → s'.walk x = some (p + (x &&& 0xFFF))
  others : ∀ x, pageNumber x ≠ pageNumber v → s'.walk x = s.walk x
  tables : ∃ addrs, s'.written = s.written ++ addrs ∧ ∀ a ∈ addrs, s'.InTable a

/-- The page of `v` is not mapped any more, and no other page is affected. -/
structure Unmaps (s s' : State) (v : U64) : Prop where
  page : ∀ x, pageNumber x = pageNumber v → s'.walk x = none
  others : ∀ x, pageNumber x ≠ pageNumber v → s'.walk x = s.walk x

/-! ### The calls -/

inductive Op
  | map (virtualAddr physicalAddr flags : U64)
  | unmap (virtualAddr : U64)

/-- A call with its result, if it returns one. -/
abbrev Event := Op × Option U64

def step (s : State) : Op → Option U64 × State
  | .map v p flags => (some (longmodeMapPage s v p flags).1, (longmodeMapPage s v p flags).2)
  | .unmap v => (none, longmodeUnmapPage s v)

def State.enable (s : State) : State := { s with info := { s.info with enabled := true } }

/-- After `longmode_setup_paging`, with long mode enabled. -/
def start (s : State) : State := (longmodeSetupPaging s).2.enable

/-- A call does what it should. -/
def State.Right (s : State) : Event → Prop
  | (.map v p flags, r) => r ≠ some 0 → Present flags → p &&& 0xFFF = 0 → Maps s (step s (.map v p flags)).2 v p
  | (.unmap v, _) => Unmaps s (step s (.unmap v)).2 v

/-- A call that is refused, or is not meant to map a page; or the page to unmap is not mapped. -/
def State.Idle (s : State) : Event → Prop
  | (.map v p flags, _) => v = 0 ∨ ¬ Covered v ∨ ¬ Present flags ∨ p &&& 0xFFF ≠ 0
  | (.unmap v, _) => s.walk v = none

variable {s s' t : State} {v p x flags e : U64} {q a table : U32} {i j n : ℕ}

/-! ### Entries -/

theorem toNat_index (v : U64) (k : ℕ) : ((v >>> k) &&& 0x1FF).toNat = v.toNat / 2 ^ k % 2 ^ 9 := by
  have hmask : (0x1FF : U64).toNat = 2 ^ 9 - 1 := rfl
  rw [BitVec.toNat_and, hmask, Nat.and_two_pow_sub_one_eq_mod, BitVec.toNat_ushiftRight, Nat.shiftRight_eq_div_pow]

theorem index_lt (v : U64) (k : ℕ) : ((v >>> k) &&& 0x1FF).toNat < 512 := by
  rw [toNat_index]
  exact Nat.mod_lt _ (by decide)

theorem getLsbD_flags (f : U64) (hf : f.toNat < 2 ^ 12) (hj : 12 ≤ j) : f.getLsbD j = false :=
  Nat.testBit_lt_two_pow (hf.trans_le (Nat.pow_le_pow_right (by decide) hj))

theorem getLsbD_tableAddr (e : U64) (hj : j < 32) :
    (tableAddr e).getLsbD j = (e.getLsbD j && decide (12 ≤ j)) := by
  have hmask : (0xFFFFFFFFFFFFF000 : U64) = BitVec.allOnes 64 <<< 12 := rfl
  have hj' : j < 64 := by omega
  rw [tableAddr, BitVec.getLsbD_setWidth, decide_eq_true hj, Bool.true_and, hmask, BitVec.getLsbD_and,
    BitVec.getLsbD_shiftLeft, BitVec.getLsbD_allOnes]
  by_cases hlow : j < 12
  · simp [hlow, Nat.not_le.mpr hlow]
  · simp [hlow, hj', Nat.not_lt.mp hlow, (Nat.sub_le j 12).trans_lt hj']

theorem tableAddr_eq (hq : PageStart q) (h : ∀ j, 12 ≤ j → j < 32 → e.getLsbD j = q.getLsbD j) : tableAddr e = q := by
  apply BitVec.eq_of_getLsbD_eq
  intro j hj
  have hframe : q.getLsbD j = (Paging.frameOf q).getLsbD j := by rw [Paging.frameOf_of_pageStart hq]
  rw [getLsbD_tableAddr e hj, hframe, Paging.getLsbD_frameOf q hj]
  by_cases hlow : 12 ≤ j
  · rw [h j hlow hj]
  · rw [decide_eq_false hlow, Bool.and_false, Bool.and_false]

/-- What the directory maps at an entry. -/
def dataAddr (i : ℕ) : U32 := BitVec.ofNat 32 (i * 0x200000)

theorem toNat_dataAddr (hi : i < 512) : (dataAddr i).toNat = i * 0x200000 := by
  rw [dataAddr, BitVec.toNat_ofNat]
  omega

theorem pageStart_dataAddr (hi : i < 512) : PageStart (dataAddr i) := by
  unfold PageStart
  rw [toNat_dataAddr hi]
  omega

theorem tableAddr_identityEntry (hi : i < 512) : tableAddr (identityEntry i) = dataAddr i := by
  refine tableAddr_eq (pageStart_dataAddr hi) fun j hlow hj => ?_
  have hflags : ∀ f : U32, f.toNat < 2 ^ 12 → f.getLsbD j = false := fun f hf =>
    Nat.testBit_lt_two_pow (hf.trans_le (Nat.pow_le_pow_right (by decide) hlow))
  have hj' : j < 64 := by omega
  rw [identityEntry, BitVec.getLsbD_setWidth, decide_eq_true hj', Bool.true_and, BitVec.getLsbD_or, BitVec.getLsbD_or,
    BitVec.getLsbD_or, hflags 0x001 (by decide), hflags 0x002 (by decide), hflags 0x080 (by decide)]
  simp only [Bool.or_false]
  rfl

theorem pageSize_identityEntry (i : ℕ) : identityEntry i &&& ptePageSize ≠ 0 := by
  intro h
  have hbit := congrArg (·.getLsbD 7) h
  simp [identityEntry, ptePageSize] at hbit

@[simp] theorem info_write (s : State) (table : U32) (i : ℕ) (e : U64) : (s.write table i e).info = s.info := rfl

@[simp] theorem info_fill (s : State) (table : U32) (f : ℕ → U64) (n : ℕ) : (s.fill table f n).info = s.info := rfl

@[simp] theorem entry_enable (s : State) (table : U32) (i : ℕ) : s.enable.entry table i = s.entry table i := rfl

theorem entry_write (hp : PageStart table) (hq : PageStart q) (hi : i < 512) (hj : j < 512) :
    (s.write table i v).entry q j = if q = table ∧ j = i then v else s.entry q j :=
  dword_setDword hp hq hi hj

theorem entry_fill {f : ℕ → U64} (hp : PageStart table) (hq : PageStart q) (hn : n ≤ 512) (hj : j < 512) :
    (s.fill table f n).entry q j = if q = table ∧ j < n then f j else s.entry q j :=
  dword_fillDwords hp hq hn hj

/-! ### After the setup -/

/-- The tables are pages of the heap, and the directory maps the first gigabyte in pages of 2 MB. -/
structure Ready (s : State) : Prop where
  enabled : s.info.enabled = true
  pml4Table : Paging.InHeap s.info.pml4Table
  pdptTable : Paging.InHeap s.info.pdptTable
  pdTable : Paging.InHeap s.info.pdTable
  ptTable : Paging.InHeap s.info.ptTable
  entry : ∀ i < 512, s.entry s.info.pdTable i = identityEntry i

theorem mapPages_result (t : Paging.State) (v : U32) (j n : ℕ) :
    (Paging.mapPages t v j n).1 = 0 ∨ (Paging.mapPages t v j n).1 = v := by
  induction n generalizing t j with
  | zero => exact .inr rfl
  | succ n ih =>
      rw [Paging.mapPages]
      split_ifs
      · exact .inl rfl
      · exact ih _ _

/-- What the allocator returns is a page of the heap, in whatever state it is. -/
theorem inHeap_alloc {t : Paging.State} {count : U32} (h : (Paging.pagingAllocPages t count).1 ≠ 0) :
    Paging.InHeap (Paging.pagingAllocPages t count).1 := by
  rcases Paging.alloc_cases t count with ⟨i, hi, he⟩ | ⟨-, he⟩
  · rw [he] at h ⊢
    rcases mapPages_result t (Paging.pageAddr Paging.heapStart i) 0 count.toNat with hzero | hv
    · exact absurd hzero h
    · rw [hv]
      exact Paging.inHeap_pageAddr hi.1
  · rw [he] at h
    exact absurd rfl h

theorem info_clearTables (s : State) (n : ℕ) : (clearTables s n).info = s.info := by
  induction n with
  | zero => rfl
  | succ n ih => exact ih

-- the unifier must not run the loop
attribute [irreducible] clearTables

theorem allocTables_eq (s : State) : ∃ a b c d, Paging.pagingAllocPages s.paging 1 = a ∧
    Paging.pagingAllocPages a.2 1 = b ∧ Paging.pagingAllocPages b.2 1 = c ∧ Paging.pagingAllocPages c.2 1 = d ∧
    (allocTables s).info = ⟨s.info.enabled, a.1, b.1, c.1, d.1⟩ :=
  ⟨_, _, _, _, rfl, rfl, rfl, rfl, by rw [allocTables]⟩

theorem setup_eq (h : (longmodeSetupPaging s).1 = 1) :
    Paging.InHeap (allocTables s).info.pml4Table ∧ Paging.InHeap (allocTables s).info.pdptTable ∧
      Paging.InHeap (allocTables s).info.pdTable ∧ Paging.InHeap (allocTables s).info.ptTable ∧
        (longmodeSetupPaging s).2 = fillTables (allocTables s) := by
  have hone : ¬(0 : U8) = 1 := by decide
  obtain ⟨a, b, c, d, ha, hb, hc, hd, hinfo⟩ := allocTables_eq s
  rw [longmodeSetupPaging] at h ⊢
  generalize allocTables s = t at *
  split_ifs at h ⊢ with hfail
  · exact absurd h hone
  · rw [not_or, not_or, not_or, hinfo] at hfail
    rw [hinfo]
    dsimp only at hfail ⊢
    obtain ⟨hpml4, hpdpt, hpd, hpt⟩ := hfail
    subst ha hb hc hd
    exact ⟨inHeap_alloc hpml4, inHeap_alloc hpdpt, inHeap_alloc hpd, inHeap_alloc hpt, rfl⟩

theorem info_fillTables (s : State) : (fillTables s).info = s.info := by
  unfold fillTables
  simp only [info_fill, info_write, info_clearTables]

theorem ready_fillTables (hpml4 : Paging.InHeap s.info.pml4Table) (hpdpt : Paging.InHeap s.info.pdptTable)
    (hpd : Paging.InHeap s.info.pdTable) (hpt : Paging.InHeap s.info.ptTable) : Ready (fillTables s).enable := by
  have hinfo : (fillTables s).enable.info = { s.info with enabled := true } := by
    rw [State.enable, info_fillTables]
  refine ⟨?_, ?_, ?_, ?_, ?_, fun i hi => ?_⟩
  · rw [hinfo]
  · rw [hinfo]
    exact hpml4
  · rw [hinfo]
    exact hpdpt
  · rw [hinfo]
    exact hpd
  · rw [hinfo]
    exact hpt
  · rw [hinfo, entry_enable]
    unfold fillTables
    simp only [info_write, info_clearTables]
    rw [entry_fill hpd.page hpd.page le_rfl hi, if_pos ⟨rfl, hi⟩]

/-- **After `longmode_setup_paging`**, in whatever state the allocator was. -/
theorem ready_start (h : (longmodeSetupPaging s).1 = 1) : Ready (start s) := by
  obtain ⟨hpml4, hpdpt, hpd, hpt, he⟩ := setup_eq h
  rw [start, he]
  exact ready_fillTables hpml4 hpdpt hpd hpt

theorem entry_write_data (htable : Paging.InHeap table) (hi : i < 512) (hk : n < 512) (hj : j < 512) (e : U64) :
    (s.write (dataAddr i) n e).entry table j = s.entry table j := by
  have hne : table ≠ dataAddr i := by
    rintro rfl
    have hge := htable.ge
    rw [toNat_dataAddr hi] at hge
    omega
  rw [entry_write (pageStart_dataAddr hi) htable.page hk hj, if_neg fun he => hne he.1]

theorem Ready.write (h : Ready s) (hi : i < 512) (hk : n < 512) (e : U64) : Ready (s.write (dataAddr i) n e) := by
  refine ⟨h.enabled, h.pml4Table, h.pdptTable, h.pdTable, h.ptTable, fun j hj => ?_⟩
  show (s.write (dataAddr i) n e).entry s.info.pdTable j = _
  rw [entry_write_data h.pdTable hi hk hj]
  exact h.entry j hj

/-! ### The calls after the setup -/

/-- **Mapping** writes to the memory that the directory maps. -/
theorem mapPage_eq (h : Ready s) (hv : Covered v) (p flags : U64) : longmodeMapPage s v p flags =
    (v, s.write (dataAddr (pdIndex v)) (ptIndex v) (p ||| flags)) := by
  have hi : pdIndex v < 512 := index_lt v 21
  have hentry := h.entry (pdIndex v) hi
  have hensure : ensureTable s (pdIndex v) = (true, s) := by
    rw [ensureTable, hentry, if_neg (pageSize_identityEntry _)]
  have henabled : ¬ s.info.enabled = false := by
    rw [h.enabled]
    decide
  rw [longmodeMapPage, if_neg henabled, if_pos hv, hensure]
  simp only [if_true]
  rw [hentry, tableAddr_identityEntry hi]

theorem mapPage_of_not_covered (hv : ¬ Covered v) (p flags : U64) : longmodeMapPage s v p flags = (0, s) := by
  rw [longmodeMapPage]
  split_ifs
  · rfl
  · rfl

/-- **Unmapping** does nothing. -/
theorem unmapPage_eq (h : Ready s) (v : U64) : longmodeUnmapPage s v = s := by
  have hi : pdIndex v < 512 := index_lt v 21
  rw [longmodeUnmapPage, h.entry _ hi, if_neg (pageSize_identityEntry _)]
  split_ifs
  · rfl
  · rfl
  · rfl

/-- **One call** leaves the tables as they are. -/
theorem Ready.step (h : Ready s) (o : Op) : Ready (step s o).2 := by
  cases o with
  | map v p flags =>
      show Ready (longmodeMapPage s v p flags).2
      by_cases hv : Covered v
      · rw [mapPage_eq h hv]
        exact h.write (index_lt v 21) (index_lt v 12) _
      · rw [mapPage_of_not_covered hv]
        exact h
  | unmap v =>
      show Ready (longmodeUnmapPage s v)
      rw [unmapPage_eq h]
      exact h

/-- The memory that the directory maps is not in a table. -/
theorem Ready.not_inTable (h : Ready s) (hi : i < 512) (hj : j < 512) : ¬ s.InTable (entryAddr (dataAddr i) j) := by
  have haddr : (entryAddr (dataAddr i) j).toNat = i * 0x200000 + 8 * j := by
    rw [entryAddr, BitVec.toNat_add, BitVec.toNat_ofNat, toNat_dataAddr hi]
    omega
  have hheap : ∀ {table : U32}, Paging.InHeap table →
      (entryAddr (dataAddr i) j).toNat / 4096 ≠ table.toNat / 4096 := by
    intro table htable
    have hge := htable.ge
    omega
  rintro ⟨table, rfl | rfl | rfl | rfl | ⟨k, hk, hsize, -⟩, hpage⟩
  · exact hheap h.pml4Table hpage
  · exact hheap h.pdptTable hpage
  · exact hheap h.pdTable hpage
  · exact hheap h.ptTable hpage
  · rw [h.entry k hk] at hsize
    exact pageSize_identityEntry k hsize

/-- Addresses of one page have the same entries. -/
theorem leaf_congr (h : pageNumber x = pageNumber v) : s.leaf x = s.leaf v := by
  have hnum : x.toNat / 4096 % 2 ^ 36 = v.toNat / 4096 % 2 ^ 36 := h
  have hindex : ∀ y : U64, ∀ k : ℕ, 12 ≤ k → k ≤ 39 →
      ((y >>> k) &&& 0x1FF).toNat = y.toNat / 4096 % 2 ^ 36 / 2 ^ (k - 12) % 2 ^ 9 := by
    intro y k hk hk'
    have hpow : 2 ^ 36 = 2 ^ (k - 12) * 2 ^ (48 - k) := by
      rw [← pow_add]
      congr 1
      omega
    have hdvd : 2 ^ 9 ∣ 2 ^ (48 - k) := pow_dvd_pow 2 (by omega)
    have hk12 : 2 ^ k = 4096 * 2 ^ (k - 12) := by
      have h12 : 4096 = 2 ^ 12 := rfl
      rw [h12, ← pow_add]
      congr 1
      omega
    rw [toNat_index, hpow, Nat.mod_mul_right_div_self, Nat.mod_mod_of_dvd _ hdvd, Nat.div_div_eq_div_mul, ← hk12]
  unfold State.leaf pml4Index pdptIndex pdIndex ptIndex
  rw [hindex x 39 (by decide) le_rfl, hindex x 30 (by decide) (by decide), hindex x 21 (by decide) (by decide),
    hindex x 12 le_rfl (by decide), hnum, hindex v 39 (by decide) le_rfl, hindex v 30 (by decide) (by decide),
    hindex v 21 (by decide) (by decide), hindex v 12 le_rfl (by decide)]

theorem walk_eq_none : s.walk v = none ↔ s.leaf v = none := Option.map_eq_none_iff

/-- **A call does what it should** exactly when it is idle. -/
theorem right_iff (h : Ready s) (o : Op) : s.Right (o, (step s o).1) ↔ s.Idle (o, (step s o).1) := by
  cases o with
  | map v p flags =>
      show (some (longmodeMapPage s v p flags).1 ≠ some 0 → Present flags → p &&& 0xFFF = 0 →
        Maps s (longmodeMapPage s v p flags).2 v p) ↔ v = 0 ∨ ¬ Covered v ∨ ¬ Present flags ∨ p &&& 0xFFF ≠ 0
      by_cases hv : Covered v
      · rw [mapPage_eq h hv]
        constructor
        · intro hright
          by_contra hidle
          rw [not_or, not_or, not_or, not_not, not_not, not_not] at hidle
          obtain ⟨hzero, -, hflags, hpage⟩ := hidle
          obtain ⟨addrs, happ, hall⟩ := (hright (fun he => hzero (Option.some.inj he)) hflags hpage).tables
          obtain rfl : [entryAddr (dataAddr (pdIndex v)) (ptIndex v)] = addrs := List.append_cancel_left happ
          have hi : pdIndex v < 512 := index_lt v 21
          have hresult : (step s (.map v p flags)).2 = s.write (dataAddr (pdIndex v)) (ptIndex v) (p ||| flags) := by
            rw [step, mapPage_eq h hv]
          have hready := h.step (.map v p flags)
          rw [hresult] at hready
          exact hready.not_inTable hi (index_lt v 12) (hall _ (List.mem_singleton.mpr rfl))
        · rintro (hzero | hcovered | hflags | hpage) hne hpresent haligned
          · exact absurd (congrArg some hzero) hne
          · exact absurd hv hcovered
          · exact absurd hpresent hflags
          · exact absurd haligned hpage
      · rw [mapPage_of_not_covered hv]
        exact iff_of_true (fun hne => absurd rfl hne) (.inr (.inl hv))
  | unmap v =>
      show Unmaps s (longmodeUnmapPage s v) v ↔ s.walk v = none
      rw [unmapPage_eq h]
      refine ⟨fun hunmaps => hunmaps.page v rfl, fun hnone => ⟨fun x hx => ?_, fun _ _ => rfl⟩⟩
      rw [walk_eq_none, leaf_congr hx]
      exact walk_eq_none.mp hnone

/-- **Exactness.** In whatever state the allocator was: after a setup that succeeds, all calls of a run do what they
should exactly when none maps a page, and no page that is translated is unmapped. -/
theorem right_along_iff (h : (longmodeSetupPaging s).1 = 1) {es : List Event}
    (hrun : Run (total step) (start s) es t) :
    Along (total step) State.Right (start s) es ↔ Along (total step) State.Idle (start s) es := by
  refine hrun.along_iff (I := Ready) (fun s o r s' hs hstep => ?_) (fun s o r s' hs hstep => ?_) (ready_start h)
  · have hready := hs.step o
    rwa [total_eq_some.mp hstep] at hready
  · have hiff := right_iff hs o
    rwa [total_eq_some.mp hstep] at hiff

theorem setup_of_room {m c : ℕ} (h : Paging.Room s.paging m c) (hm : m + 4 ≤ 0x10000) (hc : 8 ≤ c) :
    (longmodeSetupPaging s).1 = 1 := by
  have hval : (1 : U32).toNat = 1 := rfl
  have hone : 0 < (1 : U32).toNat := by decide
  obtain ⟨pml4, s₁, he₁, hpml4, h⟩ := h.alloc hone (by omega) (by omega)
  obtain ⟨pdpt, s₂, he₂, hpdpt, h⟩ := h.alloc hone (by omega) (by omega)
  obtain ⟨pd, s₃, he₃, hpd, h⟩ := h.alloc hone (by omega) (by omega)
  obtain ⟨pt, s₄, he₄, hpt, -⟩ := h.alloc hone (by omega) (by omega)
  have hfail : ¬(pml4 = 0 ∨ pdpt = 0 ∨ pd = 0 ∨ pt = 0) := by
    rw [not_or, not_or, not_or]
    exact ⟨hpml4, hpdpt, hpd, hpt⟩
  simp only [longmodeSetupPaging, allocTables, he₁, he₂, he₃, he₄, if_neg hfail]

/-- The allocator after `paging_init` with 8 MB, and a driver that has not been started. -/
def fresh : State := ⟨Paging.start (fun _ => 0) 0x800000, ⟨false, 0, 0, 0, 0⟩, []⟩

theorem setup_fresh : (longmodeSetupPaging fresh).1 = 1 := by
  have hwords : (Paging.bitmapWords 0x800000).toNat = 64 := by decide
  have hpaging : fresh.paging = Paging.start (fun _ => 0) 0x800000 := by rw [fresh]
  have hroom := @Paging.room_start (fun _ => 0) 0x800000 (by omega)
  rw [← hpaging] at hroom
  exact setup_of_room hroom (by decide) (by omega)

/-- A page above the first gigabyte is refused, and one is not to be present. -/
theorem right_along_refused : ∃ t, Run (total step) (start fresh)
      [(.map 0x40000000 0x5000 0x003, some 0), (.map 0x2000 0x7000 0x002, some 0x2000)] t ∧
    Along (total step) State.Right (start fresh)
      [(.map 0x40000000 0x5000 0x003, some 0), (.map 0x2000 0x7000 0x002, some 0x2000)] := by
  have hcovered : ¬ Covered 0x40000000 := by decide
  have hfirst : total step (start fresh) (.map 0x40000000 0x5000 0x003) = some (some 0, start fresh) := by
    rw [total, step, mapPage_of_not_covered hcovered]
  have hsecond : total step (start fresh) (.map 0x2000 0x7000 0x002) =
      some (some 0x2000, (longmodeMapPage (start fresh) 0x2000 0x7000 0x002).2) := by
    rw [total, step, mapPage_eq (ready_start setup_fresh) (show Covered 0x2000 by decide)]
  have hrun := Run.cons hfirst (.cons hsecond (.nil _))
  have habsent : ¬ Present 0x002 := by decide
  exact ⟨_, hrun, (right_along_iff setup_fresh hrun).mpr ((along_cons hfirst).mpr ⟨.inr (.inl hcovered),
    (along_cons hsecond).mpr ⟨.inr (.inr (.inl habsent)), along_nil _ _⟩⟩)⟩

/-- Every other page is written to the memory of the first gigabyte. -/
theorem not_right_along : (longmodeSetupPaging fresh).1 = 1 ∧
    ∃ t, Run (total step) (start fresh) [(.map 0x1000 0x5000 0x003, some 0x1000)] t ∧
      ¬ Along (total step) State.Right (start fresh) [(.map 0x1000 0x5000 0x003, some 0x1000)] := by
  have hready := ready_start setup_fresh
  have he := mapPage_eq hready (show Covered 0x1000 by decide) 0x5000 0x003
  have hstep : total step (start fresh) (.map 0x1000 0x5000 0x003) =
      some (some 0x1000, (longmodeMapPage (start fresh) 0x1000 0x5000 0x003).2) := by
    rw [total, step, he]
  have hidle : ¬((0x1000 : U64) = 0 ∨ ¬ Covered 0x1000 ∨ ¬ Present 0x003 ∨ (0x5000 : U64) &&& 0xFFF ≠ 0) := by
    decide
  refine ⟨setup_fresh, _, .cons hstep (.nil _), fun halong => hidle ?_⟩
  have hright := ((along_cons hstep).mp halong).1
  have hiff := right_iff hready (.map 0x1000 0x5000 0x003)
  rw [step, he] at hiff
  exact hiff.mp hright

end BloodKernel.LongMode
