import BloodKernel.Drivers.DmaBases

set_option autoImplicit false

/-!
# The VT-d driver

`iommu_init` and `iommu_create_domain` of `drivers/iommu.c`. What lies at `root_table` is part of the unit,
as are its registers at offsets from `base_address`; the waits for them are left out, and so are the
entries of the second-level tables, which are cleared and not read.

* `IommuUnit`, `Driver`: the static data, and the root and context tables;
* `iommuInit`, `iommuCreateDomain`: the calls;
* **`init_virtual`**, **`domain_virtual`**: the unit gets the addresses of the tables as they are.
-/

namespace BloodKernel.Iommu

open Paging

/-- `vtd_root_entry_t`. -/
structure RootEntry where
  present : Bool
  contextTablePtr : BitVec 52
  reserved2 : BitVec 64

/-- `vtd_context_entry_t`. -/
structure ContextEntry where
  present : Bool
  faultProcessingDisable : Bool
  translationType : BitVec 2
  secondLevelPageTablePtr : BitVec 52
  addressWidth : BitVec 3
  domainId : U16

/-- `iommu_unit_t`, with the root table and the values last written to the registers. -/
structure IommuUnit where
  startBus : U8
  endBus : U8
  rootTable : U32
  enabled : Bool
  root : ℕ → RootEntry
  regs : U32 → BitVec 64

/-- `iommu_units`, `iommu_unit_count` and `iommu_enabled`, and the context tables at their addresses. -/
structure Driver where
  units : ℕ → IommuUnit
  unitCount : ℕ
  enabled : Bool
  contexts : U32 → ℕ → ContextEntry

/-- `VTD_RTADDR_REG` -/
def rtaddr : U32 := 0x20

/-- `(u64)p`: a pointer converted to a wider integer has its sign extended. -/
def castU64 (p : U32) : BitVec 64 := p.signExtend 64

/-- `(u64)p >> 12`, in a field of 52 bits. -/
def ptrField (p : U32) : BitVec 52 := (castU64 p >>> 12).setWidth 52

/-- The address in such a field. -/
def fieldAddr (f : BitVec 52) : BitVec 64 := f.setWidth 64 <<< 12

/-- The pointer made from such a field. -/
def fieldPtr (f : BitVec 52) : U32 := (fieldAddr f).setWidth 32

/-! ### Initialization -/

def IommuUnit.write (u : IommuUnit) (reg : U32) (v : BitVec 64) : IommuUnit :=
  { u with regs := Function.update u.regs reg v }

def iommuInvalidateContextCache (u : IommuUnit) : IommuUnit := u.write 0x28 (0x80000000 ||| 0x20000000)

/-- The root table, cleared. -/
def IommuUnit.setRoot (u : IommuUnit) (table : U32) : IommuUnit :=
  { u with
    rootTable := table
    root := fun i => if i < 256 then { u.root i with present := false, contextTablePtr := 0, reserved2 := 0 }
      else u.root i }

/-- `gcmd` is what the global command register reads. -/
def iommuSetupRootTable (s : Paging.State) (u : IommuUnit) (gcmd : U32) : IommuUnit × Paging.State :=
  let a := pagingAllocPages s 1
  if a.1 = 0 then ({ u with rootTable := 0 }, a.2)
  else
    let u := (u.setRoot a.1).write rtaddr (castU64 a.1)
    (u.write 0x18 ((gcmd ||| 0x40000000).setWidth 64), a.2)

def iommuEnableTranslation (u : IommuUnit) (gcmd : U32) : IommuUnit :=
  { u.write 0x18 ((gcmd ||| 0x80000000).setWidth 64) with enabled := true }

/-- One round of the loop of `iommu_init`. -/
def initUnit (s : Paging.State) (u : IommuUnit) (gcmd : U32 × U32) : IommuUnit × Paging.State :=
  let r := iommuSetupRootTable s u gcmd.1
  (iommuEnableTranslation (iommuInvalidateContextCache r.1) gcmd.2, r.2)

/-- The first `n` rounds. -/
def initUnits (s : Paging.State) (units : ℕ → IommuUnit) (gcmd : ℕ → U32 × U32) :
    ℕ → (ℕ → IommuUnit) × Paging.State
  | 0 => (units, s)
  | n + 1 =>
      let r := initUnits s units gcmd n
      let q := initUnit r.2 (r.1 n) (gcmd n)
      (Function.update r.1 n q.1, q.2)

def iommuInit (s : Paging.State) (d : Driver) (gcmd : ℕ → U32 × U32) : Driver × Paging.State :=
  let r := initUnits s d.units gcmd d.unitCount
  ({ d with units := r.1, enabled := 0 < d.unitCount }, r.2)

/-! ### Domains -/

def Driver.findUnit (d : Driver) (bus : U8) : Option ℕ :=
  (List.range d.unitCount).find? fun i => (d.units i).startBus ≤ bus ∧ bus ≤ (d.units i).endBus

def Driver.rootEntry (d : Driver) (i : ℕ) (bus : U8) : RootEntry := (d.units i).root bus.toNat

/-- A context table, with no entry present, in the root entry of a bus. -/
def Driver.setContext (d : Driver) (i : ℕ) (bus : U8) (table : U32) : Driver :=
  let clear := fun k => if k < 256 then { d.contexts table k with present := false } else d.contexts table k
  let e := { d.rootEntry i bus with contextTablePtr := ptrField table, present := true }
  let u := { d.units i with root := Function.update (d.units i).root bus.toNat e }
  { d with units := Function.update d.units i u, contexts := Function.update d.contexts table clear }

/-- Allocate a missing context table: whether there is one now. -/
def ensureContext (s : Paging.State) (d : Driver) (i : ℕ) (bus : U8) : Bool × Driver × Paging.State :=
  if (d.rootEntry i bus).present = true then (true, d, s)
  else
    let a := pagingAllocPages s 1
    if a.1 = 0 then (false, d, a.2) else (true, d.setContext i bus a.1, a.2)

/-- `(device << 3) | function`. -/
def devfn (device function : U8) : U8 := (device <<< 3) ||| function

def Driver.contextTable (d : Driver) (i : ℕ) (bus : U8) : U32 := fieldPtr (d.rootEntry i bus).contextTablePtr

/-- The entry of a device, with a second-level table. -/
def Driver.setEntry (d : Driver) (i : ℕ) (bus : U8) (df : U8) (domainId : U16) (table : U32) : Driver :=
  let p := d.contextTable i bus
  let e : ContextEntry := ⟨true, false, 0, ptrField table, 2, domainId⟩
  { d with
    contexts := Function.update d.contexts p (Function.update (d.contexts p) df.toNat e)
    units := Function.update d.units i (iommuInvalidateContextCache (d.units i)) }

def iommuCreateDomain (s : Paging.State) (d : Driver) (domainId : U16) (bus device function : U8) :
    Bool × Driver × Paging.State :=
  if d.enabled = false then (false, d, s)
  else match d.findUnit bus with
    | none => (false, d, s)
    | some i =>
        if (d.units i).rootTable = 0 then (false, d, s)
        else
          let r := ensureContext s d i bus
          if r.1 = false then r
          else
            let b := pagingAllocPages r.2.2 1
            if b.1 = 0 then (false, r.2.1, b.2)
            else (true, r.2.1.setEntry i bus (devfn device function) domainId b.1, b.2)

/-! ### What the units get -/

/-- The root table of a unit. -/
def IommuUnit.base (u : IommuUnit) : Base := ⟨u.rootTable, u.regs rtaddr⟩

def Driver.bases (d : Driver) : List Base := (List.range d.unitCount).map fun i => (d.units i).base

def Driver.contextEntry (d : Driver) (i : ℕ) (bus df : U8) : ContextEntry :=
  d.contexts (d.contextTable i bus) df.toNat

/-- The context table, if it is new, and the second-level table. -/
def Driver.tables (d : Driver) (i : ℕ) (bus df : U8) (new : Bool) : List Base :=
  let c := (d.rootEntry i bus).contextTablePtr
  let p := (d.contextEntry i bus df).secondLevelPageTablePtr
  (if new then [⟨fieldPtr c, fieldAddr c⟩] else []) ++ [⟨fieldPtr p, fieldAddr p⟩]

variable {s s' : Paging.State} {d d' : Driver} {u : IommuUnit} {units : ℕ → IommuUnit}
  {gcmd : ℕ → U32 × U32} {p : U32} {i n : ℕ} {bus device function : U8} {domainId : U16}

theorem getLsbD_castU64 (p : U32) {j : ℕ} (hj : j < 32) : (castU64 p).getLsbD j = p.getLsbD j := by
  rw [castU64, BitVec.getLsbD_signExtend, if_pos hj, decide_eq_true (by omega), Bool.true_and]

theorem getLsbD_fieldAddr (p : U32) {j : ℕ} (hj : j < 32) :
    (fieldAddr (ptrField p)).getLsbD j = (p.getLsbD j && decide (12 ≤ j)) := by
  rw [fieldAddr, BitVec.getLsbD_shiftLeft]
  by_cases hlow : j < 12
  · simp [hlow, Nat.not_le.mpr hlow]
  · have hadd : 12 + (j - 12) = j := by omega
    rw [BitVec.getLsbD_setWidth, ptrField, BitVec.getLsbD_setWidth, BitVec.getLsbD_ushiftRight, hadd,
      getLsbD_castU64 p hj]
    have h₁ : j < 64 := by omega
    have h₂ : j - 12 < 64 := by omega
    have h₃ : j - 12 < 52 := by omega
    simp [hlow, h₁, h₂, h₃, Nat.not_lt.mp hlow]

theorem fieldPtr_ptrField (h : Lib.PageStart p) : fieldPtr (ptrField p) = p := by
  apply BitVec.eq_of_getLsbD_eq
  intro j hj
  rw [fieldPtr, BitVec.getLsbD_setWidth, getLsbD_fieldAddr p hj, ← getLsbD_frameOf p hj,
    frameOf_of_pageStart h, decide_eq_true hj, Bool.true_and]

/-- The address of a page of the heap, as a 64-bit number, and in a field. -/
theorem virtual_cast (hp : Remote s p) : (⟨p, castU64 p⟩ : Base).Virtual s := by
  refine ⟨hp, ?_⟩
  rw [getLsbD_castU64 p (by decide)]
  exact getLsbD_remote hp

theorem virtual_field (hp : Remote s p) (hstart : Lib.PageStart p) :
    (⟨fieldPtr (ptrField p), fieldAddr (ptrField p)⟩ : Base).Virtual s := by
  rw [fieldPtr_ptrField hstart]
  refine ⟨hp, ?_⟩
  rw [getLsbD_fieldAddr p (by decide), getLsbD_remote hp]
  rfl

/-! ### Root tables -/

theorem write_regs (u : IommuUnit) (reg r : U32) (v : BitVec 64) :
    (u.write reg v).regs r = if r = reg then v else u.regs r := by
  show Function.update u.regs reg v r = _
  rw [Function.update_apply]

theorem regs_rtaddr (u : IommuUnit) (v : BitVec 64) (g₁ g₂ : U32) :
    (iommuEnableTranslation (iommuInvalidateContextCache
      ((u.write rtaddr v).write 0x18 (g₁.setWidth 64))) g₂).regs rtaddr = v := by
  unfold iommuEnableTranslation iommuInvalidateContextCache
  rw [write_regs, if_neg (by decide), write_regs, if_neg (by decide), write_regs, if_neg (by decide),
    write_regs, if_pos rfl]

theorem initUnit_cases {g : U32 × U32} {w : IommuUnit} (hr : initUnit s u g = (w, s'))
    (hok : w.rootTable ≠ 0) : ∃ v, pagingAllocPages s 1 = (v, s') ∧ v ≠ 0 ∧ w.rootTable = v ∧
      w.regs rtaddr = castU64 v := by
  rw [initUnit, iommuSetupRootTable] at hr
  generalize ha : pagingAllocPages s 1 = a at hr
  obtain ⟨v, t⟩ := a
  simp only at hr
  split_ifs at hr with hv
  · obtain ⟨rfl, -⟩ := Prod.mk.inj hr
    exact absurd rfl hok
  · obtain ⟨rfl, rfl⟩ := Prod.mk.inj hr
    exact ⟨v, rfl, hv, rfl, regs_rtaddr _ _ _ _⟩

/-- **The root tables**: the units get the driver's addresses. -/
theorem initUnits_spec {us : ℕ → IommuUnit} (h : Wf s) (hr : initUnits s units gcmd n = (us, s'))
    (hok : ∀ i < n, (us i).rootTable ≠ 0) : Grown s s' ∧ ∀ i < n, (us i).base.Virtual s' := by
  induction n generalizing us s' with
  | zero =>
      obtain ⟨-, rfl⟩ := Prod.mk.inj hr
      exact ⟨h.grown, fun i hi => absurd hi (Nat.not_lt_zero i)⟩
  | succ n ih =>
      rw [initUnits] at hr
      generalize initUnits s units gcmd n = r at ih hr
      obtain ⟨vs, t⟩ := r
      simp only at hr
      generalize hq : initUnit t (vs n) (gcmd n) = q at hr
      obtain ⟨w, t'⟩ := q
      obtain ⟨rfl, rfl⟩ := Prod.mk.inj hr
      have hold : ∀ i < n, Function.update vs n w i = vs i := fun i hi =>
        Function.update_of_ne (Nat.ne_of_lt hi) _ _
      have hnew : Function.update vs n w n = w := Function.update_self _ _ _
      obtain ⟨hgrown, hbases⟩ := ih rfl fun i hi => by
        rw [← hold i hi]
        exact hok i (hi.trans n.lt_succ_self)
      have hw : w.rootTable ≠ 0 := by
        rw [← hnew]
        exact hok n n.lt_succ_self
      obtain ⟨v, ha, hv, htable, hregs⟩ := initUnit_cases hq hw
      have hgrown' : Grown t t' := (hgrown.wf.grown_alloc (by decide) ha hv).1
      refine ⟨hgrown.trans hgrown', fun i hi => ?_⟩
      rcases Nat.lt_succ_iff_lt_or_eq.mp hi with hlt | rfl
      · rw [hold i hlt]
        exact (hbases i hlt).grown hgrown'
      · rw [hnew, IommuUnit.base, htable, hregs]
        exact virtual_cast (hgrown.wf.remote_alloc (by decide) ha hv)

theorem init_virtual (h : Wf s) (hr : iommuInit s d gcmd = (d', s'))
    (hok : ∀ i < d'.unitCount, (d'.units i).rootTable ≠ 0) :
    Grown s s' ∧ ∀ b ∈ d'.bases, b.Virtual s' := by
  rw [iommuInit] at hr
  generalize hq : initUnits s d.units gcmd d.unitCount = q at hr
  obtain ⟨us, t⟩ := q
  obtain ⟨rfl, rfl⟩ := Prod.mk.inj hr
  obtain ⟨hgrown, hbases⟩ := initUnits_spec h hq hok
  refine ⟨hgrown, fun b hb => ?_⟩
  obtain ⟨i, hi, rfl⟩ := List.mem_map.mp hb
  exact hbases i (List.mem_range.mp hi)

/-! ### Domains -/

theorem ensureContext_cases (hr : ensureContext s d i bus = (true, d', s')) :
    ((d.rootEntry i bus).present = true ∧ d' = d ∧ s' = s) ∨
      (¬(d.rootEntry i bus).present = true ∧
        ∃ v, pagingAllocPages s 1 = (v, s') ∧ v ≠ 0 ∧ d' = d.setContext i bus v) := by
  rw [ensureContext] at hr
  generalize ha : pagingAllocPages s 1 = a at hr
  obtain ⟨v, t⟩ := a
  simp only at hr
  split_ifs at hr with hpres hv
  · obtain ⟨-, hrest⟩ := Prod.mk.inj hr
    obtain ⟨rfl, rfl⟩ := Prod.mk.inj hrest
    exact .inl ⟨hpres, rfl, rfl⟩
  · cases congrArg Prod.fst hr
  · obtain ⟨-, hrest⟩ := Prod.mk.inj hr
    obtain ⟨rfl, rfl⟩ := Prod.mk.inj hrest
    exact .inr ⟨hpres, v, rfl, hv, rfl⟩

theorem createDomain_cases (hr : iommuCreateDomain s d domainId bus device function = (true, d', s')) :
    ∃ i e t v, d.findUnit bus = some i ∧ ensureContext s d i bus = (true, e, t) ∧
      pagingAllocPages t 1 = (v, s') ∧ v ≠ 0 ∧ d' = e.setEntry i bus (devfn device function) domainId v := by
  rw [iommuCreateDomain] at hr
  split_ifs at hr with henabled
  · cases congrArg Prod.fst hr
  · cases hi : d.findUnit bus with
    | none =>
        rw [hi] at hr
        cases congrArg Prod.fst hr
    | some i =>
        rw [hi] at hr
        simp only at hr
        generalize hc : ensureContext s d i bus = r at hr
        obtain ⟨b, e, t⟩ := r
        simp only at hr
        generalize ha : pagingAllocPages t 1 = a at hr
        obtain ⟨v, w⟩ := a
        split_ifs at hr with htable hb hv
        · cases congrArg Prod.fst hr
        · rw [(Prod.mk.inj hr).1] at hb
          cases hb
        · cases congrArg Prod.fst hr
        · obtain rfl : b = true := Bool.eq_true_of_not_eq_false hb
          obtain ⟨-, hrest⟩ := Prod.mk.inj hr
          obtain ⟨rfl, rfl⟩ := Prod.mk.inj hrest
          exact ⟨i, e, t, v, rfl, hc, ha, hv, rfl⟩

theorem rootEntry_setContext (d : Driver) (i : ℕ) (bus : U8) (table : U32) :
    ((d.setContext i bus table).rootEntry i bus).contextTablePtr = ptrField table := by
  simp [Driver.setContext, Driver.rootEntry]

theorem rootEntry_setEntry (d : Driver) (i : ℕ) (bus df : U8) (id : U16) (table : U32) :
    (d.setEntry i bus df id table).rootEntry i bus = d.rootEntry i bus := by
  simp [Driver.setEntry, Driver.rootEntry, iommuInvalidateContextCache, IommuUnit.write]

theorem contextEntry_setEntry (d : Driver) (i : ℕ) (bus df : U8) (id : U16) (table : U32) :
    ((d.setEntry i bus df id table).contextEntry i bus df).secondLevelPageTablePtr = ptrField table := by
  rw [Driver.contextEntry, Driver.contextTable, rootEntry_setEntry]
  simp [Driver.setEntry, Driver.contextTable]

/-- **A domain**: the unit gets the driver's addresses. -/
theorem domain_virtual (h : Wf s)
    (hr : iommuCreateDomain s d domainId bus device function = (true, d', s')) :
    ∃ i, d.findUnit bus = some i ∧ Grown s s' ∧
      ∀ b ∈ d'.tables i bus (devfn device function) (!(d.rootEntry i bus).present), b.Virtual s' := by
  obtain ⟨i, e, t, v, hi, hc, ha, hv, rfl⟩ := createDomain_cases hr
  have hcontext : Grown s t ∧ ((d.rootEntry i bus).present = false →
      (⟨fieldPtr (e.rootEntry i bus).contextTablePtr, fieldAddr (e.rootEntry i bus).contextTablePtr⟩
        : Base).Virtual t) := by
    rcases ensureContext_cases hc with ⟨hpres, rfl, rfl⟩ | ⟨-, w, hw, hne, rfl⟩
    · refine ⟨h.grown, fun habsent => ?_⟩
      rw [habsent] at hpres
      cases hpres
    · refine ⟨(h.grown_alloc (by decide) hw hne).1, fun _ => ?_⟩
      rw [rootEntry_setContext]
      exact virtual_field (h.remote_alloc (by decide) hw hne) (h.pageStart_alloc hw hne (by decide))
  obtain ⟨hgrown, hvirtual⟩ := hcontext
  have hgrown' : Grown t s' := (hgrown.wf.grown_alloc (by decide) ha hv).1
  refine ⟨i, hi, hgrown.trans hgrown', fun b hb => ?_⟩
  rw [Driver.tables, rootEntry_setEntry, contextEntry_setEntry] at hb
  rcases List.mem_append.mp hb with hb | hb
  · split_ifs at hb with hnew
    · obtain rfl := List.mem_singleton.mp hb
      exact (hvirtual (Bool.not_eq_true' _ ▸ hnew)).grown hgrown'
    · cases hb
  · obtain rfl := List.mem_singleton.mp hb
    exact virtual_field (hgrown.wf.remote_alloc (by decide) ha hv)
      (hgrown.wf.pageStart_alloc ha hv (by decide))

end BloodKernel.Iommu
