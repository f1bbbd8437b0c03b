import BloodKernel.Drivers.PagingRuns

set_option autoImplicit false

/-!
# Translation

`paging_init` enters one table twice in the directory, for the first 4 MB and for their mirror at 3 GB, and
so a page of one half and its mirror have one entry.

* `SamePage`, `Mirrored`: addresses in one page, and addresses translated by one entry;
* `get_eq`: the address translation reads the entry;
* `Layout.get_unmap`, `Wf.get_map`, **`one_page_changes`**: mapping and unmapping a page change the
  translation of the page and its mirror only.
-/

namespace BloodKernel.Paging

open Lib

def SamePage (v x : U32) : Prop := v.toNat / 4096 = x.toNat / 4096

instance decidableSamePage (v x : U32) : Decidable (SamePage v x) := inferInstanceAs (Decidable (_ = _))

/-- `x` is in the page of `v`, or one of them is in the first 4 MB and the other in the mirror of its page,
3 GB above it. -/
def Mirrored (v x : U32) : Prop :=
  SamePage v x ∨ (v.toNat < 0x400000 ∧ SamePage (v + 0xC0000000) x) ∨
    (x.toNat < 0x400000 ∧ SamePage v (x + 0xC0000000))

instance decidableMirrored (v x : U32) : Decidable (Mirrored v x) :=
  inferInstanceAs (Decidable (SamePage _ _ ∨ (_ < _ ∧ SamePage _ _) ∨ (_ < _ ∧ SamePage _ _)))

/-- From `s` to `s'` the addresses that share the entry of `v` are translated to `f`, and no other
translation changes. -/
def Moves (s s' : State) (v : U32) (f : U32 → U32) : Prop := ∀ x,
  pagingGetPhysicalAddr s' x = if Mirrored v x then f x else pagingGetPhysicalAddr s x

variable {s s' : State} {v w x : U32}

theorem toNat_dirIndex (v : U32) : dirIndex v = v.toNat / 4194304 := by
  rw [dirIndex, BitVec.toNat_ushiftRight, Nat.shiftRight_eq_div_pow]

theorem toNat_mirror (h : v.toNat < 0x400000) : (v + 0xC0000000).toNat = v.toNat + 0xC0000000 := by
  have hhigh : (0xC0000000 : U32).toNat = 3221225472 := rfl
  rw [BitVec.toNat_add, hhigh]
  omega

theorem sameSlot_iff : SameSlot v (dirIndex x) (tableIndex x) ↔ Mirrored v x := by
  have hv := v.isLt
  have hx := x.isLt
  unfold SameSlot SameDir Mirrored SamePage kernelPageNumber
  rw [toNat_dirIndex, toNat_dirIndex, toNat_tableIndex, toNat_tableIndex]
  constructor
  · rintro ⟨hdir | ⟨hx0, hv768⟩ | ⟨hx768, hv0⟩, hk⟩
    · exact .inl (by omega)
    · have hlow : x.toNat < 0x400000 := by omega
      refine .inr (.inr ⟨hlow, ?_⟩)
      rw [toNat_mirror hlow]
      omega
    · have hlow : v.toNat < 0x400000 := by omega
      refine .inr (.inl ⟨hlow, ?_⟩)
      rw [toNat_mirror hlow]
      omega
  · rintro (hpage | ⟨hlow, hpage⟩ | ⟨hlow, hpage⟩)
    · exact ⟨.inl (by omega), by omega⟩
    · rw [toNat_mirror hlow] at hpage
      exact ⟨.inr (.inr ⟨by omega, by omega⟩), by omega⟩
    · rw [toNat_mirror hlow] at hpage
      exact ⟨.inr (.inl ⟨by omega, by omega⟩), by omega⟩

theorem entryOf_samePage (h : SamePage v x) : entryOf s x = entryOf s v := by
  have h : v.toNat / 4096 = x.toNat / 4096 := h
  have hd : dirIndex x = dirIndex v := by
    rw [toNat_dirIndex, toNat_dirIndex]
    omega
  have hk : tableIndex x = tableIndex v := by
    rw [toNat_tableIndex, toNat_tableIndex, h]
  rw [entryOf, entryOf, hd, hk]

theorem and_offset (x : U32) : x &&& 0xFFF = BitVec.ofNat 32 (x.toNat % 4096) := by
  have hmask : (0xFFF : U32).toNat = 2 ^ 12 - 1 := rfl
  apply BitVec.eq_of_toNat_eq
  rw [BitVec.toNat_and, hmask, Nat.and_two_pow_sub_one_eq_mod, BitVec.toNat_ofNat]
  omega

theorem get_eq (s : State) (x : U32) : pagingGetPhysicalAddr s x =
    if Present (entryOf s x) then frameAt s x + BitVec.ofNat 32 (x.toNat % 4096) else 0 := by
  simp only [pagingGetPhysicalAddr, and_offset, frameAt, entryOf, entry, ite_not]
  by_cases hd : Present (s.pde (dirIndex x))
  · simp only [if_pos hd]
  · simp only [if_neg hd, if_neg not_present_zero]

theorem get_of_entry (h : entryOf s' x = entryOf s x) :
    pagingGetPhysicalAddr s' x = pagingGetPhysicalAddr s x := by
  rw [get_eq, get_eq, frameAt, frameAt, h]

theorem get_of_absent (h : ¬ Present (entryOf s x)) : pagingGetPhysicalAddr s x = 0 :=
  (get_eq s x).trans (if_neg h)

theorem moves_of_entry (h : ∀ x, entryOf s' x =
    if SameSlot v (dirIndex x) (tableIndex x) then w else entryOf s x) :
    Moves s s' v fun x => if Present w then frameOf w + BitVec.ofNat 32 (x.toNat % 4096) else 0 := by
  intro x
  by_cases hx : Mirrored v x
  · have hentry : entryOf s' x = w := (h x).trans (if_pos (sameSlot_iff.mpr hx))
    rw [if_pos hx, get_eq, frameAt, hentry]
  · rw [if_neg hx]
    exact get_of_entry ((h x).trans (if_neg fun hs => hx (sameSlot_iff.mp hs)))

/-- **Mapping.** -/
theorem Wf.get_map (h : Wf s) {physicalAddr flags : U32} (hflags : Present flags)
    (hmap : (pagingMapPage s v physicalAddr flags).1 = 1) :
    Moves s (pagingMapPage s v physicalAddr flags).2 v fun x =>
      frameOf (physicalAddr ||| flags) + BitVec.ofNat 32 (x.toNat % 4096) := by
  rcases h.map_spec v physicalAddr flags with ⟨-, hs⟩ | ⟨hzero, -⟩
  · have hmoves := moves_of_entry (entryOf_sets hs)
    simpa only [if_pos (present_or hflags)] using hmoves
  · rw [hzero] at hmap
    exact absurd hmap (by decide)

/-- Unmapping a page frees its frame, which leaves the tables as they are, and then clears the entry. -/
theorem Layout.unmap_set (h : Layout s) (hp : Present (entryOf s v)) :
    Agree s (freePhysicalPage s (frameAt s v)) ∧ Present ((freePhysicalPage s (frameAt s v)).pde (dirIndex v)) ∧
      pagingUnmapPage s v = setEntry (freePhysicalPage s (frameAt s v)) v 0 := by
  obtain ⟨hagree, -, -⟩ := h.free_spec (frameAt s v)
  refine ⟨hagree, ?_, h.unmap_eq hp⟩
  rw [hagree.pde _ (dirIndex_lt v)]
  exact present_pde hp

/-- Unmapping a page clears its entry, if it is present. -/
theorem Layout.entryOf_unmap (h : Layout s) (hp : Present (entryOf s v)) (x : U32) :
    entryOf (pagingUnmapPage s v) x =
      if SameSlot v (dirIndex x) (tableIndex x) then 0 else entryOf s x := by
  obtain ⟨hagree, hpde, hset⟩ := h.unmap_set hp
  rw [hset]
  refine ((h.of_agree hagree).entry_setEntry hpde 0 (dirIndex_lt x) (tableIndex_lt x)).trans
    (if_congr Iff.rfl rfl ?_)
  exact hagree.entry (dirIndex_lt x) (tableIndex_lt x)

theorem Layout.entryOf_eq (h : Layout s) (hx : SameSlot v (dirIndex x) (tableIndex x)) :
    entryOf s x = entryOf s v := by
  obtain ⟨hd, hk⟩ := hx
  unfold entryOf entry State.pte
  rw [hk]
  rcases hd with he | ⟨he, he'⟩ | ⟨he, he'⟩
  · rw [he]
  · rw [he, he', if_pos h.low, if_pos h.high, h.kernel]
  · rw [he, he', if_pos h.low, if_pos h.high, h.kernel]

/-- **Unmapping.** -/
theorem Layout.get_unmap (h : Layout s) (v : U32) : Moves s (pagingUnmapPage s v) v fun _ => 0 := by
  by_cases hp : Present (entryOf s v)
  · have hmoves := moves_of_entry (h.entryOf_unmap hp)
    simpa only [if_neg not_present_zero] using hmoves
  · intro x
    rw [unmap_of_not_present hp]
    split_ifs with hx
    · rw [← h.entryOf_eq (sameSlot_iff.mpr hx)] at hp
      exact get_of_absent hp
    · rfl

/-! ### Runs -/

/-- The structures stay apart while no frame of theirs is freed. -/
def wfPolicy : Policy :=
  .ofSpares Wf (fun _ _ => True) id (fun _ he => he.wf) (fun _ _ hs => hs.wf) (fun _ hc => hc.wf)
    (fun _ _ => trivial)

theorem wf_run {mem : Words} {memorySize : U32} (hfit : memorySize.toNat / 4096 ≤ 32768)
    {es : List Event} {t : State} (h : Run (total step) (start mem memorySize) es t)
    (ha : Along (total step) (Permits Spares fun _ _ => True) (start mem memorySize) es) : Wf t :=
  (wfPolicy.run (fun _ => id) h ha (wf_start (bitmapWords_fits hfit))).last h

/-- **One page changes.** In the states reached while the bitmap fits into its frame and no frame of the
structures is freed, mapping and unmapping a page change the translation of the page and its mirror
only. -/
theorem one_page_changes {mem : Words} {memorySize : U32} (hfit : memorySize.toNat / 4096 ≤ 32768)
    {es : List Event} {t : State} (h : Run (total step) (start mem memorySize) es t)
    (ha : Along (total step) (Permits Spares fun _ _ => True) (start mem memorySize) es) :
    (∀ p flags v : U32, PageStart p → Present flags → (pagingMapPage t v p flags).1 = 1 →
      (Moves t (pagingMapPage t v p flags).2 v fun x =>
        frameOf (p ||| flags) + BitVec.ofNat 32 (x.toNat % 4096)) ∧
      (flags.toNat < 4096 → frameOf (p ||| flags) = p)) ∧
    ∀ v : U32, Moves t (pagingUnmapPage t v) v fun _ => 0 := by
  have hwf := wf_run hfit h ha
  refine ⟨fun p flags v hp hflags hmap => ?_, hwf.toLayout.get_unmap⟩
  exact ⟨hwf.get_map hflags hmap, frameOf_or hp⟩

/-- After a fault in the heap, with 8 MB of memory. -/
theorem one_page_changes_fault :
    Moves (step (start (fun _ => 0) 0x800000) (.fault 0 heapStart)).2
      (pagingMapPage (step (start (fun _ => 0) 0x800000) (.fault 0 heapStart)).2 0x1000 0x500000 3).2
      0x1000 fun x => 0x500000 + BitVec.ofNat 32 (x.toNat % 4096) := by
  have hfit : (0x800000 : U32).toNat / 4096 ≤ 32768 := by decide
  have hwf := wf_run hfit (run_one (start (fun _ => 0) 0x800000) (.fault 0 heapStart)) (along_one trivial)
  have hmap := congrArg Prod.fst (map_of_present (v := 0x1000) hwf.low 0x500000 3)
  have hflags : Present 3 := by decide
  obtain ⟨hmoves, he⟩ := (one_page_changes hfit
    (run_one (start (fun _ => 0) 0x800000) (.fault 0 heapStart)) (along_one trivial)).1
      0x500000 3 0x1000 rfl hflags hmap
  rwa [he (by decide)] at hmoves

/-- Mapping the page at 4 KB changes the translation of its mirror. Flags with address bits change the
address. -/
theorem mirror_changes :
    ((pagingMapPage (start (fun _ => 0) 0x800000) 0x1000 0x500000 3).1 = 1 ∧
      ¬ SamePage 0x1000 0xC0001000 ∧
      pagingGetPhysicalAddr (pagingMapPage (start (fun _ => 0) 0x800000) 0x1000 0x500000 3).2 0xC0001000
        ≠ pagingGetPhysicalAddr (start (fun _ => 0) 0x800000) 0xC0001000) ∧
    (pagingMapPage (start (fun _ => 0) 0x800000) 0x1000 0x500000 0x1001).1 = 1 ∧ Present 0x1001 ∧
      pagingGetPhysicalAddr (pagingMapPage (start (fun _ => 0) 0x800000) 0x1000 0x500000 0x1001).2 0x1000
        ≠ 0x500000 := by
  have hfit : (bitmapWords 0x800000).toNat ≤ 1024 := by decide
  have hwf : Wf (start (fun _ => 0) 0x800000) := wf_start hfit
  have hmap : ∀ flags, (pagingMapPage (start (fun _ => 0) 0x800000) 0x1000 0x500000 flags).1 = 1 :=
    fun flags => congrArg Prod.fst (map_of_present (v := 0x1000) hwf.low 0x500000 flags)
  have hentry : entryOf (start (fun _ => 0) 0x800000) 0xC0001000 = identityEntry 1 :=
    (entry_start hfit (by decide) (by decide)).trans (if_pos (by decide))
  refine ⟨⟨hmap 3, by decide, ?_⟩, hmap 0x1001, by decide, ?_⟩
  · rw [hwf.get_map (by decide) (hmap 3), if_pos (by decide), get_eq, frameAt, hentry]
    decide
  · rw [hwf.get_map (by decide) (hmap 0x1001), if_pos (by decide)]
    decide

end BloodKernel.Paging
