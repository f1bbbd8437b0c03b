import BloodKernel.Drivers.PagingCount

set_option autoImplicit false

/-!
# The pages of an allocation

`paging_alloc_pages` takes the first range of pages of the heap without physical addresses, and maps them
one by one to frames that it allocates. A page table that is missing takes a frame of its own.

* `MapsTo`, `map_heap`: one page of the loop;
* `tables`, `Filled`: the page tables that the first pages of a range need, and the state after they have
  been mapped;
* `mapPages_cases`: how the loop ends;
* **`alloc_ok_iff`**: a successful allocation maps its pages, inside the heap, exactly when the range
  found lies in the heap, none of its pages is mapped to frame 0, and frames are left for all its tables.
-/

namespace BloodKernel.Paging

open Lib

variable {s s' t : State} {u v w x : U32} {p d i j k n : ℕ}

/-! ### One page -/

/-- A page above the two mirrored regions. -/
def Above (u : U32) : Prop := 0xC0400000 ≤ u.toNat

theorem sameSlot_above (h : Above u) : SameSlot u (dirIndex x) (tableIndex x) ↔ SamePage u x := by
  have hhigh : (0xC0000000 : U32).toNat = 3221225472 := rfl
  have hu : 3225419776 ≤ u.toNat := h
  have hx := x.isLt
  rw [sameSlot_iff]
  unfold Mirrored SamePage
  rw [BitVec.toNat_add, BitVec.toNat_add, hhigh]
  omega

theorem pageOf_ne_zero (h : Wf s) (hp : Free s p) (hzero : ¬ Free s 0) : pageOf p ≠ 0 := by
  intro he
  have hnum := pageNum_pageOf (h.lt_of_free hp)
  rw [he] at hnum
  have hp0 : p = 0 := hnum.symm
  exact hzero (hp0 ▸ hp)

/-- From `s` to `s'` the page of `u` is mapped to page `p`, taken from the free ones, and a missing table
takes another page. -/
structure MapsTo (s s' : State) (u : U32) (p : ℕ) : Prop where
  wf : Wf s'
  size : s'.bitmapSize = s.bitmapSize
  entry : ∀ x, entryOf s' x = if SamePage u x then pageOf p ||| heapFlags else entryOf s x
  present : ∀ d < 1024, Present (s'.pde d) ↔ Present (s.pde d) ∨ d = dirIndex u
  free : ∀ q, Free s' q → Free s q ∧ q ≠ p
  owns : ∀ g, Owns s' g → Owns s g ∨ (Free s (pageNum g) ∧ pageNum g ≠ p)
  count : freeCount s' + 1 + (if Present (s.pde (dirIndex u)) then 0 else 1) = freeCount s

theorem MapsTo.of_setEntry (h : Wf s') (hu : Above u) (hpres : Present (s'.pde (dirIndex u)))
    (hsize : s'.bitmapSize = s.bitmapSize) (hentry : ∀ x, entryOf s' x = entryOf s x)
    (hdir : ∀ d < 1024, Present (s'.pde d) ↔ Present (s.pde d) ∨ d = dirIndex u)
    (hfree : ∀ q, Free s' q → Free s q ∧ q ≠ p)
    (howns : ∀ g, Owns s' g → Owns s g ∨ (Free s (pageNum g) ∧ pageNum g ≠ p))
    (hcount : freeCount s' + 1 + (if Present (s.pde (dirIndex u)) then 0 else 1) = freeCount s) :
    MapsTo s (setEntry s' u (pageOf p ||| heapFlags)) u p where
  wf := h.setEntry hpres _
  size := hsize
  entry x := by
    refine (h.entry_setEntry hpres _ (dirIndex_lt x) (tableIndex_lt x)).trans ?_
    exact if_congr (sameSlot_above hu) rfl (hentry x)
  present d hd := by
    rw [h.pde_setEntry hpres _ hd]
    exact hdir d hd
  free q hq := hfree q ((h.free_setEntry hpres _).mp hq)
  owns g hg := howns g ((h.owns_setEntry hpres _).mp hg)
  count := by rw [freeCount_setEntry h hpres, hcount]

section MapHeap

variable (h : Wf s) (hp : Free s p)

include h hp

theorem entryOf_taken (x : U32) : entryOf (taken s p) x = entryOf s x :=
  (h.agree_taken hp).entry (dirIndex_lt x) (tableIndex_lt x)

theorem map_heap_of_present (hu : Above u) (hpres : Present (s.pde (dirIndex u))) :
    MapsTo s (pagingMapPage (taken s p) u (pageOf p) heapFlags).2 u p := by
  have hagree := h.agree_taken hp
  have hpres' : Present ((taken s p).pde (dirIndex u)) := by rwa [hagree.pde _ (dirIndex_lt u)]
  rw [map_of_present hpres']
  refine .of_setEntry (h.taken hp) hu hpres' rfl (entryOf_taken h hp) (fun d hd' => ?_) (fun q hq => ?_)
    (fun g hg => .inl (hagree.owns.mp hg)) ?_
  · rw [hagree.pde d hd']
    exact (or_iff_left_of_imp fun he => he ▸ hpres).symm
  · exact (h.free_taken hp).mp hq
  · rw [if_pos hpres]
    exact freeCount_taken h hp

theorem map_heap_of_alloc {q : ℕ} (hzero : ¬ Free s 0) (hu : Above u) (hpres : ¬ Present (s.pde (dirIndex u)))
    (hq : Free (taken s p) q) (halloc : allocPhysicalPage (taken s p) = (pageOf q, taken (taken s p) q)) :
    MapsTo s (pagingMapPage (taken s p) u (pageOf p) heapFlags).2 u p := by
  have hd := dirIndex_lt u
  have hagree := h.agree_taken hp
  have hwf := h.taken hp
  have hpres' : ¬ Present ((taken s p).pde (dirIndex u)) := by rwa [hagree.pde _ hd]
  have hne : pageOf q ≠ 0 := pageOf_ne_zero h ((h.free_taken hp).mp hq).1 hzero
  have hext := hwf.extends_newTable hq hd hpres'
  rw [map_of_alloc hpres' halloc hne]
  refine .of_setEntry (hwf.newTable hq hd hpres') hu (hwf.present_newTable hq hd) rfl (fun x => ?_)
    (fun e he' => ?_) (fun r hr => ?_) (fun g hg => ?_) ?_
  · rw [entryOf_extends hext, entryOf_taken h hp]
  · rw [hwf.pde_newTable hq hd he', hagree.pde e he']
    split_ifs with hed
    · refine iff_of_true ?_ (.inr hed)
      rw [BitVec.or_assoc, BitVec.or_assoc]
      exact present_or (by decide)
    · exact (or_iff_left hed).symm
  · exact (h.free_taken hp).mp ((hwf.free_newTable hq hd).mp hr).1
  · refine (hwf.owns_newTable hq hd hg).imp hagree.owns.mp fun he' => ?_
    rw [he', pageNum_pageOf (hwf.lt_of_free hq)]
    exact (h.free_taken hp).mp hq
  · rw [if_neg hpres]
    have hcount := freeCount_taken h hp
    have hcount' := freeCount_newTable hwf hq hd
    show freeCount (newTable (taken s p) q (dirIndex u)) + 1 + 1 = freeCount s
    omega

end MapHeap

/-- **One page of the loop.** It is mapped, unless its table is missing and its frame was the last one. -/
theorem map_heap (h : Wf s) (hzero : ¬ Free s 0) (hp : Free s p) (hu : Above u) :
    MapsTo s (pagingMapPage (taken s p) u (pageOf p) heapFlags).2 u p ∨
      (¬ Present (s.pde (dirIndex u)) ∧ freeCount s = 1 ∧
        (pagingMapPage (taken s p) u (pageOf p) heapFlags).2 = taken s p) := by
  by_cases hpres : Present (s.pde (dirIndex u))
  · exact .inl (map_heap_of_present h hp hu hpres)
  · rcases (h.taken hp).alloc_eq with ⟨q, hq, -, halloc⟩ | ⟨hnone, halloc⟩
    · exact .inl (map_heap_of_alloc h hp hzero hu hpres hq halloc)
    · have hpres' : ¬ Present ((taken s p).pde (dirIndex u)) := by
        rwa [(h.agree_taken hp).pde _ (dirIndex_lt u)]
      refine .inr ⟨hpres, ?_, ?_⟩
      · rw [← freeCount_taken h hp, freeCount_eq_zero hnone]
      · rw [map_of_no_page hpres' halloc]

/-! ### The pages of a range -/

structure InHeap (v : U32) : Prop where
  page : v.toNat % 4096 = 0
  ge : 0xD0000000 ≤ v.toNat
  lt : v.toNat < 0xE0000000

theorem inHeap_heapStart : InHeap heapStart := ⟨rfl, by decide, by decide⟩

theorem InHeap.ne_zero (hv : InHeap v) : v ≠ 0 := by
  rintro rfl
  exact absurd hv.ge (by decide)

/-- The addresses of a range do not wrap in the pages that any memory has frames for. -/
theorem toNat_pageAddr (hv : InHeap v) (hj : j ≤ 0x20000) :
    (pageAddr v j).toNat = v.toNat + j * 4096 := by
  obtain ⟨hpage, -, hlt⟩ := hv
  have h4096 : (4096 : U32).toNat = 4096 := rfl
  rw [pageAddr, BitVec.toNat_add, BitVec.toNat_mul, BitVec.toNat_ofNat, h4096]
  omega

theorem toNat_pageAddr_heapStart (hi : i ≤ 0x20000) :
    (pageAddr heapStart i).toNat = 0xD0000000 + i * 4096 := toNat_pageAddr inHeap_heapStart hi

theorem inHeap_pageAddr (hi : i < 0x10000) : InHeap (pageAddr heapStart i) := by
  have hval := toNat_pageAddr_heapStart (show i ≤ 0x20000 by omega)
  exact ⟨by omega, by omega, by omega⟩

theorem page_pageAddr (hv : InHeap v) (hj : j ≤ 0x20000) : (pageAddr v j).toNat % 4096 = 0 := by
  have hpage := hv.page
  rw [toNat_pageAddr hv hj]
  omega

theorem above_pageAddr (hv : InHeap v) (hj : j ≤ 0x20000) : Above (pageAddr v j) := by
  have hge := hv.ge
  unfold Above
  rw [toNat_pageAddr hv hj]
  omega

theorem samePage_pageAddr (hv : InHeap v) (hi : i ≤ 0x20000) (hj : j ≤ 0x20000) :
    SamePage (pageAddr v i) (pageAddr v j) ↔ i = j := by
  have hpage := hv.page
  unfold SamePage
  rw [toNat_pageAddr hv hi, toNat_pageAddr hv hj]
  omega

theorem not_samePage_pageAddr (hv : InHeap v) (hi : i ≤ 0x20000) (hj : j ≤ 0x20000) (hne : i ≠ j) :
    ¬ SamePage (pageAddr v i) (pageAddr v j) := fun hs => hne ((samePage_pageAddr hv hi hj).mp hs)

theorem pageAddr_pageAddr (v : U32) (i j : ℕ) : pageAddr (pageAddr v i) j = pageAddr v (i + j) := by
  rw [pageAddr, pageAddr, pageAddr, BitVec.ofNat_add, BitVec.add_mul, BitVec.add_assoc]

theorem pageAddr_zero (v : U32) : pageAddr v 0 = v := by
  rw [pageAddr, BitVec.ofNat_eq_ofNat]
  simp

theorem dirIndex_heap (hj : j ≤ 0x10000) : dirIndex (pageAddr heapStart j) = 832 + j / 1024 := by
  rw [toNat_dirIndex, toNat_pageAddr_heapStart (by omega)]
  omega

/-- The number of page tables that are missing for the first `n` pages from `v` on. -/
def tables (t : State) (v : U32) (n : ℕ) : ℕ :=
  (((Finset.range n).image fun j => dirIndex (pageAddr v j)).filter fun d => ¬ Present (t.pde d)).card

theorem tables_succ (t : State) (v : U32) (n : ℕ) : tables t v (n + 1) = tables t v n +
    if Present (t.pde (dirIndex (pageAddr v n))) ∨ ∃ i < n, dirIndex (pageAddr v i) = dirIndex (pageAddr v n)
    then 0 else 1 := by
  unfold tables
  rw [Finset.range_add_one, Finset.image_insert, Finset.filter_insert]
  by_cases hpres : Present (t.pde (dirIndex (pageAddr v n)))
  · rw [if_neg (not_not.mpr hpres), if_pos (.inl hpres), Nat.add_zero]
  · rw [if_pos hpres]
    by_cases hmem : ∃ i < n, dirIndex (pageAddr v i) = dirIndex (pageAddr v n)
    · rw [if_pos (.inr hmem), Nat.add_zero, Finset.insert_eq_of_mem]
      refine Finset.mem_filter.mpr ⟨?_, hpres⟩
      obtain ⟨i, hi, he⟩ := hmem
      exact Finset.mem_image.mpr ⟨i, Finset.mem_range.mpr hi, he⟩
    · rw [if_neg (not_or.mpr ⟨hpres, hmem⟩), Finset.card_insert_of_notMem]
      intro h
      obtain ⟨i, hi, he⟩ := Finset.mem_image.mp (Finset.mem_filter.mp h).1
      exact hmem ⟨i, Finset.mem_range.mp hi, he⟩

theorem tables_mono (t : State) (v : U32) : Monotone (tables t v) :=
  monotone_nat_of_le_succ fun n => by
    rw [tables_succ]
    exact Nat.le_add_right _ _

theorem tables_eq_zero : tables t v n = 0 ↔ ∀ j < n, Present (t.pde (dirIndex (pageAddr v j))) := by
  unfold tables
  rw [Finset.card_eq_zero, Finset.filter_eq_empty_iff]
  simp

theorem tables_le (t : State) (v : U32) (n : ℕ) : tables t v n ≤ n :=
  (Finset.card_filter_le _ _).trans (Finset.card_image_le.trans (Finset.card_range n).le)

/-! ### The loop -/

/-- From `t` to `s` the first `j` pages from `v` on have been mapped, page `i` to the frame `f i`. -/
structure Filled (t : State) (v : U32) (j : ℕ) (s : State) (f : ℕ → ℕ) : Prop where
  wf : Wf s
  size : s.bitmapSize = t.bitmapSize
  mapped : ∀ i < j, entryOf s (pageAddr v i) = pageOf (f i) ||| heapFlags
  other : ∀ x, (∀ i < j, ¬ SamePage (pageAddr v i) x) → entryOf s x = entryOf t x
  present : ∀ d < 1024, Present (s.pde d) ↔ Present (t.pde d) ∨ ∃ i < j, dirIndex (pageAddr v i) = d
  free : ∀ q, Free s q → Free t q
  fresh : ∀ i < j, Free t (f i) ∧ ¬ Free s (f i)
  apart : ∀ i < j, ¬ Owns s (pageOf (f i))
  inj : ∀ i < j, ∀ k < j, f i = f k → i = k
  count : freeCount s + j + tables t v j = freeCount t

theorem filled_zero (h : Wf t) (v : U32) (f : ℕ → ℕ) : Filled t v 0 t f where
  wf := h
  size := rfl
  mapped i hi := absurd hi (Nat.not_lt_zero i)
  other _ _ := rfl
  present _ _ := (or_iff_left fun ⟨i, hi, _⟩ => Nat.not_lt_zero i hi).symm
  free _ hq := hq
  fresh i hi := absurd hi (Nat.not_lt_zero i)
  apart i hi := absurd hi (Nat.not_lt_zero i)
  inj i hi := absurd hi (Nat.not_lt_zero i)
  count := rfl

section Filled

variable {f : ℕ → ℕ}

theorem Filled.le (h : Filled t v j s f) : j ≤ 32768 := by
  have hcount := h.count
  have hle := Nat.count_le (p := Free t) (n := 32 * t.bitmapSize.toNat)
  have hsize := h.wf.size
  change freeCount t ≤ _ at hle
  rw [h.size] at hsize
  omega

/-- There are frames for all the pages after a mapped one. -/
theorem Filled.frame_add_lt {k : ℕ} (h : Filled t v j s f) (hi : i < j) (hk : k ≤ j) :
    f i + k < 2 ^ 20 := by
  have hle := h.le
  have hlt := (h.fresh i hi).1.1
  have hsize := h.wf.size
  rw [h.size] at hsize
  omega

theorem Filled.frame_lt (h : Filled t v j s f) (hi : i < j) : f i < 2 ^ 20 :=
  h.frame_add_lt hi (Nat.zero_le j)

/-- **One more page.** -/
theorem Filled.next (hv : InHeap v) (h : Filled t v j s f) (hp : Free s p) (hm : MapsTo s s' (pageAddr v j) p) :
    Filled t v (j + 1) s' (Function.update f j p) := by
  have hj := h.le
  have hne : ∀ i < j, ¬ SamePage (pageAddr v j) (pageAddr v i) := fun i hi =>
    not_samePage_pageAddr hv (by omega) (by omega) (Nat.ne_of_gt hi)
  have hold : ∀ i < j, Function.update f j p i = f i := fun i hi =>
    Function.update_of_ne (Nat.ne_of_lt hi) _ _
  have hnew : Function.update f j p j = p := Function.update_self _ _ _
  refine ⟨hm.wf, hm.size.trans h.size, fun i hi => ?_, fun x hx => ?_, fun d hd => ?_,
    fun q hq => h.free q (hm.free q hq).1, fun i hi => ?_, fun i hi ho => ?_, fun i hi k hk he => ?_, ?_⟩
  · rw [hm.entry]
    rcases Nat.lt_succ_iff_lt_or_eq.mp hi with hlt | rfl
    · rw [if_neg (hne i hlt), hold i hlt, h.mapped i hlt]
    · rw [if_pos ((samePage_pageAddr hv (by omega) (by omega)).mpr rfl), hnew]
  · rw [hm.entry, if_neg (hx j j.lt_succ_self)]
    exact h.other x fun i hi => hx i (hi.trans j.lt_succ_self)
  · rw [hm.present d hd, h.present d hd, or_assoc, Nat.exists_lt_succ_right]
    exact or_congr_right (or_congr_right eq_comm)
  · rcases Nat.lt_succ_iff_lt_or_eq.mp hi with hlt | rfl
    · rw [hold i hlt]
      exact ⟨(h.fresh i hlt).1, fun hf => (h.fresh i hlt).2 (hm.free _ hf).1⟩
    · rw [hnew]
      exact ⟨h.free p hp, fun hf => (hm.free p hf).2 rfl⟩
  · rcases Nat.lt_succ_iff_lt_or_eq.mp hi with hlt | rfl
    · rw [hold i hlt] at ho
      rcases hm.owns _ ho with ho' | ⟨hf, -⟩
      · exact h.apart i hlt ho'
      · rw [pageNum_pageOf (h.frame_lt hlt)] at hf
        exact (h.fresh i hlt).2 hf
    · rw [hnew] at ho
      rcases hm.owns _ ho with ho' | ⟨-, hne'⟩
      · exact h.wf.not_owns hp ho'
      · exact hne' (pageNum_pageOf (h.wf.lt_of_free hp))
  · -- the new frame was free, the old ones were not
    rcases Nat.lt_succ_iff_lt_or_eq.mp hi with hi | rfl <;>
      rcases Nat.lt_succ_iff_lt_or_eq.mp hk with hk | rfl
    · rw [hold i hi, hold k hk] at he
      exact h.inj i hi k hk he
    · rw [hold i hi, hnew] at he
      exact absurd (he ▸ hp) (h.fresh i hi).2
    · rw [hnew, hold k hk] at he
      exact absurd (he ▸ hp) (h.fresh k hk).2
    · rfl
  · have hcount := hm.count
    have hprev := h.count
    have hdir := h.present _ (dirIndex_lt (pageAddr v j))
    rw [tables_succ]
    rw [if_congr hdir rfl rfl] at hcount
    omega

end Filled

/-- The first `j` pages have been mapped, and the last frame has been handed out for the next one, whose
table is missing. -/
def Lost (t : State) (v : U32) (j : ℕ) (s' : State) : Prop :=
  ∃ s f p, Filled t v j s f ∧ Free s p ∧ ¬ Present (s.pde (dirIndex (pageAddr v j))) ∧
    freeCount s = 1 ∧ s' = taken s p

/-- After `j` rounds of the loop: the pages have been mapped, or all but the last. -/
def Looped (t : State) (v : U32) (j : ℕ) (s : State) : Prop :=
  (∃ f, Filled t v j s f) ∨ ∃ m, m + 1 = j ∧ Lost t v m s

section Loop

variable (hzero : ¬ Free t 0) (hv : InHeap v)

theorem Lost.freeCount_eq (h : Lost t v j s) : freeCount s = 0 := by
  obtain ⟨r, f, p, hfill, hp, -, hone, rfl⟩ := h
  have := freeCount_taken hfill.wf hp
  omega

theorem Looped.wf (h : Looped t v j s) : Wf s := by
  rcases h with ⟨f, hfill⟩ | ⟨m, -, r, f, p, hfill, hp, -, -, rfl⟩
  · exact hfill.wf
  · exact hfill.wf.taken hp

/-- While a free page is left, no frame has been lost. -/
theorem Looped.filled (h : Looped t v j s) (hfree : 0 < freeCount s) : ∃ f, Filled t v j s f := by
  rcases h with hfill | ⟨m, -, hlost⟩
  · exact hfill
  · exact absurd hlost.freeCount_eq hfree.ne'

include hzero hv

/-- **One round.** -/
theorem Filled.round {f : ℕ → ℕ} (h : Filled t v j s f) (hp : Free s p) :
    Looped t v (j + 1) (pagingMapPage (taken s p) (pageAddr v j) (pageOf p) heapFlags).2 := by
  have hj := h.le
  have hzero' : ¬ Free s 0 := fun hf => hzero (h.free 0 hf)
  rcases map_heap h.wf hzero' hp (above_pageAddr hv (show j ≤ 0x20000 by omega)) with
    hm | ⟨hno, hone, he⟩
  · exact .inl ⟨_, h.next hv hp hm⟩
  · exact .inr ⟨j, rfl, s, f, p, h, hp, hno, hone, he⟩

/-- **The loop** goes through all pages, or stops when no frame is left and unmaps the pages so far. -/
theorem mapPages_cases (h : Looped t v j s) :
    (∃ s', mapPages s v j n = (v, s') ∧ Looped t v (j + n) s') ∨
      ∃ k s', k < j + n ∧ mapPages s v j n = (0, unmapPages s' v k) ∧ Looped t v k s' ∧
        freeCount s' = 0 := by
  induction n generalizing j s with
  | zero => exact .inl ⟨s, rfl, h⟩
  | succ n ih =>
      rw [mapPages]
      rcases h.wf.alloc_eq with ⟨p, hp, -, he⟩ | ⟨hnone, he⟩
      · obtain ⟨f, hfill⟩ := h.filled (freeCount_pos hp)
        have hne : pageOf p ≠ 0 := pageOf_ne_zero h.wf hp fun hf => hzero (hfill.free 0 hf)
        have hadd : j + (n + 1) = j + 1 + n := by omega
        rw [he, if_neg hne, hadd]
        exact ih (hfill.round hzero hv hp)
      · rw [he, if_pos rfl]
        exact .inr ⟨j, s, by omega, rfl, h, freeCount_eq_zero hnone⟩

end Loop

/-! ### How the loop ends -/

theorem Filled.free_le {f : ℕ → ℕ} (h : Filled t v n s f) : n + tables t v n ≤ freeCount t := by
  have := h.count
  omega

theorem Lost.count (h : Lost t v j s) :
    freeCount t = j + 1 + tables t v j ∧ tables t v (j + 1) = tables t v j + 1 := by
  obtain ⟨r, f, p, hfill, -, hno, hone, -⟩ := h
  have hcount := hfill.count
  rw [hfill.present _ (dirIndex_lt _)] at hno
  rw [tables_succ, if_neg hno]
  omega

/-- All rounds: there were frames for all pages, and for the tables of all but the last. -/
theorem Looped.free_le (h : Looped t v (n + 1) s) : n + 1 + tables t v n ≤ freeCount t := by
  rcases h with ⟨f, hfill⟩ | ⟨m, hm, hlost⟩
  · have := hfill.free_le
    have := tables_mono t v (Nat.le_add_right n 1)
    omega
  · obtain rfl : m = n := Nat.succ_injective hm
    exact hlost.count.1.ge

/-- With a frame for the table of the last page, too, all pages are mapped. -/
theorem Looped.filled_of_frames (h : Looped t v (n + 1) s)
    (hframes : n + 1 + tables t v (n + 1) ≤ freeCount t) : ∃ f, Filled t v (n + 1) s f := by
  rcases h with hfill | ⟨m, hm, hlost⟩
  · exact hfill
  · obtain rfl : m = n := Nat.succ_injective hm
    obtain ⟨hcount, htables⟩ := hlost.count
    omega

theorem Looped.free_lt (h : Looped t v k s) (hk : k ≤ n) (hnone : freeCount s = 0) :
    freeCount t < n + 1 + tables t v n := by
  have hmono := tables_mono t v hk
  rcases h with ⟨f, hfill⟩ | ⟨m, rfl, hlost⟩
  · have := hfill.count
    omega
  · obtain ⟨hcount, htables⟩ := hlost.count
    omega

/-- If page 0 is free, it is the one handed out, and its address is taken for a failure. -/
theorem mapPages_of_zero (h : Wf t) (hzero : Free t 0) (v : U32) (n : ℕ) :
    mapPages t v 0 (n + 1) = (0, taken t 0) := by
  have htaken : allocPhysicalPage t = (0, taken t 0) := by
    rcases h.alloc_eq with ⟨p, hp, hless, he⟩ | ⟨hnone, -⟩
    · obtain rfl : p = 0 := Nat.eq_zero_of_not_pos fun hpos => hless 0 hpos hzero
      exact he
    · exact absurd hzero (hnone 0)
  rw [mapPages, htaken, if_pos rfl]
  rfl

/-- **All rounds** are made exactly when page 0 is not free and there are frames for all pages and for the
tables of all but the last. -/
theorem mapPages_of_frames (h : Wf t) (hv : InHeap v) (hzero : ¬ Free t 0)
    (hframes : n + 1 + tables t v n ≤ freeCount t) :
    ∃ s', mapPages t v 0 (n + 1) = (v, s') ∧ Looped t v (n + 1) s' := by
  rcases mapPages_cases (n := n + 1) hzero hv (.inl ⟨fun _ => 0, filled_zero h v _⟩) with
    hall | ⟨k, s', hk, -, hlooped, hnone⟩
  · rwa [Nat.zero_add] at hall
  · have := hlooped.free_lt (show k ≤ n by omega) hnone
    omega

theorem mapPages_of_no_frames (h : Wf t) (hv : InHeap v) (hzero : ¬ Free t 0)
    (hframes : ¬ n + 1 + tables t v n ≤ freeCount t) :
    ∃ k s', k ≤ n ∧ mapPages t v 0 (n + 1) = (0, unmapPages s' v k) ∧ Looped t v k s' ∧
      freeCount s' = 0 := by
  rcases mapPages_cases (n := n + 1) hzero hv (.inl ⟨fun _ => 0, filled_zero h v _⟩) with
    ⟨s', -, hlooped⟩ | ⟨k, s', hk, he, hlooped, hnone⟩
  · rw [Nat.zero_add] at hlooped
    exact absurd hlooped.free_le hframes
  · exact ⟨k, s', by omega, he, hlooped, hnone⟩

/-! ### The search -/

/-- `i` is the first page of the heap from which on no page of a range has a physical address. -/
def FirstRange (s : State) (count : U32) (i : ℕ) : Prop :=
  i < 0x10000 ∧
    (∀ j < count.toNat, pagingGetPhysicalAddr s (pageAddr (pageAddr heapStart i) j) = 0) ∧
    ∀ k < i, ∃ j < count.toNat, pagingGetPhysicalAddr s (pageAddr (pageAddr heapStart k) j) ≠ 0

theorem unmapped_iff {count : U32} : unmapped s v count = true ↔
    ∀ j < count.toNat, pagingGetPhysicalAddr s (pageAddr v j) = 0 := by
  simp [unmapped]

theorem find_unmapped {count : U32} :
    ((List.range 0x10000).find? fun i => unmapped s (pageAddr heapStart i) count) = some i ↔
      FirstRange s count i := by
  rw [List.find?_range_eq_some, List.mem_range, unmapped_iff, FirstRange]
  constructor
  · rintro ⟨hclear, hi, hless⟩
    refine ⟨hi, hclear, fun k hk => ?_⟩
    have hnot := hless k hk
    rw [Bool.not_eq_true', ← Bool.not_eq_true, unmapped_iff] at hnot
    push Not at hnot
    exact hnot
  · rintro ⟨hi, hclear, hless⟩
    refine ⟨hclear, hi, fun k hk => ?_⟩
    obtain ⟨j, hj, hne⟩ := hless k hk
    rw [Bool.not_eq_true', ← Bool.not_eq_true, unmapped_iff]
    exact fun hall => hne (hall j hj)

/-- **The search** finds the first range, or leaves the state alone. -/
theorem alloc_cases (s : State) (count : U32) :
    (∃ i, FirstRange s count i ∧
      pagingAllocPages s count = mapPages s (pageAddr heapStart i) 0 count.toNat) ∨
    ((∀ i, ¬ FirstRange s count i) ∧ pagingAllocPages s count = (0, s)) := by
  rcases search_cases s count with ⟨i, hi, he⟩ | ⟨hnone, he⟩
  · exact .inl ⟨i, find_unmapped.mp hi, he⟩
  · refine .inr ⟨fun i hi => ?_, he⟩
    rw [find_unmapped.mpr hi] at hnone
    cases hnone

theorem FirstRange.unique {count : U32} (h : FirstRange s count i) (h' : FirstRange s count j) :
    i = j :=
  Option.some_inj.mp ((find_unmapped.mpr h).symm.trans (find_unmapped.mpr h'))

theorem FirstRange.forall_iff {count : U32} (h : FirstRange s count i) (P : ℕ → Prop) :
    (∀ k, FirstRange s count k → P k) ↔ P i :=
  ⟨fun hall => hall i h, fun hi _ hk => h.unique hk ▸ hi⟩

/-! ### Successful allocations -/

/-- The `n` pages from `a` on lie in the heap and were not mapped in `t`, and in `t'` they are mapped to
distinct frames that were free in `t`. -/
structure Mapped (t t' : State) (a : U32) (n : ℕ) : Prop where
  window : 0xD0000000 ≤ a.toNat ∧ a.toNat + n * 4096 ≤ 0xE0000000
  absent : ∀ j < n, ¬ Present (entryOf t (pageAddr a j))
  present : ∀ j < n, Present (entryOf t' (pageAddr a j))
  fresh : ∀ j < n, Free t (pageNum (frameAt t' (pageAddr a j)))
  distinct : ∀ j < n, ∀ k < n, frameAt t' (pageAddr a j) = frameAt t' (pageAddr a k) → j = k

/-- An allocation that returns an address has mapped its pages. -/
def Allocates (t : State) (count : U32) : Prop := (pagingAllocPages t count).1 ≠ 0 →
  Mapped t (pagingAllocPages t count).2 (pagingAllocPages t count).1 count.toNat

/-- The first range lies in the heap and none of its pages is mapped (to frame 0), and if there are frames
for the pages and for the tables of all but the last, there is one for the table of the last page. -/
def Roomy (t : State) (count : U32) : Prop := ∀ i, FirstRange t count i → ¬ Free t 0 →
  count.toNat + tables t (pageAddr heapStart i) (count.toNat - 1) ≤ freeCount t →
  i + count.toNat ≤ 0x10000 ∧
    (∀ j < count.toNat, ¬ Present (entryOf t (pageAddr (pageAddr heapStart i) j))) ∧
    count.toNat + tables t (pageAddr heapStart i) count.toNat ≤ freeCount t

theorem frameAt_filled {f : ℕ → ℕ} (h : Filled t v n s f) (hj : j < n) :
    frameAt s (pageAddr v j) = pageOf (f j) := by
  rw [frameAt, h.mapped j hj, frameOf_heap]

theorem pageNum_filled {f : ℕ → ℕ} (h : Filled t v n s f) (hj : j < n) :
    pageNum (frameAt s (pageAddr v j)) = f j := by
  rw [frameAt_filled h hj, pageNum_pageOf (h.frame_lt hj)]

theorem Filled.get {f : ℕ → ℕ} (h : Filled t v n s f) (hv : InHeap v) (hj : j < n) :
    pagingGetPhysicalAddr s (pageAddr v j) = pageOf (f j) := by
  have hle := h.le
  rw [get_eq, h.mapped j hj, if_pos (present_heap (f j)), page_pageAddr hv (by omega), frameAt_filled h hj,
    BitVec.add_zero]

/-- The page whose frame was lost is not mapped. -/
theorem Lost.absent (h : Lost t v j s) : ¬ Present (entryOf s (pageAddr v j)) := by
  obtain ⟨r, f, p, hfill, hp, hno, -, rfl⟩ := h
  rw [entryOf_extends (hfill.wf.extends_taken hp), entryOf, entry, if_neg hno]
  exact not_present_zero

/-- **The pages** of a loop that went through are mapped as they should be exactly when they lie in the
heap, were not mapped, and there was a frame for the last table. -/
theorem Looped.mapped_iff (hi : i < 0x10000)
    (h : Looped t (pageAddr heapStart i) (n + 1) s) : Mapped t s (pageAddr heapStart i) (n + 1) ↔
      i + (n + 1) ≤ 0x10000 ∧ (∀ j < n + 1, ¬ Present (entryOf t (pageAddr (pageAddr heapStart i) j))) ∧
        n + 1 + tables t (pageAddr heapStart i) (n + 1) ≤ freeCount t := by
  have hstart := toNat_pageAddr_heapStart (show i ≤ 0x20000 by omega)
  constructor
  · intro hm
    have hwindow := hm.window.2
    rw [hstart] at hwindow
    refine ⟨by omega, hm.absent, ?_⟩
    rcases h with ⟨f, hfill⟩ | ⟨m, he, hlost⟩
    · exact hfill.free_le
    · exact absurd (hm.present m (by omega)) hlost.absent
  · rintro ⟨hwindow, habsent, hframes⟩
    obtain ⟨f, hfill⟩ := h.filled_of_frames hframes
    refine ⟨by omega, habsent, fun j hj => ?_, fun j hj => ?_, fun j hj k hk he => ?_⟩
    · rw [hfill.mapped j hj]
      exact present_heap (f j)
    · rw [pageNum_filled hfill hj]
      exact (hfill.fresh j hj).1
    · refine hfill.inj j hj k hk ?_
      rw [← pageNum_filled hfill hj, he, pageNum_filled hfill hk]

/-- Without a frame for its table the last page is not mapped. -/
theorem Looped.last_absent (h : Looped t v (n + 1) s)
    (hframes : freeCount t < n + 1 + tables t v (n + 1)) : ¬ Present (entryOf s (pageAddr v n)) := by
  rcases h with ⟨f, hfill⟩ | ⟨m, he, hlost⟩
  · exact absurd hfill.free_le (Nat.not_le.mpr hframes)
  · obtain rfl : m = n := Nat.succ_injective he
    exact hlost.absent

/-- **One allocation.** -/
theorem Wf.allocates_iff (ht : Wf t) {count : U32} (hcount : 0 < count.toNat) :
    Allocates t count ↔ Roomy t count := by
  obtain ⟨n, hn⟩ : ∃ n, count.toNat = n + 1 := ⟨count.toNat - 1, by omega⟩
  unfold Allocates Roomy
  rw [hn, Nat.add_sub_cancel]
  rcases alloc_cases t count with ⟨i, hi, he⟩ | ⟨hnone, he⟩
  · have hv := inHeap_pageAddr hi.1
    have hne := hv.ne_zero
    rw [he, hn, hi.forall_iff]
    by_cases hzero : Free t 0
    · rw [mapPages_of_zero ht hzero]
      exact iff_of_true (fun h => absurd rfl h) fun h => absurd hzero h
    · by_cases hframes : n + 1 + tables t (pageAddr heapStart i) n ≤ freeCount t
      · obtain ⟨s', hmap, hlooped⟩ := mapPages_of_frames ht hv hzero hframes
        rw [hmap, imp_iff_right hne, imp_iff_right hzero, imp_iff_right hframes]
        exact hlooped.mapped_iff hi.1
      · obtain ⟨k, s', -, hmap, -⟩ := mapPages_of_no_frames ht hv hzero hframes
        rw [hmap]
        exact iff_of_true (fun h => absurd rfl h) fun _ h => absurd h hframes
  · rw [he]
    exact iff_of_true (fun h => absurd rfl h) fun i hi => absurd hi (hnone i)

/-! ### Runs -/

/-- **Exactness.** In the states reached while the bitmap fits into its frame and no frame of the
structures is freed, an allocation that returns an address has mapped its pages exactly when there is room
for them. -/
theorem alloc_ok_iff {mem : Words} {memorySize : U32} (hfit : memorySize.toNat / 4096 ≤ 32768)
    {es : List Event} {t : State} (h : Run (total step) (start mem memorySize) es t)
    (ha : Along (total step) (Permits Spares fun _ _ => True) (start mem memorySize) es) (count : U32)
    (hcount : 1 ≤ count.toNat) : Allocates t count ↔ Roomy t count :=
  (wf_run hfit h ha).allocates_iff hcount

section Start

variable {mem : Words} {memorySize : U32} (hfit : (bitmapWords memorySize).toNat ≤ 1024)

include hfit

/-- After `paging_init` nothing is mapped above the two halves of the kernel. -/
theorem absent_start (hu : Above u) : ¬ Present (entryOf (start mem memorySize) u) := by
  have hu : 3225419776 ≤ u.toNat := hu
  have hd : ¬(dirIndex u = 0 ∨ dirIndex u = kernelPageNumber) := by
    rw [toNat_dirIndex]
    unfold kernelPageNumber
    omega
  rw [entryOf, entry_start hfit (dirIndex_lt u) (tableIndex_lt u), if_neg hd]
  exact not_present_zero

theorem no_table_start (hd : d < 1024) (hne : d ≠ 0 ∧ d ≠ kernelPageNumber) :
    ¬ Present ((start mem memorySize).pde d) := by
  rw [(agree_start hfit).pde d hd]
  exact fun hp => (present_unmarked hd hp).elim hne.1 hne.2

theorem firstRange_start {count : U32} (hcount : count.toNat ≤ 0x20000) :
    FirstRange (start mem memorySize) count 0 := by
  refine ⟨by decide, fun j hj => get_of_absent (absent_start hfit ?_), fun k hk =>
    absurd hk (Nat.not_lt_zero k)⟩
  exact above_pageAddr (inHeap_pageAddr (by decide)) (by omega)

theorem tables_start (hn : n ≤ 0x10000) :
    tables (start mem memorySize) (pageAddr heapStart 0) n = (n + 1023) / 1024 := by
  induction n with
  | zero => rfl
  | succ n ih =>
      have hno : ¬ Present ((start mem memorySize).pde (832 + n / 1024)) :=
        no_table_start hfit (by omega) (by unfold kernelPageNumber; omega)
      rw [tables_succ, ih (by omega), pageAddr_zero, dirIndex_heap (by omega)]
      by_cases hnew : n % 1024 = 0
      · rw [if_neg]
        · omega
        · rintro (hp | ⟨i, hi, he⟩)
          · exact hno hp
          · rw [dirIndex_heap (by omega)] at he
            omega
      · rw [if_pos]
        · omega
        · refine .inr ⟨n - 1, by omega, ?_⟩
          rw [dirIndex_heap (by omega)]
          omega

/-- The first allocation maps its pages if there are frames for them and for their tables. -/
theorem filled_first {count : U32} (hn : count.toNat = n + 1) (hle : n + 1 ≤ 0x10000)
    (hframes : n + 1 + (n + 1 + 1023) / 1024 ≤ freeCount (start mem memorySize)) :
    ∃ s f, pagingAllocPages (start mem memorySize) count = (heapStart, s) ∧
      Filled (start mem memorySize) heapStart (n + 1) s f := by
  have hzero : ¬ Free (start mem memorySize) 0 := fun hf =>
    absurd ((free_start hfit).mp hf).2 (by decide)
  have htables : tables (start mem memorySize) (pageAddr heapStart 0) (n + 1) = (n + 1 + 1023) / 1024 :=
    tables_start hfit hle
  have hless : tables (start mem memorySize) (pageAddr heapStart 0) n = (n + 1023) / 1024 :=
    tables_start hfit (by omega)
  have hfirst : FirstRange (start mem memorySize) count 0 := firstRange_start hfit (by omega)
  rw [pageAddr_zero] at htables hless
  obtain ⟨s, hmap, hlooped⟩ := mapPages_of_frames (wf_start hfit) inHeap_heapStart hzero (n := n) (by omega)
  obtain ⟨f, hfill⟩ := hlooped.filled_of_frames (by omega)
  refine ⟨s, f, ?_, hfill⟩
  rcases alloc_cases (start mem memorySize) count with ⟨i, hi, he⟩ | ⟨hnone, -⟩
  · rw [he, hi.unique hfirst, hn, pageAddr_zero, hmap]
  · exact absurd hfirst (hnone 0)

section Second

variable {f : ℕ → ℕ} (hfill : Filled (start mem memorySize) heapStart n s f)

include hfill

/-- Behind the pages of the first allocation nothing is mapped. -/
theorem Filled.absent_behind (hn : n ≤ i) (hi : i ≤ 0x20000) : ¬ Present (entryOf s (pageAddr heapStart i)) := by
  rw [hfill.other _ fun k hk => not_samePage_pageAddr inHeap_heapStart (by omega) hi (by omega)]
  exact absent_start hfit (above_pageAddr inHeap_heapStart hi)

theorem Filled.firstRange_behind {count : U32} (hcount : 0 < count.toNat) (hn : n < 0x10000)
    (hle : n + count.toNat ≤ 0x20000) : FirstRange s count n := by
  refine ⟨hn, fun j hj => ?_, fun k hk => ⟨0, hcount, ?_⟩⟩
  · rw [pageAddr_pageAddr]
    exact get_of_absent (hfill.absent_behind hfit (by omega) (by omega))
  · have hfree := (hfill.fresh k hk).1
    rw [pageAddr_zero, hfill.get inHeap_heapStart hk]
    exact pageOf_ne_zero (wf_start hfit) hfree fun hf => absurd ((free_start hfit).mp hf).2 (by decide)

end Second

end Start

/-- After one page has been allocated, with 8 MB of memory, there is room for 500 more. -/
theorem alloc_ok_second : Allocates (pagingAllocPages (start (fun _ => 0) 0x800000) 1).2 500 := by
  have hfit : (bitmapWords 0x800000).toNat ≤ 1024 := by decide
  have hfree : freeCount (start (fun _ => 0) 0x800000) = 1021 := (freeCount_start hfit).trans (by decide)
  have hpages : (500 : U32).toNat = 500 := rfl
  have hone : (1 : U32).toNat = 0 + 1 := rfl
  have hroom : 0 + 1 + (0 + 1 + 1023) / 1024 ≤ freeCount (start (fun _ => 0) 0x800000) := by omega
  obtain ⟨s, f, halloc, hfill⟩ := filled_first hfit hone (by decide) hroom
  have hiff := alloc_ok_iff (by decide) (run_one (start (fun _ => 0) 0x800000) (.alloc 1))
    (along_one trivial) 500 (by decide)
  simp only [step, halloc] at hiff ⊢
  refine hiff.mpr fun i hi _ _ => ?_
  obtain rfl : i = 1 := hi.unique (hfill.firstRange_behind hfit (by decide) (by decide) (by decide))
  have hcount := hfill.count
  have htables := tables_le s (pageAddr heapStart 1) 500
  have hfew := tables_le (start (fun _ => 0) 0x800000) heapStart (0 + 1)
  rw [hpages]
  refine ⟨by decide, fun j hj => ?_, by omega⟩
  rw [pageAddr_pageAddr]
  exact hfill.absent_behind hfit (by omega) (by omega)

/-- With 116 MB of memory the last frame goes to the last of 28673 pages, and there is none for its
table: the address of the pages is returned, and the last page is not mapped. -/
theorem last_page_unmapped :
    (pagingAllocPages (start (fun _ => 0) 0x7420000) 28673).1 = heapStart ∧
      ¬ Present (entryOf (pagingAllocPages (start (fun _ => 0) 0x7420000) 28673).2
        (pageAddr heapStart 28672)) ∧
      ¬ Allocates (start (fun _ => 0) 0x7420000) 28673 := by
  have hfit : (bitmapWords 0x7420000).toNat ≤ 1024 := by decide
  have hwf : Wf (start (fun _ => 0) 0x7420000) := wf_start hfit
  have hcount : freeCount (start (fun _ => 0) 0x7420000) = 28701 :=
    (freeCount_start hfit).trans (by decide)
  have hpages : (28673 : U32).toNat = 28672 + 1 := by decide
  have hbase : pageAddr heapStart 0 = heapStart := by decide
  have hfirst : FirstRange (start (fun _ => 0) 0x7420000) 28673 0 := firstRange_start hfit (by decide)
  have hzero : ¬ Free (start (fun _ => 0) 0x7420000) 0 := fun hf =>
    absurd ((free_start hfit).mp hf).2 (by decide)
  have htables : tables (start (fun _ => 0) 0x7420000) (pageAddr heapStart 0) 28672 =
      (28672 + 1023) / 1024 := tables_start hfit (by decide)
  have htables' : tables (start (fun _ => 0) 0x7420000) (pageAddr heapStart 0) (28672 + 1) =
      (28672 + 1 + 1023) / 1024 := tables_start hfit (by decide)
  obtain ⟨s', hmap, hlooped⟩ := mapPages_of_frames hwf (inHeap_pageAddr (show 0 < 0x10000 by decide))
    hzero (show 28672 + 1 + _ ≤ _ by omega)
  have halloc : pagingAllocPages (start (fun _ => 0) 0x7420000) 28673 = (pageAddr heapStart 0, s') := by
    rcases alloc_cases (start (fun _ => 0) 0x7420000) 28673 with ⟨i, hi, he⟩ | ⟨hnone, -⟩
    · obtain rfl := hi.unique hfirst
      rw [he, hpages, hmap]
    · exact absurd hfirst (hnone 0)
  have habsent := hlooped.last_absent (show _ < 28672 + 1 + _ by omega)
  have hresult : (pagingAllocPages (start (fun _ => 0) 0x7420000) 28673).1 = heapStart := by
    rw [halloc, hbase]
  have hlast : ¬ Present (entryOf (pagingAllocPages (start (fun _ => 0) 0x7420000) 28673).2
      (pageAddr heapStart 28672)) := by
    rw [halloc, ← hbase]
    exact habsent
  refine ⟨hresult, hlast, fun hall => hlast ?_⟩
  have hmapped := hall (by rw [hresult]; decide)
  rw [hresult] at hmapped
  exact hmapped.present 28672 (by decide)

end BloodKernel.Paging
