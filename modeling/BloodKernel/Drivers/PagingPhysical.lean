import BloodKernel.Drivers.PagingAlloc

set_option autoImplicit false

/-!
# Physical addresses of allocated pages

The heap starts at 0xD0000000, and the bitmap covers frames of the first 128 MB only. The allocator hands
out the free frames in their order, to the pages of a range and to the page tables that are missing.

* `Low`, `Grown`: a page whose frame, if it has one, is below 128 MB, and successful allocations;
  **`Wf.grown_alloc`**: they leave such pages as they are, and their own pages are such;
* `Room`, `Room.alloc`: allocations succeed while there is room;
* `Ranked`, `InOrder`: which frames are left, and which ones the pages of a range have;
* **`Wf.contiguous_iff`**: the pages of a range have consecutive frames exactly when the free frames before
  are consecutive, and all page tables but that of the last page are there.
-/

namespace BloodKernel.Paging

open Lib

variable {s s' t : State} {v x : U32} {i j k n p : ℕ} {count : U32}

/-! ### Successful allocations -/

theorem Wf.alloc_looped (ht : Wf t) (hn : count.toNat = n + 1) (ha : pagingAllocPages t count = (v, s))
    (hne : v ≠ 0) : ∃ i, FirstRange t count i ∧ v = pageAddr heapStart i ∧ ¬ Free t 0 ∧
      mapPages t v 0 (n + 1) = (v, s) ∧ Looped t v (n + 1) s := by
  rcases alloc_cases t count with ⟨i, hi, he⟩ | ⟨-, he⟩
  · have hv := inHeap_pageAddr hi.1
    rw [ha, hn] at he
    by_cases hzero : Free t 0
    · rw [mapPages_of_zero ht hzero] at he
      exact absurd (Prod.mk.inj he).1 hne
    · by_cases hframes : n + 1 + tables t (pageAddr heapStart i) n ≤ freeCount t
      · obtain ⟨s', hmap, hlooped⟩ := mapPages_of_frames ht hv hzero hframes
        rw [hmap] at he
        obtain ⟨rfl, rfl⟩ := Prod.mk.inj he
        exact ⟨i, hi, rfl, hzero, hmap, hlooped⟩
      · obtain ⟨k, s', -, hmap, -⟩ := mapPages_of_no_frames ht hv hzero hframes
        rw [hmap] at he
        exact absurd (Prod.mk.inj he).1 hne
  · rw [ha] at he
    exact absurd (Prod.mk.inj he).1 hne

theorem Looped.entry_other (h : Looped t v n s) (hx : ∀ i < n, ¬ SamePage (pageAddr v i) x) :
    entryOf s x = entryOf t x := by
  rcases h with ⟨f, hfill⟩ | ⟨m, rfl, r, f, p, hfill, hp, -, -, rfl⟩
  · exact hfill.other x hx
  · rw [entryOf_extends (hfill.wf.extends_taken hp)]
    exact hfill.other x fun i hi => hx i (hi.trans m.lt_succ_self)

theorem Looped.entry_range (h : Looped t v n s) (hj : j < n) :
    ¬ Present (entryOf s (pageAddr v j)) ∨
      ∃ p, Free t p ∧ entryOf s (pageAddr v j) = pageOf p ||| heapFlags := by
  rcases h with ⟨f, hfill⟩ | ⟨m, rfl, hlost⟩
  · exact .inr ⟨f j, (hfill.fresh j hj).1, hfill.mapped j hj⟩
  · rcases Nat.lt_succ_iff_lt_or_eq.mp hj with hlt | rfl
    · obtain ⟨r, f, p, hfill, hp, -, -, rfl⟩ := hlost
      rw [entryOf_extends (hfill.wf.extends_taken hp)]
      exact .inr ⟨f j, (hfill.fresh j hlt).1, hfill.mapped j hlt⟩
    · exact .inl hlost.absent

/-! ### Low frames -/

/-- The frame of the page of `v`, if it has one, is below 128 MB. -/
def Low (s : State) (v : U32) : Prop := Present (entryOf s v) → (frameAt s v).toNat < 0x8000000

theorem Low.get_lt (h : Low s v) : (pagingGetPhysicalAddr s v).toNat < 0x80000000 := by
  rw [get_eq]
  split_ifs with hp
  · have hlow := h hp
    rw [BitVec.toNat_add, BitVec.toNat_ofNat]
    omega
  · decide

theorem Low.of_entry (h : Low s v) (he : entryOf s' x = entryOf s v) : Low s' x := by
  unfold Low frameAt
  rw [he]
  exact h

theorem Wf.low_of_free (h : Wf t) (hp : Free t p) (he : entryOf s v = pageOf p ||| heapFlags) :
    Low s v := fun _ => by
  have hlt := hp.1
  have hsize := h.size
  rw [frameAt, he, frameOf_heap, toNat_pageOf (h.lt_of_free hp)]
  omega

/-- From `t` to `s` pages have been allocated: low frames stay low, and pages with physical addresses keep
them. -/
structure Grown (t s : State) : Prop where
  wf : Wf s
  low : ∀ x, Low t x → Low s x
  keeps : ∀ x, x.toNat % 4096 = 0 → pagingGetPhysicalAddr t x ≠ 0 →
    pagingGetPhysicalAddr s x = pagingGetPhysicalAddr t x

theorem Wf.grown (h : Wf t) : Grown t t := ⟨h, fun _ => id, fun _ _ _ => rfl⟩

theorem Grown.trans (h : Grown t s) (h' : Grown s s') : Grown t s' := by
  refine ⟨h'.wf, fun x hx => h'.low x (h.low x hx), fun x hpage hx => ?_⟩
  have hkeep := h.keeps x hpage hx
  rw [h'.keeps x hpage (by rwa [hkeep]), hkeep]

/-- An address of the heap, or behind it, whose page has a low frame, or none. -/
structure Remote (s : State) (v : U32) : Prop where
  high : 0xD0000000 ≤ v.toNat
  low : Low s v

section Alloc

variable (ht : Wf t) (hcount : 0 < count.toNat) (ha : pagingAllocPages t count = (v, s)) (hne : v ≠ 0)

include ht hcount ha hne

/-- **One allocation** that returns an address. -/
theorem Wf.grown_alloc :
    Grown t s ∧ ∀ k < count.toNat * 4096, Remote s (v + BitVec.ofNat 32 k) := by
  obtain ⟨n, hn⟩ : ∃ n, count.toNat = n + 1 := ⟨count.toNat - 1, by omega⟩
  obtain ⟨i, hi, rfl, -, -, hlooped⟩ := ht.alloc_looped hn ha hne
  have hv := inHeap_pageAddr hi.1
  have hle := (hlooped.free_le).trans (freeCount_le ht)
  have hlow : ∀ j < n + 1, Low s (pageAddr (pageAddr heapStart i) j) := fun j hj => by
    rcases hlooped.entry_range hj with habsent | ⟨p, hp, hnew⟩
    · exact fun hp => absurd hp habsent
    · exact ht.low_of_free hp hnew
  have hpages : ∀ j < n + 1, (pageAddr (pageAddr heapStart i) j).toNat % 4096 = 0 := fun j hj =>
    page_pageAddr hv (by omega)
  refine ⟨⟨hlooped.wf, fun x hx => ?_, fun x hpage hx => get_of_entry ?_⟩, fun k hk => ?_⟩
  · by_cases hsame : ∃ j < n + 1, SamePage (pageAddr (pageAddr heapStart i) j) x
    · obtain ⟨j, hj, hsame⟩ := hsame
      exact (hlow j hj).of_entry (entryOf_samePage hsame)
    · push Not at hsame
      exact hx.of_entry (hlooped.entry_other hsame)
  · -- the pages of the range had no physical addresses
    refine hlooped.entry_other fun j hj hsame => hx ?_
    have hval : (pageAddr (pageAddr heapStart i) j).toNat / 4096 = x.toNat / 4096 := hsame
    have heq : x = pageAddr (pageAddr heapStart i) j := BitVec.eq_of_toNat_eq (by
      have := hpages j hj
      omega)
    rw [heq]
    exact hi.2.1 j (by omega)
  · have hj : k / 4096 < n + 1 := by omega
    have hpage := hv.page
    have hge := hv.ge
    have hlt := hv.lt
    have hval : (pageAddr heapStart i + BitVec.ofNat 32 k).toNat =
        (pageAddr heapStart i).toNat + k := by
      rw [BitVec.toNat_add, BitVec.toNat_ofNat]
      omega
    have hsame : SamePage (pageAddr (pageAddr heapStart i) (k / 4096))
        (pageAddr heapStart i + BitVec.ofNat 32 k) := by
      unfold SamePage
      rw [hval, toNat_pageAddr hv (show k / 4096 ≤ 0x20000 by omega)]
      omega
    exact ⟨hval.ge.trans' (hge.trans (Nat.le_add_right _ _)), (hlow _ hj).of_entry (entryOf_samePage hsame)⟩

theorem Wf.remote_alloc : Remote s v := by
  rw [← BitVec.add_zero v]
  exact (ht.grown_alloc hcount ha hne).2 0 (by omega)

omit hcount in
theorem Wf.pageStart_alloc (hn : count ≠ 0) : PageStart v := by
  have hpos : 0 < count.toNat := Nat.pos_of_ne_zero fun h0 => hn (BitVec.eq_of_toNat_eq h0)
  obtain ⟨i, hi, rfl, -, -, -⟩ := ht.alloc_looped (Nat.succ_pred_eq_of_pos hpos).symm ha hne
  exact (inHeap_pageAddr hi.1).page

end Alloc

theorem Grown.alloc (h : Grown t s) (hcount : 0 < count.toNat) (ha : pagingAllocPages s count = (v, s'))
    (hne : v ≠ 0) : Grown t s' := h.trans (h.wf.grown_alloc hcount ha hne).1

theorem Remote.grown (h : Remote t v) (hs : Grown t s) : Remote s v := ⟨h.high, hs.low v h.low⟩

/-! ### Room -/

/-- From page `m` of the heap on nothing is mapped, page 0 is not free, and `c` pages are. -/
structure Room (s : State) (m c : ℕ) : Prop where
  wf : Wf s
  zero : ¬ Free s 0
  absent : ∀ k, m ≤ k → k < 0x10000 → ¬ Present (entryOf s (pageAddr heapStart k))
  free : c ≤ freeCount s

theorem pageAddr_add (v : U32) (i j : ℕ) : pageAddr (pageAddr v i) j = pageAddr v (i + j) := by
  rw [pageAddr, pageAddr, pageAddr, BitVec.ofNat_add, BitVec.add_mul, BitVec.add_assoc]

theorem Room.exists_range {m c : ℕ} (h : Room s m c) (hpos : 0 < count.toNat)
    (hm : m + count.toNat ≤ 0x10000) : ∃ i ≤ m, FirstRange s count i := by
  have hclear : ∀ j < count.toNat, pagingGetPhysicalAddr s (pageAddr (pageAddr heapStart m) j) = 0 := by
    intro j hj
    rw [pageAddr_add]
    exact get_of_absent (h.absent _ (Nat.le_add_right m j) (by omega))
  have hsome : ((List.range 0x10000).find? fun i => unmapped s (pageAddr heapStart i) count).isSome :=
    List.find?_isSome.mpr ⟨m, List.mem_range.mpr (by omega), unmapped_iff.mpr hclear⟩
  obtain ⟨i, hi⟩ := Option.isSome_iff_exists.mp hsome
  have hfirst := find_unmapped.mp hi
  refine ⟨i, Nat.le_of_not_lt fun hlt => ?_, hfirst⟩
  obtain ⟨j, hj, hne⟩ := hfirst.2.2 m hlt
  exact hne (hclear j hj)

/-- **While there is room** for twice the pages, an allocation succeeds, and leaves room. -/
theorem Room.alloc {m c : ℕ} (h : Room s m c) (hpos : 0 < count.toNat) (hm : m + count.toNat ≤ 0x10000)
    (hc : 2 * count.toNat ≤ c) : ∃ v s', pagingAllocPages s count = (v, s') ∧ v ≠ 0 ∧
      Room s' (m + count.toNat) (c - 2 * count.toNat) := by
  obtain ⟨n, hn⟩ : ∃ n, count.toNat = n + 1 := ⟨count.toNat - 1, by omega⟩
  obtain ⟨i, him, hi⟩ := h.exists_range hpos hm
  have hv := inHeap_pageAddr hi.1
  have htables : tables s (pageAddr heapStart i) (n + 1) ≤ n + 1 := tables_le s _ _
  have hmono := tables_mono s (pageAddr heapStart i) (Nat.le_add_right n 1)
  have hfree := h.free
  obtain ⟨s', hmap, hlooped⟩ := mapPages_of_frames h.wf hv h.zero (show n + 1 + tables s _ n ≤ _ by omega)
  have he : pagingAllocPages s count = (pageAddr heapStart i, s') := by
    rcases alloc_cases s count with ⟨k, hk, he⟩ | ⟨hnone, -⟩
    · obtain rfl := hi.unique hk
      rw [he, hn, hmap]
    · exact absurd hi (hnone i)
  obtain ⟨f, hfill⟩ := hlooped.filled_of_frames (by omega)
  have hcount := hfill.count
  have hleft : c - 2 * (n + 1) ≤ freeCount s' := by omega
  rw [hn]
  refine ⟨_, s', he, hv.ne_zero, hfill.wf, fun hf => h.zero (hfill.free 0 hf), fun k hk hlt => ?_, hleft⟩
  rw [hfill.other]
  · exact h.absent k (by omega) hlt
  · intro j hj
    rw [pageAddr_add, samePage_pageAddr inHeap_heapStart (by omega) (by omega)]
    omega

theorem room_start {mem : Words} {memorySize : U32} (hfit : (bitmapWords memorySize).toNat ≤ 1024) :
    Room (start mem memorySize) 0 (32 * (bitmapWords memorySize).toNat - 1027) where
  wf := wf_start hfit
  zero hf := absurd ((free_start hfit).mp hf).2 (by decide)
  absent k _ hk := absent_start hfit (above_pageAddr inHeap_heapStart (by omega))
  free := (freeCount_start hfit).ge

/-! ### The frames of a range -/

/-- The free pages of `s` are those of `t` but for the first `k`. -/
def Ranked (t s : State) (k : ℕ) : Prop := ∀ q, Free s q ↔ Free t q ∧ k ≤ Nat.count (Free t) q

theorem ranked_zero (t : State) : Ranked t t 0 := fun _ => (and_iff_left (Nat.zero_le _)).symm

theorem Ranked.least (h : Ranked t s k) (hp : Free s p) (hless : ∀ q < p, ¬ Free s q) :
    Free t p ∧ Nat.count (Free t) p = k := ⟨((h p).mp hp).1, count_of_least h hp hless⟩

theorem Ranked.erase (h : Ranked t s k) (hp : Free s p) (hless : ∀ q < p, ¬ Free s q)
    (hs : ∀ q, Free s' q ↔ Free s q ∧ q ≠ p) : Ranked t s' (k + 1) :=
  rank_erase h (h.least hp hless).1 (h.least hp hless).2 hs

theorem Ranked.congr (h : Ranked t s k) (hs : ∀ q, Free s' q ↔ Free s q) : Ranked t s' k :=
  fun q => (hs q).trans (h q)

/-- Mapping a page takes the first free page, and the next one for a missing table. -/
theorem Ranked.map_heap (h : Wf s) (hzero : ¬ Free s 0) (hr : Ranked t s k) (hp : Free s p)
    (hless : ∀ q < p, ¬ Free s q)
    (hm : MapsTo s (pagingMapPage (taken s p) v (pageOf p) heapFlags).2 v p) :
    Ranked t (pagingMapPage (taken s p) v (pageOf p) heapFlags).2
      (k + 1 + if Present (s.pde (dirIndex v)) then 0 else 1) := by
  have hd := dirIndex_lt v
  have hwf := h.taken hp
  have hpde : (taken s p).pde (dirIndex v) = s.pde (dirIndex v) := (h.agree_taken hp).pde _ hd
  have htaken : Ranked t (taken s p) (k + 1) := hr.erase hp hless fun _ => h.free_taken hp
  by_cases hpres : Present (s.pde (dirIndex v))
  · have hpres' : Present ((taken s p).pde (dirIndex v)) := by rwa [hpde]
    rw [if_pos hpres, Nat.add_zero, map_of_present hpres']
    exact htaken.congr fun _ => hwf.free_setEntry hpres' _
  · have hpres' : ¬ Present ((taken s p).pde (dirIndex v)) := by rwa [hpde]
    rcases hwf.alloc_eq with ⟨q, hq, hless', he⟩ | ⟨hnone, he⟩
    · have hne : pageOf q ≠ 0 := pageOf_ne_zero h ((h.free_taken hp).mp hq).1 hzero
      rw [if_neg hpres, map_of_alloc hpres' he hne]
      refine Ranked.congr (s := newTable (taken s p) q (dirIndex v)) ?_ fun _ =>
        (hwf.newTable hq hd hpres').free_setEntry (hwf.present_newTable hq hd) _
      exact htaken.erase hq hless' fun _ => hwf.free_newTable hq hd
    · -- without a frame for the table the page would not have been mapped
      have hcount := hm.count
      rw [if_neg hpres] at hcount
      have := freeCount_taken h hp
      rw [freeCount_eq_zero hnone] at this
      omega

/-- From `t` to `s` the first `j` pages from `v` on have been mapped to the free frames in their order. -/
structure InOrder (t : State) (v : U32) (j : ℕ) (s : State) : Prop where
  ranked : Ranked t s (j + tables t v j)
  frames : ∀ i < j, Free t (pageNum (frameAt s (pageAddr v i))) ∧
    Nat.count (Free t) (pageNum (frameAt s (pageAddr v i))) = i + tables t v i

theorem inOrder_zero (t : State) (v : U32) : InOrder t v 0 t :=
  ⟨ranked_zero t, fun i hi => absurd hi (Nat.not_lt_zero i)⟩

/-- **One more page.** -/
theorem InOrder.next {f : ℕ → ℕ} (hzero : ¬ Free t 0) (hv : InHeap v) (hfill : Filled t v j s f)
    (h : InOrder t v j s) (hp : Free s p) (hless : ∀ q < p, ¬ Free s q)
    (hm : MapsTo s (pagingMapPage (taken s p) (pageAddr v j) (pageOf p) heapFlags).2 (pageAddr v j) p) :
    InOrder t v (j + 1) (pagingMapPage (taken s p) (pageAddr v j) (pageOf p) heapFlags).2 := by
  have hj := hfill.le
  have hranked := h.ranked.map_heap hfill.wf (fun hf => hzero (hfill.free 0 hf)) hp hless hm
  rw [if_congr (hfill.present _ (dirIndex_lt _)) rfl rfl] at hranked
  refine ⟨?_, fun i hi => ?_⟩
  · rw [tables_succ]
    convert hranked using 1
    omega
  · rcases Nat.lt_succ_iff_lt_or_eq.mp hi with hlt | rfl
    · have hne : ¬ SamePage (pageAddr v j) (pageAddr v i) :=
        not_samePage_pageAddr hv (by omega) (by omega) (Nat.ne_of_gt hlt)
      rw [frameAt, hm.entry, if_neg hne]
      exact h.frames i hlt
    · have hsame : SamePage (pageAddr v i) (pageAddr v i) := rfl
      rw [frameAt, hm.entry, if_pos hsame, frameOf_heap, pageNum_pageOf (hfill.wf.lt_of_free hp)]
      exact h.ranked.least hp hless

/-- **The loop** that goes through hands out the frames in their order. -/
theorem mapPages_inOrder {f : ℕ → ℕ} {r : U32} (hzero : ¬ Free t 0) (hv : InHeap v) (hr : r ≠ 0)
    (hfill : Filled t v j s f) (h : InOrder t v j s) (hmap : mapPages s v j n = (r, s')) :
    ((∃ f, Filled t v (j + n) s' f) ∧ InOrder t v (j + n) s') ∨
      ∃ m, m + 1 = j + n ∧ Lost t v m s' := by
  induction n generalizing j s f with
  | zero =>
      obtain ⟨-, rfl⟩ := Prod.mk.inj hmap
      exact .inl ⟨⟨f, hfill⟩, h⟩
  | succ n ih =>
      have hadd : j + (n + 1) = j + 1 + n := by omega
      rw [mapPages] at hmap
      rcases hfill.wf.alloc_eq with ⟨p, hp, hless, he⟩ | ⟨-, he⟩
      · have hzero' : ¬ Free s 0 := fun hf => hzero (hfill.free 0 hf)
        have hj := hfill.le
        rw [he, if_neg (pageOf_ne_zero hfill.wf hp hzero')] at hmap
        rw [hadd]
        rcases map_heap hfill.wf hzero' hp (above_pageAddr hv (show j ≤ 0x20000 by omega)) with
          hm | ⟨hno, hone, hlost⟩
        · exact ih (hfill.next hv hp hm) (h.next hzero hv hfill hp hless hm) hmap
        · -- no frame is left, so this was the last page
          change mapPages (pagingMapPage (taken s p) (pageAddr v j) (pageOf p) heapFlags).2 v (j + 1) n
            = _ at hmap
          rw [hlost] at hmap
          have hgone : Lost t v j (taken s p) := ⟨s, f, p, hfill, hp, hno, hone, rfl⟩
          cases n with
          | zero =>
              obtain ⟨-, rfl⟩ := Prod.mk.inj hmap
              exact .inr ⟨j, rfl, hgone⟩
          | succ n =>
              rcases (hfill.wf.taken hp).alloc_eq with ⟨q, hq, -, -⟩ | ⟨-, he'⟩
              · have := freeCount_pos hq
                rw [hgone.freeCount_eq] at this
                omega
              · rw [mapPages, he', if_pos rfl] at hmap
                exact absurd (Prod.mk.inj hmap).1.symm hr
      · rw [he, if_pos rfl] at hmap
        exact absurd (Prod.mk.inj hmap).1.symm hr

/-! ### Consecutive frames -/

/-- The pages from `a` on have consecutive frames. -/
def Contiguous (s : State) (a : U32) (n : ℕ) : Prop := ∀ j < n,
  pagingGetPhysicalAddr s (pageAddr a j) = pageAddr (pagingGetPhysicalAddr s a) j

/-- For the range that is found the page tables of all pages but the last are there, the first free frames are
consecutive, and they suffice for the pages and the last table. -/
def Consecutive (t : State) (count : U32) : Prop := ∀ i, FirstRange t count i →
  (∀ j < count.toNat - 1, Present (t.pde (dirIndex (pageAddr (pageAddr heapStart i) j)))) ∧
    count.toNat + tables t (pageAddr heapStart i) count.toNat ≤ freeCount t ∧
    ∃ p, (∀ q < p, ¬ Free t q) ∧ ∀ j < count.toNat, Free t (p + j)

theorem pageAddr_pageOf (hp : p + j < 2 ^ 20) : pageAddr (pageOf p) j = pageOf (p + j) := by
  have h4096 : (4096 : U32).toNat = 4096 := rfl
  apply BitVec.eq_of_toNat_eq
  rw [pageAddr, BitVec.toNat_add, BitVec.toNat_mul, BitVec.toNat_ofNat, h4096,
    toNat_pageOf (by omega), toNat_pageOf hp]
  omega

theorem pageOf_inj {q : ℕ} (hp : p < 2 ^ 20) (hq : q < 2 ^ 20) : pageOf p = pageOf q ↔ p = q := by
  refine ⟨fun he => ?_, fun he => by rw [he]⟩
  rw [← pageNum_pageOf hp, he, pageNum_pageOf hq]

/-- The frames of the pages are consecutive exactly when they were the first free ones and no table was
allocated between them. -/
theorem InOrder.contiguous_iff {f : ℕ → ℕ} (hv : InHeap v) (hfill : Filled t v (n + 1) s f)
    (h : InOrder t v (n + 1) s) : Contiguous s v (n + 1) ↔
      tables t v n = 0 ∧ ∃ p, (∀ q < p, ¬ Free t q) ∧ ∀ j < n + 1, Free t (p + j) := by
  have hframes : ∀ j < n + 1, Free t (f j) ∧ Nat.count (Free t) (f j) = j + tables t v j := fun j hj => by
    have hj' := h.frames j hj
    rwa [pageNum_filled hfill hj] at hj'
  have hnone : tables t v 0 = 0 := rfl
  have hcont : Contiguous s v (n + 1) ↔ ∀ j < n + 1, f j = f 0 + j := by
    refine forall₂_congr fun j hj => ?_
    have hlt := hfill.frame_add_lt n.succ_pos hj.le
    have hget := hfill.get hv n.succ_pos
    rw [pageAddr_zero] at hget
    rw [hfill.get hv hj, hget, pageAddr_pageOf hlt, pageOf_inj (hfill.frame_lt hj) hlt]
  rw [hcont]
  constructor
  · intro hall
    have hfirst : Nat.count (Free t) (f 0) = 0 := (hframes 0 n.succ_pos).2
    have hlast := (hframes n n.lt_succ_self).2
    have hle := Nat.count_le (p := fun k => Free t (f 0 + k)) (n := n)
    rw [hall n n.lt_succ_self, Nat.count_add, hfirst] at hlast
    refine ⟨by omega, f 0, Nat.count_iff_forall_not.mp hfirst, fun j hj => ?_⟩
    rw [← hall j hj]
    exact (hframes j hj).1
  · rintro ⟨htables, p, hless, hfree⟩
    have hrank : ∀ j < n + 1, f j = p + j := fun j hj => by
      have hzero : tables t v j = 0 := Nat.le_zero.mp (htables ▸ tables_mono t v (Nat.le_of_lt_succ hj))
      have hcount : Nat.count (Free t) (p + j) = j := by
        rw [Nat.count_add, Nat.count_iff_forall_not.mpr hless, Nat.zero_add]
        exact Nat.count_iff_forall.mpr fun k hk => hfree k (hk.trans hj)
      refine Nat.count_injective (hframes j hj).1 (hfree j hj) ?_
      rw [(hframes j hj).2, hzero, hcount, Nat.add_zero]
    exact fun j hj => by rw [hrank j hj, hrank 0 n.succ_pos, Nat.add_zero]

/-- If the last page is not mapped, the pages are not contiguous. -/
theorem Lost.not_contiguous (hv : InHeap v) (h : Lost t v (n + 1) s) : ¬ Contiguous s v (n + 2) := by
  intro hall
  have hlast := hall (n + 1) (Nat.lt_succ_self _)
  rw [get_of_absent h.absent] at hlast
  obtain ⟨r, f, p, hfill, hp, -, -, rfl⟩ := h
  have hget : pagingGetPhysicalAddr (taken r p) v = pageOf (f 0) := by
    have he := hfill.get hv n.succ_pos
    rw [pageAddr_zero] at he
    rw [← he]
    exact get_of_entry (entryOf_extends (hfill.wf.extends_taken hp) v)
  have hlt := hfill.frame_add_lt n.succ_pos le_rfl
  have hval := congrArg BitVec.toNat hlast
  rw [hget, pageAddr_pageOf hlt, toNat_pageOf hlt] at hval
  change 0 = _ at hval
  omega

/-- **Contiguity** of an allocation of at least two pages. -/
theorem Wf.contiguous_iff (ht : Wf t) (hcount : 2 ≤ count.toNat)
    (ha : pagingAllocPages t count = (v, s)) (hne : v ≠ 0) :
    Contiguous s v count.toNat ↔ Consecutive t count := by
  obtain ⟨n, hn⟩ : ∃ n, count.toNat = n + 2 := ⟨count.toNat - 2, by omega⟩
  obtain ⟨i, hi, rfl, hzero, hmap, hlooped⟩ := ht.alloc_looped hn ha hne
  have hv := inHeap_pageAddr hi.1
  have hpred : n + 2 - 1 = n + 1 := rfl
  rw [Consecutive, hi.forall_iff, hn, hpred, ← tables_eq_zero]
  rcases mapPages_inOrder hzero hv hne (filled_zero ht _ fun _ => 0) (inOrder_zero t _) hmap with
    ⟨⟨f, hfill⟩, horder⟩ | ⟨m, hm, hlost⟩
  · rw [Nat.zero_add] at hfill horder
    rw [horder.contiguous_iff hv hfill]
    exact and_congr_right fun _ => (and_iff_right hfill.free_le).symm
  · obtain rfl : m = n + 1 := by omega
    refine iff_of_false (hlost.not_contiguous hv) fun h => ?_
    obtain ⟨hused, htables⟩ := hlost.count
    have hframes : n + 2 + tables t (pageAddr heapStart i) (n + 2) ≤ freeCount t := h.2.1
    change tables t (pageAddr heapStart i) (n + 2) = _ at htables
    omega

theorem Wf.free_alloc (ht : Wf t) (hcount : 0 < count.toNat) (ha : pagingAllocPages t count = (v, s))
    (hne : v ≠ 0) : 0 < freeCount t := by
  obtain ⟨i, -, -, -, -, hlooped⟩ := ht.alloc_looped (Nat.succ_pred_eq_of_pos hcount).symm ha hne
  have := hlooped.free_le
  omega

section Left

variable (ht : Wf t) (hcount : 0 < count.toNat) (ha : pagingAllocPages t count = (v, s)) (hne : v ≠ 0)
  (hfree : 0 < freeCount s)

include ht hcount ha hne hfree

/-- If a free page is left, all pages of the range are mapped. -/
theorem Wf.filled_alloc : ¬ Free t 0 ∧ InHeap v ∧ ∃ f, Filled t v count.toNat s f ∧ InOrder t v count.toNat s := by
  obtain ⟨n, hn⟩ : ∃ n, count.toNat = n + 1 := ⟨count.toNat - 1, by omega⟩
  obtain ⟨i, hi, rfl, hzero, hmap, -⟩ := ht.alloc_looped hn ha hne
  have hv := inHeap_pageAddr hi.1
  refine ⟨hzero, hv, ?_⟩
  rw [hn]
  rcases mapPages_inOrder hzero hv hne (filled_zero ht _ fun _ => 0) (inOrder_zero t _) hmap with
    ⟨⟨f, hfill⟩, horder⟩ | ⟨m, -, hlost⟩
  · rw [Nat.zero_add] at hfill horder
    exact ⟨f, hfill, horder⟩
  · have := hlost.freeCount_eq
    omega

theorem Wf.contiguous_grown (hs : Grown s s') :
    Contiguous s' v count.toNat ↔ Contiguous s v count.toNat := by
  obtain ⟨hzero, hv, f, hfill, -⟩ := ht.filled_alloc hcount ha hne hfree
  have hget : ∀ j < count.toNat, pagingGetPhysicalAddr s' (pageAddr v j) =
      pagingGetPhysicalAddr s (pageAddr v j) := fun j hj => by
    have hle := hfill.le
    refine hs.keeps _ (page_pageAddr hv (by omega)) ?_
    rw [hfill.get hv hj]
    exact pageOf_ne_zero ht (hfill.fresh j hj).1 hzero
  have hfirst := hget 0 hcount
  rw [pageAddr_zero] at hfirst
  exact forall₂_congr fun j hj => by rw [hget j hj, hfirst]

theorem Wf.get_first (hs : Grown s s') (hp : Free t p) (hless : ∀ q < p, ¬ Free t q) :
    pagingGetPhysicalAddr s' v = pageOf p := by
  obtain ⟨hzero, hv, f, hfill, horder⟩ := ht.filled_alloc hcount ha hne hfree
  have hrank := horder.frames 0 hcount
  rw [pageNum_filled hfill hcount] at hrank
  have hfirst : f 0 = p := by
    refine Nat.count_injective hrank.1 hp ?_
    rw [hrank.2, Nat.count_iff_forall_not.mpr hless]
    rfl
  have hget := hfill.get hv hcount
  rw [pageAddr_zero, hfirst] at hget
  rw [hs.keeps v hv.page (by rw [hget]; exact pageOf_ne_zero ht hp hzero), hget]

end Left

end BloodKernel.Paging
