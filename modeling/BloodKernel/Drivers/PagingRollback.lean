import BloodKernel.Drivers.PagingAlloc

set_option autoImplicit false

/-!
# Failed allocations

When no frame is left `paging_alloc_pages` unmaps the pages mapped so far and returns 0. The page tables
allocated for them stay, and so does a frame whose page could not be mapped.

* `Holds`, `unmapPages_spec`: unmapping the first pages of a range that are mapped to frames of their own;
* `Looped.unchanged_iff`: the state after the clean-up;
* **`failure_unchanged_iff`**: a failed allocation changes neither a translation nor the free memory exactly
  when it found no range, or page 0 is not free and the pages that it had frames for were not mapped and had
  their tables.
-/

namespace BloodKernel.Paging

open Lib

variable {s t : State} {v x : U32} {i j k m n : ℕ} {f : ℕ → ℕ}

/-! ### Unmapping -/

/-- The first `k` pages from `v` on are mapped to distinct frames, which are not free and not those of
structures. -/
structure Holds (s : State) (v : U32) (k : ℕ) (f : ℕ → ℕ) : Prop where
  wf : Wf s
  mapped : ∀ i < k, entryOf s (pageAddr v i) = pageOf (f i) ||| heapFlags
  tracked : ∀ i < k, f i < 32 * s.bitmapSize.toNat
  used : ∀ i < k, ¬ Free s (f i)
  apart : ∀ i < k, ¬ Owns s (pageOf (f i))
  inj : ∀ i < k, ∀ j < k, f i = f j → i = j

theorem Filled.holds (h : Filled t v k s f) : Holds s v k f where
  wf := h.wf
  mapped := h.mapped
  tracked i hi := h.size.symm ▸ (h.fresh i hi).1.1
  used i hi := (h.fresh i hi).2
  apart := h.apart
  inj := h.inj

/-- Handing out another frame changes nothing. -/
theorem Holds.taken {p : ℕ} (h : Holds s v k f) (hp : Free s p) : Holds (taken s p) v k f where
  wf := h.wf.taken hp
  mapped i hi := (entryOf_extends (h.wf.extends_taken hp) _).trans (h.mapped i hi)
  tracked := h.tracked
  used i hi hf := h.used i hi ((h.wf.free_taken hp).mp hf).1
  apart i hi ho := h.apart i hi ((h.wf.agree_taken hp).owns.mp ho)
  inj := h.inj

/-- From `s` to `r` the first `m` pages from `v` on have been unmapped. -/
structure Cleared (s : State) (v : U32) (m : ℕ) (f : ℕ → ℕ) (r : State) : Prop where
  wf : Wf r
  size : r.bitmapSize = s.bitmapSize
  absent : ∀ i < m, entryOf r (pageAddr v i) = 0
  other : ∀ x, (∀ i < m, ¬ SamePage (pageAddr v i) x) → entryOf r x = entryOf s x
  free : ∀ q, Free r q ↔ Free s q ∨ ∃ i < m, f i = q
  owns : ∀ g, Owns r g ↔ Owns s g
  count : freeCount r = freeCount s + m

theorem Holds.lt (h : Holds s v k f) (hi : i < k) : f i < 2 ^ 20 := by
  have hlt := h.tracked i hi
  have hsize := h.wf.size
  omega

/-- **The clean-up** loop. -/
theorem unmapPages_spec (hv : InHeap v) (hk : k ≤ 0x20000) (h : Holds s v k f) (hm : m ≤ k) :
    Cleared s v m f (unmapPages s v m) := by
  induction m with
  | zero =>
      refine ⟨h.wf, rfl, fun i hi => absurd hi (Nat.not_lt_zero i), fun _ _ => rfl, fun q => ?_,
        fun _ => Iff.rfl, rfl⟩
      exact (or_iff_left fun ⟨i, hi, _⟩ => Nat.not_lt_zero i hi).symm
  | succ m ih =>
      have hc := ih (Nat.le_of_succ_le hm)
      have hne : ∀ i < m, ¬ SamePage (pageAddr v i) (pageAddr v m) := fun i hi =>
        not_samePage_pageAddr hv (by omega) (by omega) (Nat.ne_of_lt hi)
      have hentry : entryOf (unmapPages s v m) (pageAddr v m) = pageOf (f m) ||| heapFlags :=
        (hc.other _ hne).trans (h.mapped m hm)
      have hpres : Present (entryOf (unmapPages s v m) (pageAddr v m)) := by
        rw [hentry]
        exact present_heap (f m)
      have hframe : frameAt (unmapPages s v m) (pageAddr v m) = pageOf (f m) := by
        rw [frameAt, hentry, frameOf_heap]
      have hnum : pageNum (frameAt (unmapPages s v m) (pageAddr v m)) = f m := by
        rw [hframe, pageNum_pageOf (h.lt hm)]
      have htracked : Tracked (unmapPages s v m) (frameAt (unmapPages s v m) (pageAddr v m)) := by
        rw [Tracked, hnum, hc.size]
        exact h.tracked m hm
      have hspare : Spares (unmapPages s v m) (pageAddr v m) := fun _ _ ho => by
        change Owns _ (frameAt (unmapPages s v m) (pageAddr v m)) at ho
        rw [hframe, hc.owns] at ho
        exact h.apart m hm ho
      have hused : ¬ Free (unmapPages s v m) (pageNum (frameAt (unmapPages s v m) (pageAddr v m))) := by
        rw [hnum, hc.free]
        rintro (hf | ⟨i, hi, he⟩)
        · exact h.used m hm hf
        · have := h.inj i (hi.trans hm) m hm he
          omega
      have hstep := hc.wf.unmap_spec hspare hpres
      have hentries : ∀ x, entryOf (pagingUnmapPage (unmapPages s v m) (pageAddr v m)) x =
          if SamePage (pageAddr v m) x then 0 else entryOf (unmapPages s v m) x := fun x =>
        (hstep.entry _ (dirIndex_lt x) _ (tableIndex_lt x)).trans
          (if_congr (sameSlot_above (above_pageAddr hv (by omega))) rfl rfl)
      rw [unmapPages]
      refine ⟨hstep.wf, hstep.size.trans hc.size, fun i hi => ?_, fun x hx => ?_, fun q => ?_,
        fun g => (hstep.owns g).trans (hc.owns g), ?_⟩
      · rw [hentries]
        split_ifs with hsame
        · rfl
        · refine hc.absent i ((Nat.lt_succ_iff_lt_or_eq.mp hi).resolve_right fun he => hsame ?_)
          rw [he]
          rfl
      · rw [hentries, if_neg (hx m m.lt_succ_self)]
        exact hc.other x fun i hi => hx i (hi.trans m.lt_succ_self)
      · rw [hc.wf.free_unmap hpres htracked, hnum, hc.free, or_assoc, Nat.exists_lt_succ_right]
        exact or_congr_right (or_congr_right eq_comm)
      · rw [freeCount_unmap hc.wf hspare hpres htracked hused, hc.count, Nat.add_assoc]

/-! ### The state after the clean-up -/

/-- No translation and no free memory has changed. -/
def Unchanged (t s : State) : Prop :=
  (∀ x, pagingGetPhysicalAddr s x = pagingGetPhysicalAddr t x) ∧
    pagingGetFreeMemory s = pagingGetFreeMemory t

theorem exists_get_ne_zero (hpage : v.toNat % 4096 = 0) (hp : Present (entryOf s v)) :
    ∃ x, SamePage v x ∧ pagingGetPhysicalAddr s x ≠ 0 := by
  by_cases hframe : frameAt s v = 0
  · have hv := v.isLt
    have hone : (1 : U32).toNat = 1 := rfl
    have hval : (v + 1).toNat = v.toNat + 1 := by
      rw [BitVec.toNat_add, hone]
      omega
    have hsame : SamePage v (v + 1) := by
      unfold SamePage
      omega
    have hoffset : (v + 1).toNat % 4096 = 1 := by omega
    have hentry : entryOf s (v + 1) = entryOf s v := entryOf_samePage hsame
    have hframe' : frameAt s (v + 1) = 0 := by rw [frameAt, hentry, ← frameAt, hframe]
    refine ⟨v + 1, hsame, ?_⟩
    rw [get_eq, hentry, if_pos hp, hframe', hoffset]
    decide
  · refine ⟨v, rfl, ?_⟩
    rw [get_eq, if_pos hp, hpage, BitVec.add_zero]
    exact hframe

section CleanUp

variable (hv : InHeap v)

include hv

/-- Pages that were mapped before are not mapped again. -/
theorem Cleared.get_eq_iff {r : State} (hfill : Filled t v k s f) (hc : Cleared s v k f r) :
    (∀ x, pagingGetPhysicalAddr r x = pagingGetPhysicalAddr t x) ↔
      ∀ j < k, ¬ Present (entryOf t (pageAddr v j)) := by
  have hk := hfill.le
  have hclear : ∀ j < k, ∀ x, SamePage (pageAddr v j) x → pagingGetPhysicalAddr r x = 0 := by
    intro j hj x hx
    refine get_of_absent ?_
    rw [entryOf_samePage hx, hc.absent j hj]
    exact not_present_zero
  constructor
  · intro hall j hj hp
    obtain ⟨x, hsame, hne⟩ := exists_get_ne_zero (page_pageAddr hv (by omega)) hp
    rw [← hall x] at hne
    exact hne (hclear j hj x hsame)
  · intro habsent x
    by_cases hx : ∃ j < k, SamePage (pageAddr v j) x
    · obtain ⟨j, hj, hsame⟩ := hx
      rw [hclear j hj x hsame, get_of_absent]
      rw [entryOf_samePage hsame]
      exact habsent j hj
    · push Not at hx
      exact get_of_entry ((hc.other x hx).trans (hfill.other x hx))

/-- **After the clean-up** nothing has changed exactly when the pages that there were frames for were not
mapped and had their tables. -/
theorem Looped.unchanged_iff (ht : Wf t) (h : Looped t v k s) (hnone : freeCount s = 0) :
    Unchanged t (unmapPages s v k) ↔ ∀ j < freeCount t,
      Present (t.pde (dirIndex (pageAddr v j))) ∧ ¬ Present (entryOf t (pageAddr v j)) := by
  rcases h with ⟨f, hfill⟩ | ⟨m, rfl, hlost⟩
  · have hk := hfill.le
    have hc := unmapPages_spec hv (by omega) hfill.holds le_rfl
    have hcount := hfill.count
    have hmono : k ≤ freeCount t := by omega
    rw [Unchanged, hc.get_eq_iff hv hfill, getFreeMemory_eq_iff ht hc.wf, hc.count, hnone, Nat.zero_add]
    constructor
    · rintro ⟨habsent, hfree⟩ j hj
      have hzero : tables t v k = 0 := by omega
      exact ⟨tables_eq_zero.mp hzero j (by omega), habsent j (by omega)⟩
    · intro hall
      have hzero : tables t v k = 0 := tables_eq_zero.mpr fun j hj => (hall j (hj.trans_le hmono)).1
      exact ⟨fun j hj => (hall j (hj.trans_le hmono)).2, by omega⟩
  · -- the frame whose page could not be mapped is lost
    have hall := hlost.count.1
    obtain ⟨r, f, p, hfill, hp, hno, -, rfl⟩ := id hlost
    have hm := hfill.le
    have hc := unmapPages_spec hv (by omega) (hfill.holds.taken hp) le_rfl
    have hne : ∀ i < m, ¬ SamePage (pageAddr v i) (pageAddr v m) := fun i hi =>
      not_samePage_pageAddr hv (by omega) (by omega) (Nat.ne_of_lt hi)
    have habsent : ¬ Present (entryOf (unmapPages (taken r p) v m) (pageAddr v m)) := by
      rw [hc.other _ hne]
      exact hlost.absent
    have hskip : unmapPages (taken r p) v (m + 1) = unmapPages (taken r p) v m := by
      rw [unmapPages, unmap_of_not_present habsent]
    rw [hskip]
    refine iff_of_false (fun hu => ?_) fun h' => hno ?_
    · have hfree := (getFreeMemory_eq_iff ht hc.wf).mp hu.2
      rw [hc.count, hnone] at hfree
      omega
    · exact (hfill.present _ (dirIndex_lt _)).mpr (.inl (h' m (by omega)).1)

end CleanUp

/-! ### Failed allocations -/

/-- An allocation that returns 0 has changed nothing. -/
def RollsBack (t : State) (count : U32) : Prop :=
  (pagingAllocPages t count).1 = 0 → Unchanged t (pagingAllocPages t count).2

/-- If the first range cannot be mapped, page 0 is not free and the pages that there are frames for are not
mapped (to frame 0) and have their tables. -/
def NoTrace (t : State) (count : U32) : Prop := ∀ i, FirstRange t count i → 0 < count.toNat →
  (Free t 0 ∨ freeCount t < count.toNat + tables t (pageAddr heapStart i) (count.toNat - 1)) →
  ¬ Free t 0 ∧ ∀ j < freeCount t,
    Present (t.pde (dirIndex (pageAddr (pageAddr heapStart i) j))) ∧
      ¬ Present (entryOf t (pageAddr (pageAddr heapStart i) j))

theorem not_unchanged_taken (ht : Wf t) (hzero : Free t 0) : ¬ Unchanged t (taken t 0) := fun hu => by
  have hfree := (getFreeMemory_eq_iff ht (ht.taken hzero)).mp hu.2
  have := freeCount_taken ht hzero
  omega

/-- **One allocation.** -/
theorem Wf.rollsBack_iff (ht : Wf t) (count : U32) : RollsBack t count ↔ NoTrace t count := by
  unfold RollsBack NoTrace
  rcases alloc_cases t count with ⟨i, hi, he⟩ | ⟨hnone, he⟩
  · have hv := inHeap_pageAddr hi.1
    have hne := hv.ne_zero
    rw [he, hi.forall_iff]
    cases hn : count.toNat with
    | zero => exact iff_of_true (fun h => absurd h hne) fun h => absurd h (Nat.not_lt_zero 0)
    | succ n =>
        rw [Nat.add_sub_cancel, imp_iff_right n.succ_pos]
        by_cases hzero : Free t 0
        · rw [mapPages_of_zero ht hzero]
          exact iff_of_false (fun h => not_unchanged_taken ht hzero (h rfl))
            fun h => (h (.inl hzero)).1 hzero
        · by_cases hframes : n + 1 + tables t (pageAddr heapStart i) n ≤ freeCount t
          · obtain ⟨s', hmap, -⟩ := mapPages_of_frames ht hv hzero hframes
            rw [hmap]
            exact iff_of_true (fun h => absurd h hne)
              fun h => h.elim (absurd · hzero) fun hlt => absurd hframes (Nat.not_le.mpr hlt)
          · obtain ⟨k, s', -, hmap, hlooped, hnone⟩ := mapPages_of_no_frames ht hv hzero hframes
            rw [hmap, imp_iff_right rfl, hlooped.unchanged_iff hv ht hnone,
              imp_iff_right (.inr (Nat.lt_of_not_le hframes)), and_iff_right hzero]
  · rw [he]
    exact iff_of_true (fun _ => ⟨fun _ => rfl, rfl⟩) fun i hi => absurd hi (hnone i)

/-- **Exactness.** In the states reached while the bitmap fits into its frame and no frame of the
structures is freed, an allocation that returns 0 has changed nothing exactly when it leaves no trace. -/
theorem failure_unchanged_iff {mem : Words} {memorySize : U32}
    (hfit : memorySize.toNat / 4096 ≤ 32768) {es : List Event} {t : State}
    (h : Run (total step) (start mem memorySize) es t)
    (ha : Along (total step) (Permits Spares fun _ _ => True) (start mem memorySize) es) (count : U32) :
    RollsBack t count ↔ NoTrace t count :=
  (wf_run hfit h ha).rollsBack_iff count

/-- With 8 MB of memory 1019 frames are left after one page has been allocated. An allocation of 1020 pages
maps 1019 pages in the table of the first one, unmaps them and fails. -/
theorem failure_unchanged_second :
    (pagingAllocPages (pagingAllocPages (start (fun _ => 0) 0x800000) 1).2 1020).1 = 0 ∧
      RollsBack (pagingAllocPages (start (fun _ => 0) 0x800000) 1).2 1020 := by
  have hfit : (bitmapWords 0x800000).toNat ≤ 1024 := by decide
  have hfree : freeCount (start (fun _ => 0) 0x800000) = 1021 := (freeCount_start hfit).trans (by decide)
  have hone : (1 : U32).toNat = 0 + 1 := rfl
  have hpages : (1020 : U32).toNat = 1019 + 1 := rfl
  have hroom : 0 + 1 + (0 + 1 + 1023) / 1024 ≤ freeCount (start (fun _ => 0) 0x800000) := by omega
  have hneeded : tables (start (fun _ => 0) 0x800000) (pageAddr heapStart 0) (0 + 1) = (0 + 1 + 1023) / 1024 :=
    tables_start hfit (by decide)
  rw [pageAddr_zero] at hneeded
  obtain ⟨s, f, halloc, hfill⟩ := filled_first hfit hone (by decide) hroom
  have hiff := failure_unchanged_iff (by decide) (run_one (start (fun _ => 0) 0x800000) (.alloc 1))
    (along_one trivial) 1020
  simp only [step, halloc] at hiff ⊢
  have hfirst : FirstRange s 1020 1 := hfill.firstRange_behind hfit (by decide) (by decide) (by decide)
  have hzero : ¬ Free s 0 := fun hf => absurd ((free_start hfit).mp (hfill.free 0 hf)).2 (by decide)
  have hcount := hfill.count
  have hpres : ∀ j < 1019, Present (s.pde (dirIndex (pageAddr (pageAddr heapStart 1) j))) := by
    intro j hj
    rw [pageAddr_pageAddr, hfill.present _ (dirIndex_lt _), dirIndex_heap (by omega)]
    refine .inr ⟨0, by decide, ?_⟩
    rw [dirIndex_heap (by decide)]
    omega
  have htables : tables s (pageAddr heapStart 1) 1019 = 0 := tables_eq_zero.mpr hpres
  constructor
  · rcases alloc_cases s 1020 with ⟨i, hi, he⟩ | ⟨-, he⟩
    · obtain rfl : i = 1 := hi.unique hfirst
      obtain ⟨k, s', -, hmap, -⟩ := mapPages_of_no_frames hfill.wf
        (inHeap_pageAddr (show 1 < 0x10000 by decide)) hzero (n := 1019) (by omega)
      rw [he, hpages, hmap]
    · rw [he]
  · refine hiff.mpr fun i hi _ _ => ⟨hzero, fun j hj => ?_⟩
    obtain rfl : i = 1 := hi.unique hfirst
    refine ⟨hpres j (by omega), ?_⟩
    rw [pageAddr_pageAddr]
    exact hfill.absent_behind hfit (by omega) (by omega)

/-- With 8 MB of memory there are 1021 frames. An allocation of 1021 pages fails, and the table that it has
needed stays. -/
theorem table_leaks : (pagingAllocPages (start (fun _ => 0) 0x800000) 1021).1 = 0 ∧
    ¬ Unchanged (start (fun _ => 0) 0x800000)
      (pagingAllocPages (start (fun _ => 0) 0x800000) 1021).2 := by
  have hfit : (bitmapWords 0x800000).toNat ≤ 1024 := by decide
  have hwf : Wf (start (fun _ => 0) 0x800000) := wf_start hfit
  have hcount : freeCount (start (fun _ => 0) 0x800000) = 1021 :=
    (freeCount_start hfit).trans (by decide)
  have hpages : (1021 : U32).toNat = 1021 := by decide
  have hpred : (1021 : U32).toNat - 1 = 1020 := by decide
  have hpos : 0 < freeCount (start (fun _ => 0) 0x800000) := by omega
  have htables : tables (start (fun _ => 0) 0x800000) (pageAddr heapStart 0) 1020 =
      (1020 + 1023) / 1024 := tables_start hfit (by decide)
  have hno : ¬ Present ((start (fun _ => 0) 0x800000).pde
      (dirIndex (pageAddr (pageAddr heapStart 0) 0))) := no_table_start hfit (by decide) (by decide)
  have hfails : freeCount (start (fun _ => 0) 0x800000) < (1021 : U32).toNat +
      tables (start (fun _ => 0) 0x800000) (pageAddr heapStart 0) ((1021 : U32).toNat - 1) := by
    rw [hpred, hpages, hcount, htables]
    decide
  have htrace : ¬ NoTrace (start (fun _ => 0) 0x800000) 1021 := fun h => by
    have hall := (h 0 (firstRange_start hfit (by decide)) (by decide) (.inr hfails)).2
    exact hno (hall 0 hpos).1
  have hleak := (hwf.rollsBack_iff 1021).not.mpr htrace
  unfold RollsBack at hleak
  push Not at hleak
  exact hleak

end BloodKernel.Paging
