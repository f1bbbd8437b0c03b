import BloodKernel.Drivers.PagingStart

set_option autoImplicit false

/-!
# Runs of the paging driver

* `Policy`: an invariant of the driver, with the pages that may be unmapped and the entries that may be
  written; the fields say that the primitive operations keep it;
* `Policy.unmapPages`, `Policy.mapPages`: the loops over the pages of a range keep it;
* `Permits`, **`Policy.run`**: runs whose calls are permitted keep it;
* `handed_of_grants`: what holds of the pages handed out.
-/

namespace BloodKernel.Paging

open Lib

/-- The entry that translates the page of `v`. -/
def entryOf (s : State) (v : U32) : U32 := entry s (dirIndex v) (tableIndex v)

/-- The frame of the page of `v`. -/
def frameAt (s : State) (v : U32) : U32 := frameOf (entryOf s v)

def heapFlags : U32 := pagePresent ||| pageWritable

/-- The frame of the page of `v`, if it has one, is marked used. -/
def Kept (s : State) (v : U32) : Prop := Present (entryOf s v) → ¬ Free s (pageNum (frameAt s v))

/-- Calls that write entries satisfying `fits` only, and unmap pages satisfying `may` only. -/
def Permits (may fits : State → U32 → Prop) (s : State) : Event → Prop
  | (.map _ physicalAddr flags, _) => fits s (physicalAddr ||| flags)
  | (.unmap v, _) => may s v
  | (.alloc _, _) => True
  | (.free ptr count, _) => ∀ i < count.toNat, may (unmapPages s ptr i) (pageAddr ptr i)
  | (.fault _ _, _) => True

/-- An invariant of the driver. `may s v`: the page of `v` may be unmapped; `fits s w`: the entry `w` may
be written. A page whose frame the allocator has just handed out may be unmapped, and this stays so
while its frame is used. -/
structure Policy where
  inv : State → Prop
  may : State → U32 → Prop
  fits : State → U32 → Prop
  wf : ∀ {s}, inv s → Wf s
  inv_extends : ∀ {s s'}, inv s → Extends s s' → inv s'
  inv_sets : ∀ {s s' v w}, inv s → fits s w → Sets s s' v w → inv s'
  inv_clears : ∀ {s s' v}, inv s → may s v → Present (entryOf s v) → Clears s s' v → inv s'
  fits_fresh : ∀ {s p}, inv s → Free s p → fits (taken s p) (pageOf p ||| heapFlags)
  spares : ∀ {s v}, may s v → Spares s v
  may_absent : ∀ {s v}, ¬ Present (entryOf s v) → may s v
  may_extends : ∀ {s s' v}, may s v → Kept s v → Extends s s' → may s' v
  may_clears : ∀ {s s' u v}, may s v → Clears s s' u → may s' v
  may_sets : ∀ {s s' p u v}, inv s → Free s p → may s u → Kept s u →
    Sets (taken s p) s' v (pageOf p ||| heapFlags) → may s' u
  may_fresh : ∀ {s s' p v}, inv s → Free s p → Sets (taken s p) s' v (pageOf p ||| heapFlags) → may s' v

variable {s s' : State} {u v w : U32} {p j n : ℕ}

/-- An allocation maps the range that its search finds. Unfolding the call evaluates the list of pages it
searches, so it is unfolded here only. -/
theorem search_cases (s : State) (count : U32) :
    (∃ i, ((List.range 0x10000).find? fun i => unmapped s (pageAddr heapStart i) count) = some i ∧
      pagingAllocPages s count = mapPages s (pageAddr heapStart i) 0 count.toNat) ∨
    (((List.range 0x10000).find? fun i => unmapped s (pageAddr heapStart i) count) = none ∧
      pagingAllocPages s count = (0, s)) := by
  unfold pagingAllocPages
  split
  · next i hi => exact .inl ⟨i, hi, rfl⟩
  · next hnone => exact .inr ⟨hnone, rfl⟩

/-! ### Pages whose frames are kept -/

theorem entryOf_extends (h : Extends s s') (v : U32) : entryOf s' v = entryOf s v :=
  h.entry _ (dirIndex_lt v) _ (tableIndex_lt v)

theorem frameAt_extends (h : Extends s s') (v : U32) : frameAt s' v = frameAt s v := by
  rw [frameAt, frameAt, entryOf_extends h]

theorem Kept.extends (h : Kept s v) (he : Extends s s') : Kept s' v := by
  unfold Kept
  rw [entryOf_extends he, frameAt_extends he]
  exact fun hp hf => h hp (he.free _ hf)

theorem entryOf_sets (h : Sets s s' v w) (u : U32) : entryOf s' u =
    if SameSlot v (dirIndex u) (tableIndex u) then w else entryOf s u :=
  h.entry _ (dirIndex_lt u) _ (tableIndex_lt u)

theorem sameSlot_self (v : U32) : SameSlot v (dirIndex v) (tableIndex v) := ⟨.inl rfl, rfl⟩

theorem frameOf_heap (p : ℕ) : frameOf (pageOf p ||| heapFlags) = pageOf p :=
  frameOf_or (pageStart_pageOf p) (by decide)

theorem present_heap (p : ℕ) : Present (pageOf p ||| heapFlags) := present_or (by decide)

/-- The page mapped to a frame just handed out is kept, and so are the others. -/
theorem Kept.sets (hwf : Wf s) (hp : Free s p) (h : SameSlot v (dirIndex u) (tableIndex u) ∨ Kept s u)
    (hs : Sets (taken s p) s' v (pageOf p ||| heapFlags)) : Kept s' u := by
  unfold Kept frameAt
  rw [entryOf_sets hs]
  split_ifs with hsame
  · intro _ hf
    rw [frameOf_heap, pageNum_pageOf (hwf.lt_of_free hp)] at hf
    exact ((hwf.free_taken hp).mp (hs.free _ hf)).2 rfl
  · have hk := (h.resolve_left hsame).extends (hwf.extends_taken hp)
    exact fun hpres hf => hk hpres (hs.free _ hf)

theorem not_owns_taken (hwf : Wf s) (hp : Free s p) (hs : Sets (taken s p) s' v w) :
    ¬ Owns s' (pageOf p) := fun ho => by
  rcases hs.owns _ ho with ho | hf
  · exact hwf.not_owns hp ((hwf.agree_taken hp).owns.mp ho)
  · rw [pageNum_pageOf (hwf.lt_of_free hp)] at hf
    exact ((hwf.free_taken hp).mp hf).2 rfl

theorem Spares.of_absent (h : ¬ Present (entryOf s v)) : Spares s v := fun hp => absurd hp h

theorem Spares.extends (h : Spares s v) (hk : Kept s v) (he : Extends s s') : Spares s' v := by
  have hentry : entry s' (dirIndex v) (tableIndex v) = entryOf s v := entryOf_extends he v
  unfold Spares Tracked
  rw [hentry, he.size]
  exact fun hp hlt ho => (he.owns _ ho).elim (h hp hlt) (hk hp)

theorem Spares.clears (h : Spares s v) (hc : Clears s s' u) : Spares s' v := by
  unfold Spares Tracked
  rw [hc.entry _ (dirIndex_lt v) _ (tableIndex_lt v), hc.size]
  split_ifs
  · exact fun hp => absurd hp not_present_zero
  · exact fun hp hlt ho => h hp hlt ((hc.owns _).mp ho)

/-- The page mapped to a frame just handed out spares the structures, and the others still do. -/
theorem Spares.sets (hwf : Wf s) (hp : Free s p)
    (h : SameSlot v (dirIndex u) (tableIndex u) ∨ Spares s u ∧ Kept s u)
    (hs : Sets (taken s p) s' v (pageOf p ||| heapFlags)) : Spares s' u := by
  unfold Spares Tracked
  rw [hs.entry _ (dirIndex_lt u) _ (tableIndex_lt u), hs.size]
  split_ifs with hsame
  · rw [frameOf_heap]
    exact fun _ _ => not_owns_taken hwf hp hs
  · obtain ⟨hspares, hkept⟩ := h.resolve_left hsame
    have hext := hwf.extends_taken hp
    exact fun hpres hlt ho => (hs.owns _ ho).elim ((hspares.extends hkept hext) hpres hlt)
      ((hkept.extends hext) hpres)

namespace Policy

/-- All pages that spare the structures may be unmapped. -/
def ofSpares (inv : State → Prop) (fits : State → U32 → Prop) (wf : ∀ {s}, inv s → Wf s)
    (inv_extends : ∀ {s s'}, inv s → Extends s s' → inv s')
    (inv_sets : ∀ {s s' v w}, inv s → fits s w → Sets s s' v w → inv s')
    (inv_clears : ∀ {s s' v}, inv s → Clears s s' v → inv s')
    (fits_fresh : ∀ {s p}, inv s → Free s p → fits (taken s p) (pageOf p ||| heapFlags)) : Policy where
  inv := inv
  may := Spares
  fits := fits
  wf := wf
  inv_extends := inv_extends
  inv_sets := inv_sets
  inv_clears hi _ _ hc := inv_clears hi hc
  fits_fresh := fits_fresh
  spares := id
  may_absent := Spares.of_absent
  may_extends := Spares.extends
  may_clears := Spares.clears
  may_sets hi hp hu hk hs := Spares.sets (wf hi) hp (.inr ⟨hu, hk⟩) hs
  may_fresh hi hp hs := Spares.sets (wf hi) hp (.inl (sameSlot_self _)) hs

variable (P : Policy)

/-- The page of `v` may be unmapped, and its frame is used. -/
def Held (s : State) (v : U32) : Prop := P.may s v ∧ Kept s v

/-! ### The loops -/

theorem unmap (h : P.inv s) (hv : P.may s v) : P.inv (pagingUnmapPage s v) := by
  by_cases hp : Present (entryOf s v)
  · exact P.inv_clears h hv hp ((P.wf h).unmap_spec (P.spares hv) hp)
  · rwa [unmap_of_not_present hp]

theorem may_unmap (h : P.inv s) (hu : P.may s u) (hv : P.may s v) : P.may (pagingUnmapPage s u) v := by
  by_cases hp : Present (entryOf s u)
  · exact P.may_clears hv ((P.wf h).unmap_spec (P.spares hu) hp)
  · rwa [unmap_of_not_present hp]

theorem unmapPages (h : P.inv s)
    (hmay : ∀ i < n, P.may (Paging.unmapPages s v i) (pageAddr v i)) :
    P.inv (Paging.unmapPages s v n) := by
  induction n with
  | zero => exact h
  | succ n ih =>
      exact P.unmap (ih fun i hi => hmay i (hi.trans n.lt_succ_self)) (hmay n n.lt_succ_self)

/-- The pages of a range that may all be unmapped at first may be unmapped one after the other. -/
theorem may_unmapPages (h : P.inv s) (hmay : ∀ i < j, P.may s (pageAddr v i)) (hn : n ≤ j) :
    P.inv (Paging.unmapPages s v n) ∧ ∀ i < j, P.may (Paging.unmapPages s v n) (pageAddr v i) := by
  induction n with
  | zero => exact ⟨h, hmay⟩
  | succ n ih =>
      obtain ⟨hinv, hall⟩ := ih (Nat.le_of_succ_le hn)
      have hlast := hall n hn
      exact ⟨P.unmap hinv hlast, fun i hi => P.may_unmap hinv hlast (hall i hi)⟩

variable {P} in
theorem Held.extends (h : P.Held s v) (he : Extends s s') : P.Held s' v :=
  ⟨P.may_extends h.1 h.2 he, h.2.extends he⟩

/-- **A page handed out and mapped.** If there is no table for it, the page stays taken. -/
theorem map_fresh (h : P.inv s) (hp : Free s p) (v : U32) :
    P.inv (pagingMapPage (taken s p) v (pageOf p) heapFlags).2 ∧
      P.Held (pagingMapPage (taken s p) v (pageOf p) heapFlags).2 v ∧
      ∀ u, P.Held s u → P.Held (pagingMapPage (taken s p) v (pageOf p) heapFlags).2 u := by
  have hwf := P.wf h
  have hext := hwf.extends_taken hp
  rcases hext.wf.map_spec v (pageOf p) heapFlags with ⟨-, hs⟩ | ⟨-, he, hno⟩
  · refine ⟨P.inv_sets (P.inv_extends h hext) (P.fits_fresh h hp) hs,
      ⟨P.may_fresh h hp hs, Kept.sets hwf hp (.inl (sameSlot_self v)) hs⟩, fun u hu => ?_⟩
    exact ⟨P.may_sets h hp hu.1 hu.2 hs, Kept.sets hwf hp (.inr hu.2) hs⟩
  · have habsent : ¬ Present (entryOf (pagingMapPage (taken s p) v (pageOf p) heapFlags).2 v) := by
      rw [entryOf_extends he, entryOf, entry, if_neg hno]
      exact not_present_zero
    exact ⟨P.inv_extends (P.inv_extends h hext) he,
      ⟨P.may_absent habsent, fun hpres => absurd hpres habsent⟩,
      fun u hu => (hu.extends hext).extends he⟩

/-- **The pages of an allocation**: those mapped so far may be unmapped if memory runs out. -/
theorem mapPages (h : P.inv s) (hheld : ∀ i < j, P.Held s (pageAddr v i)) :
    P.inv (Paging.mapPages s v j n).2 := by
  induction n generalizing s j with
  | zero => exact h
  | succ n ih =>
      rw [Paging.mapPages]
      rcases (P.wf h).alloc_eq with ⟨p, hp, -, he⟩ | ⟨-, he⟩
      · rw [he]
        by_cases hzero : pageOf p = 0
        · have hext := (P.wf h).extends_taken hp
          rw [if_pos hzero]
          exact (P.may_unmapPages (P.inv_extends h hext)
            (fun i hi => ((hheld i hi).extends hext).1) le_rfl).1
        · obtain ⟨hinv, hnew, hold⟩ := P.map_fresh h hp (pageAddr v j)
          rw [if_neg hzero]
          refine ih hinv fun i hi => ?_
          rcases Nat.lt_succ_iff_lt_or_eq.mp hi with hlt | rfl
          · exact hold _ (hheld i hlt)
          · exact hnew
      · rw [he, if_pos rfl]
        exact (P.may_unmapPages h (fun i hi => (hheld i hi).1) le_rfl).1

/-! ### The calls -/

theorem allocPages (h : P.inv s) (count : U32) : P.inv (pagingAllocPages s count).2 := by
  rcases search_cases s count with ⟨i, -, he⟩ | ⟨-, he⟩
  · rw [he]
    exact P.mapPages h fun i hi => absurd hi (Nat.not_lt_zero i)
  · rw [he]
    exact h

theorem handlePageFault (h : P.inv s) (errorCode v : U32) :
    P.inv (pagingHandlePageFault s errorCode v) := by
  unfold pagingHandlePageFault
  split_ifs with herr hheap
  · exact h
  · rcases (P.wf h).alloc_eq with ⟨p, hp, -, he⟩ | ⟨-, he⟩
    · rw [he]
      show P.inv (if pageOf p ≠ 0 then _ else _)
      split_ifs
      · exact (P.map_fresh h hp _).1
      · exact P.inv_extends h ((P.wf h).extends_taken hp)
    · rw [he]
      exact h
  · exact h

/-- **One call.** -/
theorem step (h : P.inv s) {op : Op} {r : Option U32} (hall : Permits P.may P.fits s (op, r)) :
    P.inv (Paging.step s op).2 := by
  cases op with
  | map v physicalAddr flags =>
      rcases (P.wf h).map_spec v physicalAddr flags with ⟨-, hs⟩ | ⟨-, he, -⟩
      · exact P.inv_sets h hall hs
      · exact P.inv_extends h he
  | unmap v => exact P.unmap h hall
  | alloc count =>
      -- the pair is taken apart for any result: the search must not be unfolded
      have hpair : ∀ r : U32 × State, P.inv r.2 → P.inv (some r.1, r.2).2 := fun _ hr => hr
      rw [Paging.step]
      exact hpair _ (P.allocPages h count)
  | free ptr count => exact P.unmapPages h hall
  | fault errorCode v => exact P.handlePageFault h errorCode v

/-- **Runs** whose calls are permitted keep the invariant. -/
theorem run {Q : State → Prop} (hQ : ∀ s, P.inv s → Q s) {t : State} {es : List Event}
    (h : Run (total Paging.step) s es t) (ha : Along (total Paging.step) (Permits P.may P.fits) s es)
    (hs : P.inv s) :
    Throughout (total Paging.step) Q s es :=
  h.throughout_of_along (fun s o r s' hi hp hstep => by
    have he := total_eq_some.mp hstep
    have hnext := P.step hi hp
    rwa [he] at hnext) hQ ha hs

end Policy

theorem run_one (s : State) (op : Op) : Run (total step) s [(op, (step s op).1)] (step s op).2 :=
  .cons rfl (.nil _)

theorem along_one {P : State → Event → Prop} {op : Op} (h : P s (op, (step s op).1)) :
    Along (total step) P s [(op, (step s op).1)] :=
  (along_cons rfl).mpr ⟨h, along_nil P _⟩

/-! ### The pages handed out -/

/-- The state in which a page was handed out, if `s` is reached later. -/
def atGrant (s : State) (g : Grant) : State := { s with mem := g.mem }

theorem agree_of_mem_eq (hdir : s'.pageDirectory = s.pageDirectory)
    (hbitmap : s'.pageBitmap = s.pageBitmap) (hsize : s'.bitmapSize = s.bitmapSize)
    (hmem : s'.mem = s.mem) : Agree s s' := by
  have hpde : ∀ d, s'.pde d = s.pde d := fun d => by rw [State.pde, State.pde, hmem, hdir]
  refine ⟨hdir, hbitmap, hsize, fun d _ => hpde d, fun d _ k _ _ => ?_⟩
  rw [State.pte, State.pte, State.table, State.table, hpde, hmem]

/-- What holds of every page when it is handed out, and depends on the structures only, holds of all pages
handed out. -/
theorem handed_of_grants {good : State → U32 → Prop}
    (hgood : ∀ {s s' f}, Agree s s' → good s f → good s' f) (h : Wf s) (h' : Wf s')
    (hsize : s'.bitmapSize = s.bitmapSize) (hnew : ∀ p, Free s p → good (taken s p) (pageOf p))
    (hgrants : s'.handed = s.handed ∨ ∃ p, Free s p ∧ s'.handed = (taken s p).handed)
    (hold : ∀ g ∈ s.handed, good (atGrant s g) g.frame) : ∀ g ∈ s'.handed, good (atGrant s' g) g.frame := by
  have hdir : s'.pageDirectory = s.pageDirectory := h'.dir.trans h.dir.symm
  have hbitmap : s'.pageBitmap = s.pageBitmap := h'.bitmap.trans h.bitmap.symm
  have hsame : ∀ g, Agree (atGrant s g) (atGrant s' g) := fun g =>
    agree_of_mem_eq hdir hbitmap hsize rfl
  have hcarry : ∀ g ∈ s.handed, good (atGrant s' g) g.frame := fun g hg => hgood (hsame g) (hold g hg)
  rcases hgrants with he | ⟨p, hp, he⟩
  · rwa [he]
  · intro g hg
    rw [he] at hg
    rcases List.mem_append.mp hg with hg | hg
    · exact hcarry g hg
    · obtain rfl := List.mem_singleton.mp hg
      have htaken : Agree (taken s p) (atGrant s' ⟨pageOf p, (taken s p).mem⟩) :=
        agree_of_mem_eq hdir hbitmap hsize rfl
      exact hgood htaken (hnew p hp)

theorem mem_handed_map (h : Wf s) {g : Grant} (hg : g ∈ s.handed) (v physicalAddr flags : U32) :
    g ∈ (pagingMapPage s v physicalAddr flags).2.handed := by
  have hgrants : (pagingMapPage s v physicalAddr flags).2.handed = s.handed ∨
      ∃ p, Free s p ∧ (pagingMapPage s v physicalAddr flags).2.handed = (taken s p).handed :=
    (h.map_spec v physicalAddr flags).elim (fun h' => h'.2.grants) (fun h' => h'.2.1.grants)
  rcases hgrants with he | ⟨p, -, he⟩
  · rwa [he]
  · rw [he]
    exact List.mem_append_left _ hg

/-- A fault in the heap is given the first free page. -/
theorem mem_handed_fault (h : Wf s) (hp : Free s p) (hless : ∀ q < p, ¬ Free s q) (hne : pageOf p ≠ 0)
    (hv : heapStart ≤ v ∧ v < 0xE0000000) :
    ∃ g ∈ (step s (.fault 0 v)).2.handed, g.frame = pageOf p := by
  have htaken : allocPhysicalPage s = (pageOf p, taken s p) := by
    rcases h.alloc_eq with ⟨q, hq, hless', he⟩ | ⟨hnone, -⟩
    · obtain rfl : q = p := by
        rcases Nat.lt_trichotomy q p with hlt | he' | hlt
        · exact absurd hq (hless q hlt)
        · exact he'
        · exact absurd hp (hless' p hlt)
      exact he
    · exact absurd hp (hnone p)
  have hfault : (step s (.fault 0 v)).2 =
      (pagingMapPage (taken s p) (v &&& 0xFFFFF000) (pageOf p) heapFlags).2 := by
    show pagingHandlePageFault s 0 v = _
    rw [pagingHandlePageFault, if_neg (by decide), if_pos hv, htaken]
    exact if_pos hne
  rw [hfault]
  exact ⟨_, mem_handed_map (h.taken hp) (List.mem_append_right _ List.mem_cons_self) _ _ _, rfl⟩

end BloodKernel.Paging
