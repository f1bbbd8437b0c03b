import BloodKernel.Drivers.PagingRuns

set_option autoImplicit false

/-!
# Mapped frames

A frame that a present entry maps must not be marked free. `paging_map_page` does not mark the frame it
maps, and `paging_unmap_page` frees the frame of the page whether or not another page has it.

* `NeverFree`, `Unmapped`: the frames of the entries, and a frame that no entry maps;
* `Last`: no other entry has the frame of the page;
* **`mapped_never_free`**: frames stay marked while they are mapped, if the calls map frames in use only
  and unmap the last page of a frame only.
-/

namespace BloodKernel.Paging

open Lib

/-- The frames of the present entries are not marked free. -/
def NeverFree (s : State) : Prop := ∀ d < 1024, ∀ k < 1024,
  Present (entry s d k) → ¬ Free s (pageNum (frameOf (entry s d k)))

/-- No present entry has the frame `f`. -/
def Unmapped (s : State) (f : U32) : Prop := ∀ d < 1024, ∀ k < 1024,
  Present (entry s d k) → frameOf (entry s d k) ≠ f

/-- If the bitmap covers the frame of the page of `v`, no other entry has this frame. -/
def Last (s : State) (v : U32) : Prop :=
  Present (entryOf s v) → Tracked s (frameAt s v) →
    ∀ d < 1024, ∀ k < 1024, ¬ SameSlot v d k → Present (entry s d k) → frameOf (entry s d k) ≠ frameAt s v

/-- The entry `w` is not present, or its frame is not marked free. -/
def InUse (s : State) (w : U32) : Prop := Present w → ¬ Free s (pageNum (frameOf w))

/-- If the bitmap covers the frame of the page of `v`, it is not a frame of the structures, and mapped
once. -/
def Sole (s : State) (v : U32) : Prop := Spares s v ∧ Last s v

variable {s s' : State} {u v w f : U32} {p d k : ℕ}

/-! ### Entries -/

theorem SameSlot.trans (h : SameSlot v (dirIndex u) (tableIndex u)) :
    SameSlot u d k ↔ SameSlot v d k := by
  unfold SameSlot SameDir kernelPageNumber at *
  omega

theorem Unmapped.of_agree (h : Agree s s') (hf : Unmapped s f) : Unmapped s' f := by
  intro d hd k hk
  rw [h.entry hd hk]
  exact hf d hd k hk

theorem NeverFree.ne_pageOf (h : NeverFree s) (hwf : Wf s) (hp : Free s p) (hd : d < 1024) (hk : k < 1024)
    (hpres : Present (entry s d k)) : frameOf (entry s d k) ≠ pageOf p := by
  intro he
  refine h d hd k hk hpres ?_
  rwa [he, pageNum_pageOf (hwf.lt_of_free hp)]

theorem NeverFree.unmapped_taken (h : NeverFree s) (hwf : Wf s) (hp : Free s p) :
    Unmapped (taken s p) (pageOf p) :=
  Unmapped.of_agree (hwf.agree_taken hp) fun _ hd _ hk hpres => h.ne_pageOf hwf hp hd hk hpres

theorem NeverFree.extends (h : NeverFree s) (he : Extends s s') : NeverFree s' := by
  intro d hd k hk
  rw [he.entry d hd k hk]
  exact fun hpres hf => h d hd k hk hpres (he.free _ hf)

theorem NeverFree.sets (h : NeverFree s) (hw : InUse s w) (hs : Sets s s' v w) : NeverFree s' := by
  intro d hd k hk
  rw [hs.entry d hd k hk]
  split_ifs
  · exact fun hpres hf => hw hpres (hs.free _ hf)
  · exact fun hpres hf => h d hd k hk hpres (hs.free _ hf)

/-- Only the frame of the page of `v` becomes free, and no other entry has it. -/
theorem NeverFree.clears (h : NeverFree s) (hv : Last s v) (hpv : Present (entryOf s v))
    (hc : Clears s s' v) : NeverFree s' := by
  intro d hd k hk
  rw [hc.entry d hd k hk]
  split_ifs with hsame
  · exact fun hpres => absurd hpres not_present_zero
  · intro hpres hf
    rcases hc.free _ hf with hf' | he
    · exact h d hd k hk hpres hf'
    · have hlt := hf.1
      rw [he, hc.size] at hlt
      exact hv hpv hlt d hd k hk hsame hpres (pageNum_inj (pageStart_frameOf _) (pageStart_frameOf _) he)

/-! ### Pages that may be unmapped -/

theorem Last.of_absent (h : ¬ Present (entryOf s v)) : Last s v := fun hp => absurd hp h

theorem Last.extends (h : Last s v) (he : Extends s s') : Last s' v := by
  unfold Last Tracked
  rw [entryOf_extends he, frameAt_extends he, he.size]
  intro hpres hlt d hd k hk
  rw [he.entry d hd k hk]
  exact h hpres hlt d hd k hk

theorem Last.clears (h : Last s v) (hc : Clears s s' u) : Last s' v := by
  have hentry : entryOf s' v = if SameSlot u (dirIndex v) (tableIndex v) then 0 else entryOf s v :=
    hc.entry _ (dirIndex_lt v) _ (tableIndex_lt v)
  unfold Last Tracked frameAt
  rw [hentry, hc.size]
  split_ifs
  · exact fun hpres => absurd hpres not_present_zero
  · intro hpres hlt d hd k hk hne
    rw [hc.entry d hd k hk]
    split_ifs
    · exact fun hpres' => absurd hpres' not_present_zero
    · exact h hpres hlt d hd k hk hne

/-- A frame just handed out is mapped once, and the others are not mapped again. -/
theorem Last.sets (hwf : Wf s) (hnever : NeverFree s) (hp : Free s p)
    (h : SameSlot v (dirIndex u) (tableIndex u) ∨ Last s u ∧ Kept s u)
    (hs : Sets (taken s p) s' v (pageOf p ||| heapFlags)) : Last s' u := by
  have hagree := hwf.agree_taken hp
  have hentry : ∀ d < 1024, ∀ k < 1024, entry s' d k =
      if SameSlot v d k then pageOf p ||| heapFlags else entry s d k := fun d hd k hk => by
    rw [hs.entry d hd k hk, hagree.entry hd hk]
  have hself : entryOf s' u =
      if SameSlot v (dirIndex u) (tableIndex u) then pageOf p ||| heapFlags else entryOf s u :=
    hentry _ (dirIndex_lt u) _ (tableIndex_lt u)
  unfold Last Tracked frameAt
  rw [hself]
  split_ifs with hsame
  · intro _ _ d hd k hk hne
    rw [hentry d hd k hk, if_neg fun h' => hne (hsame.trans.mpr h'), frameOf_heap]
    exact hnever.ne_pageOf hwf hp hd hk
  · obtain ⟨hlast, hkept⟩ := h.resolve_left hsame
    intro hpres hlt d hd k hk hne
    rw [hentry d hd k hk]
    split_ifs
    · intro _ he
      refine hkept hpres ?_
      rwa [frameAt, ← he, frameOf_heap, pageNum_pageOf (hwf.lt_of_free hp)]
    · rw [hs.size] at hlt
      exact hlast hpres hlt d hd k hk hne

/-! ### Runs -/

/-- No frame is marked free while it is mapped, and none was mapped when it was handed out. -/
structure Safe (s : State) : Prop where
  free : NeverFree s
  handed : ∀ g ∈ s.handed, Unmapped (atGrant s g) g.frame

theorem Safe.next (h : Safe s) (hwf : Wf s) (hwf' : Wf s') (hsize : s'.bitmapSize = s.bitmapSize)
    (hgrants : s'.handed = s.handed ∨ ∃ p, Free s p ∧ s'.handed = (taken s p).handed)
    (hfree : NeverFree s') : Safe s' :=
  ⟨hfree, handed_of_grants Unmapped.of_agree hwf hwf' hsize (fun _ => h.free.unmapped_taken hwf) hgrants
    h.handed⟩

def safePolicy : Policy where
  inv s := Wf s ∧ Safe s
  may := Sole
  fits := InUse
  wf := And.left
  inv_extends h he := ⟨he.wf, h.2.next h.1 he.wf he.size he.grants (h.2.free.extends he)⟩
  inv_sets h hw hs := ⟨hs.wf, h.2.next h.1 hs.wf hs.size hs.grants (h.2.free.sets hw hs)⟩
  inv_clears h hv hp hc :=
    ⟨hc.wf, h.2.next h.1 hc.wf hc.size (.inl hc.handed) (h.2.free.clears hv.2 hp hc)⟩
  fits_fresh h hp _ hf := by
    rw [frameOf_heap, pageNum_pageOf (h.1.lt_of_free hp)] at hf
    exact ((h.1.free_taken hp).mp hf).2 rfl
  spares := And.left
  may_absent h := ⟨Spares.of_absent h, Last.of_absent h⟩
  may_extends h hk he := ⟨h.1.extends hk he, h.2.extends he⟩
  may_clears h hc := ⟨h.1.clears hc, h.2.clears hc⟩
  may_sets h hp hu hk hs := ⟨Spares.sets h.1 hp (.inr ⟨hu.1, hk⟩) hs,
    Last.sets h.1 h.2.free hp (.inr ⟨hu.2, hk⟩) hs⟩
  may_fresh h hp hs := ⟨Spares.sets h.1 hp (.inl (sameSlot_self _)) hs,
    Last.sets h.1 h.2.free hp (.inl (sameSlot_self _)) hs⟩

section Memory

variable {mem : Words} {memorySize : U32}

theorem frameOf_identityEntry (k : ℕ) : frameOf (identityEntry k) = pageOf k := by
  have hpage : BitVec.ofNat 32 (k * 4096) = pageOf k := by
    apply BitVec.eq_of_toNat_eq
    rw [pageOf, BitVec.toNat_mul, BitVec.toNat_ofNat, BitVec.toNat_ofNat]
    show k * 4096 % 4294967296 = k % 4294967296 * 4096 % 4294967296
    omega
  rw [identityEntry, hpage, BitVec.or_assoc]
  exact frameOf_or (pageStart_pageOf k) (by decide)

theorem safe_start (hfit : (bitmapWords memorySize).toNat ≤ 1024) : Safe (start mem memorySize) := by
  constructor
  · intro d hd k hk
    rw [entry_start hfit hd hk]
    split_ifs
    · rw [frameOf_identityEntry, pageNum_pageOf (by omega), free_start hfit]
      omega
    · exact fun hp => absurd hp not_present_zero
  · rw [handed_start hfit]
    exact fun g hg => absurd hg List.not_mem_nil

/-- **Mapped frames are never free**, in runs that map frames in use and unmap the only page of a
frame. -/
theorem mapped_never_free (hfit : memorySize.toNat / 4096 ≤ 32768) {es : List Event} {t : State}
    (h : Run (total step) (start mem memorySize) es t)
    (ha : Along (total step) (Permits Sole InUse) (start mem memorySize) es) :
    Throughout (total step) Safe (start mem memorySize) es :=
  safePolicy.run (fun _ hs => hs.2) h ha
    ⟨wf_start (bitmapWords_fits hfit), safe_start (bitmapWords_fits hfit)⟩

end Memory

/-- A page of the heap mapped to a page of the kernel, with 8 MB of memory. -/
theorem mapped_never_free_kernelPage : Throughout (total step) Safe (start (fun _ => 0) 0x800000)
    [(.map heapStart 0x1000 3, (step (start (fun _ => 0) 0x800000) (.map heapStart 0x1000 3)).1)] := by
  have hfit : (bitmapWords 0x800000).toNat ≤ 1024 := by decide
  refine mapped_never_free (by decide) (run_one _ _) (along_one fun _ hf => ?_)
  exact absurd ((free_start hfit).mp hf).2 (by decide)

/-- A page mapped to the first free frame leaves it marked free, and the next fault in the heap is given
it. -/
theorem map_first (h : Wf s) (hp : Free s p) (hless : ∀ q < p, ¬ Free s q) (hne : pageOf p ≠ 0)
    (hpres : Present (s.pde (dirIndex v))) :
    ¬ NeverFree (step s (.map v (pageOf p) heapFlags)).2 ∧
      Present (entryOf (step s (.map v (pageOf p) heapFlags)).2 v) ∧
      frameAt (step s (.map v (pageOf p) heapFlags)).2 v = pageOf p ∧
      ∃ g ∈ (step (step s (.map v (pageOf p) heapFlags)).2 (.fault 0 heapStart)).2.handed,
        g.frame = pageOf p := by
  have hstep : (step s (.map v (pageOf p) heapFlags)).2 = setEntry s v (pageOf p ||| heapFlags) := by
    rw [step, map_of_present hpres]
  have hentry : entryOf (setEntry s v (pageOf p ||| heapFlags)) v = pageOf p ||| heapFlags :=
    (h.entry_setEntry hpres _ (dirIndex_lt v) (tableIndex_lt v)).trans (if_pos (sameSlot_self v))
  have hframe : frameAt (setEntry s v (pageOf p ||| heapFlags)) v = pageOf p := by
    rw [frameAt, hentry, frameOf_heap]
  have hpresent : Present (entryOf (setEntry s v (pageOf p ||| heapFlags)) v) := by
    rw [hentry]
    exact present_heap p
  have hfree : ∀ q, Free (setEntry s v (pageOf p ||| heapFlags)) q ↔ Free s q := fun q =>
    h.free_setEntry hpres _
  have hfirst := (hfree p).mpr hp
  rw [hstep]
  refine ⟨fun hnever => hnever _ (dirIndex_lt v) _ (tableIndex_lt v) hpresent ?_, hpresent, hframe,
    mem_handed_fault (h.setEntry hpres _) hfirst (fun q hq hf => hless q hq ((hfree q).mp hf)) hne
      (by decide)⟩
  show Free _ (pageNum (frameAt _ v))
  rwa [hframe, pageNum_pageOf (h.lt_of_free hp)]

/-- The page at 4 KB is mapped to the first free frame, with 8 MB of memory. -/
theorem mapped_frame_free :
    ∃ es t, Run (total step) (start (fun _ => 0) 0x800000) es t ∧ ¬ NeverFree t ∧
      Present (entryOf t 0x1000) ∧ frameAt t 0x1000 = pageOf 1027 ∧
      ∃ g ∈ (step t (.fault 0 heapStart)).2.handed, g.frame = pageOf 1027 := by
  have hfit : (bitmapWords 0x800000).toNat ≤ 1024 := by decide
  have hwf : Wf (start (fun _ => 0) 0x800000) := wf_start hfit
  have hfree : ∀ q, Free (start (fun _ => 0) 0x800000) q ↔ q < 2048 ∧ 1027 ≤ q := fun q => free_start hfit
  exact ⟨_, _, run_one _ _, map_first (v := 0x1000) hwf ((hfree 1027).mpr (by decide))
    (fun q hq hf => absurd ((hfree q).mp hf).2 (Nat.not_le.mpr hq)) (by decide) hwf.low⟩

end BloodKernel.Paging
