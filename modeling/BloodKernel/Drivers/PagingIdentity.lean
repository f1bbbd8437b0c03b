import BloodKernel.Drivers.PagingTranslate

set_option autoImplicit false

/-!
# The addresses of the structures

The driver uses physical addresses as pointers, so once paging is enabled the linear addresses of its
structures must be translated to themselves. `paging_init` maps the first 4 MB, and places the structures
from 4 MB on.

* `IdentityMapped`: the words of the structures are translated to themselves;
* `pde_markPages`: the directory after `paging_init`, for every size of the memory;
* **`never_identityMapped`**: this fails after `paging_init`, and in every state that is reached while no
  call targets the frame of the directory.
-/

namespace BloodKernel.Paging

open Lib

/-- The words of the directory, of the tables in use and of the bitmap are translated to themselves. -/
structure IdentityMapped (s : State) : Prop where
  directory : ∀ i < 1024,
    pagingGetPhysicalAddr s (wordAddr s.pageDirectory i) = wordAddr s.pageDirectory i
  table : ∀ d < 1024, Present (s.pde d) → ∀ k < 1024,
    pagingGetPhysicalAddr s (wordAddr (s.table d) k) = wordAddr (s.table d) k
  bitmap : ∀ i < s.bitmapSize.toNat,
    pagingGetPhysicalAddr s (wordAddr s.pageBitmap i) = wordAddr s.pageBitmap i

variable {s s' : State} {v w : U32} {n p : ℕ}

/-- The page of the directory is not mapped to the frame of the directory. -/
def Hidden (s : State) : Prop := Present (entryOf s 0x400000) → frameAt s 0x400000 ≠ 0x400000

theorem Hidden.not_identityMapped (h : Hidden s) (hdir : s.pageDirectory = 0x400000) :
    ¬ IdentityMapped s := by
  intro hmapped
  have hfirst := hmapped.directory 0 (by decide)
  have haddr : wordAddr 0x400000 0 = 0x400000 := by decide
  have hoffset : BitVec.ofNat 32 ((0x400000 : U32).toNat % 4096) = 0#32 := by decide
  rw [hdir, haddr, get_eq, hoffset, BitVec.add_zero] at hfirst
  split_ifs at hfirst with hp
  · exact h hp hfirst
  · exact absurd hfirst (by decide)

/-! ### After `paging_init` -/

/-- Marking the pages of the kernel leaves the directory alone, whatever the size of the bitmap. -/
theorem pde_markPages (hdir : s.pageDirectory = 0x400000) (hbitmap : s.pageBitmap = 0x402000)
    (hn : n ≤ 32768) : (markPages s n).pageDirectory = 0x400000 ∧
      (markPages s n).pageBitmap = 0x402000 ∧ ∀ d < 1024, (markPages s n).pde d = s.pde d := by
  induction n with
  | zero => exact ⟨hdir, hbitmap, fun _ _ => rfl⟩
  | succ n ih =>
      obtain ⟨ihdir, ihbitmap, ihpde⟩ := ih (Nat.le_of_succ_le hn)
      rw [markPages]
      split_ifs
      · refine ⟨ihdir, ihbitmap, fun d hd => (?_ : _ = (markPages s n).pde d).trans (ihpde d hd)⟩
        have hi : n / 32 < 1024 := by omega
        have hmiss : ¬ ((0x400000 : U32) = 0x402000 ∧ d = n / 32) := fun he => absurd he.1 (by decide)
        simp only [State.pde, State.write, ihdir, ihbitmap]
        rw [word_setWord pageStart_bitmapPage pageStart_directoryPage hi hd, if_neg hmiss]
      · exact ⟨ihdir, ihbitmap, ihpde⟩

theorem directory_start (mem : Words) (memorySize : U32) :
    (start mem memorySize).pageDirectory = 0x400000 := by
  rw [start_eq]
  exact (pde_markPages rfl rfl (by decide)).1

theorem hidden_start (mem : Words) (memorySize : U32) : Hidden (start mem memorySize) := by
  have hpde : (start mem memorySize).pde 1 = 0 := by
    rw [start_eq, (pde_markPages rfl rfl (by decide)).2.2 1 (by decide)]
    exact (pde_unmarked (by decide)).trans (if_neg (by decide))
  have hentry : entryOf (start mem memorySize) 0x400000 = 0 := by
    have hd : dirIndex 0x400000 = 1 := by decide
    rw [entryOf, entry, hd, hpde]
    exact if_neg not_present_zero
  intro hp
  rw [hentry] at hp
  exact absurd hp not_present_zero

/-! ### Runs -/

theorem Hidden.extends (h : Hidden s) (he : Extends s s') : Hidden s' := by
  unfold Hidden
  rw [entryOf_extends he, frameAt_extends he]
  exact h

theorem Hidden.of_entry (h : Hidden s) (hw : Present w → frameOf w ≠ 0x400000)
    (he : entryOf s' 0x400000 =
      if SameSlot v (dirIndex 0x400000) (tableIndex 0x400000) then w else entryOf s 0x400000) :
    Hidden s' := by
  unfold Hidden frameAt
  rw [he]
  split_ifs
  · exact hw
  · exact h

/-- The directory stays hidden while no call targets its frame: the allocator does not return it. -/
def hiddenPolicy : Policy :=
  .ofSpares (fun s => Wf s ∧ Hidden s) (fun _ w => frameOf w ≠ 0x400000) And.left
    (fun h he => ⟨he.wf, h.2.extends he⟩)
    (fun h hw hs => ⟨hs.wf, h.2.of_entry (fun _ => hw) (entryOf_sets hs 0x400000)⟩)
    (fun h hc => ⟨hc.wf, h.2.of_entry (fun hp => absurd hp not_present_zero)
      (hc.entry _ (dirIndex_lt _) _ (tableIndex_lt _))⟩)
    (fun h hp => by
      rw [frameOf_heap, ← h.1.dir]
      exact (h.1.pageOf_ne hp).1)

/-- **The structures are never mapped to themselves**: not after `paging_init`, and not in the states
reached from there. -/
theorem never_identityMapped (mem : Words) (memorySize : U32) (es : List Event) :
    ¬ Throughout (total step) IdentityMapped (start mem memorySize) es ∧
    ∀ t, memorySize.toNat / 4096 ≤ 32768 → Run (total step) (start mem memorySize) es t →
      Along (total step) (Permits Spares fun _ w => frameOf w ≠ 0x400000) (start mem memorySize) es →
      Throughout (total step) (fun s => ¬ IdentityMapped s) (start mem memorySize) es := by
  constructor
  · intro hall
    exact (hidden_start mem memorySize).not_identityMapped (directory_start mem memorySize) hall.first
  · intro t hfit h ha
    refine hiddenPolicy.run (fun s hs => ?_) h ha ⟨wf_start (bitmapWords_fits hfit), hidden_start mem _⟩
    exact hs.2.not_identityMapped hs.1.dir

/-- One fault in the heap, with 8 MB of memory. -/
theorem never_identityMapped_fault :
    Throughout (total step) (fun s => ¬ IdentityMapped s) (start (fun _ => 0) 0x800000)
      [(.fault 0 heapStart, none)] :=
  (never_identityMapped (fun _ => 0) 0x800000 _).2 _ (by decide) (run_one _ (.fault 0 heapStart))
    (along_one trivial)

theorem directory_unmapped : pagingGetPhysicalAddr (start (fun _ => 0) 0x800000) 0x400000 ≠ 0x400000 ∧
    ¬ IdentityMapped (start (fun _ => 0) 0x800000) := by
  have hentry : entryOf (start (fun _ => 0) 0x800000) 0x400000 = 0 :=
    (entry_start (by decide) (by decide) (by decide)).trans (if_neg (by decide))
  refine ⟨?_, (hidden_start _ _).not_identityMapped (directory_start _ _)⟩
  rw [get_eq, hentry, if_neg not_present_zero]
  decide

end BloodKernel.Paging
