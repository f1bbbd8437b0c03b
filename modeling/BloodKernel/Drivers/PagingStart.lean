import BloodKernel.Drivers.PagingTables

set_option autoImplicit false

/-!
# After `paging_init`

* `start_eq`: the memory and the static data after `paging_init`, whatever the memory was before;
* `free_start`, `entry_start`: the pages that are free, and the entries of the tables;
* **`wf_start`**: the structures are apart and marked used, if the bitmap fits into its page.
-/

namespace BloodKernel.Paging

open Lib

variable {s s' : State} {f : U32} {q d k : ℕ}

/-- The entry of the kernel's table in the directory. -/
def kernelPde : U32 := 0x401000 ||| pagePresent ||| pageWritable

/-- The words of the bitmap for a memory of the given size. -/
def bitmapWords (memorySize : U32) : U32 := BitVec.ofNat 32 ((memorySize.toNat / 4096 + 31) / 32)

/-- The tables that `paging_init` sets up. -/
def initTables (mem : Words) : Words :=
  let mem := setWord (fill mem 0x400000 (fun _ => 0) 1024) 0x400000 0 kernelPde
  setWord (fill mem 0x401000 identityEntry 1024) 0x400000 kernelPageNumber kernelPde

/-- The state before the pages of the kernel are marked. -/
def unmarked (mem : Words) (memorySize : U32) : State :=
  ⟨0x400000, 0x403000, memorySize, 0x402000, bitmapWords memorySize,
    fill (initTables mem) 0x402000 (fun _ => 0) (bitmapWords memorySize).toNat, []⟩

theorem alloc_of_no_bitmap (h : s.pageBitmap = 0) : allocPhysicalPage s =
    (s.nextFreePage, { s with nextFreePage := s.nextFreePage + 4096 }) := if_pos h

theorem initDirectory_eq (h : s.pageBitmap = 0) : initDirectory s =
    ⟨s.nextFreePage, s.nextFreePage + 4096, s.totalMemory, s.pageBitmap, s.bitmapSize,
      fill s.mem s.nextFreePage (fun _ => 0) 1024, s.handed⟩ := by
  unfold initDirectory
  rw [alloc_of_no_bitmap h]

theorem initKernelTable_eq (h : s.pageBitmap = 0) : initKernelTable s =
    ⟨s.pageDirectory, s.nextFreePage + 4096, s.totalMemory, s.pageBitmap, s.bitmapSize,
      setWord (fill (setWord s.mem s.pageDirectory 0 (s.nextFreePage ||| pagePresent ||| pageWritable))
        s.nextFreePage identityEntry 1024) s.pageDirectory kernelPageNumber
        (s.nextFreePage ||| pagePresent ||| pageWritable), s.handed⟩ := by
  simp only [initKernelTable, alloc_of_no_bitmap h, State.write]

theorem initBitmap_eq (h : s.pageBitmap = 0) (memorySize : U32) : initBitmap s memorySize =
    ⟨s.pageDirectory, s.nextFreePage + 4096, s.totalMemory, s.nextFreePage, bitmapWords memorySize,
      fill s.mem s.nextFreePage (fun _ => 0) (bitmapWords memorySize).toNat, s.handed⟩ := by
  simp only [initBitmap, alloc_of_no_bitmap, h, bitmapWords]

theorem start_eq (mem : Words) (memorySize : U32) :
    start mem memorySize = markPages (unmarked mem memorySize) 1027 := by
  simp only [start, pagingInit, boot, initDirectory_eq, initKernelTable_eq, initBitmap_eq]
  rfl

section Start

variable {mem : Words} {memorySize : U32}

theorem bitmapWords_le (memorySize : U32) : (bitmapWords memorySize).toNat ≤ 32768 := by
  have := memorySize.isLt
  rw [bitmapWords, BitVec.toNat_ofNat]
  omega

theorem toNat_bitmapWords (memorySize : U32) :
    (bitmapWords memorySize).toNat = (memorySize.toNat / 4096 + 31) / 32 := by
  have := memorySize.isLt
  rw [bitmapWords, BitVec.toNat_ofNat]
  omega

theorem bitmapWords_fits (h : memorySize.toNat / 4096 ≤ 32768) :
    (bitmapWords memorySize).toNat ≤ 1024 := by
  rw [toNat_bitmapWords]
  omega

theorem pageStart_directoryPage : PageStart (0x400000 : U32) := rfl

theorem pageStart_kernelTable : PageStart (0x401000 : U32) := rfl

theorem pageStart_bitmapPage : PageStart (0x402000 : U32) := rfl

/-- Clearing the bitmap leaves the tables alone, whatever its size. -/
theorem word_unmarked (hf : f = 0x400000 ∨ f = 0x401000) {j : ℕ} (hj : j < 1024) :
    word (unmarked mem memorySize).mem f j = word (initTables mem) f j := by
  have hle := bitmapWords_le memorySize
  have hbase : (0x402000 : U32).toNat = 0x402000 := rfl
  have hlow : (wordAddr f j).toNat < 0x402000 := by
    rcases hf with rfl | rfl
    · rw [toNat_wordAddr pageStart_directoryPage hj]
      show 0x400000 + 4 * j < _
      omega
    · rw [toNat_wordAddr pageStart_kernelTable hj]
      show 0x401000 + 4 * j < _
      omega
  refine word_fill_of_ne fun k hk he => ?_
  rw [he, wordAddr, BitVec.toNat_add, BitVec.toNat_ofNat, hbase] at hlow
  omega

theorem pde_unmarked (hd : d < 1024) : (unmarked mem memorySize).pde d =
    if d = 0 ∨ d = kernelPageNumber then kernelPde else 0 := by
  have hdir := pageStart_directoryPage
  refine (word_unmarked (.inl rfl) hd).trans ?_
  simp only [initTables]
  rw [word_setWord hdir hdir (by decide) hd, word_fill_page pageStart_kernelTable hdir hd,
    word_setWord hdir hdir (by omega) hd, word_fill_page hdir hdir hd,
    if_neg (by decide : ¬ (0x400000 : U32) = 0x401000), if_pos rfl]
  by_cases h768 : d = kernelPageNumber
  · rw [if_pos ⟨rfl, h768⟩, if_pos (.inr h768)]
  · rw [if_neg fun h => h768 h.2]
    by_cases h0 : d = 0
    · rw [if_pos ⟨rfl, h0⟩, if_pos (.inl h0)]
    · rw [if_neg fun h => h0 h.2, if_neg fun h => h.elim h0 h768]

theorem word_kernelTable (hk : k < 1024) :
    word (unmarked mem memorySize).mem 0x401000 k = identityEntry k := by
  have htable := pageStart_kernelTable
  refine (word_unmarked (.inr rfl) hk).trans ?_
  simp only [initTables]
  rw [word_setWord pageStart_directoryPage htable (by decide) hk, word_fill_page htable htable hk,
    if_pos rfl]
  exact if_neg fun h => absurd h.1 (by decide)

theorem present_unmarked (hd : d < 1024) (hp : Present ((unmarked mem memorySize).pde d)) :
    d = 0 ∨ d = kernelPageNumber := by
  by_contra hn
  rw [pde_unmarked hd, if_neg hn] at hp
  exact not_present_zero hp

theorem table_unmarked (hd : d < 1024) (h : d = 0 ∨ d = kernelPageNumber) :
    (unmarked mem memorySize).table d = 0x401000 := by
  rw [State.table, pde_unmarked hd, if_pos h]
  decide

theorem layout_unmarked (h : (bitmapWords memorySize).toNat ≤ 1024) :
    Layout (unmarked mem memorySize) where
  dir := rfl
  bitmap := rfl
  size := h
  low := by
    rw [pde_unmarked (by omega), if_pos (.inl rfl)]
    decide
  high := by
    rw [pde_unmarked (by decide), if_pos (.inr rfl)]
    decide
  kernel := by
    rw [table_unmarked (by decide) (.inr rfl), table_unmarked (by omega) (.inl rfl)]
  apart d hd hp := by
    rw [table_unmarked hd (present_unmarked hd hp)]
    show (0x401000 : U32) ≠ 0x400000 ∧ (0x401000 : U32) ≠ 0x402000
    decide
  shared d hd d' hd' hp hp' _ := by
    rcases present_unmarked hd hp with h | h <;> rcases present_unmarked hd' hp' with h' | h'
    · exact .inl (h.trans h'.symm)
    · exact .inr (.inl ⟨h, h'⟩)
    · exact .inr (.inr ⟨h, h'⟩)
    · exact .inl (h.trans h'.symm)

theorem free_unmarked (h : (bitmapWords memorySize).toNat ≤ 1024) :
    Free (unmarked mem memorySize) q ↔ q < 32 * (bitmapWords memorySize).toNat := by
  refine and_iff_left_of_imp fun hq => ?_
  have hq : q < 32 * (bitmapWords memorySize).toNat := hq
  have hbits : (unmarked mem memorySize).bits (q / 32) = 0 := by
    refine (word_fill pageStart_bitmapPage pageStart_bitmapPage h (by omega)).trans ?_
    exact if_pos ⟨rfl, by omega⟩
  rw [hbits]
  exact BitVec.getLsbD_zero

/-- Marking pages leaves the tables alone, and takes the pages from the free ones. -/
theorem Layout.markPages_spec (h : Layout s) (n : ℕ) : Agree s (markPages s n) ∧
    (∀ q, Free (markPages s n) q ↔ Free s q ∧ n ≤ q) ∧ (markPages s n).handed = s.handed := by
  induction n with
  | zero => exact ⟨⟨rfl, rfl, rfl, fun _ _ => rfl, fun _ _ _ _ _ => rfl⟩,
      fun q => (and_iff_left (Nat.zero_le q)).symm, rfl⟩
  | succ n ih =>
      obtain ⟨hagree, hfree, hhanded⟩ := ih
      have hlay := h.of_agree hagree
      have hsize := hlay.size
      rw [markPages]
      by_cases hn : n / 32 < (markPages s n).bitmapSize.toNat
      · rw [if_pos hn]
        refine ⟨hagree.trans (hlay.agree_write_bits (by omega) _), fun q => ?_, hhanded⟩
        rw [hlay.free_set (by omega), hfree, and_assoc]
        refine and_congr_right fun _ => ?_
        omega
      · rw [if_neg hn]
        refine ⟨hagree, fun q => ?_, hhanded⟩
        rw [hfree]
        refine and_congr_right fun hq => ?_
        have hlt := hq.1
        rw [hagree.size] at hn
        omega

theorem agree_start (h : (bitmapWords memorySize).toNat ≤ 1024) :
    Agree (unmarked mem memorySize) (start mem memorySize) :=
  start_eq mem memorySize ▸ ((layout_unmarked h).markPages_spec 1027).1

theorem free_start (h : (bitmapWords memorySize).toNat ≤ 1024) :
    Free (start mem memorySize) q ↔ q < 32 * (bitmapWords memorySize).toNat ∧ 1027 ≤ q := by
  rw [start_eq, ((layout_unmarked h).markPages_spec 1027).2.1, free_unmarked h]

theorem handed_start (h : (bitmapWords memorySize).toNat ≤ 1024) :
    (start mem memorySize).handed = [] := by
  rw [start_eq, ((layout_unmarked h).markPages_spec 1027).2.2]
  rfl

/-- **After `paging_init`** the structures are apart, and marked used. -/
theorem wf_start (h : (bitmapWords memorySize).toNat ≤ 1024) : Wf (start mem memorySize) where
  toLayout := (layout_unmarked h).of_agree (agree_start h)
  used f hf hfree := by
    have hf := (agree_start h).owns.mp hf
    have hge := ((free_start h).mp hfree).2
    rcases hf with rfl | rfl | ⟨d, hd, hp, rfl⟩
    · have hge : 1027 ≤ pageNum 0x400000 := hge
      exact absurd hge (by decide)
    · have hge : 1027 ≤ pageNum 0x402000 := hge
      exact absurd hge (by decide)
    · rw [table_unmarked hd (present_unmarked hd hp)] at hge
      exact absurd hge (by decide)

theorem entry_start (h : (bitmapWords memorySize).toNat ≤ 1024) (hd : d < 1024) (hk : k < 1024) :
    entry (start mem memorySize) d k =
      if d = 0 ∨ d = kernelPageNumber then identityEntry k else 0 := by
  rw [(agree_start h).entry hd hk, entry]
  by_cases h' : d = 0 ∨ d = kernelPageNumber
  · have hpres : Present ((unmarked mem memorySize).pde d) := by
      rw [pde_unmarked hd, if_pos h']
      decide
    rw [if_pos hpres, if_pos h', State.pte, table_unmarked hd h', word_kernelTable hk]
  · rw [if_neg fun hp => h' (present_unmarked hd hp), if_neg h']

end Start

end BloodKernel.Paging
