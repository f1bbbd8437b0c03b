import BloodKernel.Drivers.PagingRuns

set_option autoImplicit false

/-!
# The frames of the allocator

`alloc_physical_page` must return frames inside the memory that do not meet the directory, the tables and
the bitmap. The size of the bitmap is rounded up to whole words and one frame is reserved for it, whatever
the size of the memory.

* `FrameOk`: what a frame has to satisfy;
* **`handed_frameOk`**: if the words of the bitmap cover no more than the memory, the bitmap fits into its
  frame, and no frame of the structures is freed, then every frame returned satisfies it;
* `frame_beyond_memory`: a bitmap that covers more returns a frame beyond the memory.
-/

namespace BloodKernel.Paging

open Lib

/-- The `n` bytes from `f` on and the `m` bytes from `g` on do not meet. -/
def Apart (f : U32) (n : ℕ) (g : U32) (m : ℕ) : Prop :=
  f.toNat + n ≤ g.toNat ∨ g.toNat + m ≤ f.toNat

/-- The page at `f` lies below `memorySize`, and not in the structures. -/
structure FrameOk (s : State) (memorySize f : U32) : Prop where
  below : f.toNat + 4096 ≤ memorySize.toNat
  directory : Apart f 4096 s.pageDirectory 4096
  table : ∀ d < 1024, Present (s.pde d) → Apart f 4096 (s.table d) 4096
  bitmap : Apart f 4096 s.pageBitmap (4 * s.bitmapSize.toNat)

/-- `f` is a page that the bitmap covers, and not one of the structures. -/
def Outside (s : State) (f : U32) : Prop := ¬ Owns s f ∧ ∃ p < 32 * s.bitmapSize.toNat, f = pageOf p

variable {s s' : State} {f : U32} {p : ℕ}

theorem Outside.of_agree (h : Agree s s') (ho : Outside s f) : Outside s' f := by
  obtain ⟨hf, p, hp, he⟩ := ho
  exact ⟨fun ho' => hf (h.owns.mp ho'), p, h.size.symm ▸ hp, he⟩

theorem outside_taken (h : Wf s) (hp : Free s p) : Outside (taken s p) (pageOf p) :=
  ⟨fun ho => h.not_owns hp ((h.agree_taken hp).owns.mp ho), p, hp.1, rfl⟩

/-- Every frame returned was outside the structures when it was returned. The bitmap has `n` words. -/
structure Accounted (n : U32) (s : State) : Prop where
  wf : Wf s
  size : s.bitmapSize = n
  handed : ∀ g ∈ s.handed, Outside (atGrant s g) g.frame

theorem Accounted.next {n : U32} (h : Accounted n s) (hwf : Wf s') (hsize : s'.bitmapSize = s.bitmapSize)
    (hgrants : s'.handed = s.handed ∨ ∃ p, Free s p ∧ s'.handed = (taken s p).handed) :
    Accounted n s' :=
  ⟨hwf, hsize.trans h.size, handed_of_grants Outside.of_agree h.wf hwf hsize
    (fun _ => outside_taken h.wf) hgrants h.handed⟩

def accountedPolicy (n : U32) : Policy :=
  .ofSpares (Accounted n) (fun _ _ => True) Accounted.wf
    (fun h he => h.next he.wf he.size he.grants) (fun h _ hs => h.next hs.wf hs.size hs.grants)
    (fun h hc => h.next hc.wf hc.size (.inl hc.handed)) (fun _ _ => trivial)

theorem apart_of_ne {g : U32} (hf : PageStart f) (hg : PageStart g) (hne : f ≠ g) {m : ℕ} (hm : m ≤ 4096) :
    Apart f 4096 g m := by
  have hfm : f.toNat % 4096 = 0 := hf
  have hgm : g.toNat % 4096 = 0 := hg
  have hne' : f.toNat ≠ g.toNat := fun he => hne (BitVec.eq_of_toNat_eq he)
  unfold Apart
  omega

section Memory

variable {mem : Words} {memorySize : U32}

theorem accounted_run (hfit : memorySize.toNat / 4096 ≤ 32768) {es : List Event} {t : State}
    (h : Run (total step) (start mem memorySize) es t)
    (ha : Along (total step) (Permits Spares fun _ _ => True) (start mem memorySize) es) :
    Accounted (bitmapWords memorySize) t := by
  have hwords := bitmapWords_fits hfit
  refine ((accountedPolicy _).run (fun _ => id) h ha ⟨wf_start hwords, (agree_start hwords).size, ?_⟩).last h
  rw [handed_start hwords]
  exact fun g hg => absurd hg List.not_mem_nil

/-- **The frames returned**, for a memory of whole words of the bitmap and a bitmap of one frame, in runs
that free no frame of the structures. -/
theorem handed_frameOk (hwhole : memorySize.toNat / 4096 % 32 = 0)
    (hfit : memorySize.toNat / 4096 ≤ 32768) {es : List Event} {t : State}
    (h : Run (total step) (start mem memorySize) es t)
    (ha : Along (total step) (Permits Spares fun _ _ => True) (start mem memorySize) es) :
    ∀ g ∈ t.handed, g.frame ≠ 0 → FrameOk (atGrant t g) memorySize g.frame := by
  intro g hg _
  obtain ⟨hwf, hsize, hout⟩ := accounted_run hfit h ha
  obtain ⟨howns, p, hp, he⟩ := hout g hg
  have hp : p < 32 * t.bitmapSize.toNat := hp
  rw [hsize, toNat_bitmapWords] at hp
  have hpage : PageStart g.frame := he ▸ pageStart_pageOf p
  refine ⟨?_, ?_, fun d hd hpres => ?_, ?_⟩
  · rw [he, toNat_pageOf (by omega)]
    omega
  · exact apart_of_ne hpage hwf.pageStart_dir (fun heq => howns (.inl heq)) le_rfl
  · exact apart_of_ne hpage (pageStart_table _ d)
      (fun heq => howns (.inr (.inr ⟨d, hd, hpres, heq.symm⟩))) le_rfl
  · refine apart_of_ne hpage hwf.pageStart_bitmap (fun heq => howns (.inr (.inl heq))) ?_
    have := hwf.size
    show 4 * t.bitmapSize.toNat ≤ 4096
    omega

end Memory

theorem mem_handed_first {mem : Words} {memorySize : U32}
    (hfit : (bitmapWords memorySize).toNat ≤ 1024) (h : 1027 < 32 * (bitmapWords memorySize).toNat) :
    ∃ g ∈ (step (start mem memorySize) (.fault 0 heapStart)).2.handed, g.frame = 0x403000 := by
  refine mem_handed_fault (p := 1027) (wf_start hfit) ((free_start hfit).mpr ⟨h, le_rfl⟩)
    (fun q hq hf => ?_) (by decide) (by decide)
  exact absurd ((free_start hfit).mp hf).2 (Nat.not_le.mpr hq)

/-- A fault in the heap, with 8 MB of memory. -/
theorem handed_frameOk_fault :
    (∃ g ∈ (step (start (fun _ => 0) 0x800000) (.fault 0 heapStart)).2.handed, g.frame = 0x403000) ∧
      ∀ g ∈ (step (start (fun _ => 0) 0x800000) (.fault 0 heapStart)).2.handed, g.frame ≠ 0 →
        FrameOk (atGrant (step (start (fun _ => 0) 0x800000) (.fault 0 heapStart)).2 g) 0x800000 g.frame :=
  ⟨mem_handed_first (by decide) (by decide),
    handed_frameOk (by decide) (by decide) (run_one _ _) (along_one trivial)⟩

/-- With 1025 pages of memory the bitmap has bits for 1056, and the first frame returned is page 1027. -/
theorem frame_beyond_memory :
    ∃ es t, Run (total step) (start (fun _ => 0) 0x401000) es t ∧
      Along (total step) (Permits Spares fun _ _ => True) (start (fun _ => 0) 0x401000) es ∧
      ∃ g ∈ t.handed, g.frame ≠ 0 ∧ ¬ FrameOk (atGrant t g) 0x401000 g.frame := by
  have hfirst : ∃ g ∈ (step (start (fun _ => 0) 0x401000) (.fault 0 heapStart)).2.handed,
      g.frame = 0x403000 := mem_handed_first (by decide) (by decide)
  obtain ⟨g, hg, he⟩ := hfirst
  refine ⟨_, _, run_one _ (.fault 0 heapStart), along_one trivial, g, hg, ?_, fun hok => ?_⟩
  · rw [he]
    decide
  · have hbelow := hok.below
    rw [he] at hbelow
    exact absurd hbelow (by decide)

end BloodKernel.Paging
