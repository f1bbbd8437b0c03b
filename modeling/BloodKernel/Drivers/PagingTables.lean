import BloodKernel.Drivers.Paging
import BloodKernel.Lib.Search

set_option autoImplicit false

/-!
# The structures of the paging driver

What the functions of the driver do to the bitmap and to the entries of the page tables, as long as no two
of its structures share a frame.

* `Free`, `entry`: the pages marked free in the bitmap, and the entries that translate the linear pages;
* `Owns`, `Wf`: the frames of the structures; they are distinct, and marked used;
* `Wf.alloc_eq`, `Wf.free_spec`, **`Wf.map_spec`**, **`Wf.unmap_spec`**: what the functions change, for
  states satisfying `Wf`.
-/

namespace BloodKernel.Paging

open Lib

/-- The number of the page at an address. -/
def pageNum (f : U32) : ℕ := f.toNat / 4096

/-- The address of page `p`. -/
def pageOf (p : ℕ) : U32 := BitVec.ofNat 32 p * 4096

/-- Page `p` is marked free. -/
def Free (s : State) (p : ℕ) : Prop :=
  p < 32 * s.bitmapSize.toNat ∧ (s.bits (p / 32)).getLsbD (p % 32) = false

/-- The bitmap has a bit for the page at `f`. -/
def Tracked (s : State) (f : U32) : Prop := pageNum f < 32 * s.bitmapSize.toNat

/-- Entry `k` of the table of directory entry `d`, 0 if there is no table. -/
def entry (s : State) (d k : ℕ) : U32 := if Present (s.pde d) then s.pte d k else 0

/-- `f` is the frame of the directory, of a table in use or of the bitmap. -/
def Owns (s : State) (f : U32) : Prop :=
  f = s.pageDirectory ∨ f = s.pageBitmap ∨ ∃ d < 1024, Present (s.pde d) ∧ s.table d = f

/-- Two directory entries share a table by design: the kernel's, in both halves. -/
def SameDir (d d' : ℕ) : Prop :=
  d = d' ∨ (d = 0 ∧ d' = kernelPageNumber) ∨ (d = kernelPageNumber ∧ d' = 0)

/-- The structures do not meet. The bitmap fits into its page. -/
structure Layout (s : State) : Prop where
  dir : s.pageDirectory = 0x400000
  bitmap : s.pageBitmap = 0x402000
  size : s.bitmapSize.toNat ≤ 1024
  low : Present (s.pde 0)
  high : Present (s.pde kernelPageNumber)
  kernel : s.table kernelPageNumber = s.table 0
  apart : ∀ d < 1024, Present (s.pde d) → s.table d ≠ s.pageDirectory ∧ s.table d ≠ s.pageBitmap
  shared : ∀ d < 1024, ∀ d' < 1024, Present (s.pde d) → Present (s.pde d') →
    s.table d = s.table d' → SameDir d d'

/-- The structures do not meet, and their frames are marked used. -/
structure Wf (s : State) : Prop extends Layout s where
  used : ∀ f, Owns s f → ¬ Free s (pageNum f)

variable {s s' : State} {f : U32} {p q d k : ℕ}

/-! ### Addresses in entries -/

theorem frameOf_eq (w : U32) : frameOf w = w &&& BitVec.allOnes 32 <<< 12 := by
  have hmask : (0xFFFFF000 : U32) = BitVec.allOnes 32 <<< 12 := by decide
  rw [frameOf, hmask]

theorem getLsbD_frameOf (w : U32) {i : ℕ} (hi : i < 32) :
    (frameOf w).getLsbD i = (w.getLsbD i && decide (12 ≤ i)) := by
  rw [frameOf_eq, getLsbD_and_allOnes_shiftLeft w 12 hi]

theorem toNat_frameOf (w : U32) : (frameOf w).toNat = w.toNat / 4096 * 4096 := by
  rw [frameOf_eq]
  exact toNat_and_allOnes_shiftLeft w 12

theorem pageStart_frameOf (w : U32) : PageStart (frameOf w) := by
  unfold PageStart
  rw [toNat_frameOf, Nat.mul_mod_left]

theorem frameOf_of_pageStart (h : PageStart f) : frameOf f = f := by
  have hmod : f.toNat % 4096 = 0 := h
  apply BitVec.eq_of_toNat_eq
  rw [toNat_frameOf]
  omega

/-- The flags of an entry do not change its address. -/
theorem frameOf_or {flags : U32} (h : PageStart f) (hflags : flags.toNat < 4096) :
    frameOf (f ||| flags) = f := by
  apply BitVec.eq_of_getLsbD_eq
  intro i hi
  have hf : f.getLsbD i = (f.getLsbD i && decide (12 ≤ i)) := by
    rw [← getLsbD_frameOf f hi, frameOf_of_pageStart h]
  rw [getLsbD_frameOf _ hi, BitVec.getLsbD_or]
  by_cases h12 : 12 ≤ i
  · have hpow : 2 ^ 12 ≤ 2 ^ i := Nat.pow_le_pow_right (by decide) h12
    have hlow : flags.getLsbD i = false := Nat.testBit_lt_two_pow (hflags.trans_le hpow)
    simp [hlow, h12]
  · rw [hf]
    simp [h12]

theorem present_iff {w : U32} : Present w ↔ w.getLsbD 0 = true := by
  have h := and_bit_eq_zero (v := w) (i := 0) (by omega)
  have hbit : bit 0 = pagePresent := by decide
  rw [hbit] at h
  unfold Present
  rw [ne_eq, h, Bool.not_eq_false]

theorem present_or {w v : U32} (h : Present v) : Present (w ||| v) := by
  rw [present_iff] at h ⊢
  rw [BitVec.getLsbD_or, h, Bool.or_true]

theorem not_present_zero : ¬ Present 0 := fun h => h rfl

theorem toNat_pageOf (hp : p < 2 ^ 20) : (pageOf p).toNat = p * 4096 := by
  have h : (4096 : U32).toNat = 4096 := rfl
  rw [pageOf, BitVec.toNat_mul, BitVec.toNat_ofNat, h]
  omega

theorem pageNum_pageOf (hp : p < 2 ^ 20) : pageNum (pageOf p) = p := by
  rw [pageNum, toNat_pageOf hp, Nat.mul_div_cancel _ (by decide)]

theorem pageStart_pageOf (p : ℕ) : PageStart (pageOf p) := by
  have h : (4096 : U32).toNat = 4096 := rfl
  unfold PageStart
  rw [pageOf, BitVec.toNat_mul, BitVec.toNat_ofNat, h]
  omega

theorem dirIndex_lt (v : U32) : dirIndex v < 1024 := by
  have := v.isLt
  rw [dirIndex, BitVec.toNat_ushiftRight, Nat.shiftRight_eq_div_pow]
  omega

theorem toNat_tableIndex (v : U32) : tableIndex v = v.toNat / 4096 % 1024 := by
  have hmask : (0x3FF : U32).toNat = 2 ^ 10 - 1 := rfl
  rw [tableIndex, BitVec.toNat_and, hmask, Nat.and_two_pow_sub_one_eq_mod, BitVec.toNat_ushiftRight,
    Nat.shiftRight_eq_div_pow]

theorem tableIndex_lt (v : U32) : tableIndex v < 1024 := by
  rw [toNat_tableIndex]
  exact Nat.mod_lt _ (by omega)

/-! ### What is left alone -/

/-- The tables of `s'` are those of `s`. -/
structure Agree (s s' : State) : Prop where
  dir : s'.pageDirectory = s.pageDirectory
  bitmap : s'.pageBitmap = s.pageBitmap
  size : s'.bitmapSize = s.bitmapSize
  pde : ∀ d < 1024, s'.pde d = s.pde d
  pte : ∀ d < 1024, ∀ k < 1024, Present (s.pde d) → s'.pte d k = s.pte d k

theorem Agree.table (h : Agree s s') (hd : d < 1024) : s'.table d = s.table d := by
  rw [State.table, State.table, h.pde d hd]

theorem Agree.entry (h : Agree s s') (hd : d < 1024) (hk : k < 1024) :
    entry s' d k = entry s d k := by
  unfold Paging.entry
  rw [h.pde d hd]
  split_ifs with hp
  · exact h.pte d hd k hk hp
  · rfl

theorem Agree.owns (h : Agree s s') : Owns s' f ↔ Owns s f := by
  unfold Owns
  rw [h.dir, h.bitmap]
  refine or_congr Iff.rfl (or_congr Iff.rfl (exists_congr fun d => and_congr_right fun hd => ?_))
  rw [h.pde d hd, h.table hd]

theorem Agree.trans {s'' : State} (h : Agree s s') (h' : Agree s' s'') : Agree s s'' where
  dir := h'.dir.trans h.dir
  bitmap := h'.bitmap.trans h.bitmap
  size := h'.size.trans h.size
  pde d hd := (h'.pde d hd).trans (h.pde d hd)
  pte d hd k hk hp := (h'.pte d hd k hk (by rwa [h.pde d hd])).trans (h.pte d hd k hk hp)

/-- Whether the structures meet depends on the directory and the static data only. -/
theorem Layout.of_pde (hs : Layout s) (hdir : s'.pageDirectory = s.pageDirectory)
    (hbitmap : s'.pageBitmap = s.pageBitmap) (hsize : s'.bitmapSize = s.bitmapSize)
    (hpde : ∀ d < 1024, s'.pde d = s.pde d) : Layout s' := by
  have htable : ∀ d < 1024, s'.table d = s.table d := fun d hd => by
    rw [State.table, State.table, hpde d hd]
  refine ⟨hdir.trans hs.dir, hbitmap.trans hs.bitmap, hsize ▸ hs.size, ?_, ?_, ?_, ?_, ?_⟩
  · rw [hpde 0 (by omega)]
    exact hs.low
  · rw [hpde _ (by decide)]
    exact hs.high
  · rw [htable _ (by decide), htable 0 (by omega)]
    exact hs.kernel
  · intro d hd hp
    rw [hpde d hd] at hp
    rw [htable d hd, hdir, hbitmap]
    exact hs.apart d hd hp
  · intro d hd d' hd' hp hp' he
    rw [hpde d hd] at hp
    rw [hpde d' hd'] at hp'
    rw [htable d hd, htable d' hd'] at he
    exact hs.shared d hd d' hd' hp hp' he

theorem Layout.of_agree (hs : Layout s) (h : Agree s s') : Layout s' :=
  hs.of_pde h.dir h.bitmap h.size h.pde

theorem Wf.of_agree (hs : Wf s) (h : Agree s s')
    (hfree : ∀ f, Owns s f → Free s' (pageNum f) → Free s (pageNum f)) : Wf s' where
  toLayout := hs.toLayout.of_agree h
  used f hf hfr := hs.used f (h.owns.mp hf) (hfree f (h.owns.mp hf) hfr)

/-! ### The bitmap -/

theorem Layout.pageStart_dir (h : Layout s) : PageStart s.pageDirectory := by
  rw [h.dir]
  rfl

theorem Layout.pageStart_bitmap (h : Layout s) : PageStart s.pageBitmap := by
  rw [h.bitmap]
  rfl

theorem pageStart_table (s : State) (d : ℕ) : PageStart (s.table d) := pageStart_frameOf _

theorem Layout.agree_write_bits (h : Layout s) {i : ℕ} (hi : i < 1024) (v : U32) :
    Agree s (s.write s.pageBitmap i v) := by
  have hpde : ∀ d < 1024, (s.write s.pageBitmap i v).pde d = s.pde d := fun d hd => by
    refine (word_setWord h.pageStart_bitmap h.pageStart_dir hi hd).trans (if_neg fun he => ?_)
    rw [h.dir, h.bitmap] at he
    exact absurd he.1 (by decide)
  refine ⟨rfl, rfl, rfl, hpde, fun d hd k hk hp => ?_⟩
  have htable : (s.write s.pageBitmap i v).table d = s.table d := by
    rw [State.table, State.table, hpde d hd]
  rw [State.pte, htable]
  exact (word_setWord h.pageStart_bitmap (pageStart_table s d) hi hk).trans
    (if_neg fun he => (h.apart d hd hp).2 he.1)

theorem Layout.bits_write_bits (h : Layout s) {i j : ℕ} (hi : i < 1024) (hj : j < 1024) (v : U32) :
    (s.write s.pageBitmap i v).bits j = if j = i then v else s.bits j :=
  (word_setWord h.pageStart_bitmap h.pageStart_bitmap hi hj).trans
    (if_congr (and_iff_right rfl) rfl rfl)

theorem Layout.free_set (h : Layout s) (hp : p < 32 * s.bitmapSize.toNat) :
    Free (s.write s.pageBitmap (p / 32) (s.bits (p / 32) ||| bit (p % 32))) q ↔ Free s q ∧ q ≠ p := by
  have hsize := h.size
  unfold Free
  rw [and_assoc]
  refine and_congr_right fun hq => ?_
  have hq : q < 32 * s.bitmapSize.toNat := hq
  rw [h.bits_write_bits (by omega) (by omega)]
  by_cases he : q / 32 = p / 32
  · rw [if_pos he, getLsbD_or_bit, he, Bool.or_eq_false_iff, decide_eq_false_iff_not]
    refine and_congr_right fun _ => ?_
    omega
  · rw [if_neg he]
    exact (and_iff_left fun hqp => he (by rw [hqp])).symm

theorem Layout.free_clear (h : Layout s) (hp : p < 32 * s.bitmapSize.toNat) :
    Free (s.write s.pageBitmap (p / 32) (s.bits (p / 32) &&& ~~~bit (p % 32))) q ↔ Free s q ∨ q = p := by
  have hsize := h.size
  unfold Free
  have hlt : q < 32 * (s.write s.pageBitmap (p / 32) (s.bits (p / 32) &&& ~~~bit (p % 32))).bitmapSize.toNat
      ↔ q < 32 * s.bitmapSize.toNat := Iff.rfl
  rw [hlt]
  by_cases hq : q < 32 * s.bitmapSize.toNat
  · rw [and_iff_right hq, and_iff_right hq, h.bits_write_bits (by omega) (by omega)]
    by_cases he : q / 32 = p / 32
    · rw [if_pos he, he, getLsbD_and_not_bit (by omega), Bool.and_eq_false_iff,
        decide_eq_false_iff_not, not_not]
      refine or_congr Iff.rfl ?_
      omega
    · rw [if_neg he]
      exact (or_iff_left fun hqp => he (by rw [hqp])).symm
  · exact iff_of_false (fun h' => hq h'.1) fun h' => h'.elim (fun h'' => hq h''.1) fun he => hq (he ▸ hp)

theorem clearBit_eq_some {w : U32} {b : ℕ} (h : clearBit w = some b) :
    b < 32 ∧ w.getLsbD b = false ∧ ∀ c < b, w.getLsbD c = true := by
  rw [clearBit, List.find?_range_eq_some, decide_eq_true_eq, List.mem_range] at h
  obtain ⟨hb, hlt, hless⟩ := h
  refine ⟨hlt, (and_bit_eq_zero hlt).mp hb, fun c hc => ?_⟩
  have hne := hless c hc
  rwa [Bool.not_eq_true', decide_eq_false_iff_not, and_bit_eq_zero (hc.trans hlt),
    Bool.not_eq_false] at hne

theorem clear_of_none {w : U32} {i : ℕ}
    (h : (if w ≠ 0xFFFFFFFF then (clearBit w).map (i, ·) else none) = none) {b : ℕ} (hb : b < 32) :
    w.getLsbD b = true := by
  by_cases hw : w = 0xFFFFFFFF
  · have hones : (0xFFFFFFFF : U32) = BitVec.allOnes 32 := by decide
    rw [hw, hones, BitVec.getLsbD_allOnes, decide_eq_true hb]
  · rw [if_pos hw, Option.map_eq_none_iff, clearBit, List.find?_range_eq_none] at h
    have hne := h b hb
    rwa [Bool.not_eq_true', decide_eq_false_iff_not, and_bit_eq_zero hb, Bool.not_eq_false] at hne

theorem findClear_eq_some {i b : ℕ} (h : findClear s = some (i, b)) :
    b < 32 ∧ Free s (i * 32 + b) ∧ ∀ q < i * 32 + b, ¬ Free s q := by
  obtain ⟨j, hj, hfound, hless⟩ := findSome_range_eq_some_iff.mp h
  by_cases hw : s.bits j = 0xFFFFFFFF
  · rw [if_neg (not_not.mpr hw)] at hfound
    cases hfound
  · rw [if_pos hw, Option.map_eq_some_iff] at hfound
    obtain ⟨c, hc, he⟩ := hfound
    obtain ⟨rfl, rfl⟩ : j = i ∧ c = b := by simpa using he
    obtain ⟨hb, hclear, hset⟩ := clearBit_eq_some hc
    have hdiv : (j * 32 + c) / 32 = j := by omega
    have hmod : (j * 32 + c) % 32 = c := by omega
    refine ⟨hb, ⟨by omega, by rwa [hdiv, hmod]⟩, fun q hq hfree => ?_⟩
    -- an earlier page is in an earlier word, or in this one before the bit found
    rcases Nat.lt_or_ge (q / 32) j with hlt | hge
    · have hused := clear_of_none (hless _ hlt) (Nat.mod_lt q (by omega))
      rw [hfree.2] at hused
      cases hused
    · have hqj : q / 32 = j := by omega
      have hused := hset (q % 32) (by omega)
      rw [← hqj, hfree.2] at hused
      cases hused

theorem findClear_eq_none (h : findClear s = none) (q : ℕ) : ¬ Free s q := by
  intro hfree
  have hq := hfree.1
  have hused := clear_of_none (findSome_range_eq_none_iff.mp h (q / 32) (by omega))
    (Nat.mod_lt q (by omega))
  rw [hfree.2] at hused
  cases hused

/-- The state after page `p` has been handed out. -/
def taken (s : State) (p : ℕ) : State :=
  { s with
    mem := setWord s.mem s.pageBitmap (p / 32) (s.bits (p / 32) ||| bit (p % 32))
    handed := s.handed ++
      [⟨pageOf p, setWord s.mem s.pageBitmap (p / 32) (s.bits (p / 32) ||| bit (p % 32))⟩] }

/-- **The allocator** hands out the first free page. -/
theorem Wf.alloc_eq (h : Wf s) :
    (∃ p, Free s p ∧ (∀ q < p, ¬ Free s q) ∧ allocPhysicalPage s = (pageOf p, taken s p)) ∨
      ((∀ q, ¬ Free s q) ∧ allocPhysicalPage s = (0, s)) := by
  have hne : s.pageBitmap ≠ 0 := by
    rw [h.bitmap]
    decide
  unfold allocPhysicalPage
  rw [if_neg hne]
  cases hf : findClear s with
  | none => exact .inr ⟨findClear_eq_none hf, rfl⟩
  | some x =>
      obtain ⟨hb, hfree, hless⟩ := findClear_eq_some (i := x.1) (b := x.2) hf
      have hdiv : (x.1 * 32 + x.2) / 32 = x.1 := by omega
      have hmod : (x.1 * 32 + x.2) % 32 = x.2 := by omega
      refine .inl ⟨_, hfree, hless, ?_⟩
      unfold taken
      rw [hdiv, hmod]
      rfl

theorem Wf.agree_taken (h : Wf s) (hp : Free s p) : Agree s (taken s p) := by
  have hsize := h.size
  have hlt := hp.1
  have hagree := h.agree_write_bits (i := p / 32) (by omega) (s.bits (p / 32) ||| bit (p % 32))
  exact ⟨hagree.dir, hagree.bitmap, hagree.size, hagree.pde, hagree.pte⟩

theorem Wf.free_taken (h : Wf s) (hp : Free s p) : Free (taken s p) q ↔ Free s q ∧ q ≠ p :=
  h.free_set hp.1

theorem Wf.taken (h : Wf s) (hp : Free s p) : Wf (taken s p) :=
  h.of_agree (h.agree_taken hp) fun _ _ hf => ((h.free_taken hp).mp hf).1

theorem Wf.lt_of_free (h : Wf s) (hp : Free s p) : p < 2 ^ 20 := by
  have := h.size
  have := hp.1
  omega

/-- A page marked free is not one of the structures. -/
theorem Wf.not_owns (h : Wf s) (hp : Free s p) : ¬ Owns s (pageOf p) := fun ho =>
  h.used _ ho (by rwa [pageNum_pageOf (h.lt_of_free hp)])

/-! ### Freeing -/

/-- Freeing a frame that the bitmap covers marks its page. -/
theorem Layout.free_freePhysicalPage (h : Layout s) (hf : Tracked s f) :
    Free (freePhysicalPage s f) q ↔ Free s q ∨ q = pageNum f := by
  have hne : s.pageBitmap ≠ 0 := by
    rw [h.bitmap]
    decide
  have hlt : f.toNat / 4096 / 32 < s.bitmapSize.toNat := by
    unfold Tracked pageNum at hf
    omega
  unfold freePhysicalPage
  rw [if_neg hne, if_pos hlt]
  exact h.free_clear hf

theorem Layout.free_spec (h : Layout s) (f : U32) : Agree s (freePhysicalPage s f) ∧
    (∀ q, Free (freePhysicalPage s f) q → Free s q ∨ q = pageNum f) ∧
    (freePhysicalPage s f).handed = s.handed := by
  have hne : s.pageBitmap ≠ 0 := by
    rw [h.bitmap]
    decide
  have hsize := h.size
  unfold freePhysicalPage
  rw [if_neg hne]
  by_cases hlt : f.toNat / 4096 / 32 < s.bitmapSize.toNat
  · rw [if_pos hlt]
    exact ⟨h.agree_write_bits (by omega) _, fun q => (h.free_clear (p := pageNum f)
      (by unfold pageNum; omega)).mp, rfl⟩
  · rw [if_neg hlt]
    exact ⟨⟨rfl, rfl, rfl, fun _ _ => rfl, fun _ _ _ _ _ => rfl⟩, fun _ hq => .inl hq, rfl⟩

/-! ### New tables -/

/-- From `s` to `s'` at most one page is taken, which may become a table; no translation changes. -/
structure Extends (s s' : State) : Prop where
  wf : Wf s'
  size : s'.bitmapSize = s.bitmapSize
  entry : ∀ d < 1024, ∀ k < 1024, entry s' d k = entry s d k
  free : ∀ q, Free s' q → Free s q
  owns : ∀ f, Owns s' f → Owns s f ∨ Free s (pageNum f)
  grants : s'.handed = s.handed ∨ ∃ p, Free s p ∧ s'.handed = (taken s p).handed

theorem Wf.extends_refl (h : Wf s) : Extends s s where
  wf := h
  size := rfl
  entry _ _ _ _ := rfl
  free _ hq := hq
  owns _ hf := .inl hf
  grants := .inl rfl

theorem Wf.extends_taken (h : Wf s) (hp : Free s p) : Extends s (Paging.taken s p) where
  wf := h.taken hp
  size := rfl
  entry _ hd _ hk := (h.agree_taken hp).entry hd hk
  free _ hq := ((h.free_taken hp).mp hq).1
  owns _ hf := .inl ((h.agree_taken hp).owns.mp hf)
  grants := .inr ⟨p, hp, rfl⟩

/-- The state after page `p` has become the table of directory entry `d`. -/
def newTable (s : State) (p d : ℕ) : State :=
  { taken s p with mem := fill (taken s p).mem (pageOf p) (fun _ => 0) 1024 }.write s.pageDirectory d
    (pageOf p ||| pagePresent ||| pageWritable ||| pageUser)

/-- Clearing the new table and entering it into the directory changes no other page. -/
theorem Wf.word_newTable (h : Wf s) (p : ℕ) (hd : d < 1024) {f : U32} (hf : PageStart f) {j : ℕ}
    (hj : j < 1024) : word (newTable s p d).mem f j =
      if f = s.pageDirectory ∧ j = d then pageOf p ||| pagePresent ||| pageWritable ||| pageUser
      else if f = pageOf p then 0 else word (Paging.taken s p).mem f j := by
  refine (word_setWord h.pageStart_dir hf hd hj).trans (if_congr Iff.rfl rfl ?_)
  exact word_fill_page (pageStart_pageOf p) hf hj

section NewTable

variable (h : Wf s) (hp : Free s p) (hd : d < 1024)

include h hp

theorem Wf.pageOf_ne : pageOf p ≠ s.pageDirectory ∧ pageOf p ≠ s.pageBitmap :=
  ⟨fun he => h.not_owns hp (.inl he), fun he => h.not_owns hp (.inr (.inl he))⟩

theorem Wf.pageOf_ne_table {e : ℕ} (he : e < 1024) (hpres : Present (s.pde e)) :
    s.table e ≠ pageOf p := fun ht => h.not_owns hp (.inr (.inr ⟨e, he, hpres, ht⟩))

include hd

theorem Wf.pde_newTable {e : ℕ} (he : e < 1024) : (newTable s p d).pde e =
    if e = d then pageOf p ||| pagePresent ||| pageWritable ||| pageUser else s.pde e := by
  refine (h.word_newTable p hd h.pageStart_dir he).trans (if_congr (and_iff_right rfl) rfl ?_)
  rw [if_neg fun he => (h.pageOf_ne hp).1 he.symm]
  exact (h.agree_taken hp).pde e he

theorem Wf.table_newTable : (newTable s p d).table d = pageOf p := by
  rw [State.table, h.pde_newTable hp hd hd, if_pos rfl, BitVec.or_assoc, BitVec.or_assoc]
  exact frameOf_or (pageStart_pageOf p) (by decide)

theorem Wf.table_newTable_of_ne {e : ℕ} (he : e < 1024) (hne : e ≠ d) :
    (newTable s p d).table e = s.table e := by
  rw [State.table, State.table, h.pde_newTable hp hd he, if_neg hne]

theorem Wf.present_newTable : Present ((newTable s p d).pde d) := by
  rw [h.pde_newTable hp hd hd, if_pos rfl, BitVec.or_assoc, BitVec.or_assoc]
  exact present_or (by decide)

theorem Wf.pte_newTable {k : ℕ} (hk : k < 1024) : (newTable s p d).pte d k = 0 := by
  rw [State.pte, h.table_newTable hp hd]
  refine (h.word_newTable p hd (pageStart_pageOf p) hk).trans ?_
  rw [if_neg fun he => (h.pageOf_ne hp).1 he.1, if_pos rfl]

theorem Wf.pte_newTable_of_ne {e k : ℕ} (he : e < 1024) (hk : k < 1024) (hne : e ≠ d)
    (hpres : Present (s.pde e)) : (newTable s p d).pte e k = s.pte e k := by
  rw [State.pte, h.table_newTable_of_ne hp hd he hne]
  refine (h.word_newTable p hd (pageStart_table s e) hk).trans ?_
  rw [if_neg fun h' => (h.apart e he hpres).1 h'.1, if_neg (h.pageOf_ne_table hp he hpres)]
  have hagree := h.agree_taken hp
  have hpte := hagree.pte e he k hk hpres
  rwa [State.pte, hagree.table he] at hpte

theorem Wf.free_newTable : Free (newTable s p d) q ↔ Free s q ∧ q ≠ p := by
  rw [← h.free_taken hp]
  unfold Free
  refine and_congr_right fun hq => ?_
  have hsize := h.size
  have hq : q < 32 * s.bitmapSize.toNat := hq
  have hbits : (newTable s p d).bits (q / 32) = (Paging.taken s p).bits (q / 32) := by
    refine (h.word_newTable p hd h.pageStart_bitmap (by omega)).trans ?_
    rw [if_neg fun he => ?_, if_neg fun he => (h.pageOf_ne hp).2 he.symm]
    · rfl
    · rw [h.dir, h.bitmap] at he
      exact absurd he.1 (by decide)
  rw [hbits]

theorem Wf.table_cases {e : ℕ} (he : e < 1024) (hpres : Present ((newTable s p d).pde e)) :
    (e = d ∧ (newTable s p d).table e = pageOf p) ∨
      (Present (s.pde e) ∧ (newTable s p d).table e = s.table e) := by
  by_cases hed : e = d
  · rw [hed]
    exact .inl ⟨rfl, h.table_newTable hp hd⟩
  · rw [h.pde_newTable hp hd he, if_neg hed] at hpres
    exact .inr ⟨hpres, h.table_newTable_of_ne hp hd he hed⟩

theorem Wf.owns_newTable (hf : Owns (newTable s p d) f) : Owns s f ∨ f = pageOf p := by
  rcases hf with hf | hf | ⟨e, he, hpres, hf⟩
  · exact .inl (.inl hf)
  · exact .inl (.inr (.inl hf))
  · rcases h.table_cases hp hd he hpres with ⟨-, ht⟩ | ⟨hpres, ht⟩
    · exact .inr (hf.symm.trans ht)
    · exact .inl (.inr (.inr ⟨e, he, hpres, ht.symm.trans hf⟩))

/-- **A new table** keeps the structures apart. -/
theorem Wf.newTable (hnew : ¬ Present (s.pde d)) : Wf (newTable s p d) := by
  have hpde : ∀ e < 1024, Present (s.pde e) → (Paging.newTable s p d).pde e = s.pde e := by
    intro e he hpres
    rw [h.pde_newTable hp hd he, if_neg fun (hed : e = d) => hnew (hed ▸ hpres)]
  have htable : ∀ e < 1024, Present (s.pde e) → (Paging.newTable s p d).table e = s.table e := by
    intro e he hpres
    rw [State.table, State.table, hpde e he hpres]
  refine ⟨⟨h.dir, h.bitmap, h.size, ?_, ?_, ?_, ?_, ?_⟩, ?_⟩
  · rw [hpde 0 (by omega) h.low]
    exact h.low
  · rw [hpde _ (by decide) h.high]
    exact h.high
  · rw [htable _ (by decide) h.high, htable 0 (by omega) h.low]
    exact h.kernel
  · intro e he hpres
    rcases h.table_cases hp hd he hpres with ⟨-, ht⟩ | ⟨hpres, ht⟩
    · rw [ht]
      exact h.pageOf_ne hp
    · rw [ht]
      exact h.apart e he hpres
  · intro e he e' he' hpres hpres' heq
    rcases h.table_cases hp hd he hpres with ⟨hed, ht⟩ | ⟨hpres, ht⟩ <;>
      rcases h.table_cases hp hd he' hpres' with ⟨hed', ht'⟩ | ⟨hpres', ht'⟩ <;>
      rw [ht, ht'] at heq
    · exact .inl (hed.trans hed'.symm)
    · exact absurd heq.symm (h.pageOf_ne_table hp he' hpres')
    · exact absurd heq (h.pageOf_ne_table hp he hpres)
    · exact h.shared e he e' he' hpres hpres' heq
  · intro f hf hfree
    obtain ⟨hfree, hne⟩ := (h.free_newTable hp hd).mp hfree
    rcases h.owns_newTable hp hd hf with hf | rfl
    · exact h.used f hf hfree
    · exact hne (pageNum_pageOf (h.lt_of_free hp))

theorem Wf.extends_newTable (hnew : ¬ Present (s.pde d)) : Extends s (Paging.newTable s p d) where
  wf := h.newTable hp hd hnew
  size := rfl
  entry e he k hk := by
    unfold Paging.entry
    by_cases hed : e = d
    · rw [hed, if_neg hnew, if_pos (h.present_newTable hp hd), h.pte_newTable hp hd hk]
    · rw [h.pde_newTable hp hd he, if_neg hed]
      split_ifs with hpres
      · exact h.pte_newTable_of_ne hp hd he hk hed hpres
      · rfl
  free q hq := ((h.free_newTable hp hd).mp hq).1
  owns f hf := (h.owns_newTable hp hd hf).imp_right fun he => by
    rwa [he, pageNum_pageOf (h.lt_of_free hp)]
  grants := .inr ⟨p, hp, rfl⟩

end NewTable

/-- **The branch for a missing table.** -/
theorem Wf.ensure_spec (h : Wf s) (hd : d < 1024) : Extends s (ensureTable s d).2 ∧
    (if (ensureTable s d).1 = true then Present ((ensureTable s d).2.pde d)
      else ¬ Present (s.pde d)) := by
  unfold ensureTable
  by_cases hpres : Present (s.pde d)
  · rw [if_neg (not_not.mpr hpres)]
    exact ⟨h.extends_refl, hpres⟩
  · rw [if_pos hpres]
    rcases h.alloc_eq with ⟨p, hp, -, he⟩ | ⟨-, he⟩
    · rw [he]
      by_cases hzero : pageOf p = 0
      · rw [if_pos hzero]
        exact ⟨h.extends_taken hp, hpres⟩
      · rw [if_neg hzero]
        exact ⟨h.extends_newTable hp hd hpres, h.present_newTable hp hd⟩
    · rw [he, if_pos rfl]
      exact ⟨h.extends_refl, hpres⟩

/-! ### Writing an entry -/

theorem Layout.sameDir_iff (h : Layout s) {e : ℕ} (hd : d < 1024) (he : e < 1024) (hpres : Present (s.pde d)) :
    Present (s.pde e) ∧ s.table e = s.table d ↔ SameDir e d := by
  constructor
  · rintro ⟨hpres', ht⟩
    exact h.shared e he d hd hpres' hpres ht
  · rintro (rfl | ⟨rfl, rfl⟩ | ⟨rfl, rfl⟩)
    · exact ⟨hpres, rfl⟩
    · exact ⟨h.low, h.kernel.symm⟩
    · exact ⟨h.high, h.kernel⟩

/-- The linear pages with entry `k` of directory entry `d` are translated by the entry of `v`. -/
def SameSlot (v : U32) (d k : ℕ) : Prop := SameDir d (dirIndex v) ∧ k = tableIndex v

instance decidableSameSlot (v : U32) (d k : ℕ) : Decidable (SameSlot v d k) :=
  inferInstanceAs (Decidable ((_ = _ ∨ (_ = _ ∧ _ = _) ∨ (_ = _ ∧ _ = _)) ∧ _ = _))

/-- From `s` to `s'` the entry of `v` becomes `w`, and at most one page is taken, which may become a
table. -/
structure Sets (s s' : State) (v w : U32) : Prop where
  wf : Wf s'
  size : s'.bitmapSize = s.bitmapSize
  entry : ∀ d < 1024, ∀ k < 1024, entry s' d k = if SameSlot v d k then w else entry s d k
  free : ∀ q, Free s' q → Free s q
  owns : ∀ f, Owns s' f → Owns s f ∨ Free s (pageNum f)
  grants : s'.handed = s.handed ∨ ∃ p, Free s p ∧ s'.handed = (taken s p).handed

/-- A write to the entry of `v`. -/
def setEntry (s : State) (v w : U32) : State := s.write (s.table (dirIndex v)) (tableIndex v) w

section SetEntry

variable (h : Layout s) {v : U32} (hpres : Present (s.pde (dirIndex v))) (w : U32)

include h hpres

theorem Layout.pde_setEntry (hd : d < 1024) : (setEntry s v w).pde d = s.pde d := by
  refine (word_setWord (pageStart_table s _) h.pageStart_dir (tableIndex_lt v) hd).trans
    (if_neg fun he => ?_)
  exact (h.apart _ (dirIndex_lt v) hpres).1 he.1.symm

theorem Layout.free_setEntry : Free (setEntry s v w) q ↔ Free s q := by
  have hsize := h.size
  unfold Free
  refine and_congr_right fun hq => ?_
  have hq : q < 32 * s.bitmapSize.toNat := hq
  have hbits : (setEntry s v w).bits (q / 32) = s.bits (q / 32) := by
    refine (word_setWord (pageStart_table s _) h.pageStart_bitmap (tableIndex_lt v) (by omega)).trans
      (if_neg fun he => ?_)
    exact (h.apart _ (dirIndex_lt v) hpres).2 he.1.symm
  rw [hbits]

theorem Layout.entry_setEntry (hd : d < 1024) (hk : k < 1024) : Paging.entry (setEntry s v w) d k =
    if SameSlot v d k then w else Paging.entry s d k := by
  have hpde := h.pde_setEntry hpres w hd
  have htable : (setEntry s v w).table d = s.table d := by rw [State.table, State.table, hpde]
  have hsame := h.sameDir_iff (dirIndex_lt v) hd hpres
  unfold Paging.entry
  rw [hpde, State.pte, htable]
  by_cases hd' : Present (s.pde d)
  · rw [if_pos hd', if_pos hd']
    refine (word_setWord (pageStart_table s _) (pageStart_table s d) (tableIndex_lt v) hk).trans ?_
    refine if_congr ?_ rfl rfl
    rw [SameSlot, ← hsame, and_iff_right hd']
  · rw [if_neg hd', if_neg hd', if_neg fun hs => hd' (hsame.mpr hs.1).1]

theorem Layout.owns_setEntry : Owns (setEntry s v w) f ↔ Owns s f := by
  unfold Owns
  refine or_congr Iff.rfl (or_congr Iff.rfl (exists_congr fun d => and_congr_right fun hd => ?_))
  rw [State.table, h.pde_setEntry hpres w hd]
  rfl

end SetEntry

theorem Wf.setEntry (h : Wf s) {v : U32} (hpres : Present (s.pde (dirIndex v))) (w : U32) :
    Wf (setEntry s v w) where
  toLayout := h.of_pde rfl rfl rfl fun _ hd => h.pde_setEntry hpres w hd
  used f hf hfree := h.used f ((h.owns_setEntry hpres w).mp hf) ((h.free_setEntry hpres w).mp hfree)

theorem map_of_table {v : U32} (hb : (ensureTable s (dirIndex v)).1 = true) (physicalAddr flags : U32) :
    pagingMapPage s v physicalAddr flags =
      (1, setEntry (ensureTable s (dirIndex v)).2 v (physicalAddr ||| flags)) := if_pos hb

theorem map_of_no_table {v : U32} (hb : (ensureTable s (dirIndex v)).1 = false)
    (physicalAddr flags : U32) :
    pagingMapPage s v physicalAddr flags = (0, (ensureTable s (dirIndex v)).2) :=
  if_neg (by rw [hb]; exact Bool.false_ne_true)

theorem map_of_present {v : U32} (hpres : Present (s.pde (dirIndex v))) (physicalAddr flags : U32) :
    pagingMapPage s v physicalAddr flags = (1, setEntry s v (physicalAddr ||| flags)) := by
  have hensure : ensureTable s (dirIndex v) = (true, s) := if_neg (not_not.mpr hpres)
  have htable : (ensureTable s (dirIndex v)).1 = true := by rw [hensure]
  rw [map_of_table htable, hensure]

/-- Without one the next free page becomes the table. -/
theorem map_of_alloc {v : U32} {q : ℕ} (hpres : ¬ Present (s.pde (dirIndex v)))
    (halloc : allocPhysicalPage s = (pageOf q, taken s q)) (hne : pageOf q ≠ 0) (physicalAddr flags : U32) :
    pagingMapPage s v physicalAddr flags =
      (1, setEntry (newTable s q (dirIndex v)) v (physicalAddr ||| flags)) := by
  have hensure : ensureTable s (dirIndex v) = (true, newTable s q (dirIndex v)) := by
    rw [ensureTable, if_pos hpres, halloc]
    exact if_neg hne
  rw [map_of_table (by rw [hensure]), hensure]

theorem map_of_no_page {v : U32} (hpres : ¬ Present (s.pde (dirIndex v)))
    (halloc : allocPhysicalPage s = (0, s)) (physicalAddr flags : U32) :
    pagingMapPage s v physicalAddr flags = (0, s) := by
  have hensure : ensureTable s (dirIndex v) = (false, s) := by
    rw [ensureTable, if_pos hpres, halloc, if_pos rfl]
  rw [map_of_no_table (by rw [hensure]), hensure]

/-- **Mapping a page.** With result 1 the entry of `v` is set; with result 0 there is no table for `v`. -/
theorem Wf.map_spec (h : Wf s) (v physicalAddr flags : U32) :
    ((pagingMapPage s v physicalAddr flags).1 = 1 ∧
      Sets s (pagingMapPage s v physicalAddr flags).2 v (physicalAddr ||| flags)) ∨
    ((pagingMapPage s v physicalAddr flags).1 = 0 ∧
      Extends s (pagingMapPage s v physicalAddr flags).2 ∧ ¬ Present (s.pde (dirIndex v))) := by
  obtain ⟨hext, hres⟩ := h.ensure_spec (dirIndex_lt v)
  have hwf := hext.wf
  cases hb : (ensureTable s (dirIndex v)).1 with
  | false =>
      rw [hb, if_neg Bool.false_ne_true] at hres
      rw [map_of_no_table hb]
      exact .inr ⟨rfl, hext, hres⟩
  | true =>
      rw [hb, if_pos rfl] at hres
      rw [map_of_table hb]
      refine .inl ⟨rfl, hwf.setEntry hres _, hext.size, fun d hd k hk => ?_, fun q hq => ?_,
        fun f hf => ?_, hext.grants⟩
      · rw [← hext.entry d hd k hk]
        exact hwf.entry_setEntry hres _ hd hk
      · exact hext.free q ((hwf.free_setEntry hres _).mp hq)
      · exact hext.owns f ((hwf.owns_setEntry hres _).mp hf)

/-- If the bitmap covers the frame of the page of `v`, it is not a frame of the structures. -/
def Spares (s : State) (v : U32) : Prop :=
  Present (entry s (dirIndex v) (tableIndex v)) →
    Tracked s (frameOf (entry s (dirIndex v) (tableIndex v))) →
    ¬ Owns s (frameOf (entry s (dirIndex v) (tableIndex v)))

/-- From `s` to `s'` the entry of `v` is cleared and its frame is freed. -/
structure Clears (s s' : State) (v : U32) : Prop where
  wf : Wf s'
  size : s'.bitmapSize = s.bitmapSize
  entry : ∀ d < 1024, ∀ k < 1024, entry s' d k = if SameSlot v d k then 0 else entry s d k
  free : ∀ q, Free s' q → Free s q ∨ q = pageNum (frameOf (Paging.entry s (dirIndex v) (tableIndex v)))
  owns : ∀ f, Owns s' f ↔ Owns s f
  handed : s'.handed = s.handed

theorem unmap_of_present {v : U32} (hd : Present (s.pde (dirIndex v)))
    (hk : Present (s.pte (dirIndex v) (tableIndex v))) : pagingUnmapPage s v =
      (freePhysicalPage s (frameOf (s.pte (dirIndex v) (tableIndex v)))).write (s.table (dirIndex v))
        (tableIndex v) 0 :=
  (if_neg (not_not.mpr hd)).trans (if_pos hk)

theorem unmap_of_not_present {v : U32} (h : ¬ Present (entry s (dirIndex v) (tableIndex v))) :
    pagingUnmapPage s v = s := by
  unfold pagingUnmapPage
  by_cases hd : Present (s.pde (dirIndex v))
  · have hk : ¬ Present (s.pte (dirIndex v) (tableIndex v)) := fun hk => h (by rwa [entry, if_pos hd])
    exact (if_neg (not_not.mpr hd)).trans (if_neg hk)
  · exact if_pos hd

theorem Wf.pageStart_owns (h : Wf s) (hf : Owns s f) : PageStart f := by
  rcases hf with rfl | rfl | ⟨d, -, -, rfl⟩
  · exact h.pageStart_dir
  · exact h.pageStart_bitmap
  · exact pageStart_table s d

theorem pageNum_inj {g : U32} (hf : PageStart f) (hg : PageStart g) (he : pageNum f = pageNum g) :
    f = g := by
  have hfm : f.toNat % 4096 = 0 := hf
  have hgm : g.toNat % 4096 = 0 := hg
  unfold pageNum at he
  exact BitVec.eq_of_toNat_eq (by omega)

theorem present_pde {v : U32} (hp : Present (entry s (dirIndex v) (tableIndex v))) :
    Present (s.pde (dirIndex v)) := by
  by_contra hn
  rw [entry, if_neg hn] at hp
  exact not_present_zero hp

/-- Unmapping a page whose entry is present frees its frame and clears the entry. -/
theorem Layout.unmap_eq (h : Layout s) {v : U32} (hp : Present (entry s (dirIndex v) (tableIndex v))) :
    pagingUnmapPage s v =
      setEntry (freePhysicalPage s (frameOf (entry s (dirIndex v) (tableIndex v)))) v 0 := by
  have hpde := present_pde hp
  have hentry : entry s (dirIndex v) (tableIndex v) = s.pte (dirIndex v) (tableIndex v) := if_pos hpde
  rw [hentry] at hp ⊢
  obtain ⟨hagree, -, -⟩ := h.free_spec (frameOf (s.pte (dirIndex v) (tableIndex v)))
  rw [unmap_of_present hpde hp, setEntry, hagree.table (dirIndex_lt v)]

/-- **Unmapping a page** whose entry is present clears the entry and frees its frame. -/
theorem Wf.unmap_spec (h : Wf s) {v : U32} (hspare : Spares s v)
    (hp : Present (entry s (dirIndex v) (tableIndex v))) : Clears s (pagingUnmapPage s v) v := by
  have hspare := hspare hp
  have hset := h.toLayout.unmap_eq hp
  have hpde := present_pde hp
  generalize hw : entry s (dirIndex v) (tableIndex v) = w at hspare hset
  obtain ⟨hagree, hfree, hhanded⟩ := h.free_spec (frameOf w)
  -- the frame that is freed is not one of the structures
  have hwf : Wf (freePhysicalPage s (frameOf w)) :=
    h.of_agree hagree fun f hf hfr => (hfree _ hfr).resolve_right fun he => by
      have hlt := hfr.1
      rw [he, hagree.size] at hlt
      exact hspare hlt (pageNum_inj (h.pageStart_owns hf) (pageStart_frameOf _) he ▸ hf)
  have hpde' : Present ((freePhysicalPage s (frameOf w)).pde (dirIndex v)) := by
    rwa [hagree.pde _ (dirIndex_lt v)]
  rw [hset]
  refine ⟨hwf.setEntry hpde' 0, hagree.size, fun d hd k hk => ?_, fun q hq => ?_, fun f => ?_, hhanded⟩
  · rw [← hagree.entry hd hk]
    exact hwf.entry_setEntry hpde' 0 hd hk
  · rw [hw]
    exact hfree q ((hwf.free_setEntry hpde' 0).mp hq)
  · exact (hwf.owns_setEntry hpde' 0).trans hagree.owns

end BloodKernel.Paging
