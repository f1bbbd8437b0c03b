import BloodKernel.Drivers.PagingTranslate
import BloodKernel.Lib.Count
import Mathlib.Data.BitVec

set_option autoImplicit false

/-!
# The number of free pages

* `freeCount`: the pages that the bitmap marks free; `getFreeMemory_eq`: what `paging_get_free_memory`
  returns;
* `freeCount_taken`, `freeCount_newTable`, `freeCount_setEntry`, `freeCount_unmap`: one page less for a
  page handed out, one more for a page unmapped;
* `freeCount_start`: the number after `paging_init`.
-/

namespace BloodKernel.Paging

open Lib

instance decidableFree (s : State) (p : ℕ) : Decidable (Free s p) := inferInstanceAs (Decidable (_ ∧ _))

/-- The number of pages marked free. -/
def freeCount (s : State) : ℕ := Nat.count (Free s) (32 * s.bitmapSize.toNat)

variable {s s' : State} {f : U32} {u v w : U32} {p q d n : ℕ}

/-! ### The loop of `paging_get_free_memory` -/

theorem free_word (hn : n < s.bitmapSize.toNat) {b : ℕ} (hb : b < 32) :
    s.bits n &&& bit b = 0 ↔ Free s (32 * n + b) := by
  have hdiv : (32 * n + b) / 32 = n := by omega
  have hmod : (32 * n + b) % 32 = b := by omega
  have hlt : 32 * n + b < 32 * s.bitmapSize.toNat := by omega
  rw [and_bit_eq_zero hb, Free, hdiv, hmod, and_iff_right hlt]

theorem foldl_free (hn : n ≤ s.bitmapSize.toNat) :
    (List.range n).foldl (fun m i =>
      (List.range 32).foldl (fun m b => if s.bits i &&& bit b = 0 then m + 1 else m) m) (0 : U32) =
      (Nat.count (Free s) (32 * n) : U32) := by
  induction n with
  | zero => rfl
  | succ n ih =>
      have hword : Nat.count (fun b => s.bits n &&& bit b = 0) 32 =
          Nat.count (fun b => Free s (32 * n + b)) 32 := count_congr fun b hb => free_word hn hb
      rw [List.range_succ (n := n), List.foldl_append, ih (Nat.le_of_succ_le hn), List.foldl_cons,
        List.foldl_nil, foldl_count, Nat.mul_succ, Nat.count_add, Nat.cast_add, hword]

theorem freeCount_le (h : Wf s) : freeCount s ≤ 32768 := by
  have := h.size
  have := Nat.count_le (p := Free s) (n := 32 * s.bitmapSize.toNat)
  unfold freeCount
  omega

theorem getFreeMemory_eq (h : Wf s) : pagingGetFreeMemory s = (freeCount s : U32) * 4096 := by
  have hne : s.pageBitmap ≠ 0 := by
    rw [h.bitmap]
    decide
  unfold pagingGetFreeMemory
  rw [if_neg hne, foldl_free le_rfl]
  rfl

theorem getFreeMemory_eq_iff (h : Wf s) (h' : Wf s') :
    pagingGetFreeMemory s' = pagingGetFreeMemory s ↔ freeCount s' = freeCount s := by
  have hle := freeCount_le h
  have hle' := freeCount_le h'
  have h₄ : (4096 : U32).toNat = 4096 := rfl
  rw [getFreeMemory_eq h, getFreeMemory_eq h']
  refine ⟨fun he => ?_, fun he => by rw [he]⟩
  have hval := congrArg BitVec.toNat he
  simp only [BitVec.natCast_eq_ofNat, BitVec.toNat_mul, BitVec.toNat_ofNat, h₄] at hval
  omega

/-! ### One page -/

theorem freeCount_congr (hsize : s'.bitmapSize = s.bitmapSize) (h : ∀ q, Free s' q ↔ Free s q) :
    freeCount s' = freeCount s := by
  unfold freeCount
  rw [hsize]
  exact count_congr fun q _ => h q

theorem freeCount_erase (hsize : s'.bitmapSize = s.bitmapSize) (hp : Free s p)
    (h : ∀ q, Free s' q ↔ Free s q ∧ q ≠ p) : freeCount s' + 1 = freeCount s := by
  unfold freeCount
  rw [hsize]
  exact count_erase hp.1 hp h

theorem freeCount_pos (h : Free s p) : 0 < freeCount s :=
  Nat.pos_of_ne_zero (Nat.count_ne_iff_exists.mpr ⟨p, h.1, h⟩)

theorem freeCount_eq_zero (h : ∀ q, ¬ Free s q) : freeCount s = 0 :=
  Nat.count_iff_forall_not.mpr fun q _ => h q

theorem freeCount_taken (h : Wf s) (hp : Free s p) : freeCount (taken s p) + 1 = freeCount s :=
  freeCount_erase rfl hp fun _ => h.free_taken hp

theorem freeCount_newTable (h : Wf s) (hp : Free s p) (hd : d < 1024) :
    freeCount (newTable s p d) + 1 = freeCount s :=
  freeCount_erase rfl hp fun _ => h.free_newTable hp hd

theorem freeCount_setEntry (h : Wf s) (hpres : Present (s.pde (dirIndex v))) (w : U32) :
    freeCount (setEntry s v w) = freeCount s :=
  freeCount_congr rfl fun _ => h.free_setEntry hpres w

theorem Layout.free_unmap (h : Layout s) (hp : Present (entryOf s v)) (hf : Tracked s (frameAt s v)) :
    Free (pagingUnmapPage s v) q ↔ Free s q ∨ q = pageNum (frameAt s v) := by
  obtain ⟨hagree, hpde, hset⟩ := h.unmap_set hp
  rw [hset, (h.of_agree hagree).free_setEntry hpde, h.free_freePhysicalPage hf]

theorem freeCount_unmap (h : Wf s) (hspare : Spares s v) (hp : Present (entryOf s v))
    (hf : Tracked s (frameAt s v)) (hused : ¬ Free s (pageNum (frameAt s v))) :
    freeCount (pagingUnmapPage s v) = freeCount s + 1 := by
  have hfree : ∀ q, Free (pagingUnmapPage s v) q ↔ Free s q ∨ q = pageNum (frameAt s v) :=
    fun q => h.toLayout.free_unmap hp hf
  refine (freeCount_erase (h.unmap_spec hspare hp).size.symm ((hfree _).mpr (.inr rfl)) fun q => ?_).symm
  rw [hfree]
  constructor
  · exact fun hq => ⟨.inl hq, fun he => hused (he ▸ hq)⟩
  · exact fun hq => hq.1.resolve_right hq.2

/-- After `paging_init` all pages but the first 1027 are free. -/
theorem freeCount_start {mem : Words} {memorySize : U32} (h : (bitmapWords memorySize).toNat ≤ 1024) :
    freeCount (start mem memorySize) = 32 * (bitmapWords memorySize).toNat - 1027 := by
  have hsize : (start mem memorySize).bitmapSize = bitmapWords memorySize := (agree_start h).size
  unfold freeCount
  rw [hsize, ← count_ge]
  exact count_congr fun q hq => (free_start h).trans (and_iff_right hq)

end BloodKernel.Paging
