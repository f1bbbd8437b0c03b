import BloodKernel.Kernel.Types
import BloodKernel.Lib.Region
import Mathlib.Logic.Function.Basic

set_option autoImplicit false

/-!
# The ELF loader

`src/kernel/elf.c` over a byte memory; the image, the segments and the program headers are all in it.
`*entry` is the caller's variable, outside this memory.

* `memcpy`, `memcmp`, `memset`, `elfLoad`: the functions, byte by byte;
* `Accepted`, `Loadable`: images that pass the checks, and those whose segments can be loaded;
* `Loaded`: what the memory is after the segments of an image have been loaded;
* **`elfLoad_spec`**: a loadable image is loaded, and an image that fails a check changes nothing.
-/

namespace BloodKernel.Elf

open Lib

/-- Copy `n` bytes from `s` on to `d` on, one after the other. -/
def memcpy : Mem → U32 → U32 → ℕ → Mem
  | m, _, _, 0 => m
  | m, d, s, n + 1 => memcpy (Function.update m d (m s)) (d + 1) (s + 1) n

/-- Whether the bytes from `a` on differ from the given ones. -/
def memcmp (m : Mem) : U32 → List U8 → Bool
  | _, [] => false
  | a, b :: bs => if m a ≠ b then true else memcmp m (a + 1) bs

/-- Set `n` bytes from `d` on to `c`. -/
def memset : Mem → U32 → U8 → ℕ → Mem
  | m, _, _, 0 => m
  | m, d, c, n + 1 => memset (Function.update m d c) (d + 1) c n

/-- `"\x7F" "ELF"` -/
def magic : List U8 := [0x7F, 0x45, 0x4C, 0x46]

/-! ### The fields of the header and of a program header -/

def eType (m : Mem) (hdr : U32) : U16 := load16 m (hdr + 16)

def eMachine (m : Mem) (hdr : U32) : U16 := load16 m (hdr + 18)

def eEntry (m : Mem) (hdr : U32) : U32 := load32 m (hdr + 24)

def ePhoff (m : Mem) (hdr : U32) : U32 := load32 m (hdr + 28)

def ePhnum (m : Mem) (hdr : U32) : U16 := load16 m (hdr + 44)

def pType (m : Mem) (p : U32) : U32 := load32 m p

def pOffset (m : Mem) (p : U32) : U32 := load32 m (p + 4)

def pVaddr (m : Mem) (p : U32) : U32 := load32 m (p + 8)

def pFilesz (m : Mem) (p : U32) : U32 := load32 m (p + 16)

def pMemsz (m : Mem) (p : U32) : U32 := load32 m (p + 20)

/-- `&phdr[i]`; an entry has 32 bytes. -/
def entryAddr (phdr : U32) (i : U16) : U32 := phdr + 32 * i.setWidth 32

/-! ### The functions -/

/-- The body of the loop, for the entry at `p`. The fields are read again after the copy. -/
def loadSegment (elf : U32) (m : Mem) (p : U32) : Mem :=
  if pType m p = 1 then
    let dst := pVaddr m p
    let src := elf + pOffset m p
    let m := memcpy m dst src (pFilesz m p).toNat
    if pFilesz m p < pMemsz m p then
      memset m (dst + pFilesz m p) 0 (pMemsz m p - pFilesz m p).toNat
    else m
  else m

theorem rounds_decrease {i n : U16} (h : i < n) : 65535 - (i + 1).toNat < 65535 - i.toNat := by
  have hlt : i.toNat < n.toNat := h
  have := n.isLt
  have hone : (1 : U16).toNat = 1 := rfl
  rw [BitVec.toNat_add, hone, Nat.mod_eq_of_lt (by omega)]
  omega

/-- The loop from `i` on. `e_phnum` is read again in each round. -/
def loadSegments (elf phdr : U32) (m : Mem) (i : U16) : Mem :=
  if h : i < ePhnum m elf then
    loadSegments elf phdr (loadSegment elf m (entryAddr phdr i)) (i + 1)
  else m
termination_by 65535 - i.toNat
decreasing_by exact rounds_decrease h

/-- The result, the memory and `*entry`. -/
def elfLoad (m : Mem) (elf entry : U32) : U32 × Mem × U32 :=
  if memcmp m elf magic then (0, m, entry)
  else if eType m elf ≠ 2 ∨ eMachine m elf ≠ 0x28 then (0, m, entry)
  else (1, loadSegments elf (elf + ePhoff m elf) m 0, eEntry m elf)

/-! ### What a load should do -/

/-- The image passes the magic, type and machine checks. -/
def Accepted (m : Mem) (elf : U32) : Prop :=
  (m elf = 0x7F ∧ m (elf + 1) = 0x45 ∧ m (elf + 2) = 0x4C ∧ m (elf + 3) = 0x46) ∧
    eType m elf = 2 ∧ eMachine m elf = 0x28

/-- The address of entry `i` of the program-header table. -/
def header (m : Mem) (elf : U32) (i : U16) : U32 := entryAddr (elf + ePhoff m elf) i

/-- Entry `i` is in the table and of type `PT_LOAD`. -/
def IsLoad (m : Mem) (elf : U32) (i : U16) : Prop := i < ePhnum m elf ∧ pType m (header m elf i) = 1

/-- `x` is in the target range of the entry at `p`. -/
def Target (m : Mem) (p x : U32) : Prop := InRange (pVaddr m p) (pMemsz m p).toNat x

instance decidableTarget (m : Mem) (p x : U32) : Decidable (Target m p x) :=
  inferInstanceAs (Decidable (InRange _ _ x))

/-- What the target range of the entry at `p` shall hold at `x`: a file byte or a zero. -/
def content (m : Mem) (elf p x : U32) : U8 :=
  if InRange (pVaddr m p) (pFilesz m p).toNat x then m (elf + pOffset m p + (x - pVaddr m p)) else 0

/-- `x` is one of the bytes of the image: of the header, the table or the data of a segment. -/
def ImageByte (m : Mem) (elf x : U32) : Prop :=
  InRange elf 52 x ∨ (∃ i < ePhnum m elf, InRange (header m elf i) 32 x) ∨
    ∃ i, IsLoad m elf i ∧
      InRange (elf + pOffset m (header m elf i)) (pFilesz m (header m elf i)).toNat x

/-- The image passes the checks, no segment has more bytes in the file than in memory, and the target
ranges are disjoint from each other and from the image. -/
structure Loadable (m : Mem) (elf : U32) : Prop where
  accepted : Accepted m elf
  filesz_le : ∀ i, IsLoad m elf i → pFilesz m (header m elf i) ≤ pMemsz m (header m elf i)
  disjoint : ∀ i j x, IsLoad m elf i → IsLoad m elf j →
    Target m (header m elf i) x → Target m (header m elf j) x → i = j
  apart : ∀ i x, IsLoad m elf i → Target m (header m elf i) x → ¬ ImageByte m elf x

/-- The memory `m'` is `m` with the segments before entry `n` loaded. -/
structure Loaded (m : Mem) (elf : U32) (n : U16) (m' : Mem) : Prop where
  segment : ∀ i < n, IsLoad m elf i → ∀ x, Target m (header m elf i) x →
    m' x = content m elf (header m elf i) x
  frame : ∀ x, (∀ i < n, IsLoad m elf i → ¬ Target m (header m elf i) x) → m' x = m x

/-! ### The byte loops -/

variable {m m' : Mem} {elf p : U32} {n : ℕ}

theorem memset_apply (hn : n < 2 ^ 32) (m : Mem) (d : U32) (c : U8) (x : U32) :
    memset m d c n x = if InRange d n x then c else m x := by
  induction n generalizing m d with
  | zero => exact (if_neg not_inRange_zero).symm
  | succ n ih =>
      rw [memset, ih (by omega)]
      by_cases h : InRange (d + 1) n x
      · rw [if_pos h, if_pos (inRange_succ.mpr (.inr h))]
      · rw [if_neg h]
        by_cases hx : x = d
        · rw [hx, Function.update_self, if_pos (inRange_succ.mpr (.inl rfl))]
        · rw [Function.update_of_ne hx, if_neg fun h' => (inRange_succ.mp h').elim hx h]

theorem memcpy_apply (hn : n < 2 ^ 32) (m : Mem) (d s : U32)
    (h : ∀ x, InRange d n x → ¬ InRange s n x) (x : U32) :
    memcpy m d s n x = if InRange d n x then m (s + (x - d)) else m x := by
  induction n generalizing m d s with
  | zero => exact (if_neg not_inRange_zero).symm
  | succ n ih =>
      have hd : InRange d (n + 1) d := inRange_succ.mpr (.inl rfl)
      rw [memcpy, ih (by omega) _ _ _ fun y hy hy' =>
        h y (inRange_succ.mpr (.inr hy)) (inRange_succ.mpr (.inr hy'))]
      by_cases hx : InRange (d + 1) n x
      · have hsrc : s + 1 + (x - (d + 1)) = s + (x - d) := by
          apply BitVec.eq_of_toNat_eq
          simp only [BitVec.toNat_add, BitVec.toNat_sub]
          omega
        -- the byte read is a later byte of the source, which no write has reached
        have hne : s + (x - d) ≠ d := fun he => h d hd (by
          rw [← he, inRange_succ, ← hsrc]
          exact .inr (by unfold InRange at hx ⊢; rwa [BitVec.add_comm, BitVec.add_sub_cancel]))
        rw [if_pos hx, if_pos (inRange_succ.mpr (.inr hx)), hsrc, Function.update_of_ne hne]
      · rw [if_neg hx]
        by_cases hxd : x = d
        · rw [hxd, Function.update_self, if_pos hd, BitVec.sub_self]
          exact congrArg m (BitVec.add_zero s).symm
        · rw [Function.update_of_ne hxd, if_neg fun h' => (inRange_succ.mp h').elim hxd hx]

/-! ### One segment -/

section Fields

variable (h : ∀ x, InRange p 32 x → m' x = m x)

include h

theorem field_congr {k : ℕ} (hk : k + 4 ≤ 32) :
    load32 m' (p + BitVec.ofNat 32 k) = load32 m (p + BitVec.ofNat 32 k) :=
  load32_congr fun x hx => h x (hx.of_add hk)

theorem pType_congr : pType m' p = pType m p := load32_congr fun x hx => h x (hx.mono (by omega))

theorem pOffset_congr : pOffset m' p = pOffset m p := field_congr h (k := 4) (by omega)

theorem pVaddr_congr : pVaddr m' p = pVaddr m p := field_congr h (k := 8) (by omega)

theorem pFilesz_congr : pFilesz m' p = pFilesz m p := field_congr h (k := 16) (by omega)

theorem pMemsz_congr : pMemsz m' p = pMemsz m p := field_congr h (k := 20) (by omega)

end Fields

theorem loadSegment_apply (hload : pType m p = 1) (hle : pFilesz m p ≤ pMemsz m p)
    (hentry : ∀ x, Target m p x → ¬ InRange p 32 x)
    (hfile : ∀ x, Target m p x → ¬ InRange (elf + pOffset m p) (pFilesz m p).toNat x) (x : U32) :
    loadSegment elf m p x = if Target m p x then content m elf p x else m x := by
  have hmem := (pMemsz m p).isLt
  have hle' : (pFilesz m p).toNat ≤ (pMemsz m p).toNat := hle
  have hcopy := memcpy_apply (pFilesz m p).isLt m (pVaddr m p) (elf + pOffset m p)
    fun y hy => hfile y (hy.mono hle')
  -- the copy leaves the entry as it was
  have hsame : ∀ y, InRange p 32 y → memcpy m (pVaddr m p) (elf + pOffset m p)
      (pFilesz m p).toNat y = m y := fun y hy => by
    rw [hcopy, if_neg fun hy' => hentry y (hy'.mono hle') hy]
  unfold loadSegment
  rw [if_pos hload]
  show (if _ < _ then _ else _ : Mem) x = _
  rw [pFilesz_congr hsame, pMemsz_congr hsame]
  by_cases hlt : pFilesz m p < pMemsz m p
  · have hdst : pVaddr m p + pFilesz m p = pVaddr m p + BitVec.ofNat 32 (pFilesz m p).toNat := by
      rw [BitVec.ofNat_toNat, BitVec.setWidth_eq]
    have hsub : (pMemsz m p - pFilesz m p).toNat = (pMemsz m p).toNat - (pFilesz m p).toNat :=
      BitVec.toNat_sub_of_le hle
    have hbss := inRange_add_iff (a := pVaddr m p) (x := x) (k := (pFilesz m p).toNat)
      (n := (pMemsz m p).toNat - (pFilesz m p).toNat) (by omega)
    rw [Nat.add_sub_cancel' hle'] at hbss
    rw [if_pos hlt, hdst, hsub, memset_apply (by omega), hcopy]
    by_cases ht : Target m p x
    · rw [if_pos ht, content]
      by_cases hf : InRange (pVaddr m p) (pFilesz m p).toNat x
      · rw [if_neg fun hb => (hbss.mp hb).2 hf, if_pos hf, if_pos hf]
      · rw [if_pos (hbss.mpr ⟨ht, hf⟩), if_neg hf]
    · rw [if_neg ht, if_neg fun hb => ht (hbss.mp hb).1, if_neg fun hf => ht (hf.mono hle')]
  · have heq : (pFilesz m p).toNat = (pMemsz m p).toNat := Nat.le_antisymm hle' (Nat.not_lt.mp hlt)
    rw [if_neg hlt, hcopy, content, heq]
    by_cases ht : Target m p x
    · have ht' : InRange (pVaddr m p) (pMemsz m p).toNat x := ht
      rw [if_pos ht, if_pos ht', if_pos ht']
    · have ht' : ¬ InRange (pVaddr m p) (pMemsz m p).toNat x := ht
      rw [if_neg ht, if_neg ht']

theorem loadSegment_of_ne (h : pType m p ≠ 1) : loadSegment elf m p = m := if_neg h

/-! ### All segments -/

section Segments

variable {i n : U16}

theorem Loaded.image (h : Loaded m elf n m') (hm : Loadable m elf) {x : U32}
    (hx : ImageByte m elf x) : m' x = m x :=
  h.frame x fun i _ hi ht => hm.apart i x hi ht hx

theorem Loaded.ePhnum_eq (h : Loaded m elf n m') (hm : Loadable m elf) :
    ePhnum m' elf = ePhnum m elf :=
  load16_congr fun _ hx => h.image hm (.inl (hx.of_add (k := 44) (by omega)))

theorem loaded_zero (m : Mem) (elf : U32) : Loaded m elf 0 m where
  segment _ hi := absurd hi BitVec.not_lt_zero
  frame _ _ := rfl

theorem toNat_succ (hn : n < ePhnum m elf) : (n + 1).toNat = n.toNat + 1 := by
  have hlt : n.toNat < (ePhnum m elf).toNat := hn
  have := (ePhnum m elf).isLt
  exact (BitVec.toNat_add n 1).trans (Nat.mod_eq_of_lt (by show n.toNat + 1 < _; omega))

theorem lt_succ_iff (hn : n < ePhnum m elf) : i < n + 1 ↔ i = n ∨ i < n := by
  rw [BitVec.lt_def, BitVec.lt_def, ← BitVec.toNat_inj, toNat_succ hn]
  omega

theorem Loaded.headers (h : Loaded m elf n m') (hm : Loadable m elf) (hi : i < ePhnum m elf) {x : U32}
    (hx : InRange (header m elf i) 32 x) : m' x = m x :=
  h.image hm (.inr (.inl ⟨i, hi, hx⟩))

theorem Loaded.round_apply (h : Loaded m elf n m') (hm : Loadable m elf) (hi : IsLoad m elf i)
    (x : U32) : loadSegment elf m' (header m elf i) x =
      if Target m (header m elf i) x then content m elf (header m elf i) x else m' x := by
  have hsame : ∀ x, InRange (header m elf i) 32 x → m' x = m x := fun _ hx => h.headers hm hi.1 hx
  have hoff := pOffset_congr hsame
  have hvaddr := pVaddr_congr hsame
  have hfilesz := pFilesz_congr hsame
  have hmemsz := pMemsz_congr hsame
  have htarget : ∀ x, Target m' (header m elf i) x ↔ Target m (header m elf i) x := fun x => by
    unfold Target
    rw [hvaddr, hmemsz]
  have hle : pFilesz m' (header m elf i) ≤ pMemsz m' (header m elf i) := by
    rw [hfilesz, hmemsz]
    exact hm.filesz_le i hi
  refine (loadSegment_apply ((pType_congr hsame).trans hi.2) hle ?_ ?_ x).trans
    (if_congr (htarget x) ?_ rfl)
  · intro x ht he
    exact hm.apart i x hi ((htarget x).mp ht) (.inr (.inl ⟨i, hi.1, he⟩))
  · intro x ht hf
    rw [hoff, hfilesz] at hf
    exact hm.apart i x hi ((htarget x).mp ht) (.inr (.inr ⟨i, hi, hf⟩))
  · unfold content
    rw [hoff, hvaddr, hfilesz]
    by_cases hf : InRange (pVaddr m (header m elf i)) (pFilesz m (header m elf i)).toNat x
    · rw [if_pos hf, if_pos hf]
      refine h.image hm (.inr (.inr ⟨i, hi, ?_⟩))
      unfold InRange at hf ⊢
      rwa [BitVec.add_comm, BitVec.add_sub_cancel]
    · rw [if_neg hf, if_neg hf]

theorem Loaded.step (h : Loaded m elf n m') (hm : Loadable m elf) (hn : n < ePhnum m elf) :
    Loaded m elf (n + 1) (loadSegment elf m' (header m elf n)) := by
  by_cases hload : pType m (header m elf n) = 1
  · have hn' : IsLoad m elf n := ⟨hn, hload⟩
    constructor
    · intro i hi hil x ht
      rw [h.round_apply hm hn']
      rcases (lt_succ_iff hn).mp hi with rfl | hi
      · rw [if_pos ht]
      · -- the target ranges of two segments are disjoint
        have hne : ¬ Target m (header m elf n) x := fun ht' =>
          absurd (hm.disjoint i n x hil hn' ht ht' ▸ hi) (BitVec.lt_irrefl n)
        rw [if_neg hne, h.segment i hi hil x ht]
    · intro x hx
      rw [h.round_apply hm hn', if_neg (hx n ((lt_succ_iff hn).mpr (.inl rfl)) hn')]
      exact h.frame x fun i hi => hx i ((lt_succ_iff hn).mpr (.inr hi))
  · have htype : pType m' (header m elf n) = pType m (header m elf n) :=
      pType_congr fun _ hx => h.headers hm hn hx
    rw [loadSegment_of_ne (htype ▸ hload)]
    constructor
    · intro i hi hil
      rcases (lt_succ_iff hn).mp hi with rfl | hi
      · exact absurd hil.2 hload
      · exact h.segment i hi hil
    · intro x hx
      exact h.frame x fun i hi => hx i ((lt_succ_iff hn).mpr (.inr hi))

theorem Loaded.loop (h : Loaded m elf n m') (hm : Loadable m elf) (hn : n ≤ ePhnum m elf) :
    Loaded m elf (ePhnum m elf) (loadSegments elf (elf + ePhoff m elf) m' n) := by
  fun_induction loadSegments elf (elf + ePhoff m elf) m' n with
  | case1 m' n hlt ih =>
      rw [h.ePhnum_eq hm] at hlt
      refine ih (h.step hm hlt) ?_
      rw [BitVec.le_def, toNat_succ hlt]
      exact hlt
  | case2 m' n hge =>
      rw [h.ePhnum_eq hm] at hge
      have heq : n = ePhnum m elf := BitVec.le_antisymm hn (BitVec.not_lt.mp hge)
      exact heq ▸ h

end Segments

/-! ### The load -/

theorem memcmp_cons {a : U32} {b : U8} {bs : List U8} :
    memcmp m a (b :: bs) = false ↔ m a = b ∧ memcmp m (a + 1) bs = false := by
  rw [memcmp]
  by_cases h : m a = b
  · rw [if_neg (not_not.mpr h), and_iff_right h]
  · rw [if_pos h]
    exact iff_of_false Bool.noConfusion fun h' => h h'.1

theorem memcmp_four {a : U32} {b₀ b₁ b₂ b₃ : U8} : memcmp m a [b₀, b₁, b₂, b₃] = false ↔
    m a = b₀ ∧ m (a + 1) = b₁ ∧ m (a + 2) = b₂ ∧ m (a + 3) = b₃ := by
  have htwo : a + 1 + 1 = a + 2 := BitVec.add_assoc _ _ _
  have hthree : a + 2 + 1 = a + 3 := BitVec.add_assoc _ _ _
  rw [memcmp_cons, memcmp_cons, memcmp_cons, memcmp_cons, htwo, hthree, memcmp, and_iff_left rfl]

theorem elfLoad_of_accepted (h : Accepted m elf) (entry : U32) :
    elfLoad m elf entry = (1, loadSegments elf (elf + ePhoff m elf) m 0, eEntry m elf) := by
  unfold elfLoad
  rw [magic, memcmp_four.mpr h.1, if_neg Bool.false_ne_true,
    if_neg fun h' => h'.elim (absurd h.2.1) (absurd h.2.2)]

theorem elfLoad_of_not_accepted (h : ¬ Accepted m elf) (entry : U32) :
    elfLoad m elf entry = (0, m, entry) := by
  unfold elfLoad
  cases hc : memcmp m elf magic with
  | true => rw [if_pos rfl]
  | false =>
      have hfail : eType m elf ≠ 2 ∨ eMachine m elf ≠ 0x28 := by
        by_contra hn
        rw [not_or, not_not, not_not] at hn
        exact h ⟨memcmp_four.mp hc, hn⟩
      rw [if_neg Bool.false_ne_true, if_pos hfail]

/-- **The load.** A loadable image is loaded: `*entry` is its entry point, every segment's range holds
its file bytes followed by zeros, and no other byte of the memory changes. An image that fails the
magic, type or machine check changes nothing. -/
theorem elfLoad_spec (m : Mem) (elf entry : U32) :
    (Loadable m elf → ∃ m', elfLoad m elf entry = (1, m', eEntry m elf) ∧
      Loaded m elf (ePhnum m elf) m') ∧
    (¬ Accepted m elf → elfLoad m elf entry = (0, m, entry)) :=
  ⟨fun h => ⟨_, elfLoad_of_accepted h.accepted entry,
    (loaded_zero m elf).loop h (Nat.zero_le _)⟩, fun h => elfLoad_of_not_accepted h entry⟩

/-- An image with one segment, of two bytes in the file and eight in memory. -/
def image : List U8 :=
  magic ++ [1, 1, 1] ++ List.replicate 9 0 ++ [2, 0, 0x28, 0, 1, 0, 0, 0, 0, 0x10, 0, 0, 52, 0, 0, 0] ++
    List.replicate 8 0 ++ [52, 0, 32, 0, 1, 0, 0, 0, 0, 0, 0, 0] ++
    [1, 0, 0, 0, 84, 0, 0, 0, 0, 0x10, 0, 0, 0, 0, 0, 0, 2, 0, 0, 0, 8, 0, 0, 0] ++
    List.replicate 8 0 ++ [0xAA, 0xBB]

/-- The image at address 0, in a memory that is zero elsewhere. -/
def imageMem : Mem := fun x => image.getD x.toNat 0

theorem eq_zero_of_lt_ePhnum {i : U16} (h : i < ePhnum imageMem 0) : i = 0 := by
  have hone : (ePhnum imageMem 0).toNat = 1 := by decide
  have hlt : i.toNat < (ePhnum imageMem 0).toNat := h
  rw [hone] at hlt
  exact BitVec.eq_of_toNat_eq (Nat.lt_one_iff.mp hlt)

theorem loadable_imageMem : Loadable imageMem 0 where
  accepted := by
    refine ⟨⟨?_, ?_, ?_, ?_⟩, ?_, ?_⟩ <;> decide
  filesz_le i hi := by
    rw [eq_zero_of_lt_ePhnum hi.1]
    decide
  disjoint i j _ hi hj _ _ := (eq_zero_of_lt_ePhnum hi.1).trans (eq_zero_of_lt_ePhnum hj.1).symm
  apart i x hi ht hx := by
    have hvaddr : (pVaddr imageMem (header imageMem 0 0)).toNat = 4096 := by decide
    have hmemsz : (pMemsz imageMem (header imageMem 0 0)).toNat = 8 := by decide
    have hfilesz : (pFilesz imageMem (header imageMem 0 0)).toNat = 2 := by decide
    have hheader : (header imageMem 0 0).toNat = 52 := by decide
    have hsrc : (0 + pOffset imageMem (header imageMem 0 0)).toNat = 84 := by decide
    have hzero : (0 : U32).toNat = 0 := rfl
    have := x.isLt
    -- the image ends before address 86
    have hlt : x.toNat < 86 := by
      rcases hx with hx | ⟨j, hj, hx⟩ | ⟨j, hj, hx⟩
      · unfold InRange at hx
        rw [BitVec.toNat_sub, hzero] at hx
        omega
      · rw [eq_zero_of_lt_ePhnum hj] at hx
        unfold InRange at hx
        rw [BitVec.toNat_sub, hheader] at hx
        omega
      · rw [eq_zero_of_lt_ePhnum hj.1] at hx
        unfold InRange at hx
        rw [BitVec.toNat_sub, hsrc, hfilesz] at hx
        omega
    rw [eq_zero_of_lt_ePhnum hi.1] at ht
    unfold Target InRange at ht
    rw [BitVec.toNat_sub, hvaddr, hmemsz] at ht
    omega

theorem elfLoad_spec_image : (∃ m', elfLoad imageMem 0 7 = (1, m', eEntry imageMem 0) ∧
      Loaded imageMem 0 (ePhnum imageMem 0) m') ∧
    elfLoad (fun _ => 0) 0 7 = (0, fun _ => 0, 7) :=
  ⟨(elfLoad_spec imageMem 0 7).1 loadable_imageMem,
    (elfLoad_spec (fun _ => 0) 0 7).2 fun h => absurd h.1.1 (by decide)⟩

end BloodKernel.Elf
