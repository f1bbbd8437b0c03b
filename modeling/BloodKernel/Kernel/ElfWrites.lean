import BloodKernel.Kernel.Elf

set_option autoImplicit false

/-!
# What the ELF loader writes

A round of the loop copies `p_filesz` bytes and then fills up to `p_memsz`; it reads the header at its
start and the two sizes again after the copy, and a segment may be loaded over the headers.

* `RoundWrites`, `Round`: the bytes that a round writes, and the rounds of a load; `elfLoad_frame`:
  nothing else is written;
* `Confined`, `Fits`: the round writes inside its declared segment; the sizes in its header;
  `confined_iff_fits`: one is the other;
* `HeadersApart`, `Round.kept`, `exists_round`: no segment is loaded over the headers, and the rounds are
  those of the image's headers;
* **`load_confined_iff`**: every round writes inside its segment exactly when the sizes of every round fit.
-/

namespace BloodKernel.Elf

open Lib

/-- The memory after the copy of a round. -/
def copied (elf : U32) (m : Mem) (p : U32) : Mem :=
  memcpy m (pVaddr m p) (elf + pOffset m p) (pFilesz m p).toNat

/-- `x` is written in the round for the entry at `p`: in its copy, or in its fill. -/
def RoundWrites (elf : U32) (m : Mem) (p x : U32) : Prop :=
  pType m p = 1 ∧ (InRange (pVaddr m p) (pFilesz m p).toNat x ∨
    pFilesz (copied elf m p) p < pMemsz (copied elf m p) p ∧
      InRange (pVaddr m p + pFilesz (copied elf m p) p)
        (pMemsz (copied elf m p) p - pFilesz (copied elf m p) p).toNat x)

/-- The load of the image at `elf` in the memory `m` enters the round for entry `i` with the memory
`m'`. -/
inductive Round (m : Mem) (elf : U32) : Mem → U16 → Prop
  | first (h : Accepted m elf) (hlt : 0 < ePhnum m elf) : Round m elf m 0
  | next {m' : Mem} {i : U16} (h : Round m elf m' i)
      (hlt : i + 1 < ePhnum (loadSegment elf m' (header m elf i)) elf) :
      Round m elf (loadSegment elf m' (header m elf i)) (i + 1)

/-- The round writes only inside the segment that its header declares. -/
def Confined (elf : U32) (m : Mem) (p : U32) : Prop := ∀ x, RoundWrites elf m p x → Target m p x

/-- In a `PT_LOAD` header the file size is at most the memory size; and if the round fills, the copy has
not made the memory size larger. -/
def Fits (elf : U32) (m : Mem) (p : U32) : Prop :=
  pType m p = 1 → pFilesz m p ≤ pMemsz m p ∧
    (pFilesz (copied elf m p) p < pMemsz (copied elf m p) p →
      pMemsz (copied elf m p) p ≤ pMemsz m p)

/-! ### Nothing else is written -/

variable {m m' : Mem} {elf p x : U32} {i : U16}

theorem memcpy_frame {d s : U32} {n : ℕ} (h : ¬ InRange d n x) : memcpy m d s n x = m x := by
  induction n generalizing m d s with
  | zero => rfl
  | succ n ih =>
      rw [inRange_succ, not_or] at h
      rw [memcpy, ih h.2, Function.update_of_ne h.1]

theorem loadSegment_frame (h : ¬ RoundWrites elf m p x) : loadSegment elf m p x = m x := by
  unfold loadSegment
  by_cases hload : pType m p = 1
  · obtain ⟨hcopied, hfilled⟩ := not_or.mp fun hw => h ⟨hload, hw⟩
    have hcopy : copied elf m p x = m x := memcpy_frame hcopied
    rw [if_pos hload]
    show (if pFilesz (copied elf m p) p < pMemsz (copied elf m p) p then
      memset (copied elf m p) (pVaddr m p + pFilesz (copied elf m p) p) 0
        (pMemsz (copied elf m p) p - pFilesz (copied elf m p) p).toNat
      else copied elf m p : Mem) x = m x
    split_ifs with hlt
    · rw [memset_apply (BitVec.isLt _), if_neg fun hx => hfilled ⟨hlt, hx⟩, hcopy]
    · exact hcopy
  · rw [if_neg hload]

theorem Round.loop_frame (h : ∀ m' i, Round m elf m' i → ¬ RoundWrites elf m' (header m elf i) x)
    (hr : i < ePhnum m' elf → Round m elf m' i) :
    loadSegments elf (elf + ePhoff m elf) m' i x = m' x := by
  fun_induction loadSegments elf (elf + ePhoff m elf) m' i with
  | case1 m' i hlt ih =>
      exact (ih fun hlt' => (hr hlt).next hlt').trans (loadSegment_frame (h m' i (hr hlt)))
  | case2 m' i hge => rfl

/-- **The frame.** A byte that no round writes is as it was. -/
theorem elfLoad_frame (entry : U32)
    (h : ∀ m' i, Round m elf m' i → ¬ RoundWrites elf m' (header m elf i) x) :
    (elfLoad m elf entry).2.1 x = m x := by
  by_cases hacc : Accepted m elf
  · rw [elfLoad_of_accepted hacc]
    exact Round.loop_frame h fun hlt => .first hacc hlt
  · rw [elfLoad_of_not_accepted hacc]

/-! ### One round -/

/-- **One round** writes inside its segment exactly when the sizes fit. -/
theorem confined_iff_fits : Confined elf m p ↔ Fits elf m p := by
  have hcopy := inRange_subset_iff (a := pVaddr m p) (n := (pFilesz m p).toNat)
    (l := (pMemsz m p).toNat) (pFilesz m p).isLt.le
  -- the fill goes up to the memory size read after the copy
  have hfill : pFilesz (copied elf m p) p < pMemsz (copied elf m p) p → ∀ x,
      InRange (pVaddr m p + pFilesz (copied elf m p) p)
        (pMemsz (copied elf m p) p - pFilesz (copied elf m p) p).toNat x ↔
      InRange (pVaddr m p) (pMemsz (copied elf m p) p).toNat x ∧
        ¬ InRange (pVaddr m p) (pFilesz (copied elf m p) p).toNat x := by
    intro hlt x
    have hlt' : (pFilesz (copied elf m p) p).toNat < (pMemsz (copied elf m p) p).toNat := hlt
    have hmem := (pMemsz (copied elf m p) p).isLt
    have h := inRange_add_iff (a := pVaddr m p) (x := x) (k := (pFilesz (copied elf m p) p).toNat)
      (n := (pMemsz (copied elf m p) p).toNat - (pFilesz (copied elf m p) p).toNat) (by omega)
    rw [BitVec.ofNat_toNat, BitVec.setWidth_eq, Nat.add_sub_cancel' hlt'.le] at h
    rw [BitVec.toNat_sub_of_le hlt'.le]
    exact h
  constructor
  · intro hc hload
    refine ⟨hcopy.mp fun x hx => hc x ⟨hload, .inl hx⟩, fun hlt => ?_⟩
    have hlt' : (pFilesz (copied elf m p) p).toNat < (pMemsz (copied elf m p) p).toNat := hlt
    have hmem := (pMemsz (copied elf m p) p).isLt
    -- the last byte of the fill
    have hlast := hc (pVaddr m p + BitVec.ofNat 32 ((pMemsz (copied elf m p) p).toNat - 1))
      ⟨hload, .inr ⟨hlt, (hfill hlt _).mpr ⟨inRange_add (by omega), fun hin => ?_⟩⟩⟩
    · unfold Target InRange at hlast
      rw [add_sub_self, BitVec.toNat_ofNat, Nat.mod_eq_of_lt (by omega)] at hlast
      exact BitVec.le_def.mpr (by omega)
    · unfold InRange at hin
      rw [add_sub_self, BitVec.toNat_ofNat, Nat.mod_eq_of_lt (by omega)] at hin
      omega
  · intro hf x hw
    obtain ⟨hle, hmemsz⟩ := hf hw.1
    rcases hw.2 with hx | ⟨hlt, hx⟩
    · exact hcopy.mpr hle x hx
    · exact ((hfill hlt x).mp hx).1.mono (hmemsz hlt)

/-! ### Images that are not loaded over their headers -/

/-- `x` is a byte of the ELF header or of the program-header table. -/
def HeaderByte (m : Mem) (elf x : U32) : Prop :=
  InRange elf 52 x ∨ ∃ j < ePhnum m elf, InRange (header m elf j) 32 x

/-- No `PT_LOAD` header has a header byte among its file bytes' places or in its segment. -/
def HeadersApart (m : Mem) (elf : U32) : Prop := ∀ i x, IsLoad m elf i →
  InRange (pVaddr m (header m elf i)) (pFilesz m (header m elf i)).toNat x ∨
    Target m (header m elf i) x → ¬ HeaderByte m elf x

/-- `m'` has the headers of the image in `m`. -/
def Kept (m : Mem) (elf : U32) (m' : Mem) : Prop := ∀ x, HeaderByte m elf x → m' x = m x

section Apart

variable (h : HeadersApart m elf) (hk : Kept m elf m')

include hk in
theorem Kept.entry (hi : i < ePhnum m elf) {x : U32} (hx : InRange (header m elf i) 32 x) :
    m' x = m x := hk x (.inr ⟨i, hi, hx⟩)

include hk in
theorem Kept.ePhnum_eq : ePhnum m' elf = ePhnum m elf :=
  load16_congr fun x hx => hk x (.inl (hx.of_add (k := 44) (by omega)))

include h hk in
theorem Kept.after_copied (hi : IsLoad m elf i) : Kept m elf (copied elf m' (header m elf i)) := by
  intro x hx
  have hvaddr := pVaddr_congr fun _ => hk.entry hi.1
  have hfilesz := pFilesz_congr fun _ => hk.entry hi.1
  refine (memcpy_frame fun hin => h i x hi (.inl ?_) hx).trans (hk x hx)
  rwa [hvaddr, hfilesz] at hin

include h hk in
theorem Kept.fits_iff (hi : i < ePhnum m elf) : Fits elf m' (header m elf i) ↔
    (IsLoad m elf i → pFilesz m (header m elf i) ≤ pMemsz m (header m elf i)) := by
  unfold Fits
  rw [pType_congr fun _ => hk.entry hi, pFilesz_congr fun _ => hk.entry hi,
    pMemsz_congr fun _ => hk.entry hi]
  refine ⟨fun hf hload => (hf hload.2).1, fun hf hload => ⟨hf ⟨hi, hload⟩, fun _ => ?_⟩⟩
  have hk' := hk.after_copied h ⟨hi, hload⟩
  rw [pMemsz_congr fun _ => hk'.entry hi]
  exact BitVec.le_refl _

include h hk in
theorem Kept.roundWrites (hi : i < ePhnum m elf) {x : U32}
    (hw : RoundWrites elf m' (header m elf i) x) : IsLoad m elf i ∧
      (InRange (pVaddr m (header m elf i)) (pFilesz m (header m elf i)).toNat x ∨
        Target m (header m elf i) x) := by
  have hload : IsLoad m elf i := ⟨hi, (pType_congr fun _ => hk.entry hi).symm.trans hw.1⟩
  have hk' := hk.after_copied h hload
  have hw := hw.2
  rw [pVaddr_congr fun _ => hk.entry hi, pFilesz_congr fun _ => hk.entry hi,
    pFilesz_congr fun _ => hk'.entry hi, pMemsz_congr fun _ => hk'.entry hi] at hw
  refine ⟨hload, hw.imp_right fun ⟨hlt, hx⟩ => ?_⟩
  have hlt' : (pFilesz m (header m elf i)).toNat < (pMemsz m (header m elf i)).toNat := hlt
  rw [BitVec.toNat_sub_of_le hlt'.le] at hx
  refine InRange.of_add (k := (pFilesz m (header m elf i)).toNat) ?_ (Nat.add_sub_of_le hlt'.le).le
  rwa [BitVec.ofNat_toNat, BitVec.setWidth_eq]

include h hk in
theorem Kept.after_loadSegment (hi : i < ePhnum m elf) :
    Kept m elf (loadSegment elf m' (header m elf i)) := by
  intro x hx
  refine (loadSegment_frame fun hw => ?_).trans (hk x hx)
  obtain ⟨hload, hspan⟩ := hk.roundWrites h hi hw
  exact h i x hload hspan hx

include h in
theorem Round.kept (hr : Round m elf m' i) : Kept m elf m' ∧ i < ePhnum m elf := by
  induction hr with
  | first _ hlt => exact ⟨fun _ _ => rfl, hlt⟩
  | next _ hlt ih =>
      have hk := ih.1.after_loadSegment h ih.2
      exact ⟨hk, hk.ePhnum_eq ▸ hlt⟩

include h in
theorem exists_round (hacc : Accepted m elf) (hi : i < ePhnum m elf) : ∃ m', Round m elf m' i := by
  obtain ⟨n, hn⟩ : ∃ n, i.toNat = n := ⟨_, rfl⟩
  induction n generalizing i with
  | zero =>
      obtain rfl : i = 0 := BitVec.eq_of_toNat_eq hn
      exact ⟨m, .first hacc hi⟩
  | succ n ih =>
      have hlt : i.toNat < (ePhnum m elf).toNat := hi
      have hn' : (BitVec.ofNat 16 n).toNat = n := by
        rw [BitVec.toNat_ofNat, Nat.mod_eq_of_lt (by omega)]
      have hprev : BitVec.ofNat 16 n < ePhnum m elf := by
        rw [BitVec.lt_def, hn']
        omega
      have hsucc : BitVec.ofNat 16 n + 1 = i := by
        apply BitVec.eq_of_toNat_eq
        rw [toNat_succ hprev, hn', hn]
      obtain ⟨m', hr⟩ := ih hprev hn'
      have hk := (hr.kept h).1.after_loadSegment h hprev
      exact ⟨_, hsucc ▸ hr.next (by rw [hsucc, hk.ePhnum_eq]; exact hi)⟩

end Apart

/-! ### The load -/

/-- **When a load writes inside the segments.** For every image, every round of the load writes only
inside `[p_vaddr, p_vaddr + p_memsz)` of the `PT_LOAD` header that it reads if and only if the sizes in
the header fit in every round. If no segment is loaded over the headers of the image: the load writes
only inside the segments that these declare, each round inside its own, if and only if no `PT_LOAD`
header has `p_filesz > p_memsz`. -/
theorem load_confined_iff (m : Mem) (elf : U32) :
    ((∀ m' i, Round m elf m' i → Confined elf m' (header m elf i)) ↔
      ∀ m' i, Round m elf m' i → Fits elf m' (header m elf i)) ∧
    (Accepted m elf → HeadersApart m elf →
      ((∀ m' i x, Round m elf m' i → RoundWrites elf m' (header m elf i) x →
          IsLoad m elf i ∧ Target m (header m elf i) x) ↔
        ∀ i, IsLoad m elf i → pFilesz m (header m elf i) ≤ pMemsz m (header m elf i))) := by
  refine ⟨forall₃_congr fun _ _ _ => confined_iff_fits, fun hacc h => ?_⟩
  have htarget : ∀ {m' i}, Round m elf m' i → ∀ x,
      Target m' (header m elf i) x ↔ Target m (header m elf i) x := fun hr x => by
    obtain ⟨hk, hi⟩ := hr.kept h
    unfold Target
    rw [pVaddr_congr fun _ => hk.entry hi, pMemsz_congr fun _ => hk.entry hi]
  constructor
  · intro hw i hi
    obtain ⟨m', hr⟩ := exists_round h hacc hi.1
    have hconf : Confined elf m' (header m elf i) := fun x hx =>
      (htarget hr x).mpr (hw m' i x hr hx).2
    exact ((hr.kept h).1.fits_iff h hi.1).mp (confined_iff_fits.mp hconf) hi
  · intro hle m' i x hr hx
    obtain ⟨hk, hi⟩ := hr.kept h
    have hconf := confined_iff_fits.mpr ((hk.fits_iff h hi).mpr (hle i))
    exact ⟨(hk.roundWrites h hi hx).1, (htarget hr x).mp (hconf x hx)⟩

/-- The image of `image`, with eight bytes in the file and two in memory. -/
def longImage : List U8 := (image.set 68 8).set 72 2

def longMem : Mem := fun x => longImage.getD x.toNat 0

theorem accepted_longMem : Accepted longMem 0 := by
  refine ⟨⟨?_, ?_, ?_, ?_⟩, ?_, ?_⟩ <;> decide

theorem eq_zero_of_lt_longMem {i : U16} (h : i < ePhnum longMem 0) : i = 0 := by
  have hone : (ePhnum longMem 0).toNat = 1 := by decide
  have hlt : i.toNat < (ePhnum longMem 0).toNat := h
  rw [hone] at hlt
  exact BitVec.eq_of_toNat_eq (Nat.lt_one_iff.mp hlt)

theorem headersApart_longMem : HeadersApart longMem 0 := by
  intro i x hi hspan hx
  have hvaddr : (pVaddr longMem (header longMem 0 0)).toNat = 4096 := by decide
  have hmemsz : (pMemsz longMem (header longMem 0 0)).toNat = 2 := by decide
  have hfilesz : (pFilesz longMem (header longMem 0 0)).toNat = 8 := by decide
  have hheader : (header longMem 0 0).toNat = 52 := by decide
  have hzero : (0 : U32).toNat = 0 := rfl
  have := x.isLt
  -- the headers end before address 84
  have hlt : x.toNat < 84 := by
    rcases hx with hx | ⟨j, hj, hx⟩
    · unfold InRange at hx
      rw [BitVec.toNat_sub, hzero] at hx
      omega
    · rw [eq_zero_of_lt_longMem hj] at hx
      unfold InRange at hx
      rw [BitVec.toNat_sub, hheader] at hx
      omega
  rw [eq_zero_of_lt_longMem hi.1] at hspan
  unfold Target InRange at hspan
  rw [BitVec.toNat_sub, hvaddr, hmemsz, hfilesz] at hspan
  omega

theorem load_confined_iff_long :
    (∀ m' i x, Round longMem 0 m' i → RoundWrites 0 m' (header longMem 0 i) x →
      IsLoad longMem 0 i ∧ Target longMem (header longMem 0 i) x) ↔
    ∀ i, IsLoad longMem 0 i → pFilesz longMem (header longMem 0 i) ≤ pMemsz longMem (header longMem 0 i) :=
  (load_confined_iff longMem 0).2 accepted_longMem headersApart_longMem

/-- Six bytes are written outside of every segment. -/
theorem load_not_confined : ¬ ∀ (m : Mem) (elf : U32) (m' : Mem) (i : U16) (x : U32), Round m elf m' i →
    RoundWrites elf m' (header m elf i) x → ∃ j, IsLoad m elf j ∧ Target m (header m elf j) x := by
  intro hall
  obtain ⟨j, hj, ht⟩ := hall longMem 0 longMem 0 4100 (.first accepted_longMem (by decide))
    ⟨by decide, .inl (by decide)⟩
  rw [eq_zero_of_lt_longMem hj.1] at ht
  exact absurd ht (by decide)

end BloodKernel.Elf
