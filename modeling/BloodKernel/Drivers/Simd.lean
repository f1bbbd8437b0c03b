import BloodKernel.Kernel.Types
import BloodKernel.Lib.Blocks
import BloodKernel.Lib.Flat
import BloodKernel.Lib.Pack

set_option autoImplicit false

/-!
# Copying and filling with vector registers

`simd_memcpy` and `simd_memset` of `drivers/simd.c` go over whole blocks with the widest registers that are enabled,
and over the rest byte by byte. The vector instructions are those of the block that they move.

* `copyBytes`, `setBytes`: the loops over bytes, which are the fallback and the rest.
* `simdMemcpy`, `simdMemset`: the functions; `copyBlocks_eq`, `setBlocks_eq`: a path with blocks.
* **`simd_equals_bytes_iff`**: both leave the memory as the loops over bytes do, unless the fill uses a register of
  32 or 64 bytes, which it cannot set.
-/

namespace BloodKernel.Simd

open Lib

/-- The features of `simd_info` that the functions test. -/
structure Info where
  optimizationEnabled : U8
  sseEnabled : U8
  avxEnabled : U8
  avx512Enabled : U8

/-! ## The loops over bytes -/

/-- `d[i] = s[i]`, for `i` below `size`. -/
def copyBytes (m : ℕ → U8) (d s size : ℕ) : ℕ → U8 :=
  (List.range size).foldl (fun m i => Function.update m (d + i) (m (s + i))) m

/-- `d[i] = value` -/
def setBytes (m : ℕ → U8) (d : ℕ) (value : U8) (size : ℕ) : ℕ → U8 :=
  (List.range size).foldl (fun m i => Function.update m (d + i) value) m

/-! ## Copying -/

/-- Whole blocks are loaded and stored, then what remains byte by byte. Both pointers advance together, by `p`. -/
def copyBlocks (width : ℕ) (hwidth : 0 < width) (m : ℕ → U8) (d s size : ℕ) : ℕ → U8 :=
  let (m, p, remaining) :=
    whileAtLeast width hwidth (fun m p => writeAt m (d + p) (readAt m (s + p) width)) m 0 size
  copyBytes m (d + p) (s + p) remaining

def simdMemcpy (info : Info) (m : ℕ → U8) (d s : ℕ) (size : U32) : ℕ → U8 :=
  if info.optimizationEnabled = 0 ∨ size < 16 then copyBytes m d s size.toNat
  else if info.avx512Enabled ≠ 0 ∧ size ≥ 64 then copyBlocks 64 (Nat.succ_pos 63) m d s size.toNat
  else if info.avxEnabled ≠ 0 ∧ size ≥ 32 then copyBlocks 32 (Nat.succ_pos 31) m d s size.toNat
  else if info.sseEnabled ≠ 0 ∧ size ≥ 16 then copyBlocks 16 (Nat.succ_pos 15) m d s size.toNat
  else copyBytes m d s size.toNat

/-! ## Filling -/

/-- `value | (value << 8) | (value << 16) | (value << 24)` -/
def broadcast (value : U8) : U32 :=
  value.setWidth 32 ||| value.setWidth 32 <<< 8 ||| value.setWidth 32 <<< 16 ||| value.setWidth 32 <<< 24

/-- `movd` and `pshufd $0`: the four words of the register are the same. -/
def broadcastWord (word : U32) : List U8 := (List.range 16).map fun j => byteAt word (j % 4)

/-- The register is stored to whole blocks, then the value to what remains. -/
def setBlocks (width : ℕ) (hwidth : 0 < width) (register : List U8) (m : ℕ → U8) (d : ℕ) (value : U8) (size : ℕ) :
    ℕ → U8 :=
  let (m, p, remaining) := whileAtLeast width hwidth (fun m p => writeAt m (d + p) register) m 0 size
  setBytes m (d + p) value remaining

/-- `simd_memset`, as far as there are instructions for it. -/
def simdMemset (info : Info) (m : ℕ → U8) (d : ℕ) (value : U8) (size : U32) : Option (ℕ → U8) :=
  if info.optimizationEnabled = 0 ∨ size < 16 then some (setBytes m d value size.toNat)
  -- `vpbroadcastb` from the 8-bit register of `value`: there is a form for registers of 32 bits only, in AVX512BW
  else if info.avx512Enabled ≠ 0 ∧ size ≥ 64 then none
  else if info.avxEnabled ≠ 0 ∧ size ≥ 32 then none
  else if info.sseEnabled ≠ 0 ∧ size ≥ 16 then
    some (setBlocks 16 (Nat.succ_pos 15) (broadcastWord (broadcast value)) m d value size.toNat)
  else some (setBytes m d value size.toNat)

/-- No register of 32 or 64 bytes is filled. -/
def Narrow (info : Info) (size : U32) : Prop :=
  info.optimizationEnabled = 0 ∨ ¬(info.avx512Enabled ≠ 0 ∧ size ≥ 64) ∧ ¬(info.avxEnabled ≠ 0 ∧ size ≥ 32)

instance decidableNarrow (info : Info) (size : U32) : Decidable (Narrow info size) :=
  inferInstanceAs (Decidable (_ ∨ _ ∧ _))

/-! ## The loops -/

variable {m : ℕ → U8} {d s n size width : ℕ} {value : U8} {register : List U8}

/-- **The loop over bytes** copies what was in the source, when it does not meet the destination. -/
theorem copyBytes_eq (h : Apart d n s n) : copyBytes m d s n = writeAt m d (readAt m s n) := by
  induction n with
  | zero => exact (writeAt_eq_self_iff.mpr rfl).symm
  | succ n ih =>
      have hsmall : Apart d n s n := by unfold Apart at h ⊢; omega
      have hbyte : writeAt m d (readAt m s n) (s + n) = m (s + n) := by
        refine writeAt_of_not ?_
        rw [length_readAt]
        unfold Apart at h
        omega
      have hone : readAt m (s + n) 1 = [m (s + n)] := rfl
      have hlast := foldl_update_zipIdx [m (s + n)] (writeAt m d (readAt m s n)) (d + n)
      have happend := writeAt_append m d (readAt m s n) [m (s + n)]
      rw [length_readAt] at happend
      unfold copyBytes at ih ⊢
      rw [List.range_succ, List.foldl_append, ih hsmall, List.foldl_cons, List.foldl_nil, hbyte, readAt_add, hone,
        ← happend]
      exact hlast

theorem setBytes_eq : setBytes m d value n = writeAt m d (List.replicate n value) := by
  induction n with
  | zero => exact (writeAt_eq_self_iff.mpr rfl).symm
  | succ n ih =>
      have hlast := foldl_update_zipIdx [value] (writeAt m d (List.replicate n value)) (d + n)
      have happend := writeAt_append m d (List.replicate n value) [value]
      rw [List.length_replicate] at happend
      unfold setBytes at ih ⊢
      rw [List.range_succ, List.foldl_append, ih, List.foldl_cons, List.foldl_nil, List.replicate_succ', ← happend]
      exact hlast

/-- **A path that copies blocks.** The invariant: what lies before `p` has been copied, and nothing else. -/
theorem copyBlocks_eq (hwidth : 0 < width) (h : Apart d size s size) :
    copyBlocks width hwidth m d s size = copyBytes m d s size := by
  have hcopied {p l : ℕ} (hpl : p + l ≤ size) : writeAt (writeAt m d (readAt m s p)) (d + p)
      (readAt (writeAt m d (readAt m s p)) (s + p) l) = writeAt m d (readAt m s (p + l)) := by
    have hapart : Apart d (readAt m s p).length (s + p) l := by
      rw [length_readAt]
      exact h.part (by omega) hpl
    have happend := writeAt_append m d (readAt m s p) (readAt m (s + p) l)
    rw [length_readAt] at happend
    rw [readAt_writeAt_of_apart hapart, readAt_add, happend]
  obtain ⟨⟨hsum, hm⟩, -⟩ := whileAtLeast_invariant width hwidth (fun m p => writeAt m (d + p) (readAt m (s + p) width))
    (fun m' p r => p + r = size ∧ m' = writeAt m d (readAt m s p)) (by
      rintro _ p r hle ⟨hsum, rfl⟩
      exact ⟨by omega, hcopied (by omega)⟩)
    ⟨Nat.zero_add size, (writeAt_eq_self_iff.mpr rfl).symm⟩
  unfold copyBlocks
  revert hsum hm
  generalize whileAtLeast width hwidth (fun m p => writeAt m (d + p) (readAt m (s + p) width)) m 0 size = t
  obtain ⟨m', p, r⟩ := t
  dsimp only
  rintro hsum rfl
  have hrest : Apart (d + p) r (s + p) r := by
    unfold Apart at h ⊢
    omega
  rw [copyBytes_eq hrest, copyBytes_eq h, hcopied hsum.le, hsum]

/-- **A path that fills blocks**, with a register that holds the value in all its bytes. -/
theorem setBlocks_eq (hwidth : 0 < width) (hregister : register = List.replicate width value) :
    setBlocks width hwidth register m d value size = setBytes m d value size := by
  have hfilled (p l : ℕ) : writeAt (writeAt m d (List.replicate p value)) (d + p) (List.replicate l value) =
      writeAt m d (List.replicate (p + l) value) := by
    have happend := writeAt_append m d (List.replicate p value) (List.replicate l value)
    rwa [List.length_replicate, List.replicate_append_replicate] at happend
  obtain ⟨⟨hsum, hm⟩, -⟩ := whileAtLeast_invariant width hwidth (fun m p => writeAt m (d + p) register)
    (fun m' p r => p + r = size ∧ m' = writeAt m d (List.replicate p value)) (by
      rintro _ p r hle ⟨hsum, rfl⟩
      exact ⟨by omega, hregister ▸ hfilled p width⟩)
    ⟨Nat.zero_add size, (writeAt_eq_self_iff.mpr rfl).symm⟩
  unfold setBlocks
  revert hsum hm
  generalize whileAtLeast width hwidth (fun m p => writeAt m (d + p) register) m 0 size = t
  obtain ⟨m', p, r⟩ := t
  dsimp only
  rintro hsum rfl
  rw [setBytes_eq, setBytes_eq, hfilled, hsum]

/-! ## The functions -/

theorem simdMemcpy_eq (info : Info) {size : U32} (h : Apart d size.toNat s size.toNat) :
    simdMemcpy info m d s size = copyBytes m d s size.toNat := by
  unfold simdMemcpy
  split_ifs
  · rfl
  · exact copyBlocks_eq _ h
  · exact copyBlocks_eq _ h
  · exact copyBlocks_eq _ h
  · rfl

theorem byteAt_broadcast {j : ℕ} (hj : j < 4) : byteAt (broadcast value) j = value := by
  have hpack : broadcast value = packBytes 32 (fun _ => value) 4 := by
    simp [broadcast, packBytes]
  rw [hpack, byteAt_packBytes (by decide) hj]

theorem broadcastWord_broadcast : broadcastWord (broadcast value) = List.replicate 16 value := by
  refine List.eq_replicate_iff.mpr ⟨by rw [broadcastWord, List.length_map, List.length_range], fun b hb => ?_⟩
  obtain ⟨j, -, rfl⟩ := List.mem_map.mp hb
  exact byteAt_broadcast (Nat.mod_lt j (by decide))

theorem simdMemset_eq_iff (info : Info) (size : U32) :
    simdMemset info m d value size = some (setBytes m d value size.toNat) ↔ Narrow info size := by
  unfold simdMemset Narrow
  split_ifs with hbytes hwide hmiddle hsse
  · refine iff_of_true rfl (hbytes.imp_right fun hsize => ?_)
    have hsize : size.toNat < 16 := hsize
    exact ⟨fun h => absurd (show 64 ≤ size.toNat from h.2) (by omega),
      fun h => absurd (show 32 ≤ size.toNat from h.2) (by omega)⟩
  · exact iff_of_false id fun h =>
      h.elim (fun hopt => hbytes (.inl hopt)) fun h => h.1 hwide
  · exact iff_of_false id fun h =>
      h.elim (fun hopt => hbytes (.inl hopt)) fun h => h.2 hmiddle
  · rw [setBlocks_eq _ broadcastWord_broadcast]
    exact iff_of_true rfl (.inr ⟨hwide, hmiddle⟩)
  · exact iff_of_true rfl (.inr ⟨hwide, hmiddle⟩)

/-- **With vector registers or without.** `simd_memcpy` leaves the memory as the loop over bytes does, for all
features, when the ranges are apart, and that has copied the source and changed nothing else; and so does
`simd_memset`, exactly when no register of 32 or 64 bytes is filled. -/
theorem simd_equals_bytes_iff (info : Info) (m : ℕ → U8) (d s : ℕ) (size : U32) (h : Apart d size.toNat s size.toNat)
    (t : ℕ) (value : U8) (length : U32) :
    ((simdMemcpy info m d s size = copyBytes m d s size.toNat ∧
      copyBytes m d s size.toNat = writeAt m d (readAt m s size.toNat)) ∧
    (simdMemset info m t value length = some (setBytes m t value length.toNat) ∧
      setBytes m t value length.toNat = writeAt m t (List.replicate length.toNat value))) ↔ Narrow info length :=
  (and_iff_right ⟨simdMemcpy_eq info h, copyBytes_eq h⟩).trans
    ((and_iff_left setBytes_eq).trans (simdMemset_eq_iff info length))

/-- A memory that holds at each address its last byte. -/
def counting : ℕ → U8 := fun a => BitVec.ofNat 8 a

/-- 100 bytes are copied from 1000 to 2000, with AVX, and 20 are filled; with SSE, 100 are filled. -/
theorem simd_equals_bytes_hundred :
    simdMemcpy ⟨1, 1, 1, 0⟩ counting 2000 1000 100 = copyBytes counting 2000 1000 100 ∧
    simdMemset ⟨1, 1, 1, 0⟩ counting 3000 0xA5 20 = some (setBytes counting 3000 0xA5 20) ∧
    simdMemset ⟨1, 1, 0, 0⟩ counting 3000 0xA5 100 = some (setBytes counting 3000 0xA5 100) := by
  obtain ⟨⟨hcopy, -⟩, hshort, -⟩ :=
    (simd_equals_bytes_iff ⟨1, 1, 1, 0⟩ counting 2000 1000 100 (by decide) 3000 0xA5 20).mpr (by decide)
  obtain ⟨-, hfill, -⟩ :=
    (simd_equals_bytes_iff ⟨1, 1, 0, 0⟩ counting 2000 1000 100 (by decide) 3000 0xA5 100).mpr (by decide)
  exact ⟨hcopy, hshort, hfill⟩

/-- With AVX, the fill of 32 bytes has no instruction to start with. -/
theorem not_simd_equals_bytes : ¬∀ (info : Info) (m : ℕ → U8) (d : ℕ) (value : U8) (size : U32),
    simdMemset info m d value size = some (setBytes m d value size.toNat) := by
  intro h
  exact absurd ((simdMemset_eq_iff ⟨1, 1, 1, 0⟩ 32).mp (h ⟨1, 1, 1, 0⟩ 0 0 0xA5 32)) (by decide)

end BloodKernel.Simd
