import BloodKernel.Kernel.Types
import BloodKernel.Lib.Traced
import Mathlib.Algebra.BigOperators.Group.Finset.Basic

set_option autoImplicit false

/-!
# Microcode updates

`microcode_load_update` of `drivers/microcode.c` on an Intel CPU. The size of the image is only compared with that of
the header; the checksum is over as many bytes as the header says, and the size of the data is not compared with them.

* `microcodeCalculateChecksum`, `microcodeValidateIntelUpdate`, `microcodeLoadUpdate`: the functions, with the bytes
  that they read.
* `Sound`: the call reads bytes of the image, and accepts what fits; `Safe`: the condition for it.
* `validate_spec`: what the checks of the header come to; **`update_sound_iff`**.
-/

namespace BloodKernel.Microcode

open Lib

/-- `microcode_info` of an Intel CPU. -/
structure Info where
  currentRevision : U32
  processorSignature : U32
  processorFlags : U32
  updateAvailable : Bool
  updateRevision : U32
  updateData : Option (ℕ → U8)
  updateSize : U32

/-! ## The fields of the header -/

/-- The word at a place of an image. -/
def word (image : ℕ → U8) (place : ℕ) : U32 :=
  image (place + 3) ++ image (place + 2) ++ image (place + 1) ++ image place

def readWord (image : ℕ → U8) (place : ℕ) : Traced ℕ U32 :=
  (Traced.read image place).bind fun b₀ => (Traced.read image (place + 1)).bind fun b₁ =>
    (Traced.read image (place + 2)).bind fun b₂ => (Traced.read image (place + 3)).bind fun b₃ =>
      .pure (b₃ ++ b₂ ++ b₁ ++ b₀)

/-- The places of `intel_microcode_header_t`. -/
def headerVersion : ℕ := 0
def updateRevision : ℕ := 4
def processorSignature : ℕ := 12
def processorFlags : ℕ := 24
def dataSize : ℕ := 28
def totalSize : ℕ := 32
def headerSize : ℕ := 48

/-! ## The functions -/

/-- The sum of the first `n` words. -/
def checksumWords (image : ℕ → U8) : ℕ → Traced ℕ U32
  | 0 => .pure 0
  | n + 1 => (checksumWords image n).bind fun checksum => (readWord image (4 * n)).bind fun w => .pure (checksum + w)

def microcodeCalculateChecksum (image : ℕ → U8) (size : U32) : Traced ℕ U32 := checksumWords image (size.toNat / 4)

/-- The size of the data is in bounds, or that of the whole when there is none of the data. -/
def sizesInBounds (image : ℕ → U8) : Traced ℕ Bool :=
  (readWord image dataSize).bind fun size =>
    if size = 0 then (readWord image totalSize).bind fun total => .pure (decide (2048 ≤ total ∧ total ≤ 32768))
    else .pure (decide (2000 ≤ size ∧ size ≤ 32000))

def microcodeValidateIntelUpdate (info : Info) (image : ℕ → U8) : Traced ℕ Bool :=
  (readWord image headerVersion).bind fun version =>
  if version ≠ 1 then .pure false
  else (readWord image processorSignature).bind fun signature =>
  if signature ≠ info.processorSignature then .pure false
  else (readWord image processorFlags).bind fun flags =>
  if flags &&& info.processorFlags = 0 then .pure false
  else (sizesInBounds image).bind fun inBounds =>
  if inBounds = false then .pure false
  else (readWord image totalSize).bind fun total =>
    (microcodeCalculateChecksum image (if total ≠ 0 then total else 2048)).bind fun checksum =>
      .pure (decide (checksum = 0))

/-- `microcode_load_update`. There may be no image. -/
def microcodeLoadUpdate (info : Info) (updateData : Option (ℕ → U8)) (size : U32) : Traced ℕ (Bool × Info) :=
  match updateData with
  | none => .pure (false, info)
  | some image =>
      if size < 48 then .pure (false, info)
      else (microcodeValidateIntelUpdate info image).bind fun valid =>
        if valid = false then .pure (false, info)
        else (readWord image updateRevision).bind fun revision =>
          if revision ≤ info.currentRevision then .pure (false, info)
          else .pure (true,
            { info with
              updateData := some image
              updateSize := size
              updateRevision := revision
              updateAvailable := true })

/-! ## What it should do -/

/-- The size that the header declares. -/
def declaredSize (image : ℕ → U8) : ℕ :=
  if word image totalSize = 0 then 2048 else (word image totalSize).toNat

/-- The sum of the words of the declared size. -/
def wordSum (image : ℕ → U8) : U32 := ∑ i ∈ Finset.range (declaredSize image / 4), word image (4 * i)

/-- The image fits in its size, and the data in the image. -/
def Fits (image : ℕ → U8) (size : U32) : Prop :=
  declaredSize image ≤ size.toNat ∧ (word image dataSize).toNat + headerSize ≤ declaredSize image

/-- Only bytes of the image are read, and what is accepted fits, has a sum of zero and is newer. -/
structure Sound (info : Info) (image : ℕ → U8) (size : U32) : Prop where
  reads : (microcodeLoadUpdate info (some image) size).Only (· < size.toNat)
  accepts : (microcodeLoadUpdate info (some image) size).value.1 = true →
    Fits image size ∧ wordSum image = 0 ∧ info.currentRevision < word image updateRevision

/-- The header is not refused before the checksum. -/
def HeaderPasses (info : Info) (image : ℕ → U8) : Prop :=
  word image headerVersion = 1 ∧ word image processorSignature = info.processorSignature ∧
    word image processorFlags &&& info.processorFlags ≠ 0 ∧
    if word image dataSize = 0 then 2048 ≤ word image totalSize ∧ word image totalSize ≤ 32768
    else 2000 ≤ word image dataSize ∧ word image dataSize ≤ 32000

/-- An image that is too small or refused at its header; or one whose words are all there, and that fits, or is refused
for their sum or its revision. -/
def Safe (info : Info) (image : ℕ → U8) (size : U32) : Prop :=
  size < 48 ∨ ¬HeaderPasses info image ∨
    (4 * (declaredSize image / 4) ≤ size.toNat ∧
      (Fits image size ∨ wordSum image ≠ 0 ∨ word image updateRevision ≤ info.currentRevision))

/-! ## Reads -/

variable {info : Info} {image : ℕ → U8} {size : U32} {place n s : ℕ}

@[simp] theorem value_readWord (image : ℕ → U8) (place : ℕ) : (readWord image place).value = word image place := rfl

theorem only_readWord : (readWord image place).Only (· < s) ↔ place + 4 ≤ s := by
  unfold readWord
  rw [Traced.only_bind, Traced.only_bind, Traced.only_bind, Traced.only_bind, Traced.only_read, Traced.only_read,
    Traced.only_read, Traced.only_read, and_iff_left (Traced.only_pure _)]
  omega

/-- **The loop** reads all bytes of its words. -/
theorem only_checksumWords : (checksumWords image n).Only (· < s) ↔ 4 * n ≤ s := by
  induction n with
  | zero => exact iff_of_true (Traced.only_pure _) (Nat.zero_le _)
  | succ n ih =>
      rw [checksumWords, Traced.only_bind, Traced.only_bind, ih, only_readWord, and_iff_left (Traced.only_pure _)]
      omega

theorem value_checksumWords : (checksumWords image n).value = ∑ i ∈ Finset.range n, word image (4 * i) := by
  induction n with
  | zero => rfl
  | succ n ih =>
      rw [Finset.sum_range_succ, ← ih]
      rfl

theorem only_field (hs : headerSize ≤ s) (hplace : place + 4 ≤ headerSize) : (readWord image place).Only (· < s) :=
  only_readWord.mpr (hplace.trans hs)

theorem sizesInBounds_spec (image : ℕ → U8) (hs : headerSize ≤ s) : (sizesInBounds image).Only (· < s) ∧
    ((sizesInBounds image).value = true ↔
      if word image dataSize = 0 then 2048 ≤ word image totalSize ∧ word image totalSize ≤ 32768
      else 2000 ≤ word image dataSize ∧ word image dataSize ≤ 32000) := by
  unfold sizesInBounds
  rw [Traced.only_bind, Traced.value_bind, value_readWord]
  split_ifs
  · rw [Traced.only_bind]
    exact ⟨⟨only_field hs (by decide), only_field hs (by decide), Traced.only_pure _⟩, decide_eq_true_iff⟩
  · exact ⟨⟨only_field hs (by decide), Traced.only_pure _⟩, decide_eq_true_iff⟩

theorem toNat_checksumSize :
    (if word image totalSize ≠ 0 then word image totalSize else 2048).toNat = declaredSize image := by
  unfold declaredSize
  by_cases h : word image totalSize = 0
  · rw [if_pos h, if_neg (not_not.mpr h)]
    rfl
  · rw [if_neg h, if_pos h]

/-- A check that comes to a value, and whose reads are right when `reads` holds, if `passes` holds. Otherwise it is
refused, and its reads are right. -/
structure Checked (x : Traced ℕ Bool) (s : ℕ) (passes : Prop) (value : Bool) (reads : Prop) : Prop where
  passed : passes → x.value = value ∧ (x.Only (· < s) ↔ reads)
  refused : ¬passes → x.value = false ∧ x.Only (· < s)

/-- **One more check** before others. -/
theorem Checked.bind {α : Type} {rest : Traced ℕ Bool} {passes passes' reads : Prop} {value : Bool}
    (h : Checked rest s passes value reads) (x : Traced ℕ α) (refuse : α → Prop) [DecidablePred refuse]
    (hx : x.Only (· < s)) (hrefuse : refuse x.value ↔ ¬passes') :
    Checked (x.bind fun v => if refuse v then .pure false else rest) s (passes' ∧ passes) value reads := by
  have honly : (x.bind fun v => if refuse v then .pure false else rest).Only (· < s) ↔
      (if refuse x.value then (.pure false : Traced ℕ Bool) else rest).Only (· < s) :=
    Traced.only_bind.trans (and_iff_right hx)
  by_cases hpass : passes'
  · have hnot : ¬refuse x.value := fun hr => hrefuse.mp hr hpass
    rw [if_neg hnot] at honly
    constructor
    · rintro ⟨-, hrest⟩
      rw [Traced.value_bind, if_neg hnot, honly]
      exact h.passed hrest
    · intro hrest
      rw [Traced.value_bind, if_neg hnot, honly]
      exact h.refused fun hp => hrest ⟨hpass, hp⟩
  · have hyes : refuse x.value := hrefuse.mpr hpass
    rw [if_pos hyes] at honly
    refine ⟨fun hp => absurd hp.1 hpass, fun _ => ?_⟩
    rw [Traced.value_bind, if_pos hyes, honly]
    exact ⟨rfl, Traced.only_pure _⟩

/-- **The header**: one that is refused costs no other reads, and one that passes leads to the checksum. -/
theorem validate_spec (info : Info) (image : ℕ → U8) (hs : headerSize ≤ s) :
    Checked (microcodeValidateIntelUpdate info image) s (HeaderPasses info image) (decide (wordSum image = 0))
      (4 * (declaredSize image / 4) ≤ s) := by
  obtain ⟨hbounds, hinBounds⟩ := sizesInBounds_spec image hs
  have hsum : Checked ((readWord image totalSize).bind fun total =>
      (microcodeCalculateChecksum image (if total ≠ 0 then total else 2048)).bind fun checksum =>
        .pure (decide (checksum = 0))) s True (decide (wordSum image = 0)) (4 * (declaredSize image / 4) ≤ s) := by
    refine ⟨fun _ => ?_, fun hno => absurd trivial hno⟩
    rw [Traced.value_bind, Traced.only_bind, and_iff_right (only_field hs (by decide)), value_readWord]
    unfold microcodeCalculateChecksum
    rw [toNat_checksumSize, Traced.value_bind, Traced.only_bind, and_iff_left (Traced.only_pure _), only_checksumWords,
      value_checksumWords]
    exact ⟨rfl, Iff.rfl⟩
  have hsizes := hsum.bind (sizesInBounds image) (fun inBounds => inBounds = false) hbounds Bool.eq_false_iff
  have hflags := hsizes.bind (readWord image processorFlags) (fun flags => flags &&& info.processorFlags = 0)
    (only_field hs (by decide)) not_not.symm
  have hsignature := hflags.bind (readWord image processorSignature)
    (fun signature => signature ≠ info.processorSignature) (only_field hs (by decide)) Iff.rfl
  have hversion := hsignature.bind (readWord image headerVersion) (fun version => version ≠ 1)
    (only_field hs (by decide)) Iff.rfl
  rw [and_true, hinBounds] at hversion
  exact hversion

/-! ## The call -/

theorem load_of_lt (h : size < 48) : microcodeLoadUpdate info (some image) size = .pure (false, info) := if_pos h

/-- Behind the validation only the revision is read. -/
theorem only_load (h : ¬size < 48) : (microcodeLoadUpdate info (some image) size).Only (· < size.toNat) ↔
    (microcodeValidateIntelUpdate info image).Only (· < size.toNat) := by
  have hs : headerSize ≤ size.toNat := BitVec.le_def.mp (BitVec.not_lt.mp h)
  unfold microcodeLoadUpdate
  dsimp only
  rw [if_neg h, Traced.only_bind]
  refine and_iff_left ?_
  split_ifs
  · exact Traced.only_pure _
  · rw [Traced.only_bind]
    refine ⟨only_field hs (by decide), ?_⟩
    split_ifs <;> exact Traced.only_pure _

theorem load_accepts_iff (h : ¬size < 48) : (microcodeLoadUpdate info (some image) size).value.1 = true ↔
    (microcodeValidateIntelUpdate info image).value = true ∧ info.currentRevision < word image updateRevision := by
  unfold microcodeLoadUpdate
  dsimp only
  rw [if_neg h, Traced.value_bind]
  cases (microcodeValidateIntelUpdate info image).value with
  | false => exact iff_of_false Bool.false_ne_true fun hv => Bool.false_ne_true hv.1
  | true =>
      rw [if_neg Bool.true_eq_false_eq_False, Traced.value_bind, value_readWord]
      by_cases hold : word image updateRevision ≤ info.currentRevision
      · rw [if_pos hold]
        exact iff_of_false Bool.false_ne_true fun hv => BitVec.not_lt.mpr hold hv.2
      · rw [if_neg hold]
        exact iff_of_true rfl ⟨rfl, BitVec.not_le.mp hold⟩

theorem sound_iff_of_passes (h : ¬size < 48) (hpasses : HeaderPasses info image) : Sound info image size ↔
    4 * (declaredSize image / 4) ≤ size.toNat ∧
      (Fits image size ∨ wordSum image ≠ 0 ∨ word image updateRevision ≤ info.currentRevision) := by
  have hs : headerSize ≤ size.toNat := BitVec.le_def.mp (BitVec.not_lt.mp h)
  obtain ⟨hvalue, honly⟩ := (validate_spec info image hs).passed hpasses
  constructor
  · rintro ⟨hreads, haccepts⟩
    refine ⟨honly.mp ((only_load h).mp hreads), ?_⟩
    by_contra hnot
    obtain ⟨hfits, hsum, hnew⟩ := by simpa only [not_or, not_not, BitVec.not_le] using hnot
    refine hfits (haccepts ((load_accepts_iff h).mpr ⟨?_, hnew⟩)).1
    rw [hvalue, decide_eq_true hsum]
  · rintro ⟨hwords, hrest⟩
    refine ⟨(only_load h).mpr (honly.mpr hwords), fun hload => ?_⟩
    obtain ⟨hvalid, hnew⟩ := (load_accepts_iff h).mp hload
    have hsum : wordSum image = 0 := of_decide_eq_true (hvalue ▸ hvalid)
    rcases hrest with hfits | hne | hold
    · exact ⟨hfits, hsum, hnew⟩
    · exact absurd hsum hne
    · exact absurd hnew (BitVec.not_lt.mpr hold)

theorem sound_of_refused (h : ¬size < 48) (hrefused : ¬HeaderPasses info image) : Sound info image size := by
  have hs : headerSize ≤ size.toNat := BitVec.le_def.mp (BitVec.not_lt.mp h)
  obtain ⟨hvalue, honly⟩ := (validate_spec info image hs).refused hrefused
  refine ⟨(only_load h).mpr honly, fun hload => ?_⟩
  have hvalid := ((load_accepts_iff h).mp hload).1
  rw [hvalue] at hvalid
  cases hvalid

/-- **When the call is sound**: for an image that is too small or refused at its header; and else when all words of
the declared size are there, and what is not refused for its sum or its revision fits. -/
theorem update_sound_iff (info : Info) (image : ℕ → U8) (size : U32) :
    Sound info image size ↔ Safe info image size := by
  by_cases hsmall : size < 48
  · refine iff_of_true ⟨?_, fun h => ?_⟩ (.inl hsmall)
    · rw [load_of_lt hsmall]
      exact Traced.only_pure _
    · rw [load_of_lt hsmall] at h
      cases h
  · by_cases hpasses : HeaderPasses info image
    · unfold Safe
      rw [sound_iff_of_passes hsmall hpasses, or_iff_right hsmall, or_iff_right (not_not.mpr hpasses)]
    · exact iff_of_true (sound_of_refused hsmall hpasses) (.inr (.inl hpasses))

/-- A CPU with revision 1. -/
def sampleInfo : Info := ⟨1, 0x306C3, 1, false, 0, none, 0⟩

/-- A header of revision 2 that passes, with a checksum and a declared size, and data of 2000 bytes. -/
def sampleHeader (checksum total : List U8) : ℕ → U8 := fun i =>
  ([1, 0, 0, 0, 2, 0, 0, 0, 0, 0, 0, 0, 0xC3, 6, 3, 0] ++ checksum ++
    [0, 0, 0, 0, 1, 0, 0, 0, 0xD0, 7, 0, 0] ++ total : List U8).getD i 0

/-- Two images of 48 bytes. Of the first, which declares no size, 2048 bytes are read. The second, which declares 48
bytes, is accepted, although its data do not fit. -/
theorem not_update_sound : ¬Sound sampleInfo (sampleHeader [0, 0, 0, 0] [0, 0, 0, 0]) 48 ∧
    ¬Sound sampleInfo (sampleHeader [0x39, 0xF1, 0xFC, 0xFF] [48, 0, 0, 0]) 48 := by
  constructor
  · intro hsound
    have hpasses : HeaderPasses sampleInfo (sampleHeader [0, 0, 0, 0] [0, 0, 0, 0]) :=
      ⟨by decide, by decide, by decide, by decide⟩
    have hwords := ((validate_spec _ _ (by decide)).passed hpasses).2.mp ((only_load (by decide)).mp hsound.reads)
    exact absurd hwords (by decide)
  · intro hsound
    have hpasses : HeaderPasses sampleInfo (sampleHeader [0x39, 0xF1, 0xFC, 0xFF] [48, 0, 0, 0]) :=
      ⟨by decide, by decide, by decide, by decide⟩
    have hvalue := ((validate_spec _ _ (s := 48) (by decide)).passed hpasses).1
    have hsum : wordSum (sampleHeader [0x39, 0xF1, 0xFC, 0xFF] [48, 0, 0, 0]) = 0 := by decide +kernel
    have hfits := (hsound.accepts ((load_accepts_iff (by decide)).mpr
      ⟨hvalue.trans (decide_eq_true hsum), by decide⟩)).1
    exact absurd hfits.2 (by decide)

end BloodKernel.Microcode
