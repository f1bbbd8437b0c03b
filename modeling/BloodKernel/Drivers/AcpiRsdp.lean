import BloodKernel.Drivers.LowMemory

set_option autoImplicit false

/-!
# Finding the RSDP

`acpi_find_rsdp` of `drivers/acpi.c`, on a memory of bytes. The start of the EBDA is 16 times a 16-bit
segment; the driver computes it in 16 bits.

* `isRsdp_iff`: the test of an address, on its bytes.
* **`result_acpiFindRsdp`**: what the search returns, by the areas that it looks at.
* `Finds`: what it should return; `finds_iff`.
* **`finds_iff_segment`**: when it does.
-/

namespace BloodKernel.Acpi

open Lib LowMemory

/-! ## The driver -/

/-- `*(u64*)ACPI_RSDP_SIGNATURE`. -/
def rsdpSignature : BitVec 64 := 0x2052545020445352

/-- `*(u64*)addr`. -/
def load64 (m : Mem) (addr : U32) : BitVec 64 := load32 m (addr + 4) ++ load32 m addr

/-- `acpi_checksum`. -/
def acpiChecksum : Mem → U32 → ℕ → U8 := checksum

/-- The two tests of an address. -/
def IsRsdp (m : Mem) (addr : U32) : Prop := load64 m addr = rsdpSignature ∧ acpiChecksum m addr 20 = 0

instance decidableIsRsdp (m : Mem) : DecidablePred (IsRsdp m) := fun _ =>
  inferInstanceAs (Decidable (_ ∧ _))

/-- `acpi_find_rsdp`; `0` is the null pointer. -/
def acpiFindRsdp (m : Mem) : U32 :=
  match (ebdaParagraphs m).find? (IsRsdp m ·) with
  | some rsdp => rsdp
  | none => ((paragraphs 0xE0000 0x2000).find? (IsRsdp m ·)).getD 0

/-! ## The bytes of an RSDP -/

/-- `"RSD PTR "`. -/
def signature : List U8 := [0x52, 0x53, 0x44, 0x20, 0x50, 0x54, 0x52, 0x20]

/-- An RSDP at an address: the signature, and 20 bytes whose sum is zero. -/
def Rsdp (m : Mem) (a : U32) : Prop := Lies m a signature ∧ (bytesFrom m a 20).sum = 0

variable {m : Mem} {a r : U32} {lo : ℕ}

theorem append_eq_iff {x y z w : U32} : x ++ y = z ++ w ↔ x = z ∧ y = w := by
  constructor
  · intro h
    have hnat := congrArg BitVec.toNat h
    have hy := y.isLt
    have hw := w.isLt
    rw [BitVec.toNat_append, BitVec.toNat_append, ← Nat.shiftLeft_add_eq_or_of_lt hy,
      ← Nat.shiftLeft_add_eq_or_of_lt hw, Nat.shiftLeft_eq, Nat.shiftLeft_eq] at hnat
    exact ⟨BitVec.eq_of_toNat_eq (by omega), BitVec.eq_of_toNat_eq (by omega)⟩
  · rintro ⟨rfl, rfl⟩
    rfl

theorem load32_eq_iff {v : U32} :
    load32 m a = v ↔ Lies m a [leByte v 0, leByte v 1, leByte v 2, leByte v 3] := by
  unfold load32
  rw [leWord_eq_iff]
  constructor
  · intro h
    have h0 := h 0 (by decide)
    have h1 := h 1 (by decide)
    have h2 := h 2 (by decide)
    have h3 := h 3 (by decide)
    rw [show a + BitVec.ofNat 32 0 = a from BitVec.add_zero a] at h0
    refine ⟨h0, h1, ?_, ?_, trivial⟩
    · rw [BitVec.add_assoc]
      exact h2
    · rw [BitVec.add_assoc, BitVec.add_assoc]
      exact h3
  · intro h k hk
    have hget := h.get hk
    rw [hget]
    match k, hk with
    | 0, _ | 1, _ | 2, _ | 3, _ => rfl

theorem load64_eq_iff : load64 m a = rsdpSignature ↔ Lies m a signature := by
  have hsplit : rsdpSignature = (0x20525450 : U32) ++ (0x20445352 : U32) := rfl
  unfold load64
  rw [hsplit, append_eq_iff, load32_eq_iff, load32_eq_iff, and_comm]
  exact lies_append.symm

/-- **The test of an address.** -/
theorem isRsdp_iff : IsRsdp m a ↔ Rsdp m a := by
  unfold IsRsdp Rsdp acpiChecksum checksum
  rw [load64_eq_iff, List.sum_eq_foldl]

/-! ## The search -/

/-- What a search of the KiB from `lo` on, when there is an EBDA, and of the BIOS area returns. -/
def Result (m : Mem) (lo : ℕ) (r : U32) : Prop :=
  segment m ≠ 0 ∧ FirstIn (Rsdp m) lo 1024 r ∨
    (segment m = 0 ∨ NoneIn (Rsdp m) lo 1024) ∧
      (FirstIn (Rsdp m) 0xE0000 0x20000 r ∨ NoneIn (Rsdp m) 0xE0000 0x20000 ∧ r = 0)

theorem isRsdp_eq (m : Mem) : IsRsdp m = Rsdp m := funext fun _ => propext isRsdp_iff

theorem biosArea_cases (m : Mem) :
    FirstIn (Rsdp m) 0xE0000 0x20000 (((paragraphs 0xE0000 0x2000).find? (IsRsdp m ·)).getD 0) ∨
      NoneIn (Rsdp m) 0xE0000 0x20000 ∧
        ((paragraphs 0xE0000 0x2000).find? (IsRsdp m ·)).getD 0 = 0 := by
  rw [← isRsdp_eq]
  cases hfind : (paragraphs 0xE0000 0x2000).find? (IsRsdp m ·) with
  | some r => exact .inl (firstIn_of_find (by decide) (by decide) hfind)
  | none => exact .inr ⟨noneIn_of_find (by decide) (by decide) hfind, rfl⟩

/-- **What the search returns**: the KiB starts where the driver has computed it. -/
theorem result_acpiFindRsdp (m : Mem) : Result m (ebda m).toNat (acpiFindRsdp m) := by
  have hebda := toNat_ebda m
  have haligned : (ebda m).toNat % 16 = 0 := by omega
  have hfits : (ebda m).toNat + 16 * 64 < 2 ^ 32 := by omega
  unfold Result acpiFindRsdp ebdaParagraphs
  by_cases hsegment : segment m = 0
  · rw [if_pos hsegment]
    exact .inr ⟨.inl hsegment, biosArea_cases m⟩
  · rw [if_neg hsegment]
    cases hfind : (paragraphs (ebda m) 64).find? (IsRsdp m ·) with
    | some r => exact .inl ⟨hsegment, isRsdp_eq m ▸ firstIn_of_find haligned hfits hfind⟩
    | none =>
        exact .inr ⟨.inr (isRsdp_eq m ▸ noneIn_of_find haligned hfits hfind), biosArea_cases m⟩

/-! ## What it should return -/

def Searched (m : Mem) (a : U32) : Prop :=
  segment m ≠ 0 ∧ InArea (16 * (segment m).toNat) 1024 a ∨ InArea 0xE0000 0x20000 a

/-- The first of them, in the order of the search, that holds an RSDP. -/
def First (m : Mem) (r : U32) : Prop :=
  segment m ≠ 0 ∧ FirstIn (Rsdp m) (16 * (segment m).toNat) 1024 r ∨
    (segment m = 0 ∨ NoneIn (Rsdp m) (16 * (segment m).toNat) 1024) ∧
      FirstIn (Rsdp m) 0xE0000 0x20000 r

/-- An RSDP is returned if and only if there is one, and then the first one. -/
structure Finds (m : Mem) (r : U32) : Prop where
  ne_zero_iff : r ≠ 0 ↔ ∃ a, Searched m a ∧ Rsdp m a
  first : r ≠ 0 → First m r

theorem segment_pos (h : segment m ≠ 0) : 0 < (segment m).toNat :=
  Nat.pos_of_ne_zero fun hzero => h (BitVec.eq_of_toNat_eq hzero)

theorem Searched.ne_zero (h : Searched m a) : a ≠ 0 := by
  rintro rfl
  have hzero : (0 : U32).toNat = 0 := rfl
  rcases h with ⟨hsegment, harea⟩ | harea
  · have hpos := segment_pos hsegment
    have hle := harea.le
    omega
  · have hle := harea.le
    omega

theorem First.searched (h : First m r) : Searched m r ∧ Rsdp m r := by
  rcases h with ⟨hsegment, h⟩ | ⟨-, h⟩
  · exact ⟨.inl ⟨hsegment, h.inArea⟩, h.holds⟩
  · exact ⟨.inr h.inArea, h.holds⟩

def Nothing (m : Mem) : Prop := ∀ a, Searched m a → ¬Rsdp m a

/-- **What it should return**: the first RSDP, or the null pointer. -/
theorem finds_iff : Finds m r ↔ First m r ∨ Nothing m ∧ r = 0 := by
  constructor
  · intro h
    by_cases hr : r = 0
    · exact .inr ⟨fun a ha hrsdp => h.ne_zero_iff.mpr ⟨a, ha, hrsdp⟩ hr, hr⟩
    · exact .inl (h.first hr)
  · rintro (h | ⟨hnone, rfl⟩)
    · exact ⟨iff_of_true h.searched.1.ne_zero ⟨r, h.searched⟩, fun _ => h⟩
    · exact ⟨iff_of_false (fun h => h rfl) fun ⟨a, ha, hrsdp⟩ => hnone a ha hrsdp,
        fun h => absurd rfl h⟩

theorem not_first_zero : ¬First m 0 := fun h => h.searched.1.ne_zero rfl

theorem nothing_iff (h : segment m ≠ 0) : Nothing m ↔
    NoneIn (Rsdp m) (16 * (segment m).toNat) 1024 ∧ NoneIn (Rsdp m) 0xE0000 0x20000 :=
  ⟨fun hnone => ⟨fun a ha => hnone a (.inl ⟨h, ha⟩), fun a ha => hnone a (.inr ha)⟩,
    fun hnone a ha => ha.elim (fun ha => hnone.1 a ha.2) (hnone.2 a)⟩

theorem Result.finds (h : Result m (16 * (segment m).toNat) r) : Finds m r := by
  refine finds_iff.mpr ?_
  rcases h with h | ⟨hebda, h | ⟨hnone, hr⟩⟩
  · exact .inl (.inl h)
  · exact .inl (.inr ⟨hebda, h⟩)
  · refine .inr ⟨?_, hr⟩
    rintro a (⟨hsegment, ha⟩ | ha)
    · exact hebda.resolve_left hsegment a ha
    · exact hnone a ha

/-! ## When it does -/

/-- What is found in a KiB below 64 KiB lies in neither area, when the EBDA is above. -/
theorem not_first_of_firstIn {lo : ℕ} (hsegment : 0x1000 ≤ (segment m).toNat)
    (hlo : lo = 16 * (segment m).toNat % 2 ^ 16) (h : FirstIn (Rsdp m) lo 1024 r) : ¬First m r := by
  have hle := h.inArea.le
  have hlt := h.inArea.lt
  rintro (⟨-, hfirst⟩ | ⟨-, hfirst⟩)
  · have hle := hfirst.inArea.le
    omega
  · have hle := hfirst.inArea.le
    omega

/-- **When the first RSDP is found.** The KiB that is searched starts at 16 times the segment in 16 bits.
That is the EBDA when the segment is below `0x1000`. Otherwise nothing may be found there, and nothing in the
EBDA either, unless it is what is found in the BIOS area; or it is found at the null pointer, and there is
no RSDP elsewhere. -/
theorem finds_iff_segment (m : Mem) : Finds m (acpiFindRsdp m) ↔
    (segment m).toNat < 0x1000 ∨
    NoneIn (Rsdp m) (16 * (segment m).toNat % 2 ^ 16) 1024 ∧
      (NoneIn (Rsdp m) (16 * (segment m).toNat) 1024 ∨
        ∃ r, FirstIn (Rsdp m) (16 * (segment m).toNat) 1024 r ∧ FirstIn (Rsdp m) 0xE0000 0x20000 r) ∨
    FirstIn (Rsdp m) (16 * (segment m).toNat % 2 ^ 16) 1024 0 ∧
      NoneIn (Rsdp m) (16 * (segment m).toNat) 1024 ∧ NoneIn (Rsdp m) 0xE0000 0x20000 := by
  have hresult := result_acpiFindRsdp m
  rw [toNat_ebda, Nat.mul_comm] at hresult
  by_cases hlow : (segment m).toNat < 0x1000
  · rw [Nat.mod_eq_of_lt (show 16 * (segment m).toNat < 2 ^ 16 by omega)] at hresult
    exact iff_of_true hresult.finds (.inl hlow)
  have hhigh : 0x1000 ≤ (segment m).toNat := Nat.le_of_not_lt hlow
  have hsegment : segment m ≠ 0 := by
    intro hzero
    rw [hzero] at hhigh
    exact absurd hhigh (by decide)
  rw [or_iff_right hlow, finds_iff, nothing_iff hsegment]
  rcases hresult with ⟨-, hfound⟩ | ⟨hnone, hbios⟩
  · -- found in the KiB that is searched instead
    rw [or_iff_right (not_first_of_firstIn hhigh rfl hfound), or_iff_right fun h => hfound.not_noneIn h.1,
      and_comm]
    exact and_congr_left fun _ => ⟨fun hr => hr ▸ hfound, fun hzero => hfound.unique hzero⟩
  · have hnone := hnone.resolve_left hsegment
    rw [or_iff_left (b := _ ∧ _ ∧ _) fun h => h.1.not_noneIn hnone, and_iff_right hnone]
    rcases hbios with hfound | ⟨hbios, hr⟩
    · -- found in the BIOS area
      rw [or_iff_left fun h => hfound.not_noneIn h.1.2]
      constructor
      · rintro (⟨-, hfirst⟩ | ⟨hebda, -⟩)
        · exact .inr ⟨_, hfirst, hfound⟩
        · exact .inl (hebda.resolve_left hsegment)
      · rintro (hebda | ⟨r, hfirst, hr⟩)
        · exact .inr ⟨.inr hebda, hfound⟩
        · exact .inl ⟨hsegment, hr.unique hfound ▸ hfirst⟩
    · -- found nowhere
      rw [hr, or_iff_right not_first_zero, or_iff_left fun ⟨_, _, hr⟩ => hr.not_noneIn hbios]
      exact ⟨fun h => h.1.1, fun h => ⟨⟨h, hbios⟩, rfl⟩⟩

/-- An RSDP at `0x9FC00`, the start of the EBDA of segment `0x9FC0`, and zeros elsewhere. -/
def ebdaMemory : Mem := fun a =>
  if a = 0x40E then 0xC0
  else if a = 0x40F then 0x9F
  else if a.toNat < 0x9FC00 ∨ 0x9FC14 ≤ a.toNat then 0
  else (signature ++ [0x82, 0, 0, 0, 0, 0, 0, 0, 0, 0x50, 0x0F, 0]).getD (a.toNat - 0x9FC00) 0

theorem ebdaMemory_eq_zero (hlow : a.toNat ≠ 0x40E ∧ a.toNat ≠ 0x40F)
    (h : a.toNat < 0x9FC00 ∨ 0x9FC14 ≤ a.toNat) : ebdaMemory a = 0 := by
  have hne : a ≠ 0x40E ∧ a ≠ 0x40F := ⟨fun heq => hlow.1 (heq ▸ rfl), fun heq => hlow.2 (heq ▸ rfl)⟩
  unfold ebdaMemory
  rw [if_neg hne.1, if_neg hne.2, if_pos h]

/-- The KiB from `0xFC00` on is searched instead of the one from `0x9FC00` on: the RSDP is not found. -/
theorem not_finds_ebda :
    acpiFindRsdp ebdaMemory = 0 ∧ Searched ebdaMemory 0x9FC00 ∧ Rsdp ebdaMemory 0x9FC00 ∧
      ¬Finds ebdaMemory (acpiFindRsdp ebdaMemory) := by
  have hrsdp : Rsdp ebdaMemory 0x9FC00 := ⟨by decide, by decide⟩
  have hsearched : Searched ebdaMemory 0x9FC00 := .inl ⟨by decide, by decide, by decide, by decide⟩
  have hblank {a : U32} (h : a.toNat < 0x9FC00 ∨ 0x9FC14 ≤ a.toNat)
      (hlow : a.toNat ≠ 0x40E ∧ a.toNat ≠ 0x40F) : ¬Rsdp ebdaMemory a := by
    intro h'
    have hfirst := h'.1.1
    rw [ebdaMemory_eq_zero hlow h] at hfirst
    exact absurd hfirst (by decide)
  have hzero : acpiFindRsdp ebdaMemory = 0 := by
    have hebda : (ebda ebdaMemory).toNat = 0xFC00 := by decide
    rcases result_acpiFindRsdp ebdaMemory with ⟨-, h⟩ | ⟨-, h | ⟨-, h⟩⟩
    · have hle := h.inArea.le
      have hlt := h.inArea.lt
      exact absurd h.holds (hblank (by omega) (by omega))
    · have hle := h.inArea.le
      exact absurd h.holds (hblank (by omega) (by omega))
    · exact h
  exact ⟨hzero, hsearched, hrsdp, fun h => h.ne_zero_iff.mpr ⟨_, hsearched, hrsdp⟩ hzero⟩

end BloodKernel.Acpi
