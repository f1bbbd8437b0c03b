import BloodKernel.Kernel.Types
import BloodKernel.Lib.Lies
import BloodKernel.Lib.Region

set_option autoImplicit false

/-!
# Scanning low memory

What `smbios_find_entry_point` and `acpi_find_rsdp` have in common: the addresses that they look at, 16 bytes
apart, and the sum of the bytes of what they find.

* `ebda`: the start of the EBDA as the drivers compute it, in 16 bits; `toNat_ebda`.
* `mem_paragraphs`: the addresses of a scan.
* `FirstIn`, `NoneIn`: the first address of an area with a property, and that there is none.
* **`firstIn_of_find`**, `noneIn_of_find`: what a scan finds.
-/

namespace BloodKernel.LowMemory

open Lib

/-- The `n` addresses of `for (addr = start; addr < start + 16 * n; addr += 16)`. -/
def paragraphs (start : U32) (n : ℕ) : List U32 :=
  (List.range n).map fun i => start + BitVec.ofNat 32 (16 * i)

/-- `*(u16*)0x40E`. -/
def segment (m : Mem) : U16 := load16 m 0x40E

/-- `u16 ebda`, after `ebda <<= 4`. -/
def ebda (m : Mem) : U32 := (segment m <<< 4).setWidth 32

/-- The addresses between `ebda` and `ebda + 1024`, when the segment is not zero. -/
def ebdaParagraphs (m : Mem) : List U32 := if segment m = 0 then [] else paragraphs (ebda m) 64

/-- `acpi_checksum` and `smbios_checksum`. -/
def checksum (m : Mem) (ptr : U32) (length : ℕ) : U8 := (bytesFrom m ptr length).foldl (· + ·) 0

theorem toNat_ebda (m : Mem) : (ebda m).toNat = (segment m).toNat * 16 % 2 ^ 16 := by
  have hlt : (segment m).toNat * 16 % 2 ^ 16 < 2 ^ 16 := Nat.mod_lt _ (Nat.two_pow_pos 16)
  rw [ebda, BitVec.toNat_setWidth, BitVec.toNat_shiftLeft, Nat.shiftLeft_eq]
  exact Nat.mod_eq_of_lt (hlt.trans (by decide))

theorem mem_paragraphs {start a : U32} {n : ℕ} :
    a ∈ paragraphs start n ↔ ∃ i < n, a = start + BitVec.ofNat 32 (16 * i) := by
  unfold paragraphs
  rw [List.mem_map]
  constructor
  · rintro ⟨i, hi, rfl⟩
    exact ⟨i, List.mem_range.mp hi, rfl⟩
  · rintro ⟨i, hi, rfl⟩
    exact ⟨i, List.mem_range.mpr hi, rfl⟩

theorem paragraphs_succ (start : U32) (n : ℕ) :
    paragraphs start (n + 1) = start :: paragraphs (start + 16) n := by
  unfold paragraphs
  rw [List.range_succ_eq_map, List.map_cons, List.map_map]
  refine congrArg₂ List.cons (BitVec.add_zero start) (List.map_congr_left fun i _ => ?_)
  show start + BitVec.ofNat 32 (16 * (i + 1)) = start + 16 + BitVec.ofNat 32 (16 * i)
  rw [Nat.mul_succ, Nat.add_comm (16 * i), BitVec.ofNat_add, BitVec.add_assoc]
  rfl

/-! ## The first address of an area -/

/-- The addresses from `lo` on, below `lo + size`, at multiples of 16. -/
structure InArea (lo size : ℕ) (a : U32) : Prop where
  aligned : a.toNat % 16 = 0
  le : lo ≤ a.toNat
  lt : a.toNat < lo + size

/-- The first address of an area with a property. -/
structure FirstIn (P : U32 → Prop) (lo size : ℕ) (r : U32) : Prop where
  inArea : InArea lo size r
  holds : P r
  le_of : ∀ a, InArea lo size a → P a → r.toNat ≤ a.toNat

/-- No address of an area has the property. -/
def NoneIn (P : U32 → Prop) (lo size : ℕ) : Prop := ∀ a, InArea lo size a → ¬P a

section Find

variable {P : U32 → Prop} {lo size n : ℕ} {start r r' : U32}

theorem FirstIn.unique (h : FirstIn P lo size r) (h' : FirstIn P lo size r') : r = r' :=
  BitVec.eq_of_toNat_eq
    (Nat.le_antisymm (h.le_of r' h'.inArea h'.holds) (h'.le_of r h.inArea h.holds))

theorem FirstIn.not_noneIn (h : FirstIn P lo size r) : ¬NoneIn P lo size :=
  fun hnone => hnone r h.inArea h.holds

theorem inArea_succ {a : U32} (haligned : start.toNat % 16 = 0)
    (hfits : start.toNat + 16 * (n + 1) < 2 ^ 32) :
    InArea start.toNat (16 * (n + 1)) a ↔ a = start ∨ InArea (start + 16).toNat (16 * n) a := by
  have hnext : (start + 16).toNat = start.toNat + 16 := toNat_address (k := 16) (by omega)
  rw [hnext]
  constructor
  · rintro ⟨ha, hle, hlt⟩
    by_cases heq : a = start
    · exact .inl heq
    · have hne : a.toNat ≠ start.toNat := fun h => heq (BitVec.eq_of_toNat_eq h)
      exact .inr ⟨ha, by omega, by omega⟩
  · rintro (rfl | ⟨ha, hle, hlt⟩)
    · exact ⟨haligned, Nat.le_refl _, by omega⟩
    · exact ⟨ha, by omega, by omega⟩

variable [DecidablePred P]

/-- **A scan that finds something** finds the first one. -/
theorem firstIn_of_find (haligned : start.toNat % 16 = 0) (hfits : start.toNat + 16 * n < 2 ^ 32)
    (h : (paragraphs start n).find? (P ·) = some r) : FirstIn P start.toNat (16 * n) r := by
  induction n generalizing start with
  | zero => cases h
  | succ n ih =>
      have hnext : (start + 16).toNat = start.toNat + 16 := toNat_address (k := 16) (by omega)
      rw [paragraphs_succ, List.find?_cons] at h
      by_cases hstart : P start
      · rw [decide_eq_true hstart] at h
        cases h
        exact ⟨(inArea_succ haligned hfits).mpr (.inl rfl), hstart, fun a ha _ => ha.le⟩
      · rw [decide_eq_false hstart] at h
        obtain ⟨hin, hr, hle⟩ := ih (by omega) (by omega) h
        refine ⟨(inArea_succ haligned hfits).mpr (.inr hin), hr, fun a ha hP => ?_⟩
        rcases (inArea_succ haligned hfits).mp ha with rfl | ha
        · exact absurd hP hstart
        · exact hle a ha hP

theorem noneIn_of_find (haligned : start.toNat % 16 = 0) (hfits : start.toNat + 16 * n < 2 ^ 32)
    (h : (paragraphs start n).find? (P ·) = none) : NoneIn P start.toNat (16 * n) := by
  induction n generalizing start with
  | zero =>
      rintro a ⟨-, hle, hlt⟩
      omega
  | succ n ih =>
      have hnext : (start + 16).toNat = start.toNat + 16 := toNat_address (k := 16) (by omega)
      rw [paragraphs_succ, List.find?_eq_none, List.forall_mem_cons, ← List.find?_eq_none] at h
      intro a ha
      rcases (inArea_succ haligned hfits).mp ha with rfl | ha
      · exact fun hP => h.1 (decide_eq_true hP)
      · exact ih (by omega) (by omega) h.2 a ha

end Find

end BloodKernel.LowMemory
