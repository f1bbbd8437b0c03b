import BloodKernel.Drivers.Ata
import Mathlib.Order.Interval.Finset.Nat

set_option autoImplicit false

/-!
# The sectors that a command names

`ata_read_sectors` and `ata_write_sectors` of `drivers/ata.c`, up to the command. The number of sectors of the
drive, which `ata_identify` has stored, is not looked at; the address is cut to 28 bits, and the number of
sectors 0 stands for 256.

* `issued`: the registers at the command, for any outcome of the wait before it; `ataReadSectors_issued`,
  `ataWriteSectors_issued`: both calls send their command with these registers.
* `Bus.named`: the sectors that the registers name.
* **`named_iff`**: when these are the requested ones, and sectors of the drive.
-/

namespace BloodKernel.Ata

/-- The registers when the command is sent, or `none` if the call returns 0 before. `wait` is what
`ata_wait_ready` makes of the bus. -/
def issued (wait : Bus → U8 × Bus) (m : Machine) (drive : U8) (lba : U32) (count : U8) : Option Bus :=
  if 4 ≤ drive ∨ m.present drive = false then none
  else
    let r := wait (m.bus (busOf drive))
    if r.1 = 0 then none else some (setParameters r.2 (slotOf drive) lba count)

/-- The sectors that the registers name. -/
def Bus.named (b : Bus) : Finset ℕ := Finset.Ico b.lba (b.lba + b.count)

variable {m : Machine} {drive : U8} {lba : U32} {count : U8} {buf : ℕ → U16} {b : Bus}
  {wait : Bus → U8 × Bus} {sectors : U8 → U32}

/-- A read sends its command with these registers, or returns 0 without one. -/
theorem ataReadSectors_issued (m : Machine) (drive : U8) (lba : U32) (count : U8) :
    match issued ataWaitReady m drive lba count with
    | none => (ataReadSectors m drive lba count).1 = 0
    | some b => ataReadSectors m drive lba count =
        let r := readLoop count.toNat (b.writeCommand readSectors)
        (r.1, r.2.1, m.setBus drive r.2.2) := by
  unfold issued ataReadSectors readFrom
  by_cases hrefused : 4 ≤ drive ∨ m.present drive = false
  · simp only [if_pos hrefused]
  · simp only [if_neg hrefused]
    by_cases hwait : (ataWaitReady (m.bus (busOf drive))).1 = 0
    · simp only [if_pos hwait]
    · simp only [if_neg hwait]

/-- A write sends its command with these registers, or returns 0 without one. -/
theorem ataWriteSectors_issued (m : Machine) (drive : U8) (lba : U32) (count : U8) (buf : ℕ → U16) :
    match issued ataWaitReady m drive lba count with
    | none => (ataWriteSectors m drive lba count buf).1 = 0
    | some b => ataWriteSectors m drive lba count buf =
        let r := writeLoop buf 0 count.toNat (b.writeCommand writeSectors)
        (r.1, m.setBus drive r.2) := by
  unfold issued ataWriteSectors writeTo
  by_cases hrefused : 4 ≤ drive ∨ m.present drive = false
  · simp only [if_pos hrefused]
  · simp only [if_neg hrefused]
    by_cases hwait : (ataWaitReady (m.bus (busOf drive))).1 = 0
    · simp only [if_pos hwait]
    · simp only [if_neg hwait]

/-- The call returns 0 without a command, or the registers select the drive and name the requested sectors,
which the drive has. -/
def Named (wait : Bus → U8 × Bus) (m : Machine) (sectors : U8 → U32) (drive : U8) (lba : U32) (count : U8) : Prop :=
  ∀ b, issued wait m drive lba count = some b →
    b.selected = slotOf drive ∧ b.named = Finset.Ico lba.toNat (lba.toNat + count.toNat) ∧
      ∀ x ∈ b.named, x < (sectors drive).toNat

theorem issued_eq_none_iff (lba : U32) (count : U8) : issued wait m drive lba count = none ↔
    4 ≤ drive ∨ m.present drive = false ∨ (wait (m.bus (busOf drive))).1 = 0 := by
  unfold issued
  by_cases hrefused : 4 ≤ drive ∨ m.present drive = false
  · rw [if_pos hrefused]
    exact iff_of_true rfl (hrefused.imp_right .inl)
  · rw [if_neg hrefused, ← or_assoc, or_iff_right hrefused]
    exact ite_eq_left_iff.trans (by simp)

theorem issued_eq_some (h : issued wait m drive lba count = some b) :
    ∃ b', b = setParameters b' (slotOf drive) lba count := by
  unfold issued at h
  simp only at h
  split_ifs at h
  exact ⟨_, (Option.some_inj.mp h).symm⟩

theorem count_pos (b : Bus) : 0 < b.count := by
  unfold Bus.count
  split_ifs with hzero
  · decide
  · exact Nat.pos_of_ne_zero fun h => hzero (BitVec.eq_of_toNat_eq h)

/-- Intervals that are not empty are equal if they start and end alike. -/
theorem Ico_eq_iff {a a' n n' : ℕ} (hn : 0 < n) :
    Finset.Ico a (a + n) = Finset.Ico a' (a' + n') ↔ a = a' ∧ n = n' := by
  refine ⟨fun h => ?_, fun h => by rw [h.1, h.2]⟩
  have hcard := congrArg Finset.card h
  rw [Nat.card_Ico, Nat.card_Ico, Nat.add_sub_cancel_left, Nat.add_sub_cancel_left] at hcard
  have hleft : a ∈ Finset.Ico a' (a' + n') := h ▸ Finset.left_mem_Ico.mpr (by omega)
  have hleft' : a' ∈ Finset.Ico a (a + n) := h ▸ Finset.left_mem_Ico.mpr (by omega)
  rw [Finset.mem_Ico] at hleft hleft'
  omega

/-- The registers name the requested sectors exactly when the address has 28 bits and there is a sector. -/
theorem named_setParameters_iff (b : Bus) (slot : Bool) (lba : U32) (count : U8) :
    (setParameters b slot lba count).named = Finset.Ico lba.toNat (lba.toNat + count.toNat) ↔
      1 ≤ count.toNat ∧ lba.toNat < 2 ^ 28 := by
  unfold Bus.named
  rw [Ico_eq_iff (count_pos _), lba_setParameters_mod]
  constructor
  · rintro ⟨hlba, hcount⟩
    have hpos := count_pos (setParameters b slot lba count)
    omega
  · rintro ⟨hpos, hlba⟩
    exact ⟨Nat.mod_eq_of_lt hlba, count_setParameters b slot lba hpos⟩

/-- **When the requested sectors are named**: a sector at least, no more than the drive has, at an address of 28
bits, unless the call returns before its command. -/
theorem named_iff (wait : Bus → U8 × Bus) (m : Machine) (sectors : U8 → U32) (drive : U8) (lba : U32) (count : U8) :
    Named wait m sectors drive lba count ↔
      (4 ≤ drive ∨ m.present drive = false ∨ (wait (m.bus (busOf drive))).1 = 0) ∨
        1 ≤ count.toNat ∧ lba.toNat < 2 ^ 28 ∧ lba.toNat + count.toNat ≤ (sectors drive).toNat := by
  rw [← issued_eq_none_iff lba count]
  unfold Named
  cases hissued : issued wait m drive lba count with
  | none => exact iff_of_true (fun b hb => by cases hb) (.inl rfl)
  | some b =>
      obtain ⟨b', rfl⟩ := issued_eq_some hissued
      have hselected := (selected_setParameters b' (slotOf drive) lba count).1
      have hnamed := named_setParameters_iff b' (slotOf drive) lba count
      rw [or_iff_right (by simp)]
      constructor
      · intro h
        obtain ⟨-, heq, hlt⟩ := h _ rfl
        obtain ⟨hpos, hlba⟩ := hnamed.mp heq
        rw [heq] at hlt
        have hlast := hlt (lba.toNat + count.toNat - 1) (Finset.mem_Ico.mpr (by omega))
        exact ⟨hpos, hlba, by omega⟩
      · rintro ⟨hpos, hlba, hle⟩ c hc
        obtain rfl := Option.some_inj.mp hc
        refine ⟨hselected, hnamed.mpr ⟨hpos, hlba⟩, fun x hx => ?_⟩
        rw [hnamed.mpr ⟨hpos, hlba⟩] at hx
        exact (Finset.mem_Ico.mp hx).2.trans_le hle

/-- A request for sector 2^28 of a drive of eight sectors is sent, and names the first one. -/
theorem not_named_alias : ¬Named ataWaitReady smallMachine (fun _ => 8) 0 0x10000000 1 := by
  have hready : ataWaitReady (smallMachine.bus (busOf 0)) = (1, _) :=
    waitReady_eq (d := smallDrive) rfl (Nat.succ_pos _)
  have hissued : issued ataWaitReady smallMachine 0 0x10000000 1 =
      some (setParameters ((smallMachine.bus (busOf 0)).setCurrent smallDrive.ready) (slotOf 0) 0x10000000 1) := by
    unfold issued
    rw [if_neg (by decide), hready]
    exact if_neg one_ne
  intro h
  have hlt := ((named_setParameters_iff _ _ _ _).mp (h _ hissued).2.1).2
  exact absurd hlt (by decide)

end BloodKernel.Ata
