import BloodKernel.Kernel.Types
import Mathlib.Order.Monotone.Defs

set_option autoImplicit false

/-!
# Time from the HPET

`drivers/hpet.c` computes the frequency of the counter from its period, and keeps 32 bits of it. Timestamps multiply
the counter in 64 bits, and a delay compares the difference of two readings of the counter, which may have 32 bits.

* `hpetInit`, `hpetGetCounter`, `hpetGetTimestampNs`, `hpetUdelay`: the functions.
* `TimestampsExact`, `KeepsDelay`: what they should do, with the exact frequency; `DelayFits`: when a delay does.
* **`hpet_exact_iff`**: for which capabilities and times they do.
-/

namespace BloodKernel.Hpet

/-! ## The driver -/

/-- The part of `hpet_info` that tells the time. -/
structure Info where
  frequency : U32
  counterSize : U8
  initialized : U8

/-- `hpet_init`, from the capabilities. The division is in 64 bits. -/
def hpetInit (caps : U64) : Info where
  frequency := ((1000000000000000 : U64) / (caps >>> 32)).setWidth 32
  counterSize := if caps &&& 0x2000 = 0 then 32 else 64
  initialized := 1

/-- The main counter, `ticks` after it was zero. -/
def hpetGetCounter (info : Info) (ticks : ℕ) : U64 :=
  if info.initialized = 0 then 0
  else if info.counterSize = 64 then BitVec.ofNat 64 ticks
  else (BitVec.ofNat 32 ticks).setWidth 64

/-- There is no result when it divides by zero. -/
def hpetGetTimestampNs (info : Info) (ticks : ℕ) : Option U64 :=
  if info.initialized = 0 then some 0
  else if info.frequency = 0 then none
  else some (hpetGetCounter info ticks * 1000000000 / info.frequency.setWidth 64)

/-- The number of the reading at which `hpet_udelay` returns, if it is one of the first. The counter is first read
after `start` ticks, and reading `n` is `elapsed n` ticks later. -/
def hpetUdelay (info : Info) (microseconds : U32) (start : ℕ) (elapsed : ℕ → ℕ) (readings : ℕ) : Option ℕ :=
  if info.initialized = 0 then some 0
  else
    let ticksPerUs : U64 := (info.frequency / 1000000).setWidth 64
    let targetTicks := ticksPerUs * microseconds.setWidth 64
    (List.range readings).find? fun n =>
      decide ¬(hpetGetCounter info (start + elapsed n) - hpetGetCounter info start < targetTicks)

/-! ## What it should do -/

/-- The period of the counter in femtoseconds. -/
def period (caps : U64) : ℕ := (caps >>> 32).toNat

def frequency (caps : U64) : ℕ := 1000000000000000 / period caps

def counterBits (caps : U64) : ℕ := if caps &&& 0x2000 = 0 then 32 else 64

/-- The time at which the counter has a value, in nanoseconds. -/
def ExactAt (caps : U64) (ticks : ℕ) : Prop :=
  (hpetGetTimestampNs (hpetInit caps) ticks).map BitVec.toNat = some (1000000000 * ticks / frequency caps)

/-- All timestamps are right, and grow with the counter. -/
structure TimestampsExact (caps : U64) : Prop where
  exact : ∀ ticks < 2 ^ counterBits caps, ExactAt caps ticks
  mono : ∀ ticks ticks' v v', ticks ≤ ticks' → ticks' < 2 ^ counterBits caps →
    hpetGetTimestampNs (hpetInit caps) ticks = some v → hpetGetTimestampNs (hpetInit caps) ticks' = some v' → v ≤ v'

/-- A delay returns only after its ticks, whenever the counter is read. -/
def KeepsDelay (caps : U64) (microseconds : U32) (start : ℕ) : Prop :=
  ∀ elapsed : ℕ → ℕ, Monotone elapsed → ∀ readings n,
    hpetUdelay (hpetInit caps) microseconds start elapsed readings = some n →
      microseconds.toNat * frequency caps ≤ 1000000 * elapsed n

/-- The ticks for which it waits: those of whole microseconds, of the frequency in 32 bits. -/
def targetTicks (caps : U64) (microseconds : U32) : ℕ := frequency caps % 2 ^ 32 / 1000000 * microseconds.toNat

/-- No delay; or one that a counter of 32 bits cannot reach and that begins at zero, so that it never returns; or the
frequency is a whole number of megahertz, and the counter does not go back to zero before. -/
def DelayFits (caps : U64) (microseconds : U32) (start : ℕ) : Prop :=
  microseconds = 0 ∨ (counterBits caps = 32 ∧ start = 0 ∧ 2 ^ 32 ≤ targetTicks caps microseconds) ∨
    (frequency caps < 2 ^ 32 ∧ 1000000 ∣ frequency caps ∧
      (counterBits caps = 64 ∨ start = 0 ∨ start + targetTicks caps microseconds ≤ 2 ^ 32))

/-! ## Timestamps -/

variable {caps : U64} {ticks start : ℕ} {microseconds : U32}

theorem toNat_frequency : (hpetInit caps).frequency.toNat = frequency caps % 2 ^ 32 := by
  have hfemto : (1000000000000000 : U64).toNat = 1000000000000000 := rfl
  unfold hpetInit frequency period
  rw [BitVec.toNat_setWidth, BitVec.toNat_udiv, hfemto]

theorem frequency_bounds (hmin : 1 ≤ period caps) : 0 < frequency caps ∧ frequency caps ≤ 1000000000000000 := by
  have hlt : period caps < 2 ^ 32 := by
    unfold period
    rw [BitVec.toNat_ushiftRight, Nat.shiftRight_eq_div_pow]
    have := caps.isLt
    omega
  exact ⟨Nat.div_pos (by omega) hmin, Nat.div_le_self _ _⟩

theorem counterBits_cases (caps : U64) : counterBits caps = 32 ∧ (hpetInit caps).counterSize ≠ 64 ∨
    counterBits caps = 64 ∧ (hpetInit caps).counterSize = 64 := by
  unfold counterBits hpetInit
  dsimp only
  split_ifs
  · exact .inl ⟨rfl, by decide⟩
  · exact .inr ⟨rfl, rfl⟩

theorem lt_counter (hticks : ticks < 2 ^ 32) : ticks < 2 ^ counterBits caps := by
  rcases counterBits_cases caps with ⟨hbits, -⟩ | ⟨hbits, -⟩ <;> rw [hbits] <;> omega

theorem toNat_counter (ticks : ℕ) : (hpetGetCounter (hpetInit caps) ticks).toNat = ticks % 2 ^ counterBits caps := by
  unfold hpetGetCounter
  rw [if_neg (show (hpetInit caps).initialized ≠ 0 from (by decide : (1 : U8) ≠ 0))]
  rcases counterBits_cases caps with ⟨hbits, hsize⟩ | ⟨hbits, hsize⟩
  · rw [if_neg hsize, hbits, BitVec.toNat_setWidth, BitVec.toNat_ofNat]
    omega
  · rw [if_pos hsize, hbits, BitVec.toNat_ofNat]

theorem timestamp_eq (hticks : ticks < 2 ^ counterBits caps) :
    (hpetGetTimestampNs (hpetInit caps) ticks).map BitVec.toNat =
      if frequency caps % 2 ^ 32 = 0 then none
      else some (1000000000 * ticks % 2 ^ 64 / (frequency caps % 2 ^ 32)) := by
  have hzero : (hpetInit caps).frequency = 0 ↔ frequency caps % 2 ^ 32 = 0 := by
    rw [← toNat_frequency]
    exact BitVec.toNat_inj.symm
  have hnano : (1000000000 : U64).toNat = 1000000000 := rfl
  unfold hpetGetTimestampNs
  rw [if_neg (show (hpetInit caps).initialized ≠ 0 from (by decide : (1 : U8) ≠ 0)), if_congr hzero rfl rfl]
  split_ifs
  · rfl
  · rw [Option.map_some, BitVec.toNat_udiv, BitVec.toNat_mul, toNat_counter, Nat.mod_eq_of_lt hticks, hnano,
      BitVec.toNat_setWidth_of_le (by decide), toNat_frequency, Nat.mul_comm ticks]

theorem div_mod_eq_iff {x m f : ℕ} (hf : 0 < f) (hle : f ≤ m) : x % m / f = x / f ↔ x < m := by
  constructor
  · intro h
    by_contra hge
    have hmod : x % m ≤ x - m := by
      rw [Nat.mod_eq_sub_mod (not_lt.mp hge)]
      exact Nat.mod_le _ _
    have hlt : x % m / f < x / f := by
      refine Nat.lt_of_lt_of_le (Nat.lt_succ_of_le (Nat.div_le_div_right hmod)) ?_
      rw [Nat.succ_eq_add_one, ← Nat.add_div_right _ hf]
      exact Nat.div_le_div_right (by omega)
    exact hlt.ne h
  · intro h
    rw [Nat.mod_eq_of_lt h]

/-- **One timestamp**, with a frequency of 32 bits. -/
theorem exactAt_iff (hmin : 1 ≤ period caps) (hfreq : frequency caps < 2 ^ 32) (hticks : ticks < 2 ^ counterBits caps) :
    ExactAt caps ticks ↔ 1000000000 * ticks < 2 ^ 64 := by
  have hpos := (frequency_bounds hmin).1
  unfold ExactAt
  rw [timestamp_eq hticks, Nat.mod_eq_of_lt hfreq, if_neg hpos.ne', Option.some_inj]
  exact div_mod_eq_iff hpos (by omega)

theorem not_exactAt_five (hmin : 1 ≤ period caps) (hfreq : 2 ^ 32 ≤ frequency caps) : ¬ExactAt caps 5 := by
  have hmax := (frequency_bounds hmin).2
  unfold ExactAt
  rw [timestamp_eq (lt_counter (by decide))]
  split_ifs with hzero
  · exact not_false
  · intro h
    have hquot : 1000000000 * 5 % 2 ^ 64 / (frequency caps % 2 ^ 32) = 1000000000 * 5 / frequency caps :=
      Option.some_inj.mp h
    rw [show 1000000000 * 5 % 2 ^ 64 = 5000000000 from rfl, show 1000000000 * 5 = 5000000000 from rfl] at hquot
    rcases Nat.lt_or_ge 5000000000 (frequency caps) with hhigh | hlow
    · -- less than a nanosecond a tick
      have hone : 1 ≤ 5000000000 / (frequency caps % 2 ^ 32) := Nat.div_pos (by omega) (Nat.pos_of_ne_zero hzero)
      rw [hquot, Nat.div_eq_of_lt hhigh] at hone
      omega
    · have hseven : 7 ≤ 5000000000 / (frequency caps % 2 ^ 32) :=
        (Nat.le_div_iff_mul_le (Nat.pos_of_ne_zero hzero)).mpr (by omega)
      have hone : 5000000000 / frequency caps < 2 := (Nat.div_lt_iff_lt_mul (by omega)).mpr (by omega)
      omega

/-- **All timestamps.** -/
theorem timestampsExact_iff (hmin : 1 ≤ period caps) :
    TimestampsExact caps ↔ counterBits caps = 32 ∧ frequency caps < 2 ^ 32 := by
  constructor
  · intro h
    have hfreq : frequency caps < 2 ^ 32 := by
      by_contra hge
      exact not_exactAt_five hmin (not_lt.mp hge) (h.exact 5 (lt_counter (by decide)))
    refine ⟨?_, hfreq⟩
    rcases counterBits_cases caps with ⟨hbits, -⟩ | ⟨hbits, -⟩
    · exact hbits
    · have hticks : 2 ^ 35 < 2 ^ counterBits caps := by rw [hbits]; decide
      have hlt := (exactAt_iff hmin hfreq hticks).mp (h.exact _ hticks)
      omega
  · rintro ⟨hbits, hfreq⟩
    have hexact : ∀ ticks < 2 ^ counterBits caps, ExactAt caps ticks := by
      intro ticks hticks
      refine (exactAt_iff hmin hfreq hticks).mpr ?_
      rw [hbits] at hticks
      omega
    refine ⟨hexact, fun ticks ticks' v v' hle hlt hv hv' => ?_⟩
    have hfirst := hexact ticks (hle.trans_lt hlt)
    have hsecond := hexact ticks' hlt
    unfold ExactAt at hfirst hsecond
    rw [hv, Option.map_some, Option.some_inj] at hfirst
    rw [hv', Option.map_some, Option.some_inj] at hsecond
    rw [BitVec.le_def, hfirst, hsecond]
    exact Nat.div_le_div_right (Nat.mul_le_mul_left _ hle)

/-! ## Delays -/

/-- The ticks that a reading sees. -/
def passed (caps : U64) (start e : ℕ) : ℕ :=
  (hpetGetCounter (hpetInit caps) (start + e) - hpetGetCounter (hpetInit caps) start).toNat

theorem targetTicks_le (caps : U64) (microseconds : U32) : targetTicks caps microseconds ≤ 4294 * microseconds.toNat :=
  Nat.mul_le_mul_right _ (by omega)

theorem udelay_returns_iff (n : ℕ) (elapsed : ℕ → ℕ) :
    ¬(hpetGetCounter (hpetInit caps) (start + elapsed n) - hpetGetCounter (hpetInit caps) start <
      ((hpetInit caps).frequency / 1000000).setWidth 64 * microseconds.setWidth 64) ↔
    targetTicks caps microseconds ≤ passed caps start (elapsed n) := by
  have hmega : (1000000 : U32).toNat = 1000000 := rfl
  have hle := targetTicks_le caps microseconds
  have hus := microseconds.isLt
  unfold targetTicks at hle ⊢
  rw [BitVec.not_lt, BitVec.le_def, BitVec.toNat_mul, BitVec.toNat_setWidth_of_le (by decide),
    BitVec.toNat_setWidth_of_le (by decide), BitVec.toNat_udiv, toNat_frequency, hmega,
    Nat.mod_eq_of_lt (by omega)]
  rfl

/-- A delay is kept when every reading that sees enough comes late enough. -/
theorem keepsDelay_iff : KeepsDelay caps microseconds start ↔
    ∀ e, targetTicks caps microseconds ≤ passed caps start e →
      microseconds.toNat * frequency caps ≤ 1000000 * e := by
  have hinit : (hpetInit caps).initialized ≠ 0 := (by decide : (1 : U8) ≠ 0)
  unfold KeepsDelay hpetUdelay
  simp only [if_neg hinit, udelay_returns_iff]
  constructor
  · intro h e hreturns
    refine h (fun _ => e) (fun _ _ _ => Nat.le_refl e) 1 0 ?_
    simp [hreturns]
  · intro h elapsed _ readings n hn
    have hreturns := List.find?_some hn
    exact h _ (of_decide_eq_true hreturns)

/-- The target is not too large, and large enough for a frequency of whole megahertz. -/
theorem target_enough_iff : microseconds.toNat * frequency caps ≤ 1000000 * targetTicks caps microseconds ↔
    microseconds = 0 ∨ (frequency caps < 2 ^ 32 ∧ 1000000 ∣ frequency caps) := by
  have hzero : microseconds = 0 ↔ microseconds.toNat = 0 := BitVec.toNat_inj.symm
  have hswap : 1000000 * targetTicks caps microseconds =
      microseconds.toNat * (1000000 * (frequency caps % 2 ^ 32 / 1000000)) := by
    unfold targetTicks
    rw [Nat.mul_comm _ microseconds.toNat, Nat.mul_left_comm]
  rw [hswap, hzero]
  rcases Nat.eq_zero_or_pos microseconds.toNat with h | h
  · exact iff_of_true (by rw [h, Nat.zero_mul]; exact Nat.zero_le _) (.inl h)
  · rw [Nat.mul_le_mul_left_iff h, or_iff_right h.ne']
    omega

theorem target_le (caps : U64) (microseconds : U32) :
    1000000 * targetTicks caps microseconds ≤ microseconds.toNat * frequency caps := by
  have hquot : 1000000 * (frequency caps % 2 ^ 32 / 1000000) ≤ frequency caps := by omega
  unfold targetTicks
  rw [Nat.mul_comm _ microseconds.toNat, Nat.mul_left_comm]
  exact Nat.mul_le_mul_left _ hquot

theorem passed_eq (hstart : start < 2 ^ counterBits caps) (e : ℕ) :
    passed caps start e = (2 ^ 64 - start + (start + e) % 2 ^ counterBits caps) % 2 ^ 64 := by
  unfold passed
  rw [BitVec.toNat_sub, toNat_counter, toNat_counter, Nat.mod_eq_of_lt hstart]

/-- **With 64 bits**, the difference of two readings is what has passed. -/
theorem keepsDelay_wide_iff (hbits : counterBits caps = 64) (hstart : start < 2 ^ 64) :
    KeepsDelay caps microseconds start ↔
      microseconds.toNat * frequency caps ≤ 1000000 * targetTicks caps microseconds := by
  have hle := targetTicks_le caps microseconds
  have hus := microseconds.isLt
  have hpassed (e : ℕ) : passed caps start e = e % 2 ^ 64 := by
    rw [passed_eq (hbits.symm ▸ hstart), hbits]
    omega
  rw [keepsDelay_iff]
  constructor
  · intro h
    refine h _ (le_of_eq ?_)
    rw [hpassed, Nat.mod_eq_of_lt (by omega)]
  · intro henough e hreturns
    rw [hpassed] at hreturns
    omega

/-- **With 32 bits**, from zero on, the loop sees what has passed until the counter goes back to zero. -/
theorem keepsDelay_zero_iff (hbits : counterBits caps = 32) : KeepsDelay caps microseconds 0 ↔
    2 ^ 32 ≤ targetTicks caps microseconds ∨
      microseconds.toNat * frequency caps ≤ 1000000 * targetTicks caps microseconds := by
  have hpassed (e : ℕ) : passed caps 0 e = e % 2 ^ 32 := by
    rw [passed_eq (Nat.two_pow_pos _), hbits]
    omega
  rw [keepsDelay_iff]
  constructor
  · intro h
    by_cases hlt : targetTicks caps microseconds < 2 ^ 32
    · refine .inr (h _ (le_of_eq ?_))
      rw [hpassed, Nat.mod_eq_of_lt hlt]
    · exact .inl (not_lt.mp hlt)
  · rintro henough e hreturns
    rw [hpassed] at hreturns
    omega

/-- **With 32 bits**, from another value on, the loop returns at the latest when the counter goes back to zero. -/
theorem keepsDelay_narrow_iff (hbits : counterBits caps = 32) (hstart : start < 2 ^ 32) (hpos : 0 < start)
    (hus : 0 < microseconds.toNat) : KeepsDelay caps microseconds start ↔
      start + targetTicks caps microseconds ≤ 2 ^ 32 ∧
        microseconds.toNat * frequency caps ≤ 1000000 * targetTicks caps microseconds := by
  have hle := targetTicks_le caps microseconds
  have hlt := microseconds.isLt
  have htarget := target_le caps microseconds
  have hpassed := passed_eq (hbits.symm ▸ hstart : start < 2 ^ counterBits caps)
  rw [hbits] at hpassed
  rw [keepsDelay_iff]
  constructor
  · intro h
    by_cases hwrap : start + targetTicks caps microseconds ≤ 2 ^ 32
    · refine ⟨hwrap, h _ ?_⟩
      rw [hpassed]
      omega
    · have hearly := h (2 ^ 32 - start) (by rw [hpassed]; omega)
      omega
  · rintro ⟨hwrap, henough⟩ e hreturns
    have hlate : targetTicks caps microseconds ≤ e := by
      by_contra hsmall
      rw [hpassed] at hreturns
      omega
    omega

theorem delayFits_wide (hbits : counterBits caps = 64) : DelayFits caps microseconds start ↔
    microseconds = 0 ∨ (frequency caps < 2 ^ 32 ∧ 1000000 ∣ frequency caps) := by
  simp [DelayFits, hbits]

theorem delayFits_zero (hbits : counterBits caps = 32) : DelayFits caps microseconds 0 ↔
    microseconds = 0 ∨ 2 ^ 32 ≤ targetTicks caps microseconds ∨
      (frequency caps < 2 ^ 32 ∧ 1000000 ∣ frequency caps) := by
  simp [DelayFits, hbits]

theorem delayFits_narrow (hbits : counterBits caps = 32) (hpos : 0 < start) (hus : microseconds ≠ 0) :
    DelayFits caps microseconds start ↔
      frequency caps < 2 ^ 32 ∧ 1000000 ∣ frequency caps ∧ start + targetTicks caps microseconds ≤ 2 ^ 32 := by
  rw [DelayFits, or_iff_right hus]
  simp [hbits, hpos.ne']

/-- **A delay.** -/
theorem keepsDelay_iff_fits (hstart : start < 2 ^ counterBits caps) :
    KeepsDelay caps microseconds start ↔ DelayFits caps microseconds start := by
  have hzero : microseconds = 0 ↔ microseconds.toNat = 0 := BitVec.toNat_inj.symm
  rcases counterBits_cases caps with ⟨hbits, -⟩ | ⟨hbits, -⟩
  · rw [hbits] at hstart
    rcases Nat.eq_zero_or_pos start with rfl | hpos
    · rw [keepsDelay_zero_iff hbits, target_enough_iff, delayFits_zero hbits]
      exact or_left_comm
    · by_cases hus : microseconds = 0
      · refine iff_of_true (keepsDelay_iff.mpr fun e _ => ?_) (.inl hus)
        rw [hzero.mp hus, Nat.zero_mul]
        exact Nat.zero_le _
      · rw [keepsDelay_narrow_iff hbits hstart hpos (Nat.pos_of_ne_zero (mt hzero.mpr hus)), target_enough_iff,
          or_iff_right hus, delayFits_narrow hbits hpos hus, and_comm, and_assoc]
  · rw [hbits] at hstart
    rw [keepsDelay_wide_iff hbits hstart, target_enough_iff, delayFits_wide hbits]

/-! ## All capabilities -/

/-- **When the times are right.** All timestamps of a counter are exactly when it has 32 bits and its frequency fits
in 32 bits; one of them, with such a frequency, when the product does not overflow. A delay is kept, however often the
counter is read, exactly when it fits. -/
theorem hpet_exact_iff (caps : U64) (hmin : 1 ≤ period caps) :
    (TimestampsExact caps ↔ counterBits caps = 32 ∧ frequency caps < 2 ^ 32) ∧
    (frequency caps < 2 ^ 32 → ∀ ticks < 2 ^ counterBits caps, (ExactAt caps ticks ↔ 1000000000 * ticks < 2 ^ 64)) ∧
    ∀ (microseconds : U32) (start : ℕ), start < 2 ^ counterBits caps →
      (KeepsDelay caps microseconds start ↔ DelayFits caps microseconds start) :=
  ⟨timestampsExact_iff hmin, fun hfreq _ hticks => exactAt_iff hmin hfreq hticks,
    fun _ _ hstart => keepsDelay_iff_fits hstart⟩

/-- A counter of 32 bits with 10 MHz: its timestamps, and a delay of 100 microseconds that begins at zero. -/
theorem hpet_exact_iff_ten : TimestampsExact 0x05F5E10000000000 ∧ KeepsDelay 0x05F5E10000000000 100 0 := by
  obtain ⟨hexact, -, hdelay⟩ := hpet_exact_iff 0x05F5E10000000000 (by decide)
  exact ⟨hexact.mpr ⟨by decide, by decide⟩, (hdelay 100 0 (by decide)).mpr
    (.inr (.inr ⟨by decide, by decide, .inr (.inl rfl)⟩))⟩

/-- A counter of 64 bits with the usual 14.318179 MHz: a timestamp after 25 minutes, and any delay. And one of 32 bits
with 10 MHz, of which a delay begins just before it goes back to zero. -/
theorem not_hpet_exact :
    ¬ExactAt 0x0429B17F00002000 22000000000 ∧ ¬KeepsDelay 0x0429B17F00002000 1 0 ∧
      ¬KeepsDelay 0x05F5E10000000000 1 4294967295 := by
  have hfreq : frequency 0x0429B17F00002000 = 14318179 := by decide
  have hbits : counterBits 0x0429B17F00002000 = 64 := by decide
  have hbits' : counterBits 0x05F5E10000000000 = 32 := by decide
  refine ⟨fun h => ?_, fun h => ?_, fun h => ?_⟩
  · have hlt := (exactAt_iff (by decide) (by rw [hfreq]; decide) (by rw [hbits]; decide)).mp h
    exact absurd hlt (by decide)
  · have henough := target_enough_iff.mp ((keepsDelay_wide_iff hbits (by decide)).mp h)
    rw [hfreq] at henough
    exact absurd henough (by decide)
  · have hfits := ((keepsDelay_narrow_iff hbits' (by decide) (by decide) (by decide)).mp h).1
    exact absurd hfits (by decide)

end BloodKernel.Hpet
