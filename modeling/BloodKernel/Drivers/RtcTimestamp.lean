import BloodKernel.Drivers.Rtc
import BloodKernel.Lib.Calendar
import Mathlib.Data.BitVec
import Mathlib.Tactic.IntervalCases

set_option autoImplicit false

/-!
# The timestamp of the real-time clock

`rtc_get_timestamp` of `drivers/rtc.c`: it counts days year by year and month by month, and seconds in 32
bits.

* `timestamp`: the count, for a time that has been read.
* `timestamp_eq`: up to the limit of 32 bits it is the difference of the seconds of the calendar.
* **`timestamp_counts`**: from the first second of 1970 to the last one that 32 bits can count, it is the
  number of seconds that have passed, and it grows with the time.
-/

namespace BloodKernel.Rtc

open Lib

/-! ## The driver -/

/-- `(y % 4 == 0 && y % 100 != 0) || (y % 400 == 0)`. -/
def leapYear (y : ℕ) : Bool := (y % 4 == 0 && y % 100 != 0) || y % 400 == 0

def daysInMonth : List ℕ := [31, 28, 31, 30, 31, 30, 31, 31, 30, 31, 30, 31]

/-- The seconds since 1970, of a time that has been read. -/
def timestamp (time : Time) : U32 :=
  let year := time.year.toNat
  let month := time.month.toNat
  let days : U32 := (List.range' 1970 (year - 1970)).foldl
    (fun days y => days + BitVec.ofNat 32 (if leapYear y then 366 else 365)) 0
  let days := if leapYear year ∧ 2 < month then days + 1 else days
  let days := (List.range' 1 (month - 1)).foldl
    (fun days m => days + BitVec.ofNat 32 (daysInMonth.getD (m - 1) 0)) days
  let days := days + (time.day.setWidth 32 - 1)
  days * 86400 + time.hour.setWidth 32 * 3600 + time.minute.setWidth 32 * 60 + time.second.setWidth 32

def rtcGetTimestamp (rtcBinaryMode : Bool) (m : Cmos) : Option U32 :=
  (rtcReadTime rtcBinaryMode m).map timestamp

/-! ## Days -/

theorem leapYear_iff {y : ℕ} : leapYear y = true ↔ Leap y := by
  unfold leapYear Leap
  simp

theorem foldl_add_ofNat (f : ℕ → ℕ) (l : List ℕ) (a : ℕ) :
    l.foldl (fun (days : U32) i => days + BitVec.ofNat 32 (f i)) (BitVec.ofNat 32 a) =
      BitVec.ofNat 32 (a + (l.map f).sum) := by
  induction l generalizing a with
  | nil => rfl
  | cons i l ih => rw [List.foldl_cons, ← BitVec.ofNat_add, ih, List.map_cons, List.sum_cons, Nat.add_assoc]

theorem sum_years (a k : ℕ) :
    yearStart a + ((List.range' a k).map fun y => if leapYear y then 366 else 365).sum =
      yearStart (a + k) := by
  induction k with
  | zero => rfl
  | succ k ih =>
      have hlength : (if leapYear (a + k) then 366 else 365) = yearLength (a + k) := by
        unfold yearLength
        simp only [leapYear_iff]
      rw [List.range'_concat, List.map_append, List.sum_append, ← Nat.add_assoc, ih, Nat.one_mul]
      show yearStart (a + k) + ((if leapYear (a + k) then 366 else 365) + 0) = _
      rw [hlength]
      rfl

theorem monthLength_eq (y : ℕ) {k : ℕ} (hk : k < 12) :
    monthLength y (k + 1) = daysInMonth.getD k 0 + if leapYear y ∧ k + 1 = 2 then 1 else 0 := by
  simp only [leapYear_iff]
  by_cases h : Leap y <;> interval_cases k <;> simp [monthLength, daysInMonth, h]

theorem sum_months (y : ℕ) {k : ℕ} (hk : k < 12) :
    (if leapYear y ∧ 2 ≤ k then 1 else 0) +
      ((List.range' 1 k).map fun m => daysInMonth.getD (m - 1) 0).sum = monthsLength y k := by
  induction k with
  | zero => simp [monthsLength]
  | succ k ih =>
      have hmonth := monthLength_eq y (k := k) (by omega)
      have hsum := ih (by omega)
      rw [List.range'_concat, List.map_append, List.sum_append, monthsLength, ← hsum, hmonth]
      simp only [List.map_cons, List.map_nil, List.sum_cons, List.sum_nil, Nat.one_mul,
        Nat.add_sub_cancel_left]
      by_cases hleap : leapYear y
      · simp only [hleap, true_and]
        split_ifs <;> omega
      · simp only [hleap, false_and, if_false, Bool.false_eq_true]
        omega

/-! ## The timestamp -/

/-- The moment of a time that has been read. -/
def Time.moment (t : Time) : Moment where
  year := t.year.toNat
  month := t.month.toNat
  day := t.day.toNat
  hour := t.hour.toNat
  minute := t.minute.toNat
  second := t.second.toNat

def epoch : Moment where
  year := 1970
  month := 1
  day := 1
  hour := 0
  minute := 0
  second := 0

/-- 2106-02-07 06:28:15, the last second that 32 bits can count. -/
def limit : Moment where
  year := 2106
  month := 2
  day := 7
  hour := 6
  minute := 28
  second := 15

/-- A moment of the calendar, from the epoch to the limit. -/
structure Counted (x : Moment) : Prop where
  valid : x.Valid
  epoch_le : ¬x.Before epoch
  le_limit : ¬limit.Before x

theorem valid_epoch : epoch.Valid :=
  ⟨⟨by decide, by decide⟩, by decide, by decide, by decide⟩

theorem valid_limit : limit.Valid :=
  ⟨⟨by decide, by decide⟩, by decide, by decide, by decide⟩

theorem seconds_mk (y m d h mi s : ℕ) :
    Moment.seconds ⟨⟨y, m, d⟩, h, mi, s⟩ =
      (yearStart y + monthsLength y (m - 1) + (d - 1)) * 86400 + h * 3600 + mi * 60 + s := rfl

theorem seconds_epoch : epoch.seconds = yearStart 1970 * 86400 := by
  have hjanuary : monthsLength 1970 (1 - 1) = 0 := rfl
  rw [epoch, seconds_mk, hjanuary]
  generalize yearStart 1970 = first
  omega

theorem seconds_limit : limit.seconds = epoch.seconds + (2 ^ 32 - 1) := by
  have hfirst := yearStart_eq 1970
  have hlast := yearStart_eq 2106
  have hjanuary : monthsLength 2106 (2 - 1) = 31 := by decide
  rw [seconds_epoch, limit, seconds_mk, hjanuary]
  generalize yearStart 1970 = first at hfirst ⊢
  generalize yearStart 2106 = last at hlast ⊢
  omega

theorem Counted.seconds_mem {x : Moment} (h : Counted x) :
    epoch.seconds ≤ x.seconds ∧ x.seconds < epoch.seconds + 2 ^ 32 := by
  have hlo := mt (seconds_lt_iff h.valid valid_epoch).mp h.epoch_le
  have hhi := mt (seconds_lt_iff valid_limit h.valid).mp h.le_limit
  rw [seconds_limit] at hhi
  omega

theorem ite_add_one {c d : Prop} [Decidable c] [Decidable d] (h : c ↔ d) (a : ℕ) :
    (if c then BitVec.ofNat 32 a + 1 else BitVec.ofNat 32 a) =
      BitVec.ofNat 32 (a + if d then 1 else 0) := by
  by_cases hd : d
  · rw [if_pos (h.mpr hd), if_pos hd, BitVec.ofNat_add]
    rfl
  · rw [if_neg (mt h.mp hd), if_neg hd, Nat.add_zero]

theorem setWidth_sub_one {v : U8} (h : 1 ≤ v.toNat) :
    (v.setWidth 32 - 1 : U32) = BitVec.ofNat 32 (v.toNat - 1) := by
  have hone : (1 : U32).toNat = 1 := rfl
  have hv := v.isLt
  refine BitVec.eq_of_toNat_eq ?_
  rw [BitVec.toNat_sub, BitVec.toNat_setWidth, BitVec.toNat_ofNat, hone]
  omega

/-- **The count.** For a valid time it is the difference of the seconds, in 32 bits. -/
theorem timestamp_eq {t : Time} (h : t.moment.Valid) (hyear : 1970 ≤ t.year.toNat) :
    timestamp t = BitVec.ofNat 32 (t.moment.seconds - epoch.seconds) := by
  obtain ⟨⟨⟨hm₁, hm₂⟩, hd₁, -⟩, -, -, -⟩ := h
  change 1 ≤ t.month.toNat at hm₁
  change t.month.toNat ≤ 12 at hm₂
  change 1 ≤ t.day.toNat at hd₁
  have hyears := sum_years 1970 (t.year.toNat - 1970)
  have hmonths := sum_months t.year.toNat (k := t.month.toNat - 1) (by omega)
  have hleap : leapYear t.year.toNat ∧ 2 < t.month.toNat ↔
      leapYear t.year.toNat ∧ 2 ≤ t.month.toNat - 1 := and_congr_right fun _ => by omega
  rw [Nat.add_sub_cancel' hyear] at hyears
  -- all sums in 32 bits are sums of numbers
  have hcount : timestamp t = BitVec.ofNat 32
      ((0 + ((List.range' 1970 (t.year.toNat - 1970)).map fun y => if leapYear y then 366 else 365).sum +
        (if leapYear t.year.toNat ∧ 2 ≤ t.month.toNat - 1 then 1 else 0) +
        ((List.range' 1 (t.month.toNat - 1)).map fun m => daysInMonth.getD (m - 1) 0).sum +
        (t.day.toNat - 1)) * 86400 + t.hour.toNat * 3600 + t.minute.toNat * 60 + t.second.toNat) := by
    unfold timestamp
    dsimp only
    rw [show (0 : U32) = BitVec.ofNat 32 0 from rfl, foldl_add_ofNat, ite_add_one hleap, foldl_add_ofNat,
      setWidth_sub_one hd₁, ← BitVec.ofNat_toNat, ← BitVec.ofNat_toNat, ← BitVec.ofNat_toNat]
    simp only [BitVec.ofNat_add, BitVec.ofNat_mul]
    rfl
  rw [hcount]
  refine congrArg _ ?_
  have hseconds : t.moment.seconds =
      (yearStart t.year.toNat + monthsLength t.year.toNat (t.month.toNat - 1) + (t.day.toNat - 1)) *
        86400 + t.hour.toNat * 3600 + t.minute.toNat * 60 + t.second.toNat := rfl
  rw [hseconds, seconds_epoch]
  generalize yearStart 1970 = first at hyears ⊢
  omega

/-- **The timestamp.** -/
theorem getTimestamp_eq {rtcBinaryMode : Bool} {m : Cmos} {t : Time}
    (hread : rtcReadTime rtcBinaryMode m = some t) (h : Counted t.moment) :
    ∃ v, rtcGetTimestamp rtcBinaryMode m = some v ∧
      epoch.seconds + v.toNat = t.moment.seconds := by
  obtain ⟨hlo, hhi⟩ := h.seconds_mem
  have hyear : 1970 ≤ t.year.toNat := by
    by_contra hlt
    exact h.epoch_le (.inl (.inl (Nat.not_le.mp hlt)))
  refine ⟨timestamp t, by rw [rtcGetTimestamp, hread]; rfl, ?_⟩
  rw [timestamp_eq h.valid hyear, BitVec.toNat_ofNat, Nat.mod_eq_of_lt (by omega)]
  omega

/-- **What the timestamp counts.** Of any time from the epoch to the limit it is the number of seconds
after which the epoch has become this moment; and a later time has a larger timestamp. -/
theorem timestamp_counts :
    (∀ rtcBinaryMode m t, rtcReadTime rtcBinaryMode m = some t → Counted t.moment →
      ∃ v, rtcGetTimestamp rtcBinaryMode m = some v ∧
        ∀ n, Moment.tick^[n] epoch = t.moment ↔ n = v.toNat) ∧
    ∀ rtcBinaryMode m t v rtcBinaryMode' m' t' v',
      rtcReadTime rtcBinaryMode m = some t → Counted t.moment →
      rtcGetTimestamp rtcBinaryMode m = some v →
      rtcReadTime rtcBinaryMode' m' = some t' → Counted t'.moment →
      rtcGetTimestamp rtcBinaryMode' m' = some v' →
      (v.toNat < v'.toNat ↔ t.moment.Before t'.moment) := by
  constructor
  · intro rtcBinaryMode m t hread h
    obtain ⟨v, hv, hseconds⟩ := getTimestamp_eq hread h
    refine ⟨v, hv, fun n => ?_⟩
    rw [iterate_tick_eq_iff valid_epoch h.valid]
    omega
  · intro rtcBinaryMode m t v rtcBinaryMode' m' t' v' hread h hv hread' h' hv'
    obtain ⟨w, hw, hseconds⟩ := getTimestamp_eq hread h
    obtain ⟨w', hw', hseconds'⟩ := getTimestamp_eq hread' h'
    obtain rfl : w = v := Option.some.inj (hw.symm.trans hv)
    obtain rfl : w' = v' := Option.some.inj (hw'.symm.trans hv')
    rw [← seconds_lt_iff h.valid h'.valid]
    omega

/-- The registers at the limit, in BCD. -/
def lastSecond : Cmos := fun reg =>
  if reg = RTC_SECONDS then 0x15 else if reg = RTC_MINUTES then 0x28
  else if reg = RTC_HOURS then 0x06 else if reg = RTC_DAY then 0x07
  else if reg = RTC_MONTH then 0x02 else if reg = RTC_YEAR then 0x06
  else if reg = CMOS_CENTURY then 0x21 else 0x00

def lastTime : Time where
  second := 15
  minute := 28
  hour := 6
  day := 7
  month := 2
  year := 2106
  weekday := 0

theorem timestamp_counts_lastSecond :
    ∃ v, rtcGetTimestamp false lastSecond = some v ∧
      ∀ n, Moment.tick^[n] epoch = lastTime.moment ↔ n = v.toNat := by
  have hread : rtcReadTime false lastSecond = some lastTime := rfl
  have hlimit : lastTime.moment = limit := rfl
  have hcounted : Counted lastTime.moment := by
    rw [hlimit]
    exact ⟨valid_limit, by decide, by decide⟩
  exact timestamp_counts.1 false lastSecond lastTime hread hcounted

end BloodKernel.Rtc
