import Mathlib.Logic.Function.Iterate
import Mathlib.Order.Monotone.Basic
import Mathlib.Tactic.SplitIfs

set_option autoImplicit false

/-!
# The Gregorian calendar

Dates and times of day as they follow one another, and their numbers.

* `Date.tomorrow`, `Moment.tick`: the next day and the next second of the calendar.
* `Date.number`, `Moment.seconds`: days and seconds counted from the first one of year 0;
  `number_tomorrow`, `seconds_tick`: they grow by one.
* `yearStart_eq`: the days before a year without a sum.
* **`seconds_lt_iff`**, **`iterate_tick_eq_iff`**: the count is strictly increasing in the order of the
  calendar, and tells how many seconds lie between two moments.
-/

namespace Lib

/-! ## Dates -/

structure Date where
  year : ℕ
  month : ℕ
  day : ℕ
  deriving DecidableEq

def Leap (y : ℕ) : Prop := (y % 4 = 0 ∧ y % 100 ≠ 0) ∨ y % 400 = 0

instance decidableLeap (y : ℕ) : Decidable (Leap y) := inferInstanceAs (Decidable (_ ∨ _))

def monthLength (y m : ℕ) : ℕ :=
  if m = 2 then if Leap y then 29 else 28
  else if m = 4 ∨ m = 6 ∨ m = 9 ∨ m = 11 then 30 else 31

def yearLength (y : ℕ) : ℕ := if Leap y then 366 else 365

structure Date.Valid (d : Date) : Prop where
  month_mem : 1 ≤ d.month ∧ d.month ≤ 12
  day_mem : 1 ≤ d.day ∧ d.day ≤ monthLength d.year d.month

def Date.tomorrow (d : Date) : Date :=
  if d.day < monthLength d.year d.month then { d with day := d.day + 1 }
  else if d.month < 12 then { d with month := d.month + 1, day := 1 }
  else { year := d.year + 1, month := 1, day := 1 }

/-- The days before year `y`. -/
def yearStart : ℕ → ℕ
  | 0 => 0
  | y + 1 => yearStart y + yearLength y

/-- The days of the first `k` months of year `y`. -/
def monthsLength (y : ℕ) : ℕ → ℕ
  | 0 => 0
  | k + 1 => monthsLength y k + monthLength y (k + 1)

/-- The number of a day, counted from the first of year 0. -/
def Date.number (d : Date) : ℕ :=
  yearStart d.year + monthsLength d.year (d.month - 1) + (d.day - 1)

theorem monthLength_pos (y m : ℕ) : 0 < monthLength y m := by
  unfold monthLength
  split_ifs <;> decide

theorem monthsLength_twelve (y : ℕ) : monthsLength y 12 = yearLength y := by
  unfold yearLength
  by_cases h : Leap y <;> simp [monthsLength, monthLength, h]

theorem yearStart_eq (y : ℕ) :
    yearStart y + (y + 99) / 100 = 365 * y + (y + 3) / 4 + (y + 399) / 400 := by
  induction y with
  | zero => rfl
  | succ y ih =>
      rw [yearStart, yearLength]
      by_cases h : Leap y
      · rw [if_pos h]
        unfold Leap at h
        omega
      · rw [if_neg h]
        unfold Leap at h
        omega

theorem Date.Valid.tomorrow {d : Date} (h : d.Valid) : d.tomorrow.Valid := by
  obtain ⟨hmonth, hday⟩ := h
  unfold Date.tomorrow
  split_ifs with h₁ h₂
  · exact ⟨hmonth, Nat.succ_pos _, h₁⟩
  · exact ⟨⟨Nat.succ_pos _, h₂⟩, Nat.le_refl 1, monthLength_pos _ _⟩
  · exact ⟨⟨Nat.le_refl 1, Nat.succ_le_succ (Nat.zero_le 11)⟩, Nat.le_refl 1, monthLength_pos _ _⟩

/-- **The next day** has the next number. -/
theorem number_tomorrow {d : Date} (h : d.Valid) : d.tomorrow.number = d.number + 1 := by
  obtain ⟨y, m, n⟩ := d
  obtain ⟨⟨hm₁, hm₂⟩, hn₁, hn₂⟩ := h
  dsimp only at hm₁ hm₂ hn₁ hn₂
  obtain ⟨k, rfl⟩ := Nat.exists_eq_add_of_le' hm₁
  unfold Date.tomorrow Date.number
  dsimp only
  split_ifs with h₁ h₂
  · dsimp only
    omega
  · -- the first of the next month
    have hmonth : monthsLength y (k + 1) = monthsLength y k + monthLength y (k + 1) := rfl
    show yearStart y + monthsLength y (k + 1) + 0 = yearStart y + monthsLength y k + (n - 1) + 1
    omega
  · -- the first of January
    obtain rfl : k = 11 := by omega
    have hmonths : yearLength y = monthsLength y 11 + monthLength y 12 :=
      (monthsLength_twelve y).symm
    have hyear : yearStart (y + 1) = yearStart y + yearLength y := rfl
    change n ≤ monthLength y 12 at hn₂
    change ¬n < monthLength y 12 at h₁
    show yearStart (y + 1) + 0 + 0 = yearStart y + monthsLength y 11 + (n - 1) + 1
    omega

def Date.Before (d e : Date) : Prop :=
  d.year < e.year ∨ (d.year = e.year ∧
    (d.month < e.month ∨ (d.month = e.month ∧ d.day < e.day)))

instance decidableDateBefore (d e : Date) : Decidable (d.Before e) :=
  inferInstanceAs (Decidable (_ ∨ _))

theorem Date.before_or_eq_or_before (d e : Date) : d.Before e ∨ d = e ∨ e.Before d := by
  obtain ⟨y, m, n⟩ := d
  obtain ⟨y', m', n'⟩ := e
  simp only [Date.Before, Date.mk.injEq]
  omega

theorem yearStart_mono : Monotone yearStart :=
  monotone_nat_of_le_succ fun _ => Nat.le_add_right _ _

theorem monthsLength_mono (y : ℕ) : Monotone (monthsLength y) :=
  monotone_nat_of_le_succ fun _ => Nat.le_add_right _ _

theorem Date.Valid.number_lt {d : Date} (h : d.Valid) :
    d.number < yearStart d.year + monthsLength d.year d.month := by
  obtain ⟨y, m, n⟩ := d
  obtain ⟨⟨hm₁, hm₂⟩, hn₁, hn₂⟩ := h
  dsimp only at hm₁ hm₂ hn₁ hn₂
  obtain ⟨k, rfl⟩ := Nat.exists_eq_add_of_le' hm₁
  have hmonth : monthsLength y (k + 1) = monthsLength y k + monthLength y (k + 1) := rfl
  show yearStart y + monthsLength y k + (n - 1) < yearStart y + monthsLength y (k + 1)
  omega

theorem number_lt_of_before {d e : Date} (hd : d.Valid) (h : d.Before e) : d.number < e.number := by
  have hlt := hd.number_lt
  have hmonth := hd.month_mem
  have hstart : yearStart e.year + monthsLength e.year (e.month - 1) ≤ e.number :=
    Nat.le_add_right _ _
  rcases h with hyear | ⟨hyear, hmonths | ⟨hmonths, hday⟩⟩
  · -- the whole year of the earlier day is over
    have hyears : yearStart (d.year + 1) ≤ yearStart e.year := yearStart_mono hyear
    have htwelve : monthsLength d.year d.month ≤ monthsLength d.year 12 := monthsLength_mono _ hmonth.2
    have hsucc : yearStart (d.year + 1) = yearStart d.year + yearLength d.year := rfl
    rw [monthsLength_twelve] at htwelve
    omega
  · have hle : monthsLength d.year d.month ≤ monthsLength d.year (e.month - 1) :=
      monthsLength_mono _ (by omega)
    rw [hyear] at hle hlt
    omega
  · have hdays := hd.day_mem
    unfold Date.number
    rw [hyear, hmonths]
    omega

/-! ## Times of day -/

structure Moment extends Date where
  hour : ℕ
  minute : ℕ
  second : ℕ

structure Moment.Valid (x : Moment) : Prop where
  date : x.toDate.Valid
  hour_lt : x.hour < 24
  minute_lt : x.minute < 60
  second_lt : x.second < 60

/-- The next second. -/
def Moment.tick (x : Moment) : Moment :=
  if x.second < 59 then { x with second := x.second + 1 }
  else if x.minute < 59 then { x with minute := x.minute + 1, second := 0 }
  else if x.hour < 23 then { x with hour := x.hour + 1, minute := 0, second := 0 }
  else { toDate := x.toDate.tomorrow, hour := 0, minute := 0, second := 0 }

/-- The seconds since the first one of year 0. -/
def Moment.seconds (x : Moment) : ℕ :=
  x.toDate.number * 86400 + x.hour * 3600 + x.minute * 60 + x.second

theorem Moment.Valid.tick {x : Moment} (h : x.Valid) : x.tick.Valid := by
  obtain ⟨hdate, hhour, hminute, hsecond⟩ := h
  unfold Moment.tick
  split_ifs with h₁ h₂ h₃
  · exact ⟨hdate, hhour, hminute, Nat.succ_lt_succ h₁⟩
  · exact ⟨hdate, hhour, Nat.succ_lt_succ h₂, Nat.succ_pos _⟩
  · exact ⟨hdate, Nat.succ_lt_succ h₃, Nat.succ_pos _, Nat.succ_pos _⟩
  · exact ⟨hdate.tomorrow, Nat.succ_pos _, Nat.succ_pos _, Nat.succ_pos _⟩

/-- **The next second** has the next number. -/
theorem seconds_tick {x : Moment} (h : x.Valid) : x.tick.seconds = x.seconds + 1 := by
  obtain ⟨hdate, hhour, hminute, hsecond⟩ := h
  have hnext := number_tomorrow hdate
  unfold Moment.tick
  split_ifs with h₁ h₂ h₃ <;> unfold Moment.seconds <;> dsimp only <;> omega

def Moment.Before (x z : Moment) : Prop :=
  x.toDate.Before z.toDate ∨ (x.toDate = z.toDate ∧
    (x.hour < z.hour ∨ (x.hour = z.hour ∧
      (x.minute < z.minute ∨ (x.minute = z.minute ∧ x.second < z.second)))))

instance decidableMomentBefore (x z : Moment) : Decidable (x.Before z) :=
  inferInstanceAs (Decidable (_ ∨ _))

theorem Moment.before_or_eq_or_before (x z : Moment) : x.Before z ∨ x = z ∨ z.Before x := by
  obtain ⟨d, h, m, s⟩ := x
  obtain ⟨e, h', m', s'⟩ := z
  rcases Date.before_or_eq_or_before d e with hd | rfl | hd
  · exact .inl (.inl hd)
  · have htime : (h < h' ∨ (h = h' ∧ (m < m' ∨ (m = m' ∧ s < s')))) ∨ (h = h' ∧ m = m' ∧ s = s') ∨
        (h' < h ∨ (h' = h ∧ (m' < m ∨ (m' = m ∧ s' < s)))) := by omega
    rcases htime with hlt | ⟨rfl, rfl, rfl⟩ | hlt
    · exact .inl (.inr ⟨rfl, hlt⟩)
    · exact .inr (.inl rfl)
    · exact .inr (.inr (.inr ⟨rfl, hlt⟩))
  · exact .inr (.inr (.inl hd))

section Order

variable {x z : Moment}

theorem seconds_lt_of_before (hx : x.Valid) (h : x.Before z) : x.seconds < z.seconds := by
  obtain ⟨hdx, hhx, hmx, hsx⟩ := hx
  unfold Moment.seconds
  rcases h with hdate | ⟨hdate, htime⟩
  · have hlt := number_lt_of_before hdx hdate
    omega
  · rw [hdate]
    omega

/-- **The order of the calendar** is the order of the seconds. -/
theorem seconds_lt_iff (hx : x.Valid) (hz : z.Valid) : x.seconds < z.seconds ↔ x.Before z := by
  refine ⟨fun h => ?_, seconds_lt_of_before hx⟩
  rcases Moment.before_or_eq_or_before x z with hb | rfl | hb
  · exact hb
  · exact absurd h (Nat.lt_irrefl _)
  · exact absurd h (Nat.lt_asymm (seconds_lt_of_before hz hb))

theorem seconds_inj (hx : x.Valid) (hz : z.Valid) (h : x.seconds = z.seconds) : x = z := by
  rcases Moment.before_or_eq_or_before x z with hb | he | hb
  · exact absurd h (Nat.ne_of_lt (seconds_lt_of_before hx hb))
  · exact he
  · exact absurd h (Nat.ne_of_gt (seconds_lt_of_before hz hb))

theorem iterate_tick (hx : x.Valid) (n : ℕ) :
    (Moment.tick^[n] x).Valid ∧ (Moment.tick^[n] x).seconds = x.seconds + n := by
  induction n with
  | zero => exact ⟨hx, (Nat.add_zero _).symm⟩
  | succ n ih =>
      rw [Function.iterate_succ_apply']
      exact ⟨ih.1.tick, by rw [seconds_tick ih.1, ih.2, Nat.add_assoc]⟩

/-- **The seconds between two moments.** -/
theorem iterate_tick_eq_iff (hx : x.Valid) (hz : z.Valid) (n : ℕ) :
    Moment.tick^[n] x = z ↔ x.seconds + n = z.seconds := by
  obtain ⟨hvalid, hseconds⟩ := iterate_tick hx n
  constructor
  · rintro rfl
    exact hseconds.symm
  · exact fun h => seconds_inj hvalid hz (hseconds.trans h)

end Order

end Lib
