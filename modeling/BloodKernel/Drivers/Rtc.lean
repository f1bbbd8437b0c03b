import BloodKernel.Kernel.Types
import Mathlib.Logic.Function.Basic

set_option autoImplicit false

/-!
# The real-time clock

`rtc_set_time` and `rtc_read_time` of `drivers/rtc.c`, on a clock that keeps what is written to its
registers. The driver stores the time in BCD or in binary, as `rtc_binary_mode` says, and the year as two
digits and a century.

* `decode_encode`, `rtcYear_encode`: a register, and the year from its two registers.
* `afterSet`: the registers after the time has been set; `rtcSetTime_of_idle`, `afterSet_of_notMem`.
* **`readTime_setTime`**: the time that was set is read back, and status register B is as before.
-/

namespace BloodKernel.Rtc

/-! ## The driver -/

def RTC_SECONDS : U8 := 0x00

def RTC_MINUTES : U8 := 0x02

def RTC_HOURS : U8 := 0x04

def RTC_WEEKDAY : U8 := 0x06

def RTC_DAY : U8 := 0x07

def RTC_MONTH : U8 := 0x08

def RTC_YEAR : U8 := 0x09

def RTC_STATUS_A : U8 := 0x0A

def RTC_STATUS_B : U8 := 0x0B

def CMOS_CENTURY : U8 := 0x32

/-- `rtc_time_t`. -/
structure Time where
  second : U8
  minute : U8
  hour : U8
  day : U8
  month : U8
  year : U16
  weekday : U8

/-- The registers, which keep what is written to them. -/
abbrev Cmos := U8 → U8

def cmosRead (m : Cmos) (reg : U8) : U8 := m reg

def cmosWrite (m : Cmos) (reg value : U8) : Cmos := Function.update m reg value

def bcdToBinary (bcd : U8) : U8 := (bcd >>> 4) * 10 + (bcd &&& 0x0F)

def binaryToBcd (binary : U8) : U8 := ((binary / 10) <<< 4) ||| (binary % 10)

/-- `while (cmos_read(RTC_STATUS_A) & RTC_UIP)`: no register changes meanwhile, so the driver goes on at
once or never. -/
def rtcWaitUpdate (m : Cmos) : Option Cmos :=
  if cmosRead m RTC_STATUS_A &&& 0x80 = 0 then some m else none

/-- `if (!rtc_binary_mode) v = bcd_to_binary(v)`. -/
def decode (rtcBinaryMode : Bool) (v : U8) : U8 := if rtcBinaryMode then v else bcdToBinary v

/-- `if (!rtc_binary_mode) v = binary_to_bcd(v)`. -/
def encode (rtcBinaryMode : Bool) (v : U8) : U8 := if rtcBinaryMode then v else binaryToBcd v

/-- The year, from the year register and the century register. -/
def rtcYear (rtcBinaryMode : Bool) (year century : U8) : U16 :=
  let year := (decode rtcBinaryMode year).setWidth 16
  let year := if year < 80 then year + 2000 else year + 1900
  if century ≠ 0 ∧ century ≠ 0xFF then
    (decode rtcBinaryMode century).setWidth 16 * 100 + year % 100
  else year

def rtcReadTime (rtcBinaryMode : Bool) (m : Cmos) : Option Time :=
  (rtcWaitUpdate m).map fun m =>
    { second := decode rtcBinaryMode (cmosRead m RTC_SECONDS)
      minute := decode rtcBinaryMode (cmosRead m RTC_MINUTES)
      hour := decode rtcBinaryMode (cmosRead m RTC_HOURS)
      day := decode rtcBinaryMode (cmosRead m RTC_DAY)
      month := decode rtcBinaryMode (cmosRead m RTC_MONTH)
      year := rtcYear rtcBinaryMode (cmosRead m RTC_YEAR) (cmosRead m CMOS_CENTURY)
      weekday := decode rtcBinaryMode (cmosRead m RTC_WEEKDAY) }

/-- `cmos_write` to the seven registers of the time. -/
def writeTime (rtcBinaryMode : Bool) (time : Time) (m : Cmos) : Cmos :=
  let m := cmosWrite m RTC_SECONDS (encode rtcBinaryMode time.second)
  let m := cmosWrite m RTC_MINUTES (encode rtcBinaryMode time.minute)
  let m := cmosWrite m RTC_HOURS (encode rtcBinaryMode time.hour)
  let m := cmosWrite m RTC_DAY (encode rtcBinaryMode time.day)
  let m := cmosWrite m RTC_MONTH (encode rtcBinaryMode time.month)
  let m := cmosWrite m RTC_YEAR (encode rtcBinaryMode ((time.year % 100).setWidth 8))
  cmosWrite m CMOS_CENTURY (encode rtcBinaryMode ((time.year / 100).setWidth 8))

def rtcSetTime (rtcBinaryMode : Bool) (time : Time) (m : Cmos) : Option Cmos :=
  let statusB := cmosRead m RTC_STATUS_B
  (rtcWaitUpdate (cmosWrite m RTC_STATUS_B (statusB ||| 0x80))).map fun m =>
    cmosWrite (writeTime rtcBinaryMode time m) RTC_STATUS_B statusB

/-! ## Registers -/

theorem toNat_binaryToBcd {v : U8} (h : v.toNat < 100) :
    (binaryToBcd v).toNat = v.toNat / 10 * 16 + v.toNat % 10 := by
  have hten : (10 : U8).toNat = 10 := rfl
  have hlo : v.toNat % 10 < 2 ^ 4 := by omega
  have hhi : (v.toNat / 10) <<< 4 = v.toNat / 10 * 16 := Nat.shiftLeft_eq _ _
  unfold binaryToBcd
  rw [BitVec.toNat_or, BitVec.toNat_shiftLeft, BitVec.toNat_udiv, BitVec.toNat_umod, hten,
    Nat.mod_eq_of_lt (by omega), ← Nat.shiftLeft_add_eq_or_of_lt hlo, hhi]

theorem toNat_bcdToBinary (v : U8) :
    (bcdToBinary v).toNat = v.toNat / 16 * 10 + v.toNat % 16 := by
  have hten : (10 : U8).toNat = 10 := rfl
  have hmask : (0x0F : U8).toNat = 2 ^ 4 - 1 := rfl
  have hv := v.isLt
  unfold bcdToBinary
  rw [BitVec.toNat_add, BitVec.toNat_mul, BitVec.toNat_ushiftRight, BitVec.toNat_and, hten, hmask,
    Nat.and_two_pow_sub_one_eq_mod, Nat.shiftRight_eq_div_pow]
  omega

/-- **A register** is decoded to what was encoded. -/
theorem decode_encode {rtcBinaryMode : Bool} {v : U8} (h : v.toNat < 100) :
    decode rtcBinaryMode (encode rtcBinaryMode v) = v := by
  cases rtcBinaryMode with
  | true => rfl
  | false =>
      refine BitVec.eq_of_toNat_eq ?_
      show (bcdToBinary (binaryToBcd v)).toNat = _
      rw [toNat_bcdToBinary, toNat_binaryToBcd h]
      omega

/-- A century from 1 to 99 is not taken for a register that is not there. -/
theorem encode_ne {rtcBinaryMode : Bool} {v : U8} (h₀ : 0 < v.toNat) (h : v.toNat < 100) :
    encode rtcBinaryMode v ≠ 0 ∧ encode rtcBinaryMode v ≠ 0xFF := by
  have hbounds : 0 < (encode rtcBinaryMode v).toNat ∧ (encode rtcBinaryMode v).toNat < 255 := by
    cases rtcBinaryMode with
    | true => exact ⟨h₀, show v.toNat < 255 by omega⟩
    | false =>
        show 0 < (binaryToBcd v).toNat ∧ (binaryToBcd v).toNat < 255
        rw [toNat_binaryToBcd h]
        omega
  refine ⟨fun hv => ?_, fun hv => ?_⟩
  · rw [hv] at hbounds
    exact absurd hbounds.1 (by decide)
  · rw [hv] at hbounds
    exact absurd hbounds.2 (by decide)

/-- **The year**: the pivot of the two digits does not matter beside a century. -/
theorem rtcYear_encode {rtcBinaryMode : Bool} {year : U16} (h₁ : 100 ≤ year.toNat)
    (h₂ : year.toNat < 10000) :
    rtcYear rtcBinaryMode (encode rtcBinaryMode ((year % 100).setWidth 8))
      (encode rtcBinaryMode ((year / 100).setWidth 8)) = year := by
  have hhundred : (100 : U16).toNat = 100 := rfl
  have hlo : ((year % 100).setWidth 8).toNat = year.toNat % 100 := by
    rw [BitVec.toNat_setWidth, BitVec.toNat_umod, hhundred]
    omega
  have hhi : ((year / 100).setWidth 8).toNat = year.toNat / 100 := by
    rw [BitVec.toNat_setWidth, BitVec.toNat_udiv, hhundred]
    omega
  unfold rtcYear
  rw [decode_encode (by omega), decode_encode (by omega),
    if_pos (encode_ne (by omega) (by omega))]
  have hpivot (y : U16) (hy : y.toNat = year.toNat % 100) :
      ((if y < 80 then y + 2000 else y + 1900) % 100).toNat = year.toNat % 100 := by
    have h₂₀ : (2000 : U16).toNat = 2000 := rfl
    have h₁₉ : (1900 : U16).toNat = 1900 := rfl
    split_ifs
    · rw [BitVec.toNat_umod, BitVec.toNat_add, h₂₀, hhundred]
      omega
    · rw [BitVec.toNat_umod, BitVec.toNat_add, h₁₉, hhundred]
      omega
  have hwide (v : U8) : (v.setWidth 16).toNat = v.toNat := by
    have := v.isLt
    rw [BitVec.toNat_setWidth]
    omega
  refine BitVec.eq_of_toNat_eq ?_
  rw [BitVec.toNat_add, BitVec.toNat_mul, hpivot _ ((hwide _).trans hlo), hwide, hhi, hhundred]
  omega

/-! ## Setting and reading -/

/-- A time that the clock can hold. -/
structure Time.Valid (t : Time) : Prop where
  second_lt : t.second.toNat < 60
  minute_lt : t.minute.toNat < 60
  hour_lt : t.hour.toNat < 24
  day_mem : 1 ≤ t.day.toNat ∧ t.day.toNat ≤ 31
  month_mem : 1 ≤ t.month.toNat ∧ t.month.toNat ≤ 12
  year_mem : 100 ≤ t.year.toNat ∧ t.year.toNat ≤ 9999

/-- The clock is not updating. -/
def Idle (m : Cmos) : Prop := m RTC_STATUS_A &&& 0x80 = 0

section Registers

variable {rtcBinaryMode : Bool} {t : Time} {m : Cmos}

def timeRegs : List U8 :=
  [RTC_SECONDS, RTC_MINUTES, RTC_HOURS, RTC_DAY, RTC_MONTH, RTC_YEAR, CMOS_CENTURY]

theorem cmosWrite_of_ne {reg reg' : U8} (h : reg' ≠ reg) (v : U8) : cmosWrite m reg v reg' = m reg' :=
  Function.update_of_ne h _ _

theorem writeTime_of_notMem {reg : U8} (h : reg ∉ timeRegs) :
    writeTime rtcBinaryMode t m reg = m reg := by
  simp only [timeRegs, List.mem_cons, List.not_mem_nil, or_false, not_or] at h
  obtain ⟨h₁, h₂, h₃, h₄, h₅, h₆, h₇⟩ := h
  unfold writeTime
  rw [cmosWrite_of_ne h₇, cmosWrite_of_ne h₆, cmosWrite_of_ne h₅, cmosWrite_of_ne h₄,
    cmosWrite_of_ne h₃, cmosWrite_of_ne h₂, cmosWrite_of_ne h₁]

/-- The registers after the time has been set. -/
def afterSet (rtcBinaryMode : Bool) (t : Time) (m : Cmos) : Cmos :=
  cmosWrite (writeTime rtcBinaryMode t (cmosWrite m RTC_STATUS_B (m RTC_STATUS_B ||| 0x80)))
    RTC_STATUS_B (m RTC_STATUS_B)

theorem rtcSetTime_of_idle (hidle : Idle m) :
    rtcSetTime rtcBinaryMode t m = some (afterSet rtcBinaryMode t m) := by
  have hkeep : cmosRead (cmosWrite m RTC_STATUS_B (cmosRead m RTC_STATUS_B ||| 0x80)) RTC_STATUS_A =
      m RTC_STATUS_A := cmosWrite_of_ne (by decide) _
  unfold rtcSetTime rtcWaitUpdate
  dsimp only
  rw [hkeep, if_pos (show m RTC_STATUS_A &&& 0x80 = 0 from hidle)]
  rfl

theorem afterSet_of_notMem {reg : U8} (h : reg ∉ timeRegs) :
    afterSet rtcBinaryMode t m reg = m reg := by
  unfold afterSet
  by_cases hB : reg = RTC_STATUS_B
  · subst hB
    exact Function.update_self _ _ _
  · rw [cmosWrite_of_ne hB, writeTime_of_notMem h, cmosWrite_of_ne hB]

/-- **Reading what was set.** The clock gives the time back that it was set to, status register B is as
before, and so are all registers that are not of the time. -/
theorem readTime_setTime (ht : t.Valid) (hidle : Idle m) :
    ∃ m', rtcSetTime rtcBinaryMode t m = some m' ∧
      rtcReadTime rtcBinaryMode m' =
        some { t with weekday := decode rtcBinaryMode (m RTC_WEEKDAY) } ∧
      m' RTC_STATUS_B = m RTC_STATUS_B ∧ ∀ reg ∉ timeRegs, m' reg = m reg := by
  refine ⟨_, rtcSetTime_of_idle hidle, ?_, afterSet_of_notMem (by decide),
    fun _ hreg => afterSet_of_notMem hreg⟩
  have hsecond : cmosRead (afterSet rtcBinaryMode t m) RTC_SECONDS = encode rtcBinaryMode t.second := rfl
  have hminute : cmosRead (afterSet rtcBinaryMode t m) RTC_MINUTES = encode rtcBinaryMode t.minute := rfl
  have hhour : cmosRead (afterSet rtcBinaryMode t m) RTC_HOURS = encode rtcBinaryMode t.hour := rfl
  have hday : cmosRead (afterSet rtcBinaryMode t m) RTC_DAY = encode rtcBinaryMode t.day := rfl
  have hmonth : cmosRead (afterSet rtcBinaryMode t m) RTC_MONTH = encode rtcBinaryMode t.month := rfl
  have hyear : cmosRead (afterSet rtcBinaryMode t m) RTC_YEAR =
      encode rtcBinaryMode ((t.year % 100).setWidth 8) := rfl
  have hcentury : cmosRead (afterSet rtcBinaryMode t m) CMOS_CENTURY =
      encode rtcBinaryMode ((t.year / 100).setWidth 8) := rfl
  have hweekday : cmosRead (afterSet rtcBinaryMode t m) RTC_WEEKDAY = m RTC_WEEKDAY :=
    afterSet_of_notMem (by decide)
  have hstatus : cmosRead (afterSet rtcBinaryMode t m) RTC_STATUS_A &&& 0x80 = 0 := by
    have hA : cmosRead (afterSet rtcBinaryMode t m) RTC_STATUS_A = m RTC_STATUS_A :=
      afterSet_of_notMem (by decide)
    rw [hA]
    exact hidle
  obtain ⟨hs, hmi, hh, hd, hmo, hy⟩ := ht
  unfold rtcReadTime rtcWaitUpdate
  rw [if_pos hstatus, Option.map_some, hsecond, hminute, hhour, hday, hmonth, hyear, hcentury, hweekday,
    decode_encode (by omega), decode_encode (by omega), decode_encode (by omega),
    decode_encode (by omega), decode_encode (by omega), rtcYear_encode hy.1 (by omega)]

end Registers

/-- One second before the year 2000, in BCD. -/
theorem readTime_setTime_1999 :
    ∃ m', rtcSetTime false
        { second := 59, minute := 59, hour := 23, day := 31, month := 12, year := 1999, weekday := 0 }
        (fun _ => 0x02) = some m' ∧
      rtcReadTime false m' = some
        { second := 59, minute := 59, hour := 23, day := 31, month := 12, year := 1999, weekday := 2 } ∧
      m' RTC_STATUS_B = 0x02 ∧ ∀ reg ∉ timeRegs, m' reg = 0x02 := by
  have ht : Time.Valid
      { second := 59, minute := 59, hour := 23, day := 31, month := 12, year := 1999, weekday := 0 } :=
    ⟨by decide, by decide, by decide, by decide, by decide, by decide⟩
  exact readTime_setTime ht (show (0x02 : U8) &&& 0x80 = 0 by decide)

end BloodKernel.Rtc
