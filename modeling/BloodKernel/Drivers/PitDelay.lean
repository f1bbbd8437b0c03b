import BloodKernel.Kernel.Delay
import BloodKernel.Lib.Reloading

set_option autoImplicit false

/-!
# Busy waiting on the PIT

`pit_delay_us` of `drivers/pit.c`. It polls channel 0, which counts down from the divisor that `pit_init` has
programmed, and subtracts the time between two readings from the time that is left. The time is computed in
whole microseconds and in 32 bits, and the ticks as if the counter was reloaded with 65536.

* `Schedule`: the ticks at which the counter is polled; `pitDelayUs`: the loop, poll by poll.
* `observed_le_elapsed`: what the loop sees is no more than what has passed.
* `Keeps`: it returns after enough ticks, and when it has seen enough; `Counted`: a poll that loses nothing.
* **`delay_us_keeps_iff`**: for which times it does for all schedules, and a schedule for which it does.
-/

namespace BloodKernel.Pit

open Lib

/-! ## The counter -/

/-- What the chip makes of three writes: channel 0 in mode 2, a low and a high byte. -/
def reload : List (U16 × U8) → Option U16
  | [command, low, high] =>
      if command = (0x43, 0x34) ∧ low.1 = 0x40 ∧ high.1 = 0x40 then some (high.2 ++ low.2) else none
  | _ => none

/-- The bytes of the latched counter, one after the other, and what the driver makes of them. -/
def readCounter (counter : U16) : U16 :=
  let low : U8 := counter.setWidth 8
  let high : U8 := (counter >>> 8).setWidth 8
  high.setWidth 16 <<< 8 ||| low.setWidth 16

/-- The ticks since channel 0 was loaded at which it is latched, poll by poll, so that the counter is seen to
change. -/
structure Schedule (divisor : U16) where
  times : ℕ → ℕ
  mono : Monotone times
  sees : ∀ n, ∃ k, n < k ∧ countAt divisor.toNat (times k) ≠ countAt divisor.toNat (times n)

/-- What a poll reads. -/
def Schedule.reading {divisor : U16} (s : Schedule divisor) (n : ℕ) : U16 :=
  readCounter (BitVec.ofNat 16 (countAt divisor.toNat (s.times n)))

/-- The ticks from the first poll to the last one of `n`. -/
def Schedule.elapsed {divisor : U16} (s : Schedule divisor) (n : ℕ) : ℕ := s.times (n - 1) - s.times 0

/-! ## The loop -/

/-- `target_us`, and `last` while the inner loop waits for the counter to change. -/
structure Loop where
  targetUs : U32
  last : Option U16

def elapsedTicks (last current : U16) : U16 :=
  if last > current then last - current
  else (65536 - current.setWidth 32 + last.setWidth 32 : U32).setWidth 16

def elapsedUs (ticks : U16) : U32 := ticks.setWidth 32 * 1000000 / 1193182

def Loop.poll (l : Loop) (current : U16) : Loop :=
  -- it has returned
  if l.targetUs = 0 then l
  else
    match l.last with
    | none => { l with last := some current }
    | some last =>
        if current = last then l
        else
          let us := elapsedUs (elapsedTicks last current)
          ⟨if us ≥ l.targetUs then 0 else l.targetUs - us, none⟩

/-- `pit_delay_us` after `n` polls. -/
def pitDelayUs (us : U32) (reading : ℕ → U16) : ℕ → Loop
  | 0 => ⟨us, none⟩
  | n + 1 => (pitDelayUs us reading n).poll (reading n)

/-! ## What it should do -/

/-- The ticks that a poll sees. -/
def Loop.seen (divisor : U16) (l : Loop) (current : U16) : ℕ :=
  if l.targetUs = 0 then 0
  else l.last.elim 0 fun last => ticksBetween divisor.toNat last.toNat current.toNat

/-- The ticks that the loop has seen in `n` polls. -/
def observed (divisor : U16) (us : U32) (reading : ℕ → U16) : ℕ → ℕ
  | 0 => 0
  | n + 1 => observed divisor us reading n + (pitDelayUs us reading n).seen divisor (reading n)

/-- The ticks make up `us` microseconds. -/
def Enough (us : U32) (ticks : ℕ) : Prop := 1193182 * us.toNat ≤ 1000000 * ticks

instance decidableEnough (us : U32) (ticks : ℕ) : Decidable (Enough us ticks) :=
  inferInstanceAs (Decidable (_ ≤ _))

/-- The delay returns after enough ticks, and when it has seen enough of them. -/
structure Keeps {divisor : U16} (us : U32) (s : Schedule divisor) : Prop where
  waits : ∀ n, (pitDelayUs us s.reading n).targetUs = 0 → Enough us (s.elapsed n)
  returns : ∀ n, Enough us (observed divisor us s.reading n) → (pitDelayUs us s.reading n).targetUs = 0

/-! ### Bytes -/

theorem append_bytes (v : U16) : (v >>> 8).setWidth 8 ++ v.setWidth 8 = v := by
  ext i hi
  simp
  grind

theorem and_byte (v : U16) : (v &&& 0xFF).setWidth 8 = v.setWidth 8 := by
  have hmask : (0xFF : U16).toNat = 2 ^ 8 - 1 := rfl
  apply BitVec.eq_of_toNat_eq
  rw [BitVec.toNat_setWidth, BitVec.toNat_and, hmask, Nat.and_two_pow_sub_one_eq_mod, Nat.mod_mod,
    BitVec.toNat_setWidth]

/-- **The divisor** of `pit_init` is what the chip reloads the counter with. -/
theorem reload_pitInit {frequency : U32} {p q : Pit} {io : List (U16 × U8)}
    (h : pitInit frequency p = some (io, q)) : reload io = some ((1193182 / frequency).setWidth 16) := by
  unfold pitInit at h
  split_ifs at h
  cases h
  dsimp only [reload]
  rw [if_pos ⟨rfl, rfl, rfl⟩, and_byte, and_byte, append_bytes]

theorem readCounter_eq (counter : U16) : readCounter counter = counter := by
  unfold readCounter
  ext i hi
  simp
  grind

variable {divisor : U16} {us : U32} {s : Schedule divisor} {n : ℕ}

theorem toNat_reading (s : Schedule divisor) (n : ℕ) :
    (s.reading n).toNat = countAt divisor.toNat (s.times n) := by
  have hlt := divisor.isLt
  have hle := countAt_le divisor.toNat (s.times n)
  rw [Schedule.reading, readCounter_eq, BitVec.toNat_ofNat]
  exact Nat.mod_eq_of_lt (by omega)

/-! ### A poll -/

theorem poll_returned {l : Loop} (h : l.targetUs = 0) (current : U16) : l.poll current = l := if_pos h

theorem poll_none {l : Loop} (h : l.targetUs ≠ 0) (hlast : l.last = none) (current : U16) :
    l.poll current = { l with last := some current } := by
  rw [Loop.poll, if_neg h, hlast]

theorem poll_same {l : Loop} {last : U16} (hlast : l.last = some last) : l.poll last = l := by
  unfold Loop.poll
  split_ifs
  · rfl
  · rw [hlast]
    exact if_pos rfl

theorem poll_changed {l : Loop} {last current : U16} (h : l.targetUs ≠ 0) (hlast : l.last = some last)
    (hne : current ≠ last) : l.poll current =
      ⟨if elapsedUs (elapsedTicks last current) ≥ l.targetUs then 0
        else l.targetUs - elapsedUs (elapsedTicks last current), none⟩ := by
  rw [Loop.poll, if_neg h, hlast]
  exact if_neg hne

theorem seen_eq {l : Loop} {last : U16} (h : l.targetUs ≠ 0) (hlast : l.last = some last) (current : U16) :
    l.seen divisor current = ticksBetween divisor.toNat last.toNat current.toNat := by
  rw [Loop.seen, if_neg h, hlast]
  rfl

/-- **What a poll does**: either nothing is seen, and `last` is as before or what has been read; or the counter
has changed. -/
theorem poll_cases (divisor : U16) (l : Loop) (current : U16) :
    ((l.poll current).targetUs = l.targetUs ∧ l.seen divisor current = 0 ∧
      ((l.poll current).last = l.last ∨ (l.poll current).last = some current)) ∨
    ∃ last, l.targetUs ≠ 0 ∧ l.last = some last ∧ current ≠ last := by
  by_cases hreturned : l.targetUs = 0
  · rw [poll_returned hreturned]
    exact .inl ⟨rfl, if_pos hreturned, .inl rfl⟩
  cases hlast : l.last with
  | none =>
      rw [poll_none hreturned hlast, Loop.seen, hlast]
      exact .inl ⟨rfl, ite_self 0, .inr rfl⟩
  | some last =>
      by_cases hsame : current = last
      · rw [← hsame] at hlast
        have hzero : ticksBetween divisor.toNat current.toNat current.toNat = 0 := by
          rw [ticksBetween, Nat.add_sub_cancel_left, Nat.mod_self]
        rw [poll_same hlast, seen_eq hreturned hlast]
        exact .inl ⟨rfl, hzero, .inl (hlast.trans (congrArg some hsame))⟩
      · exact .inr ⟨last, hreturned, rfl, hsame⟩

/-! ## What is seen -/

theorem elapsed_mono (s : Schedule divisor) {m n : ℕ} (h : m ≤ n) : s.elapsed m ≤ s.elapsed n :=
  Nat.sub_le_sub_right (s.mono (Nat.sub_le_sub_right h 1)) _

/-- What has been seen lies before the last poll; and while the loop waits for a change, before the poll that
it compares with. -/
theorem observed_le (hpos : 0 < divisor.toNat) (us : U32) (s : Schedule divisor) (n : ℕ) :
    observed divisor us s.reading n ≤ s.elapsed n ∧
      ∀ last, (pitDelayUs us s.reading n).last = some last →
        ∃ m < n, s.reading m = last ∧ observed divisor us s.reading n ≤ s.elapsed (m + 1) := by
  induction n with
  | zero => exact ⟨Nat.zero_le _, fun _ h => absurd h (Option.some_ne_none _).symm⟩
  | succ n ih =>
      obtain ⟨hle, hwaits⟩ := ih
      have hsucc := hle.trans (elapsed_mono s n.le_succ)
      rw [observed, pitDelayUs]
      rcases poll_cases divisor (pitDelayUs us s.reading n) (s.reading n) with
        ⟨-, hseen, hlast⟩ | ⟨last, hwaiting, hlast, hne⟩
      · rw [hseen]
        refine ⟨hsucc, fun last hnew => ?_⟩
        rcases hlast with hlast | hlast
        · obtain ⟨m, hm, hread, hobserved⟩ := hwaits last (hlast ▸ hnew)
          exact ⟨m, hm.trans n.lt_succ_self, hread, hobserved⟩
        · exact ⟨n, n.lt_succ_self, Option.some.inj (hlast.symm.trans hnew), hsucc⟩
      · obtain ⟨m, hm, rfl, hobserved⟩ := hwaits last hlast
        rw [poll_changed hwaiting hlast hne, seen_eq hwaiting hlast, toNat_reading, toNat_reading,
          ticksBetween_countAt hpos (s.mono hm.le)]
        refine ⟨?_, fun _ hnew => absurd hnew (Option.some_ne_none _).symm⟩
        have hmod := Nat.mod_le (s.times n - s.times m) divisor.toNat
        have hfirst := s.mono (Nat.zero_le m)
        have hlast := s.mono hm.le
        unfold Schedule.elapsed at hobserved ⊢
        rw [Nat.add_sub_cancel] at hobserved ⊢
        omega

/-- **What is seen** is no more than what has passed. -/
theorem observed_le_elapsed (hpos : 0 < divisor.toNat) (us : U32) (s : Schedule divisor) (n : ℕ) :
    observed divisor us s.reading n ≤ s.elapsed n := (observed_le hpos us s n).1

/-! ## Polls that lose nothing -/

/-- When poll `n` sees a change, the counter has gone down without a reload, and the product of the ticks fits
in 32 bits; and they are enough for what is left, or all the ticks that have been seen are not enough yet. -/
def Counted (us : U32) (s : Schedule divisor) (n : ℕ) : Prop :=
  ∀ last, (pitDelayUs us s.reading n).targetUs ≠ 0 → (pitDelayUs us s.reading n).last = some last →
    s.reading n ≠ last → ∃ ticks, last.toNat = (s.reading n).toNat + ticks ∧ 0 < ticks ∧
      1000000 * ticks < 2 ^ 32 ∧
      (Enough (pitDelayUs us s.reading n).targetUs ticks ∨
        ¬Enough us (observed divisor us s.reading n + ticks))

/-- What the loop has subtracted is no more than what it has seen, and it has not seen enough before it
returns. -/
structure Accounted (us : U32) (s : Schedule divisor) (n : ℕ) : Prop where
  le : (pitDelayUs us s.reading n).targetUs.toNat ≤ us.toNat
  subtracted : 1193182 * (us.toNat - (pitDelayUs us s.reading n).targetUs.toNat) ≤
    1000000 * observed divisor us s.reading n
  short : (pitDelayUs us s.reading n).targetUs ≠ 0 → ¬Enough us (observed divisor us s.reading n)

theorem toNat_elapsedTicks {last current : U16} {ticks : ℕ} (h : last.toNat = current.toNat + ticks)
    (hpos : 0 < ticks) : (elapsedTicks last current).toNat = ticks := by
  have hlt : current < last := by
    show current.toNat < last.toNat
    omega
  have hle : current ≤ last := BitVec.le_of_lt hlt
  unfold elapsedTicks
  rw [if_pos hlt, BitVec.toNat_sub_of_le hle, h, Nat.add_sub_cancel_left]

theorem toNat_elapsedUs {ticks : U16} (h : 1000000 * ticks.toNat < 2 ^ 32) :
    (elapsedUs ticks).toNat = 1000000 * ticks.toNat / 1193182 := by
  have hmillion : (1000000 : U32).toNat = 1000000 := rfl
  have hfrequency : (1193182 : U32).toNat = 1193182 := rfl
  unfold elapsedUs
  rw [BitVec.toNat_udiv, BitVec.toNat_mul, BitVec.toNat_setWidth, hmillion, hfrequency,
    Nat.mod_eq_of_lt (ticks.isLt.trans (by decide)), Nat.mul_comm, Nat.mod_eq_of_lt h]

theorem toNat_elapsed {last current : U16} {ticks : ℕ} (h : last.toNat = current.toNat + ticks) (hpos : 0 < ticks)
    (hfits : 1000000 * ticks < 2 ^ 32) :
    (elapsedUs (elapsedTicks last current)).toNat = 1000000 * ticks / 1193182 := by
  have hticks := toNat_elapsedTicks h hpos
  rw [toNat_elapsedUs (hticks.symm ▸ hfits), hticks]

/-- A change by some ticks, without a reload, is seen as such. -/
theorem seen_of_fall (hdivisor : 0 < divisor.toNat) {last : U16} {ticks : ℕ}
    (hwaiting : (pitDelayUs us s.reading n).targetUs ≠ 0) (hlast : (pitDelayUs us s.reading n).last = some last)
    (h : last.toNat = (s.reading n).toNat + ticks) (hpos : 0 < ticks) :
    (pitDelayUs us s.reading n).seen divisor (s.reading n) = ticks := by
  obtain ⟨m, -, hread, -⟩ := (observed_le hdivisor us s n).2 last hlast
  have hbound : last.toNat ≤ divisor.toNat := hread ▸ toNat_reading s m ▸ countAt_le _ _
  have hcurrent : 0 < (s.reading n).toNat := toNat_reading s n ▸ countAt_pos hdivisor _
  rw [seen_eq hwaiting hlast, ticksBetween_of_lt (by omega) hbound hcurrent, h, Nat.add_sub_cancel_left]

/-- **A poll** that loses nothing. -/
theorem Accounted.succ (hdivisor : 0 < divisor.toNat) (hn : Accounted us s n) (h : Counted us s n) :
    Accounted us s (n + 1) := by
  obtain ⟨hle, hsubtracted, hshort⟩ := hn
  rcases poll_cases divisor (pitDelayUs us s.reading n) (s.reading n) with
    ⟨htarget, hseen, -⟩ | ⟨last, hwaiting, hlast, hne⟩
  · constructor <;> rw [pitDelayUs, htarget]
    · exact hle
    · rwa [observed, hseen]
    · rwa [observed, hseen]
  obtain ⟨ticks, hticks, hpos, hfits, henough⟩ := h last hwaiting hlast hne
  have hus := toNat_elapsed hticks hpos hfits
  have hobserved : observed divisor us s.reading (n + 1) = observed divisor us s.reading n + ticks :=
    congrArg (_ + ·) (seen_of_fall hdivisor hwaiting hlast hticks hpos)
  unfold Enough at henough
  by_cases hreturns : (pitDelayUs us s.reading n).targetUs ≤ elapsedUs (elapsedTicks last (s.reading n))
  · have hreturns' : (pitDelayUs us s.reading n).targetUs.toNat ≤ 1000000 * ticks / 1193182 := hus ▸ hreturns
    constructor <;> rw [pitDelayUs, poll_changed hwaiting hlast hne, if_pos hreturns]
    · exact Nat.zero_le _
    · rw [hobserved]
      show 1193182 * (us.toNat - 0) ≤ _
      omega
    · exact fun h => absurd rfl h
  · have hlt := BitVec.not_le.mp hreturns
    have hlt' : 1000000 * ticks / 1193182 < (pitDelayUs us s.reading n).targetUs.toNat := hus ▸ hlt
    have htarget : ((pitDelayUs us s.reading n).targetUs - elapsedUs (elapsedTicks last (s.reading n))).toNat =
        (pitDelayUs us s.reading n).targetUs.toNat - 1000000 * ticks / 1193182 := by
      rw [BitVec.toNat_sub_of_le (BitVec.le_of_lt hlt), hus]
    constructor <;> rw [pitDelayUs, poll_changed hwaiting hlast hne, if_neg hreturns]
    · rw [htarget]
      omega
    · rw [hobserved, htarget]
      omega
    · intro _
      rw [hobserved]
      exact henough.resolve_left (by omega)

/-- **A run** whose polls lose nothing. -/
theorem accounted (hdivisor : 0 < divisor.toNat) (h : ∀ n, Counted us s n) (n : ℕ) : Accounted us s n := by
  induction n with
  | zero =>
      refine ⟨Nat.le_refl _, ?_, fun hne henough => hne ?_⟩
      · show 1193182 * (us.toNat - us.toNat) ≤ _
        rw [Nat.sub_self]
        exact Nat.zero_le _
      · have hzero : 1193182 * us.toNat ≤ 1000000 * 0 := henough
        exact BitVec.eq_of_toNat_eq (show us.toNat = 0 by omega)
  | succ n ih => exact ih.succ hdivisor (h n)

theorem keeps_of_counted (hdivisor : 0 < divisor.toNat) (h : ∀ n, Counted us s n) : Keeps us s := by
  constructor
  · intro n hreturned
    have hsubtracted := (accounted hdivisor h n).subtracted
    have hseen := observed_le_elapsed hdivisor us s n
    rw [hreturned] at hsubtracted
    have hzero : 1193182 * (us.toNat - 0) ≤ _ := hsubtracted
    unfold Enough
    omega
  · intro n henough
    by_contra hwaiting
    exact (accounted hdivisor h n).short hwaiting henough

/-! ## When the delay is kept -/

theorem returned_of_le {reading : ℕ → U16} {m : ℕ} (h : (pitDelayUs us reading m).targetUs = 0) (hle : m ≤ n) :
    (pitDelayUs us reading n).targetUs = 0 := by
  induction n, hle using Nat.le_induction with
  | base => exact h
  | succ n _ ih => rwa [pitDelayUs, poll_returned ih]

theorem keeps_zero (s : Schedule divisor) : Keeps 0 s :=
  ⟨fun _ _ => Nat.zero_le _, fun _ _ => returned_of_le (show (pitDelayUs 0 s.reading 0).targetUs = 0 from rfl)
    (Nat.zero_le _)⟩

/-- In each round of the counter it is polled where it has been reloaded, and a tick later. -/
def eachRound (divisor : U16) (h : 2 ≤ divisor.toNat) : Schedule divisor where
  times n := n / 2 * divisor.toNat + n % 2
  mono := monotone_nat_of_le_succ fun n => by
    rcases Nat.mod_two_eq_zero_or_one n with heven | hodd
    · rw [show (n + 1) / 2 = n / 2 by omega]
      omega
    · rw [show (n + 1) / 2 = n / 2 + 1 by omega, Nat.add_mul]
      omega
  sees n := by
    refine ⟨n + 1, n.lt_succ_self, ?_⟩
    rw [countAt_mul_add, countAt_mul_add]
    unfold countAt
    rw [Nat.mod_eq_of_lt (show (n + 1) % 2 < divisor.toNat by omega),
      Nat.mod_eq_of_lt (show n % 2 < divisor.toNat by omega)]
    omega

theorem toNat_reading_eachRound (h : 2 ≤ divisor.toNat) (n : ℕ) :
    ((eachRound divisor h).reading n).toNat = divisor.toNat - n % 2 := by
  rw [toNat_reading]
  show countAt _ (n / 2 * divisor.toNat + n % 2) = _
  rw [countAt_mul_add, countAt, Nat.mod_eq_of_lt (show n % 2 < divisor.toNat by omega)]

/-- **One tick is no microsecond.** -/
theorem poll_tick {last current : U16} (hus : us ≠ 0) (h : last.toNat = current.toNat + 1) :
    Loop.poll ⟨us, some last⟩ current = ⟨us, none⟩ := by
  have hne : current ≠ last := by
    rintro rfl
    exact Nat.succ_ne_self _ h.symm
  have hzero : elapsedUs (elapsedTicks last current) = 0 :=
    BitVec.eq_of_toNat_eq (toNat_elapsed h Nat.one_pos (by decide))
  have htarget : (if (0 : U32) ≥ us then 0 else us - 0) = us :=
    (if_neg fun hle => hus (BitVec.le_zero_iff.mp hle)).trans (BitVec.sub_zero us)
  rw [poll_changed hus rfl hne, hzero]
  exact congrArg (Loop.mk · none) htarget

/-- Nothing is subtracted, however many ticks are seen. -/
theorem pitDelayUs_eachRound (h : 2 ≤ divisor.toNat) (hus : us ≠ 0) (n : ℕ) :
    pitDelayUs us (eachRound divisor h).reading (2 * n) = ⟨us, none⟩ ∧
      observed divisor us (eachRound divisor h).reading (2 * n) = n := by
  induction n with
  | zero => exact ⟨rfl, rfl⟩
  | succ n ih =>
      obtain ⟨hloop, hobserved⟩ := ih
      have hlast := toNat_reading_eachRound h (2 * n)
      have hcurrent := toNat_reading_eachRound h (2 * n + 1)
      rw [show 2 * n % 2 = 0 by omega] at hlast
      rw [show (2 * n + 1) % 2 = 1 by omega] at hcurrent
      have hfirst : pitDelayUs us (eachRound divisor h).reading (2 * n + 1) =
          ⟨us, some ((eachRound divisor h).reading (2 * n))⟩ := by
        rw [pitDelayUs, hloop]
        exact poll_none hus rfl _
      have hnone : Loop.seen divisor ⟨us, none⟩ ((eachRound divisor h).reading (2 * n)) = 0 := ite_self 0
      have hseen : Loop.seen divisor ⟨us, some ((eachRound divisor h).reading (2 * n))⟩
          ((eachRound divisor h).reading (2 * n + 1)) = 1 := by
        rw [seen_eq hus rfl, ticksBetween_of_lt (by omega) (by omega) (by omega)]
        omega
      constructor
      · show pitDelayUs us _ (2 * n + 1 + 1) = _
        rw [pitDelayUs, hfirst, poll_tick hus (by omega)]
      · show observed divisor us _ (2 * n + 1 + 1) = _
        rw [observed, observed, hobserved, hloop, hfirst, hnone, hseen]

theorem not_keeps_eachRound (h : 2 ≤ divisor.toNat) (hus : us ≠ 0) : ¬Keeps us (eachRound divisor h) := by
  intro hkeeps
  obtain ⟨hloop, hobserved⟩ := pitDelayUs_eachRound h hus (2 * us.toNat)
  have henough : Enough us (2 * us.toNat) := by
    unfold Enough
    omega
  have hreturned := hkeeps.returns (2 * (2 * us.toNat)) (hobserved.symm ▸ henough)
  rw [hloop] at hreturned
  exact hus hreturned

/-- **When a delay is kept.** For all schedules, when it is no delay: otherwise there is a schedule by which the
loop sees one tick at a time and never returns. And for a schedule, when each poll that sees a change loses
nothing. -/
theorem delay_us_keeps_iff (h : 2 ≤ divisor.toNat) (us : U32) :
    ((∀ s : Schedule divisor, Keeps us s) ↔ us = 0) ∧
    ∀ s : Schedule divisor, (∀ n, Counted us s n) → Keeps us s := by
  constructor
  · constructor
    · intro hall
      by_contra hus
      exact not_keeps_eachRound h hus (hall _)
    · rintro rfl s
      exact keeps_zero s
  · exact fun s hcounted => keeps_of_counted (Nat.lt_of_lt_of_le Nat.two_pos h) hcounted

/-- A poll every `gap` ticks. -/
def everyTicks (divisor : U16) (start gap : ℕ) (hpos : 0 < divisor.toNat) (hgap : gap % divisor.toNat ≠ 0) :
    Schedule divisor where
  times n := start + n * gap
  mono _ _ h := Nat.add_le_add_left (Nat.mul_le_mul_right gap h) start
  sees n := by
    refine ⟨n + 1, n.lt_succ_self, ?_⟩
    rw [Nat.succ_mul, ← Nat.add_assoc]
    exact countAt_add_ne hpos hgap

/-- At 1 kHz, a delay of 100 microseconds that polls the counter every 120 ticks. -/
theorem delay_us_keeps_iff_khz :
    (¬∀ s : Schedule 1193, Keeps 100 s) ∧ Keeps 100 (everyTicks 1193 0 120 (by decide) (by decide)) := by
  obtain ⟨hall, hrun⟩ := @delay_us_keeps_iff 1193 (by decide) 100
  refine ⟨fun h => absurd (hall.mp h) (by decide), hrun _ ?_⟩
  intro n last hwaiting hlast hne
  match n with
  | 0 => exact absurd hlast (Option.some_ne_none _).symm
  | 1 =>
      have hlast' : some _ = some last := hlast
      cases hlast'
      exact ⟨120, by decide +kernel, by decide, by decide, .inl (by decide +kernel)⟩
  | n + 2 =>
      have hreturned : (pitDelayUs 100 (everyTicks 1193 0 120 (by decide) (by decide)).reading 2).targetUs = 0 := by
        decide +kernel
      exact absurd (returned_of_le hreturned (Nat.le_add_left 2 n)) hwaiting

/-- At 1 kHz, a delay of 100 microseconds that never sees more than one tick does not return; and one of 3532
microseconds returns after one tick, when the counter is reloaded at it. -/
theorem not_keeps_khz :
    (∀ p, ∃ io q, pitInit 1000 p = some (io, q) ∧ reload io = some 1193) ∧
    ¬Keeps 100 (eachRound 1193 (by decide)) ∧
    ¬Keeps 3532 (everyTicks 1193 1192 1 (by decide) (by decide)) := by
  refine ⟨fun p => ⟨_, _, rfl, by decide⟩, not_keeps_eachRound (by decide) (by decide), fun h => ?_⟩
  exact absurd (h.waits 2 (by decide +kernel)) (by decide)

end BloodKernel.Pit
