import BloodKernel.Kernel.Types
import BloodKernel.Lib.Run

set_option autoImplicit false

/-!
# The microsecond counter

`timer_us` of `arch/rp2040/timer_hw.c` puts the 64-bit time together from two registers. A read of `TIMELR`
latches the high word, and a read of `TIMEHR` returns the word that was latched; `timer_us` reads `TIMEHR` first.

* `Timer`: the counter and the latch; `timerUs`: a call, with the time that passes before and within it.
* **`in_time_iff`**: over any run of calls the results do not decrease and lie within their calls exactly when
  at every call the latched word makes up for the time that has passed since.
-/

namespace BloodKernel.TimerHw

open Lib

abbrev U64 := BitVec 64

/-- The microseconds since the reset, of which the registers show the low 64 bits, and the latched high word. -/
structure Timer where
  counter : ℕ
  latched : U32

/-- Time passes. -/
def Timer.advance (t : Timer) (us : ℕ) : Timer := { t with counter := t.counter + us }

/-- The high word of the counter. -/
def Timer.high (t : Timer) : ℕ := t.counter / 2 ^ 32

def readTimehr (t : Timer) : U32 := t.latched

/-- The low word. The high word is latched. -/
def readTimelr (t : Timer) : U32 × Timer :=
  (BitVec.ofNat 32 t.counter, { t with latched := BitVec.ofNat 32 t.high })

/-- How far the counter advances before a call, and within the call: before the read of `TIMEHR`, between the two
reads, and after the read of `TIMELR`. -/
structure Pace where
  idle : ℕ
  enter : ℕ
  between : ℕ
  leave : ℕ

/-- A call: the counter at its start, the result, and the counter at its end. -/
structure Call where
  start : ℕ
  result : U64
  finish : ℕ

/-- `((u64)hi << 32) | lo`. -/
def join (hi lo : U32) : U64 := hi.setWidth 64 <<< 32 ||| lo.setWidth 64

def timerUs (t : Timer) (p : Pace) : U64 × Timer :=
  let t := t.advance p.enter
  let hi := readTimehr t
  let (lo, t) := readTimelr (t.advance p.between)
  (join hi lo, t.advance p.leave)

def step (t : Timer) (p : Pace) : Call × Timer :=
  let t := t.advance p.idle
  let (us, t') := timerUs t p
  (⟨t.counter, us, t'.counter⟩, t')

/-! ## Right results -/

/-- The result is a time at which the call was running. -/
def Call.Within (c : Call) : Prop := c.start ≤ c.result.toNat ∧ c.result.toNat ≤ c.finish

/-- Every result lies within its call, and they do not decrease. -/
def InTime (es : List (Pace × Call)) : Prop :=
  (∀ e ∈ es, e.2.Within) ∧ es.Pairwise fun e f => e.2.result.toNat ≤ f.2.result.toNat

/-- When a call reads `TIMELR`. -/
def Timer.atLow (t : Timer) (p : Pace) : Timer := t.advance (p.idle + p.enter + p.between)

/-- The latched word is the high word at the read of `TIMELR`, but for what the call takes before this read, if it
is behind, or after it, if it is ahead. -/
def Timer.Current (t : Timer) (e : Pace × Call) : Prop :=
  (t.atLow e.1).high * 2 ^ 32 ≤ t.latched.toNat * 2 ^ 32 + (e.1.enter + e.1.between) ∧
    t.latched.toNat * 2 ^ 32 ≤ (t.atLow e.1).high * 2 ^ 32 + e.1.leave

theorem toNat_join (hi lo : U32) : (join hi lo).toNat = hi.toNat * 2 ^ 32 + lo.toNat := by
  have hhi := hi.isLt
  have hlo := lo.isLt
  have hshift : (hi.setWidth 64 <<< 32).toNat = 2 ^ 32 * hi.toNat := by
    rw [BitVec.toNat_shiftLeft, BitVec.toNat_setWidth, Nat.shiftLeft_eq]
    omega
  rw [join, BitVec.toNat_or, hshift, BitVec.toNat_setWidth, Nat.mod_eq_of_lt (by omega),
    ← Nat.two_pow_add_eq_or_of_lt hlo, Nat.mul_comm]

variable {t u : Timer} {p : Pace} {es : List (Pace × Call)}

/-- A call, as it computes: the latched high word with the low word of the counter. -/
theorem toNat_result (t : Timer) (p : Pace) :
    (step t p).1.result.toNat = t.latched.toNat * 2 ^ 32 + (t.atLow p).counter % 2 ^ 32 := by
  have hlow : (step t p).1.result = join t.latched (BitVec.ofNat 32 (t.atLow p).counter) := by
    simp only [step, timerUs, readTimehr, readTimelr, Timer.atLow, Timer.advance, Nat.add_assoc]
  rw [hlow, toNat_join, BitVec.toNat_ofNat]

theorem start_eq (t : Timer) (p : Pace) : (step t p).1.start = t.counter + p.idle := rfl

theorem finish_eq (t : Timer) (p : Pace) : (step t p).1.finish = (t.atLow p).counter + p.leave := by
  simp only [step, timerUs, readTimelr, Timer.atLow, Timer.advance, Nat.add_assoc]

theorem counter_step (t : Timer) (p : Pace) : (step t p).2.counter = (step t p).1.finish := rfl

/-- **One call**: its result lies within it exactly when the latched word is current. -/
theorem within_iff (t : Timer) (p : Pace) : (step t p).1.Within ↔ t.Current (p, (step t p).1) := by
  have hsplit := Nat.div_add_mod (t.atLow p).counter (2 ^ 32)
  have hlow : (t.atLow p).counter = t.counter + (p.idle + p.enter + p.between) := rfl
  unfold Call.Within Timer.Current Timer.high
  rw [toNat_result, start_eq, finish_eq]
  dsimp only
  omega

/-! ## Runs -/

/-- The results of calls within which they lie come after the start of the run. -/
theorem counter_le_result (h : Run (total step) t es u) (hw : ∀ e ∈ es, e.2.Within) :
    ∀ e ∈ es, t.counter ≤ e.2.result.toNat := by
  induction h with
  | nil => exact fun e he => absurd he List.not_mem_nil
  | @cons t t' u p c es hstep hrun ih =>
      have he : step t p = (c, t') := total_eq_some.mp hstep
      have hstart : c.start = t.counter + p.idle := by rw [← start_eq t p, he]
      have hcount : t'.counter = c.finish := by
        have hcs := counter_step t p
        rwa [he] at hcs
      have hc : c.Within := hw (p, c) List.mem_cons_self
      intro e hmem
      rcases List.mem_cons.mp hmem with rfl | hmem
      · exact (hstart ▸ Nat.le_add_right _ _ : t.counter ≤ c.start).trans hc.1
      · have hrest := ih (fun e he => hw e (List.mem_cons_of_mem _ he)) e hmem
        have hbound : c.start ≤ c.finish := hc.1.trans hc.2
        omega

/-- Results within their calls do not decrease. -/
theorem sorted_of_within (h : Run (total step) t es u) (hw : ∀ e ∈ es, e.2.Within) :
    es.Pairwise fun e f => e.2.result.toNat ≤ f.2.result.toNat := by
  induction h with
  | nil => exact .nil
  | @cons t t' u p c es hstep hrun ih =>
      have he : step t p = (c, t') := total_eq_some.mp hstep
      have hcount : t'.counter = c.finish := by
        have hcs := counter_step t p
        rwa [he] at hcs
      have hrest : ∀ e ∈ es, e.2.Within := fun e he => hw e (List.mem_cons_of_mem _ he)
      have hc : c.Within := hw (p, c) List.mem_cons_self
      refine .cons (fun e hmem => ?_) (ih hrest)
      have hle := counter_le_result hrun hrest e hmem
      exact hc.2.trans (hcount ▸ hle)

theorem forall_within_iff (h : Run (total step) t es u) :
    (∀ e ∈ es, e.2.Within) ↔ Along (total step) Timer.Current t es := by
  induction h with
  | nil t => exact iff_of_true (fun e he => absurd he List.not_mem_nil) (along_nil _ t)
  | @cons t t' u p c es hstep _ ih =>
      have he : step t p = (c, t') := total_eq_some.mp hstep
      have hone : c.Within ↔ t.Current (p, c) := by
        have hwithin := within_iff t p
        rwa [he] at hwithin
      rw [along_cons hstep, List.forall_mem_cons, ih, hone]

/-- **Right results along runs.** -/
theorem in_time_iff (h : Run (total step) t es u) :
    InTime es ↔ Along (total step) Timer.Current t es := by
  rw [← forall_within_iff h]
  exact ⟨And.left, fun hw => ⟨hw, sorted_of_within h hw⟩⟩

/-- Two calls of ten microseconds, with a hundred between them, after a carry that an earlier call has latched. -/
theorem in_time_latched : InTime [(⟨0, 5, 1, 4⟩, ⟨0x100000010, 0x100000016, 0x10000001A⟩),
    (⟨100, 5, 1, 4⟩, ⟨0x10000007E, 0x100000084, 0x100000088⟩)] := by
  have hrun : Run (total step) ⟨0x100000010, 1⟩ [(⟨0, 5, 1, 4⟩, ⟨0x100000010, 0x100000016, 0x10000001A⟩),
      (⟨100, 5, 1, 4⟩, ⟨0x10000007E, 0x100000084, 0x100000088⟩)] ⟨0x100000088, 1⟩ := .cons rfl (.cons rfl (.nil _))
  have hsecond : total step ⟨0x10000001A, 1⟩ ⟨100, 5, 1, 4⟩ =
      some (⟨0x10000007E, 0x100000084, 0x100000088⟩, ⟨0x100000088, 1⟩) := rfl
  exact (in_time_iff hrun).mpr ((along_cons rfl).mpr ⟨⟨by decide, by decide⟩, (along_cons hsecond).mpr
    ⟨⟨by decide, by decide⟩, along_nil _ _⟩⟩)

/-- Two calls, the second one after a carry: 16 after 4294967280. -/
theorem not_in_time :
    Run (total step) ⟨0xFFFFFFF0, 0⟩ [(⟨0, 0, 0, 0⟩, ⟨0xFFFFFFF0, 0xFFFFFFF0, 0xFFFFFFF0⟩),
      (⟨0x20, 0, 0, 0⟩, ⟨0x100000010, 0x10, 0x100000010⟩)] ⟨0x100000010, 1⟩ ∧
    ¬InTime [(⟨0, 0, 0, 0⟩, ⟨0xFFFFFFF0, 0xFFFFFFF0, 0xFFFFFFF0⟩),
      (⟨0x20, 0, 0, 0⟩, ⟨0x100000010, 0x10, 0x100000010⟩)] := by
  have hfirst : total step ⟨0xFFFFFFF0, 0⟩ ⟨0, 0, 0, 0⟩ =
      some (⟨0xFFFFFFF0, 0xFFFFFFF0, 0xFFFFFFF0⟩, ⟨0xFFFFFFF0, 0⟩) := rfl
  refine ⟨.cons hfirst (.cons rfl (.nil _)), fun h => ?_⟩
  have hlast := h.1 _ (List.mem_cons_of_mem _ List.mem_cons_self)
  exact absurd hlast.1 (by decide)

end BloodKernel.TimerHw
