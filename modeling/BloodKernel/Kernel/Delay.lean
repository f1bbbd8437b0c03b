import BloodKernel.Kernel.Types
import BloodKernel.Lib.Deadline

set_option autoImplicit false

/-!
# The delays of `kernel/timer.c` and `drivers/pit.c`

Both add the ticks to wait for to the tick counter, in 32 bits, and read the counter until it is not below
the sum. The interrupt handlers advance it between the reads.

* `timerDelay`: the ARM SysTick, a tick each millisecond;
* `pitInit`, `pitDelay`: the x86 PIT, at the frequency that was programmed;
* **`delays_iff`**: when they wait for all the ticks.
-/

namespace BloodKernel

open Lib

/-! ### SysTick -/

/-- `system_ticks`, and whether PendSV has been requested. -/
structure SysTick where
  systemTicks : U32
  pendSv : Bool

/-- `SysTick_Handler`. -/
def sysTickHandler (s : SysTick) : SysTick :=
  let ticks := s.systemTicks + 1
  ⟨ticks, if ticks % 100 = 0 then true else s.pendSv⟩

def timerTicks (s : SysTick) : U32 := s.systemTicks

def sysTickCounter : Counter SysTick 32 := ⟨sysTickHandler, timerTicks, fun _ => rfl⟩

/-- `timer_delay`; `gaps` are the interrupts before each read of the loop. -/
def timerDelay (ms : U32) (gaps : List ℕ) (s : SysTick) : Option (ℕ × SysTick) :=
  sysTickCounter.waitUntil (timerTicks s + ms) gaps s

/-! ### PIT -/

structure Pit where
  pitTicks : U32
  pitFrequency : U32

def pitIrqHandler (p : Pit) : Pit := { p with pitTicks := p.pitTicks + 1 }

def pitCounter : Counter Pit 32 := ⟨pitIrqHandler, Pit.pitTicks, fun _ => rfl⟩

/-- `pit_init`, with the bytes that it writes to ports; `none` is the fault of the division by zero. -/
def pitInit (frequency : U32) (p : Pit) : Option (List (U16 × U8) × Pit) :=
  if frequency = 0 then none
  else
    let divisor : U16 := (1193182 / frequency).setWidth 16
    some ([(0x43, 0x34), (0x40, (divisor &&& 0xFF).setWidth 8),
      (0x40, ((divisor >>> 8) &&& 0xFF).setWidth 8)], { p with pitFrequency := frequency })

/-- `pit_delay`; `gaps` are the interrupts before each read of the loop. -/
def pitDelay (ms : U32) (gaps : List ℕ) (p : Pit) : Option (ℕ × Pit) :=
  pitCounter.waitUntil (p.pitTicks + ms * p.pitFrequency / 1000) gaps p

/-- The ticks that make up `ms` milliseconds. -/
def Pit.requested (p : Pit) (ms : U32) : ℕ := ms.toNat * p.pitFrequency.toNat / 1000

theorem pitFrequency_iterate {frequency : U32} {p q : Pit} {io : List (U16 × U8)}
    (h : pitInit frequency p = some (io, q)) (n : ℕ) :
    (pitIrqHandler^[n] q).pitFrequency = frequency := by
  unfold pitInit at h
  split_ifs at h
  cases h
  induction n with
  | zero => rfl
  | succ n ih => rw [Function.iterate_succ_apply']; exact ih

theorem toNat_delay (p : Pit) (ms : U32) :
    (ms * p.pitFrequency / 1000).toNat = ms.toNat * p.pitFrequency.toNat % 2 ^ 32 / 1000 := by
  rw [BitVec.toNat_udiv, BitVec.toNat_mul]
  rfl

/-- **When the delays are long enough.** For all schedules of the interrupts: `timer_delay` returns only after
`ms` ticks exactly when its deadline does not wrap, and `pit_delay` only after `ms * frequency / 1000` ticks
exactly when neither its product nor its deadline does. -/
theorem delays_iff (s : SysTick) (p : Pit) (ms : U32) :
    ((∀ gaps k s', timerDelay ms gaps s = some (k, s') → ms.toNat ≤ k) ↔
      s.systemTicks.toNat + ms.toNat < 2 ^ 32) ∧
    ((∀ gaps k p', pitDelay ms gaps p = some (k, p') → p.requested ms ≤ k) ↔
      ms.toNat * p.pitFrequency.toNat < 2 ^ 32 ∧ p.pitTicks.toNat + p.requested ms < 2 ^ 32) := by
  constructor
  · exact (Counter.waits_iff le_rfl).trans (and_iff_left rfl)
  · have hdelay := toNat_delay p ms
    unfold Pit.requested
    generalize ms.toNat * p.pitFrequency.toNat = product at hdelay ⊢
    have hle : (ms * p.pitFrequency / 1000).toNat ≤ product / 1000 := by
      rw [hdelay]
      exact Nat.div_le_div_right (Nat.mod_le _ _)
    refine (Counter.waits_iff hle).trans ?_
    rw [hdelay]
    show p.pitTicks.toNat + product % 2 ^ 32 / 1000 < 2 ^ 32 ∧ product % 2 ^ 32 / 1000 = product / 1000 ↔ _
    omega

/-- A delay of one millisecond in the last millisecond before the counter wraps returns at once. -/
theorem delays_not_long_enough : ¬ ∀ (s : SysTick) (ms : U32) (gaps : List ℕ) (k : ℕ) (s' : SysTick),
    timerDelay ms gaps s = some (k, s') → ms.toNat ≤ k := fun h =>
  absurd (h ⟨0xFFFFFFFF, false⟩ 1 [0] 0 ⟨0xFFFFFFFF, false⟩ rfl) (by decide)

end BloodKernel
