import BloodKernel.Kernel.Types
import BloodKernel.Lib.Countdown

set_option autoImplicit false

/-!
# Waiting for the PS/2 controller

`ps2_wait_input` and `ps2_wait_output` of `drivers/ps2_kbd.c`: both poll a bit of the status register until
it is set, at most 100000 times, and then compare their counter with zero. The counter is decremented once
more when the time is over, so that it is then far from zero; and it is zero after the last poll.

* `ps2Wait`: the loop, for any sequence of values of the status register.
* `wait_ne_zero_iff`: when a wait reports success.
* **`ps2Waits_iff`**: when each of the two reports what it should.
-/

namespace BloodKernel.Keyboard

open Lib

/-- `inb(PS2_CMD_PORT) & mask`, at the `k`-th poll. -/
def sees (mask : U8) (status : ℕ → U8) (k : ℕ) : Bool := status k &&& mask ≠ 0

/-- `timeout = 100000; while (timeout-- && !(inb(PS2_CMD_PORT) & mask)); return timeout > 0`, and how often
the status register has been read. -/
def ps2Wait (mask : U8) (status : ℕ → U8) : U8 × ℕ :=
  let r := countdown 32 (sees mask status) 0 100000
  (if 0 < r.1.toNat then 1 else 0, r.2)

def ps2WaitInput (status : ℕ → U8) : U8 × ℕ := ps2Wait 0x02 status

def ps2WaitOutput (status : ℕ → U8) : U8 × ℕ := ps2Wait 0x01 status

variable {mask : U8} {status : ℕ → U8}

theorem sees_eq_true {k : ℕ} : sees mask status k = true ↔ status k &&& mask ≠ 0 := decide_eq_true_iff

theorem sees_eq_false {k : ℕ} : sees mask status k = false ↔ status k &&& mask = 0 := by
  unfold sees
  rw [decide_eq_false_iff_not, not_not]

/-- The last of the 100000 polls is the first to see the bit set. -/
def LastPoll (mask : U8) (status : ℕ → U8) : Prop :=
  (∀ i < 99999, status i &&& mask = 0) ∧ status 99999 &&& mask ≠ 0

/-- **The result.** A wait reports success unless the bit is set at the last poll only. -/
theorem wait_ne_zero_iff : (ps2Wait mask status).1 ≠ 0 ↔ ¬LastPoll mask status := by
  have hzero : (countdown 32 (sees mask status) 0 (99999 + 1)).1.toNat = 0 ↔
      (∀ i < 99999, sees mask status i = false) ∧ sees mask status 99999 = true :=
    countdown_eq_zero_iff (by decide) (by decide)
  simp only [sees_eq_false, sees_eq_true] at hzero
  have hresult : (ps2Wait mask status).1 ≠ 0 ↔
      ¬(countdown 32 (sees mask status) 0 (99999 + 1)).1.toNat = 0 := by
    show (if 0 < (countdown 32 (sees mask status) 0 (99999 + 1)).1.toNat then (1 : U8) else 0) ≠ 0 ↔ _
    split_ifs with h
    · exact iff_of_true (by decide) h.ne'
    · exact iff_of_false (fun h₀ => h₀ rfl) fun h' => h (Nat.pos_of_ne_zero h')
  rw [hresult, hzero]
  rfl

theorem wait_polls_le : (ps2Wait mask status).2 ≤ 100000 := by
  show (countdown 32 (sees mask status) 0 100000).2 ≤ 100000
  exact polled_le

/-- `ps2_wait_output` reports success exactly when one of its polls finds the output buffer full. -/
def OutputWaits (status : ℕ → U8) : Prop :=
  (ps2WaitOutput status).1 ≠ 0 ↔ ∃ i < (ps2WaitOutput status).2, status i &&& 0x01 ≠ 0

/-- `ps2_wait_input` reports success exactly when one of its polls finds the input buffer empty. -/
def InputWaits (status : ℕ → U8) : Prop :=
  (ps2WaitInput status).1 ≠ 0 ↔ ∃ i < (ps2WaitInput status).2, status i &&& 0x02 = 0

theorem outputWaits_iff : OutputWaits status ↔ ∃ i < 99999, status i &&& 0x01 ≠ 0 := by
  have hpolled : (∃ i < (ps2WaitOutput status).2, status i &&& 0x01 ≠ 0) ↔
      ∃ i < 99999 + 1, status i &&& 0x01 ≠ 0 := by
    have h : (∃ i < (countdown 32 (sees 0x01 status) 0 (99999 + 1)).2, sees 0x01 status i = true) ↔
        ∃ i < 99999 + 1, sees 0x01 status i = true := exists_polled_iff
    simp only [sees_eq_true] at h
    exact h
  unfold OutputWaits
  rw [hpolled]
  show ((ps2Wait 0x01 status).1 ≠ 0 ↔ _) ↔ _
  rw [wait_ne_zero_iff]
  constructor
  · intro h
    by_contra hnone
    have hclear : ∀ i < 99999, status i &&& 0x01 = 0 := fun i hi =>
      not_not.mp fun hset => hnone ⟨i, hi, hset⟩
    -- the bit is not set before the last poll: set there it fails, and clear there it succeeds
    by_cases hlast : status 99999 &&& 0x01 = 0
    · obtain ⟨i, hi, hset⟩ := h.mp fun hl => hl.2 hlast
      rcases Nat.lt_succ_iff_lt_or_eq.mp hi with hi | rfl
      · exact hset (hclear i hi)
      · exact hset hlast
    · exact h.mpr ⟨99999, Nat.lt_succ_self _, hlast⟩ ⟨hclear, hlast⟩
  · rintro ⟨i, hi, hset⟩
    exact iff_of_true (fun hl => hset (hl.1 i hi)) ⟨i, hi.trans (Nat.lt_succ_self _), hset⟩

theorem inputWaits_iff : InputWaits status ↔ status 0 &&& 0x02 = 0 ∧ ¬LastPoll 0x02 status := by
  have hpolled : (∃ i < (ps2WaitInput status).2, status i &&& 0x02 = 0) ↔ status 0 &&& 0x02 = 0 := by
    have h : (∃ i < (countdown 32 (sees 0x02 status) 0 (99999 + 1)).2, sees 0x02 status i = false) ↔
        sees 0x02 status 0 = false := exists_polled_not_iff
    simp only [sees_eq_false] at h
    exact h
  unfold InputWaits
  rw [hpolled]
  show ((ps2Wait 0x02 status).1 ≠ 0 ↔ _) ↔ _
  rw [wait_ne_zero_iff]
  constructor
  · intro h
    -- a bit that is set at once ends the loop with success
    have hfirst : status 0 &&& 0x02 = 0 := by
      by_contra hset
      exact hset (h.mp fun hl => hset (hl.1 0 (by decide)))
    exact ⟨hfirst, h.mpr hfirst⟩
  · rintro ⟨hfirst, hlast⟩
    exact iff_of_true hlast hfirst

/-- **Exactness.** `ps2_wait_output` is right exactly when one of the polls before the last finds the bit
set. `ps2_wait_input` waits for the wrong value of its bit: it is right exactly when the first poll finds
the bit clear, and it is not set at the last poll only. -/
theorem ps2Waits_iff (status : ℕ → U8) :
    (OutputWaits status ↔ ∃ i < 99999, status i &&& 0x01 ≠ 0) ∧
      (InputWaits status ↔ status 0 &&& 0x02 = 0 ∧ ¬LastPoll 0x02 status) :=
  ⟨outputWaits_iff, inputWaits_iff⟩

/-- A controller that never has a byte: after 100000 polls the wait reports one. A controller that is
always busy: the wait reports at once that it takes a byte. -/
theorem not_waits_stuck :
    (ps2WaitOutput fun _ => 0x00).1 ≠ 0 ∧ ¬OutputWaits (fun _ => 0x00) ∧
      (ps2WaitInput fun _ => 0x02).1 ≠ 0 ∧ ¬InputWaits fun _ => 0x02 := by
  refine ⟨?_, ?_, ?_, ?_⟩
  · exact wait_ne_zero_iff.mpr fun h => h.2 (by decide)
  · rw [outputWaits_iff]
    rintro ⟨i, -, hset⟩
    exact hset (by decide)
  · exact wait_ne_zero_iff.mpr fun h => absurd (h.1 0 (by decide)) (by decide)
  · rw [inputWaits_iff]
    exact fun h => absurd h.1 (by decide)

end BloodKernel.Keyboard
