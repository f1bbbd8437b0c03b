import BloodKernel.Kernel.Types
import BloodKernel.Lib.Run
import BloodKernel.Lib.Tally

set_option autoImplicit false

/-!
# The barrier

`timing_sync_barrier_init` and `timing_sync_barrier_wait` of `src/drivers/timing_sync.c`, on as many CPUs
as the barrier is set up for; every access to the barrier is one step of one CPU.

* `Pc`, `next`: where a CPU is in its wait, and its next access;
* `Safe`: no CPU leaves a wait before all have entered it, and the CPUs do not all spin;
* `Resets`: a CPU that clears the counter finds no arrivals of the next round in it;
* `Inv`, `Inv.next`: what a step preserves; **`safe_of_resets`**: the barrier is safe throughout a run
  in which no CPU clears arrivals of the next round.
-/

namespace BloodKernel.Barrier

open Lib

/-- Where a CPU is: outside, or before an access of its wait. -/
inductive Pc
  /-- Outside; the next call reads `sense`. -/
  | out
  /-- Before the increment of `count`. -/
  | inc
  /-- Before the read of `count`. -/
  | load
  /-- `count` was `v`; before the read of `total_cpus`. -/
  | test (v : U32)
  /-- Before the store of 0 to `count`. -/
  | reset
  /-- Before the store to `sense`. -/
  | flip
  /-- Before a read of `sense` in the loop. -/
  | spin
  deriving DecidableEq

/-- A CPU: its place, its `local_sense`, and how many waits it has entered and left. -/
structure Cpu where
  pc : Pc
  localSense : U32
  entered : ℕ
  left : ℕ

/-- The barrier and the CPUs. -/
structure State (n : ℕ) where
  count : U32
  sense : U32
  totalCpus : U32
  cpu : Fin n → Cpu

/-- After `timing_sync_barrier_init`. -/
def barrierInit (numCpus : U32) : State numCpus.toNat := ⟨0, 0, numCpus, fun _ => ⟨.out, 0, 0, 0⟩⟩

variable {n : ℕ}

def State.setCpu (s : State n) (i : Fin n) (c : Cpu) : State n :=
  { s with cpu := Function.update s.cpu i c }

def State.setCount (s : State n) (v : U32) : State n := { s with count := v }

def State.setSense (s : State n) (v : U32) : State n := { s with sense := v }

def Cpu.goto (c : Cpu) (p : Pc) : Cpu := { c with pc := p }

/-- The call has read `sense`. -/
def Cpu.enter (c : Cpu) (sense : U32) : Cpu :=
  { c with pc := .inc, localSense := sense, entered := c.entered + 1 }

def Cpu.leave (c : Cpu) : Cpu := { c with pc := .out, left := c.left + 1 }

/-- The access of CPU `i` at the place `p`. -/
def access (s : State n) (i : Fin n) (p : Pc) : State n :=
  let c := s.cpu i
  match p with
  | .out => s.setCpu i (c.enter s.sense)
  | .inc => (s.setCpu i (c.goto .load)).setCount (s.count + 1)
  | .load => s.setCpu i (c.goto (.test s.count))
  | .test v => s.setCpu i (c.goto (if v = s.totalCpus then .reset else .spin))
  | .reset => (s.setCpu i (c.goto .flip)).setCount 0
  | .flip => (s.setCpu i c.leave).setSense (if c.localSense = 0 then 1 else 0)
  | .spin => if s.sense = c.localSense then s else s.setCpu i c.leave

/-- The next access of CPU `i`. -/
def next (s : State n) (i : Fin n) : State n := access s i (s.cpu i).pc

def step (s : State n) (i : Fin n) : Unit × State n := ((), next s i)

abbrev Event (n : ℕ) := Fin n × Unit

/-- All CPUs are in the loop, and none can leave it. -/
def AllSpin (s : State n) : Prop :=
  0 < n ∧ ∀ i, (s.cpu i).pc = .spin ∧ s.sense = (s.cpu i).localSense

/-- No CPU has left a wait that another has not entered, and the CPUs do not all spin. -/
def Safe (s : State n) : Prop := (∀ i j, (s.cpu i).left ≤ (s.cpu j).entered) ∧ ¬ AllSpin s

/-- A CPU that stores 0 to `count` finds it to be 0 or `total_cpus`. -/
def Resets (s : State n) (e : Event n) : Prop :=
  (s.cpu e.1).pc = .reset → s.count = 0 ∨ s.count = s.totalCpus

/-! ### The invariant -/

/-- The value of `sense` after `g` rounds. -/
def parity (g : ℕ) : U32 := BitVec.ofNat 32 (g % 2)

/-- The CPU has counted itself in a wait. -/
def Pc.Counted : Pc → Prop
  | .out => False
  | .inc => False
  | _ => True

instance decidableCounted (p : Pc) : Decidable p.Counted :=
  match p with
  | .out | .inc => isFalse id
  | .load | .test _ | .reset | .flip | .spin => isTrue trivial

/-- The CPU has counted itself in round `g`. -/
def Arrived (g : ℕ) (c : Cpu) : Prop := c.left = g ∧ c.pc.Counted

instance decidableArrived (g : ℕ) (c : Cpu) : Decidable (Arrived g c) :=
  inferInstanceAs (Decidable (_ ∧ _))

/-- How many CPUs have counted themselves in round `g`. -/
def arrivals (g : ℕ) (s : State n) : ℕ := tally (Arrived g) s.cpu

/-- What holds of a CPU while round `g` goes on: it has left all earlier rounds, or it has still to
leave the last of them; and only a full round is closed. -/
structure CpuInv (g : ℕ) (s : State n) (c : Cpu) : Prop where
  left : c.left = g ∨ (c.left + 1 = g ∧ c.pc.Counted)
  entered : c.entered = if c.pc = .out then c.left else c.left + 1
  localSense : c.pc ≠ .out → c.localSense = parity c.left
  last : c.left = g → (c.pc = .test s.totalCpus ∨ c.pc = .reset) → arrivals g s = n
  flip : c.left = g → c.pc = .flip → arrivals g s = n ∧ s.count = 0

/-- The CPU will close the full round `g`. -/
def Closes (g : ℕ) (s : State n) (c : Cpu) : Prop := c.left = g ∧
  ((s.count = s.totalCpus ∧ (c.pc = .load ∨ c.pc = .test s.totalCpus ∨ c.pc = .reset)) ∨
    (s.count = 0 ∧ c.pc = .flip))

/-- What holds of the barrier while round `g` goes on. -/
structure Inv (g : ℕ) (s : State n) : Prop where
  total : s.totalCpus.toNat = n
  sense : s.sense = parity g
  cpu : ∀ i, CpuInv g s (s.cpu i)
  count : s.count = BitVec.ofNat 32 (arrivals g s) ∨ (s.count = 0 ∧ arrivals g s = n)
  closing : 0 < n → arrivals g s = n → ∃ i, Closes g s (s.cpu i)

variable {g : ℕ} {s s' : State n} {i j : Fin n} {c c' : Cpu}

@[simp] theorem setCpu_self (s : State n) (i : Fin n) (c : Cpu) : (s.setCpu i c).cpu i = c := by
  show Function.update s.cpu i c i = c
  rw [Function.update_self]

theorem setCpu_of_ne (s : State n) (c : Cpu) (h : j ≠ i) : (s.setCpu i c).cpu j = s.cpu j := by
  show Function.update s.cpu i c j = s.cpu j
  rw [Function.update_of_ne h]

/-- What holds of the CPU that changes, and of all CPUs before, holds of all CPUs. -/
theorem forall_setCpu {P : Cpu → Prop} (hi : P c) (h : ∀ j, j ≠ i → P (s.cpu j)) (j : Fin n) :
    P ((s.setCpu i c).cpu j) := by
  by_cases hj : j = i
  · rw [hj, setCpu_self]
    exact hi
  · rw [setCpu_of_ne s _ hj]
    exact h j hj

theorem parity_succ (g : ℕ) : (if parity g = 0 then 1 else 0) = parity (g + 1) := by
  unfold parity
  rcases Nat.mod_two_eq_zero_or_one g with h | h
  · rw [h, Nat.add_mod, h]
    rfl
  · rw [h, Nat.add_mod, h]
    rfl

theorem parity_ne (g : ℕ) : parity (g + 1) ≠ parity g := by
  rw [← parity_succ]
  split_ifs with h
  · rw [h]
    decide
  · exact Ne.symm h

theorem arrivals_le : arrivals g s ≤ n := tally_le

theorem arrivals_eq_iff : arrivals g s = n ↔ ∀ j, Arrived g (s.cpu j) := tally_eq_iff

theorem arrivals_ne (h : ¬ Arrived g (s.cpu i)) : arrivals g s ≠ n := fun he => h (arrivals_eq_iff.mp he i)

theorem arrivals_setCpu (h : Arrived g c ↔ Arrived g (s.cpu i)) :
    arrivals g (s.setCpu i c) = arrivals g s := tally_update h

theorem Inv.toNat_count (h : Inv g s) (hne : arrivals g s ≠ n) : s.count.toNat = arrivals g s := by
  have hcount := h.count.resolve_right fun hc => hne hc.2
  have hle : arrivals g s ≤ n := arrivals_le
  have hlt := s.totalCpus.isLt
  have htotal := h.total
  rw [hcount, BitVec.toNat_ofNat, Nat.mod_eq_of_lt (by omega)]

/-- Only a full round has `count` at `total_cpus`. -/
theorem Inv.full (h : Inv g s) (hc : s.count = s.totalCpus) : arrivals g s = n := by
  by_contra hne
  have hcount := h.toNat_count hne
  rw [hc, h.total] at hcount
  exact hne hcount.symm

theorem CpuInv.congr (h : CpuInv g s c) (ht : s'.totalCpus = s.totalCpus)
    (ha : arrivals g s = n → arrivals g s' = n ∧ (s.count = 0 → s'.count = 0)) : CpuInv g s' c where
  left := h.left
  entered := h.entered
  localSense := h.localSense
  last hl hp := (ha (h.last hl (ht ▸ hp))).1
  flip hl hp := ⟨(ha (h.flip hl hp).1).1, (ha (h.flip hl hp).1).2 (h.flip hl hp).2⟩

/-- A CPU that is outside or counts itself is not about to close a round. -/
theorem CpuInv.of_quiet (hleft : c.left = g ∨ (c.left + 1 = g ∧ c.pc.Counted))
    (hentered : c.entered = if c.pc = .out then c.left else c.left + 1)
    (hsense : c.pc ≠ .out → c.localSense = parity c.left)
    (hquiet : c.pc = .out ∨ c.pc = .inc ∨ c.pc = .load) : CpuInv g s c where
  left := hleft
  entered := hentered
  localSense := hsense
  last _ hp := by
    rcases hquiet with hq | hq | hq <;> rw [hq] at hp <;> rcases hp with hp | hp <;> cases hp
  flip _ hp := by
    rcases hquiet with hq | hq | hq <;> rw [hq] at hp <;> cases hp

theorem Inv.setCpu (h : Inv g s) (harr : Arrived g c ↔ Arrived g (s.cpu i)) (hc : CpuInv g s c)
    (hclose : arrivals g s = n → Closes g s (s.cpu i) → Closes g s c) : Inv g (s.setCpu i c) where
  total := h.total
  sense := h.sense
  cpu j := by
    have hsame : ∀ c', CpuInv g s c' → CpuInv g (s.setCpu i c) c' := fun c' h' =>
      h'.congr rfl fun ha => ⟨(arrivals_setCpu harr).trans ha, id⟩
    exact forall_setCpu (hsame c hc) (fun j _ => hsame _ (h.cpu j)) j
  count := by
    rw [arrivals_setCpu harr]
    exact h.count
  closing hn ha := by
    rw [arrivals_setCpu harr] at ha
    obtain ⟨j, hj⟩ := h.closing hn ha
    refine ⟨j, ?_⟩
    by_cases he : j = i
    · rw [he, setCpu_self]
      exact hclose ha (he ▸ hj)
    · rw [setCpu_of_ne s _ he]
      exact hj

/-- The counter of a round that is not full changes with its arrivals. -/
theorem Inv.setCount (h : Inv g s) (hne : arrivals g s ≠ n) {v : U32}
    (hc : CpuInv g ((s.setCpu i c).setCount v) c)
    (hv : v = BitVec.ofNat 32 (arrivals g (s.setCpu i c)))
    (hclose : arrivals g (s.setCpu i c) = n → Closes g ((s.setCpu i c).setCount v) c) :
    Inv g ((s.setCpu i c).setCount v) where
  total := h.total
  sense := h.sense
  cpu := forall_setCpu hc fun j _ => (h.cpu j).congr rfl fun ha => absurd ha hne
  count := .inl hv
  closing _ ha := ⟨i, by
    show Closes g _ ((s.setCpu i c).cpu i)
    rw [setCpu_self]
    exact hclose ha⟩

/-! ### The steps -/

theorem CpuInv.left_eq (h : CpuInv g s c) (hp : ¬ c.pc.Counted) : c.left = g :=
  h.left.resolve_right fun hl => hp hl.2

theorem CpuInv.entered_eq (h : CpuInv g s c) (hp : c.pc ≠ .out) : c.entered = c.left + 1 :=
  h.entered.trans (if_neg hp)

theorem Inv.enter (h : Inv g s) (hp : (s.cpu i).pc = .out) :
    Inv g (s.setCpu i ((s.cpu i).enter s.sense)) := by
  have hcounted : ¬ (s.cpu i).pc.Counted := by
    rw [hp]
    exact id
  have hleft := (h.cpu i).left_eq hcounted
  have hentered : (s.cpu i).entered = (s.cpu i).left := (h.cpu i).entered.trans (if_pos hp)
  refine h.setCpu (iff_of_false (fun ha => ha.2) fun ha => hcounted ha.2) ?_ fun ha _ => ?_
  · refine .of_quiet (.inl hleft) (congrArg (· + 1) hentered) (fun _ => ?_) (.inr (.inl rfl))
    show s.sense = parity (s.cpu i).left
    rw [h.sense, hleft]
  · exact absurd ha (arrivals_ne fun hi => hcounted hi.2)

theorem Inv.increment (h : Inv g s) (hp : (s.cpu i).pc = .inc) :
    Inv g ((s.setCpu i ((s.cpu i).goto .load)).setCount (s.count + 1)) := by
  have hcounted : ¬ (s.cpu i).pc.Counted := by
    rw [hp]
    exact id
  have hout : (s.cpu i).pc ≠ .out := fun he => by rw [hp] at he; cases he
  have hleft := (h.cpu i).left_eq hcounted
  have hne : arrivals g s ≠ n := arrivals_ne fun hi => hcounted hi.2
  have harr : arrivals g (s.setCpu i ((s.cpu i).goto .load)) = arrivals g s + 1 :=
    tally_update_new (fun hi => hcounted hi.2) ⟨hleft, trivial⟩
  have hcount : s.count + 1 = BitVec.ofNat 32 (arrivals g s + 1) := by
    rw [h.count.resolve_right fun hc => hne hc.2]
    exact (BitVec.ofNat_add _ 1).symm
  refine h.setCount hne ?_ (harr ▸ hcount) fun hfull => ?_
  · exact .of_quiet (.inl hleft) ((h.cpu i).entered_eq hout) (fun _ => (h.cpu i).localSense hout)
      (.inr (.inr rfl))
  · -- the CPU that fills the round will close it
    refine ⟨hleft, .inl ⟨?_, .inl rfl⟩⟩
    apply BitVec.eq_of_toNat_eq
    have htotal := h.total
    have hlt := s.totalCpus.isLt
    show (s.count + 1).toNat = s.totalCpus.toNat
    rw [hcount, ← harr, hfull, BitVec.toNat_ofNat, htotal, Nat.mod_eq_of_lt (by omega)]

/-- A CPU goes on within its wait, without a store. -/
theorem Inv.goto (h : Inv g s) {p : Pc} (hold : (s.cpu i).pc.Counted) (hnew : p.Counted)
    (hlast : (s.cpu i).left = g → p = .test s.totalCpus ∨ p = .reset → arrivals g s = n)
    (hflip : p ≠ .flip)
    (hclose : arrivals g s = n → Closes g s (s.cpu i) → Closes g s ((s.cpu i).goto p)) :
    Inv g (s.setCpu i ((s.cpu i).goto p)) := by
  have hout : (s.cpu i).pc ≠ .out := fun he => by rw [he] at hold; exact hold
  have hout' : p ≠ .out := fun he => by rw [he] at hnew; exact hnew
  refine h.setCpu (and_congr_right fun _ => iff_of_true hnew hold) ?_ hclose
  refine ⟨(h.cpu i).left.imp_right fun hl => ⟨hl.1, hnew⟩, ?_, fun _ => (h.cpu i).localSense hout,
    hlast, fun _ hl => absurd hl hflip⟩
  exact ((h.cpu i).entered_eq hout).trans (if_neg hout').symm

theorem Inv.load (h : Inv g s) (hp : (s.cpu i).pc = .load) :
    Inv g (s.setCpu i ((s.cpu i).goto (.test s.count))) := by
  refine h.goto (by rw [hp]; trivial) trivial (fun _ hl => ?_) (fun he => by cases he) fun _ hc => ?_
  · rcases hl with hl | hl
    · exact h.full (Pc.test.inj hl)
    · cases hl
  · obtain ⟨hleft, ⟨hcount, -⟩ | ⟨-, hflip⟩⟩ := hc
    · exact ⟨hleft, .inl ⟨hcount, .inr (.inl (congrArg Pc.test hcount))⟩⟩
    · rw [hp] at hflip
      cases hflip

theorem Inv.compare (h : Inv g s) {v : U32} (hp : (s.cpu i).pc = .test v) :
    Inv g (s.setCpu i ((s.cpu i).goto (if v = s.totalCpus then .reset else .spin))) := by
  have hold : (s.cpu i).pc.Counted := by
    rw [hp]
    trivial
  by_cases hv : v = s.totalCpus
  · rw [if_pos hv]
    refine h.goto hold trivial (fun hl _ => (h.cpu i).last hl (.inl (hv ▸ hp))) (fun he => by cases he)
      fun _ hc => ?_
    obtain ⟨hleft, ⟨hcount, -⟩ | ⟨-, hflip⟩⟩ := hc
    · exact ⟨hleft, .inl ⟨hcount, .inr (.inr rfl)⟩⟩
    · rw [hp] at hflip
      cases hflip
  · rw [if_neg hv]
    refine h.goto hold trivial (fun _ hl => ?_) (fun he => by cases he) fun _ hc => ?_
    · rcases hl with hl | hl <;> cases hl
    · -- a CPU that has read another count does not close the round
      rw [Closes, hp] at hc
      obtain ⟨-, ⟨-, hc | hc | hc⟩ | ⟨-, hc⟩⟩ := hc
      · cases hc
      · exact absurd (Pc.test.inj hc) hv
      · cases hc
      · cases hc

theorem Inv.reset (h : Inv g s) (hp : (s.cpu i).pc = .reset)
    (hr : s.count = 0 ∨ s.count = s.totalCpus) :
    Inv g ((s.setCpu i ((s.cpu i).goto .flip)).setCount 0) := by
  have hold : (s.cpu i).pc.Counted := by
    rw [hp]
    trivial
  have hout : (s.cpu i).pc ≠ .out := fun he => by rw [hp] at he; cases he
  have hsame : arrivals g (s.setCpu i ((s.cpu i).goto .flip)) = arrivals g s :=
    arrivals_setCpu (and_congr_right fun _ => iff_of_true trivial hold)
  have hcpu : CpuInv g ((s.setCpu i ((s.cpu i).goto .flip)).setCount 0) ((s.cpu i).goto .flip) := by
    refine ⟨(h.cpu i).left.imp_right fun hl => ⟨hl.1, trivial⟩, (h.cpu i).entered_eq hout,
      fun _ => (h.cpu i).localSense hout, fun _ hl => ?_,
      fun hl _ => ⟨hsame.trans ((h.cpu i).last hl (.inr hp)), rfl⟩⟩
    rcases hl with hl | hl <;> cases hl
  by_cases hfull : arrivals g s = n
  · constructor
    · exact h.total
    · exact h.sense
    · exact forall_setCpu hcpu fun j _ => (h.cpu j).congr rfl fun ha => ⟨hsame.trans ha, fun _ => rfl⟩
    · exact .inr ⟨rfl, hsame.trans hfull⟩
    · intro _ _
      refine ⟨i, ?_⟩
      show Closes g _ ((s.setCpu i _).cpu i)
      rw [setCpu_self]
      exact ⟨(arrivals_eq_iff.mp hfull i).1, .inr ⟨rfl, rfl⟩⟩
  · -- a CPU of the round before finds no arrivals of this round
    have hzero : s.count = 0 := hr.resolve_right fun hc => hfull (h.full hc)
    have hnone : arrivals g s = 0 := by
      rw [← h.toNat_count hfull, hzero]
      rfl
    exact h.setCount hfull hcpu (by rw [hsame, hnone]; rfl)
      fun ha => absurd (hsame.symm.trans ha) hfull

theorem Inv.leave (h : Inv g s) (hl : (s.cpu i).left + 1 = g) (hp : (s.cpu i).pc ≠ .out) :
    Inv g (s.setCpu i (s.cpu i).leave) := by
  have hnot : ¬ Arrived g (s.cpu i) := fun ha => by
    have := ha.1
    omega
  refine h.setCpu (iff_of_false (fun ha => ha.2) hnot) ?_ fun ha _ => absurd ha (arrivals_ne hnot)
  exact .of_quiet (.inl hl) ((h.cpu i).entered_eq hp) (fun hne => absurd rfl hne) (.inl rfl)

theorem Inv.close (h : Inv g s) (hl : (s.cpu i).left = g) (hp : (s.cpu i).pc = .flip) :
    Inv (g + 1) ((s.setCpu i (s.cpu i).leave).setSense (parity (g + 1))) := by
  have hout : (s.cpu i).pc ≠ .out := fun he => by rw [hp] at he; cases he
  obtain ⟨hfull, hzero⟩ := (h.cpu i).flip hl hp
  have hall := arrivals_eq_iff.mp hfull
  have hnone : arrivals (g + 1) ((s.setCpu i (s.cpu i).leave).setSense (parity (g + 1))) = 0 := by
    refine tally_eq_zero fun j ha => ?_
    have ha : Arrived (g + 1) ((s.setCpu i (s.cpu i).leave).cpu j) := ha
    by_cases hj : j = i
    · rw [hj, setCpu_self] at ha
      exact ha.2
    · rw [setCpu_of_ne s _ hj] at ha
      have := ha.1
      have := (hall j).1
      omega
  constructor
  · exact h.total
  · rfl
  · refine forall_setCpu (.of_quiet (.inl (congrArg (· + 1) hl)) ((h.cpu i).entered_eq hout)
      (fun hne => absurd rfl hne) (.inl rfl)) fun j _ => ?_
    -- the others have still to leave this round
    have hlj := (hall j).1
    exact ⟨.inr ⟨congrArg (· + 1) hlj, (hall j).2⟩, (h.cpu j).entered, (h.cpu j).localSense,
      fun hg => by omega, fun hg => by omega⟩
  · rw [hnone]
    exact .inl hzero
  · intro hn ha
    rw [hnone] at ha
    omega

theorem Inv.flip (h : Inv g s) (hp : (s.cpu i).pc = .flip) : ∃ g', Inv g'
    ((s.setCpu i (s.cpu i).leave).setSense (if (s.cpu i).localSense = 0 then 1 else 0)) := by
  have hout : (s.cpu i).pc ≠ .out := fun he => by rw [hp] at he; cases he
  rw [(h.cpu i).localSense hout, parity_succ]
  rcases (h.cpu i).left with hl | ⟨hl, -⟩
  · rw [hl]
    exact ⟨g + 1, h.close hl hp⟩
  · -- the round before is closed already: the store changes nothing
    have hsame : (s.setCpu i (s.cpu i).leave).setSense s.sense = s.setCpu i (s.cpu i).leave := rfl
    rw [hl, ← h.sense, hsame]
    exact ⟨g, h.leave hl hout⟩

theorem Inv.spin (h : Inv g s) (hp : (s.cpu i).pc = .spin) :
    Inv g (if s.sense = (s.cpu i).localSense then s else s.setCpu i (s.cpu i).leave) := by
  have hout : (s.cpu i).pc ≠ .out := fun he => by rw [hp] at he; cases he
  split_ifs with hs
  · exact h
  · have hl : (s.cpu i).left ≠ g := fun hl => hs (by rw [h.sense, (h.cpu i).localSense hout, hl])
    exact h.leave ((h.cpu i).left.resolve_left hl).1 hout

/-- **One access** leads from one round to the same or the next one. -/
theorem Inv.next (h : Inv g s) (hr : Resets s (i, ())) : ∃ g', Inv g' (Barrier.next s i) := by
  cases hp : (s.cpu i).pc with
  | out =>
      rw [Barrier.next, hp]
      exact ⟨g, h.enter hp⟩
  | inc =>
      rw [Barrier.next, hp]
      exact ⟨g, h.increment hp⟩
  | load =>
      rw [Barrier.next, hp]
      exact ⟨g, h.load hp⟩
  | test v =>
      rw [Barrier.next, hp]
      exact ⟨g, h.compare hp⟩
  | reset =>
      rw [Barrier.next, hp]
      exact ⟨g, h.reset hp (hr hp)⟩
  | flip =>
      rw [Barrier.next, hp]
      exact h.flip hp
  | spin =>
      rw [Barrier.next, hp]
      exact ⟨g, h.spin hp⟩

theorem inv_barrierInit (numCpus : U32) : Inv 0 (barrierInit numCpus) := by
  have hnone : arrivals 0 (barrierInit numCpus) = 0 := tally_eq_zero fun _ ha => ha.2
  constructor
  · rfl
  · rfl
  · intro i
    exact .of_quiet (.inl rfl) rfl (fun hne => absurd rfl hne) (.inl rfl)
  · rw [hnone]
    exact .inl rfl
  · intro hn ha
    rw [hnone] at ha
    omega

/-! ### Safety -/

theorem Inv.left_le_entered (h : Inv g s) (i j : Fin n) : (s.cpu i).left ≤ (s.cpu j).entered := by
  have hi : (s.cpu i).left ≤ g := by
    rcases (h.cpu i).left with hl | ⟨hl, -⟩ <;> omega
  have hj : g ≤ (s.cpu j).entered := by
    have hentered := (h.cpu j).entered
    rcases (h.cpu j).left with hl | ⟨hl, hp⟩
    · split_ifs at hentered <;> omega
    · have hout : (s.cpu j).pc ≠ .out := fun he => by rw [he] at hp; exact hp
      rw [(h.cpu j).entered_eq hout]
      omega
  exact hi.trans hj

/-- If all CPUs spin on the present sense, the round is full, and some CPU is not in the loop. -/
theorem Inv.not_allSpin (h : Inv g s) : ¬ AllSpin s := by
  rintro ⟨hn, hall⟩
  have hfull : arrivals g s = n := arrivals_eq_iff.mpr fun j => by
    obtain ⟨hp, hs⟩ := hall j
    have hout : (s.cpu j).pc ≠ .out := fun he => by rw [hp] at he; cases he
    refine ⟨(h.cpu j).left.resolve_right fun hl => ?_, by rw [hp]; trivial⟩
    rw [h.sense, (h.cpu j).localSense hout, ← hl.1] at hs
    exact parity_ne _ hs
  obtain ⟨j, -, hj⟩ := h.closing hn hfull
  rw [(hall j).1] at hj
  rcases hj with ⟨-, hj | hj | hj⟩ | ⟨-, hj⟩ <;> cases hj

/-- **When the barrier is safe.** For any number of CPUs, in every run whose every store of 0 to `count`
finds it to be 0 or `total_cpus`, no CPU leaves its `r`-th wait before all have entered theirs, and in
no state do all CPUs spin. -/
theorem safe_of_resets {numCpus : U32} {es : List (Event numCpus.toNat)} {t : State numCpus.toNat}
    (h : Run (total step) (barrierInit numCpus) es t)
    (hr : Along (total step) Resets (barrierInit numCpus) es) :
    Throughout (total step) Safe (barrierInit numCpus) es := by
  refine h.throughout_of_along (I := fun s => ∃ g, Inv g s) ?_ ?_ hr ⟨0, inv_barrierInit numCpus⟩
  · rintro s i r s' ⟨g, hg⟩ hres hs
    have hs : next s i = s' := congrArg Prod.snd (total_eq_some.mp hs)
    exact hs ▸ hg.next hres
  · rintro s ⟨g, hg⟩
    exact ⟨hg.left_le_entered, hg.not_allSpin⟩

def cpuA : Fin (2 : U32).toNat := ⟨0, by decide⟩

def cpuB : Fin (2 : U32).toNat := ⟨1, by decide⟩

/-- Two CPUs and two rounds. CPU B closes the first one while A is in the loop, and is in the second one before A has
left the first; A closes the second one. -/
def twoRounds : List (Event (2 : U32).toNat) :=
  [cpuA, cpuB, cpuA, cpuA, cpuB, cpuA, cpuB, cpuA, cpuB, cpuA, cpuB, cpuA, cpuB, cpuB, cpuB, cpuA, cpuB, cpuA, cpuB,
    cpuA, cpuB, cpuA, cpuA, cpuB, cpuA, cpuA, cpuB].map (·, ())

/-- The condition, checked event by event. -/
def resetsAll : State n → List (Event n) → Bool
  | _, [] => true
  | s, e :: es => decide ((s.cpu e.1).pc = .reset → s.count = 0 ∨ s.count = s.totalCpus) && resetsAll (next s e.1) es

theorem along_of_resetsAll : ∀ (es : List (Event n)) (s : State n),
    resetsAll s es = true → Along (total step) Resets s es := by
  intro es
  induction es with
  | nil => exact fun s _ => along_nil _ _
  | cons e es ih =>
      intro s h
      obtain ⟨hhead, htail⟩ := Bool.and_eq_true_iff.mp h
      have hres : (s.cpu e.1).pc = .reset → s.count = 0 ∨ s.count = s.totalCpus := of_decide_eq_true hhead
      exact (along_cons rfl).mpr ⟨hres, ih _ htail⟩

theorem safe_of_resets_twoRounds : Throughout (total step) Safe (barrierInit 2) twoRounds ∧
    ∀ i, ((twoRounds.foldl (fun s e => next s e.1) (barrierInit 2)).cpu i).left = 2 := by
  have hrun : Run (total step) (barrierInit 2) twoRounds
      (twoRounds.foldl (fun s e => next s e.1) (barrierInit 2)) := by
    unfold twoRounds
    repeat' constructor
  exact ⟨safe_of_resets hrun (along_of_resetsAll _ _ (by decide)), by decide⟩

/-- Both CPUs count themselves before either reads the counter, and both find it full. CPU A closes the
round and counts itself in the next one; then CPU B clears the counter, and counts itself too. -/
def lostArrival : List (Event (2 : U32).toNat) :=
  ([cpuA, cpuA, cpuB, cpuB, cpuA, cpuB, cpuA, cpuB, cpuA, cpuA, cpuA, cpuA, cpuA, cpuA] ++
    List.replicate 6 cpuB).map (·, ())

/-- In the end both CPUs spin. -/
theorem barrier_stuck : ¬ ∀ (numCpus : U32) (es : List (Event numCpus.toNat)) (t : State numCpus.toNat),
    Run (total step) (barrierInit numCpus) es t →
      Throughout (total step) Safe (barrierInit numCpus) es := by
  intro hall
  obtain ⟨t, h, hspin⟩ : ∃ t, Run (total step) (barrierInit 2) lostArrival t ∧ AllSpin t :=
    ⟨lostArrival.foldl (fun s e => next s e.1) (barrierInit 2), by
      unfold lostArrival
      repeat' constructor, by
      unfold AllSpin
      decide⟩
  exact ((hall 2 lostArrival t h).last h).2 hspin

end BloodKernel.Barrier
