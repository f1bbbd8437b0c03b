import BloodKernel.Kernel.Types
import BloodKernel.Lib.Keyed
import BloodKernel.Lib.Run
import BloodKernel.Lib.Search

set_option autoImplicit false

/-!
# Process-context identifiers

`drivers/memory_adv.c` gives a PCID to each address space: the value of a counter that goes from 4095 back to 1,
in the first inactive entry of a table of 64.

* `MemoryAdvInfo`: the table and the counter; `memoryAdvAllocatePcid`, `memoryAdvFreePcid`: the calls.
* `Separate`: the active entries hold distinct PCIDs between 1 and 4095.
* **`separate_throughout_iff`**: this holds throughout a run exactly when no allocation finds the value of the
  counter in use.
-/

namespace BloodKernel.Pcid

open Lib

abbrev U64 := BitVec 64

def maxPcid : U16 := 4096

def pcidKernel : U16 := 0

def pcidUserBase : U16 := 1

structure PcidEntry where
  pcid : U16
  cr3Base : U64
  active : U8
  isGlobal : U8
  tlbFlushes : U32
  lastUsed : U64

structure MemoryAdvInfo where
  pcidEnabled : U8
  currentPcid : U16
  nextPcid : U16
  pcidTable : Fin 64 → PcidEntry

def memoryAdvEnablePcid (s : MemoryAdvInfo) : MemoryAdvInfo :=
  { s with pcidEnabled := 1, currentPcid := pcidKernel, nextPcid := pcidUserBase }

/-- `memory_adv_init`, on a processor with PCIDs or without. -/
def memoryAdvInit (supported : Bool) : MemoryAdvInfo :=
  let s : MemoryAdvInfo := ⟨0, 0, 1, fun _ => ⟨0, 0, 0, 0, 0, 0⟩⟩
  if supported then memoryAdvEnablePcid s else s

/-- The counter after an allocation. -/
def succPcid (p : U16) : U16 := if maxPcid ≤ p + 1 then pcidUserBase else p + 1

/-- The entry is filled and the counter moves on. -/
def fill (s : MemoryAdvInfo) (i : Fin 64) (cr3Base ticks : U64) : MemoryAdvInfo :=
  { s with
    pcidTable := Function.update s.pcidTable i ⟨s.nextPcid, cr3Base, 1, 0, 0, ticks⟩
    nextPcid := succPcid s.nextPcid }

/-- `ticks` is what `timer_get_ticks` returns. -/
def memoryAdvAllocatePcid (s : MemoryAdvInfo) (cr3Base ticks : U64) : U16 × MemoryAdvInfo :=
  if s.pcidEnabled = 0 then (0, s)
  else
    match first fun i => decide ((s.pcidTable i).active = 0) with
    | some i => (s.nextPcid, fill s i cr3Base ticks)
    | none => (0, s)

/-- The entry becomes inactive. -/
def clear (s : MemoryAdvInfo) (i : Fin 64) : MemoryAdvInfo :=
  { s with
    pcidTable := Function.update s.pcidTable i { s.pcidTable i with active := 0, pcid := 0, cr3Base := 0 } }

def memoryAdvFreePcid (s : MemoryAdvInfo) (pcid : U16) : MemoryAdvInfo :=
  if s.pcidEnabled = 0 then s
  else
    match first fun i => decide ((s.pcidTable i).pcid = pcid ∧ (s.pcidTable i).active ≠ 0) with
    | some i => clear s i
    | none => s

inductive Op
  | allocate (cr3Base ticks : U64)
  | free (pcid : U16)

/-- A call, with the PCID that an allocation returns. -/
def step (s : MemoryAdvInfo) : Op → Option U16 × MemoryAdvInfo
  | .allocate cr3Base ticks =>
      let r := memoryAdvAllocatePcid s cr3Base ticks
      (some r.1, r.2)
  | .free pcid => (none, memoryAdvFreePcid s pcid)

/-! ## Live PCIDs -/

/-- The PCID of an active entry. -/
def live (s : MemoryAdvInfo) (i : Fin 64) : Option U16 :=
  if (s.pcidTable i).active = 0 then none else some (s.pcidTable i).pcid

/-- The active entries hold distinct PCIDs in 1..4095. -/
structure Separate (s : MemoryAdvInfo) : Prop where
  distinct : Distinct (live s)
  range : ∀ i p, live s i = some p → 1 ≤ p.toNat ∧ p.toNat ≤ 4095

/-- An allocation that fails finds all entries active. -/
def FailsWhenFull (s : MemoryAdvInfo) (e : Op × Option U16) : Prop :=
  ∀ cr3Base ticks, e = (.allocate cr3Base ticks, some 0) → ∀ i, (s.pcidTable i).active ≠ 0

/-- An allocation that finds an inactive entry finds the value of the counter unused. -/
def NextUnused (s : MemoryAdvInfo) (e : Op × Option U16) : Prop :=
  ∀ cr3Base ticks, e.1 = .allocate cr3Base ticks → (∃ i, (s.pcidTable i).active = 0) →
    ∀ i, live s i ≠ some s.nextPcid

/-- PCIDs are enabled, the counter is in range, and so are the live PCIDs. -/
structure Ready (s : MemoryAdvInfo) : Prop where
  enabled : s.pcidEnabled ≠ 0
  next : 1 ≤ s.nextPcid.toNat ∧ s.nextPcid.toNat ≤ 4095
  range : ∀ i p, live s i = some p → 1 ≤ p.toNat ∧ p.toNat ≤ 4095

variable {s s' t : MemoryAdvInfo} {i : Fin 64} {cr3Base ticks : U64}

theorem live_eq_none : live s i = none ↔ (s.pcidTable i).active = 0 := by
  unfold live
  split_ifs with h
  · exact iff_of_true rfl h
  · exact iff_of_false (fun hn => by cases hn) h

/-- **An allocation** fills the first inactive entry, or fails when there is none. -/
theorem allocate_cases (h : s.pcidEnabled ≠ 0) (cr3Base ticks : U64) :
    (∃ i, live s i = none ∧ memoryAdvAllocatePcid s cr3Base ticks = (s.nextPcid, fill s i cr3Base ticks)) ∨
      ((∀ i, (s.pcidTable i).active ≠ 0) ∧ memoryAdvAllocatePcid s cr3Base ticks = (0, s)) := by
  unfold memoryAdvAllocatePcid
  rw [if_neg h]
  cases hfirst : first fun i => decide ((s.pcidTable i).active = 0) with
  | some i => exact .inl ⟨i, live_eq_none.mpr (of_decide_eq_true (first_eq_some_iff.mp hfirst).1), rfl⟩
  | none => exact .inr ⟨fun i => of_decide_eq_false (first_eq_none_iff.mp hfirst i), rfl⟩

/-- **A free** makes an entry inactive, or changes nothing. -/
theorem free_cases (s : MemoryAdvInfo) (pcid : U16) :
    (∃ i, memoryAdvFreePcid s pcid = clear s i) ∨ memoryAdvFreePcid s pcid = s := by
  unfold memoryAdvFreePcid
  split_ifs
  · exact .inr rfl
  · split
    · exact .inl ⟨_, rfl⟩
    · exact .inr rfl

theorem live_fill (s : MemoryAdvInfo) (i : Fin 64) (cr3Base ticks : U64) :
    live (fill s i cr3Base ticks) = Function.update (live s) i (some s.nextPcid) :=
  Function.comp_update (fun e : PcidEntry => if e.active = 0 then none else some e.pcid) s.pcidTable i _

theorem live_clear (s : MemoryAdvInfo) (i : Fin 64) : live (clear s i) = Function.update (live s) i none :=
  Function.comp_update (fun e : PcidEntry => if e.active = 0 then none else some e.pcid) s.pcidTable i _

theorem succPcid_range {p : U16} (h : 1 ≤ p.toNat ∧ p.toNat ≤ 4095) :
    1 ≤ (succPcid p).toNat ∧ (succPcid p).toNat ≤ 4095 := by
  have hmax : maxPcid.toNat = 4096 := rfl
  have hbase : pcidUserBase.toNat = 1 := rfl
  have hadd : (p + 1).toNat = p.toNat + 1 := by
    have hone : (1 : U16).toNat = 1 := rfl
    rw [BitVec.toNat_add, hone]
    omega
  unfold succPcid
  split_ifs with hle
  · omega
  · rw [BitVec.not_le, BitVec.lt_def] at hle
    omega

theorem Ready.fill (h : Ready s) (i : Fin 64) : Ready (fill s i cr3Base ticks) := by
  refine ⟨h.enabled, succPcid_range h.next, fun j p hj => ?_⟩
  rw [live_fill, Function.update_apply] at hj
  split_ifs at hj
  · cases hj
    exact h.next
  · exact h.range j p hj

theorem Ready.clear (h : Ready s) (i : Fin 64) : Ready (clear s i) := by
  refine ⟨h.enabled, h.next, fun j p hj => ?_⟩
  rw [live_clear, Function.update_apply] at hj
  split_ifs at hj
  exact h.range j p hj

theorem Ready.step (h : Ready s) (o : Op) : Ready (step s o).2 := by
  cases o with
  | allocate cr3Base ticks =>
      show Ready (memoryAdvAllocatePcid s cr3Base ticks).2
      rcases allocate_cases h.enabled cr3Base ticks with ⟨i, -, heq⟩ | ⟨-, heq⟩
      · rw [heq]
        exact h.fill i
      · rw [heq]
        exact h
  | free pcid =>
      show Ready (memoryAdvFreePcid s pcid)
      rcases free_cases s pcid with ⟨i, heq⟩ | heq
      · rw [heq]
        exact h.clear i
      · rw [heq]
        exact h

theorem ready_init : Ready (memoryAdvInit true) :=
  ⟨by decide, ⟨by decide, by decide⟩, fun i p h => by cases h⟩

/-! ## Runs -/

/-- **One call** keeps the PCIDs distinct exactly when it does not use the counter's value a second time. -/
theorem distinct_step (hr : Ready s) (hd : Distinct (live s)) (o : Op) (r : Option U16) :
    Distinct (live (step s o).2) ↔ NextUnused s (o, r) := by
  cases o with
  | allocate cr3Base ticks =>
      show Distinct (live (memoryAdvAllocatePcid s cr3Base ticks).2) ↔ _
      rcases allocate_cases hr.enabled cr3Base ticks with ⟨i, hfree, heq⟩ | ⟨hfull, heq⟩
      · rw [heq]
        dsimp only
        rw [live_fill, distinct_update hfree, and_iff_right hd]
        exact ⟨fun h _ _ _ _ => h, fun h => h cr3Base ticks rfl ⟨i, live_eq_none.mp hfree⟩⟩
      · rw [heq]
        exact iff_of_true hd fun _ _ _ ⟨i, hi⟩ => absurd hi (hfull i)
  | free pcid =>
      refine iff_of_true ?_ fun _ _ ho => by cases ho
      show Distinct (live (memoryAdvFreePcid s pcid))
      rcases free_cases s pcid with ⟨i, heq⟩ | heq
      · rw [heq, live_clear]
        exact hd.clear i
      · rw [heq]
        exact hd

/-- The counter is never 0, so a result of 0 says that there is no inactive entry. -/
theorem failsWhenFull_step (hr : Ready s) (o : Op) : FailsWhenFull s (o, (step s o).1) := by
  intro cr3Base ticks he
  obtain ⟨rfl, hzero⟩ := Prod.mk.inj he
  have hzero : (memoryAdvAllocatePcid s cr3Base ticks).1 = 0 := Option.some_inj.mp hzero
  rcases allocate_cases hr.enabled cr3Base ticks with ⟨i, -, heq⟩ | ⟨hfull, -⟩
  · have hnext := hr.next.1
    rw [heq] at hzero
    dsimp only at hzero
    rw [hzero] at hnext
    exact absurd hnext (by decide)
  · exact hfull

/-- **Distinct PCIDs along runs.** -/
theorem separate_throughout_iff {es : List (Op × Option U16)} (h : Run (total step) (memoryAdvInit true) es t) :
    Throughout (total step) Separate (memoryAdvInit true) es ∧
        Along (total step) FailsWhenFull (memoryAdvInit true) es ↔
      Along (total step) NextUnused (memoryAdvInit true) es := by
  have hstep : ∀ s o r s', Ready s → total step s o = some (r, s') → Ready s' := by
    intro s o r s' hs hstep
    have hready := hs.step o
    rwa [total_eq_some.mp hstep] at hready
  have hfails : Along (total step) FailsWhenFull (memoryAdvInit true) es := by
    have htrue : Along (total step) (fun _ _ => True) (memoryAdvInit true) es := fun _ _ _ _ _ _ => trivial
    refine (h.along_iff hstep (fun s o r s' hs hstep => ?_) ready_init).mpr htrue
    have hone := failsWhenFull_step hs o
    rw [total_eq_some.mp hstep] at hone
    exact iff_true_intro hone
  rw [and_iff_left hfails]
  refine h.throughout_iff_along_while (I := Ready) (fun s o r s' hs _ _ => hstep s o r s' hs)
    (fun s o r s' hs hq hstep' => ?_) ready_init ⟨distinct_of_free fun i => rfl, fun i p h => by cases h⟩
  have hiff := distinct_step hs hq.distinct o r
  have hready := hstep s o r s' hs hstep'
  rw [total_eq_some.mp hstep'] at hiff
  exact ⟨fun hsep => hiff.mp hsep.distinct, fun hnext => ⟨hiff.mpr hnext, hready.range⟩⟩

/-! ## One long-lived address space -/

/-- The first entry has been active from the start, and the counter stands at `n`. -/
def aged (n : U16) : MemoryAdvInfo := { fill (memoryAdvInit true) 0 0 0 with nextPcid := n }

/-- An address space that comes and goes. -/
def visit (n : U16) : List (Op × Option U16) := [(.allocate 0 0, some n), (.free n, none)]

theorem first_eq_one {p : Fin 64 → Bool} (h₀ : p 0 = false) (h₁ : p 1 = true) : first p = some 1 := by
  refine first_eq_some_iff.mpr ⟨h₁, fun j hj => ?_⟩
  have hj : j = 0 := by
    have hlt : (j : ℕ) < 1 := hj
    exact Fin.ext (Nat.lt_one_iff.mp hlt)
  rw [hj, h₀]

theorem allocate_aged (n : U16) : memoryAdvAllocatePcid (aged n) 0 0 = (n, fill (aged n) 1 0 0) := by
  have hfirst : (first fun i => decide (((aged n).pcidTable i).active = 0)) = some 1 := first_eq_one rfl rfl
  have henabled : (aged n).pcidEnabled ≠ 0 := by
    show (1 : U8) ≠ 0
    decide
  unfold memoryAdvAllocatePcid
  rw [if_neg henabled, hfirst]
  rfl

theorem clear_fill_aged (n : U16) : clear (fill (aged n) 1 0 0) 1 = aged (succPcid n) := by
  have htable : Function.update (Function.update (aged n).pcidTable 1 ⟨n, 0, 1, 0, 0, 0⟩) 1 ⟨0, 0, 0, 0, 0, 0⟩ =
      (aged n).pcidTable := by
    rw [Function.update_idem]
    exact Function.update_eq_self 1 (aged n).pcidTable
  have hentry : (fill (aged n) 1 0 0).pcidTable 1 = ⟨n, 0, 1, 0, 0, 0⟩ := by
    simp only [fill, Function.update_self]
    rfl
  unfold clear
  rw [hentry]
  show ({ aged (succPcid n) with pcidTable := _ } : MemoryAdvInfo) = _
  exact congrArg (fun table => { aged (succPcid n) with pcidTable := table }) htable

theorem run_visit {n : U16} (hn : n ≠ 1) : Run (total step) (aged n) (visit n) (aged (succPcid n)) := by
  have hallocate : step (aged n) (.allocate 0 0) = (some n, fill (aged n) 1 0 0) := by
    show (some (memoryAdvAllocatePcid (aged n) 0 0).1, (memoryAdvAllocatePcid (aged n) 0 0).2) = _
    rw [allocate_aged]
  have hfree : step (fill (aged n) 1 0 0) (.free n) = (none, aged (succPcid n)) := by
    have hfirst : (first fun i => decide (((fill (aged n) 1 0 0).pcidTable i).pcid = n ∧
        ((fill (aged n) 1 0 0).pcidTable i).active ≠ 0)) = some 1 := by
      refine first_eq_one (decide_eq_false fun h => hn h.1.symm) (decide_eq_true ⟨rfl, ?_⟩)
      show (1 : U8) ≠ 0
      decide
    have henabled : (fill (aged n) 1 0 0).pcidEnabled ≠ 0 := by
      show (1 : U8) ≠ 0
      decide
    show (none, memoryAdvFreePcid (fill (aged n) 1 0 0) n) = _
    unfold memoryAdvFreePcid
    rw [if_neg henabled, hfirst, ← clear_fill_aged]
  exact .cons (total_eq_some.mpr hallocate) (.cons (total_eq_some.mpr hfree) (.nil _))

/-- Beside the first entry, the value of the counter is unused until it is back at 1. -/
theorem nextUnused_aged {n : U16} (hn : n ≠ 1) (r : Option U16) : NextUnused (aged n) (.allocate 0 0, r) := by
  intro _ _ _ _ i hi
  by_cases hzero : i = 0
  · rw [hzero] at hi
    exact hn (Option.some_inj.mp hi).symm
  · have hinactive : live (aged n) i = none := by
      have hentry : (aged n).pcidTable i = (memoryAdvInit true).pcidTable i := Function.update_of_ne hzero _ _
      unfold live
      rw [hentry]
      rfl
    rw [hinactive] at hi
    cases hi

/-- Three address spaces, the second of which has gone when the third one comes. -/
def three : List (Op × Option U16) := (.allocate 0 0, some 1) :: (visit 2 ++ [(.allocate 0 0, some 3)])

theorem separate_three : Throughout (total step) Separate (memoryAdvInit true) three ∧
    Along (total step) FailsWhenFull (memoryAdvInit true) three := by
  have hfirst : total step (memoryAdvInit true) (.allocate 0 0) = some (some 1, aged 2) := rfl
  have hsecond : total step (aged 2) (.allocate 0 0) = some (some 2, fill (aged 2) 1 0 0) := by
    refine total_eq_some.mpr ?_
    show (some (memoryAdvAllocatePcid (aged 2) 0 0).1, (memoryAdvAllocatePcid (aged 2) 0 0).2) = _
    rw [allocate_aged]
  have hthird : total step (aged 3) (.allocate 0 0) = some (some 3, fill (aged 3) 1 0 0) := by
    refine total_eq_some.mpr ?_
    show (some (memoryAdvAllocatePcid (aged 3) 0 0).1, (memoryAdvAllocatePcid (aged 3) 0 0).2) = _
    rw [allocate_aged]
  have hvisit : Run (total step) (aged 2) (visit 2) (aged 3) := run_visit (by decide)
  obtain ⟨s, hs, hfree⟩ := run_cons.mp hvisit
  obtain rfl : fill (aged 2) 1 0 0 = s := congrArg Prod.snd (Option.some_inj.mp (hsecond.symm.trans hs))
  obtain ⟨u, hu, hnil⟩ := run_cons.mp hfree
  obtain rfl := run_nil.mp hnil
  refine (separate_throughout_iff (.cons hfirst (hvisit.append (.cons hthird (.nil _))))).mpr ?_
  refine (along_cons hfirst).mpr ⟨fun _ _ _ _ i h => (by cases h), (along_cons hs).mpr ⟨nextUnused_aged (by decide) _,
    (along_cons hu).mpr ⟨fun _ _ h => (by cases h), (along_cons hthird).mpr ⟨nextUnused_aged (by decide) _,
      along_nil _ _⟩⟩⟩⟩

theorem run_visits {k : ℕ} (hk : k ≤ 4093) : Run (total step) (aged 2)
    ((List.range k).flatMap fun j => visit (BitVec.ofNat 16 (2 + j))) (aged (BitVec.ofNat 16 (2 + k))) := by
  induction k with
  | zero => exact .nil _
  | succ k ih =>
      have hval : (BitVec.ofNat 16 (2 + k)).toNat = 2 + k := Nat.mod_eq_of_lt (by omega)
      have hne : BitVec.ofNat 16 (2 + k) ≠ 1 := by
        intro h
        rw [h] at hval
        have hone : (1 : U16).toNat = 1 := rfl
        omega
      have hsucc : succPcid (BitVec.ofNat 16 (2 + k)) = BitVec.ofNat 16 (2 + (k + 1)) := by
        have hadd : BitVec.ofNat 16 (2 + k) + 1 = BitVec.ofNat 16 (2 + (k + 1)) :=
          (BitVec.ofNat_add (2 + k) 1).symm
        have hlt : ¬maxPcid ≤ BitVec.ofNat 16 (2 + (k + 1)) := by
          have hmax : maxPcid.toNat = 4096 := rfl
          rw [BitVec.not_le, BitVec.lt_def, BitVec.toNat_ofNat, Nat.mod_eq_of_lt (by omega)]
          omega
        unfold succPcid
        rw [hadd, if_neg hlt]
      have hvisit := run_visit hne
      rw [hsucc] at hvisit
      rw [List.range_succ, List.flatMap_append]
      refine (ih (by omega)).append ?_
      rw [List.flatMap_cons, List.flatMap_nil, List.append_nil]
      exact hvisit

/-- One address space stays, 4094 come and go one after the other, and then one more comes. -/
def longLived : List (Op × Option U16) :=
  (.allocate 0 0, some 1) ::
    ((((List.range 4093).flatMap fun j => visit (BitVec.ofNat 16 (2 + j))) ++ visit 4095) ++
      [(.allocate 0 0, some 1)])

/-- It gets the PCID of the first one. -/
theorem not_separate_longLived : ∃ t, Run (total step) (memoryAdvInit true) longLived t ∧ ¬Separate t := by
  have hlast : Run (total step) (aged 1) [(.allocate 0 0, some 1)] (fill (aged 1) 1 0 0) := by
    refine .cons (total_eq_some.mpr ?_) (.nil _)
    show (some (memoryAdvAllocatePcid (aged 1) 0 0).1, (memoryAdvAllocatePcid (aged 1) 0 0).2) = _
    rw [allocate_aged]
  have hfirst : total step (memoryAdvInit true) (.allocate 0 0) = some (some 1, aged 2) := rfl
  refine ⟨fill (aged 1) 1 0 0, .cons hfirst ?_, fun h => ?_⟩
  · have hwrap : Run (total step) (aged 4095) (visit 4095) (aged 1) := run_visit (by decide)
    exact ((run_visits le_rfl).append hwrap).append hlast
  · exact absurd (h.distinct 0 1 1 rfl rfl) (by decide)

end BloodKernel.Pcid
