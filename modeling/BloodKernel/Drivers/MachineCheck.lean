import BloodKernel.Kernel.Types
import BloodKernel.Lib.Run

set_option autoImplicit false

/-!
# The records of machine checks

`interrupt_mgmt_handle_mce` of `drivers/interrupt_mgmt.c` goes over the banks of the machine check registers and clears
those with an error, up to one that is not corrected. All banks of one event are put into the same record.

* `interruptMgmtHandleMce`: the handler; `clearedBanks`: the banks that it clears, `scanBanks_eq`.
* `Recorded`: each bank that is cleared has a record of its own; `OneBank`: the condition for it.
* **`mce_recorded_iff`**: in all steps of a run exactly when all of them meet the condition.
-/

namespace BloodKernel.MachineCheck

open Lib

/-! ## The state -/

/-- The registers of a bank, from `MSR_MC0_STATUS` on. -/
structure Bank where
  status : U64
  addr : U64
  misc : U64

/-- `mce_record_t` -/
structure MceRecord where
  status : U64
  addr : U64
  misc : U64
  bank : U32
  valid : U8

/-- What the driver keeps, and the registers. `mceRecords` are the 32 of the array, and what lies behind it. -/
structure Machine where
  msrSupported : Bool
  mceEnabled : U8
  mceBankCount : U32
  mceCount : U32
  mceRecords : U32 → MceRecord
  mcgStatus : U64
  bank : ℕ → Bank

/-- `MCE_STATUS_VAL`, `MCE_STATUS_UC`, `MCE_STATUS_ADDRV` and `MCE_STATUS_MISCV`: the bits of a status. -/
def Bank.valid (b : Bank) : Bool := b.status.getLsbD 63
def Bank.uncorrected (b : Bank) : Bool := b.status.getLsbD 61
def Bank.miscValid (b : Bank) : Bool := b.status.getLsbD 59
def Bank.addrValid (b : Bank) : Bool := b.status.getLsbD 58

/-! ## The handler -/

/-- The record of a bank, over what the record held before. -/
def MceRecord.store (r : MceRecord) (i : ℕ) (b : Bank) : MceRecord where
  status := b.status
  addr := if b.addrValid then b.addr else r.addr
  misc := if b.miscValid then b.misc else r.misc
  bank := BitVec.ofNat 32 i
  valid := 1

/-- Bank `i` is put into the record of the event, if there is one, and its status is cleared. -/
def Machine.takeBank (m : Machine) (i : ℕ) : Machine :=
  { m with
    mceRecords :=
      if m.mceCount ≤ 32 then
        Function.update m.mceRecords (m.mceCount - 1) ((m.mceRecords (m.mceCount - 1)).store i (m.bank i))
      else m.mceRecords
    bank := Function.update m.bank i { m.bank i with status := 0 } }

/-- The loop over the banks, which ends at an error that is not corrected. -/
def scanBanks : List ℕ → Machine → Machine
  | [], m => m
  | i :: is, m =>
      if (m.bank i).valid then
        if (m.bank i).uncorrected then m.takeBank i else scanBanks is (m.takeBank i)
      else scanBanks is m

def Machine.handles (m : Machine) : Bool := decide (m.mceEnabled ≠ 0) && m.msrSupported

def interruptMgmtHandleMce (m : Machine) : Machine :=
  if m.handles then
    { scanBanks (List.range m.mceBankCount.toNat) { m with mceCount := m.mceCount + 1 } with mcgStatus := 0 }
  else m

def interruptMgmtGetMceRecord (m : Machine) (index : U32) : Option MceRecord :=
  if index ≥ m.mceCount ∨ index ≥ 32 then none else some (m.mceRecords index)

def interruptMgmtClearMceRecords (m : Machine) : Machine :=
  { m with
    mceCount := 0
    mceRecords := fun i => if i < 32 then { m.mceRecords i with valid := 0 } else m.mceRecords i }

/-- The part of `interrupt_mgmt_init` that is about machine checks: whether they are supported, and `MSR_MCG_CAP`. -/
def interruptMgmtInit (mceSupported : Bool) (mcgCap : U64) (m : Machine) : Machine :=
  if mceSupported && m.msrSupported then
    let count : U32 := (mcgCap &&& 0xFF).setWidth 32
    let count := if count > 32 then 32 else count
    { m with
      mceEnabled := 1
      mceBankCount := count
      mceCount := 0
      bank := fun i => if i < count.toNat then { m.bank i with status := 0 } else m.bank i }
  else { m with mceEnabled := 0, mceBankCount := 0, mceCount := 0 }

/-! ## Runs -/

/-- What happens: the calls, and a bank that the hardware fills. -/
inductive Op
  | init (mceSupported : Bool) (mcgCap : U64)
  | report (i : ℕ) (b : Bank)
  | handleMce
  | clearMceRecords

def Op.run (m : Machine) : Op → Unit × Machine
  | .init mceSupported mcgCap => ((), interruptMgmtInit mceSupported mcgCap m)
  | .report i b => ((), { m with bank := Function.update m.bank i b })
  | .handleMce => ((), interruptMgmtHandleMce m)
  | .clearMceRecords => ((), interruptMgmtClearMceRecords m)

/-- A record holds what a bank held: its address and the rest where they are valid, and nothing else. -/
structure MceRecord.Holds (r : MceRecord) (i : ℕ) (b : Bank) : Prop where
  bank : r.bank = BitVec.ofNat 32 i
  status : r.status = b.status
  addr : r.addr = if b.addrValid then b.addr else 0
  misc : r.misc = if b.miscValid then b.misc else 0

/-- As long as there is a record for it: each bank whose status an event clears is held by a record that the event
has made, and that can be read. -/
def Recorded (m : Machine) : Prop :=
  m.mceCount < 32 → ∀ i, ((interruptMgmtHandleMce m).bank i).status ≠ (m.bank i).status →
    ∃ j r, m.mceCount ≤ j ∧ interruptMgmtGetMceRecord (interruptMgmtHandleMce m) j = some r ∧ r.Holds i (m.bank i)

/-- The banks that the loop comes to with an error: it ends behind the first that is not corrected. -/
def cleared (bank : ℕ → Bank) : List ℕ → List ℕ
  | [] => []
  | i :: is =>
      if (bank i).valid then
        if (bank i).uncorrected then [i] else i :: cleared bank is
      else cleared bank is

/-- The banks that an event clears. -/
def clearedBanks (m : Machine) : List ℕ :=
  if m.handles then cleared m.bank (List.range m.mceBankCount.toNat) else []

/-- As long as there is a record for it: at most one bank is cleared, and where its address or the rest is not valid,
the record holds nothing there. -/
def OneBank (m : Machine) : Prop :=
  m.mceCount < 32 → clearedBanks m = [] ∨ ∃ i, clearedBanks m = [i] ∧
    ((m.bank i).addrValid ∨ (m.mceRecords m.mceCount).addr = 0) ∧
    ((m.bank i).miscValid ∨ (m.mceRecords m.mceCount).misc = 0)

/-! ## The loop -/

variable {m : Machine} {bank : ℕ → Bank} {l is : List ℕ} {i j : ℕ}

theorem takeBank_bank : (m.takeBank i).bank j = if j = i then { m.bank j with status := 0 } else m.bank j := by
  show Function.update m.bank i _ j = _
  by_cases h : j = i
  · rw [h, Function.update_self, if_pos rfl]
  · rw [Function.update_of_ne h, if_neg h]

theorem cleared_congr {bank' : ℕ → Bank} (h : ∀ i ∈ is, bank i = bank' i) : cleared bank is = cleared bank' is := by
  induction is with
  | nil => rfl
  | cons i is ih =>
      unfold cleared
      rw [h i List.mem_cons_self, ih fun j hj => h j (List.mem_cons_of_mem i hj)]

/-- **The loop** takes the banks that it clears, in order. -/
theorem scanBanks_eq (hnodup : is.Nodup) : scanBanks is m = (cleared m.bank is).foldl Machine.takeBank m := by
  induction is generalizing m with
  | nil => rfl
  | cons i is ih =>
      obtain ⟨hnot, hnodup⟩ := List.nodup_cons.mp hnodup
      have hothers : cleared (m.takeBank i).bank is = cleared m.bank is :=
        cleared_congr fun j hj => takeBank_bank.trans (if_neg fun h : j = i => hnot (h ▸ hj))
      unfold scanBanks cleared
      split_ifs
      · rfl
      · rw [ih hnodup, hothers]
        rfl
      · exact ih hnodup

theorem cleared_sublist : (cleared bank is).Sublist is := by
  induction is with
  | nil => exact List.Sublist.refl _
  | cons i is ih =>
      unfold cleared
      split_ifs
      · exact (List.nil_sublist is).cons_cons i
      · exact ih.cons_cons i
      · exact ih.cons i

theorem valid_of_mem_cleared (h : i ∈ cleared bank is) : (bank i).valid = true := by
  induction is with
  | nil => cases h
  | cons k is ih =>
      unfold cleared at h
      split_ifs at h with hvalid
      · obtain rfl := List.mem_singleton.mp h
        exact hvalid
      · rcases List.mem_cons.mp h with rfl | h
        · exact hvalid
        · exact ih h
      · exact ih h

theorem foldl_takeBank_bank : (l.foldl Machine.takeBank m).bank j =
    if j ∈ l then { m.bank j with status := 0 } else m.bank j := by
  induction l generalizing m with
  | nil => exact (if_neg List.not_mem_nil).symm
  | cons i l ih =>
      rw [List.foldl_cons, ih, takeBank_bank]
      by_cases h : j = i <;> simp [h]

theorem foldl_takeBank_mceCount : (l.foldl Machine.takeBank m).mceCount = m.mceCount := by
  induction l generalizing m with
  | nil => rfl
  | cons i l ih => exact ih

theorem takeBank_mceRecords (hcount : m.mceCount ≤ 32) : (m.takeBank i).mceRecords =
    Function.update m.mceRecords (m.mceCount - 1) ((m.mceRecords (m.mceCount - 1)).store i (m.bank i)) := if_pos hcount

theorem foldl_takeBank_record (hcount : m.mceCount ≤ 32) :
    (((l ++ [i]).foldl Machine.takeBank m).mceRecords (m.mceCount - 1)).bank = BitVec.ofNat 32 i := by
  have hcount' : (l.foldl Machine.takeBank m).mceCount ≤ 32 := foldl_takeBank_mceCount.symm ▸ hcount
  rw [List.foldl_append, List.foldl_cons, List.foldl_nil, takeBank_mceRecords hcount', foldl_takeBank_mceCount,
    Function.update_self]
  rfl

/-! ## One event -/

theorem handleMce_eq : interruptMgmtHandleMce m =
    if m.handles then
      { (clearedBanks m).foldl Machine.takeBank { m with mceCount := m.mceCount + 1 } with mcgStatus := 0 }
    else m := by
  unfold interruptMgmtHandleMce clearedBanks
  split_ifs
  · rw [scanBanks_eq List.nodup_range]
  · rfl

theorem status_ne_iff : ((interruptMgmtHandleMce m).bank i).status ≠ (m.bank i).status ↔ i ∈ clearedBanks m := by
  rw [handleMce_eq]
  by_cases hhandles : m.handles
  · rw [if_pos hhandles]
    show (((clearedBanks m).foldl Machine.takeBank _).bank i).status ≠ _ ↔ _
    rw [foldl_takeBank_bank]
    by_cases hmem : i ∈ clearedBanks m
    · refine iff_of_true ?_ hmem
      have hvalid : (m.bank i).valid = true := by
        unfold clearedBanks at hmem
        rw [if_pos hhandles] at hmem
        exact valid_of_mem_cleared hmem
      rw [if_pos hmem]
      intro hzero
      unfold Bank.valid at hvalid
      rw [← hzero] at hvalid
      exact absurd (show (0 : U64).getLsbD 63 = true from hvalid) (by decide)
    · rw [if_neg hmem]
      exact iff_of_false (fun h => h rfl) hmem
  · unfold clearedBanks
    rw [if_neg hhandles, if_neg hhandles]
    exact iff_of_false (fun h => h rfl) List.not_mem_nil

theorem getMceRecord_iff (hhandles : m.handles) (hcount : m.mceCount < 32) {j : U32} {r : MceRecord} :
    (m.mceCount ≤ j ∧ interruptMgmtGetMceRecord (interruptMgmtHandleMce m) j = some r) ↔
      j = m.mceCount ∧ r = ((clearedBanks m).foldl Machine.takeBank
        { m with mceCount := m.mceCount + 1 }).mceRecords m.mceCount := by
  have hnext : (interruptMgmtHandleMce m).mceCount = m.mceCount + 1 := by
    rw [handleMce_eq, if_pos hhandles]
    exact foldl_takeBank_mceCount
  have hrecords : (interruptMgmtHandleMce m).mceRecords = ((clearedBanks m).foldl Machine.takeBank
      { m with mceCount := m.mceCount + 1 }).mceRecords := by
    rw [handleMce_eq, if_pos hhandles]
  unfold interruptMgmtGetMceRecord
  rw [hnext, hrecords]
  constructor
  · rintro ⟨hle, h⟩
    split_ifs at h with hbound
    obtain rfl : j = m.mceCount := by
      rw [not_or] at hbound
      bv_omega
    exact ⟨rfl, (Option.some_inj.mp h).symm⟩
  · rintro ⟨rfl, rfl⟩
    refine ⟨BitVec.le_refl _, if_neg ?_⟩
    rw [not_or]
    constructor <;> bv_omega

theorem record_of_one (hcount : m.mceCount < 32) : (([i].foldl Machine.takeBank
    { m with mceCount := m.mceCount + 1 }).mceRecords m.mceCount) = (m.mceRecords m.mceCount).store i (m.bank i) := by
  have hslot : m.mceCount + 1 - 1 = m.mceCount := BitVec.add_sub_cancel _ _
  have hle : m.mceCount + 1 ≤ 32 := by bv_omega
  rw [List.foldl_cons, List.foldl_nil, takeBank_mceRecords hle]
  dsimp only
  rw [hslot, Function.update_self]

theorem store_holds_iff {r : MceRecord} {b : Bank} : (r.store i b).Holds i b ↔
    (b.addrValid ∨ r.addr = 0) ∧ (b.miscValid ∨ r.misc = 0) := by
  have hite (c : Bool) (v w : U64) : (if c then v else w) = (if c then v else 0) ↔ c = true ∨ w = 0 := by
    cases c <;> simp
  constructor
  · rintro ⟨-, -, haddr, hmisc⟩
    exact ⟨(hite _ _ _).mp haddr, (hite _ _ _).mp hmisc⟩
  · rintro ⟨haddr, hmisc⟩
    exact ⟨rfl, rfl, (hite _ _ _).mpr haddr, (hite _ _ _).mpr hmisc⟩

/-- Of the banks that an event clears only the last can have a record. -/
theorem eq_last_of_holds (hcount : m.mceCount < 32) (hl : (l ++ [j]).Sublist (List.range m.mceBankCount.toNat))
    (hi : i ∈ l ++ [j]) (h : (((l ++ [j]).foldl Machine.takeBank
      { m with mceCount := m.mceCount + 1 }).mceRecords m.mceCount).Holds i (m.bank i)) : i = j := by
  have hslot : m.mceCount + 1 - 1 = m.mceCount := BitVec.add_sub_cancel _ _
  have hle : m.mceCount + 1 ≤ 32 := by bv_omega
  have hlast := foldl_takeBank_record (m := { m with mceCount := m.mceCount + 1 }) (l := l) (i := j) hle
  dsimp only at hlast
  rw [hslot, h.bank] at hlast
  -- the numbers of the banks are words
  have hlt {k : ℕ} (hk : k ∈ l ++ [j]) : k < 2 ^ 32 := (List.mem_range.mp (hl.subset hk)).trans m.mceBankCount.isLt
  have hnat := congrArg BitVec.toNat hlast
  rwa [BitVec.toNat_ofNat, BitVec.toNat_ofNat, Nat.mod_eq_of_lt (hlt hi),
    Nat.mod_eq_of_lt (hlt (List.mem_append_right _ List.mem_cons_self))] at hnat

/-- A bank has a record after an event when the only one that the event has made is its own. -/
theorem exists_record_iff (hhandles : m.handles) (hcount : m.mceCount < 32) (i : ℕ) :
    (∃ j r, m.mceCount ≤ j ∧ interruptMgmtGetMceRecord (interruptMgmtHandleMce m) j = some r ∧
      r.Holds i (m.bank i)) ↔ (((clearedBanks m).foldl Machine.takeBank
        { m with mceCount := m.mceCount + 1 }).mceRecords m.mceCount).Holds i (m.bank i) := by
  constructor
  · rintro ⟨j, r, hle, hget, hr⟩
    exact ((getMceRecord_iff hhandles hcount).mp ⟨hle, hget⟩).2 ▸ hr
  · intro hr
    obtain ⟨hle, hget⟩ := (getMceRecord_iff hhandles hcount).mpr ⟨rfl, rfl⟩
    exact ⟨_, _, hle, hget, hr⟩

/-- When the record holds all banks that are cleared, there is one at most. -/
theorem eq_singleton_of_holds (hcount : m.mceCount < 32)
    (hl : (l ++ [j]).Sublist (List.range m.mceBankCount.toNat))
    (h : ∀ i ∈ l ++ [j], (((l ++ [j]).foldl Machine.takeBank
      { m with mceCount := m.mceCount + 1 }).mceRecords m.mceCount).Holds i (m.bank i)) : l = [] := by
  refine List.eq_nil_iff_forall_not_mem.mpr fun i hi => ?_
  have hmem := List.mem_append_left [j] hi
  have hne := (List.nodup_append.mp (hl.nodup List.nodup_range)).2.2 i hi j List.mem_cons_self
  exact hne (eq_last_of_holds hcount hl hmem (h i hmem))

/-- **One event.** -/
theorem recorded_iff (m : Machine) : Recorded m ↔ OneBank m := by
  refine forall_congr' fun hcount => ?_
  by_cases hhandles : m.handles
  · have hsub : (clearedBanks m).Sublist (List.range m.mceBankCount.toNat) := by
      unfold clearedBanks
      rw [if_pos hhandles]
      exact cleared_sublist
    simp only [status_ne_iff, exists_record_iff hhandles hcount]
    constructor
    · intro h
      rcases List.eq_nil_or_concat' (clearedBanks m) with hnil | ⟨l, j, hl⟩
      · exact .inl hnil
      · rw [hl] at h hsub
        obtain rfl := eq_singleton_of_holds hcount hsub h
        have hone := h j List.mem_cons_self
        rw [List.nil_append, record_of_one hcount] at hone
        exact .inr ⟨j, hl, store_holds_iff.mp hone⟩
    · rintro (hnil | ⟨i, hone, hvalid⟩) k hk
      · rw [hnil] at hk
        cases hk
      · rw [hone] at hk ⊢
        obtain rfl := List.mem_singleton.mp hk
        rw [record_of_one hcount]
        exact store_holds_iff.mpr hvalid
  · have hnone : clearedBanks m = [] := if_neg hhandles
    refine iff_of_true (fun i hi => ?_) (.inl hnone)
    rw [status_ne_iff, hnone] at hi
    cases hi

/-! ## All runs -/

/-- A machine check is recorded, in a step of a run. -/
def RecordedStep (m : Machine) (e : Op × Unit) : Prop := e.1 = .handleMce → Recorded m

/-- One bank has an error at a time. -/
def OneBankStep (m : Machine) (e : Op × Unit) : Prop := e.1 = .handleMce → OneBank m

def boot (msrSupported : Bool) (bank : ℕ → Bank) : Machine :=
  ⟨msrSupported, 0, 0, 0, fun _ => ⟨0, 0, 0, 0, 0⟩, 0, bank⟩

/-- **The records of all runs.** -/
theorem mce_recorded_iff (msrSupported : Bool) (bank : ℕ → Bank) (es : List (Op × Unit)) (t : Machine)
    (h : Run (total Op.run) (boot msrSupported bank) es t) :
    Along (total Op.run) RecordedStep (boot msrSupported bank) es ↔
      Along (total Op.run) OneBankStep (boot msrSupported bank) es :=
  h.along_iff (I := fun _ => True) (fun _ _ _ _ _ _ => trivial)
    (fun m _ _ _ _ _ => forall_congr' fun _ => recorded_iff m) trivial

/-- A bank without an error, one with an error, and one with an error at an address. -/
def quietBank : Bank := ⟨0, 0, 0⟩
def errorBank : Bank := ⟨0x9000000000000000, 0, 0⟩
def addressBank : Bank := ⟨0x9400000000000000, 0x1000, 0⟩

def after (ops : List Op) : Machine := ops.foldl (fun m o => (o.run m).2) (boot true fun _ => quietBank)

theorem run_after (ops : List Op) :
    Run (total Op.run) (boot true fun _ => quietBank) (ops.map fun o => (o, ())) (after ops) := by
  induction ops using List.reverseRecOn with
  | nil => exact .nil _
  | append_singleton ops o ih =>
      rw [List.map_append, after, List.foldl_append]
      exact run_snoc.mpr ⟨_, ih, rfl⟩

/-- Two banks, of which one has an error. -/
theorem mce_recorded_iff_one : Along (total Op.run) RecordedStep (boot true fun _ => quietBank)
    ([.init true 2, .report 1 addressBank, .handleMce].map fun o => (o, ())) := by
  refine (mce_recorded_iff true _ _ _ (run_after _)).mpr ?_
  have hone : OneBank (after [.init true 2, .report 1 addressBank]) := fun _ =>
    .inr ⟨1, by decide, .inl (by decide), .inr (by decide)⟩
  refine (along_snoc (run_after [.init true 2, .report 1 addressBank])).mpr ⟨?_, fun _ => hone⟩
  intro pre e post u he _ hhandle
  have hmem : e ∈ [.init true 2, .report 1 addressBank].map fun o : Op => (o, ()) :=
    he ▸ List.mem_append_right _ List.mem_cons_self
  obtain ⟨o, ho, rfl⟩ := List.mem_map.mp hmem
  rcases List.mem_pair.mp ho with rfl | rfl <;> cases hhandle

theorem not_along_handleMce {ops : List Op} (h : ¬OneBank (after ops)) : ¬Along (total Op.run) RecordedStep
    (boot true fun _ => quietBank) ((ops.map fun o => (o, ())) ++ [(.handleMce, ())]) := fun halong =>
  h ((recorded_iff _).mp (((along_snoc (run_after ops)).mp halong).2 rfl))

/-- Two banks with an error, of which one is not recorded; and a record that holds an address of an earlier event. -/
theorem not_mce_recorded :
    ¬Along (total Op.run) RecordedStep (boot true fun _ => quietBank)
      ([.init true 2, .report 0 errorBank, .report 1 errorBank, .handleMce].map fun o => (o, ())) ∧
    ¬Along (total Op.run) RecordedStep (boot true fun _ => quietBank)
      ([.init true 2, .report 0 addressBank, .handleMce, .clearMceRecords, .report 1 errorBank, .handleMce].map
        fun o => (o, ())) := by
  have htwo : ¬OneBank (after [.init true 2, .report 0 errorBank, .report 1 errorBank]) := by
    intro h
    have hbanks : clearedBanks (after [.init true 2, .report 0 errorBank, .report 1 errorBank]) = [0, 1] := by decide
    rcases h (by decide) with hnil | ⟨i, hi, -⟩
    · exact absurd (hbanks.symm.trans hnil) (by decide)
    · exact absurd (congrArg List.length (hbanks.symm.trans hi)) (by decide : ¬2 = 1)
  have hleft : ¬OneBank (after [.init true 2, .report 0 addressBank, .handleMce, .clearMceRecords,
      .report 1 errorBank]) := by
    intro h
    have hbanks : clearedBanks (after [.init true 2, .report 0 addressBank, .handleMce, .clearMceRecords,
      .report 1 errorBank]) = [1] := by decide
    rcases h (by decide) with hnil | ⟨i, hi, haddr, -⟩
    · exact absurd (hbanks.symm.trans hnil) (by decide)
    · obtain rfl := List.singleton_inj.mp (hbanks.symm.trans hi)
      revert haddr
      decide
  exact ⟨not_along_handleMce htwo, not_along_handleMce hleft⟩

end BloodKernel.MachineCheck
