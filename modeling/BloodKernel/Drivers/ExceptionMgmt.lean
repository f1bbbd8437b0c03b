import BloodKernel.Kernel.Types
import BloodKernel.Lib.Run

set_option autoImplicit false

/-!
# The records of the exceptions

`drivers/exception_mgmt.c` records exceptions in an array of 256, one after the other, and marks the record of an
exception that is recovered. It takes it for the record before the next one that is to be written.

* `exceptionMgmtLogException`, `exceptionMgmtAttemptRecovery`, `exceptionMgmtHandleException`; `Op.run`.
* `Kept`: an exception marks its own record, in the array; `InPlace`: the condition for it.
* **`records_kept_iff`**: it does in all steps of a run exactly when all of them meet the condition.
-/

namespace BloodKernel.ExceptionMgmt

open Lib

/-! ## The state -/

/-- `exception_record_t` -/
structure Record where
  vector : U32
  errorCode : U64
  faultAddress : U64
  instructionPointer : U64
  stackPointer : U64
  flags : U64
  cpuId : U32
  timestamp : U64
  recoverable : U8
  handled : U8

/-- `exception_stats_t` -/
structure Stats where
  count : U32
  mode : U8
  lastTimestamp : U64
  totalRecoveryTime : U64

/-- `exception_mgmt_info`. `records` are the 256 of the array, and what lies behind it. -/
structure Info where
  recoveryEnabled : U8
  loggingEnabled : U8
  totalExceptions : U32
  recoveredExceptions : U32
  unhandledExceptions : U32
  stats : Fin 32 → Stats
  records : U32 → Record
  recordIndex : U32
  lastDoubleFault : U64
  lastMachineCheck : U64
  nestedExceptionCount : U32

/-- The arguments of the handler, and what it reads: the number of the CPU, and the ticks when it begins, when it makes
a record and when it ends. -/
structure Exception where
  vector : U32
  errorCode : U64
  faultAddress : U64
  rip : U64
  rsp : U64
  rflags : U64
  cpuId : U32
  startTime : U64
  recordTime : U64
  recoveryTime : U64

/-! ### Vectors and modes -/

def invalidOpcode : U32 := 6
def doubleFault : U32 := 8
def generalProtection : U32 := 13
def pageFault : U32 := 14
def alignmentCheck : U32 := 17
def machineCheck : U32 := 18

/-- `EXCEPTION_MODE_IGNORE`, and so on. -/
def modeIgnore : U8 := 0
def modeLog : U8 := 1
def modeRecover : U8 := 2
def modePanic : U8 := 3

/-! ## The handler -/

/-- `stats[vector]`, if there is one, is changed. -/
def updateStats (stats : Fin 32 → Stats) (vector : U32) (f : Stats → Stats) : Fin 32 → Stats := fun i =>
  if (i : ℕ) = vector.toNat then f (stats i) else stats i

def exceptionMgmtGetMode (info : Info) (vector : U32) : U8 :=
  if h : vector.toNat < 32 then (info.stats ⟨vector.toNat, h⟩).mode else modeIgnore

/-- The record that is made of an exception. -/
def recordOf (e : Exception) : Record :=
  ⟨e.vector, e.errorCode, e.faultAddress, e.rip, e.rsp, e.rflags, e.cpuId, e.recordTime, 0, 0⟩

/-- A record with `recoverable = 1` and `handled = 1`. -/
def Record.marked (r : Record) : Record := { r with recoverable := 1, handled := 1 }

/-- The indices of the records that are accessed, and the state. -/
def exceptionMgmtLogException (e : Exception) (info : Info) : List U32 × Info :=
  if info.loggingEnabled = 0 then ([], info)
  else
    ([info.recordIndex],
      { info with
        records := Function.update info.records info.recordIndex (recordOf e)
        recordIndex := (info.recordIndex + 1) % 256
        totalExceptions := info.totalExceptions + 1
        stats := updateStats info.stats e.vector fun s =>
          { s with count := s.count + 1, lastTimestamp := e.recordTime } })

/-- The instruction at which an exception that is recovered goes on. -/
def exceptionMgmtAttemptRecovery (info : Info) (e : Exception) : Option U64 :=
  if info.recoveryEnabled = 0 then none
  else if e.vector = pageFault then
    -- present, and not a write
    if e.errorCode &&& 1 ≠ 0 ∧ e.errorCode &&& 2 = 0 ∧ 0x1000 ≤ e.faultAddress ∧ e.faultAddress < 0x100000 then
      some e.rip
    else none
  else if e.vector = generalProtection ∨ e.vector = alignmentCheck then
    if e.errorCode = 0 then some (e.rip + 1) else none
  else if e.vector = invalidOpcode then some (e.rip + 1)
  else none

/-- What handling an exception does. -/
structure Handled where
  accesses : List U32
  rip : U64
  info : Info

def exceptionMgmtHandleException (e : Exception) (info : Info) : Handled :=
  let (accesses, info) := exceptionMgmtLogException e info
  if e.vector = doubleFault then
    ⟨accesses, e.rip,
      { info with lastDoubleFault := e.startTime, nestedExceptionCount := info.nestedExceptionCount + 1 }⟩
  else if e.vector = machineCheck then ⟨accesses, e.rip, { info with lastMachineCheck := e.startTime }⟩
  else
    let unhandled : Handled := ⟨accesses, e.rip, { info with unhandledExceptions := info.unhandledExceptions + 1 }⟩
    if e.vector < 32 ∧ exceptionMgmtGetMode info e.vector = modeRecover then
      match exceptionMgmtAttemptRecovery info e with
      | none => unhandled
      | some rip =>
          let i := info.recordIndex - 1
          ⟨accesses ++ [i], rip,
            { info with
              recoveredExceptions := info.recoveredExceptions + 1
              records := Function.update info.records i (info.records i).marked
              stats := updateStats info.stats e.vector fun s =>
                { s with totalRecoveryTime := s.totalRecoveryTime + (e.recoveryTime - e.startTime) } }⟩
    else unhandled

/-! ## Runs -/

inductive Op
  | init
  | handle (e : Exception)
  | setMode (vector : U32) (mode : U8)
  | enableRecovery
  | disableRecovery
  | enableLogging
  | disableLogging
  | clearStatistics

def initialMode (i : Fin 32) : U8 :=
  if (i : ℕ) = doubleFault.toNat ∨ (i : ℕ) = machineCheck.toNat then modePanic else modeLog

/-- Of each record the vector and `handled` are cleared. -/
def exceptionMgmtInit (info : Info) : Info where
  recoveryEnabled := 1
  loggingEnabled := 1
  totalExceptions := 0
  recoveredExceptions := 0
  unhandledExceptions := 0
  stats i := ⟨0, initialMode i, 0, 0⟩
  records i := if i < 256 then { info.records i with vector := 0, handled := 0 } else info.records i
  recordIndex := 0
  lastDoubleFault := 0
  lastMachineCheck := 0
  nestedExceptionCount := 0

def exceptionMgmtClearStatistics (info : Info) : Info :=
  { info with
    totalExceptions := 0
    recoveredExceptions := 0
    unhandledExceptions := 0
    nestedExceptionCount := 0
    stats := fun i => { info.stats i with count := 0, lastTimestamp := 0, totalRecoveryTime := 0 } }

/-- A call: the records that the handler accesses, and the state after it. -/
def Op.run (info : Info) : Op → List U32 × Info
  | .init => ([], exceptionMgmtInit info)
  | .handle e =>
      let h := exceptionMgmtHandleException e info
      (h.accesses, h.info)
  | .setMode vector mode => ([], { info with stats := updateStats info.stats vector fun s => { s with mode := mode } })
  | .enableRecovery => ([], { info with recoveryEnabled := 1 })
  | .disableRecovery => ([], { info with recoveryEnabled := 0 })
  | .enableLogging => ([], { info with loggingEnabled := 1 })
  | .disableLogging => ([], { info with loggingEnabled := 0 })
  | .clearStatistics => ([], exceptionMgmtClearStatistics info)

def boot : Info :=
  ⟨0, 0, 0, 0, 0, fun _ => ⟨0, 0, 0, 0⟩, fun _ => ⟨0, 0, 0, 0, 0, 0, 0, 0, 0, 0⟩, 0, 0, 0, 0⟩

/-- The handler recovers an exception. -/
def Recovers (info : Info) (e : Exception) : Prop :=
  e.vector ≠ doubleFault ∧ e.vector ≠ machineCheck ∧ e.vector < 32 ∧ exceptionMgmtGetMode info e.vector = modeRecover ∧
    (exceptionMgmtAttemptRecovery info e).isSome

/-- The records that an exception accesses are in the array. With logging, one that is recovered changes one record,
which is made of it and marked; without, no record is changed. -/
structure Kept (info : Info) (e : Exception) : Prop where
  inside : ∀ i ∈ (exceptionMgmtHandleException e info).accesses, i < 256
  own : info.loggingEnabled ≠ 0 → Recovers info e → (exceptionMgmtHandleException e info).info.records =
    Function.update info.records info.recordIndex (recordOf e).marked
  unchanged : info.loggingEnabled = 0 → (exceptionMgmtHandleException e info).info.records = info.records

/-- With logging the next record is not the last of the array. Without, it is not the first, and the one before it is
marked. -/
def InPlace (info : Info) : Prop :=
  if info.loggingEnabled = 0 then
    info.recordIndex ≠ 0 ∧ (info.records (info.recordIndex - 1)).marked = info.records (info.recordIndex - 1)
  else info.recordIndex ≠ 255

/-! ## One exception -/

variable {info t : Info} {e : Exception} {o : Op} {es : List (Op × List U32)}

/-- The state after the record has been made. -/
def Info.recorded (info : Info) (e : Exception) : Info := (exceptionMgmtLogException e info).2

theorem log_off (h : info.loggingEnabled = 0) : exceptionMgmtLogException e info = ([], info) := if_pos h

theorem log_accesses : (exceptionMgmtLogException e info).1 =
    if info.loggingEnabled = 0 then [] else [info.recordIndex] := by
  unfold exceptionMgmtLogException
  split_ifs <;> rfl

theorem recorded_records (h : info.loggingEnabled ≠ 0) :
    (info.recorded e).records = Function.update info.records info.recordIndex (recordOf e) := by
  unfold Info.recorded exceptionMgmtLogException
  rw [if_neg h]

theorem recorded_recordIndex (h : info.loggingEnabled ≠ 0) :
    (info.recorded e).recordIndex = (info.recordIndex + 1) % 256 := by
  unfold Info.recorded exceptionMgmtLogException
  rw [if_neg h]

/-- What can be set. -/
def Info.settings (info : Info) : U8 × U8 × (Fin 32 → U8) :=
  (info.loggingEnabled, info.recoveryEnabled, fun i => (info.stats i).mode)

theorem settings_inj : info.settings = t.settings ↔ info.loggingEnabled = t.loggingEnabled ∧
    info.recoveryEnabled = t.recoveryEnabled ∧ ∀ i, (info.stats i).mode = (t.stats i).mode := by
  unfold Info.settings
  rw [Prod.mk.injEq, Prod.mk.injEq, funext_iff]

theorem mode_updateStats {stats : Fin 32 → Stats} {v : U32} {f : Stats → Stats} (hf : ∀ s, (f s).mode = s.mode)
    (i : Fin 32) : (updateStats stats v f i).mode = (stats i).mode := by
  unfold updateStats
  split_ifs
  · exact hf _
  · rfl

theorem getMode_congr (h : info.settings = t.settings) (v : U32) :
    exceptionMgmtGetMode info v = exceptionMgmtGetMode t v := by
  unfold exceptionMgmtGetMode
  split_ifs
  · exact (settings_inj.mp h).2.2 _
  · rfl

theorem attemptRecovery_congr (h : info.settings = t.settings) (e : Exception) :
    exceptionMgmtAttemptRecovery info e = exceptionMgmtAttemptRecovery t e := by
  unfold exceptionMgmtAttemptRecovery
  rw [(settings_inj.mp h).2.1]

theorem recovers_congr (h : info.settings = t.settings) : Recovers info e ↔ Recovers t e := by
  unfold Recovers
  rw [getMode_congr h, attemptRecovery_congr h]

theorem recorded_settings : (info.recorded e).settings = info.settings := by
  unfold Info.recorded exceptionMgmtLogException
  split_ifs
  · rfl
  · exact settings_inj.mpr ⟨rfl, rfl, mode_updateStats fun _ => rfl⟩

theorem handle_settings : (exceptionMgmtHandleException e info).info.settings = info.settings := by
  refine Eq.trans ?_ (recorded_settings (e := e))
  unfold exceptionMgmtHandleException
  dsimp only
  split_ifs
  · rfl
  · rfl
  · cases exceptionMgmtAttemptRecovery (exceptionMgmtLogException e info).2 e with
    | none => rfl
    | some rip => exact settings_inj.mpr ⟨rfl, rfl, mode_updateStats fun _ => rfl⟩
  · rfl

/-- **An exception that is not recovered.** -/
theorem handle_of_not_recovers (h : ¬Recovers info e) :
    (exceptionMgmtHandleException e info).accesses = (exceptionMgmtLogException e info).1 ∧
      (exceptionMgmtHandleException e info).info.records = (info.recorded e).records ∧
      (exceptionMgmtHandleException e info).info.recordIndex = (info.recorded e).recordIndex := by
  unfold exceptionMgmtHandleException
  dsimp only
  split_ifs with hdouble hmachine hmode
  · exact ⟨rfl, rfl, rfl⟩
  · exact ⟨rfl, rfl, rfl⟩
  · cases hrecovery : exceptionMgmtAttemptRecovery (exceptionMgmtLogException e info).2 e with
    | none => exact ⟨rfl, rfl, rfl⟩
    | some rip =>
        refine absurd ⟨hdouble, hmachine, hmode.1, ?_, ?_⟩ h
        · exact (getMode_congr recorded_settings _).symm.trans hmode.2
        · rw [← attemptRecovery_congr recorded_settings]
          exact Option.isSome_iff_exists.mpr ⟨rip, hrecovery⟩
  · exact ⟨rfl, rfl, rfl⟩

/-- **An exception that is recovered** marks the record before the next one. -/
theorem handle_of_recovers (h : Recovers info e) :
    (exceptionMgmtHandleException e info).accesses =
        (exceptionMgmtLogException e info).1 ++ [(info.recorded e).recordIndex - 1] ∧
      (exceptionMgmtHandleException e info).info.records = Function.update (info.recorded e).records
        ((info.recorded e).recordIndex - 1) ((info.recorded e).records ((info.recorded e).recordIndex - 1)).marked ∧
      (exceptionMgmtHandleException e info).info.recordIndex = (info.recorded e).recordIndex := by
  obtain ⟨hdouble, hmachine, hlt, hmode, hsome⟩ := h
  obtain ⟨rip, hrip⟩ := Option.isSome_iff_exists.mp hsome
  have hmode' : exceptionMgmtGetMode (exceptionMgmtLogException e info).2 e.vector = modeRecover :=
    (getMode_congr recorded_settings _).trans hmode
  have hrip' : exceptionMgmtAttemptRecovery (exceptionMgmtLogException e info).2 e = some rip :=
    (attemptRecovery_congr recorded_settings e).trans hrip
  unfold exceptionMgmtHandleException
  dsimp only
  rw [if_neg hdouble, if_neg hmachine, if_pos ⟨hlt, hmode'⟩, hrip']
  exact ⟨rfl, rfl, rfl⟩

theorem log_accesses_lt (hindex : info.recordIndex < 256) : ∀ i ∈ (exceptionMgmtLogException e info).1, i < 256 := by
  rw [log_accesses]
  split_ifs
  · exact fun i hi => absurd hi List.not_mem_nil
  · exact List.forall_mem_singleton.mpr hindex

theorem kept_of_not_recovers (hindex : info.recordIndex < 256) (h : ¬Recovers info e) : Kept info e := by
  obtain ⟨haccesses, hrecords, -⟩ := handle_of_not_recovers h
  refine ⟨haccesses ▸ log_accesses_lt hindex, fun _ hrecovers => absurd hrecovers h, fun hoff => ?_⟩
  rw [hrecords]
  unfold Info.recorded
  rw [log_off hoff]

theorem toNat_next (hindex : info.recordIndex < 256) :
    ((info.recordIndex + 1) % 256).toNat = (info.recordIndex.toNat + 1) % 256 := by
  have hsize : (256 : U32).toNat = 256 := rfl
  have hone : (1 : U32).toNat = 1 := rfl
  have hlt := BitVec.lt_def.mp hindex
  rw [hsize] at hlt
  rw [BitVec.toNat_umod, BitVec.toNat_add, hone, hsize, Nat.mod_eq_of_lt (show _ < 2 ^ 32 by omega)]

theorem index_before (hindex : info.recordIndex < 256) :
    (info.recordIndex + 1) % 256 - 1 = if info.recordIndex = 255 then (0xFFFFFFFF : U32) else info.recordIndex := by
  split_ifs with hlast
  · rw [hlast]
    rfl
  · have hnext := toNat_next hindex
    have hmod : (info.recordIndex + 1) % 256 = info.recordIndex + 1 := by bv_omega
    rw [hmod, BitVec.add_sub_cancel]

theorem last_not_lt : ¬(0xFFFFFFFF : U32) < 256 := by decide

/-- **An exception that is recovered without a record** marks an earlier one. -/
theorem kept_iff_of_off (hindex : info.recordIndex < 256) (h : Recovers info e) (hoff : info.loggingEnabled = 0) :
    Kept info e ↔ info.recordIndex ≠ 0 ∧
      (info.records (info.recordIndex - 1)).marked = info.records (info.recordIndex - 1) := by
  obtain ⟨haccesses, hrecords, -⟩ := handle_of_recovers h
  have hkeeps : info.recorded e = info := congrArg Prod.snd (log_off hoff)
  rw [hkeeps] at haccesses hrecords
  constructor
  · intro hkept
    refine ⟨fun hzero => last_not_lt ?_, ?_⟩
    · have hin := hkept.inside (info.recordIndex - 1) (haccesses ▸ List.mem_append_right _ List.mem_cons_self)
      rwa [hzero] at hin
    · exact Function.update_eq_self_iff.mp (hrecords.symm.trans (hkept.unchanged hoff))
  · rintro ⟨hne, hmarked⟩
    refine ⟨?_, fun hon => absurd hoff hon, fun _ => hrecords.trans (Function.update_eq_self_iff.mpr hmarked)⟩
    have hbefore : info.recordIndex - 1 < 256 := by bv_omega
    rw [haccesses, List.forall_mem_append]
    exact ⟨log_accesses_lt hindex, List.forall_mem_singleton.mpr hbefore⟩

/-- **One with a record** marks it, unless that is the last of the array. -/
theorem kept_iff_of_on (hindex : info.recordIndex < 256) (h : Recovers info e) (hon : info.loggingEnabled ≠ 0) :
    Kept info e ↔ info.recordIndex ≠ 255 := by
  obtain ⟨haccesses, hrecords, -⟩ := handle_of_recovers h
  rw [recorded_recordIndex hon, index_before hindex] at haccesses hrecords
  constructor
  · intro hkept hwrap
    rw [if_pos hwrap] at haccesses
    exact last_not_lt (hkept.inside _ (haccesses ▸ List.mem_append_right _ List.mem_cons_self))
  · intro hne
    rw [if_neg hne] at haccesses hrecords
    rw [recorded_records hon, Function.update_self, Function.update_idem] at hrecords
    refine ⟨?_, fun _ _ => hrecords, fun hoff => absurd hoff hon⟩
    rw [haccesses, List.forall_mem_append]
    exact ⟨log_accesses_lt hindex, List.forall_mem_singleton.mpr hindex⟩

theorem kept_iff_inPlace (hindex : info.recordIndex < 256) (h : Recovers info e) : Kept info e ↔ InPlace info := by
  unfold InPlace
  split_ifs with hoff
  · exact kept_iff_of_off hindex h hoff
  · exact kept_iff_of_on hindex h hoff

theorem exception_kept_iff (hindex : info.recordIndex < 256) : Kept info e ↔ (Recovers info e → InPlace info) := by
  by_cases h : Recovers info e
  · rw [kept_iff_inPlace hindex h]
    exact ⟨fun hplace _ => hplace, fun hplace => hplace h⟩
  · exact iff_of_true (kept_of_not_recovers hindex h) fun h' => absurd h' h

/-! ## All runs -/

/-- Handling an exception keeps the records, in a step of a run. -/
def KeptStep (info : Info) (ev : Op × List U32) : Prop := ∀ e, ev.1 = .handle e → Kept info e

/-- An exception that is recovered finds its record in place. -/
def InPlaceStep (info : Info) (ev : Op × List U32) : Prop := ∀ e, ev.1 = .handle e → Recovers info e → InPlace info

/-- **The invariant**: the next record is one of the array. -/
theorem index_lt (o : Op) (hindex : info.recordIndex < 256) : (o.run info).2.recordIndex < 256 := by
  cases o with
  | init => exact (by decide : (0 : U32) < 256)
  | handle e =>
      have hindex' : (exceptionMgmtHandleException e info).info.recordIndex = (info.recorded e).recordIndex := by
        by_cases h : Recovers info e
        · exact (handle_of_recovers h).2.2
        · exact (handle_of_not_recovers h).2.2
      show (exceptionMgmtHandleException e info).info.recordIndex < 256
      rw [hindex']
      by_cases hoff : info.loggingEnabled = 0
      · unfold Info.recorded
        rwa [log_off hoff]
      · rw [recorded_recordIndex hoff, BitVec.lt_def, toNat_next hindex]
        exact Nat.mod_lt _ (by decide)
  | setMode | enableRecovery | disableRecovery | enableLogging | disableLogging | clearStatistics => exact hindex

/-- **The records of all runs.** Along a run, exceptions keep the records exactly when each one that is recovered finds
its record in place. -/
theorem records_kept_iff (h : Run (total Op.run) boot es t) :
    Along (total Op.run) KeptStep boot es ↔ Along (total Op.run) InPlaceStep boot es := by
  have hboot : boot.recordIndex < 256 := by decide
  refine h.along_iff (I := fun info => info.recordIndex < 256) (fun info o r info' hindex hstep => ?_)
    (fun info o r info' hindex _ => ?_) hboot
  · have hnext := index_lt o hindex
    rwa [total_eq_some.mp hstep] at hnext
  · exact forall₂_congr fun e _ => exception_kept_iff hindex

def invalid : Exception := ⟨invalidOpcode, 0, 0, 0x401000, 0x7000, 2, 0, 10, 11, 12⟩

/-- The first exception after the start, with logging. -/
theorem records_kept_iff_first : ∃ t, Run (total Op.run) boot
    [(.init, []), (.setMode invalidOpcode modeRecover, []), (.handle invalid, [0, 0])] t ∧
      Along (total Op.run) KeptStep boot
        [(.init, []), (.setMode invalidOpcode modeRecover, []), (.handle invalid, [0, 0])] := by
  have hfirst : total Op.run boot .init = some ([], _) := rfl
  have hmode : total Op.run (Op.run boot .init).2 (.setMode invalidOpcode modeRecover) = some ([], _) := rfl
  have hhandle : total Op.run (Op.run (Op.run boot .init).2 (.setMode invalidOpcode modeRecover)).2 (.handle invalid) =
      some ([0, 0], _) := rfl
  have hrun := Run.cons hfirst (.cons hmode (.cons hhandle (.nil _)))
  have hplace : InPlace (Op.run (Op.run boot .init).2 (.setMode invalidOpcode modeRecover)).2 := by
    intro hwrap
    exact absurd hwrap (by decide)
  refine ⟨_, hrun, (records_kept_iff hrun).mpr ((along_cons hfirst).mpr ⟨?_, ?_⟩)⟩
  · exact fun e he => Op.noConfusion he
  refine (along_cons hmode).mpr ⟨?_, (along_cons hhandle).mpr ⟨fun _ _ _ => hplace, along_nil _ _⟩⟩
  exact fun e he => Op.noConfusion he

/-- With logging, `n` invalid opcodes that are recovered make `n` records. -/
theorem run_invalid (n : ℕ) : ∃ es t,
    es.map Prod.fst = .init :: .setMode invalidOpcode modeRecover :: List.replicate n (.handle invalid) ∧
      Run (total Op.run) boot es t ∧ t.recordIndex.toNat = n % 256 ∧ t.loggingEnabled ≠ 0 ∧ Recovers t invalid := by
  induction n with
  | zero =>
      refine ⟨[(.init, []), (.setMode invalidOpcode modeRecover, [])], _, rfl, .cons rfl (.cons rfl (.nil _)), rfl,
        ?_, ?_⟩
      · exact (by decide : (1 : U8) ≠ 0)
      · exact ⟨by decide, by decide, by decide, by decide, by decide⟩
  | succ n ih =>
      obtain ⟨es, t, hops, hrun, hindex, hlogs, hrecovers⟩ := ih
      have hlt : t.recordIndex < 256 := by
        rw [BitVec.lt_def, hindex]
        exact Nat.mod_lt _ (by decide)
      refine ⟨es ++ [(.handle invalid, _)], (exceptionMgmtHandleException invalid t).info, ?_,
        run_snoc.mpr ⟨t, hrun, rfl⟩, ?_, ?_, ?_⟩
      · rw [List.map_append, hops, List.replicate_succ']
        rfl
      · rw [(handle_of_recovers hrecovers).2.2, recorded_recordIndex hlogs, toNat_next hlt, hindex]
        omega
      · rwa [(settings_inj.mp handle_settings).1]
      · exact (recovers_congr handle_settings).mpr hrecovers

/-- A run whose last exception is recovered and does not find its record in place. -/
theorem not_along_snoc (h : Run (total Op.run) boot es t) (hindex : t.recordIndex < 256) (hrecovers : Recovers t e)
    (hplace : ¬InPlace t) : ∃ r u, Run (total Op.run) boot (es ++ [(.handle e, r)]) u ∧
      ¬Along (total Op.run) KeptStep boot (es ++ [(.handle e, r)]) := by
  refine ⟨_, _, run_snoc.mpr ⟨t, h, rfl⟩, fun halong => ?_⟩
  exact hplace ((kept_iff_inPlace hindex hrecovers).mp (((along_snoc h).mp halong).2 e rfl))

/-- Without logging, the first exception; and with logging, the 256th. Both mark a record that is not in the array. -/
theorem not_records_kept :
    (∃ es t, es.map Prod.fst = [.init, .disableLogging, .setMode invalidOpcode modeRecover, .handle invalid] ∧
      Run (total Op.run) boot es t ∧ ¬Along (total Op.run) KeptStep boot es) ∧
    ∃ es t, es.map Prod.fst = .init :: .setMode invalidOpcode modeRecover :: List.replicate 256 (.handle invalid) ∧
      Run (total Op.run) boot es t ∧ ¬Along (total Op.run) KeptStep boot es := by
  constructor
  · have hrun : Run (total Op.run) boot
        [(.init, []), (.disableLogging, []), (.setMode invalidOpcode modeRecover, [])] _ :=
      .cons rfl (.cons rfl (.cons rfl (.nil _)))
    have hfirst : ¬InPlace (Op.run (Op.run (Op.run boot .init).2 .disableLogging).2
        (.setMode invalidOpcode modeRecover)).2 := fun h => h.1 rfl
    obtain ⟨r, u, hu, hnot⟩ := not_along_snoc hrun (e := invalid) (by decide)
      ⟨by decide, by decide, by decide, by decide, by decide⟩ hfirst
    exact ⟨_, u, rfl, hu, hnot⟩
  · obtain ⟨es, t, hops, hrun, hindex, hlogs, hrecovers⟩ := run_invalid 255
    have hlast : t.recordIndex = 255 := BitVec.eq_of_toNat_eq hindex
    have hplace : ¬InPlace t := by
      unfold InPlace
      rw [if_neg hlogs, hlast]
      exact fun h => h rfl
    obtain ⟨r, u, hu, hnot⟩ := not_along_snoc hrun (hlast ▸ by decide) hrecovers hplace
    refine ⟨_, u, ?_, hu, hnot⟩
    rw [List.map_append, hops, List.map_singleton, List.cons_append, List.cons_append, ← List.replicate_succ']

end BloodKernel.ExceptionMgmt
