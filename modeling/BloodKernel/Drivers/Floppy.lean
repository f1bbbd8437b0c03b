import BloodKernel.Drivers.FloppyDrive
import BloodKernel.Lib.Flat
import BloodKernel.Lib.Run

set_option autoImplicit false

/-!
# Reading and writing a floppy

`floppy_read_sector` and `floppy_write_sector` of `drivers/floppy.c`, on the hardware of `FloppyDrive`. The sector goes
through `floppy_buffer`, at the address `buf`.

* `core_floppyWriteData`, `floppyReadData_eq`: the polls; `foldl_put_command`, `readResults_eq`: whole commands and
  their results;
* `floppyInit_eq`, `floppySeek_eq`, `transfer_eq`: the functions of the driver;
* `Heads`, `headsStep`: drives whose heads step from where they are; **`floppy_refines_iff`**: all runs of the driver
  are runs of these drives exactly when the DMA can reach `floppy_buffer`, and interrupt and timer work.
-/

namespace BloodKernel.Floppy

open Dma Lib

/-! ## The driver -/

/-- `while (timeout-- && !(inb(FDC_MSR) & MSR_DATA_READY));` -/
def waitReady : ℕ → Machine → Machine
  | 0, m => m
  | n + 1, m => if m.readMsr.1 &&& 0x80 = 0 then waitReady n m.readMsr.2 else m.readMsr.2

def floppyReadData (m : Machine) : U8 × Machine := (waitReady timeout m).inData

def floppyWriteData (m : Machine) (data : U8) : Machine := (waitReady timeout m).outData data

def floppySendCommand (m : Machine) (cmd : U8) : Machine := (waitReady timeout m).outData cmd

def floppyIrqHandler (s : Core) : Core := { s with irqReceived := true }

/-- A request is served, if it gets to the driver. -/
def Core.serve (s : Core) : Core :=
  if s.irq = true ∧ s.services.irq6 = true then floppyIrqHandler { s with irq := false } else s

/-- The request has been served before, or is served in the loop. Else the loop goes on for ever. -/
def floppyWaitIrq (m : Machine) : Option Machine :=
  if m.core.serve.irqReceived then some { m with core := { m.core.serve with irqReceived := false } } else none

/-- `timer_delay(500)` waits for the timer. -/
def timerDelay (m : Machine) : Option Machine := if m.core.services.tick then some m else none

def dorMotor (drive : U8) : U8 := 0x04 ||| 0x08 ||| ((0x10 : U8) <<< drive) ||| drive

def floppyMotorOn (m : Machine) (drive : U8) : Option Machine :=
  if 3 < drive.toNat then some m else timerDelay (m.outDor (dorMotor drive))

/-- `n` calls of `floppy_read_data`. -/
def readResults : ℕ → Machine → List U8 × Machine
  | 0, m => ([], m)
  | n + 1, m =>
      let r := floppyReadData m
      let rs := readResults n r.2
      (r.1 :: rs.1, rs.2)

/-- A command byte, and its parameters. -/
def sendAll (m : Machine) (cmd : U8) (parameters : List U8) : Machine :=
  parameters.foldl floppyWriteData (floppySendCommand m cmd)

/-- The loop of `floppy_reset`. -/
def senseAll : ℕ → Machine → Machine
  | 0, m => m
  | n + 1, m => senseAll n (readResults 2 (floppySendCommand m 0x08)).2

def floppyReset (m : Machine) : Option Machine :=
  (floppyWaitIrq ((m.outDor 0).outDor 0x0C)).map fun m =>
    sendAll (sendAll (senseAll 4 m) 0x13 [0, 0x58, 0]) 0x03 [0xDF, 0x02]

def floppyInit (m : Machine) : Option Machine :=
  (floppyReset m).map fun m => { m with core := { m.core with ccr := 0 } }

/-- The loop of `floppy_seek`. -/
def seekAttempts (drive track : U8) : ℕ → Machine → Option (Bool × Machine)
  | 0, m => some (false, m)
  | n + 1, m =>
      match floppyWaitIrq (sendAll m 0x0F [drive &&& 3, track]) with
      | none => none
      | some m =>
          let r := readResults 2 (floppySendCommand m 0x08)
          let st0 := r.1.getD 0 0
          let pcn := r.1.getD 1 0
          if pcn = track ∧ st0 &&& 0xC0 = 0 then some (true, r.2) else seekAttempts drive track n r.2

def floppySeek (m : Machine) (drive track : U8) : Option (Bool × Machine) :=
  if 3 < drive.toNat then some (false, m) else (floppyMotorOn m drive).bind (seekAttempts drive track 3)

/-- The port writes of `floppy_setup_dma`. -/
def setupDma (read : Bool) (addr : U32) (count : U16) : List (U16 × U8) :=
  [(0x0A, 0x06), (0x0C, 0), (0x0B, if read then 0x46 else 0x4A),
    (0x04, byte addr), (0x04, byte (addr >>> 8)), (0x81, byte (addr >>> 16)),
    (0x05, byte (count - 1)), (0x05, byte ((count - 1) >>> 8)), (0x0A, 0x02)]

def floppySetupDma (m : Machine) (read : Bool) (addr : U32) (count : U16) : Machine :=
  { m with core := { m.core with dmac := m.core.dmac.run (setupDma read addr count) } }

/-- The command, its interrupt and its results, in `floppy_read_sector` and `floppy_write_sector`. -/
def transferSector (m : Machine) (cmd drive track head sector : U8) : Option (Bool × Machine) :=
  (floppyWaitIrq (sendAll m cmd [(head <<< 2) ||| drive, track, head, sector, 2, 18, 0x1B, 0xFF])).map fun m =>
    let r := readResults 7 m
    let st0 := r.1.getD 0 0
    let st1 := r.1.getD 1 0
    let st2 := r.1.getD 2 0
    (decide (st0 &&& 0xC0 = 0 ∧ st1 = 0 ∧ st2 = 0), r.2)

/-- `floppy_buffer`. -/
def Core.buffer (s : Core) (buf : U32) : Sector where
  bytes := readAt s.memory buf.toNat sectorSize
  length_eq := length_readAt _ _ _

/-- The result, and the buffer of the caller. -/
def floppyReadSector (buf : U32) (m : Machine) (drive track head sector : U8) (buffer : Sector) :
    Option ((Bool × Sector) × Machine) :=
  if 3 < drive.toNat then some ((false, buffer), m)
  else
    match floppySeek (floppySetupDma m true buf 512) drive track with
    | none => none
    | some (false, m) => some ((false, buffer), m)
    | some (true, m) =>
        (transferSector m (0x06 ||| 0x80 ||| 0x40) drive track head sector).map fun r =>
          if r.1 then ((true, r.2.core.buffer buf), r.2) else ((false, buffer), r.2)

def floppyWriteSector (buf : U32) (m : Machine) (drive track head sector : U8) (buffer : Sector) :
    Option ((Bool × Sector) × Machine) :=
  if 3 < drive.toNat then some ((false, buffer), m)
  else
    let m := { m with core := { m.core with memory := writeAt m.core.memory buf.toNat buffer.bytes } }
    match floppySeek (floppySetupDma m false buf 512) drive track with
    | none => none
    | some (false, m) => some ((false, buffer), m)
    | some (true, m) =>
        (transferSector m (0x05 ||| 0x80 ||| 0x40) drive track head sector).map fun r => ((r.1, buffer), r.2)

structure Op where
  write : Bool
  drive : U8
  track : U8
  head : U8
  sector : U8
  buffer : Sector

/-- One call, of those that return. -/
def step (buf : U32) (m : Machine) (o : Op) : Option ((Bool × Sector) × Machine) :=
  if o.write then floppyWriteSector buf m o.drive o.track o.head o.sector o.buffer
  else floppyReadSector buf m o.drive o.track o.head o.sector o.buffer

/-! ## Accesses -/

theorem core_waitReady (n : ℕ) (m : Machine) : (waitReady n m).core = m.core := by
  induction n generalizing m with
  | zero => rfl
  | succ n ih =>
      rw [waitReady]
      split_ifs
      · exact ih _
      · rfl

theorem busy_waitReady {n : ℕ} {m : Machine} (hbusy : m.busy < n) (hready : m.core.msr &&& 0x80 ≠ 0) :
    (waitReady n m).busy = 0 := by
  induction n generalizing m with
  | zero => exact absurd hbusy (Nat.not_lt_zero _)
  | succ n ih =>
      rw [waitReady]
      by_cases hzero : 0 < m.busy
      · have hmsr : m.readMsr.1 &&& 0x80 = 0 := by
          rw [Machine.readMsr, if_pos hzero]
          exact BitVec.zero_and
        rw [if_pos hmsr]
        refine ih ?_ hready
        show m.busy - 1 < n
        omega
      · have hmsr : m.readMsr.1 &&& 0x80 ≠ 0 := by
          rw [Machine.readMsr, if_neg hzero]
          exact hready
        rw [if_neg hmsr]
        show m.busy - 1 = 0
        omega

theorem msr_or_waiting (s : Core) : s.msr &&& 0x80 ≠ 0 ∨ s.phase = .waiting := by
  unfold Core.msr
  cases s.phase with
  | waiting => exact Or.inr rfl
  | idle => exact Or.inl (show (0x80 : U8) &&& 0x80 ≠ 0 by decide)
  | command => exact Or.inl (show (0x90 : U8) &&& 0x80 ≠ 0 by decide)
  | result => exact Or.inl (show (0xD0 : U8) &&& 0x80 ≠ 0 by decide)

/-- **A byte to the controller.** -/
theorem core_floppyWriteData (m : Machine) (v : U8) : (floppyWriteData m v).core = m.core.put v := by
  rw [floppyWriteData, Machine.outData]
  rcases msr_or_waiting m.core with hready | hwaiting
  · have hbusy : ¬0 < (waitReady timeout m).busy := by
      rw [busy_waitReady m.busy_lt hready]
      exact Nat.lt_irrefl 0
    rw [if_neg hbusy, core_waitReady]
    rfl
  · have hput : m.core.put v = m.core := by
      rw [Core.put, hwaiting]
    split_ifs
    · rw [core_waitReady, hput]
    · rw [core_waitReady, hput]
      rfl

theorem core_floppySendCommand (m : Machine) (v : U8) : (floppySendCommand m v).core = m.core.put v :=
  core_floppyWriteData m v

/-- **A byte from the controller.** -/
theorem floppyReadData_eq (m : Machine) :
    (floppyReadData m).1 = m.core.get.1 ∧ (floppyReadData m).2.core = m.core.get.2 := by
  rw [floppyReadData, Machine.inData]
  rcases msr_or_waiting m.core with hready | hwaiting
  · have hbusy : ¬0 < (waitReady timeout m).busy := by
      rw [busy_waitReady m.busy_lt hready]
      exact Nat.lt_irrefl 0
    rw [if_neg hbusy, core_waitReady]
    exact ⟨rfl, rfl⟩
  · have hget : m.core.get = (0xFF, m.core) := by
      rw [Core.get, hwaiting]
    split_ifs
    · rw [core_waitReady, hget]
      exact ⟨rfl, rfl⟩
    · rw [core_waitReady, hget]
      exact ⟨rfl, rfl⟩

variable {s : Core} {m : Machine} {buf : U32} {drive track head sector cmd : U8}

/-! ## Commands -/

theorem core_foldl_writeData (bs : List U8) (m : Machine) :
    (bs.foldl floppyWriteData m).core = bs.foldl Core.put m.core := by
  induction bs generalizing m with
  | nil => rfl
  | cons b bs ih => rw [List.foldl_cons, List.foldl_cons, ih, core_floppyWriteData]

theorem foldl_put_command {pre post : List U8} (hphase : s.phase = .command pre) (hne : post ≠ [])
    (hlen : (pre ++ post).length = commandLength ((pre ++ post).getD 0 0)) (hpre : pre ≠ []) :
    post.foldl Core.put s = s.exec (pre ++ post) := by
  induction post generalizing pre s with
  | nil => exact absurd rfl hne
  | cons b post ih =>
      have hsplit : pre ++ b :: post = (pre ++ [b]) ++ post := by rw [List.append_assoc]; rfl
      have hput : s.put b = s.receive (pre ++ [b]) := by rw [Core.put, hphase]
      rw [List.foldl_cons, hput, Core.receive]
      have hhead : (pre ++ [b]).getD 0 0 = (pre ++ b :: post).getD 0 0 := by
        cases pre with
        | nil => exact absurd rfl hpre
        | cons => rfl
      rw [hhead, ← hlen]
      by_cases hlast : post = []
      · subst hlast
        rw [if_neg (Nat.lt_irrefl _)]
        rfl
      · have hlt : (pre ++ [b]).length < (pre ++ b :: post).length := by
          have hpos : 0 < post.length := List.length_pos_iff.mpr hlast
          have hsum : ((pre ++ [b]) ++ post).length = (pre ++ [b]).length + post.length := List.length_append
          rw [hsplit, hsum]
          omega
        rw [if_pos hlt, hsplit]
        exact ih (s := { s with phase := .command (pre ++ [b]) }) rfl hlast (hsplit ▸ hlen)
          (List.append_ne_nil_of_right_ne_nil _ (List.cons_ne_nil _ _))

/-- **A whole command.** -/
theorem core_sendAll (hphase : m.core.phase = .idle) (parameters : List U8)
    (hlen : parameters.length + 1 = commandLength cmd) :
    (sendAll m cmd parameters).core = m.core.exec (cmd :: parameters) := by
  rw [sendAll, core_foldl_writeData, core_floppySendCommand, Core.put, hphase]
  show parameters.foldl Core.put (m.core.receive [cmd]) = _
  rw [Core.receive]
  by_cases hnil : parameters = []
  · subst hnil
    rw [if_neg]
    · rfl
    · show ¬1 < commandLength cmd
      rw [← hlen]
      exact Nat.lt_irrefl 1
  · have hlt : [cmd].length < commandLength ([cmd].getD 0 0) := by
      have hpos : 0 < parameters.length := List.length_pos_iff.mpr hnil
      show 1 < commandLength cmd
      omega
    rw [if_pos hlt]
    exact foldl_put_command (s := { m.core with phase := .command [cmd] }) rfl hnil hlen (List.cons_ne_nil _ _)

theorem readResults_eq {bs : List U8} (hne : bs ≠ []) (hphase : m.core.phase = .result bs) :
    (readResults bs.length m).1 = bs ∧ (readResults bs.length m).2.core = { m.core with phase := .idle } := by
  induction bs generalizing m with
  | nil => exact absurd rfl hne
  | cons b bs ih =>
      obtain ⟨hbyte, hcore⟩ := floppyReadData_eq m
      rw [List.length_cons, readResults]
      cases bs with
      | nil =>
          rw [Core.get, hphase] at hbyte hcore
          exact ⟨congrArg (· :: []) hbyte, hcore⟩
      | cons b' bs =>
          rw [Core.get, hphase] at hbyte hcore
          obtain ⟨hrest, hend⟩ := ih (m := (floppyReadData m).2) (List.cons_ne_nil _ _) (by rw [hcore])
          refine ⟨?_, ?_⟩
          · show _ :: (readResults (b' :: bs).length (floppyReadData m).2).1 = _
            rw [hrest, hbyte]
          · show (readResults (b' :: bs).length (floppyReadData m).2).2.core = _
            rw [hend, hcore]

/-! ## The functions of the driver -/

structure Ready (s : Core) : Prop where
  phase : s.phase = .idle
  pending : s.pending = []
  reset : s.dor.getLsbD 2 = true
  gate : s.dor.getLsbD 3 = true
  dma : s.nonDma = false
  ccr : s.ccr = 0
  irq : s.irq = false
  received : s.irqReceived = false
  services : s.services = ⟨true, true⟩

theorem Ready.replace (h : Ready s) (d : Dmac) (memory : ℕ → U8) : Ready { s with dmac := d, memory := memory } :=
  ⟨h.phase, h.pending, h.reset, h.gate, h.dma, h.ccr, h.irq, h.received, h.services⟩

theorem Ready.irq6 (h : Ready s) : s.services.irq6 = true := congrArg Services.irq6 h.services

theorem Ready.eq_served (h : Ready s) : { s with phase := .idle, irq := false, irqReceived := false } = s := by
  cases s
  obtain ⟨rfl, -, -, -, -, -, rfl, rfl, -⟩ := h
  rfl

theorem waitIrq_eq (hirq : m.core.irq = true) (hserved : m.core.services.irq6 = true) :
    ∃ m', floppyWaitIrq m = some m' ∧ m'.core = { m.core with irq := false, irqReceived := false } := by
  have hserve : m.core.serve = floppyIrqHandler { m.core with irq := false } := if_pos ⟨hirq, hserved⟩
  rw [floppyWaitIrq, hserve]
  exact ⟨_, rfl, rfl⟩

/-- Without a request, or if it does not get to the driver. -/
theorem waitIrq_eq_none (hirq : ¬(m.core.irq = true ∧ m.core.services.irq6 = true))
    (hreceived : m.core.irqReceived = false) : floppyWaitIrq m = none := by
  have hserve : m.core.serve = m.core := if_neg hirq
  rw [floppyWaitIrq, hserve, hreceived]
  rfl

theorem exec_specify (s : Core) : s.exec [0x03, 0xDF, 0x02] = { s with phase := .idle, nonDma := false } := rfl

theorem exec_configure (s : Core) : s.exec [0x13, 0, 0x58, 0] = { s with phase := .idle, impliedSeek := true } := rfl

theorem exec_sense (s : Core) : s.exec [0x08] = Core.sense { s with phase := .idle } := rfl

theorem exec_seek (s : Core) (us cylinder : U8) :
    s.exec [0x0F, us, cylinder] = Core.seek { s with phase := .idle } us cylinder := by
  simp only [Core.exec, List.getD_cons_zero]
  rfl

theorem sense_results {n : ℕ} (hphase : m.core.phase = .idle) {st0 : U8} {rest : List U8}
    (hpending : m.core.pending = st0 :: rest) (hn : n = 2) :
    (readResults n (floppySendCommand m 0x08)).1 = [st0, m.core.pcn (unit st0)] ∧
      (readResults n (floppySendCommand m 0x08)).2.core = { m.core with pending := rest } := by
  subst hn
  have hcommand : (floppySendCommand m 0x08).core =
      { m.core with phase := .result [st0, m.core.pcn (unit st0)], pending := rest } := by
    have hsense : (floppySendCommand m 0x08).core = m.core.exec [0x08] := core_sendAll hphase [] rfl
    rw [hsense, exec_sense]
    simp only [Core.sense, hpending]
  obtain ⟨hbytes, hcore⟩ :=
    readResults_eq (m := floppySendCommand m 0x08) (List.cons_ne_nil _ _) (congrArg Core.phase hcommand)
  refine ⟨hbytes, hcore.trans ?_⟩
  rw [hcommand, ← hphase]

theorem core_senseAll {n : ℕ} (hphase : m.core.phase = .idle) (hn : m.core.pending.length = n) :
    (senseAll n m).core = { m.core with pending := [] } := by
  induction n generalizing m with
  | zero => rw [senseAll, ← List.length_eq_zero_iff.mp hn]
  | succ n ih =>
      obtain ⟨st0, rest, hpending⟩ := List.exists_cons_of_length_eq_add_one hn
      have hcore := (sense_results hphase hpending rfl).2
      have hrest : rest.length = n := by
        rw [hpending, List.length_cons] at hn
        exact Nat.succ_inj.mp hn
      rw [senseAll, ih (by rw [hcore]; exact hphase) (by rw [hcore]; exact hrest), hcore]

theorem core_reset (m : Machine) : ((m.outDor 0).outDor 0x0C).core =
    { m.core with
      dor := 0x0C, phase := .idle, pending := [0xC0, 0xC1, 0xC2, 0xC3], impliedSeek := false, irq := true } := by
  show Core.outDor (Core.outDor m.core 0) 0x0C = _
  simp [Core.outDor, Core.raise]

/-- **After `floppy_init`**, which returns if it gets its interrupt. -/
theorem floppyInit_eq (hserved : m.core.services.irq6 = true) : ∃ m', floppyInit m = some m' ∧
    (m.core.services.tick = true → Ready m'.core) ∧ m'.core.drives = m.core.drives ∧ m'.core.pcn = m.core.pcn ∧
      m'.core.memory = m.core.memory ∧ m'.core.services = m.core.services := by
  have hreset := core_reset m
  obtain ⟨m₁, hm₁, hcore₁⟩ :=
    waitIrq_eq (m := (m.outDor 0).outDor 0x0C) (by rw [hreset]) (by rw [hreset]; exact hserved)
  rw [hreset] at hcore₁
  have hsense : (senseAll 4 m₁).core = { m₁.core with pending := [] } :=
    core_senseAll (by rw [hcore₁]) (by rw [hcore₁]; rfl)
  have hconfigure : (sendAll (senseAll 4 m₁) 0x13 [0, 0x58, 0]).core = _ :=
    core_sendAll (by rw [hsense, hcore₁]) _ rfl
  rw [exec_configure, hsense, hcore₁] at hconfigure
  have hspecify : (sendAll (sendAll (senseAll 4 m₁) 0x13 [0, 0x58, 0]) 0x03 [0xDF, 0x02]).core = _ :=
    core_sendAll (by rw [hconfigure]) _ rfl
  rw [exec_specify, hconfigure] at hspecify
  refine ⟨_, by rw [floppyInit, floppyReset, hm₁]; rfl, fun htick => ?_, ?_⟩
  · have hservices : m.core.services = ⟨true, true⟩ := congrArg₂ Services.mk hserved htick
    simp only [hspecify]
    exact ⟨rfl, rfl, show (0x0C : U8).getLsbD 2 = true by decide, show (0x0C : U8).getLsbD 3 = true by decide, rfl,
      rfl, rfl, rfl, hservices⟩
  · simp only [hspecify]
    exact ⟨trivial, trivial, trivial, trivial⟩

theorem floppyInit_eq_none (hserved : m.core.services.irq6 = false) (hreceived : m.core.irqReceived = false) :
    floppyInit m = none := by
  have hreset := core_reset m
  have hwait : floppyWaitIrq ((m.outDor 0).outDor 0x0C) = none := by
    refine waitIrq_eq_none ?_ (by rw [hreset]; exact hreceived)
    rw [hreset]
    exact fun h => Bool.false_ne_true (hserved.symm.trans h.2)
  rw [floppyInit, floppyReset, hwait]
  rfl

theorem drive_bits : ∀ v : U8, ¬3 < v.toNat →
    (dorMotor v).getLsbD 2 = true ∧ (dorMotor v).getLsbD 3 = true ∧ (dorMotor v).getLsbD (4 + unit v) = true ∧
      unit (dorMotor v) = unit v ∧ v &&& 3 = v ∧ unit (0x20 ||| (v &&& 3)) = unit v ∧
      (0x20 ||| (v &&& 3)) &&& 0xC0 = 0 := by
  decide

/-- The drive selected, with the heads on their way to a track. -/
def Core.sought (s : Core) (drive track : U8) : Core := { s with dor := dorMotor drive }.moveTo drive track

theorem Ready.sought (h : Ready s) (hd : ¬3 < drive.toNat) (track : U8) : Ready (s.sought drive track) where
  phase := h.phase
  pending := h.pending
  reset := (drive_bits drive hd).1
  gate := (drive_bits drive hd).2.1
  dma := h.dma
  ccr := h.ccr
  irq := h.irq
  received := h.received
  services := h.services

theorem sought_pcn (s : Core) (drive track : U8) : (s.sought drive track).pcn (unit drive) = track :=
  Function.update_self _ _ _

/-- **A seek succeeds at once**, wherever the heads are then. -/
theorem floppySeek_eq (h : Ready m.core) (hd : ¬3 < drive.toNat) (track : U8) :
    ∃ m', floppySeek m drive track = some (true, m') ∧ m'.core = m.core.sought drive track := by
  obtain ⟨hreset, hgate, -, hunit, hus, hst0, hic⟩ := drive_bits drive hd
  have hmotor : (m.outDor (dorMotor drive)).core = { m.core with dor := dorMotor drive } := by
    show Core.outDor m.core (dorMotor drive) = _
    rw [Core.outDor, hreset, h.reset]
    rfl
  have hdelay : floppyMotorOn m drive = some (m.outDor (dorMotor drive)) := by
    rw [floppyMotorOn, if_neg hd, timerDelay, hmotor, h.services]
    rfl
  have hseek : (sendAll (m.outDor (dorMotor drive)) 0x0F [drive &&& 3, track]).core =
      { m.core.sought drive track with pending := [0x20 ||| (drive &&& 3)], irq := true } := by
    rw [core_sendAll (by rw [hmotor]; exact h.phase) _ rfl, exec_seek, hmotor, hus]
    simp only [Core.seek, Core.moveTo, Core.raise, Core.sought, h.pending, h.phase, hgate, hus, Bool.or_true,
      List.nil_append]
  obtain ⟨m₁, hm₁, hcore₁⟩ := waitIrq_eq (m := sendAll (m.outDor (dorMotor drive)) 0x0F [drive &&& 3, track])
    (by rw [hseek]) (by rw [hseek]; exact h.irq6)
  rw [hseek] at hcore₁
  have hphase : m₁.core.phase = .idle := by
    rw [hcore₁]
    exact h.phase
  obtain ⟨hbytes, hcore⟩ := sense_results hphase (by rw [hcore₁]) rfl
  have hpcn : m₁.core.pcn (unit (0x20 ||| (drive &&& 3))) = track := by
    rw [hst0, hcore₁]
    exact sought_pcn m.core drive track
  rw [hpcn] at hbytes
  refine ⟨_, ?_, hcore.trans ?_⟩
  · rw [floppySeek, if_neg hd, hdelay, Option.bind_some, seekAttempts, hm₁]
    simp only [hbytes]
    exact if_pos ⟨rfl, hic⟩
  · have hend := h.sought hd track
    have hserved : ({ m.core.sought drive track with pending := [], irq := false, irqReceived := false } : Core) =
        { m.core.sought drive track with phase := .idle, irq := false, irqReceived := false } := by
      rw [← hend.pending, ← hend.phase]
    rw [hcore₁]
    exact hserved.trans hend.eq_served

/-! ## The transfer -/

def request (cmd drive track head sector : U8) : Request := ⟨cmd, (head <<< 2) ||| drive, track, head, sector, 2, 18⟩

/-- How a transfer ends, and what it leaves, if there is a disk. -/
def Core.outcome (s : Core) (q : Request) : Option (Bool × Core) :=
  (s.drives (unit s.dor)).disk.map fun disk =>
    if q.write = true ∧ disk.writeProtected = true ∨ ¬q.Finds s.ccr (s.drives (unit s.dor)) disk ∨
        ¬ChannelReady s.channel q.write then (false, s)
    else (true, s.move q disk)

theorem exec_read (s : Core) (hd c h r n eot gpl dtl : U8) :
    s.exec [0x06 ||| 0x80 ||| 0x40, hd, c, h, r, n, eot, gpl, dtl] =
      Core.transfer { s with phase := .idle } ⟨0x06 ||| 0x80 ||| 0x40, hd, c, h, r, n, eot⟩ := by
  simp only [Core.exec, List.getD_cons_zero]
  rfl

theorem exec_write (s : Core) (hd c h r n eot gpl dtl : U8) :
    s.exec [0x05 ||| 0x80 ||| 0x40, hd, c, h, r, n, eot, gpl, dtl] =
      Core.transfer { s with phase := .idle } ⟨0x05 ||| 0x80 ||| 0x40, hd, c, h, r, n, eot⟩ := by
  simp only [Core.exec, List.getD_cons_zero]
  rfl

/-- Heads that a seek has brought to the track stay there in the implied seek. -/
theorem step_self (d : Drive) (a : U8) (h : d.cylinder ≤ d.last) : d.step a a = d := by
  rw [Drive.step, Nat.add_sub_cancel, Nat.min_eq_right h]

theorem drive_cases : ∀ v : U8, ¬3 < v.toNat → v = 0 ∨ v = 1 ∨ v = 2 ∨ v = 3 := by decide

theorem head_bits (head : U8) (hd : ¬3 < drive.toNat) : unit ((head <<< 2) ||| drive) = unit drive ∧
    ((head <<< 2) ||| drive).getLsbD 2 = head.getLsbD 0 := by
  rcases drive_cases drive hd with rfl | rfl | rfl | rfl <;> revert head <;> decide

theorem status_bits : ∀ v : U8, (0 ||| (v &&& 0x07)) &&& 0xC0 = 0 ∧ (0x40 ||| (v &&& 0x07)) &&& 0xC0 ≠ 0 := by decide

theorem transferSector_finish {c : Core} {q : Request} {ic st1 : U8}
    (hsend : (sendAll m cmd [(head <<< 2) ||| drive, track, head, sector, 2, 18, 0x1B, 0xFF]).core = c.finish q ic st1)
    (h : Ready c) :
    (transferSector m cmd drive track head sector).map (fun r => (r.1, r.2.core)) =
      some (decide ((ic ||| (q.hd &&& 0x07)) &&& 0xC0 = 0 ∧ st1 = 0), c) := by
  obtain ⟨m₁, hm₁, hcore₁⟩ := waitIrq_eq
    (m := sendAll m cmd [(head <<< 2) ||| drive, track, head, sector, 2, 18, 0x1B, 0xFF]) (by
      rw [hsend]
      show (c.irq || c.dor.getLsbD 3) = true
      rw [h.gate, Bool.or_true]) (by
      rw [hsend]
      exact h.irq6)
  rw [hsend] at hcore₁
  have hlen : ([ic ||| (q.hd &&& 0x07), st1, 0] ++ q.next).length = 7 := by
    rw [Request.next]
    split_ifs <;> rfl
  have hresult : m₁.core.phase = .result ([ic ||| (q.hd &&& 0x07), st1, 0] ++ q.next) := by
    rw [hcore₁]
    rfl
  have hne : [ic ||| (q.hd &&& 0x07), st1, 0] ++ q.next ≠ [] := List.cons_ne_nil _ _
  obtain ⟨hbytes, hcore⟩ := readResults_eq hne hresult
  rw [hlen] at hbytes hcore
  have hend : (readResults 7 m₁).2.core = c := by
    rw [hcore, hcore₁]
    exact h.eq_served
  rw [transferSector, hm₁]
  simp only [Option.map_some, hbytes, hend]
  simp

theorem moveTo_self {us : U8} (hunit : unit s.dor = unit drive) (hus : unit us = unit drive)
    (hpcn : s.pcn (unit drive) = track) (hin : (s.drives (unit drive)).cylinder ≤ (s.drives (unit drive)).last) :
    s.moveTo us track = s := by
  have hdrives : Function.update s.drives (unit drive) (s.drives (unit drive)) = s.drives :=
    Function.update_eq_self _ _
  have hpcns : Function.update s.pcn (unit drive) track = s.pcn := hpcn ▸ Function.update_eq_self _ _
  rw [Core.moveTo, hunit, hus, hpcn, step_self _ _ hin, hdrives, hpcns]

theorem Ready.move (h : Ready s) (q : Request) (disk : Disk) : Ready (s.move q disk) := by
  unfold Core.move
  simp only
  split_ifs <;>
    exact ⟨h.phase, h.pending, h.reset, h.gate, h.dma, h.ccr, h.irq, h.received, h.services⟩

/-- **A transfer.** -/
theorem transferSector_eq (h : Ready m.core) (hd : ¬3 < drive.toNat) (hdor : m.core.dor = dorMotor drive)
    (hpcn : m.core.pcn (unit drive) = track)
    (hin : (m.core.drives (unit drive)).cylinder ≤ (m.core.drives (unit drive)).last)
    (hcmd : cmd = 0x06 ||| 0x80 ||| 0x40 ∨ cmd = 0x05 ||| 0x80 ||| 0x40) :
    (transferSector m cmd drive track head sector).map (fun r => (r.1, r.2.core)) =
      m.core.outcome (request cmd drive track head sector) := by
  obtain ⟨-, -, hmotor, hunit, -, -, -⟩ := drive_bits drive hd
  rw [← hdor] at hmotor hunit
  have hidle : ({ m.core with phase := .idle } : Core) = m.core := by rw [← h.phase]
  have hsend : (sendAll m cmd [(head <<< 2) ||| drive, track, head, sector, 2, 18, 0x1B, 0xFF]).core =
      m.core.transfer (request cmd drive track head sector) := by
    rcases hcmd with rfl | rfl
    · rw [core_sendAll h.phase _ rfl, exec_read, hidle]
      rfl
    · rw [core_sendAll h.phase _ rfl, exec_write, hidle]
      rfl
  have hseek : (if m.core.impliedSeek then m.core.moveTo (request cmd drive track head sector).hd
      (request cmd drive track head sector).c else m.core) = m.core := by
    split_ifs
    · exact moveTo_self hunit (head_bits head hd).1 hpcn hin
    · rfl
  rw [Core.transfer, hseek] at hsend
  obtain ⟨hok, hbad⟩ := status_bits (request cmd drive track head sector).hd
  rw [Core.outcome]
  cases hdisk : (m.core.drives (unit m.core.dor)).disk with
  | none =>
      rw [hdisk] at hsend
      have hwait : floppyWaitIrq
          (sendAll m cmd [(head <<< 2) ||| drive, track, head, sector, 2, 18, 0x1B, 0xFF]) = none := by
        refine waitIrq_eq_none ?_ (by rw [hsend]; exact h.received)
        rw [hsend]
        exact fun hirq => Bool.false_ne_true (h.irq.symm.trans hirq.1)
      rw [transferSector, hwait]
      rfl
  | some disk =>
      rw [hdisk] at hsend
      simp only [hunit ▸ hmotor, h.dma, Bool.true_eq_false, Bool.false_eq_true, or_self, if_false] at hsend
      simp only [Option.map_some]
      have hfail {st1 : U8} (hfinish : (sendAll m cmd
          [(head <<< 2) ||| drive, track, head, sector, 2, 18, 0x1B, 0xFF]).core =
            m.core.fail (request cmd drive track head sector) st1) :
          (transferSector m cmd drive track head sector).map (fun r => (r.1, r.2.core)) = some (false, m.core) := by
        rw [transferSector_finish hfinish h]
        simp only [hbad, false_and, decide_false]
      by_cases hprotected : (request cmd drive track head sector).write = true ∧ disk.writeProtected = true
      · rw [if_pos hprotected] at hsend
        rw [if_pos (Or.inl hprotected), hfail hsend]
      · rw [if_neg hprotected] at hsend
        by_cases hfinds : (request cmd drive track head sector).Finds m.core.ccr
            (m.core.drives (unit m.core.dor)) disk
        · rw [if_neg (not_not.mpr hfinds)] at hsend
          by_cases hchannel : ChannelReady m.core.channel (request cmd drive track head sector).write
          · rw [if_neg (not_or.mpr ⟨by simp [h.gate], not_not.mpr hchannel⟩)] at hsend
            rw [if_neg (not_or.mpr ⟨hprotected, not_or.mpr ⟨not_not.mpr hfinds, not_not.mpr hchannel⟩⟩),
              transferSector_finish hsend (h.move _ disk)]
            simp only [hok, true_and, decide_true]
          · rw [if_pos (Or.inr hchannel)] at hsend
            rw [if_pos (Or.inr (Or.inr hchannel)), hfail hsend]
        · rw [if_pos hfinds] at hsend
          rw [if_pos (Or.inr (Or.inl hfinds)), hfail hsend]

/-! ## The DMA -/

theorem regs_setupDma (d : Dmac) (read : Bool) (addr : U32) (count : U16) :
    (d.run (setupDma read addr count)).regs channelTwo =
      ⟨(addr >>> 16).setWidth 8, addr.setWidth 16, count - 1, if read then 0x46 else 0x4A, false⟩ := by
  have hmask (d : Dmac) : d.outb (0x0A, 0x06) = d.modify channelTwo fun r => { r with masked := true } := rfl
  have hclear (d : Dmac) : d.outb (0x0C, 0) = d.setFf (Dma.unit channelTwo) false := rfl
  have hmode (d : Dmac) : d.outb (0x0B, if read then 0x46 else 0x4A) =
      d.modify channelTwo fun r => { r with mode := if read then 0x46 else 0x4A } := by
    cases read <;> rfl
  have haddr (d : Dmac) (v : U8) : d.outb (0x04, v) =
      (d.modify channelTwo fun r => { r with addr := setByte (d.high (Dma.unit channelTwo)) r.addr v }).setFf
        (Dma.unit channelTwo) (!d.high (Dma.unit channelTwo)) := rfl
  have hpage (d : Dmac) (v : U8) : d.outb (0x81, v) = d.modify channelTwo fun r => { r with page := v } := rfl
  have hcount (d : Dmac) (v : U8) : d.outb (0x05, v) =
      (d.modify channelTwo fun r => { r with count := setByte (d.high (Dma.unit channelTwo)) r.count v }).setFf
        (Dma.unit channelTwo) (!d.high (Dma.unit channelTwo)) := rfl
  have hunmask (d : Dmac) : d.outb (0x0A, 0x02) = d.modify channelTwo fun r => { r with masked := false } := rfl
  have hn : (count - 1).setWidth 16 = count - 1 := BitVec.setWidth_eq _
  simp only [setupDma, Dmac.run, List.foldl_cons, List.foldl_nil, hmask, hclear, hmode, haddr, hpage, hcount, hunmask,
    Dmac.setFf_regs, Dmac.modify_self, Dmac.setFf_self, Dmac.modify_high, Bool.not_false, Bool.not_true]
  rw [setByte_setByte (by decide), setByte_setByte (by decide), byte_eq (by decide), hn]

/-- The DMA reaches the buffer: it lies below 16 MiB and in one page of 64 KiB. -/
def DmaFits (buf : U32) : Prop := buf.toNat < 2 ^ 24 ∧ buf.toNat % 0x10000 + sectorSize ≤ 0x10000

def bufferRegs (buf : U32) (read : Bool) : Regs :=
  ⟨(buf >>> 16).setWidth 8, buf.setWidth 16, 511, if read then 0x46 else 0x4A, false⟩

theorem channelReady_bufferRegs (buf : U32) (write : Bool) : ChannelReady (bufferRegs buf !write) write := by
  cases write <;> exact ⟨rfl, rfl, rfl⟩

theorem dmaAddr_bufferRegs (buf : U32) (read : Bool) (i : ℕ) : dmaAddr (bufferRegs buf read) i =
    buf.toNat / 0x10000 % 2 ^ 8 * 0x10000 + (buf.toNat % 2 ^ 16 + i) % 0x10000 := by
  rw [dmaAddr, bufferRegs]
  simp only [BitVec.toNat_setWidth, BitVec.toNat_ushiftRight, Nat.shiftRight_eq_div_pow]

theorem dmaAddr_of_fits (h : DmaFits buf) (read : Bool) {i : ℕ} (hi : i < sectorSize) :
    dmaAddr (bufferRegs buf read) i = buf.toNat + i := by
  obtain ⟨hlow, hpage⟩ := h
  rw [dmaAddr_bufferRegs]
  omega

theorem exists_unreached (h : ¬DmaFits buf) :
    ∃ i < sectorSize, ∀ read, ∀ k, dmaAddr (bufferRegs buf read) k ≠ buf.toNat + i := by
  unfold DmaFits at h
  by_cases hlow : buf.toNat < 2 ^ 24
  · refine ⟨sectorSize - 1, Nat.sub_lt (Nat.succ_pos _) Nat.one_pos, fun read k => ?_⟩
    have hpage : 0x10000 < buf.toNat % 0x10000 + sectorSize := by
      by_contra hle
      exact h ⟨hlow, Nat.not_lt.mp hle⟩
    unfold sectorSize at *
    rw [dmaAddr_bufferRegs]
    omega
  · refine ⟨0, Nat.succ_pos _, fun read k => ?_⟩
    rw [dmaAddr_bufferRegs]
    omega

theorem dmaStore_of_fits (h : DmaFits buf) (read : Bool) (sector : Sector) (m : ℕ → U8) :
    dmaStore (bufferRegs buf read) sector.bytes m = writeAt m buf.toNat sector.bytes := by
  rw [← foldl_update_zipIdx, List.zipIdx_eq_map_add (i := buf.toNat), List.foldl_map, dmaStore]
  refine List.foldl_ext _ _ _ fun m w hw => ?_
  have hlt : w.2 < sectorSize := by
    have hlen := List.snd_lt_of_mem_zipIdx hw
    rwa [sector.length_eq] at hlen
  rw [dmaAddr_of_fits h read hlt]

theorem dmaLoad_of_fits (h : DmaFits buf) (read : Bool) (m : ℕ → U8) :
    (dmaLoad (bufferRegs buf read) m).bytes = readAt m buf.toNat sectorSize := by
  simp only [dmaLoad, readAt]
  refine List.map_congr_left fun i hi => ?_
  rw [dmaAddr_of_fits h read (List.mem_range.mp hi)]

theorem dmaStore_of_ne (r : Regs) {a : ℕ} (h : ∀ k, dmaAddr r k ≠ a) (bytes : List U8) (m : ℕ → U8) :
    dmaStore r bytes m a = m a := by
  unfold dmaStore
  generalize 0 = n
  induction bytes generalizing m n with
  | nil => rfl
  | cons b bytes ih =>
      rw [List.zipIdx_cons, List.foldl_cons, ih]
      exact Function.update_of_ne (h n).symm _ _

/-! ## Calls -/

def opcode (write : Bool) : U8 := if write then 0x05 ||| 0x80 ||| 0x40 else 0x06 ||| 0x80 ||| 0x40

/-- What a caller sees of a call that returns, and what it leaves. -/
def view {β : Type} (r : Option (β × Machine)) : Option (β × Core) := r.map fun r => (r.1, r.2.core)

def Core.aimed (s : Core) (buf : U32) (write : Bool) (drive track : U8) : Core :=
  { s with dmac := s.dmac.run (setupDma (!write) buf 512) }.sought drive track

theorem Ready.aimed (h : Ready s) (hd : ¬3 < drive.toNat) (buf : U32) (write : Bool) (track : U8) :
    Ready (s.aimed buf write drive track) :=
  (h.replace (s.dmac.run (setupDma (!write) buf 512)) s.memory).sought hd track

theorem channel_aimed (s : Core) (buf : U32) (write : Bool) (drive track : U8) :
    (s.aimed buf write drive track).channel = bufferRegs buf !write :=
  regs_setupDma s.dmac (!write) buf 512

theorem view_transfer (h : Ready m.core) (hd : ¬3 < drive.toNat) (buf : U32) (write : Bool) (track head sector : U8) :
    ∃ m', floppySeek (floppySetupDma m (!write) buf 512) drive track = some (true, m') ∧
      view (transferSector m' (opcode write) drive track head sector) =
        (m.core.aimed buf write drive track).outcome (request (opcode write) drive track head sector) := by
  have hready : Ready (floppySetupDma m (!write) buf 512).core := h.replace _ _
  obtain ⟨m', hm', hcore⟩ := floppySeek_eq hready hd track
  have hcore' : m'.core = m.core.aimed buf write drive track := hcore
  have hunit : unit (dorMotor drive) = unit drive := (drive_bits drive hd).2.2.2.1
  refine ⟨m', hm', ?_⟩
  rw [← hcore']
  refine transferSector_eq (hcore' ▸ h.aimed hd buf write track) hd ?_ ?_ ?_ ?_
  · rw [hcore']
    rfl
  · rw [hcore']
    exact sought_pcn _ _ _
  · rw [hcore]
    simp only [Core.sought, Core.moveTo, hunit, Function.update_self, Drive.step]
    exact Nat.min_le_left _ _
  · cases write
    · exact Or.inl rfl
    · exact Or.inr rfl

/-- **A read.** -/
theorem view_read (h : Ready m.core) (hd : ¬3 < drive.toNat) (buf : U32) (track head sector : U8) (buffer : Sector) :
    view (floppyReadSector buf m drive track head sector buffer) =
      ((m.core.aimed buf false drive track).outcome (request (opcode false) drive track head sector)).map
        fun r => ((r.1, if r.1 then r.2.buffer buf else buffer), r.2) := by
  obtain ⟨m', hm', hview⟩ := view_transfer h hd buf false track head sector
  rw [floppyReadSector, if_neg hd]
  have hseek : floppySeek (floppySetupDma m true buf 512) drive track = some (true, m') := hm'
  rw [hseek, ← hview]
  simp only [view, Option.map_map]
  refine Option.map_congr fun r _ => ?_
  simp only [Function.comp_apply]
  split_ifs with hr
  · rw [hr]
  · rw [Bool.not_eq_true] at hr
    rw [hr]

/-- **A write.** -/
theorem view_write (h : Ready m.core) (hd : ¬3 < drive.toNat) (buf : U32) (track head sector : U8) (buffer : Sector) :
    view (floppyWriteSector buf m drive track head sector buffer) =
      (({ m.core with memory := writeAt m.core.memory buf.toNat buffer.bytes }.aimed buf true drive track).outcome
        (request (opcode true) drive track head sector)).map fun r : Bool × Core => ((r.1, buffer), r.2) := by
  obtain ⟨m', hm', hview⟩ := view_transfer
    (m := { m with core := { m.core with memory := writeAt m.core.memory buf.toNat buffer.bytes } })
    (h.replace _ _) hd buf true track head sector
  rw [floppyWriteSector, if_neg hd]
  have hseek : floppySeek (floppySetupDma
      { m with core := { m.core with memory := writeAt m.core.memory buf.toNat buffer.bytes } } false buf 512)
        drive track = some (true, m') := hm'
  simp only [hseek]
  rw [← hview]
  simp only [view, Option.map_map]
  rfl

/-! ## Drives -/

/-- The drives, and the cylinders that the controller takes their heads to be on. -/
structure Heads where
  drives : Fin driveCount → Drive
  pcn : Fin driveCount → U8

def Core.heads (s : Core) : Heads := ⟨s.drives, s.pcn⟩

/-- The heads of a drive step to a track. -/
def Heads.seek (a : Heads) (u : Fin driveCount) (track : U8) : Heads where
  drives := Function.update a.drives u ((a.drives u).step (a.pcn u) track)
  pcn := Function.update a.pcn u track

/-- The heads are on the cylinder of a sector that there is. -/
def Drive.Has (d : Drive) (disk : Disk) (track head sector : U8) : Prop :=
  d.cylinder = track.toNat ∧ head.toNat < 2 ∧ disk.formatted track head sector = true

instance decidableHas (d : Drive) (disk : Disk) (track head sector : U8) : Decidable (d.Has disk track head sector) :=
  inferInstanceAs (Decidable (_ ∧ _ ∧ _))

def Disk.store (disk : Disk) (track head sector : U8) (buffer : Sector) : Disk :=
  { disk with
    sectors := fun c h r => if c = track ∧ h = head ∧ r = sector then buffer else disk.sectors c h r }

def Heads.setDisk (a : Heads) (u : Fin driveCount) (disk : Disk) : Heads :=
  { a with drives := Function.update a.drives u { a.drives u with disk := some disk } }

/-- A transfer by drive `u`. It ends if there is a disk in the drive. -/
def headsTransfer (a : Heads) (u : Fin driveCount) (o : Op) : Option ((Bool × Sector) × Heads) :=
  (a.drives u).disk.map fun disk =>
    if o.write = true ∧ disk.writeProtected = true ∨ ¬(a.drives u).Has disk o.track o.head o.sector then
      ((false, o.buffer), a)
    else if o.write then ((true, o.buffer), a.setDisk u (disk.store o.track o.head o.sector o.buffer))
    else ((true, disk.sectors o.track o.head o.sector), a)

/-- A call, on the drives themselves. -/
def headsStep (a : Heads) (o : Op) : Option ((Bool × Sector) × Heads) :=
  if 3 < o.drive.toNat then some ((false, o.buffer), a)
  else headsTransfer (a.seek (unit o.drive) o.track) (unit o.drive) o

theorem heads_aimed (s : Core) (buf : U32) (write : Bool) (hd : ¬3 < drive.toNat) (track : U8) :
    (s.aimed buf write drive track).heads = s.heads.seek (unit drive) track := by
  have hunit : unit (dorMotor drive) = unit drive := (drive_bits drive hd).2.2.2.1
  simp only [Core.aimed, Core.sought, Core.moveTo, Core.heads, Heads.seek, hunit]

theorem unit_aimed (s : Core) (buf : U32) (write : Bool) (hd : ¬3 < drive.toNat) (track : U8) :
    unit (s.aimed buf write drive track).dor = unit drive := (drive_bits drive hd).2.2.2.1

theorem head_eq_iff : ∀ v : U8, (v = if v.getLsbD 0 then 1 else 0) ↔ v.toNat < 2 := by decide

theorem finds_iff (hd : ¬3 < drive.toNat) (write : Bool) (d : Drive) (disk : Disk) :
    (request (opcode write) drive track head sector).Finds 0 d disk ↔ d.Has disk track head sector := by
  have hmfm : (opcode write).getLsbD 6 = true := by cases write <;> rfl
  have hside : (request (opcode write) drive track head sector).side = if head.getLsbD 0 then 1 else 0 := by
    rw [Request.side]
    simp only [request, (head_bits head hd).2]
  rw [Request.Finds, hside]
  simp only [request, hmfm, head_eq_iff, Drive.Has, true_and, eq_comm (a := track.toNat)]

theorem write_request (write : Bool) : (request (opcode write) drive track head sector).write = write := by
  cases write <;> simp [Request.write, request, opcode]

/-- **The transfer on the drives.** -/
theorem outcome_aimed (h : Ready s) (hd : ¬3 < drive.toNat) (buf : U32) (write : Bool) (track head sector : U8) :
    (s.aimed buf write drive track).outcome (request (opcode write) drive track head sector) =
      ((s.heads.seek (unit drive) track).drives (unit drive)).disk.map fun disk =>
        if write = true ∧ disk.writeProtected = true ∨
            ¬((s.heads.seek (unit drive) track).drives (unit drive)).Has disk track head sector then
          (false, s.aimed buf write drive track)
        else (true, (s.aimed buf write drive track).move (request (opcode write) drive track head sector) disk) := by
  have hready := h.aimed hd buf write track
  have hdrives : (s.aimed buf write drive track).drives = (s.heads.seek (unit drive) track).drives :=
    congrArg Heads.drives (heads_aimed s buf write hd track)
  have hchannel : ChannelReady (s.aimed buf write drive track).channel write := by
    rw [channel_aimed]
    exact channelReady_bufferRegs buf write
  rw [Core.outcome, hready.ccr, unit_aimed s buf write hd track, hdrives]
  refine Option.map_congr fun disk _ => ?_
  simp only [write_request, finds_iff hd, hchannel, not_true_eq_false, or_false]

@[ext] theorem Sector.ext {a b : Sector} (h : a.bytes = b.bytes) : a = b := by
  cases a
  cases b
  cases h
  rfl

theorem bytes_buffer (s : Core) (buf : U32) : (s.buffer buf).bytes = readAt s.memory buf.toNat sectorSize := by
  simp only [Core.buffer]

theorem move_read (hfits : DmaFits buf) (hchannel : s.channel = bufferRegs buf true) {q : Request}
    (hq : q.write = false) (disk : Disk) :
    (s.move q disk).heads = s.heads ∧ (s.move q disk).buffer buf = disk.sectors q.c q.h q.r := by
  simp only [Core.move, hq, hchannel, dmaStore_of_fits hfits, Bool.false_eq_true, if_false]
  have hread := readAt_writeAt s.memory buf.toNat (disk.sectors q.c q.h q.r).bytes
  rw [(disk.sectors q.c q.h q.r).length_eq] at hread
  refine ⟨rfl, Sector.ext ?_⟩
  rw [bytes_buffer]
  exact hread

theorem move_write (hfits : DmaFits buf) (hchannel : s.channel = bufferRegs buf false) {q : Request}
    (hq : q.write = true) (disk : Disk) {buffer : Sector}
    (hbuffer : readAt s.memory buf.toNat sectorSize = buffer.bytes) :
    (s.move q disk).heads = s.heads.setDisk (unit s.dor) (disk.store q.c q.h q.r buffer) := by
  have hload : dmaLoad (bufferRegs buf false) s.memory = buffer :=
    Sector.ext ((dmaLoad_of_fits hfits false s.memory).trans hbuffer)
  simp only [Core.move, hq, hchannel, hload, if_true, Core.heads, Heads.setDisk, Disk.store]

theorem step_of_lt {o : Op} (hd : 3 < o.drive.toNat) : step buf m o = some ((false, o.buffer), m) := by
  rw [step, floppyWriteSector, floppyReadSector, if_pos hd, if_pos hd, ite_self]

theorem Ready.outcome (h : Ready s) {q : Request} {r : Bool} {c : Core} (hc : s.outcome q = some (r, c)) : Ready c := by
  obtain ⟨disk, -, hc⟩ := Option.map_eq_some_iff.mp hc
  split_ifs at hc
  · cases hc
    exact h
  · cases hc
    exact h.move q disk

theorem ready_step (h : Ready m.core) {o : Op} {r : Bool × Sector} {m' : Machine}
    (hstep : step buf m o = some (r, m')) : Ready m'.core := by
  by_cases hd : 3 < o.drive.toNat
  · rw [step_of_lt hd] at hstep
    cases hstep
    exact h
  · have hview : view (step buf m o) = some (r, m'.core) := congrArg view hstep
    cases hw : o.write with
    | false =>
        rw [step, hw, if_neg Bool.false_ne_true, view_read h hd] at hview
        obtain ⟨x, hx, heq⟩ := Option.map_eq_some_iff.mp hview
        rw [← (Prod.mk.inj heq).2]
        exact (h.aimed hd buf false o.track).outcome hx
    | true =>
        rw [step, hw, if_pos rfl, view_write h hd] at hview
        obtain ⟨x, hx, heq⟩ := Option.map_eq_some_iff.mp hview
        rw [← (Prod.mk.inj heq).2]
        exact ((h.replace m.core.dmac _).aimed hd buf true o.track).outcome hx

/-- **A call** of the driver is a call of the drives. -/
theorem view_step (hfits : DmaFits buf) (h : Ready m.core) (o : Op) :
    (view (step buf m o)).map (fun r => (r.1, r.2.heads)) = headsStep m.core.heads o := by
  by_cases hd : 3 < o.drive.toNat
  · rw [step_of_lt hd, headsStep, if_pos hd]
    rfl
  · cases hw : o.write with
    | false =>
        rw [step, hw, if_neg Bool.false_ne_true, view_read h hd, outcome_aimed h hd, headsStep, if_neg hd,
          headsTransfer]
        simp only [Option.map_map, hw]
        refine Option.map_congr fun disk _ => ?_
        have hread : (request (opcode false) o.drive o.track o.head o.sector).write = false := write_request false
        obtain ⟨hheads, hbuffer⟩ := move_read hfits (channel_aimed m.core buf false o.drive o.track) hread disk
        simp only [Function.comp_apply, Bool.false_eq_true, false_and, false_or, if_false]
        by_cases hhas :
            ((m.core.heads.seek (unit o.drive) o.track).drives (unit o.drive)).Has disk o.track o.head o.sector
        · simp only [hhas, not_true_eq_false, if_false, if_true, hheads, hbuffer, heads_aimed m.core buf false hd]
          rfl
        · simp only [hhas, not_false_eq_true, if_true, Bool.false_eq_true, if_false, heads_aimed m.core buf false hd]
    | true =>
        obtain ⟨s, hs⟩ : ∃ s : Core, s = { m.core with memory := writeAt m.core.memory buf.toNat o.buffer.bytes } :=
          ⟨_, rfl⟩
        have hready : Ready s := hs ▸ h.replace _ _
        have hheads : s.heads = m.core.heads := by rw [hs]; rfl
        rw [step, hw, if_pos rfl, view_write h hd, ← hs, outcome_aimed hready hd, headsStep, if_neg hd, headsTransfer,
          hheads]
        simp only [Option.map_map, hw]
        refine Option.map_congr fun disk _ => ?_
        have hbuffer : readAt (s.aimed buf true o.drive o.track).memory buf.toNat sectorSize = o.buffer.bytes := by
          have hread := readAt_writeAt m.core.memory buf.toNat o.buffer.bytes
          rw [o.buffer.length_eq] at hread
          rw [hs]
          exact hread
        have hwrite : (request (opcode true) o.drive o.track o.head o.sector).write = true := write_request true
        have hmove := move_write hfits (channel_aimed s buf true o.drive o.track) hwrite disk hbuffer
        simp only [Function.comp_apply, true_and]
        by_cases hbad : disk.writeProtected = true ∨
            ¬((m.core.heads.seek (unit o.drive) o.track).drives (unit o.drive)).Has disk o.track o.head o.sector
        · rw [if_pos hbad, if_pos hbad, heads_aimed s buf true hd, hheads]
        · rw [if_neg hbad, if_neg hbad, hmove, heads_aimed s buf true hd, hheads, unit_aimed s buf true hd]
          rfl

/-! ## Runs -/

theorem run_heads_iff (hfits : DmaFits buf) {m₀ : Machine} (hk : m₀.core.services = ⟨true, true⟩)
    (hm : floppyInit m₀ = some m) {es : List (Op × (Bool × Sector))} {a : Heads} :
    (∃ t, Run (step buf) m es t ∧ t.core.heads = a) ↔ Run headsStep m₀.core.heads es a := by
  obtain ⟨m', hm', hready, hdrives, hpcn, -, -⟩ := floppyInit_eq (congrArg Services.irq6 hk)
  cases hm.symm.trans hm'
  have hheads : m.core.heads = m₀.core.heads := by
    rw [Core.heads, hdrives, hpcn]
    rfl
  have hstep (m : Machine) (o : Op) (h : Ready m.core) :
      (step buf m o).map (fun r => (r.1, r.2.core.heads)) = headsStep m.core.heads o := by
    rw [← view_step hfits h o, view, Option.map_map]
    rfl
  rw [← hheads]
  exact run_image_iff (I := fun m : Machine => Ready m.core) (f := fun m : Machine => m.core.heads)
    (fun m o r m' h hs => ready_step h hs) hstep (hready (congrArg Services.tick hk))

/-- All bytes are `v`. -/
def constant (v : U8) : Sector := ⟨List.replicate sectorSize v, List.length_replicate⟩

/-- Formatted, and full of ones. -/
def onesDisk : Disk := ⟨fun _ _ _ => true, fun _ _ _ => constant 1, false⟩

theorem zero_lt_timeout : 0 < timeout := Nat.succ_pos 999999

/-- A disk in each drive, and the memory full of zeros. -/
def onesMachine (services : Services) : Machine where
  core := ⟨someDmac, fun _ => 0, fun _ => ⟨0, 79, some onesDisk⟩, 0, 0, fun _ => 0, .idle, [], false, false, false,
    false, services⟩
  delay := fun _ => 0
  prompt := fun _ => zero_lt_timeout
  accesses := 0
  busy := 0
  busy_lt := zero_lt_timeout

/-- The first sector of the first drive is read. -/
def readFirst : Op := ⟨false, 0, 0, 0, 1, constant 0⟩

theorem step_readFirst {k : Services} (h : Ready m.core) (hheads : m.core.heads = (onesMachine k).core.heads)
    (buf : U32) : ∃ B m', step buf m readFirst = some ((true, B), m') ∧
      B.bytes = readAt (dmaStore (bufferRegs buf true) (constant 1).bytes m.core.memory) buf.toNat sectorSize := by
  have hd : ¬3 < readFirst.drive.toNat := by decide
  have hview : view (step buf m readFirst) = _ := view_read h hd buf 0 0 1 (constant 0)
  have hdisk : ((m.core.heads.seek (unit readFirst.drive) 0).drives (unit readFirst.drive)).disk = some onesDisk := by
    rw [hheads]
    rfl
  have hhas : ((m.core.heads.seek (unit readFirst.drive) 0).drives (unit readFirst.drive)).Has onesDisk 0 0 1 := by
    rw [hheads]
    exact ⟨rfl, by decide, rfl⟩
  rw [outcome_aimed h hd, hdisk] at hview
  simp only [Option.map_some, Bool.false_eq_true, false_and, hhas, not_true_eq_false, or_self, if_false, if_true]
    at hview
  obtain ⟨⟨⟨r, B⟩, m'⟩, hstep, heq⟩ := Option.map_eq_some_iff.mp hview
  obtain ⟨hr, -⟩ := Prod.mk.inj heq
  obtain ⟨rfl, rfl⟩ := Prod.mk.inj hr
  have hmove : ((m.core.aimed buf false readFirst.drive 0).move (request (opcode false) readFirst.drive 0 0 1)
      onesDisk).memory = dmaStore (m.core.aimed buf false readFirst.drive 0).channel (constant 1).bytes
        m.core.memory := by
    simp only [Core.move, write_request, Bool.false_eq_true, if_false]
    rfl
  refine ⟨_, m', hstep, ?_⟩
  rw [bytes_buffer, hmove, channel_aimed]
  rfl

theorem headsStep_readFirst (k : Services) :
    ∃ a, headsStep (onesMachine k).core.heads readFirst = some ((true, constant 1), a) := ⟨_, rfl⟩

theorem step_readFirst_eq_none (h : m.core.services.tick = false) : step buf m readFirst = none := by
  have hmotor : floppyMotorOn (floppySetupDma m true buf 512) 0 = none := by
    show timerDelay ((floppySetupDma m true buf 512).outDor (dorMotor 0)) = none
    have hservices : ((floppySetupDma m true buf 512).outDor (dorMotor 0)).core.services = m.core.services := by
      show (Core.outDor _ _).services = _
      unfold Core.outDor
      split_ifs <;> rfl
    rw [timerDelay, hservices, h]
    rfl
  show (match floppySeek (floppySetupDma m true buf 512) 0 0 with
    | none => none
    | some (false, m) => some ((false, constant 0), m)
    | some (true, m) => _) = none
  have hseek : floppySeek (floppySetupDma m true buf 512) 0 0 = none := by
    show (floppyMotorOn (floppySetupDma m true buf 512) 0).bind _ = none
    rw [hmotor]
    rfl
  rw [hseek]

/-- A read shows a byte that the DMA has not brought. -/
theorem dmaFits_of_read {k : Services} {B : Sector} (hready : Ready m.core)
    (hheads : m.core.heads = (onesMachine k).core.heads) (hmemory : m.core.memory = fun _ => 0)
    {m' : Machine} (hstep : step buf m readFirst = some ((true, B), m')) (hones : B = constant 1) : DmaFits buf := by
  by_contra hfits
  obtain ⟨B', t, hstep', hbytes⟩ := step_readFirst hready hheads buf
  obtain ⟨rfl, -⟩ : B = B' ∧ m' = t := by
    obtain ⟨h₁, h₂⟩ := Prod.mk.inj (Option.some_inj.mp (hstep.symm.trans hstep'))
    exact ⟨congrArg Prod.snd h₁, h₂⟩
  obtain ⟨i, hi, hunreached⟩ := exists_unreached hfits
  -- byte `i` is still the zero that was in the memory
  have hlt : i < B.bytes.length := B.length_eq.symm ▸ hi
  have hzero : B.bytes[i] = 0 := by
    have hget := List.getElem_of_eq hbytes hlt
    rw [hget, getElem_readAt, dmaStore_of_ne _ (hunreached true), hmemory]
  have hone : B.bytes[i] = 1 := by
    have hget := List.getElem_of_eq (congrArg Sector.bytes hones) hlt
    rw [hget]
    exact List.getElem_replicate _
  rw [hzero] at hone
  exact absurd hone (by decide)

/-- The DMA reaches `floppy_buffer`, request 6 gets to `floppy_irq_handler`, and the timer goes on. -/
structure Given (buf : U32) (k : Services) : Prop where
  fits : DmaFits buf
  irq6 : k.irq6 = true
  tick : k.tick = true

/-- The driver starts, and its runs are those of the drives. -/
def Refines (buf : U32) (k : Services) : Prop :=
  ∀ m₀, m₀.core.services = k → m₀.core.irqReceived = false → ∃ m, floppyInit m₀ = some m ∧ ∀ es a,
    (∃ t, Run (step buf) m es t ∧ t.core.heads = a) ↔ Run headsStep m₀.core.heads es a

/-- **The driver and the drives.** `floppy_init` returns, wherever the heads are. In the sequences of calls after it
each call does what its drive can do: it returns if there is a disk, with 1 exactly when the sector is under the heads
after they have stepped from where they were and is not to be written to a protected disk, and then with the bytes
that were written last or were on the disk; a call that returns 0 changes no sector. This is so exactly when the DMA
can reach all of `floppy_buffer`, request 6 gets to `floppy_irq_handler`, and the timer goes on. -/
theorem floppy_refines_iff (buf : U32) (k : Services) : Refines buf k ↔ Given buf k := by
  constructor
  · intro h
    obtain ⟨m, hm, hruns⟩ := h (onesMachine k) rfl rfl
    have hirq6 : k.irq6 = true := Bool.of_not_eq_false fun hserved => by
      rw [floppyInit_eq_none hserved rfl] at hm
      cases hm
    obtain ⟨m', hm', hready, hdrives, hpcn, hmemory, hservices⟩ := floppyInit_eq (m := onesMachine k) hirq6
    cases hm.symm.trans hm'
    have hheads : m.core.heads = (onesMachine k).core.heads := by
      rw [Core.heads, hdrives, hpcn]
      rfl
    obtain ⟨a, ha⟩ := headsStep_readFirst k
    obtain ⟨t, ht, -⟩ := (hruns [(readFirst, (true, constant 1))] a).mpr (.cons ha (.nil _))
    obtain ⟨m₁, hstep, -⟩ := run_cons.mp ht
    have htick : k.tick = true := Bool.of_not_eq_false fun hstopped => by
      rw [step_readFirst_eq_none (hservices ▸ hstopped)] at hstep
      cases hstep
    exact ⟨dmaFits_of_read (hready htick) hheads hmemory hstep rfl, hirq6, htick⟩
  · intro h m₀ hk hreceived
    have hall : m₀.core.services = ⟨true, true⟩ := hk.trans (congrArg₂ Services.mk h.irq6 h.tick)
    obtain ⟨m, hm, -⟩ := floppyInit_eq (m := m₀) (congrArg Services.irq6 hall)
    exact ⟨m, hm, fun es a => run_heads_iff h.fits hall hm⟩

/-- A buffer in low memory; without the interrupt; and a buffer across 64 KiB. -/
theorem floppy_refines_iff_low :
    Refines 0x1000 ⟨true, true⟩ ∧ ¬Refines 0x1000 ⟨false, true⟩ ∧ ¬Refines 0xFF00 ⟨true, true⟩ := by
  refine ⟨(floppy_refines_iff 0x1000 _).mpr ⟨⟨by decide, by decide⟩, rfl, rfl⟩, fun h => ?_, fun h => ?_⟩
  · exact Bool.false_ne_true ((floppy_refines_iff 0x1000 _).mp h).irq6
  · exact absurd ((floppy_refines_iff 0xFF00 _).mp h).fits.2 (by decide)

end BloodKernel.Floppy
