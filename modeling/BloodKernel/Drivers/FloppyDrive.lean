import BloodKernel.Drivers.Dma

set_option autoImplicit false

/-!
# Floppy disks

The hardware that `drivers/floppy.c` talks to: four drives, the 82077AA controller, and channel 2 of the 8237A.

* `Disk`, `Drive`: what is on a disk, and where the heads are; `Drive.step`: the heads stop at the first and at the
  last cylinder;
* `Core`: the drives, the registers and the memory; `Services`: what the rest of the kernel does for the driver;
* `Core.transfer`: a sector and the DMA; `Core.exec`: the commands;
* `Machine`: the controller takes a number of reads of its status register for each access.
-/

namespace BloodKernel.Floppy

open Dma

def sectorSize : ℕ := 512

structure Sector where
  bytes : List U8
  length_eq : bytes.length = sectorSize

/-- The sectors that the tracks have been formatted with, by the cylinder, head and record in their address marks. -/
structure Disk where
  formatted : U8 → U8 → U8 → Bool
  sectors : U8 → U8 → U8 → Sector
  writeProtected : Bool

/-- The heads of a drive are on a cylinder between the first and `last`. -/
structure Drive where
  cylinder : ℕ
  last : ℕ
  disk : Option Disk

/-- The pulses that take the heads from cylinder `a` to `b`, if they were on `a`. -/
def Drive.step (d : Drive) (a b : U8) : Drive :=
  { d with cylinder := min d.last (d.cylinder + b.toNat - a.toNat) }

def driveCount : ℕ := 4

theorem unit_lt (v : U8) : v.toNat % driveCount < driveCount := Nat.mod_lt _ (Nat.succ_pos 3)

/-- The drive that the low two bits of a byte select. -/
def unit (v : U8) : Fin driveCount := ⟨v.toNat % driveCount, unit_lt v⟩

/-- Between commands; in a command; in a transfer for which no sector passes the heads; in the results. -/
inductive Phase
  | idle
  | command (bytes : List U8)
  | waiting
  | result (bytes : List U8)

/-- What the driver relies on in the rest of the kernel. `irq6` says whether an interrupt request 6 leads to a call of
`floppy_irq_handler`, which takes an `irq_handler` that is passed its number, and `tick` whether the timer goes on, so
that `timer_delay` returns. -/
structure Services where
  irq6 : Bool
  tick : Bool

/-- `pending` are the ST0 bytes of the interrupts that no SENSE INTERRUPT STATUS has reported, `irq` is the request at
the interrupt controller, and `irqReceived` the variable that `floppy_irq_handler` sets. -/
structure Core where
  dmac : Dmac
  memory : ℕ → U8
  drives : Fin driveCount → Drive
  dor : U8
  ccr : U8
  pcn : Fin driveCount → U8
  phase : Phase
  pending : List U8
  nonDma : Bool
  impliedSeek : Bool
  irq : Bool
  irqReceived : Bool
  services : Services

/-- The controller requests an interrupt, if bit 3 of `DOR` lets it. -/
def Core.raise (s : Core) : Core := { s with irq := s.irq || s.dor.getLsbD 3 }

/-- The heads of the drive that `DOR` selects step to a cylinder. -/
def Core.moveTo (s : Core) (us cylinder : U8) : Core :=
  { s with
    drives := Function.update s.drives (unit s.dor) ((s.drives (unit s.dor)).step (s.pcn (unit us)) cylinder)
    pcn := Function.update s.pcn (unit us) cylinder }

/-- The bytes of READ DATA and WRITE DATA. -/
structure Request where
  opcode : U8
  hd : U8
  c : U8
  h : U8
  r : U8
  n : U8
  eot : U8

def Request.write (q : Request) : Bool := q.opcode &&& 0x1F = 0x05

/-- The line that selects the head. -/
def Request.side (q : Request) : U8 := if q.hd.getLsbD 2 then 1 else 0

/-- The address mark that the controller looks for is on the track under the head. The disks are recorded in MFM at
500 kbit/s, with 512 bytes in a sector. -/
def Request.Finds (q : Request) (ccr : U8) (d : Drive) (disk : Disk) : Prop :=
  q.opcode.getLsbD 6 = true ∧ ccr = 0 ∧ q.n = 2 ∧ q.c.toNat = d.cylinder ∧ q.h = q.side ∧
    disk.formatted q.c q.h q.r = true

instance decidableFinds (q : Request) (ccr : U8) (d : Drive) (disk : Disk) : Decidable (q.Finds ccr d disk) :=
  inferInstanceAs (Decidable (_ ∧ _ ∧ _ ∧ _ ∧ _ ∧ _))

/-- C, H and R in the results: the sector that would be next. -/
def Request.next (q : Request) : List U8 :=
  if q.r.toNat < q.eot.toNat then [q.c, q.h, q.r + 1, q.n]
  else [if q.h.getLsbD 0 then q.c + 1 else q.c, q.h ^^^ 1, 1, q.n]

/-- The results of a transfer, and its interrupt. -/
def Core.finish (s : Core) (q : Request) (ic st1 : U8) : Core :=
  { s with phase := .result ([ic ||| (q.hd &&& 0x07), st1, 0] ++ q.next) }.raise

def Core.fail (s : Core) (q : Request) (st1 : U8) : Core := s.finish q 0x40 st1

/-- Channel 2 is set up for one sector. Its mode says whether it writes to memory or reads from it. -/
def ChannelReady (r : Regs) (write : Bool) : Prop :=
  r.masked = false ∧ r.count = 511 ∧ r.mode = if write then 0x4A else 0x46

instance decidableChannelReady (r : Regs) (write : Bool) : Decidable (ChannelReady r write) :=
  inferInstanceAs (Decidable (_ ∧ _ ∧ _))

/-- The address of byte `i` of a transfer. -/
def dmaAddr (r : Regs) (i : ℕ) : ℕ := r.page.toNat * 0x10000 + (r.addr.toNat + i) % 0x10000

/-- The channel after the terminal count. -/
def Regs.ended (r : Regs) : Regs := { r with addr := r.addr + r.count + 1, count := 0xFFFF, masked := true }

def channelTwo : Fin 8 := 2

/-- A sector goes to the memory. -/
def dmaStore (r : Regs) (bytes : List U8) (m : ℕ → U8) : ℕ → U8 :=
  bytes.zipIdx.foldl (fun m w => Function.update m (dmaAddr r w.2) w.1) m

/-- A sector comes from the memory. -/
def dmaLoad (r : Regs) (m : ℕ → U8) : Sector where
  bytes := (List.range sectorSize).map fun i => m (dmaAddr r i)
  length_eq := (List.length_map _).trans List.length_range

def Core.channel (s : Core) : Regs := s.dmac.regs channelTwo

/-- The transfer of a sector between the disk and the memory. -/
def Core.move (s : Core) (q : Request) (disk : Disk) : Core :=
  let u := unit s.dor
  let s' : Core := { s with dmac := s.dmac.modify channelTwo Regs.ended }
  if q.write then
    let sectors := fun c h r =>
      if c = q.c ∧ h = q.h ∧ r = q.r then dmaLoad s.channel s.memory else disk.sectors c h r
    { s' with drives := Function.update s.drives u { s.drives u with disk := some { disk with sectors := sectors } } }
  else { s' with memory := dmaStore s.channel (disk.sectors q.c q.h q.r).bytes s.memory }

/-- READ DATA and WRITE DATA. Without the DMA, which the driver always uses, the model goes no further. -/
def Core.transfer (s : Core) (q : Request) : Core :=
  let s := if s.impliedSeek then s.moveTo q.hd q.c else s
  let u := unit s.dor
  match (s.drives u).disk with
  | none => { s with phase := .waiting }
  | some disk =>
      if s.dor.getLsbD (4 + u) = false ∨ s.nonDma = true then { s with phase := .waiting }
      else if q.write = true ∧ disk.writeProtected = true then s.fail q 0x02
      else if ¬q.Finds s.ccr (s.drives u) disk then s.fail q 0x04
      else if s.dor.getLsbD 3 = false ∨ ¬ChannelReady s.channel q.write then s.fail q 0x10
      else (s.move q disk).finish q 0 0

def Core.seek (s : Core) (us cylinder : U8) : Core :=
  { s.moveTo us cylinder with pending := s.pending ++ [0x20 ||| (us &&& 3)] }.raise

/-- SENSE INTERRUPT STATUS. -/
def Core.sense (s : Core) : Core :=
  match s.pending with
  | [] => { s with phase := .result [0x80] }
  | st0 :: pending => { s with phase := .result [st0, s.pcn (unit st0)], pending := pending }

/-- The number of bytes of a command. -/
def commandLength (opcode : U8) : ℕ :=
  match (opcode &&& 0x1F).toNat with
  | 0x03 => 3
  | 0x05 => 9
  | 0x06 => 9
  | 0x0F => 3
  | 0x13 => 4
  | _ => 1

/-- A whole command: SPECIFY, WRITE DATA, READ DATA, SENSE INTERRUPT STATUS, SEEK, CONFIGURE. RECALIBRATE, which
`floppy_calibrate` would send, and the commands that the driver has no code for are taken for invalid. -/
def Core.exec (s : Core) (bs : List U8) : Core :=
  let b (i : ℕ) : U8 := bs.getD i 0
  let s : Core := { s with phase := .idle }
  match (b 0 &&& 0x1F).toNat with
  | 0x03 => { s with nonDma := (b 2).getLsbD 0 }
  | 0x05 => s.transfer ⟨b 0, b 1, b 2, b 3, b 4, b 5, b 6⟩
  | 0x06 => s.transfer ⟨b 0, b 1, b 2, b 3, b 4, b 5, b 6⟩
  | 0x08 => s.sense
  | 0x0F => s.seek (b 1) (b 2)
  | 0x13 => { s with impliedSeek := (b 2).getLsbD 6 }
  | _ => { s with phase := .result [0x80] }

/-- A byte of a command. -/
def Core.receive (s : Core) (bs : List U8) : Core :=
  if bs.length < commandLength (bs.getD 0 0) then { s with phase := .command bs } else s.exec bs

/-- A write to `FDC_DATA`. -/
def Core.put (s : Core) (v : U8) : Core :=
  match s.phase with
  | .idle => s.receive [v]
  | .command bs => s.receive (bs ++ [v])
  | _ => s

/-- A read of `FDC_DATA`. -/
def Core.get (s : Core) : U8 × Core :=
  match s.phase with
  | .result [v] => (v, { s with phase := .idle })
  | .result (v :: vs) => (v, { s with phase := .result vs })
  | _ => (0xFF, s)

/-- `FDC_MSR` of a controller that is not busy. -/
def Core.msr (s : Core) : U8 :=
  match s.phase with
  | .idle => 0x80
  | .command _ => 0x90
  | .waiting => 0x10
  | .result _ => 0xD0

/-- A write to `FDC_DOR`. Bit 2 ends the reset of the controller, which then has an interrupt of each drive. -/
def Core.outDor (s : Core) (v : U8) : Core :=
  if v.getLsbD 2 = false then { s with dor := v, phase := .idle, pending := [] }
  else if s.dor.getLsbD 2 = false then
    { s with dor := v, phase := .idle, pending := [0xC0, 0xC1, 0xC2, 0xC3], impliedSeek := false }.raise
  else { s with dor := v }

/-- The number of reads of `FDC_MSR` after which the driver gives up. -/
def timeout : ℕ := 1000000

/-- After its `k`-th access the controller is busy for `delay k` reads of its status. -/
structure Machine where
  core : Core
  delay : ℕ → ℕ
  prompt : ∀ k, delay k < timeout
  accesses : ℕ
  busy : ℕ
  busy_lt : busy < timeout

/-- An access that leads to `c`. -/
def Machine.access (m : Machine) (c : Core) : Machine :=
  { m with core := c, accesses := m.accesses + 1, busy := m.delay m.accesses, busy_lt := m.prompt m.accesses }

def Machine.outDor (m : Machine) (v : U8) : Machine := m.access (m.core.outDor v)

/-- `inb(FDC_MSR)` -/
def Machine.readMsr (m : Machine) : U8 × Machine :=
  (if 0 < m.busy then 0 else m.core.msr,
    { m with busy := m.busy - 1, busy_lt := (Nat.sub_le m.busy 1).trans_lt m.busy_lt })

/-- `inb(FDC_DATA)` -/
def Machine.inData (m : Machine) : U8 × Machine :=
  if 0 < m.busy then (0xFF, m) else (m.core.get.1, m.access m.core.get.2)

/-- `outb(FDC_DATA, v)` -/
def Machine.outData (m : Machine) (v : U8) : Machine := if 0 < m.busy then m else m.access (m.core.put v)

end BloodKernel.Floppy
