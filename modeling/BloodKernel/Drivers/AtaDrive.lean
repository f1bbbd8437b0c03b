import BloodKernel.Kernel.Types

set_option autoImplicit false

/-!
# ATA drives

The drives that `drivers/ata.c` talks to: two on each cable, which share the registers of the command block. A
drive is without faults: it is busy after each command and each sector for less than the reads of its status
register that the driver waits.

* `Drive`, `Phase`: one drive; `Drive.status`, `Drive.command`, `Drive.take`, `Drive.put`: what an access does.
* `Bus`: the two drives and the registers.
* **`foldl_put`**, **`takes_eq`**: 256 accesses to the data register transfer one sector.
-/

namespace BloodKernel.Ata

/-- Between commands; a command that was refused; the transfer of a sector to the host, from a word on, with
the number of sectors left; the transfer from the host, with the words received. -/
inductive Phase
  | idle
  | failed
  | reading (lba left word : ℕ)
  | writing (lba left : ℕ) (words : List U16)
  deriving DecidableEq

/-- The number of reads of the status register after which the driver gives up. -/
def timeout : ℕ := 1000000

/-- A drive with 28-bit addresses. It is busy for the `k`-th time for `delay k` reads of its status. -/
structure Drive where
  capacity : ℕ
  capacity_le : capacity ≤ 2 ^ 28
  delay : ℕ → ℕ
  prompt : ∀ k, delay k < timeout
  sectors : ℕ → ℕ → U16
  phase : Phase
  started : ℕ
  busy : ℕ
  busy_lt : busy < timeout

/-- The drive becomes busy, and then enters a phase. -/
def Drive.start (d : Drive) (phase : Phase) : Drive :=
  { d with phase := phase, busy := d.delay d.started, started := d.started + 1, busy_lt := d.prompt d.started }

/-- The status register of a drive that is not busy: DRDY with ERR or DRQ. -/
def Phase.status : Phase → U8
  | .idle => 0x40
  | .failed => 0x41
  | .reading _ _ _ => 0x48
  | .writing _ _ _ => 0x48

def Drive.status (d : Drive) : U8 := if 0 < d.busy then 0x80 else d.phase.status

/-- A read of the status register. -/
def Drive.poll (d : Drive) : Drive :=
  { d with busy := d.busy - 1, busy_lt := (Nat.sub_le d.busy 1).trans_lt d.busy_lt }

/-- No longer busy. -/
def Drive.ready (d : Drive) : Drive := { d with busy := 0, busy_lt := Nat.succ_pos 999999 }

def readSectors : U8 := 0x20

def writeSectors : U8 := 0x30

def cacheFlush : U8 := 0xE7

/-- A write to the command register. It ends what the drive was doing. -/
def Drive.command (d : Drive) (cmd : U8) (lba n : ℕ) : Drive :=
  if cmd = readSectors then d.start (if lba + n ≤ d.capacity then .reading lba n 0 else .failed)
  else if cmd = writeSectors then d.start (if lba + n ≤ d.capacity then .writing lba n [] else .failed)
  else if cmd = cacheFlush then d.start .idle
  else d.start .failed

/-- A read of the data register. -/
def Drive.take (d : Drive) : U16 × Drive :=
  match d.phase with
  | .reading lba left word =>
      (d.sectors lba word,
        if word + 1 < 256 then { d with phase := .reading lba left (word + 1) }
        else if left = 1 then { d with phase := .idle }
        else d.start (.reading (lba + 1) (left - 1) 0))
  | _ => (0xFFFF, d)

/-- A write to the data register. The sector is stored with its last word. -/
def Drive.put (d : Drive) (v : U16) : Drive :=
  match d.phase with
  | .writing lba left words =>
      if words.length + 1 < 256 then { d with phase := .writing lba left (words ++ [v]) }
      else
        { d with sectors := Function.update d.sectors lba fun i => (words ++ [v]).getD i 0 }.start
          (if left = 1 then .idle else .writing (lba + 1) (left - 1) [])
  | _ => d

/-- The two drives of a cable, and the registers of the command block. -/
structure Bus where
  slot : Bool → Option Drive
  drive : U8
  seccount : U8
  lbaLow : U8
  lbaMid : U8
  lbaHigh : U8

/-- Bit 4 of the drive register. -/
def Bus.selected (b : Bus) : Bool := b.drive.getLsbD 4

/-- The drive that is selected, if it is there. -/
def Bus.current (b : Bus) : Option Drive := b.slot b.selected

def Bus.setCurrent (b : Bus) (d : Drive) : Bus := { b with slot := Function.update b.slot b.selected (some d) }

/-- The address in the registers. -/
def Bus.lba (b : Bus) : ℕ :=
  b.lbaLow.toNat + 2 ^ 8 * b.lbaMid.toNat + 2 ^ 16 * b.lbaHigh.toNat + 2 ^ 24 * (b.drive.toNat % 16)

/-- The number of sectors in the registers: 0 is 256. -/
def Bus.count (b : Bus) : ℕ := if b.seccount = 0 then 256 else b.seccount.toNat

/-- `inb(base + ATA_REG_STATUS)`. Without the drive, the register reads zero. -/
def Bus.readStatus (b : Bus) : U8 × Bus :=
  match b.current with
  | some d => (d.status, b.setCurrent d.poll)
  | none => (0, b)

/-- `outb(base + ATA_REG_COMMAND, cmd)` -/
def Bus.writeCommand (b : Bus) (cmd : U8) : Bus :=
  match b.current with
  | some d => b.setCurrent (d.command cmd b.lba b.count)
  | none => b

/-- `inw(base + ATA_REG_DATA)` -/
def Bus.readData (b : Bus) : U16 × Bus :=
  match b.current with
  | some d => (d.take.1, b.setCurrent d.take.2)
  | none => (0xFFFF, b)

/-- `outw(base + ATA_REG_DATA, v)` -/
def Bus.writeData (b : Bus) (v : U16) : Bus :=
  match b.current with
  | some d => b.setCurrent (d.put v)
  | none => b

/-! ## The selected drive -/

variable {b : Bus} {d d' : Drive} {lba left n word : ℕ} {words vs : List U16}

@[simp] theorem current_setCurrent (b : Bus) (d : Drive) : (b.setCurrent d).current = some d :=
  Function.update_self _ _ _

@[simp] theorem setCurrent_setCurrent (b : Bus) (d d' : Drive) :
    (b.setCurrent d).setCurrent d' = b.setCurrent d' := by
  show { b with slot := Function.update (Function.update b.slot b.selected (some d)) b.selected (some d') } = _
  rw [Function.update_idem]
  rfl

theorem setCurrent_current (h : b.current = some d) : b.setCurrent d = b := by
  have hslot : Function.update b.slot b.selected (some d) = b.slot := by
    rw [← h]
    exact Function.update_eq_self _ _
  unfold Bus.setCurrent
  rw [hslot]

theorem readStatus_of_some (h : b.current = some d) : b.readStatus = (d.status, b.setCurrent d.poll) := by
  unfold Bus.readStatus
  rw [h]

theorem readStatus_of_none (h : b.current = none) : b.readStatus = (0, b) := by
  unfold Bus.readStatus
  rw [h]

theorem writeCommand_of_some (h : b.current = some d) (cmd : U8) :
    b.writeCommand cmd = b.setCurrent (d.command cmd b.lba b.count) := by
  unfold Bus.writeCommand
  rw [h]

theorem readData_of_some (h : b.current = some d) : b.readData = (d.take.1, b.setCurrent d.take.2) := by
  unfold Bus.readData
  rw [h]

theorem writeData_of_some (h : b.current = some d) (v : U16) : b.writeData v = b.setCurrent (d.put v) := by
  unfold Bus.writeData
  rw [h]

theorem foldl_writeData (h : b.current = some d) (vs : List U16) :
    vs.foldl Bus.writeData b = b.setCurrent (vs.foldl Drive.put d) := by
  induction vs generalizing b d with
  | nil => exact (setCurrent_current h).symm
  | cons v vs ih =>
      rw [List.foldl_cons, List.foldl_cons, writeData_of_some h, ih (current_setCurrent _ _),
        setCurrent_setCurrent]

/-! ## Sectors -/

/-- The drive after a sector has been received. -/
def Drive.stored (d : Drive) (lba left : ℕ) (sector : List U16) : Drive :=
  { d with sectors := Function.update d.sectors lba fun i => sector.getD i 0 }.start
    (if left = 1 then .idle else .writing (lba + 1) (left - 1) [])

/-- **The words of a sector** are stored with the last one. -/
theorem foldl_put (hd : d.phase = .writing lba left words) (hvs : vs ≠ [])
    (hlength : words.length + vs.length = 256) : vs.foldl Drive.put d = d.stored lba left (words ++ vs) := by
  induction vs generalizing d words with
  | nil => exact absurd rfl hvs
  | cons v vs ih =>
      rw [List.length_cons] at hlength
      have hput : d.put v = if words.length + 1 < 256 then { d with phase := .writing lba left (words ++ [v]) }
          else d.stored lba left (words ++ [v]) := by
        unfold Drive.put
        rw [hd]
        rfl
      rw [List.foldl_cons, hput]
      by_cases hlast : vs = []
      · subst hlast
        rw [List.length_nil] at hlength
        rw [if_neg (by omega)]
        rfl
      · have hpos : 0 < vs.length := List.length_pos_iff.mpr hlast
        have hrest := ih (d := { d with phase := .writing lba left (words ++ [v]) }) rfl hlast (by
          rw [List.length_append, List.length_singleton]
          omega)
        rw [if_pos (by omega), hrest, List.append_assoc]
        rfl

/-- Read several words. -/
def Drive.takes : ℕ → Drive → List U16 × Drive
  | 0, d => ([], d)
  | n + 1, d =>
      let r := d.take
      let q := Drive.takes n r.2
      (r.1 :: q.1, q.2)

/-- The drive after a sector has been sent. -/
def Drive.sent (d : Drive) (lba left : ℕ) : Drive :=
  if left = 1 then { d with phase := .idle } else d.start (.reading (lba + 1) (left - 1) 0)

/-- **The words of a sector** are sent in order. -/
theorem takes_eq (hd : d.phase = .reading lba left word) (hn : n ≠ 0) (hlength : word + n = 256) :
    d.takes n = ((List.range n).map fun i => d.sectors lba (word + i), d.sent lba left) := by
  induction n generalizing d word with
  | zero => exact absurd rfl hn
  | succ n ih =>
      have htake : d.take = (d.sectors lba word,
          if word + 1 < 256 then { d with phase := .reading lba left (word + 1) } else d.sent lba left) := by
        unfold Drive.take
        rw [hd]
        rfl
      rw [Drive.takes, htake, List.range_succ_eq_map, List.map_cons, List.map_map, Nat.add_zero]
      by_cases hlast : n = 0
      · subst hlast
        rw [if_neg (by omega)]
        rfl
      · have hrest := ih (d := { d with phase := .reading lba left (word + 1) }) rfl hlast (by omega)
        rw [if_pos (by omega)]
        simp only [hrest]
        refine Prod.ext (congrArg (d.sectors lba word :: ·) (List.map_congr_left fun i _ => ?_)) rfl
        show d.sectors lba (word + 1 + i) = d.sectors lba (word + (i + 1))
        rw [Nat.add_assoc, Nat.add_comm 1]

end BloodKernel.Ata
