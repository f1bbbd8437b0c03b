import BloodKernel.Drivers.AtaDrive

set_option autoImplicit false

/-!
# Reading and writing sectors

`ata_read_sectors` and `ata_write_sectors` of `drivers/ata.c`, on the drives of `AtaDrive`. The driver sends a
cache flush after every sector it writes, which ends the command.

* `Machine`: the two cables, and which drives are present.
* `waitReady_eq`, `waitDrq_eq`, `waitDrq_of_idle`: the polls; `prepare`: what comes before a command.
* `readLoop_eq`: reading any number of sectors; `writeLoop_succ`, `writeLoop_of_idle`: one sector is written,
  and there is no second one.
* **`write_ok_iff`**: a write succeeds exactly when it is of one sector, and the drive that was selected last on
  the cable is there.
-/

namespace BloodKernel.Ata

/-! ## The driver -/

/-- The loop of `ata_wait_ready`. -/
def waitReady : ℕ → Bus → U8 × Bus
  | 0, b => (0, b)
  | n + 1, b =>
      let r := b.readStatus
      if r.1 &&& 0x80 = 0 ∧ r.1 &&& 0x40 ≠ 0 then (1, r.2) else waitReady n r.2

def ataWaitReady (b : Bus) : U8 × Bus := waitReady timeout b

/-- The loop of `ata_wait_drq`. -/
def waitDrq : ℕ → Bus → U8 × Bus
  | 0, b => (0, b)
  | n + 1, b =>
      let r := b.readStatus
      if r.1 &&& 0x08 ≠ 0 then (1, r.2) else if r.1 &&& 0x01 ≠ 0 then (0, r.2) else waitDrq n r.2

def ataWaitDrq (b : Bus) : U8 × Bus := waitDrq timeout b

/-- `dev->drive << 4` -/
def driveBit (slot : Bool) : U8 := if slot then 0x10 else 0

/-- Select the drive, and set the parameters. -/
def setParameters (b : Bus) (slot : Bool) (lba : U32) (count : U8) : Bus :=
  { b with
    drive := 0xE0 ||| driveBit slot ||| ((lba >>> 24) &&& 0x0F).setWidth 8
    seccount := count
    lbaLow := (lba &&& 0xFF).setWidth 8
    lbaMid := ((lba >>> 8) &&& 0xFF).setWidth 8
    lbaHigh := ((lba >>> 16) &&& 0xFF).setWidth 8 }

/-- The inner loop of `ata_read_sectors`. -/
def readWords : ℕ → Bus → List U16 × Bus
  | 0, b => ([], b)
  | n + 1, b =>
      let r := b.readData
      let q := readWords n r.2
      (r.1 :: q.1, q.2)

/-- The loop of `ata_read_sectors`, for `n` sectors, with the words read. -/
def readLoop : ℕ → Bus → U8 × List U16 × Bus
  | 0, b => (1, [], b)
  | n + 1, b =>
      let r := ataWaitDrq b
      if r.1 = 0 then (0, [], r.2)
      else
        let q := readWords 256 r.2
        let t := readLoop n q.2
        (t.1, q.1 ++ t.2.1, t.2.2)

/-- `ata_read_sectors`, for a drive that is present. -/
def readFrom (b : Bus) (slot : Bool) (lba : U32) (count : U8) : U8 × List U16 × Bus :=
  let r := ataWaitReady b
  if r.1 = 0 then (0, [], r.2)
  else readLoop count.toNat ((setParameters r.2 slot lba count).writeCommand readSectors)

/-- The words of a sector in a buffer. -/
def sectorOf (buf : ℕ → U16) (sector : ℕ) : List U16 := (List.range 256).map fun i => buf (sector * 256 + i)

/-- The loop of `ata_write_sectors`, from a sector on. -/
def writeLoop (buf : ℕ → U16) : ℕ → ℕ → Bus → U8 × Bus
  | _, 0, b => (1, b)
  | sector, n + 1, b =>
      let r := ataWaitDrq b
      if r.1 = 0 then (0, r.2)
      else
        let b := (sectorOf buf sector).foldl Bus.writeData r.2
        writeLoop buf (sector + 1) n (ataWaitReady (b.writeCommand cacheFlush)).2

/-- `ata_write_sectors`, for a drive that is present. -/
def writeTo (b : Bus) (slot : Bool) (lba : U32) (count : U8) (buf : ℕ → U16) : U8 × Bus :=
  let r := ataWaitReady b
  if r.1 = 0 then (0, r.2)
  else writeLoop buf 0 count.toNat ((setParameters r.2 slot lba count).writeCommand writeSectors)

/-- The primary and the secondary cable, and `ata_devices[drive].present`. -/
structure Machine where
  bus : Bool → Bus
  present : U8 → Bool

/-- The cable of a drive: its `base`. -/
def busOf (drive : U8) : Bool := drive.getLsbD 1

/-- Its place on the cable: its `drive`. -/
def slotOf (drive : U8) : Bool := drive.getLsbD 0

def Machine.setBus (m : Machine) (drive : U8) (b : Bus) : Machine :=
  { m with bus := Function.update m.bus (busOf drive) b }

def ataReadSectors (m : Machine) (drive : U8) (lba : U32) (count : U8) : U8 × List U16 × Machine :=
  if 4 ≤ drive ∨ m.present drive = false then (0, [], m)
  else
    let r := readFrom (m.bus (busOf drive)) (slotOf drive) lba count
    (r.1, r.2.1, m.setBus drive r.2.2)

def ataWriteSectors (m : Machine) (drive : U8) (lba : U32) (count : U8) (buf : ℕ → U16) : U8 × Machine :=
  if 4 ≤ drive ∨ m.present drive = false then (0, m)
  else
    let r := writeTo (m.bus (busOf drive)) (slotOf drive) lba count buf
    (r.1, m.setBus drive r.2)

/-! ## Polling -/

variable {b b' : Bus} {d e : Drive} {slot : Bool} {lba : U32} {count : U8} {buf : ℕ → U16} {n start left sector : ℕ}

theorem status_of_busy (h : 0 < d.busy) : d.status = 0x80 := if_pos h

theorem status_ready (d : Drive) : d.ready.status = d.phase.status := if_neg (Nat.lt_irrefl 0)

theorem ready_of_phase (p : Phase) : p.status &&& 0x80 = 0 ∧ p.status &&& 0x40 ≠ 0 := by
  have hdrq : (0x48 : U8) &&& 0x80 = 0 ∧ (0x48 : U8) &&& 0x40 ≠ 0 := by decide
  cases p with
  | idle => decide
  | failed => decide
  | reading lba left word => exact hdrq
  | writing lba left words => exact hdrq

theorem poll_of_ready (h : d.busy = 0) : d.poll = d.ready ∧ d.ready = d := by
  obtain ⟨capacity, capacity_le, delay, prompt, sectors, phase, started, busy, busy_lt⟩ := d
  obtain rfl : busy = 0 := h
  exact ⟨rfl, rfl⟩

theorem poll_of_not_busy (h : ¬0 < d.busy) : d.status = d.phase.status ∧ d.poll = d.ready := by
  obtain ⟨hpoll, hready⟩ := poll_of_ready (Nat.eq_zero_of_not_pos h)
  exact ⟨hready ▸ status_ready d, hpoll⟩

theorem waitReady_succ {v : U8} (h : b.readStatus = (v, b')) :
    waitReady (n + 1) b = if v &&& 0x80 = 0 ∧ v &&& 0x40 ≠ 0 then (1, b') else waitReady n b' := by
  rw [waitReady, h]

theorem waitDrq_succ {v : U8} (h : b.readStatus = (v, b')) : waitDrq (n + 1) b =
    if v &&& 0x08 ≠ 0 then (1, b') else if v &&& 0x01 ≠ 0 then (0, b') else waitDrq n b' := by
  rw [waitDrq, h]

theorem waitReady_eq (h : b.current = some d) (hn : d.busy < n) : waitReady n b = (1, b.setCurrent d.ready) := by
  induction n generalizing b d with
  | zero => exact absurd hn (Nat.not_lt_zero _)
  | succ n ih =>
      rw [waitReady_succ (readStatus_of_some h)]
      by_cases hbusy : 0 < d.busy
      · have hpoll : d.poll.busy < n := by
          show d.busy - 1 < n
          omega
        rw [status_of_busy hbusy, if_neg (by decide), ih (current_setCurrent b d.poll) hpoll, setCurrent_setCurrent]
        rfl
      · obtain ⟨hstatus, hpoll⟩ := poll_of_not_busy hbusy
        rw [hstatus, if_pos (ready_of_phase d.phase), hpoll]

theorem waitReady_of_none (h : b.current = none) : waitReady n b = (0, b) := by
  induction n with
  | zero => rfl
  | succ n ih => rw [waitReady_succ (readStatus_of_none h), if_neg (by decide), ih]

theorem waitDrq_eq (h : b.current = some d) (hd : d.phase.status = 0x48) (hn : d.busy < n) :
    waitDrq n b = (1, b.setCurrent d.ready) := by
  induction n generalizing b d with
  | zero => exact absurd hn (Nat.not_lt_zero _)
  | succ n ih =>
      rw [waitDrq_succ (readStatus_of_some h)]
      by_cases hbusy : 0 < d.busy
      · have hpoll : d.poll.busy < n := by
          show d.busy - 1 < n
          omega
        rw [status_of_busy hbusy, if_neg (by decide), if_neg (by decide), ih (current_setCurrent b d.poll) hd hpoll,
          setCurrent_setCurrent]
        rfl
      · obtain ⟨hstatus, hpoll⟩ := poll_of_not_busy hbusy
        rw [hstatus, hd, if_pos (by decide), hpoll]

theorem waitDrq_of_idle (h : b.current = some d) (hd : d.phase = .idle) : (waitDrq n b).1 = 0 := by
  induction n generalizing b d with
  | zero => rfl
  | succ n ih =>
      have hstatus : d.status = 0x80 ∨ d.status = 0x40 := by
        unfold Drive.status
        rw [hd]
        split_ifs with hbusy
        · exact .inl rfl
        · exact .inr rfl
      have hrest := ih (current_setCurrent b d.poll) hd
      rw [waitDrq_succ (readStatus_of_some h)]
      rcases hstatus with hstatus | hstatus
      · rw [hstatus, if_neg (by decide), if_neg (by decide)]
        exact hrest
      · rw [hstatus, if_neg (by decide), if_neg (by decide)]
        exact hrest

/-! ## The parameters -/

theorem driveRegister : ∀ (slot : Bool) (x : U8), x &&& 0x0F = x →
    (0xE0 ||| driveBit slot ||| x).getLsbD 4 = slot ∧ (0xE0 ||| driveBit slot ||| x).toNat % 16 = x.toNat := by
  decide

theorem toNat_field (lba : U32) (i k : ℕ) (hk : k ≤ 8) :
    (((lba >>> i) &&& BitVec.ofNat 32 (2 ^ k - 1)).setWidth 8).toNat = lba.toNat / 2 ^ i % 2 ^ k := by
  have hle : 2 ^ k ≤ 2 ^ 8 := Nat.pow_le_pow_right (by decide) hk
  have hpos : 0 < 2 ^ k := Nat.two_pow_pos k
  have hmod := Nat.mod_lt (lba.toNat / 2 ^ i) hpos
  have hmask : (BitVec.ofNat 32 (2 ^ k - 1)).toNat = 2 ^ k - 1 := by
    rw [BitVec.toNat_ofNat]
    exact Nat.mod_eq_of_lt (by omega)
  rw [BitVec.toNat_setWidth, BitVec.toNat_and, hmask, Nat.and_two_pow_sub_one_eq_mod, BitVec.toNat_ushiftRight,
    Nat.shiftRight_eq_div_pow]
  exact Nat.mod_eq_of_lt (by omega)

theorem selected_setParameters (b : Bus) (slot : Bool) (lba : U32) (count : U8) :
    (setParameters b slot lba count).selected = slot ∧
      (setParameters b slot lba count).drive.toNat % 16 = lba.toNat / 2 ^ 24 % 2 ^ 4 := by
  have hfield : ((lba >>> 24) &&& 0x0F).setWidth 8 &&& (0x0F : U8) = ((lba >>> 24) &&& 0x0F).setWidth 8 := by
    apply BitVec.eq_of_toNat_eq
    have hmask : (0x0F : U8).toNat = 2 ^ 4 - 1 := rfl
    have hval : (((lba >>> 24) &&& 0x0F).setWidth 8).toNat = lba.toNat / 2 ^ 24 % 2 ^ 4 :=
      toNat_field lba 24 4 (by decide)
    rw [BitVec.toNat_and, hmask, Nat.and_two_pow_sub_one_eq_mod, hval, Nat.mod_mod]
  obtain ⟨hselected, hlow⟩ := driveRegister slot _ hfield
  exact ⟨hselected, hlow.trans (toNat_field lba 24 4 (by decide))⟩

theorem lba_setParameters_mod (b : Bus) (slot : Bool) (lba : U32) (count : U8) :
    (setParameters b slot lba count).lba = lba.toNat % 2 ^ 28 := by
  have hlow : ((lba &&& 0xFF).setWidth 8).toNat = lba.toNat / 2 ^ 0 % 2 ^ 8 := toNat_field lba 0 8 le_rfl
  have hmid : (((lba >>> 8) &&& 0xFF).setWidth 8).toNat = lba.toNat / 2 ^ 8 % 2 ^ 8 := toNat_field lba 8 8 le_rfl
  have hhigh : (((lba >>> 16) &&& 0xFF).setWidth 8).toNat = lba.toNat / 2 ^ 16 % 2 ^ 8 := toNat_field lba 16 8 le_rfl
  unfold Bus.lba
  rw [(selected_setParameters b slot lba count).2]
  show ((lba &&& 0xFF).setWidth 8).toNat + 2 ^ 8 * (((lba >>> 8) &&& 0xFF).setWidth 8).toNat +
    2 ^ 16 * (((lba >>> 16) &&& 0xFF).setWidth 8).toNat + _ = _
  rw [hlow, hmid, hhigh]
  omega

theorem lba_setParameters (b : Bus) (slot : Bool) (count : U8) (h : lba.toNat < 2 ^ 28) :
    (setParameters b slot lba count).lba = lba.toNat := by
  rw [lba_setParameters_mod, Nat.mod_eq_of_lt h]

theorem count_setParameters (b : Bus) (slot : Bool) (lba : U32) (h : 1 ≤ count.toNat) :
    (setParameters b slot lba count).count = count.toNat := by
  have hne : count ≠ 0 := by
    rintro rfl
    exact absurd h (by decide)
  exact if_neg hne

def Bus.contents (b : Bus) (slot : Bool) : Option (ℕ → ℕ → U16) := (b.slot slot).map Drive.sectors

theorem contents_setCurrent (hd : d.sectors = e.sectors) (he : b.current = some e) (slot : Bool) :
    (b.setCurrent d).contents slot = b.contents slot := by
  unfold Bus.contents Bus.setCurrent
  by_cases hs : slot = b.selected
  · have hslot : b.slot b.selected = some e := he
    subst hs
    show (Function.update b.slot b.selected (some d) b.selected).map _ = _
    rw [Function.update_self, hslot, Option.map_some, Option.map_some, hd]
  · exact congrArg (Option.map Drive.sectors) (Function.update_of_ne hs _ _)

theorem contents_of_ne (d : Drive) (h : slot ≠ b.selected) : (b.setCurrent d).contents slot = b.contents slot :=
  congrArg (Option.map Drive.sectors) (Function.update_of_ne h _ _)

/-- The bus when the command is sent to a drive that holds what `d` holds. -/
structure Prepared (b b' : Bus) (slot : Bool) (lba : U32) (count : U8) (d d' : Drive) : Prop where
  selected : b'.selected = slot
  current : b'.current = some d'
  sectors : d'.sectors = d.sectors
  capacity : d'.capacity = d.capacity
  contents : ∀ j, b'.contents j = b.contents j
  lba : b'.lba = lba.toNat
  count : b'.count = count.toNat

/-- **Before a command**: the driver waits for the drive that was selected before, and selects its own. -/
theorem prepare (he : b.current = some e) (hd : b.slot slot = some d) (hcount : 1 ≤ count.toNat)
    (hrange : lba.toNat + count.toNat ≤ d.capacity) :
    ∃ d', Prepared b (setParameters (b.setCurrent e.ready) slot lba count) slot lba count d d' := by
  have hlba : lba.toNat < 2 ^ 28 := by
    have hcapacity := d.capacity_le
    omega
  have hselected := (selected_setParameters (b.setCurrent e.ready) slot lba count).1
  have hcontents : ∀ j, (setParameters (b.setCurrent e.ready) slot lba count).contents j = b.contents j :=
    contents_setCurrent (d := e.ready) (e := e) rfl he
  have hcurrent : (setParameters (b.setCurrent e.ready) slot lba count).current =
      if slot = b.selected then some e.ready else some d := by
    unfold Bus.current
    rw [hselected]
    show Function.update b.slot b.selected (some e.ready) slot = _
    split_ifs with hs
    · rw [hs, Function.update_self]
    · rw [Function.update_of_ne hs, hd]
  split_ifs at hcurrent with hs
  · have hde : d = e := Option.some.inj (hd.symm.trans ((congrArg b.slot hs).trans he))
    exact ⟨e.ready, hselected, hcurrent, by rw [hde]; rfl, by rw [hde]; rfl, hcontents,
      lba_setParameters _ _ _ hlba, count_setParameters _ _ _ hcount⟩
  · exact ⟨d, hselected, hcurrent, rfl, rfl, hcontents, lba_setParameters _ _ _ hlba,
      count_setParameters _ _ _ hcount⟩

/-! ## Reading -/

theorem one_ne : ¬(1 : U8) = 0 := by decide

theorem readWords_eq (h : b.current = some d) (n : ℕ) :
    readWords n b = ((d.takes n).1, b.setCurrent (d.takes n).2) := by
  induction n generalizing b d with
  | zero => exact Prod.ext rfl (setCurrent_current h).symm
  | succ n ih =>
      have hrest := ih (current_setCurrent b d.take.2)
      rw [setCurrent_setCurrent] at hrest
      rw [readWords, readData_of_some h, hrest]
      rfl

/-- The words of some sectors, in order. -/
def wordsFrom (sectors : ℕ → ℕ → U16) : ℕ → ℕ → List U16
  | _, 0 => []
  | lba, n + 1 => (List.range 256).map (sectors lba) ++ wordsFrom sectors (lba + 1) n

theorem readLoop_succ (hb : b.current = some d) (hd : d.phase = .reading start left 0) :
    readLoop (n + 1) b =
      let t := readLoop n (b.setCurrent (d.ready.sent start left))
      (t.1, (List.range 256).map (d.sectors start) ++ t.2.1, t.2.2) := by
  have hdrq : ataWaitDrq b = (1, b.setCurrent d.ready) := waitDrq_eq hb (congrArg Phase.status hd) d.busy_lt
  have hwords : readWords 256 (b.setCurrent d.ready) =
      ((List.range 256).map (d.sectors start), b.setCurrent (d.ready.sent start left)) := by
    have htakes := takes_eq (d := d.ready) (n := 256) hd (by decide) rfl
    rw [readWords_eq (current_setCurrent b d.ready), setCurrent_setCurrent, htakes]
    simp only [Nat.zero_add]
    rfl
  rw [readLoop, hdrq, if_neg one_ne, hwords]

/-- **All sectors are read**, in order. -/
theorem readLoop_eq (hb : b.current = some d) (hd : d.phase = .reading start n 0) (hn : n ≠ 0) :
    ∃ e, e.sectors = d.sectors ∧ readLoop n b = (1, wordsFrom d.sectors start n, b.setCurrent e) := by
  induction n generalizing b d start with
  | zero => exact absurd rfl hn
  | succ n ih =>
      have hstep := readLoop_succ (n := n) hb hd
      by_cases hlast : n = 0
      · subst hlast
        exact ⟨d.ready.sent start 1, rfl, hstep⟩
      · have hsent : d.ready.sent start (n + 1) = d.ready.start (.reading (start + 1) n 0) := if_neg (by omega)
        obtain ⟨e, he, hloop⟩ := ih (current_setCurrent b (d.ready.sent start (n + 1)))
          (by rw [hsent]; rfl) hlast
        rw [hsent] at hstep he hloop
        refine ⟨e, he, ?_⟩
        rw [hstep, hloop, setCurrent_setCurrent]
        rfl

/-- **`ata_read_sectors` reads**, if the drive that was selected before is there. -/
theorem readFrom_eq (he : b.current = some e) (hd : b.slot slot = some d) (hcount : 1 ≤ count.toNat)
    (hrange : lba.toNat + count.toNat ≤ d.capacity) :
    ∃ b', readFrom b slot lba count = (1, wordsFrom d.sectors lba.toNat count.toNat, b') := by
  obtain ⟨d', h⟩ := prepare he hd hcount hrange
  have hready : ataWaitReady b = (1, b.setCurrent e.ready) := waitReady_eq he e.busy_lt
  have hcommand : d'.command readSectors lba.toNat count.toNat = d'.start (.reading lba.toNat count.toNat 0) := by
    rw [Drive.command, if_pos rfl, if_pos (by rw [h.capacity]; exact hrange)]
  obtain ⟨f, -, hloop⟩ := readLoop_eq (n := count.toNat)
    (current_setCurrent (setParameters (b.setCurrent e.ready) slot lba count)
      (d'.start (.reading lba.toNat count.toNat 0))) rfl (by omega)
  rw [setCurrent_setCurrent] at hloop
  refine ⟨(setParameters (b.setCurrent e.ready) slot lba count).setCurrent f, ?_⟩
  unfold readFrom
  rw [hready, if_neg one_ne, writeCommand_of_some h.current, h.lba, h.count, hcommand, hloop, ← h.sectors]
  rfl

/-! ## Writing -/

/-- The drive after a sector and the cache flush, which ends the command. -/
def Drive.flushed (d : Drive) (lba left : ℕ) (words : List U16) : Drive :=
  ((d.ready.stored lba left words).start .idle).ready

/-- **One sector is written.** -/
theorem writeLoop_succ (hb : b.current = some d) (hd : d.phase = .writing start left []) :
    writeLoop buf sector (n + 1) b =
      writeLoop buf (sector + 1) n (b.setCurrent (d.flushed start left (sectorOf buf sector))) := by
  have hdrq : ataWaitDrq b = (1, b.setCurrent d.ready) := waitDrq_eq hb (congrArg Phase.status hd) d.busy_lt
  have hlength : (sectorOf buf sector).length = 256 := by
    rw [sectorOf, List.length_map, List.length_range]
  have hne : sectorOf buf sector ≠ [] := by
    intro h
    rw [h, List.length_nil] at hlength
    exact absurd hlength (by decide)
  have hput : (sectorOf buf sector).foldl Drive.put d.ready = d.ready.stored start left (sectorOf buf sector) :=
    @foldl_put d.ready start left [] (sectorOf buf sector) hd hne (by rw [List.length_nil, Nat.zero_add, hlength])
  have hwords : (sectorOf buf sector).foldl Bus.writeData (b.setCurrent d.ready) =
      b.setCurrent (d.ready.stored start left (sectorOf buf sector)) := by
    rw [foldl_writeData (current_setCurrent b d.ready), setCurrent_setCurrent, hput]
  have hflush : ∀ (e : Drive) (x k : ℕ), e.command cacheFlush x k = e.start .idle := by
    intro e x k
    rw [Drive.command, if_neg (by decide), if_neg (by decide), if_pos rfl]
  have hready := waitReady_eq (current_setCurrent b ((d.ready.stored start left (sectorOf buf sector)).start .idle))
    (Drive.busy_lt _)
  rw [setCurrent_setCurrent] at hready
  rw [writeLoop, hdrq, if_neg one_ne]
  simp only [hwords]
  rw [writeCommand_of_some (current_setCurrent _ _), setCurrent_setCurrent, hflush]
  exact congrArg (fun r : U8 × Bus => writeLoop buf (sector + 1) n r.2) hready

/-- **There is no second sector**: the flush has ended the command. -/
theorem writeLoop_of_idle (hb : b.current = some d) (hd : d.phase = .idle) (hn : n ≠ 0) :
    (writeLoop buf sector n b).1 = 0 := by
  cases n with
  | zero => exact absurd rfl hn
  | succ n =>
      have hdrq : (ataWaitDrq b).1 = 0 := waitDrq_of_idle hb hd
      rw [writeLoop, if_pos hdrq]

/-- The bus after the first sector of a buffer, with the drive that holds it. -/
structure OneWritten (b b' : Bus) (slot : Bool) (start : ℕ) (buf : ℕ → U16) (d f : Drive) : Prop where
  selected : b'.selected = slot
  current : b'.current = some f
  idle : f.phase = .idle
  capacity : f.capacity = d.capacity
  sectors : f.sectors = Function.update d.sectors start fun i => (sectorOf buf 0).getD i 0
  contents : ∀ j, j ≠ slot → b'.contents j = b.contents j

/-- **`ata_write_sectors` writes the first sector**, if the drive that was selected before is there. -/
theorem writeTo_first (buf : ℕ → U16) (he : b.current = some e) (hd : b.slot slot = some d)
    (hcount : 1 ≤ count.toNat) (hrange : lba.toNat + count.toNat ≤ d.capacity) :
    ∃ b' f, OneWritten b b' slot lba.toNat buf d f ∧
      writeTo b slot lba count buf = writeLoop buf 1 (count.toNat - 1) b' := by
  obtain ⟨k, hk⟩ : ∃ k, count.toNat = k + 1 := ⟨count.toNat - 1, by omega⟩
  obtain ⟨d', h⟩ := prepare he hd hcount hrange
  have hready : ataWaitReady b = (1, b.setCurrent e.ready) := waitReady_eq he e.busy_lt
  have hcommand : d'.command writeSectors lba.toNat count.toNat = d'.start (.writing lba.toNat count.toNat []) := by
    rw [Drive.command, if_neg (by decide), if_pos rfl, if_pos (by rw [h.capacity]; exact hrange)]
  have hloop := @writeLoop_succ _ _ buf k _ _ 0
    (current_setCurrent (setParameters (b.setCurrent e.ready) slot lba count)
      (d'.start (.writing lba.toNat count.toNat []))) rfl
  rw [setCurrent_setCurrent, ← hk] at hloop
  refine ⟨(setParameters (b.setCurrent e.ready) slot lba count).setCurrent
    ((d'.start (.writing lba.toNat count.toNat [])).flushed lba.toNat count.toNat (sectorOf buf 0)),
    _, ⟨h.selected, current_setCurrent _ _, rfl, h.capacity, ?_, ?_⟩, ?_⟩
  · rw [← h.sectors]
    rfl
  · intro j hj
    rw [contents_of_ne _ (by rw [h.selected]; exact hj)]
    exact h.contents j
  · unfold writeTo
    rw [hready, if_neg one_ne, writeCommand_of_some h.current, h.lba, h.count, hcommand, hk, Nat.add_sub_cancel,
      ← hk]
    exact hloop

/-- Without the drive that was selected before, nothing is written. -/
theorem writeTo_of_none (h : b.current = none) : (writeTo b slot lba count buf).1 = 0 := by
  have hready : ataWaitReady b = (0, b) := waitReady_of_none h
  unfold writeTo
  rw [hready, if_pos rfl]

/-! ## The result -/

variable {m : Machine} {drive : U8}

def Machine.contents (m : Machine) (cable slot : Bool) : Option (ℕ → ℕ → U16) := (m.bus cable).contents slot

/-- Sectors of one drive have the words of the buffer, and all others are as they were. -/
structure Written (m m' : Machine) (drive : U8) (lba : U32) (count : U8) (buf : ℕ → U16) : Prop where
  range : ∃ sectors sectors', m.contents (busOf drive) (slotOf drive) = some sectors ∧
    m'.contents (busOf drive) (slotOf drive) = some sectors' ∧
    (∀ x < count.toNat, ∀ i < 256, sectors' (lba.toNat + x) i = buf (x * 256 + i)) ∧
    ∀ x, x < lba.toNat ∨ lba.toNat + count.toNat ≤ x → sectors' x = sectors x
  others : ∀ cable slot, (cable, slot) ≠ (busOf drive, slotOf drive) → m'.contents cable slot = m.contents cable slot

/-- A write succeeds, it writes the buffer, and the same range is read back. -/
def WriteOk (m : Machine) (drive : U8) (lba : U32) (count : U8) (buf : ℕ → U16) : Prop :=
  let w := ataWriteSectors m drive lba count buf
  let r := ataReadSectors w.2 drive lba count
  w.1 = 1 ∧ Written m w.2 drive lba count buf ∧ r.1 = 1 ∧ r.2.1 = (List.range (count.toNat * 256)).map buf

theorem not_refused (hdrive : ¬4 ≤ drive) (hpresent : m.present drive = true) :
    ¬(4 ≤ drive ∨ m.present drive = false) := by
  rw [hpresent]
  exact not_or.mpr ⟨hdrive, Bool.true_eq_false.mp⟩

theorem ataWriteSectors_eq (hdrive : ¬4 ≤ drive) (hpresent : m.present drive = true) :
    ataWriteSectors m drive lba count buf =
      ((writeTo (m.bus (busOf drive)) (slotOf drive) lba count buf).1,
        m.setBus drive (writeTo (m.bus (busOf drive)) (slotOf drive) lba count buf).2) := by
  unfold ataWriteSectors
  rw [if_neg (not_refused hdrive hpresent)]

theorem ataReadSectors_eq (hdrive : ¬4 ≤ drive) (hpresent : m.present drive = true) :
    ataReadSectors m drive lba count =
      ((readFrom (m.bus (busOf drive)) (slotOf drive) lba count).1,
        (readFrom (m.bus (busOf drive)) (slotOf drive) lba count).2.1,
        m.setBus drive (readFrom (m.bus (busOf drive)) (slotOf drive) lba count).2.2) := by
  unfold ataReadSectors
  rw [if_neg (not_refused hdrive hpresent)]

theorem bus_setBus (m : Machine) (drive : U8) (b : Bus) : (m.setBus drive b).bus (busOf drive) = b :=
  Function.update_self _ _ _

theorem getD_sectorOf {i : ℕ} (hi : i < 256) : (sectorOf buf 0).getD i 0 = buf i := by
  rw [sectorOf, List.getD_eq_getElem?_getD, List.getElem?_map, List.getElem?_range hi, Option.map_some,
    Option.getD_some, Nat.zero_mul, Nat.zero_add]

theorem OneWritten.there {b' : Bus} {f : Drive} (h : OneWritten b b' slot start buf d f) : b'.slot slot = some f :=
  (congrArg b'.slot h.selected).symm.trans h.current

theorem OneWritten.words {b' : Bus} {f : Drive} (h : OneWritten b b' slot start buf d f) {i : ℕ} (hi : i < 256) :
    f.sectors start i = buf i := by
  rw [h.sectors, Function.update_self]
  exact getD_sectorOf hi

theorem OneWritten.written {b' : Bus} {f : Drive}
    (h : OneWritten (m.bus (busOf drive)) b' (slotOf drive) lba.toNat buf d f)
    (hd : (m.bus (busOf drive)).slot (slotOf drive) = some d) (hcount : count.toNat = 1) :
    Written m (m.setBus drive b') drive lba count buf := by
  have hcontents : (m.setBus drive b').contents (busOf drive) (slotOf drive) = some f.sectors := by
    show ((m.setBus drive b').bus (busOf drive)).contents _ = _
    rw [bus_setBus, Bus.contents, h.there, Option.map_some]
  refine ⟨⟨d.sectors, f.sectors, congrArg (Option.map Drive.sectors) hd, hcontents, ?_, ?_⟩, ?_⟩
  · intro x hx i hi
    obtain rfl : x = 0 := by omega
    rw [Nat.add_zero, Nat.zero_mul, Nat.zero_add]
    exact h.words hi
  · intro x hx
    rw [h.sectors]
    exact Function.update_of_ne (by omega) _ _
  · intro cable slot hne
    by_cases hcable : cable = busOf drive
    · subst hcable
      have hother : slot ≠ slotOf drive := fun hs => hne (by rw [hs])
      show ((m.setBus drive b').bus (busOf drive)).contents slot = _
      rw [bus_setBus]
      exact h.contents slot hother
    · exact congrArg (Bus.contents · slot) (Function.update_of_ne hcable _ _)

theorem writeOk_one (hdrive : ¬4 ≤ drive) (hpresent : m.present drive = true)
    (he : (m.bus (busOf drive)).current = some e) (hd : (m.bus (busOf drive)).slot (slotOf drive) = some d)
    (hcount : count.toNat = 1) (hrange : lba.toNat + count.toNat ≤ d.capacity) : WriteOk m drive lba count buf := by
  obtain ⟨b', f, h, hwrite⟩ := writeTo_first buf he hd hcount.ge hrange
  have hdone : writeTo (m.bus (busOf drive)) (slotOf drive) lba count buf = (1, b') := by
    rw [hwrite, hcount]
    rfl
  obtain ⟨b'', hread⟩ := readFrom_eq h.current h.there hcount.ge (by rw [h.capacity]; exact hrange)
  have hw : ataWriteSectors m drive lba count buf = (1, m.setBus drive b') := by
    rw [ataWriteSectors_eq hdrive hpresent, hdone]
  have hr : ataReadSectors (m.setBus drive b') drive lba count =
      (1, wordsFrom f.sectors lba.toNat count.toNat, (m.setBus drive b').setBus drive b'') := by
    rw [ataReadSectors_eq hdrive (m := m.setBus drive b') hpresent, bus_setBus, hread]
  unfold WriteOk
  rw [hw]
  simp only [hr]
  refine ⟨trivial, h.written hd hcount, trivial, ?_⟩
  rw [hcount, wordsFrom, wordsFrom, List.append_nil, Nat.one_mul]
  exact List.map_congr_left fun i hi => h.words (List.mem_range.mp hi)

/-- **A write succeeds** exactly when it is of one sector, and the drive that was selected last on the cable is
there. -/
theorem write_ok_iff (m : Machine) (drive : U8) (lba : U32) (count : U8) (buf : ℕ → U16) (d : Drive)
    (hdrive : ¬4 ≤ drive) (hpresent : m.present drive = true)
    (hd : (m.bus (busOf drive)).slot (slotOf drive) = some d) (hcount : 1 ≤ count.toNat)
    (hrange : lba.toNat + count.toNat ≤ d.capacity) :
    WriteOk m drive lba count buf ↔ count = 1 ∧ (m.bus (busOf drive)).current.isSome := by
  constructor
  · rintro ⟨hone, -⟩
    rw [ataWriteSectors_eq hdrive hpresent] at hone
    rcases hcurrent : (m.bus (busOf drive)).current with - | e
    · rw [writeTo_of_none hcurrent] at hone
      exact absurd hone (by decide)
    · obtain ⟨b', f, h, hwrite⟩ := writeTo_first buf hcurrent hd hcount hrange
      refine ⟨?_, rfl⟩
      by_contra hne
      have hmore : count.toNat - 1 ≠ 0 := by
        intro hzero
        have hval : count.toNat = (1 : U8).toNat := by
          have hlit : (1 : U8).toNat = 1 := rfl
          omega
        exact hne (BitVec.eq_of_toNat_eq hval)
      rw [hwrite, writeLoop_of_idle h.current h.idle hmore] at hone
      exact absurd hone (by decide)
  · rintro ⟨rfl, hcurrent⟩
    obtain ⟨e, he⟩ := Option.isSome_iff_exists.mp hcurrent
    exact writeOk_one hdrive hpresent he hd rfl hrange

/-- A drive of eight sectors, which is selected. -/
def smallDrive : Drive where
  capacity := 8
  capacity_le := by decide
  delay := fun _ => 3
  prompt := fun _ => by decide
  sectors := fun _ _ => 0
  phase := .idle
  started := 0
  busy := 0
  busy_lt := by decide

def smallMachine : Machine where
  bus := fun _ => ⟨fun slot => if slot then none else some smallDrive, 0xA0, 0, 0, 0, 0⟩
  present := fun drive => drive = 0

/-- The condition for the first sector. -/
theorem write_ok_first : WriteOk smallMachine 0 0 1 fun i => BitVec.ofNat 16 i :=
  (write_ok_iff smallMachine 0 0 1 (fun i => BitVec.ofNat 16 i) smallDrive (by decide) rfl rfl (by decide)
    (by decide)).mpr ⟨rfl, rfl⟩

/-- Two sectors are not written to the same drive. -/
theorem not_write_ok_two : ¬WriteOk smallMachine 0 0 2 fun i => BitVec.ofNat 16 i := by
  rintro ⟨hone, -⟩
  have hdrive : ¬(4 : U8) ≤ 0 := by decide
  have hcurrent : (smallMachine.bus (busOf 0)).current = some smallDrive := rfl
  have hslot : (smallMachine.bus (busOf 0)).slot (slotOf 0) = some smallDrive := rfl
  obtain ⟨b', f, h, hwrite⟩ := @writeTo_first (smallMachine.bus (busOf 0)) smallDrive smallDrive (slotOf 0) 0 2
    (fun i => BitVec.ofNat 16 i) hcurrent hslot (by decide) (by decide)
  have hmore : (2 : U8).toNat - 1 ≠ 0 := by decide
  rw [ataWriteSectors_eq hdrive rfl, hwrite, writeLoop_of_idle h.current h.idle hmore] at hone
  exact absurd hone (by decide)

end BloodKernel.Ata
