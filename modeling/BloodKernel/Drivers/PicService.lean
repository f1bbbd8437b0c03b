import BloodKernel.Drivers.Pic

set_option autoImplicit false

/-!
# Interrupt requests

The two interrupt controllers with the requests of the devices and the interrupts in service, and
`irq_handler` of `drivers/idt.c`, which ends the service of an interrupt.

* `Controllers`: the registers; `next1`, `intr`: the request that the processor is shown; `acknowledge`: what it
  takes; `outb`: a write of the processor, `endOfInterrupt`.
* `irqHandlerDevice`, `irqHandlerEoi`: which device handler `irq_handler` calls, and its writes.
* `intr_iff`: without an interrupt in service any request that is not masked is shown; `acknowledge_ended`: after
  both controllers are told of the end there is none; `acknowledge_level`: otherwise the priorities go up.
-/

namespace BloodKernel.Pic

/-! ### The controllers -/

/-- The first request that is not masked, when no interrupt of its priority or of a higher one is in service. -/
def nextRequest (request : Fin 8 → Bool) (imr isr : U8) : Option (Fin 8) :=
  (List.finRange 8).find? fun i =>
    request i && !imr.getLsbD i && (List.finRange 8).all fun j => decide (i < j) || !isr.getLsbD j

/-- The controllers as the driver programs them, with the registers that it does not read: the requests and the
interrupts in service. -/
structure Controllers where
  pic : State
  irr1 : U8
  isr1 : U8
  irr2 : U8
  isr2 : U8

namespace Controllers

def next2 (c : Controllers) : Option (Fin 8) := nextRequest (fun i => c.irr2.getLsbD i) c.pic.pic2.imr c.isr2

/-- The second controller is at line 2 of the first. -/
def next1 (c : Controllers) : Option (Fin 8) :=
  nextRequest (fun i => if i = 2 then c.next2.isSome else c.irr1.getLsbD i) c.pic.pic1.imr c.isr1

/-- The line to the processor. -/
def intr (c : Controllers) : Bool := c.next1.isSome

/-- Some devices request an interrupt. -/
def raise (c : Controllers) (lines : U16) : Controllers :=
  { c with irr1 := c.irr1 ||| lines.setWidth 8, irr2 := c.irr2 ||| (lines >>> 8).setWidth 8 }

/-- Some requests are withdrawn. -/
def withdraw (c : Controllers) (lines : U16) : Controllers :=
  { c with irr1 := c.irr1 &&& ~~~lines.setWidth 8, irr2 := c.irr2 &&& ~~~(lines >>> 8).setWidth 8 }

end Controllers

/-- A request that the processor has taken; with none left by then, there is an interrupt all the same. -/
inductive Taken
  | spurious
  | line1 (i : Fin 8)
  | line2 (j : Fin 8)
  | spurious2
  deriving DecidableEq

/-- The line of the first controller. -/
def Taken.level : Taken → Option (Fin 8)
  | .spurious => none
  | .line1 i => some i
  | .line2 _ | .spurious2 => some 2

/-- The answer of the second controller: what the processor takes, and the vector. -/
def acknowledge2 (c : Controllers) : Taken × U8 × Controllers :=
  match c.next2 with
  | none => (.spurious2, c.pic.pic2.offset + 7, c)
  | some j => (.line2 j, c.pic.pic2.offset + BitVec.ofNat 8 j,
      { c with isr2 := c.isr2 ||| BitVec.twoPow 8 j, irr2 := c.irr2 &&& ~~~BitVec.twoPow 8 j })

/-- The processor acknowledges an interrupt. The requests `gone1` are withdrawn before the first controller answers,
and `gone2` before the second does. -/
def acknowledge (c : Controllers) (gone1 gone2 : U16) : Taken × U8 × Controllers :=
  let c := c.withdraw gone1
  match c.next1 with
  | none => (.spurious, c.pic.pic1.offset + 7, c)
  | some i =>
      if i = 2 then acknowledge2 ({ c with isr1 := c.isr1 ||| BitVec.twoPow 8 2 }.withdraw gone2)
      else (.line1 i, c.pic.pic1.offset + BitVec.ofNat 8 i,
        { c with isr1 := c.isr1 ||| BitVec.twoPow 8 i, irr1 := c.irr1 &&& ~~~BitVec.twoPow 8 i })

/-- The end of the interrupt of the highest priority. -/
def endOfInterrupt (isr : U8) : U8 := isr &&& (isr - 1)

/-- A write to a port. `PIC_EOI` is 0x20. -/
def Controllers.outb (c : Controllers) (w : U16 × U8) : Controllers :=
  if w = (0x20, 0x20) then { c with isr1 := endOfInterrupt c.isr1 }
  else if w = (0xA0, 0x20) then { c with isr2 := endOfInterrupt c.isr2 }
  else { c with pic := Pic.outb c.pic w }

/-! ### The handler -/

inductive DeviceHandler
  | pitIrqHandler
  | ps2KbdIrqHandler
  | serialIrqHandler (port : U8)
  | floppyIrqHandler
  | rtcIrqHandler
  | ac97IrqHandler
  | rtl8139IrqHandler
  deriving DecidableEq

/-- The `switch` of `irq_handler`. -/
def irqHandlerDevice (irqNo : U32) : Option DeviceHandler :=
  if irqNo = 0 then some .pitIrqHandler
  else if irqNo = 1 then some .ps2KbdIrqHandler
  else if irqNo = 3 then some (.serialIrqHandler 1)
  else if irqNo = 4 then some (.serialIrqHandler 0)
  else if irqNo = 6 then some .floppyIrqHandler
  else if irqNo = 8 then some .rtcIrqHandler
  else if irqNo = 5 then some .ac97IrqHandler
  else if irqNo = 11 then some .rtl8139IrqHandler
  else none

/-- What `irq_handler` writes to the controllers. With the local controller of the processor enabled, it tells only
that one of the end. -/
def irqHandlerEoi (apicEnabled : Bool) (irqNo : U32) : List (U16 × U8) :=
  if apicEnabled then []
  else (if irqNo ≥ 8 then [(0xA0, 0x20)] else []) ++ [(0x20, 0x20)]

/-! ### Requests -/

variable {c c' : Controllers} {request : Fin 8 → Bool} {imr v : U8} {i : Fin 8} {k : Taken}

theorem nextRequest_some {isr : U8} (h : nextRequest request imr isr = some i) :
    ∀ j : Fin 8, isr.getLsbD j = true → i < j := by
  have hpred := List.find?_some h
  rw [Bool.and_eq_true, List.all_eq_true] at hpred
  intro j hj
  have hall := hpred.2 j (List.mem_finRange j)
  rw [hj, Bool.not_true, Bool.or_false] at hall
  exact of_decide_eq_true hall

theorem isSome_nextRequest_zero :
    (nextRequest request imr 0).isSome ↔ ∃ i, request i = true ∧ imr.getLsbD i = false := by
  rw [nextRequest, List.find?_isSome]
  simp

/-- No interrupt is in service. -/
structure Controllers.Quiet (c : Controllers) : Prop where
  isr1 : c.isr1 = 0
  isr2 : c.isr2 = 0

/-- **Every request that is not masked is shown**, that of the second controller if its line is not masked. -/
theorem intr_iff (h : c.Quiet) : c.intr = true ↔
    (∃ i : Fin 8, i ≠ 2 ∧ c.irr1.getLsbD i = true ∧ c.pic.pic1.imr.getLsbD i = false) ∨
    c.pic.pic1.imr.getLsbD 2 = false ∧ ∃ j : Fin 8, c.irr2.getLsbD j = true ∧ c.pic.pic2.imr.getLsbD j = false := by
  rw [Controllers.intr, Controllers.next1, h.isr1, isSome_nextRequest_zero]
  constructor
  · rintro ⟨i, hi, himr⟩
    by_cases h2 : i = 2
    · subst h2
      rw [if_pos rfl, Controllers.next2, h.isr2, isSome_nextRequest_zero] at hi
      exact Or.inr ⟨himr, hi⟩
    · rw [if_neg h2] at hi
      exact Or.inl ⟨i, h2, hi, himr⟩
  · rintro (⟨i, h2, hi, himr⟩ | ⟨himr, hj⟩)
    · exact ⟨i, (if_neg h2).trans hi, himr⟩
    · refine ⟨2, ?_, himr⟩
      rw [if_pos rfl, Controllers.next2, h.isr2, isSome_nextRequest_zero]
      exact hj

theorem endOfInterrupt_twoPow (i : Fin 8) : endOfInterrupt (0 ||| BitVec.twoPow 8 i) = 0 := by
  revert i
  decide

/-! ### Service -/

/-- `isr1` with a bit for what is taken. -/
def Taken.inService (k : Taken) (isr : U8) : U8 := match k.level with
  | some i => isr ||| BitVec.twoPow 8 i
  | none => isr

/-- What the processor takes has a priority above all interrupts in service; then it is in service. -/
structure Acknowledged (c : Controllers) (k : Taken) (v : U8) (c' : Controllers) : Prop where
  pic : c'.pic = c.pic
  isr1 : c'.isr1 = k.inService c.isr1
  isr2 : c'.isr2 = c.isr2 ∨ ∃ j : Fin 8, c'.isr2 = c.isr2 ||| BitVec.twoPow 8 j
  above : ∀ i, k.level = some i → ∀ j : Fin 8, c.isr1.getLsbD j = true → i < j
  vector : ∃ n : Fin 8, v = c.pic.pic1.offset + BitVec.ofNat 8 n ∨ v = c.pic.pic2.offset + BitVec.ofNat 8 n

theorem acknowledged2 {d : Controllers} {gone2 : U16} (hisr1 : c'.isr1 = c.isr1 ||| BitVec.twoPow 8 2)
    (hisr2 : c'.isr2 = c.isr2) (hpic : c'.pic = c.pic) (habove : ∀ j : Fin 8, c.isr1.getLsbD j = true → 2 < j)
    (h : acknowledge2 (c'.withdraw gone2) = (k, v, d)) :
    Acknowledged c k v d := by
  unfold acknowledge2 at h
  cases hnext : (c'.withdraw gone2).next2 with
  | none =>
      rw [hnext] at h
      cases h
      exact ⟨hpic, hisr1, Or.inl hisr2, fun i hi => Option.some.inj hi ▸ habove, 7, Or.inr (hpic ▸ rfl)⟩
  | some j =>
      rw [hnext] at h
      cases h
      refine ⟨hpic, hisr1, Or.inr ⟨j, ?_⟩, fun i hi => Option.some.inj hi ▸ habove, j, Or.inr (hpic ▸ rfl)⟩
      rw [← hisr2]
      rfl

theorem acknowledged {gone1 gone2 : U16} (h : acknowledge c gone1 gone2 = (k, v, c')) : Acknowledged c k v c' := by
  unfold acknowledge at h
  cases hnext : (c.withdraw gone1).next1 with
  | none =>
      simp only [hnext] at h
      cases h
      exact ⟨rfl, rfl, Or.inl rfl, nofun, 7, Or.inl rfl⟩
  | some i =>
      have habove : ∀ j : Fin 8, c.isr1.getLsbD j = true → i < j := nextRequest_some hnext
      by_cases h2 : i = 2
      · subst h2
        simp only [hnext, if_true] at h
        refine acknowledged2 ?_ ?_ ?_ habove h
        · rfl
        · rfl
        · rfl
      · simp only [hnext, if_neg h2] at h
        cases h
        exact ⟨rfl, rfl, Or.inl rfl, fun i hi => Option.some.inj hi ▸ habove, i, Or.inl rfl⟩

def Controllers.outs (c : Controllers) (ws : List (U16 × U8)) : Controllers := ws.foldl Controllers.outb c

theorem pic_outs_eoi (c : Controllers) (apicEnabled : Bool) (irqNo : U32) :
    (c.outs (irqHandlerEoi apicEnabled irqNo)).pic = c.pic := by
  unfold irqHandlerEoi
  split_ifs <;> rfl

/-- **Told of the end, both controllers are done** with the one interrupt in service. -/
theorem quiet_ended (h : c.Quiet) (ha : Acknowledged c k v c') {irqNo : U32} (hno : irqNo ≥ 8) :
    (c'.outs (irqHandlerEoi false irqNo)).Quiet := by
  have heoi : irqHandlerEoi false irqNo = [(0xA0, 0x20), (0x20, 0x20)] := by
    rw [irqHandlerEoi, if_pos hno]
    rfl
  have hisr1 : endOfInterrupt c'.isr1 = 0 := by
    rw [ha.isr1, h.isr1, Taken.inService]
    cases k.level with
    | none => rfl
    | some i => exact endOfInterrupt_twoPow i
  have hisr2 : endOfInterrupt c'.isr2 = 0 := by
    rcases ha.isr2 with h2 | ⟨j, h2⟩
    · rw [h2, h.isr2]
      rfl
    · rw [h2, h.isr2]
      exact endOfInterrupt_twoPow j
  rw [heoi]
  exact ⟨hisr1, hisr2⟩

theorem getLsbD_inService {isr : U8} :
    (k.inService isr).getLsbD i = true ↔ isr.getLsbD i = true ∨ k.level = some i := by
  unfold Taken.inService
  cases hk : k.level with
  | none => simp
  | some j =>
      have hbit : (BitVec.twoPow 8 j).getLsbD i = true ↔ some j = some i := by
        rw [BitVec.getLsbD_twoPow]
        simp [Fin.ext_iff]
      rw [BitVec.getLsbD_or, Bool.or_eq_true, hbit]

end BloodKernel.Pic
