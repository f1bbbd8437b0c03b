import BloodKernel.Arch.InterruptStubs
import BloodKernel.Drivers.PicService

set_option autoImplicit false

/-!
# Interrupts of the PC

The processor, the interrupt controllers and the kernel together: `idt_init` of `drivers/idt.c` installs the stubs,
`pic_init` maps the requests to them, and a stub calls `irq_handler`. Devices make requests and withdraw them at any
time; the code of the kernel does anything, but leaves the segment registers and the vectors of the controllers alone.

* `idtInit`: the gates; `Kernel`, `step`: a run; `Inv`: the vectors, and the segments of the kernel.
* **`interrupts_without_apic`**: all requests are taken and ended, and no device handler is ever called.
* **`interrupts_with_apic`**: with the local controller of the processor no line is served twice.
-/

namespace BloodKernel.Interrupts

open Lib Lib.X86 Pic

/-! ### The gates -/

inductive Stub
  | isr (num : ℕ)
  | irq (num : ℕ)
  deriving DecidableEq

/-- An entry that `idt_set_gate` has written. -/
structure Gate where
  stub : Stub
  selector : U16
  typeAttr : U8
  deriving DecidableEq

/-- `IDT_PRESENT | IDT_INT_GATE` -/
def interruptGate (stub : Stub) : Gate := ⟨stub, 0x08, 0x8E⟩

/-- The entries that `idt_init` installs. -/
def idtGates : List (U8 × Gate) :=
  ([0, 1, 2, 3, 4, 5, 6, 7, 8, 10, 11, 12, 13, 14, 16, 17, 18, 19].map fun num =>
    (BitVec.ofNat 8 num, interruptGate (.isr num))) ++
  (List.range 16).map fun num => (BitVec.ofNat 8 (32 + num), interruptGate (.irq num))

/-- The table, cleared and with these entries. -/
def idtInit : U8 → Option Gate :=
  idtGates.foldl (fun idt g => Function.update idt g.1 (some g.2)) fun _ => none

/-! ### The system -/

structure Kernel where
  cpu : X86.State
  ctl : Controllers

/-- What `irq_handler` leaves in the registers that it may change, and in memory. It does not assign to its
argument, so that the word on the stack stays, as do those above it. -/
structure Leaves where
  eax : U32
  ecx : U32
  edx : U32
  eflags : U32
  mem : Mem

def Leaves.after (l : Leaves) (u : X86.State) : X86.State :=
  { u with
    regs := { u.regs with eax := l.eax, ecx := l.ecx, edx := l.edx }
    eflags := l.eflags
    mem := fun x => if InRange u.esp 56 x then u.mem x else l.mem x }

inductive Op
  | raise (lines : U16)
  | withdraw (lines : U16)
  | mask (op : Pic.Op)
  | code (t : X86.State)
  | interrupt (gone1 gone2 : U16) (l : Leaves)

inductive Ret
  | none
  | interrupted (taken : Taken) (device : Option DeviceHandler)

/-- The processor takes an interrupt if it is shown one and `IF` is set. `pic_disable`, which nothing calls, maps the
requests to other vectors. -/
def step (apicEnabled : Bool) (s : Kernel) : Op → Option (Ret × Kernel)
  | .raise lines => some (.none, { s with ctl := s.ctl.raise lines })
  | .withdraw lines => some (.none, { s with ctl := s.ctl.withdraw lines })
  | .mask .off => none
  | .mask op => some (.none, { s with ctl := { s.ctl with pic := (Pic.step s.ctl.pic op).2 } })
  | .code t => some (.none, { s with cpu := { t with segs := s.cpu.segs } })
  | .interrupt gone1 gone2 l =>
      if s.cpu.eflags &&& flagIf = 0 ∨ s.ctl.intr = false then none
      else
        let (taken, vector, ctl) := acknowledge s.ctl gone1 gone2
        match idtInit vector with
        | some ⟨.irq num, _, _⟩ =>
            let irqNum := BitVec.ofNat 32 (32 + num)
            let irqNo := (execs (irqEnter irqNum) (s.cpu.interrupt none)).peek 0
            some (.interrupted taken (irqHandlerDevice irqNo),
              ⟨runIrq irqNum l.after s.cpu, ctl.outs (irqHandlerEoi apicEnabled irqNo)⟩)
        | _ => none

/-- After `idt_init` and `pic_init`, with no interrupt in service. -/
def boot (cpu : X86.State) (pic1 pic2 : Chip) (irr1 irr2 : U8) : Kernel :=
  ⟨cpu, { pic := picInit (Pic.boot pic1 pic2), irr1 := irr1, isr1 := 0, irr2 := irr2, isr2 := 0 }⟩

/-- The interrupts that were taken. -/
def takens (es : List (Op × Ret)) : List Taken := es.filterMap fun e => match e.2 with
  | .interrupted taken _ => some taken
  | .none => none

/-! ### What stays as it is -/

variable {s s' t : Kernel} {apicEnabled : Bool} {op : Op} {r : Ret} {es : List (Op × Ret)}

theorem returns_after (l : Leaves) (u : X86.State) : Returns 1 13 u (l.after u) := by
  refine ⟨rfl, rfl, rfl, rfl, rfl, rfl, fun x hx => if_pos ?_⟩
  have hdrop : (u.drop 1).esp = u.esp + BitVec.ofNat 32 4 := rfl
  rw [hdrop] at hx
  exact hx.of_add (by decide)

theorem peek_after (l : Leaves) (u : X86.State) : (l.after u).peek 0 = u.peek 0 := by
  have htop : u.esp + BitVec.ofNat 32 (4 * 0) = u.esp := BitVec.add_zero _
  show load32 (l.after u).mem (u.esp + BitVec.ofNat 32 (4 * 0)) = load32 u.mem (u.esp + BitVec.ofNat 32 (4 * 0))
  rw [htop]
  exact load32_congr fun x hx => if_pos (hx.mono (by decide))

theorem runIrq_after (s : X86.State) (irqNum : U32) (l : Leaves) : ∃ mem,
    runIrq irqNum l.after s = { s with segs := Segs.all s.segs.ds, mem := mem } := by
  have h := runIrq_eq s irqNum l.after rfl (returns_after l _)
  rw [peek_after, peek_irqEnter, setWidth_setLow] at h
  exact ⟨_, h⟩

theorem idtInit_irq (n : Fin 16) : idtInit (32 + BitVec.ofNat 8 n) = some (interruptGate (.irq n)) := by
  revert n
  decide

/-- The requests are mapped to the vectors from 32 on. -/
structure Mapped (p : Pic.State) : Prop where
  ready : Ready p
  offset1 : p.pic1.offset = 0x20
  offset2 : p.pic2.offset = 0x28

theorem Mapped.writeLow {p : Pic.State} (h : Mapped p) : Mapped (Pic.writeLow p) := by
  rw [writeLow_eq h.ready]
  exact ⟨h.ready, h.offset1, h.offset2⟩

theorem Mapped.writeHigh {p : Pic.State} (h : Mapped p) : Mapped (Pic.writeHigh p) := by
  rw [writeHigh_eq h.ready]
  exact ⟨h.ready, h.offset1, h.offset2⟩

theorem Mapped.irqMask {p : Pic.State} (h : Mapped p) (mask : U16) : Mapped { p with irqMask := mask } :=
  ⟨h.ready, h.offset1, h.offset2⟩

theorem Mapped.all {p : Pic.State} (h : Mapped p) (v : U8) : Mapped (outs p [(0x21, v), (0xA1, v)]) := by
  have houts : outs p [(0x21, v), (0xA1, v)] = { p with pic1 := p.pic1.data v, pic2 := p.pic2.data v } := rfl
  rw [houts, data_of_mask h.ready.1, data_of_mask h.ready.2]
  exact ⟨h.ready, h.offset1, h.offset2⟩

theorem Mapped.step {p : Pic.State} (h : Mapped p) {op : Pic.Op} (hop : op ≠ .off) : Mapped (Pic.step p op).2 := by
  cases op with
  | enable irq =>
      show Mapped (picEnableIrq p irq)
      unfold picEnableIrq
      split
      · exact h
      · split
        · exact (h.irqMask _).writeLow
        · exact ((h.irqMask _).writeHigh.irqMask _).writeLow
  | disable irq =>
      show Mapped (picDisableIrq p irq)
      unfold picDisableIrq
      split
      · exact h
      · split
        · exact (h.irqMask _).writeLow
        · exact (h.irqMask _).writeHigh
  | maskAll => exact (h.all 0xFF).irqMask _
  | unmaskAll => exact (h.all 0x00).irqMask _
  | getMask => exact h
  | setMask mask => exact (h.irqMask mask).writeLow.writeHigh
  | off => exact absurd rfl hop

/-- The segments of the kernel are not among the first two of the table of segments. -/
structure Inv (s : Kernel) : Prop where
  mapped : Mapped s.ctl.pic
  ds : 16 ≤ s.cpu.segs.ds.toNat

theorem inv_boot {cpu : X86.State} (hds : 16 ≤ cpu.segs.ds.toNat) (pic1 pic2 : Chip) (irr1 irr2 : U8) :
    Inv (boot cpu pic1 pic2 irr1 irr2) := by
  refine ⟨⟨ready_picInit _, ?_, ?_⟩, hds⟩
  · rw [boot, picInit, outs_initWords]
  · rw [boot, picInit, outs_initWords]

/-- The argument of `irq_handler` is not the number of a device. -/
theorem le_setLow (w : U32) {v : U16} (hv : 16 ≤ v.toNat) : 16 ≤ (setLow w v).toNat := by
  rw [setLow, BitVec.toNat_append]
  exact hv.trans Nat.right_le_or

theorem irqHandlerDevice_eq_none {irqNo : U32} (h : 16 ≤ irqNo.toNat) : irqHandlerDevice irqNo = none := by
  have hne : ∀ n : U32, n.toNat < 16 → irqNo ≠ n := by
    rintro n hn rfl
    omega
  simp [irqHandlerDevice, hne]

/-! ### One interrupt -/

theorem exists_gate (h : Mapped s.ctl.pic) {k : Taken} {v : U8} {c : Controllers} (ha : Acknowledged s.ctl k v c) :
    ∃ num, idtInit v = some (interruptGate (.irq num)) := by
  obtain ⟨n, hv | hv⟩ := ha.vector
  · rw [h.offset1] at hv
    exact ⟨n, hv ▸ idtInit_irq ⟨n, n.isLt.trans (by decide)⟩⟩
  · have hadd : (0x28 : U8) + BitVec.ofNat 8 n = 32 + BitVec.ofNat 8 (8 + n) := by
      rw [BitVec.ofNat_add, ← BitVec.add_assoc]
      rfl
    rw [h.offset2, hadd] at hv
    exact ⟨8 + n, hv ▸ idtInit_irq ⟨8 + n, Nat.add_lt_add_left n.isLt 8⟩⟩

/-- What an interrupt leads to: the processor goes on, something is in service, and `irq_handler` was passed a number
that is none of a device. -/
structure Interrupted (apicEnabled : Bool) (s : Kernel) (k : Taken) (s' : Kernel) : Prop where
  cpu : s'.cpu = { s.cpu with segs := Segs.all s.cpu.segs.ds, mem := s'.cpu.mem }
  ctl : ∃ v c irqNo, Acknowledged s.ctl k v c ∧ 16 ≤ irqNo.toNat ∧ s'.ctl = c.outs (irqHandlerEoi apicEnabled irqNo)

/-- **An interrupt is taken** when the processor is shown one and `IF` is set. -/
theorem step_interrupt (h : Inv s) (hif : s.cpu.eflags &&& flagIf ≠ 0) (hintr : s.ctl.intr = true)
    (gone1 gone2 : U16) (l : Leaves) : ∃ k s',
      step apicEnabled s (.interrupt gone1 gone2 l) = some (.interrupted k none, s') ∧
        Interrupted apicEnabled s k s' := by
  obtain ⟨k, v, c, hack⟩ : ∃ k v c, acknowledge s.ctl gone1 gone2 = (k, v, c) := ⟨_, _, _, rfl⟩
  have ha := acknowledged hack
  obtain ⟨num, hgate⟩ := exists_gate h.mapped ha
  obtain ⟨mem, hcpu⟩ := runIrq_after s.cpu (BitVec.ofNat 32 (32 + num)) l
  have hle : 16 ≤ ((execs (irqEnter (BitVec.ofNat 32 (32 + num))) (s.cpu.interrupt none)).peek 0).toNat := by
    rw [peek_irqEnter]
    exact le_setLow _ h.ds
  refine ⟨k, ⟨runIrq (BitVec.ofNat 32 (32 + num)) l.after s.cpu, _⟩, ?_, ?_, v, c, _, ha, hle, rfl⟩
  · have hcond : ¬(s.cpu.eflags &&& flagIf = 0 ∨ s.ctl.intr = false) := by
      rintro (h0 | h0)
      · exact hif h0
      · rw [hintr] at h0
        cases h0
    rw [step, if_neg hcond, hack]
    simp only [hgate, interruptGate, irqHandlerDevice_eq_none hle]
    rfl
  · rw [hcpu]

theorem Interrupted.inv {k : Taken} (h : Interrupted apicEnabled s k s') (hi : Inv s) : Inv s' := by
  obtain ⟨v, c, irqNo, ha, -, hctl⟩ := h.ctl
  refine ⟨?_, ?_⟩
  · rw [hctl, pic_outs_eoi, ha.pic]
    exact hi.mapped
  · rw [h.cpu]
    exact hi.ds

/-- **What a step can be.** -/
theorem step_cases (h : Inv s) (hs : step apicEnabled s op = some (r, s')) : Inv s' ∧
    ((r = .none ∧ s'.ctl.isr1 = s.ctl.isr1 ∧ s'.ctl.isr2 = s.ctl.isr2) ∨
      ∃ k, r = .interrupted k none ∧ Interrupted apicEnabled s k s') := by
  cases op with
  | raise lines | withdraw lines =>
      cases hs
      exact ⟨⟨h.mapped, h.ds⟩, Or.inl ⟨rfl, rfl, rfl⟩⟩
  | mask op =>
      by_cases hop : op = .off
      · subst hop
        cases hs
      · have hmask : step apicEnabled s (.mask op) =
            some (.none, { s with ctl := { s.ctl with pic := (Pic.step s.ctl.pic op).2 } }) := by
          cases op with
          | off => exact absurd rfl hop
          | enable | disable | maskAll | unmaskAll | getMask | setMask => rfl
        cases hmask.symm.trans hs
        exact ⟨⟨h.mapped.step hop, h.ds⟩, Or.inl ⟨rfl, rfl, rfl⟩⟩
  | code t =>
      cases hs
      exact ⟨⟨h.mapped, h.ds⟩, Or.inl ⟨rfl, rfl, rfl⟩⟩
  | interrupt gone1 gone2 l =>
      by_cases hcond : s.cpu.eflags &&& flagIf = 0 ∨ s.ctl.intr = false
      · rw [step, if_pos hcond] at hs
        cases hs
      · obtain ⟨hif, hintr⟩ := not_or.mp hcond
        obtain ⟨k, t, ht, hint⟩ := step_interrupt h hif (Bool.of_not_eq_false hintr) gone1 gone2 l
        cases ht.symm.trans hs
        exact ⟨hint.inv h, Or.inr ⟨k, rfl, hint⟩⟩

/-! ### Runs -/

/-- **Without the local controller** all goes well, but to no effect. In every state of a run nothing is in service;
so a request that is not masked is shown to the processor, and taken as soon as `IF` is set. But no handler of a device
is ever called: `irq_handler` takes the saved `ds` for the number of the request. -/
theorem interrupts_without_apic {cpu : X86.State} {pic1 pic2 : Chip} {irr1 irr2 : U8} (hds : 16 ≤ cpu.segs.ds.toNat)
    (h : Run (step false) (boot cpu pic1 pic2 irr1 irr2) es t) :
    t.ctl.Quiet ∧
    (∀ e ∈ es, ∀ k d, e.2 = .interrupted k d → d = none) ∧
    (t.cpu.eflags &&& flagIf ≠ 0 → t.ctl.intr = true → ∀ gone1 gone2 l, ∃ k s',
      step false t (.interrupt gone1 gone2 l) = some (.interrupted k none, s')) := by
  have hrun : (Inv t ∧ t.ctl.Quiet) ∧ ∀ e ∈ es, ∀ k d, e.2 = .interrupted k d → d = none := by
    refine h.history (fun es t => (Inv t ∧ t.ctl.Quiet) ∧ ∀ e ∈ es, ∀ k d, e.2 = .interrupted k d → d = none)
      ⟨⟨inv_boot hds _ _ _ _, rfl, rfl⟩, by simp⟩ ?_
    rintro es s op r s' - ⟨⟨hi, hq⟩, hes⟩ hs
    obtain ⟨hi', hr⟩ := step_cases hi hs
    refine ⟨⟨hi', ?_⟩, fun e he k d hk => ?_⟩
    · rcases hr with ⟨-, h1, h2⟩ | ⟨k, -, hint⟩
      · exact ⟨h1.trans hq.isr1, h2.trans hq.isr2⟩
      · obtain ⟨v, c, irqNo, ha, hno, hctl⟩ := hint.ctl
        rw [hctl]
        exact quiet_ended hq ha (BitVec.le_def.mpr (le_trans (by decide) hno))
    · rcases List.mem_append.mp he with he | he
      · exact hes e he k d hk
      · rw [List.mem_singleton.mp he] at hk
        rcases hr with ⟨rfl, -⟩ | ⟨k', rfl, -⟩
        · cases hk
        · cases hk
          rfl
  obtain ⟨⟨hi, hq⟩, hes⟩ := hrun
  refine ⟨hq, hes, fun hif hintr gone1 gone2 l => ?_⟩
  obtain ⟨k, s', hs, -⟩ := step_interrupt hi hif hintr gone1 gone2 l
  exact ⟨k, s', hs⟩

/-- A timer makes a request. -/
def timerBoot : Kernel := boot kernelCpu (running 0xFF) (running 0xFF) 1 0

theorem exists_timerRun (apicEnabled : Bool) : ∃ es t, Run (step apicEnabled) timerBoot es t ∧ takens es ≠ [] := by
  have henable : step apicEnabled timerBoot (.mask (.enable 0)) = some (.none,
      { timerBoot with ctl := { timerBoot.ctl with pic := (Pic.step timerBoot.ctl.pic (.enable 0)).2 } }) := rfl
  have hi : Inv timerBoot := inv_boot (by decide) _ _ _ _
  obtain ⟨k, s', hs, -⟩ : ∃ k s', step apicEnabled _ (.interrupt 0 0 ⟨0, 0, 0, 0, fun _ => 0⟩) =
      some (.interrupted k none, s') ∧ Interrupted apicEnabled _ k s' :=
    step_interrupt (step_cases hi henable).1 (by decide) (by decide) _ _ _
  exact ⟨_, s', .cons henable (.cons hs (.nil _)), by simp [takens]⟩

theorem interrupts_without_apic_timer : ∃ es t, Run (step false) timerBoot es t ∧ takens es ≠ [] ∧ t.ctl.Quiet ∧
    (∀ e ∈ es, ∀ k d, e.2 = .interrupted k d → d = none) ∧
    (t.cpu.eflags &&& flagIf ≠ 0 → t.ctl.intr = true → ∀ gone1 gone2 l, ∃ k s',
      step false t (.interrupt gone1 gone2 l) = some (.interrupted k none, s')) := by
  obtain ⟨es, t, h, hes⟩ := exists_timerRun false
  exact ⟨es, t, h, hes, interrupts_without_apic (by decide) h⟩

/-- The lines of the first controller, in the order in which they were served. -/
def levels (es : List (Op × Ret)) : List (Fin 8) := (takens es).filterMap Taken.level

theorem levels_append (es fs : List (Op × Ret)) : levels (es ++ fs) = levels es ++ levels fs := by
  rw [levels, takens, List.filterMap_append, List.filterMap_append]
  rfl

/-- **With the local controller** the others are never told of an end. A line is served only if it has a higher
priority than all the lines served before, so that there are at most eight interrupts, but for spurious ones; after
that of the timer there is none. -/
theorem interrupts_with_apic {cpu : X86.State} {pic1 pic2 : Chip} {irr1 irr2 : U8} (hds : 16 ≤ cpu.segs.ds.toNat)
    (h : Run (step true) (boot cpu pic1 pic2 irr1 irr2) es t) :
    (levels es).Pairwise (· > ·) ∧ (levels es).length ≤ 8 := by
  have hrun : (Inv t ∧ ∀ i ∈ levels es, t.ctl.isr1.getLsbD i = true) ∧ (levels es).Pairwise (· > ·) := by
    refine h.history (fun es t => (Inv t ∧ ∀ i ∈ levels es, t.ctl.isr1.getLsbD i = true) ∧
      (levels es).Pairwise (· > ·)) ⟨⟨inv_boot hds _ _ _ _, by simp [levels, takens]⟩, by simp [levels, takens]⟩ ?_
    rintro es s op r s' - ⟨⟨hi, hbits⟩, hpair⟩ hs
    obtain ⟨hi', hr⟩ := step_cases hi hs
    rw [levels_append]
    rcases hr with ⟨rfl, h1, -⟩ | ⟨k, rfl, hint⟩
    · have hnil : levels [(op, Ret.none)] = [] := rfl
      rw [hnil, List.append_nil, h1]
      exact ⟨⟨hi', hbits⟩, hpair⟩
    · obtain ⟨v, c, irqNo, ha, -, hctl⟩ := hint.ctl
      have hisr : s'.ctl.isr1 = k.inService s.ctl.isr1 := by
        rw [hctl, ← ha.isr1]
        rfl
      have hlevel : levels [(op, Ret.interrupted k none)] = k.level.toList := by
        cases hk : k.level <;> simp [levels, takens, hk]
      rw [hlevel, hisr]
      refine ⟨⟨hi', fun i hmem => getLsbD_inService.mpr ?_⟩, List.pairwise_append.mpr ⟨hpair, ?_, ?_⟩⟩
      · exact (List.mem_append.mp hmem).imp (hbits i) fun hk => Option.mem_toList.mp hk
      · cases k.level <;> simp
      · intro i hmem j hj
        exact ha.above j (Option.mem_toList.mp hj) i (hbits i hmem)
  refine ⟨hrun.2, ?_⟩
  have hnodup : (levels es).Nodup := hrun.2.imp fun hgt => ne_of_gt hgt
  simpa using hnodup.length_le_card

theorem interrupts_with_apic_timer : ∃ es t, Run (step true) timerBoot es t ∧ takens es ≠ [] ∧
    (levels es).Pairwise (· > ·) ∧ (levels es).length ≤ 8 := by
  obtain ⟨es, t, h, hes⟩ := exists_timerRun true
  exact ⟨es, t, h, hes, interrupts_with_apic (by decide) h⟩

end BloodKernel.Interrupts
