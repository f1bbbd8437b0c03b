import BloodKernel.Kernel.Types
import BloodKernel.Lib.X86

set_option autoImplicit false

/-!
# Interrupt stubs

The stubs of `arch/x86/interrupt_stubs.S`: what they push before they call a C function, and what they restore after
it has returned. A function takes its arguments from the top of the stack.

* `irqEnter`, `isrEnter`, `commonLeave`, `syscallEnter`, `syscallLeave`: the instructions; `runIrq`, `runSyscall`: an
  interrupt with the function that the stub calls;
* `stacked_irqEnter`, `stacked_isrEnter`, `stacked_syscallEnter`: the stack at the call;
* **`runIrq_returns`**: the interrupted code goes on with its registers, and with its segments from the stack;
* **`isrEnter_arguments`**: what `isr_handler` is passed; **`runSyscall_returns`**: what a system call returns.
-/

namespace BloodKernel

open Lib Lib.X86

/-! ### The stubs -/

def movSegs (r : Reg) : List Instr := [.movSeg .ds r, .movSeg .es r, .movSeg .fs r, .movSeg .gs r]

/-- `isr_common_stub` and `irq_common_stub`, up to the call. -/
def commonEnter : List Instr := [.pusha, .movDs, .push .eax, .movAx 0x10] ++ movSegs .eax

def commonLeave : List Instr := [.pop .eax] ++ movSegs .eax ++ [.popa, .drop 2, .sti, .iret]

/-- `IRQ num, irq_num` -/
def irqEnter (irqNum : U32) : List Instr := [.cli, .pushImm 0, .pushImm irqNum] ++ commonEnter

/-- The exceptions for which the processor pushes an error code, and the stub is `ISR_ERRCODE`. -/
def hasErrorCode (num : ℕ) : Bool := [8, 10, 11, 12, 13, 14, 17].contains num

/-- `ISR_NOERRCODE num` and `ISR_ERRCODE num` -/
def isrEnter (num : ℕ) : List Instr :=
  (if hasErrorCode num then [.cli] else [.cli, .pushImm 0]) ++ [.pushImm (BitVec.ofNat 32 num)] ++ commonEnter

/-- `syscall_handler`, up to the call. -/
def syscallEnter : List Instr :=
  [.cli] ++ commonEnter ++ [Reg.edi, .esi, .edx, .ecx, .ebx, .eax].map .push

def syscallLeave : List Instr := [.drop 6, .pop .ebx] ++ movSegs .ebx ++ [.popa, .sti, .iret]

/-- An interrupt request: the stub calls `irq_handler`, which does `handler`. -/
def runIrq (irqNum : U32) (handler : State → State) (s : State) : State :=
  execs commonLeave (handler (execs (irqEnter irqNum) (s.interrupt none)))

/-- A system call: the stub calls `syscall_dispatch`. -/
def runSyscall (dispatch : State → State) (s : State) : State :=
  execs syscallLeave (dispatch (execs syscallEnter (s.interrupt none)))

/-! ### The stack at the call -/

variable {s t u : State} {base : Word} {room : ℕ} {m : Mem} {ws : List Word}

/-- All data segments. -/
def Segs.all (v : U16) : Segs := ⟨v, v, v, v⟩

theorem execs_append (is js : List Instr) (s : State) : execs (is ++ js) s = execs js (execs is s) :=
  List.foldl_append

/-- The registers at the call: `eax` has been used for the segments. -/
def atCall (r : Regs) (ds : U16) : Regs := { r with eax := setLow (setLow r.eax ds) 0x10 }

/-- **The common part saves the registers**, and `ds` in the low half of what `eax` was. -/
theorem stacked_commonEnter (h : Stacked base room m s ws) (hlen : ws.length + 9 ≤ room) (hroom : 4 * room ≤ 2 ^ 32) :
    Stacked base room m (execs commonEnter s) (setLow s.regs.eax s.segs.ds :: (saved s.regs s.esp ++ ws)) ∧
      (execs commonEnter s).regs = atCall s.regs s.segs.ds ∧ (execs commonEnter s).segs = Segs.all 0x10 := by
  have hsaved := h.pusha (by omega) hroom
  have hds : Stacked base room m (exec (X86.pusha s) .movDs) (saved s.regs s.esp ++ ws) := hsaved.of_eq rfl rfl
  have hpush := hds.push (v := setLow s.regs.eax s.segs.ds)
    (by rw [List.length_append]; exact Nat.lt_of_lt_of_le (Nat.add_lt_add_right (by decide : 8 < 9) _) (by omega)) hroom
  have hsegs : (execs commonEnter s).segs = Segs.all ((setLow (setLow s.regs.eax s.segs.ds) 0x10).setWidth 16) := rfl
  rw [setWidth_setLow] at hsegs
  exact ⟨hpush.of_eq rfl rfl, rfl, hsegs⟩

/-- The segment registers get what was saved of `ds`, through the register `r`. -/
def restoredSegs (r : Reg) (s : State) : State :=
  { s.drop 1 with regs := s.regs.set (s.peek 0) r, segs := Segs.all ((s.peek 0).setWidth 16) }

theorem execs_movSegs (r : Reg) (s : State) : execs ([.pop r] ++ movSegs r) s = restoredSegs r s := by
  cases r <;> rfl

/-- **And the other part restores them**, from above the word with the segment. -/
theorem stacked_restoredSegs {q : Reg} {r : Regs} {esp : U32}
    (h : Stacked base room m (s.drop 1) (saved r esp ++ ws)) :
    Stacked base room m (X86.popa (restoredSegs q s)) ws ∧ (X86.popa (restoredSegs q s)).regs = r ∧
      (X86.popa (restoredSegs q s)).segs = Segs.all ((s.peek 0).setWidth 16) := by
  have hregs : Stacked base room m (restoredSegs q s) (saved r esp ++ ws) := h.of_eq rfl rfl
  exact ⟨hregs.popa, hregs.regs_popa, rfl⟩

theorem exec_iret_of_stacked (h : Stacked base room m t u.pushed) :
    exec (exec t .sti) .iret = { u with regs := t.regs, segs := t.segs, esp := base, mem := t.mem } := by
  have hsti : Stacked base room m (exec t .sti) (u.pushed ++ []) := h.of_eq rfl rfl
  obtain ⟨hiret, heip, hcs, heflags⟩ := hsti.iret
  exact State.ext rfl rfl (hiret.esp.trans (BitVec.sub_zero _)) heip hcs heflags rfl

theorem execs_commonLeave {r : Regs} {esp n v : U32}
    (h : Stacked base room m (s.drop 1) (saved r esp ++ n :: v :: u.pushed)) : execs commonLeave s =
      { u with regs := r, segs := Segs.all ((s.peek 0).setWidth 16), esp := base, mem := s.mem } := by
  obtain ⟨hs, hregs, hsegs⟩ := stacked_restoredSegs (q := .eax) h
  have hdrop : Stacked base room m ((X86.popa (restoredSegs .eax s)).drop 2) u.pushed :=
    hs.drop 2 (Nat.succ_le_succ (Nat.succ_le_succ (Nat.zero_le _)))
  have hiret := exec_iret_of_stacked hdrop
  rw [commonLeave, execs_append, execs_movSegs, ← hregs, ← hsegs]
  exact hiret

/-- The words on the stack at the call, with the number of the interrupt and an error code. -/
def callStack (s : State) (num code : U32) : List U32 :=
  setLow s.regs.eax s.segs.ds :: (saved s.regs (s.esp - 20) ++ num :: code :: s.pushed)

theorem stacked_callStack {num code : U32} (h : Stacked s.esp 14 s.mem t (num :: code :: s.pushed))
    (hregs : t.regs = s.regs) (hsegs : t.segs = s.segs) :
    Stacked s.esp 14 s.mem (execs commonEnter t) (callStack s num code) ∧
      (execs commonEnter t).segs = Segs.all 0x10 := by
  have hlen : (num :: code :: s.pushed).length + 9 ≤ 14 := by simp [s.length_pushed]
  obtain ⟨hs, -, hds⟩ := stacked_commonEnter h hlen (by decide)
  have hesp : t.esp = s.esp - 20 := h.esp
  rw [hregs, hsegs, hesp] at hs
  exact ⟨hs, hds⟩

/-! ### Interrupt requests -/

theorem stacked_irqEnter (s : State) (irqNum : U32) :
    Stacked s.esp 14 s.mem (execs (irqEnter irqNum) (s.interrupt none)) (callStack s irqNum 0) ∧
      (execs (irqEnter irqNum) (s.interrupt none)).segs = Segs.all 0x10 := by
  have hcli : Stacked s.esp 14 s.mem (exec (s.interrupt none) .cli) s.pushed :=
    (stacked_interrupt s none (by decide) (by decide)).of_eq rfl rfl
  have hcode := hcli.push (v := 0) (by simp [s.length_pushed]) (by decide)
  have hnum := hcode.push (v := irqNum) (by simp [s.length_pushed]) (by decide)
  rw [irqEnter, execs_append]
  exact stacked_callStack hnum rfl rfl

/-- Above its argument, `irq_handler` finds what the stub takes from the stack afterwards. -/
theorem runIrq_eq (s : State) (irqNum : U32) (handler : State → State)
    (hu : u = execs (irqEnter irqNum) (s.interrupt none)) (h : Returns 1 13 u (handler u)) :
    runIrq irqNum handler s =
      { s with segs := Segs.all (((handler u).peek 0).setWidth 16), mem := (handler u).mem } := by
  obtain ⟨hs, -⟩ := stacked_irqEnter s irqNum
  unfold runIrq
  rw [← hu] at hs ⊢
  have hreturned : Stacked s.esp 14 (handler u).mem ((handler u).drop 1)
      (saved s.regs (s.esp - 20) ++ irqNum :: 0 :: s.pushed) :=
    h.stacked_drop hs (Nat.succ_pos _) le_rfl (by decide)
  exact execs_commonLeave hreturned

/-- The number of the request is not what is on top of the stack. -/
theorem peek_irqEnter (s : State) (irqNum : U32) :
    (execs (irqEnter irqNum) (s.interrupt none)).peek 0 = setLow s.regs.eax s.segs.ds :=
  (stacked_irqEnter s irqNum).1.peek (Nat.succ_pos _)

/-- **An interrupt is not noticed.** The interrupted code goes on where it was, with its registers, flags and stack
pointer, whatever `irq_handler` does that a compiled function may do; only the segment registers are what it leaves in
its argument, and if it does not write there, `es`, `fs` and `gs` are what `ds` is. Before the call nothing was
written but 14 words below the stack pointer of the interrupted code. But the function was not passed the number of
the request: its argument is what `eax` was, with `ds` in the low half. -/
theorem runIrq_returns (s : State) (irqNum : U32) (handler : State → State)
    (hu : u = execs (irqEnter irqNum) (s.interrupt none)) (h : Returns 1 13 u (handler u)) :
    runIrq irqNum handler s =
      { s with segs := Segs.all (((handler u).peek 0).setWidth 16), mem := (handler u).mem } ∧
    ((handler u).peek 0 = u.peek 0 → (((handler u).peek 0).setWidth 16 : U16) = s.segs.ds) ∧
    (∀ x, ¬InRange (s.esp - 56) 56 x → u.mem x = s.mem x) ∧ u.peek 0 = setLow s.regs.eax s.segs.ds := by
  have hpeek : u.peek 0 = setLow s.regs.eax s.segs.ds := hu ▸ peek_irqEnter s irqNum
  refine ⟨runIrq_eq s irqNum handler hu h, fun hkept => ?_, ?_, hpeek⟩
  · rw [hkept, hpeek, setWidth_setLow]
  · rw [hu]
    exact (stacked_irqEnter s irqNum).1.frame

/-- The kernel with interrupts enabled. -/
def kernelCpu : State where
  regs := { eax := 0, ecx := 0, edx := 0, ebx := 0, ebp := 0, esi := 0, edi := 0 }
  segs := Segs.all 0x10
  esp := 0x9000
  eip := 0x100000
  cs := 0x08
  eflags := 0x202
  mem := fun _ => 0

/-- A function that returns 1 in `eax`. -/
def returnOne (s : State) : State := { s with regs := { s.regs with eax := 1 } }

theorem returns_returnOne (args kept : ℕ) (s : State) : Returns args kept s (returnOne s) :=
  ⟨rfl, rfl, rfl, rfl, rfl, rfl, fun _ _ => rfl⟩

/-- A function that writes 0x18 to its argument. -/
def writeArg (s : State) : State := { s with mem := store32 s.mem s.esp 0x18 }

theorem returns_writeArg {kept : ℕ} (s : State) (hroom : 4 * kept + 4 ≤ 2 ^ 32) : Returns 1 kept s (writeArg s) := by
  refine ⟨rfl, rfl, rfl, rfl, rfl, rfl, fun x hx => store32_of_not fun hx' => ?_⟩
  have hdrop : (s.drop 1).esp = s.esp + 4 := rfl
  have hfour : (4 : U32).toNat = 4 := rfl
  have := x.isLt
  have := s.esp.isLt
  rw [hdrop] at hx
  unfold InRange at hx hx'
  rw [BitVec.toNat_sub, BitVec.toNat_add, hfour] at hx
  rw [BitVec.toNat_sub] at hx'
  omega

/-- The handler changes its argument: the segment registers get what it has written. -/
theorem runIrq_returns_written :
    let u := execs (irqEnter 32) (kernelCpu.interrupt none)
    runIrq 32 writeArg kernelCpu = { kernelCpu with segs := Segs.all 0x18, mem := (writeArg u).mem } ∧
    u.peek 0 = setLow kernelCpu.regs.eax kernelCpu.segs.ds := by
  have h := runIrq_returns kernelCpu 32 writeArg rfl (returns_writeArg _ (by decide))
  have hwritten (t : State) : (writeArg t).peek 0 = 0x18 := by
    have htop : t.esp + BitVec.ofNat 32 (4 * 0) = t.esp := BitVec.add_zero _
    have hpeek : (writeArg t).peek 0 = load32 (store32 t.mem t.esp 0x18) (t.esp + BitVec.ofNat 32 (4 * 0)) := rfl
    rw [hpeek, htop, load32_store32]
  rw [hwritten] at h
  exact ⟨h.1, h.2.2.2⟩

/-! ### Exceptions -/

theorem stacked_isrEnter (s : State) (num : ℕ) (code : U32) : ∃ v,
    Stacked s.esp 14 s.mem (execs (isrEnter num) (s.interrupt (if hasErrorCode num then some code else none)))
      (callStack s (BitVec.ofNat 32 num) v) := by
  cases hcode : hasErrorCode num with
  | true =>
      have h₀ : Stacked s.esp 14 s.mem (exec (s.interrupt (some code)) .cli) (code :: s.pushed) :=
        (stacked_interrupt s (some code) (by decide) (by decide)).of_eq rfl rfl
      have hnum := h₀.push (v := BitVec.ofNat 32 num) (by simp [s.length_pushed]) (by decide)
      simp only [isrEnter, hcode, if_true, execs_append]
      exact ⟨code, (stacked_callStack hnum rfl rfl).1⟩
  | false =>
      have h₀ : Stacked s.esp 14 s.mem (exec (s.interrupt none) .cli) s.pushed :=
        (stacked_interrupt s none (by decide) (by decide)).of_eq rfl rfl
      have hzero := h₀.push (v := 0) (by simp [s.length_pushed]) (by decide)
      have hnum := hzero.push (v := BitVec.ofNat 32 num) (by simp [s.length_pushed]) (by decide)
      simp only [isrEnter, hcode, Bool.false_eq_true, if_false, execs_append]
      exact ⟨0, (stacked_callStack hnum rfl rfl).1⟩

/-- **What `isr_handler` is passed.** Its parameters are the number of the exception, the error code, `eip`, `cs` and
`eflags`; it gets `eax` with `ds` in the low half, `edi`, `esi`, `ebp`, and the stack pointer before `pusha`. -/
theorem isrEnter_arguments (s : State) (num : ℕ) (code : U32) : (List.range 5).map
      (execs (isrEnter num) (s.interrupt (if hasErrorCode num then some code else none))).peek =
    [setLow s.regs.eax s.segs.ds, s.regs.edi, s.regs.esi, s.regs.ebp, s.esp - 20] := by
  obtain ⟨v, hs⟩ := stacked_isrEnter s num code
  exact hs.map_peek 5 (by simp [callStack, saved])

/-! ### System calls -/

theorem setLow_setLow (w : U32) (v v' : U16) : setLow (setLow w v) v' = setLow w v' := by
  have hhigh : (setLow w v).extractLsb' 16 16 = w.extractLsb' 16 16 := by
    apply BitVec.eq_of_getLsbD_eq
    intro i hi
    rw [BitVec.getLsbD_extractLsb', BitVec.getLsbD_extractLsb', setLow, BitVec.getLsbD_append,
      if_neg (Nat.not_lt.mpr (Nat.le_add_right 16 i)), Nat.add_sub_cancel_left, BitVec.getLsbD_extractLsb',
      decide_eq_true hi, Bool.true_and]
  rw [setLow, hhigh]
  rfl

/-- The arguments of `syscall_dispatch`: the number of the call, and the registers with its parameters. -/
def syscallArgs (r : Regs) : List U32 := [setLow r.eax 0x10, r.ebx, r.ecx, r.edx, r.esi, r.edi]

/-- The words on the stack when `syscall_dispatch` is called. -/
def syscallStack (s : State) : List U32 :=
  syscallArgs s.regs ++ setLow s.regs.eax s.segs.ds :: (saved s.regs (s.esp - 12) ++ s.pushed)

theorem stacked_syscallEnter (s : State) :
    Stacked s.esp 18 s.mem (execs syscallEnter (s.interrupt none)) (syscallStack s) := by
  have hcli : Stacked s.esp 18 s.mem (exec (s.interrupt none) .cli) s.pushed :=
    (stacked_interrupt s none (by decide) (by decide)).of_eq rfl rfl
  obtain ⟨hs, hregs, -⟩ := stacked_commonEnter hcli (by simp [s.length_pushed]) (by decide)
  have hesp : (exec (s.interrupt none) .cli).esp = s.esp - 12 := hcli.esp
  rw [hesp] at hs
  rw [syscallEnter, execs_append, execs_append]
  have hstart : execs [.cli] (s.interrupt none) = exec (s.interrupt none) .cli := rfl
  rw [hstart]
  generalize execs commonEnter (exec (s.interrupt none) .cli) = t at hs hregs ⊢
  have hargs := hs.pushes [.edi, .esi, .edx, .ecx, .ebx, .eax] (by simp [saved, s.length_pushed]) (by decide)
  have hmap : ([Reg.edi, .esi, .edx, .ecx, .ebx, .eax].map t.regs.get).reverse = syscallArgs s.regs := by
    rw [hregs]
    exact congrArg₂ List.cons (setLow_setLow _ _ _) rfl
  rwa [hmap] at hargs

/-- **A system call has no result.** The caller gets its registers back, `eax` too, whatever `syscall_dispatch`
returned. The number that the function was passed is 16, in the low half. -/
theorem runSyscall_returns (s : State) (dispatch : State → State) (hu : u = execs syscallEnter (s.interrupt none))
    (h : Returns 6 12 u (dispatch u)) :
    runSyscall dispatch s = { s with segs := Segs.all s.segs.ds, mem := (dispatch u).mem } ∧
    (List.range 6).map u.peek = syscallArgs s.regs := by
  have hs := stacked_syscallEnter s
  unfold runSyscall
  rw [← hu] at hs ⊢
  have hreturned : Stacked s.esp 18 (dispatch u).mem ((dispatch u).drop 6)
      (setLow s.regs.eax s.segs.ds :: (saved s.regs (s.esp - 12) ++ s.pushed)) :=
    h.stacked_drop hs (by simp [syscallStack, syscallArgs]) le_rfl (by decide)
  have hds : (((dispatch u).drop 6).peek 0).setWidth 16 = s.segs.ds := by
    rw [hreturned.peek (Nat.succ_pos _)]
    exact setWidth_setLow _ _
  obtain ⟨hpopa, hregs, hsegs⟩ := stacked_restoredSegs (q := .ebx) (hreturned.drop 1 (Nat.succ_pos _))
  have hiret := exec_iret_of_stacked hpopa
  refine ⟨?_, hs.map_peek 6 (by simp [syscallStack, syscallArgs])⟩
  rw [hregs, hsegs, hds] at hiret
  have hleave : execs syscallLeave (dispatch u) =
      exec (exec (X86.popa (execs ([.pop .ebx] ++ movSegs .ebx) ((dispatch u).drop 6))) .sti) .iret := rfl
  rw [hleave, execs_movSegs]
  exact hiret

/-- The result 1 is lost. -/
theorem runSyscall_returns_one :
    let u := execs syscallEnter (kernelCpu.interrupt none)
    runSyscall returnOne kernelCpu =
      { kernelCpu with segs := Segs.all kernelCpu.segs.ds, mem := (returnOne u).mem } ∧
    (List.range 6).map u.peek = syscallArgs kernelCpu.regs :=
  runSyscall_returns kernelCpu returnOne rfl (returns_returnOne 6 12 _)

end BloodKernel
