import BloodKernel.Kernel.Types
import BloodKernel.Lib.X86

set_option autoImplicit false

/-!
# The context switch of the x86

`context_switch` of `arch/x86/context_switch.S`, which `sched.c` calls with the address at which to save the stack
pointer of a task, and the stack pointer of the next. Its two loads come after `pusha`, so that they are not loads of
its arguments.

* `contextSwitch`: the instructions; `contextFrame`: what a task leaves on its stack;
* `contextSwitch_eq`: it saves through `esi`, and goes on with the frame at `ebp`;
* **`contextSwitch_resumes_iff`**: when a switch back to a task resumes it.
-/

namespace BloodKernel

open Lib Lib.X86

def contextSwitch : State → State := execs [.pusha, .load 1, .storeEsp, .load 2, .setEsp, .popa, .ret]

/-- The registers of a task and, above them, the address to which it returns. -/
def contextFrame (s : State) : List U32 := saved s.regs s.esp ++ [s.peek 0]

/-- The memory after the save. -/
def contextSaved (s : State) : Mem := store32 (pusha s).mem s.regs.esi (s.esp - 32)

variable {s t : State}

theorem stacked_pusha (s : State) : Stacked s.esp 8 s.mem (pusha s) (saved s.regs s.esp) := by
  have h := (Stacked.nil s 8).pusha (by decide) (by decide)
  rwa [List.append_nil] at h

theorem esp_pusha (s : State) : (pusha s).esp = s.esp - 32 := (stacked_pusha s).esp

theorem execs_loads {p : State} {old next : U32} (hold : p.peek 1 = old)
    (hnext : load32 (store32 p.mem old p.esp) (p.esp + 8) = next) :
    execs [.load 1, .storeEsp, .load 2, .setEsp] p =
      { p with mem := store32 p.mem old p.esp, esp := next, regs := p.regs.set next .eax } := by
  subst hold hnext
  rfl

theorem execs_contextSwitch (s : State) :
    contextSwitch s = exec (popa (execs [.load 1, .storeEsp, .load 2, .setEsp] (pusha s))) .ret := by
  simp only [contextSwitch, execs, List.foldl_cons, List.foldl_nil, exec]

theorem esp_pusha_add (s : State) : (pusha s).esp + 8 = s.esp - 24 := by
  have hsplit : (32 : U32) = 24 + 8 := rfl
  rw [esp_pusha, hsplit, ← BitVec.sub_sub, BitVec.sub_add_cancel]

/-- **It takes `esi` and `ebp` for its arguments**, if the word at `esi` is not where `ebp` has just been pushed. -/
theorem contextSwitch_eq (h : ∀ x, InRange s.regs.esi 4 x → ¬InRange (s.esp - 24) 4 x) :
    contextSwitch s =
      exec (popa { s with mem := contextSaved s, esp := s.regs.ebp, regs := s.regs.set s.regs.ebp .eax }) .ret := by
  have hs := stacked_pusha s
  have hesi : (pusha s).peek 1 = s.regs.esi := hs.peek (by simp [saved])
  have hebp : (pusha s).peek 2 = s.regs.ebp := hs.peek (by simp [saved])
  have hnext : load32 (store32 (pusha s).mem s.regs.esi (pusha s).esp) ((pusha s).esp + 8) = s.regs.ebp := by
    rw [← hebp, State.peek]
    refine load32_congr fun x hx => store32_of_not fun hx' => h x hx' ?_
    rwa [← esp_pusha_add]
  have hstate : { pusha s with
      mem := store32 (pusha s).mem s.regs.esi (pusha s).esp
      esp := s.regs.ebp
      regs := (pusha s).regs.set s.regs.ebp .eax } =
      { s with mem := contextSaved s, esp := s.regs.ebp, regs := s.regs.set s.regs.ebp .eax } := by
    rw [contextSaved, ← esp_pusha]
    rfl
  rw [execs_contextSwitch, execs_loads hesi hnext, hstate]

/-- The frame of a task that calls `context_switch`, below the stack pointer that it returns with. -/
theorem stacked_contextFrame (s : State) : Stacked (s.esp + 4) 9 s.mem (pusha s) (contextFrame s) := by
  have hesp : s.esp = s.esp + 4 - BitVec.ofNat 32 4 := (BitVec.add_sub_cancel _ _).symm
  have hret : Stacked (s.esp + 4) 9 s.mem s [s.peek 0] :=
    ⟨hesp, ⟨(congrArg (load32 s.mem) (BitVec.add_zero s.esp)).symm, trivial⟩, fun _ _ => rfl, by simp⟩
  exact hret.pusha (by simp) (by decide)

theorem exec_ret_of_stacked {base : U32} {m : Mem} (h : Stacked base 9 m t (contextFrame s)) :
    (exec (popa t) .ret).regs = s.regs ∧ (exec (popa t) .ret).esp = base ∧ (exec (popa t) .ret).eip = s.peek 0 := by
  have hpopa : Stacked base 9 m (popa t) [s.peek 0] := Stacked.popa h
  have hret : Stacked base 9 m ((popa t).drop 1) [] := hpopa.drop 1 le_rfl
  have hregs : (popa t).regs = s.regs := Stacked.regs_popa h
  have heip : (popa t).peek 0 = s.peek 0 := hpopa.peek (by simp)
  exact ⟨hregs, hret.esp.trans (BitVec.sub_zero _), heip⟩

/-- **A switch back to a task resumes it exactly if its stack pointer is in `ebp`.** A task calls `context_switch` in
the state `s`. Later another call is made, in the state `t`, after whose save the frame of the task is as the task has
left it. Whatever the arguments are, the task goes on after its call, with its registers, if and only if `ebp` is the
stack pointer that was saved for it. -/
theorem contextSwitch_resumes_iff (h : ∀ x, InRange t.regs.esi 4 x → ¬InRange (t.esp - 24) 4 x)
    (hframe : ∀ x, InRange (s.esp - 32) 36 x → contextSaved t x = (pusha s).mem x) :
    ((contextSwitch t).regs = s.regs ∧ (contextSwitch t).esp = s.esp + 4 ∧ (contextSwitch t).eip = s.peek 0) ↔
      t.regs.ebp = s.esp - 32 := by
  rw [contextSwitch_eq h]
  constructor
  · rintro ⟨-, hesp, -⟩
    have hadd : t.regs.ebp + BitVec.ofNat 32 (4 * 8) + BitVec.ofNat 32 (4 * 1) = s.esp + 4 := hesp
    have hcancel : t.regs.ebp + BitVec.ofNat 32 (4 * 8) = s.esp := (BitVec.add_left_inj _).mp hadd
    rw [← hcancel]
    exact (BitVec.add_sub_cancel _ _).symm
  · intro hebp
    have hwords := (stacked_contextFrame s).words
    have hbase : s.esp - 32 = s.esp + 4 - BitVec.ofNat 32 (4 * 9) := by
      have hsplit : BitVec.ofNat 32 (4 * 9) = (4 : U32) + 32 := rfl
      rw [hsplit, ← BitVec.sub_sub, BitVec.add_sub_cancel]
    rw [esp_pusha] at hwords
    refine exec_ret_of_stacked (m := contextSaved t) ⟨hebp.trans hbase, ?_, fun _ _ => rfl, le_rfl⟩
    rw [hebp]
    exact hwords.congr (by simp [contextFrame, saved]) hframe

/-- A processor with its stack pointer at `esp`. -/
def switchExample (m : Mem) (esp esi ebp : U32) : State where
  regs := { eax := 0, ecx := 0, edx := 0, ebx := 0, ebp := ebp, esi := esi, edi := 0 }
  segs := { ds := 0x10, es := 0x10, fs := 0x10, gs := 0x10 }
  esp := esp
  eip := 0
  cs := 0x08
  eflags := 0
  mem := m

/-- A task on the stack below `0x1000` is switched back to from one on the stack below `0x2000`. -/
theorem contextSwitch_resumes_iff_stacks :
    let s := switchExample (fun _ => 0) 0x1000 0x3000 0
    let t := switchExample (pusha s).mem 0x2000 0x3000 0xFE0
    ((contextSwitch t).regs = s.regs ∧ (contextSwitch t).esp = s.esp + 4 ∧ (contextSwitch t).eip = s.peek 0) ↔
      t.regs.ebp = s.esp - 32 := by
  refine contextSwitch_resumes_iff (fun x hx hx' => ?_) fun x hx => ?_
  · have hesi : InRange 0x3000 4 x := hx
    have hslot : InRange 0x1FE8 4 x := hx'
    unfold InRange at hesi hslot
    bv_omega
  · have hframe : InRange 0xFE0 36 x := hx
    refine (store32_of_not fun hesi => ?_).trans ((stacked_pusha _).frame x fun hbelow => ?_)
    · have hesi' : InRange 0x3000 4 x := hesi
      unfold InRange at hframe hesi'
      bv_omega
    · have hbelow' : InRange 0x1FE0 32 x := hbelow
      unfold InRange at hframe hbelow'
      bv_omega

end BloodKernel
