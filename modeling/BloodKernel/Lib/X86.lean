import BloodKernel.Lib.Region

set_option autoImplicit false

/-!
# Assembler stubs on the x86

The 32-bit instructions with which a stub saves the registers, calls a function and restores them, on a machine
with a flat memory.

* `State`, `Instr`, `exec`, `execs`: the machine; `interrupt`: what the processor does before the first instruction.
* `Stacked base room m s ws`: below `base` the words `ws` have been pushed, and nothing else has been written.
* **`Stacked.push`**, `Stacked.pop`, `Stacked.pusha`, `Stacked.popa`, `Stacked.iret`: the stack as a list.
* `Returns`: what a compiled function leaves alone; `Returns.stacked_drop`.
-/

namespace Lib.X86

abbrev Word := BitVec 32

/-- The general registers, without the stack pointer. -/
structure Regs where
  eax : Word
  ecx : Word
  edx : Word
  ebx : Word
  ebp : Word
  esi : Word
  edi : Word

structure Segs where
  ds : BitVec 16
  es : BitVec 16
  fs : BitVec 16
  gs : BitVec 16

@[ext]
structure State where
  regs : Regs
  segs : Segs
  esp : Word
  eip : Word
  cs : BitVec 16
  eflags : Word
  mem : Mem

inductive Reg
  | eax | ecx | edx | ebx | ebp | esi | edi

def Regs.get (r : Regs) : Reg → Word
  | .eax => r.eax
  | .ecx => r.ecx
  | .edx => r.edx
  | .ebx => r.ebx
  | .ebp => r.ebp
  | .esi => r.esi
  | .edi => r.edi

def Regs.set (r : Regs) (v : Word) : Reg → Regs
  | .eax => { r with eax := v }
  | .ecx => { r with ecx := v }
  | .edx => { r with edx := v }
  | .ebx => { r with ebx := v }
  | .ebp => { r with ebp := v }
  | .esi => { r with esi := v }
  | .edi => { r with edi := v }

inductive Seg
  | ds | es | fs | gs

def Segs.set (s : Segs) (v : BitVec 16) : Seg → Segs
  | .ds => { s with ds := v }
  | .es => { s with es := v }
  | .fs => { s with fs := v }
  | .gs => { s with gs := v }

/-! ### The stack -/

def State.push (s : State) (v : Word) : State :=
  { s with esp := s.esp - 4, mem := store32 s.mem (s.esp - 4) v }

/-- Word `i` of the stack, counted from its top. -/
def State.peek (s : State) (i : ℕ) : Word := load32 s.mem (s.esp + BitVec.ofNat 32 (4 * i))

def State.drop (s : State) (n : ℕ) : State := { s with esp := s.esp + BitVec.ofNat 32 (4 * n) }

/-! ### The instructions -/

/-- The low half of a register. -/
def setLow (w : Word) (v : BitVec 16) : Word := w.extractLsb' 16 16 ++ v

theorem setWidth_setLow (w : Word) (v : BitVec 16) : (setLow w v).setWidth 16 = v := by
  apply BitVec.eq_of_getLsbD_eq
  intro i hi
  rw [BitVec.getLsbD_setWidth, decide_eq_true hi, Bool.true_and, setLow, BitVec.getLsbD_append, if_pos hi]

def flagIf : Word := 0x200

/-- The flags that an interrupt gate clears: TF, IF, NT, RF and VM. -/
def gateFlags : Word := 0x34300

inductive Instr
  | cli
  | sti
  | pushImm (v : Word)
  | push (r : Reg)
  | pop (r : Reg)
  | pusha
  | popa
  /-- `mov %ds, %ax` -/
  | movDs
  /-- `mov %ax, %ds`, from the low half of a register -/
  | movSeg (g : Seg) (r : Reg)
  /-- `mov $v, %ax` -/
  | movAx (v : BitVec 16)
  /-- `add $(4 * n), %esp` -/
  | drop (n : ℕ)
  /-- `mov (4 * n)(%esp), %eax` -/
  | load (n : ℕ)
  /-- `mov %esp, (%eax)` -/
  | storeEsp
  /-- `mov %eax, %esp` -/
  | setEsp
  | ret
  | iret

/-- `eax`, `ecx`, `edx`, `ebx`, `esp` as it was before, `ebp`, `esi`, `edi`. -/
def pusha (s : State) : State :=
  (((((((s.push s.regs.eax).push s.regs.ecx).push s.regs.edx).push s.regs.ebx).push s.esp).push s.regs.ebp).push
    s.regs.esi).push s.regs.edi

/-- The saved stack pointer is skipped. -/
def popa (s : State) : State :=
  { s.drop 8 with regs := ⟨s.peek 7, s.peek 6, s.peek 5, s.peek 4, s.peek 2, s.peek 1, s.peek 0⟩ }

def exec (s : State) : Instr → State
  | .cli => { s with eflags := s.eflags &&& ~~~flagIf }
  | .sti => { s with eflags := s.eflags ||| flagIf }
  | .pushImm v => s.push v
  | .push r => s.push (s.regs.get r)
  | .pop r => { s.drop 1 with regs := s.regs.set (s.peek 0) r }
  | .pusha => pusha s
  | .popa => popa s
  | .movDs => { s with regs := s.regs.set (setLow s.regs.eax s.segs.ds) .eax }
  | .movSeg g r => { s with segs := s.segs.set ((s.regs.get r).setWidth 16) g }
  | .movAx v => { s with regs := s.regs.set (setLow s.regs.eax v) .eax }
  | .drop n => s.drop n
  | .load n => { s with regs := s.regs.set (s.peek n) .eax }
  | .storeEsp => { s with mem := store32 s.mem s.regs.eax s.esp }
  | .setEsp => { s with esp := s.regs.eax }
  | .ret => { s.drop 1 with eip := s.peek 0 }
  | .iret => { s.drop 3 with eip := s.peek 0, cs := (s.peek 1).setWidth 16, eflags := s.peek 2 }

def execs (is : List Instr) (s : State) : State := is.foldl exec s

/-- Through an interrupt gate, without a change of privilege: the flags, the code segment and the address of the next
instruction are pushed, and for some exceptions an error code. -/
def State.interrupt (s : State) (error : Option Word) : State :=
  let t := ((s.push s.eflags).push (s.cs.setWidth 32)).push s.eip
  let t := { t with eflags := s.eflags &&& ~~~gateFlags }
  match error with
  | some e => t.push e
  | none => t

/-! ### Words in memory -/

variable {m m' : Mem} {a b v : Word} {ws : List Word}

theorem load32_store32 (m : Mem) (a v : Word) : load32 (store32 m a v) a = v := by
  refine leWord_eq fun k hk => ?_
  rw [store32, add_sub_self, BitVec.toNat_ofNat, Nat.mod_eq_of_lt (by omega), if_pos hk]

theorem store32_of_not {x : Word} (h : ¬InRange a 4 x) : store32 m a v x = m x := if_neg h

/-- The words lie one after the other. -/
def Stack (m : Mem) (a : Word) : List Word → Prop
  | [] => True
  | w :: ws => load32 m a = w ∧ Stack m (a + 4) ws

theorem Stack.congr (hs : Stack m a ws) (hlen : 4 * ws.length ≤ 2 ^ 32)
    (h : ∀ x, InRange a (4 * ws.length) x → m' x = m x) : Stack m' a ws := by
  induction ws generalizing a with
  | nil => trivial
  | cons w ws ih =>
      have hcons : 4 * (w :: ws).length = 4 + 4 * ws.length := by rw [List.length_cons]; omega
      refine ⟨(load32_congr fun x hx => h x (hx.mono (by omega))).trans hs.1, ih hs.2 (by omega) fun x hx => h x ?_⟩
      exact hx.of_add hcons.ge

theorem Stack.get (hs : Stack m a ws) {i : ℕ} (hi : i < ws.length) :
    load32 m (a + BitVec.ofNat 32 (4 * i)) = ws[i] := by
  induction ws generalizing a i with
  | nil => cases hi
  | cons w ws ih =>
      cases i with
      | zero => exact (congrArg (load32 m) (BitVec.add_zero a)).trans hs.1
      | succ i =>
          have hadd : a + BitVec.ofNat 32 (4 * (i + 1)) = a + 4 + BitVec.ofNat 32 (4 * i) := by
            rw [Nat.mul_succ, Nat.add_comm, BitVec.ofNat_add, ← BitVec.add_assoc]
            rfl
          rw [hadd, ih hs.2 (Nat.lt_of_succ_lt_succ hi)]
          rfl

theorem Stack.drop (hs : Stack m a ws) (n : ℕ) (hn : n ≤ ws.length) :
    Stack m (a + BitVec.ofNat 32 (4 * n)) (ws.drop n) := by
  induction n generalizing a ws with
  | zero => exact (BitVec.add_zero a).symm ▸ hs
  | succ n ih =>
      cases ws with
      | nil => cases hn
      | cons w ws =>
          have hadd : a + BitVec.ofNat 32 (4 * (n + 1)) = a + 4 + BitVec.ofNat 32 (4 * n) := by
            rw [Nat.mul_succ, Nat.add_comm, BitVec.ofNat_add, ← BitVec.add_assoc]
            rfl
          rw [hadd]
          exact ih hs.2 (Nat.le_of_succ_le_succ hn)

theorem Stack.store (hs : Stack m a ws) (hlen : 4 * (ws.length + 1) ≤ 2 ^ 32) :
    Stack (store32 m (a - 4) v) (a - 4) (v :: ws) := by
  refine ⟨load32_store32 _ _ _, ?_⟩
  rw [BitVec.sub_add_cancel]
  refine hs.congr (by omega) fun x hx => store32_of_not fun hx' => ?_
  unfold InRange at hx hx'
  have hfour : (4 : Word).toNat = 4 := rfl
  have := x.isLt
  have := a.isLt
  rw [BitVec.toNat_sub] at hx
  rw [BitVec.toNat_sub, BitVec.toNat_sub, hfour] at hx'
  omega

/-! ### The stack as a list -/

/-- Below `base` there are the words `ws`, at most `room` words have been written there, and the rest of the memory is
`m`. -/
structure Stacked (base : Word) (room : ℕ) (m : Mem) (s : State) (ws : List Word) : Prop where
  esp : s.esp = base - BitVec.ofNat 32 (4 * ws.length)
  words : Stack s.mem s.esp ws
  frame : ∀ x, ¬InRange (base - BitVec.ofNat 32 (4 * room)) (4 * room) x → s.mem x = m x
  length_le : ws.length ≤ room

variable {s t : State} {base : Word} {room : ℕ}

theorem Stacked.nil (s : State) (room : ℕ) : Stacked s.esp room s.mem s [] :=
  ⟨(BitVec.sub_zero _).symm, trivial, fun _ _ => rfl, Nat.zero_le _⟩

theorem Stacked.of_eq (h : Stacked base room m s ws) (hesp : t.esp = s.esp) (hmem : t.mem = s.mem) :
    Stacked base room m t ws := by
  refine ⟨hesp.trans h.esp, ?_, ?_, h.length_le⟩
  · rw [hmem, hesp]
    exact h.words
  · rw [hmem]
    exact h.frame

theorem Stacked.push (h : Stacked base room m s ws) (hlen : ws.length < room) (hroom : 4 * room ≤ 2 ^ 32) :
    Stacked base room m (s.push v) (v :: ws) := by
  have hsub : s.esp - 4 = base - BitVec.ofNat 32 (4 * (v :: ws).length) := by
    have hfour : (4 : Word) = BitVec.ofNat 32 4 := rfl
    rw [h.esp, List.length_cons, Nat.mul_succ, BitVec.ofNat_add, hfour, BitVec.sub_sub]
  refine ⟨hsub, h.words.store (by omega), fun x hx => ?_, hlen⟩
  refine (store32_of_not fun hx' => hx ?_).trans (h.frame x hx)
  rw [hsub, List.length_cons] at hx'
  have := x.isLt
  have := base.isLt
  unfold InRange at hx' ⊢
  rw [BitVec.toNat_sub, BitVec.toNat_sub, BitVec.toNat_ofNat] at hx' ⊢
  omega

theorem Stacked.pushes (h : Stacked base room m s ws) (rs : List Reg) (hlen : ws.length + rs.length ≤ room)
    (hroom : 4 * room ≤ 2 ^ 32) :
    Stacked base room m (execs (rs.map .push) s) ((rs.map s.regs.get).reverse ++ ws) := by
  induction rs generalizing s ws with
  | nil => exact h
  | cons r rs ih =>
      rw [List.length_cons] at hlen
      have hpush := h.push (v := s.regs.get r) (by omega) hroom
      rw [List.map_cons, List.map_cons, List.reverse_cons, List.append_assoc]
      exact ih hpush (by rw [List.length_append, List.length_singleton]; omega)

theorem Stacked.peek (h : Stacked base room m s ws) {i : ℕ} (hi : i < ws.length) : s.peek i = ws[i] := h.words.get hi

theorem Stacked.map_peek (h : Stacked base room m s ws) (n : ℕ) (hn : n ≤ ws.length) :
    (List.range n).map s.peek = ws.take n := by
  refine List.ext_getElem (by simp [hn]) fun i hi hi' => ?_
  rw [List.length_map, List.length_range] at hi
  rw [List.getElem_map, List.getElem_range, List.getElem_take, h.peek (hi.trans_le hn)]

theorem Stacked.drop (h : Stacked base room m s ws) (n : ℕ) (hn : n ≤ ws.length) :
    Stacked base room m (s.drop n) (ws.drop n) := by
  refine ⟨?_, h.words.drop n hn, h.frame, (List.length_drop ▸ Nat.sub_le _ _).trans h.length_le⟩
  have hsplit : 4 * ws.length = 4 * (ws.length - n) + 4 * n := by omega
  rw [State.drop, h.esp, List.length_drop, hsplit, BitVec.ofNat_add, ← BitVec.sub_sub, BitVec.sub_add_cancel]

/-- The stack after `pusha`. -/
def saved (r : Regs) (esp : Word) : List Word := [r.edi, r.esi, r.ebp, esp, r.ebx, r.edx, r.ecx, r.eax]

theorem Stacked.pusha (h : Stacked base room m s ws) (hlen : ws.length + 8 ≤ room) (hroom : 4 * room ≤ 2 ^ 32) :
    Stacked base room m (X86.pusha s) (saved s.regs s.esp ++ ws) := by
  have h₁ := h.push (v := s.regs.eax) (by omega) hroom
  have h₂ := h₁.push (v := s.regs.ecx) (by simp only [List.length_cons]; omega) hroom
  have h₃ := h₂.push (v := s.regs.edx) (by simp only [List.length_cons]; omega) hroom
  have h₄ := h₃.push (v := s.regs.ebx) (by simp only [List.length_cons]; omega) hroom
  have h₅ := h₄.push (v := s.esp) (by simp only [List.length_cons]; omega) hroom
  have h₆ := h₅.push (v := s.regs.ebp) (by simp only [List.length_cons]; omega) hroom
  have h₇ := h₆.push (v := s.regs.esi) (by simp only [List.length_cons]; omega) hroom
  exact h₇.push (v := s.regs.edi) (by simp only [List.length_cons]; omega) hroom

theorem Stacked.regs_popa {r : Regs} {esp : Word} (h : Stacked base room m s (saved r esp ++ ws)) :
    (X86.popa s).regs = r := by
  have hlen : ∀ i < 8, i < (saved r esp ++ ws).length := fun i hi => by
    rw [List.length_append]
    exact Nat.lt_of_lt_of_le hi (Nat.le_add_right 8 _)
  simp only [X86.popa, h.peek (hlen 0 (by decide)), h.peek (hlen 1 (by decide)), h.peek (hlen 2 (by decide)),
    h.peek (hlen 4 (by decide)), h.peek (hlen 5 (by decide)), h.peek (hlen 6 (by decide)), h.peek (hlen 7 (by decide))]
  rfl

theorem Stacked.popa {r : Regs} {esp : Word} (h : Stacked base room m s (saved r esp ++ ws)) :
    Stacked base room m (X86.popa s) ws := by
  have hdrop := h.drop 8 (by rw [List.length_append]; exact Nat.le_add_right 8 _)
  exact hdrop.of_eq rfl rfl

/-- What the processor pushes. -/
def State.pushed (s : State) : List Word := [s.eip, s.cs.setWidth 32, s.eflags]

theorem State.length_pushed (s : State) : s.pushed.length = 3 := rfl

theorem stacked_interrupt (s : State) (error : Option Word) (hlen : 4 ≤ room) (hroom : 4 * room ≤ 2 ^ 32) :
    Stacked s.esp room s.mem (s.interrupt error) (error.toList ++ s.pushed) := by
  have h₁ := (Stacked.nil s room).push (v := s.eflags) (by simp only [List.length_nil]; omega) hroom
  have h₂ := h₁.push (v := s.cs.setWidth 32) (by simp only [List.length_cons, List.length_nil]; omega) hroom
  have h₃ := h₂.push (v := s.eip) (by simp only [List.length_cons, List.length_nil]; omega) hroom
  have h₄ : Stacked s.esp room s.mem (s.interrupt none) s.pushed := h₃.of_eq rfl rfl
  cases error with
  | none => exact h₄
  | some e => exact h₄.push (v := e) (by simp only [State.pushed, List.length_cons, List.length_nil]; omega) hroom

/-- `iret` goes back to where the processor was interrupted. -/
theorem Stacked.iret {u : State} (h : Stacked base room m s (u.pushed ++ ws)) :
    Stacked base room m (exec s .iret) ws ∧ (exec s .iret).eip = u.eip ∧ (exec s .iret).cs = u.cs ∧
      (exec s .iret).eflags = u.eflags := by
  have hlen : ∀ i < 3, i < (u.pushed ++ ws).length := fun i hi => by
    rw [List.length_append]
    exact Nat.lt_of_lt_of_le hi (Nat.le_add_right 3 _)
  have hdrop := h.drop 3 (by rw [List.length_append]; exact Nat.le_add_right 3 _)
  refine ⟨hdrop.of_eq rfl rfl, h.peek (hlen 0 (by decide)), ?_, h.peek (hlen 2 (by decide))⟩
  have hcs : s.peek 1 = u.cs.setWidth 32 := h.peek (hlen 1 (by decide))
  exact (congrArg (BitVec.setWidth 16) hcs).trans (BitVec.setWidth_setWidth_of_le u.cs (by decide) |>.trans
    (BitVec.setWidth_eq u.cs))

/-! ### Compiled functions -/

/-- A function with `args` words of arguments that was called in `s` has returned in `t`: the registers that it has to
save, the segments and the stack pointer are what they were, and so are the `kept` words above its arguments. The
arguments are its own to change. -/
structure Returns (args kept : ℕ) (s t : State) : Prop where
  ebx : t.regs.ebx = s.regs.ebx
  ebp : t.regs.ebp = s.regs.ebp
  esi : t.regs.esi = s.regs.esi
  edi : t.regs.edi = s.regs.edi
  segs : t.segs = s.segs
  esp : t.esp = s.esp
  stack : ∀ x, InRange (s.drop args).esp (4 * kept) x → t.mem x = s.mem x

theorem Returns.stacked_drop {args kept : ℕ} (hr : Returns args kept s t) (h : Stacked base room m s ws)
    (hargs : args ≤ ws.length) (hkept : ws.length ≤ args + kept) (hroom : 4 * room ≤ 2 ^ 32) :
    Stacked base room t.mem (t.drop args) (ws.drop args) := by
  have hs := h.drop args hargs
  have hesp : (t.drop args).esp = (s.drop args).esp := congrArg (· + BitVec.ofNat 32 (4 * args)) hr.esp
  have hlen := h.length_le
  refine ⟨hesp.trans hs.esp, ?_, fun _ _ => rfl, hs.length_le⟩
  rw [hesp]
  refine hs.words.congr ?_ fun x hx => hr.stack x (hx.mono ?_)
  · rw [List.length_drop]
    omega
  · rw [List.length_drop]
    omega

end Lib.X86
