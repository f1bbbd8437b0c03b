import BloodKernel.Drivers.Serial

set_option autoImplicit false

/-!
# Initializing a serial port

`serial_init` of `drivers/serial.c` with what it writes to the UART. The settings are checked one by one
between the writes, so that a call that fails may have changed the registers of a running port.

* `Uart.outb`: a write to a 16550, whose first two offsets belong to the divisor while DLAB is set.
* `initPort`, `initBoard`: the call on its port and on the four ports; **`softState_initBoard`**: for the
  software it is `serialInit`.
* **`restores_iff`**: the calls that neither divide by zero nor fail with other registers than before.
-/

namespace BloodKernel.Serial

open Lib

/-! ## The UART -/

/-- The registers that hold the configuration of a 16550. -/
structure Regs where
  divisorLo : U8
  divisorHi : U8
  ier : U8
  fcr : U8
  lcr : U8
  mcr : U8

/-- The registers, the scratch register, and the bytes that have been sent. -/
structure Uart extends Regs where
  scratch : U8
  sent : List U8

/-- `LCR_DLAB` is set. -/
def Regs.dlab (r : Regs) : Prop := r.lcr &&& 0x80 ≠ 0

instance decidableDlab (r : Regs) : Decidable r.dlab := inferInstanceAs (Decidable (_ ≠ _))

def Uart.data (u : Uart) (v : U8) : Uart :=
  if u.dlab then { u with divisorLo := v } else { u with sent := u.sent ++ [v] }

def Uart.interrupts (u : Uart) (v : U8) : Uart :=
  if u.dlab then { u with divisorHi := v } else { u with ier := v }

/-- `outb(base + offset, v)`. -/
def Uart.outb (u : Uart) (offset : ℕ) (v : U8) : Uart :=
  match offset with
  | 0 => u.data v
  | 1 => u.interrupts v
  | 2 => { u with fcr := v }
  | 3 => { u with lcr := v }
  | 4 => { u with mcr := v }
  | 7 => { u with scratch := v }
  | _ => u

/-! ## The driver -/

/-- The fields of `serial_port_t` that change: the receive ring, the positions of the send buffer, and the
settings. -/
structure SerialPort extends Port where
  txHead : U8
  txTail : U8
  settings : Settings

/-- `serial_test_port`: `scratch` is what the two reads of the scratch register find. -/
def serialTestPort (u : Uart) (scratch : U8 × U8) : Bool × Uart :=
  let u := u.outb 7 0xAE
  if scratch.1 ≠ 0xAE then (false, u)
  else
    let u := u.outb 7 0x5C
    if scratch.2 ≠ 0x5C then (false, u) else (true, u)

/-- `u16 divisor = 115200 / baud_rate`. -/
def divisorOf (baudRate : U32) : U16 := (115200 / baudRate).setWidth 16

def dataBitsLcr (dataBits : U8) : Option U8 :=
  if dataBits = 5 then some 0x00 else if dataBits = 6 then some 0x01
  else if dataBits = 7 then some 0x02 else if dataBits = 8 then some 0x03 else none

def parityLcr (parity : U8) : Option U8 :=
  if parity = 0 then some 0x00 else if parity = 1 then some 0x08
  else if parity = 2 then some 0x18 else none

/-- Interrupts off, and the divisor behind DLAB. -/
def writeDivisor (u : Uart) (divisor : U16) : Uart :=
  (((u.outb 1 0x00).outb 3 0x80).outb 0 (divisor.extractLsb' 0 8)).outb 1 (divisor.extractLsb' 8 8)

/-- The line parameters, the FIFO, the modem control and the interrupts. -/
def writeLine (u : Uart) (lcr : U8) : Uart :=
  (((u.outb 3 lcr).outb 2 0xC7).outb 4 0x0B).outb 1 0x05

/-- `serial_init` on a port that is there. `none`: it divides by zero. -/
def initPort (p : SerialPort) (u : Uart) (scratch : U8 × U8) (c : Settings) :
    Option (U8 × SerialPort × Uart) :=
  let test := serialTestPort u scratch
  if test.1 = false then some (0, p, test.2)
  else if c.baudRate = 0 then none
  else
    let u := writeDivisor test.2 (divisorOf c.baudRate)
    match dataBitsLcr c.dataBits with
    | none => some (0, p, u)
    | some bits =>
      let lcr := if c.stopBits = 2 then bits ||| 0x04 else bits
      match parityLcr c.parity with
      | none => some (0, p, u)
      | some par =>
        let u := writeLine u (lcr ||| par)
        some (1, { initialized := true, rx := p.rx.clear, txHead := 0, txTail := 0, settings := c }, u)

/-- `serial_ports` and their UARTs. -/
abbrev Board := Fin 4 → SerialPort × Uart

def initBoard (b : Board) (port : U8) (scratch : U8 × U8) (c : Settings) : Option (U8 × Board) :=
  if h : port.toNat < 4 then
    let i : Fin 4 := ⟨port.toNat, h⟩
    (initPort (b i).1 (b i).2 scratch c).map fun r => (r.1, Function.update b i (r.2.1, r.2.2))
  else some (0, b)

/-! ## One port -/

/-- The scratch register holds what is written to it. -/
def Present (scratch : U8 × U8) : Prop := scratch.1 = 0xAE ∧ scratch.2 = 0x5C

/-- The data bits and the parity are ones that the driver has. -/
def Settings.Valid (c : Settings) : Prop :=
  (dataBitsLcr c.dataBits).isSome ∧ (parityLcr c.parity).isSome

instance decidableValid (c : Settings) : Decidable c.Valid := inferInstanceAs (Decidable (_ ∧ _))

section InitPort

variable {p : SerialPort} {u : Uart} {scratch : U8 × U8} {c : Settings}

theorem initPort_of_absent (h : ¬Present scratch) :
    ∃ v, initPort p u scratch c = some (0, p, { u with scratch := v }) := by
  unfold initPort serialTestPort
  by_cases h₁ : scratch.1 = 0xAE
  · have h₂ : scratch.2 ≠ 0x5C := fun h₂ => h ⟨h₁, h₂⟩
    refine ⟨0x5C, ?_⟩
    simp only [ne_eq, h₁, not_true_eq_false, if_false, h₂, not_false_eq_true, if_true]
    rfl
  · refine ⟨0xAE, ?_⟩
    simp only [ne_eq, h₁, not_false_eq_true, if_true]
    rfl

theorem serialTestPort_of_present (h : Present scratch) :
    serialTestPort u scratch = (true, { u with scratch := 0x5C }) := by
  unfold serialTestPort
  rw [h.1, h.2]
  rfl

theorem initPort_of_zero (h : Present scratch) (hbaud : c.baudRate = 0) :
    initPort p u scratch c = none := by
  unfold initPort
  rw [serialTestPort_of_present h]
  exact if_pos hbaud

/-- Settings that the driver does not have are found after the divisor has been written. -/
theorem initPort_of_not_valid (h : Present scratch) (hbaud : c.baudRate ≠ 0) (hvalid : ¬c.Valid) :
    initPort p u scratch c =
      some (0, p, writeDivisor { u with scratch := 0x5C } (divisorOf c.baudRate)) := by
  unfold initPort
  rw [serialTestPort_of_present h]
  simp only [Bool.true_eq_false, if_false, if_neg hbaud]
  cases hbits : dataBitsLcr c.dataBits with
  | none => rfl
  | some bits =>
      cases hpar : parityLcr c.parity with
      | none => rfl
      | some par => exact absurd ⟨by rw [hbits]; rfl, by rw [hpar]; rfl⟩ hvalid

theorem initPort_of_valid (h : Present scratch) (hbaud : c.baudRate ≠ 0) (hvalid : c.Valid) :
    ∃ u', initPort p u scratch c =
      some (1, { initialized := true, rx := p.rx.clear, txHead := 0, txTail := 0, settings := c },
        u') := by
  obtain ⟨bits, hbits⟩ := Option.isSome_iff_exists.mp hvalid.1
  obtain ⟨par, hpar⟩ := Option.isSome_iff_exists.mp hvalid.2
  unfold initPort
  rw [serialTestPort_of_present h, hbits, hpar]
  simp only [Bool.true_eq_false, if_false, if_neg hbaud]
  exact ⟨_, rfl⟩

end InitPort

/-! ## The software -/

/-- What the other calls see of the ports. -/
def softState (b : Board) : State := fun i => (b i).1.toPort

theorem softState_update (b : Board) (i : Fin 4) (p : SerialPort) (u : Uart) :
    softState (Function.update b i (p, u)) = Function.update (softState b) i p.toPort := by
  funext j
  unfold softState
  by_cases h : j = i
  · subst h
    rw [Function.update_self, Function.update_self]
  · rw [Function.update_of_ne h, Function.update_of_ne h]

theorem isSome_dataBitsLcr {v : U8} : (dataBitsLcr v).isSome ↔ ¬(v ≠ 5 ∧ v ≠ 6 ∧ v ≠ 7 ∧ v ≠ 8) := by
  unfold dataBitsLcr
  split_ifs with h₅ h₆ h₇ h₈
  · exact iff_of_true rfl fun h => h.1 h₅
  · exact iff_of_true rfl fun h => h.2.1 h₆
  · exact iff_of_true rfl fun h => h.2.2.1 h₇
  · exact iff_of_true rfl fun h => h.2.2.2 h₈
  · exact iff_of_false (by decide) fun h => h ⟨h₅, h₆, h₇, h₈⟩

theorem isSome_parityLcr {v : U8} : (parityLcr v).isSome ↔ ¬(v ≠ 0 ∧ v ≠ 1 ∧ v ≠ 2) := by
  unfold parityLcr
  split_ifs with h₀ h₁ h₂
  · exact iff_of_true rfl fun h => h.1 h₀
  · exact iff_of_true rfl fun h => h.2.1 h₁
  · exact iff_of_true rfl fun h => h.2.2 h₂
  · exact iff_of_false (by decide) fun h => h ⟨h₀, h₁, h₂⟩

theorem accepts_of_absent {scratch : U8 × U8} (h : ¬Present scratch) (c : Settings) :
    accepts scratch c = some false := by
  unfold accepts
  by_cases h₁ : scratch.1 = 0xAE
  · rw [if_neg (not_not.mpr h₁), if_pos fun h₂ => h ⟨h₁, h₂⟩]
  · rw [if_pos h₁]

theorem accepts_of_present {scratch : U8 × U8} (h : Present scratch) (c : Settings) :
    accepts scratch c = if c.baudRate = 0 then none else some (decide c.Valid) := by
  unfold accepts
  rw [if_neg (not_not.mpr h.1), if_neg (not_not.mpr h.2)]
  split_ifs with hbaud hbits hpar
  · rfl
  · rw [decide_eq_false fun hvalid => isSome_dataBitsLcr.mp hvalid.1 hbits]
  · rw [decide_eq_false fun hvalid => isSome_parityLcr.mp hvalid.2 hpar]
  · rw [decide_eq_true ⟨isSome_dataBitsLcr.mpr hbits, isSome_parityLcr.mpr hpar⟩]

/-- **The software's part.** What the other calls see is the call without the UART. -/
theorem softState_initBoard (b : Board) (port : U8) (scratch : U8 × U8) (c : Settings) :
    (initBoard b port scratch c).map (fun r => (r.1, softState r.2)) =
      serialInit (softState b) port scratch c := by
  unfold initBoard serialInit
  split_ifs with hport
  · dsimp only
    generalize (⟨port.toNat, hport⟩ : Fin 4) = i
    -- a port that keeps its fields keeps its place in the state
    have hkeep (u : Uart) : softState (Function.update b i ((b i).1, u)) = softState b := by
      rw [softState_update]
      exact Function.update_eq_self i (softState b)
    by_cases hpresent : Present scratch
    · rw [accepts_of_present hpresent]
      by_cases hbaud : c.baudRate = 0
      · rw [initPort_of_zero hpresent hbaud, if_pos hbaud]
        rfl
      · rw [if_neg hbaud]
        by_cases hvalid : c.Valid
        · obtain ⟨u', hinit⟩ :=
            initPort_of_valid (p := (b i).1) (u := (b i).2) hpresent hbaud hvalid
          rw [hinit, decide_eq_true hvalid]
          simp only [Option.map_some, softState_update, if_true]
          rfl
        · rw [initPort_of_not_valid hpresent hbaud hvalid, decide_eq_false hvalid]
          simp only [Option.map_some, hkeep, Bool.false_eq_true, if_false]
    · obtain ⟨v, hinit⟩ := initPort_of_absent (p := (b i).1) (u := (b i).2) (c := c) hpresent
      rw [hinit, accepts_of_absent hpresent]
      simp only [Option.map_some, hkeep, Bool.false_eq_true, if_false]
  · rfl

/-! ## The registers -/

theorem outb_divisor (u : Uart) (lo hi : U8) : ((u.outb 3 0x80).outb 0 lo).outb 1 hi =
    { u with lcr := 0x80, divisorLo := lo, divisorHi := hi } := by
  have hdlab : ({ u with lcr := 0x80 } : Uart).dlab := show (0x80 : U8) &&& 0x80 ≠ 0 by decide
  have hlo : (u.outb 3 0x80).outb 0 lo = { u with lcr := 0x80, divisorLo := lo } := if_pos hdlab
  rw [hlo]
  exact if_pos hdlab

theorem toRegs_writeDivisor (u : Uart) (divisor : U16) :
    (writeDivisor u divisor).toRegs =
      { divisorLo := divisor.extractLsb' 0 8
        divisorHi := divisor.extractLsb' 8 8
        ier := if u.dlab then u.ier else 0
        fcr := u.fcr
        lcr := 0x80
        mcr := u.mcr } := by
  unfold writeDivisor
  rw [outb_divisor]
  by_cases h : u.dlab
  · have hier : u.outb 1 0x00 = { u with divisorHi := 0 } := if_pos h
    rw [hier, if_pos h]
  · have hier : u.outb 1 0x00 = { u with ier := 0 } := if_neg h
    rw [hier, if_neg h]

def Regs.divisor (r : Regs) : U16 := r.divisorHi ++ r.divisorLo

theorem divisor_eq_iff {r : Regs} {d : U16} :
    r.divisor = d ↔ r.divisorLo = d.extractLsb' 0 8 ∧ r.divisorHi = d.extractLsb' 8 8 := by
  unfold Regs.divisor
  constructor
  · rintro rfl
    exact ⟨BitVec.extractLsb'_append_eq_right.symm, BitVec.extractLsb'_append_eq_left.symm⟩
  · rintro ⟨hlo, hhi⟩
    rw [hlo, hhi, BitVec.extractLsb'_append_extractLsb'_eq_extractLsb' (show 8 = 0 + 8 from rfl)]
    exact BitVec.extractLsb'_eq_self

/-- **The failing exit** leaves the registers alone exactly when they were as it leaves them. -/
theorem toRegs_writeDivisor_eq_iff {u : Uart} {divisor : U16} :
    (writeDivisor u divisor).toRegs = u.toRegs ↔ u.lcr = 0x80 ∧ u.divisor = divisor := by
  rw [toRegs_writeDivisor, divisor_eq_iff]
  constructor
  · intro h
    exact ⟨(congrArg Regs.lcr h).symm, (congrArg Regs.divisorLo h).symm,
      (congrArg Regs.divisorHi h).symm⟩
  · rintro ⟨hlcr, hlo, hhi⟩
    have hdlab : u.dlab := by
      unfold Regs.dlab
      rw [hlcr]
      decide
    rw [if_pos hdlab, ← hlo, ← hhi, ← hlcr]

/-! ## The call -/

/-- The call does not divide by zero, and when it fails all ports and their registers are as before. -/
def Restores (b : Board) (port : U8) (scratch : U8 × U8) (c : Settings) : Prop :=
  ∃ r b', initBoard b port scratch c = some (r, b') ∧
    (r = 0 → ∀ i, (b' i).1 = (b i).1 ∧ (b' i).2.toRegs = (b i).2.toRegs)

/-- The call on its own port. -/
def PortRestores (p : SerialPort) (u : Uart) (scratch : U8 × U8) (c : Settings) : Prop :=
  ∃ r p' u', initPort p u scratch c = some (r, p', u') ∧ (r = 0 → p' = p ∧ u'.toRegs = u.toRegs)

theorem portRestores_iff (p : SerialPort) (u : Uart) (scratch : U8 × U8) (c : Settings) :
    PortRestores p u scratch c ↔
      (Present scratch →
        c.baudRate ≠ 0 ∧ (c.Valid ∨ u.lcr = 0x80 ∧ u.divisor = divisorOf c.baudRate)) := by
  by_cases hpresent : Present scratch
  swap
  · obtain ⟨v, hinit⟩ := initPort_of_absent (p := p) (u := u) (c := c) hpresent
    exact iff_of_true ⟨0, p, _, hinit, fun _ => ⟨rfl, rfl⟩⟩ fun h => absurd h hpresent
  rw [forall_prop_of_true hpresent]
  unfold PortRestores
  by_cases hbaud : c.baudRate = 0
  · rw [initPort_of_zero hpresent hbaud]
    refine iff_of_false ?_ fun h => h.1 hbaud
    rintro ⟨r, p', u', hnone, -⟩
    cases hnone
  rw [and_iff_right hbaud]
  by_cases hvalid : c.Valid
  · obtain ⟨u', hinit⟩ := initPort_of_valid (p := p) (u := u) hpresent hbaud hvalid
    exact iff_of_true ⟨1, _, u', hinit, fun h => absurd h (by decide)⟩ (.inl hvalid)
  · -- the call fails after it has written the divisor
    rw [or_iff_right hvalid, initPort_of_not_valid hpresent hbaud hvalid]
    have hregs : (writeDivisor { u with scratch := 0x5C } (divisorOf c.baudRate)).toRegs = u.toRegs ↔
        u.lcr = 0x80 ∧ u.divisor = divisorOf c.baudRate := toRegs_writeDivisor_eq_iff
    constructor
    · rintro ⟨r, p', u', hsome, hsame⟩
      cases hsome
      exact hregs.mp (hsame rfl).2
    · exact fun h => ⟨0, p, _, rfl, fun _ => ⟨rfl, hregs.mpr h⟩⟩

theorem restores_iff_port {b : Board} {port : U8} (hport : port.toNat < 4) (scratch : U8 × U8)
    (c : Settings) :
    Restores b port scratch c ↔
      PortRestores (b ⟨port.toNat, hport⟩).1 (b ⟨port.toNat, hport⟩).2 scratch c := by
  have hinit : initBoard b port scratch c =
      (initPort (b ⟨port.toNat, hport⟩).1 (b ⟨port.toNat, hport⟩).2 scratch c).map fun r =>
        (r.1, Function.update b ⟨port.toNat, hport⟩ (r.2.1, r.2.2)) := dif_pos hport
  unfold Restores PortRestores
  rw [hinit]
  generalize (⟨port.toNat, hport⟩ : Fin 4) = i
  constructor
  · rintro ⟨r, b', hsome, hsame⟩
    obtain ⟨⟨r', p', u'⟩, hport, heq⟩ := Option.map_eq_some_iff.mp hsome
    cases heq
    refine ⟨_, p', u', hport, fun hr => ?_⟩
    have hi := hsame hr i
    rwa [Function.update_self] at hi
  · rintro ⟨r, p', u', hport, hsame⟩
    refine ⟨r, _, Option.map_eq_some_iff.mpr ⟨_, hport, rfl⟩, fun hr j => ?_⟩
    by_cases hj : j = i
    · rw [hj, Function.update_self]
      exact hsame hr
    · rw [Function.update_of_ne hj]
      exact ⟨rfl, rfl⟩

/-- **Exactness.** The port is not there, or the baud rate is not zero and the settings are valid; or else
the registers already held DLAB alone and the divisor of this baud rate. -/
theorem restores_iff (b : Board) (port : U8) (scratch : U8 × U8) (c : Settings) :
    Restores b port scratch c ↔
      ∀ h : port.toNat < 4, Present scratch →
        c.baudRate ≠ 0 ∧ (c.Valid ∨ (b ⟨port.toNat, h⟩).2.lcr = 0x80 ∧
          (b ⟨port.toNat, h⟩).2.divisor = divisorOf c.baudRate) := by
  by_cases hport : port.toNat < 4
  · rw [restores_iff_port hport, portRestores_iff]
    exact ⟨fun h _ => h, fun h => h hport⟩
  · have hinit : initBoard b port scratch c = some (0, b) := dif_neg hport
    exact iff_of_true ⟨0, b, hinit, fun _ _ => ⟨rfl, rfl⟩⟩ fun h => absurd h hport

/-- A port at 115200 baud, 8 data bits, no parity and 1 stop bit, with its interrupts on. -/
def running : SerialPort × Uart where
  fst :=
    { initialized := true
      rx := { buffer := fun _ => 0, head := 0, tail := 0 }
      txHead := 0
      txTail := 0
      settings := { baudRate := 115200, dataBits := 8, stopBits := 1, parity := 0 } }
  snd :=
    { divisorLo := 1
      divisorHi := 0
      ier := 0x05
      fcr := 0xC7
      lcr := 0x03
      mcr := 0x0B
      scratch := 0x5C
      sent := [] }

/-- A call for 9 data bits fails with the interrupts off and DLAB set; a call for 0 baud divides by
zero. -/
theorem not_restores_running :
    ¬Restores (fun _ => running) 0 (0xAE, 0x5C)
        { baudRate := 9600, dataBits := 9, stopBits := 1, parity := 0 } ∧
      ¬Restores (fun _ => running) 0 (0xAE, 0x5C)
        { baudRate := 0, dataBits := 8, stopBits := 1, parity := 0 } := by
  have hport : (0 : U8).toNat < 4 := by decide
  rw [restores_iff_port hport, restores_iff_port hport, portRestores_iff, portRestores_iff]
  refine ⟨fun h => ?_, fun h => (h ⟨rfl, rfl⟩).1 rfl⟩
  rcases (h ⟨rfl, rfl⟩).2 with hvalid | hlcr
  · exact absurd hvalid (by decide)
  · exact absurd hlcr.1 (by decide)

end BloodKernel.Serial
