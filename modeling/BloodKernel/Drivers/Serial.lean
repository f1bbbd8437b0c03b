import BloodKernel.Drivers.Keyboard

set_option autoImplicit false

/-!
# The serial ports

`drivers/serial.c`: four 16550 ports, each with a receive ring that the interrupt handler fills with
the bytes waiting in the UART and `serial_getc` drains. What a call reads from the UART is part of the
call: the two bytes of the scratch test, the interrupt identification, and the line status and data
bytes of the receive loop.

* `Line.step`: one port on its own, over a queue of capacity 255.
* `step_line`: a call on a port is a call on its line and leaves the other lines alone.
* **`rings_are_queues`**: the calls on a port are calls on its queue, whatever happens on the others
  in between; the same for the keyboard.
-/

namespace BloodKernel.Serial

open Lib

/-! ## The driver -/

structure Port where
  initialized : Bool
  rx : ByteRing

/-- `serial_ports`. -/
abbrev State := Fin 4 → Port

/-- The settings of `serial_init`. -/
structure Settings where
  baudRate : U32
  dataBits : U8
  stopBits : U8
  parity : U8

/-- The guard of all calls but `serial_init`: the port, if it is there and initialized. -/
def ready (s : State) (port : U8) : Option (Fin 4) :=
  if h : port.toNat < 4 then
    if (s ⟨port.toNat, h⟩).initialized then some ⟨port.toNat, h⟩ else none
  else none

/-- Does `serial_init` accept its settings and the two bytes of the scratch test? `none`: it divides
by a baud rate of zero. -/
def accepts (scratch : U8 × U8) (c : Settings) : Option Bool :=
  if scratch.1 ≠ 0xAE then some false
  else if scratch.2 ≠ 0x5C then some false
  else if c.baudRate = 0 then none
  else if c.dataBits ≠ 5 ∧ c.dataBits ≠ 6 ∧ c.dataBits ≠ 7 ∧ c.dataBits ≠ 8 then some false
  else if c.parity ≠ 0 ∧ c.parity ≠ 1 ∧ c.parity ≠ 2 then some false
  else some true

def serialInit (s : State) (port : U8) (scratch : U8 × U8) (c : Settings) : Option (U8 × State) :=
  if h : port.toNat < 4 then
    let p : Fin 4 := ⟨port.toNat, h⟩
    (accepts scratch c).map fun ok =>
      if ok then (1, Function.update s p { initialized := true, rx := (s p).rx.clear }) else (0, s)
  else some (0, s)

def serialGetc (s : State) (port : U8) : U8 × State :=
  match ready s port with
  | none => (0, s)
  | some p => ((s p).rx.get.1, Function.update s p { s p with rx := (s p).rx.get.2 })

def serialAvailable (s : State) (port : U8) : U8 :=
  match ready s port with
  | none => 0
  | some p => if (s p).rx.available then 1 else 0

/-- `LSR_DATA_READY` in the line status. -/
def dataReady (lsr : U8) : Bool := lsr &&& 0x01 != 0

/-- The receive loop: while the line status says that data is ready, read a byte and put it into the
ring. `reads` are the line status bytes and the data bytes that go with them; after them the line
status says that no data is ready. -/
def drain (r : ByteRing) : List (U8 × U8) → ByteRing
  | [] => r
  | (lsr, c) :: reads => if dataReady lsr then drain (r.put c) reads else r

/-- The interrupt is pending, and it is for received data or for a character timeout. -/
def receives (iir : U8) : Bool :=
  iir &&& 0x01 = 0 && ((iir >>> 1) &&& 0x07 = 0x02 || (iir >>> 1) &&& 0x07 = 0x06)

def serialIrqHandler (s : State) (port : U8) (iir : U8) (reads : List (U8 × U8)) : State :=
  match ready s port with
  | none => s
  | some p => if receives iir then Function.update s p { s p with rx := drain (s p).rx reads } else s

/-- The calls on one port, with what they read from the UART. -/
inductive Call
  | init (scratch : U8 × U8) (c : Settings)
  | irq (iir : U8) (reads : List (U8 × U8))
  | getc
  | available

inductive Res
  | done
  | value (v : U8)

/-- One call on the driver: the port and the call. -/
def step (s : State) : U8 × Call → Option (Res × State)
  | (port, .init scratch c) => (serialInit s port scratch c).map fun r => (.value r.1, r.2)
  | (port, .irq iir reads) => some (.done, serialIrqHandler s port iir reads)
  | (port, .getc) => some (.value (serialGetc s port).1, (serialGetc s port).2)
  | (port, .available) => some (.value (serialAvailable s port), s)

/-! ## The ports as queues -/

/-- A port on its own: nothing before it is initialized, then the received bytes, oldest first. -/
abbrev Line := Option (List U8)

/-- The data bytes of a receive loop. -/
def received (reads : List (U8 × U8)) : List U8 :=
  (reads.takeWhile fun e => dataReady e.1).map Prod.snd

/-- What the bytes of one interrupt do to a line. -/
def arrive (iir : U8) (reads : List (U8 × U8)) (held : List U8) : List U8 :=
  if receives iir then (received reads).foldl (offer 255) held else held

/-- One call on a line that holds up to 255 bytes and drops the newest. -/
def Line.step (q : Line) : Call → Option (Res × Line)
  | .init scratch c =>
      (accepts scratch c).map fun ok => if ok then (.value 1, some []) else (.value 0, q)
  | .irq iir reads => some (.done, q.map (arrive iir reads))
  | .getc => some (.value ((q.getD []).headD 0), q.map List.tail)
  | .available => some (.value (if (q.getD []).isEmpty then 0 else 1), q)

/-- The queue that a port represents. -/
def line (s : State) (p : Fin 4) : Line := if (s p).initialized then some (s p).rx.held else none

/-- The event of a call on port `p`, as an event of its line. -/
def onPort (p : Fin 4) (e : (U8 × Call) × Res) : Option (Call × Res) :=
  if e.1.1.toNat = p then some (e.1.2, e.2) else none

theorem held_drain (r : ByteRing) (reads : List (U8 × U8)) :
    (drain r reads).held = (received reads).foldl (offer 255) r.held := by
  induction reads generalizing r with
  | nil => rfl
  | cons e reads ih =>
      obtain ⟨lsr, c⟩ := e
      cases h : dataReady lsr with
      | true => simp [drain, received, h, ih, r.held_put]
      | false => simp [drain, received, h]

/-- What one interrupt does to the ring of its port. -/
def receive (iir : U8) (reads : List (U8 × U8)) (r : ByteRing) : ByteRing :=
  if receives iir then drain r reads else r

theorem held_receive (iir : U8) (reads : List (U8 × U8)) (r : ByteRing) :
    (receive iir reads r).held = arrive iir reads r.held := by
  unfold receive arrive
  split_ifs
  · exact held_drain r reads
  · rfl

theorem line_update_self (s : State) (p : Fin 4) (q : Port) :
    line (Function.update s p q) p = if q.initialized then some q.rx.held else none := by
  rw [line, Function.update_self]

theorem line_update_of_ne (s : State) {p p' : Fin 4} (h : p' ≠ p) (q : Port) :
    line (Function.update s p q) p' = line s p' := by
  rw [line, Function.update_of_ne h, line]

/-- What the guard finds: the port is one of the four and its line is open, or there is no open
line of that number. -/
theorem ready_cases (s : State) (port : U8) :
    (∃ p : Fin 4, ready s port = some p ∧ port.toNat = p ∧ (s p).initialized = true) ∨
      (ready s port = none ∧ ∀ p : Fin 4, port.toNat = p → (s p).initialized = false) := by
  unfold ready
  by_cases h : port.toNat < 4
  · rw [dif_pos h]
    cases hi : (s ⟨port.toNat, h⟩).initialized with
    | true => exact .inl ⟨⟨port.toNat, h⟩, if_pos rfl, rfl, hi⟩
    | false =>
        refine .inr ⟨if_neg (by decide), fun p hp => ?_⟩
        rw [← hi]
        exact congrArg (fun q => (s q).initialized) (Fin.ext hp.symm)
  · rw [dif_neg h]
    exact .inr ⟨rfl, fun p hp => absurd (hp ▸ p.isLt) h⟩

/-- Change the ring of an open port. -/
def onRing (s : State) (port : U8) (f : ByteRing → ByteRing) : State :=
  match ready s port with
  | none => s
  | some p => Function.update s p { s p with rx := f (s p).rx }

/-- A change of a ring is a change of its line, if the line is open, and of no other line. -/
theorem line_onRing (s : State) (port : U8) {f : ByteRing → ByteRing} {g : List U8 → List U8}
    (hfg : ∀ r, (f r).held = g r.held) (p : Fin 4) :
    line (onRing s port f) p = if port.toNat = p then (line s p).map g else line s p := by
  unfold onRing
  rcases ready_cases s port with ⟨p₀, hready, hport, hinit⟩ | ⟨hready, hclosed⟩
  · rw [hready]
    by_cases hp : port.toNat = p
    · obtain rfl : p = p₀ := Fin.ext (hp.symm.trans hport)
      rw [if_pos hp]
      show line (Function.update s p _) p = _
      rw [line_update_self, line, if_pos hinit, if_pos hinit, hfg]
      rfl
    · rw [if_neg hp]
      exact line_update_of_ne s (fun he => hp (by rw [he, hport])) _
  · rw [hready]
    show line s p = _
    by_cases hp : port.toNat = p
    · have hnone : line s p = none := if_neg (by rw [hclosed p hp]; decide)
      rw [if_pos hp, hnone]
      rfl
    · rw [if_neg hp]

theorem ready_line (s : State) {port : U8} {p : Fin 4} (hp : port.toNat = p) :
    (ready s port).elim [] (fun p => (s p).rx.held) = (line s p).getD [] := by
  rcases ready_cases s port with ⟨p₀, hready, hport, hinit⟩ | ⟨hready, hclosed⟩
  · obtain rfl : p = p₀ := Fin.ext (hp.symm.trans hport)
    rw [hready, line, if_pos hinit]
    rfl
  · rw [hready, line, hclosed p hp]
    rfl

theorem irq_eq (s : State) (port iir : U8) (reads : List (U8 × U8)) :
    serialIrqHandler s port iir reads = onRing s port (receive iir reads) := by
  unfold serialIrqHandler onRing receive
  cases ready s port with
  | none => rfl
  | some p =>
      cases receives iir with
      | true => rfl
      | false => exact (Function.update_eq_self p s).symm

theorem getc_eq (s : State) (port : U8) :
    serialGetc s port = (((ready s port).elim [] fun p => (s p).rx.held).headD 0,
      onRing s port fun r => r.get.2) := by
  unfold serialGetc onRing
  cases ready s port with
  | none => rfl
  | some p =>
      show ((s p).rx.get.1, _) = ((s p).rx.held.headD 0, _)
      rw [(s p).rx.get_eq.1]

theorem available_eq (s : State) (port : U8) :
    serialAvailable s port =
      if ((ready s port).elim [] fun p => (s p).rx.held).isEmpty then 0 else 1 := by
  unfold serialAvailable
  cases ready s port with
  | none => rfl
  | some p =>
      show (if (s p).rx.available = true then (1 : U8) else 0) = _
      rw [(s p).rx.available_eq]
      cases h : (s p).rx.held.isEmpty <;> simp [h]

/-- `serial_init` opens its line when it accepts the settings, and touches no other. -/
theorem step_init {s s' : State} {port : U8} {scratch : U8 × U8} {c : Settings} {r : Res}
    (h : step s (port, .init scratch c) = some (r, s')) (p : Fin 4) :
    if port.toNat = p then Line.step (line s p) (.init scratch c) = some (r, line s' p)
    else line s' p = line s p := by
  unfold step serialInit at h
  by_cases hp : port.toNat = p
  · obtain ⟨n, hn⟩ := p
    obtain rfl : port.toNat = n := hp
    rw [if_pos rfl, Line.step]
    simp only [dif_pos hn, Option.map_map] at h
    cases ha : accepts scratch c with
    | none => simp [ha] at h
    | some ok =>
        rw [ha] at h
        cases ok with
        | true =>
            cases h
            show some (Res.value 1, some []) = some (Res.value 1, line (Function.update s _ _) _)
            rw [line_update_self, ByteRing.held_clear]
            rfl
        | false =>
            cases h
            rfl
  · rw [if_neg hp]
    by_cases hlt : port.toNat < 4
    · simp only [dif_pos hlt, Option.map_map] at h
      cases ha : accepts scratch c with
      | none => simp [ha] at h
      | some ok =>
          rw [ha] at h
          cases ok with
          | true =>
              cases h
              exact line_update_of_ne s (fun he => hp (congrArg Fin.val he).symm) _
          | false =>
              cases h
              rfl
    · simp only [dif_neg hlt] at h
      cases h
      rfl

/-- **One call.** A call on a port is a call on its line, and leaves the other lines alone. -/
theorem step_line {s s' : State} {port : U8} {call : Call} {r : Res}
    (h : step s (port, call) = some (r, s')) (p : Fin 4) :
    if port.toNat = p then Line.step (line s p) call = some (r, line s' p)
    else line s' p = line s p := by
  cases call with
  | init scratch c => exact step_init h p
  | irq iir reads =>
      cases h
      have hline := line_onRing s port (held_receive iir reads) p
      rw [irq_eq, hline]
      by_cases hp : port.toNat = p
      · rw [if_pos hp, if_pos hp]
        rfl
      · rw [if_neg hp, if_neg hp]
  | getc =>
      cases h
      have hline := line_onRing s port (f := fun r => r.get.2) (fun r => r.get_eq.2) p
      rw [getc_eq, hline]
      by_cases hp : port.toNat = p
      · rw [if_pos hp, if_pos hp, ready_line s hp]
        rfl
      · rw [if_neg hp, if_neg hp]
  | available =>
      cases h
      by_cases hp : port.toNat = p
      · rw [if_pos hp, available_eq, ready_line s hp]
        rfl
      · rw [if_neg hp]

/-- **The receive ring of a port is a queue.** -/
theorem run_line {s t : State} {es : List ((U8 × Call) × Res)} (h : Run step s es t) (p : Fin 4) :
    Run Line.step (line s p) (es.filterMap (onPort p)) (line t p) := by
  refine h.project (fun s => line s p) (onPort p) ?_ ?_
  · rintro s ⟨port, call⟩ r s' hstep hf
    have hp : ¬port.toNat = p := fun hp => by simp [onPort, hp] at hf
    have hline := step_line hstep p
    rwa [if_neg hp] at hline
  · rintro s ⟨port, call⟩ r s' call' r' hstep hf
    by_cases hp : port.toNat = p
    · have hline := step_line hstep p
      rw [if_pos hp] at hline
      rw [onPort, if_pos hp] at hf
      cases hf
      exact hline
    · simp [onPort, hp] at hf

/-- **Input rings are queues.** Whatever the order of the calls, the keyboard is a queue of capacity
255 that drops the newest character, and so is each serial port on its own; all indices stay below
256. -/
theorem rings_are_queues :
    (∀ (s t : Keyboard.State) (es : List (Keyboard.Op × Keyboard.Res)),
      Run (total Keyboard.step) s es t →
        Run (total Keyboard.Keys.step) s.keys es t.keys ∧ t.keys.held.length ≤ 255 ∧
          t.kbd.head.toNat < 256 ∧ t.kbd.tail.toNat < 256) ∧
    ∀ (s t : State) (es : List ((U8 × Call) × Res)), Run step s es t → ∀ p : Fin 4,
      Run Line.step (line s p) (es.filterMap (onPort p)) (line t p) ∧
        (∀ held ∈ line t p, held.length ≤ 255) ∧
          (t p).rx.head.toNat < 256 ∧ (t p).rx.tail.toNat < 256 := by
  constructor
  · intro s t es h
    exact ⟨Keyboard.run_keys h, t.kbd.length_held_le, t.kbd.head.isLt, t.kbd.tail.isLt⟩
  · intro s t es h p
    refine ⟨run_line h p, fun held hh => ?_, (t p).rx.head.isLt, (t p).rx.tail.isLt⟩
    unfold line at hh
    split_ifs at hh
    · cases hh
      exact (t p).rx.length_held_le
    · cases hh

/-- The ports at boot. -/
def closed : State :=
  fun _ => { initialized := false, rx := { buffer := fun _ => 0, head := 0, tail := 0 } }

/-- Port 0 is opened and receives two bytes in one interrupt; port 1 is closed. -/
def session : List ((U8 × Call) × Res) :=
  [((0, .init (0xAE, 0x5C) { baudRate := 9600, dataBits := 8, stopBits := 1, parity := 0 }), .value 1),
    ((0, .irq 0x04 [(0x61, 0x4F), (0x61, 0x4B), (0x60, 0)]), .done), ((1, .getc), .value 0),
    ((0, .getc), .value 0x4F)]

theorem exists_run_session : ∃ t, Run step closed session t :=
  ⟨_, .cons rfl (.cons rfl (.cons rfl (.cons rfl (.nil _))))⟩

theorem rings_are_queues_session :
    ∃ t, Run step closed session t ∧
      Run Line.step (line closed 0) (session.filterMap (onPort 0)) (line t 0) := by
  obtain ⟨t, h⟩ := exists_run_session
  exact ⟨t, h, (rings_are_queues.2 closed t session h 0).1⟩

end BloodKernel.Serial
