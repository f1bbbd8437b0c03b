import BloodKernel.Drivers.ByteRing
import BloodKernel.Lib.Run

set_option autoImplicit false

/-!
# The PS/2 keyboard

`drivers/ps2_kbd.c`: the interrupt handler reads a scancode of set 1, follows the modifier keys and
puts the character of any other key into the input ring.

* `Keys.step`: the same keyboard over a queue of capacity 255; **`run_keys`**: the driver is one.
* `Watch`: the driver beside the keys that are really held, told apart by their `E0` prefix.
* **`shifted_throughout_iff`**: the driver shifts keys as it should throughout a run exactly when no
  Shift key is released while the other is held, and no prefixed code looks like a Shift key at the
  wrong time.
-/

namespace BloodKernel.Keyboard

open Lib

/-! ## The driver -/

/-- The codes of some characters. -/
def ascii (cs : List Char) : List U8 := cs.map fun c => BitVec.ofNat 8 c.toNat

def scancodeToAscii : List U8 :=
  [0, 0] ++ ascii ['1', '2', '3', '4', '5', '6', '7', '8', '9', '0', '-', '='] ++ [0x08, 0x09] ++
    ascii ['q', 'w', 'e', 'r', 't', 'y', 'u', 'i', 'o', 'p', '[', ']'] ++ [0x0A, 0] ++
    ascii ['a', 's', 'd', 'f', 'g', 'h', 'j', 'k', 'l', ';'] ++ [0x27, 0x60, 0, 0x5C] ++
    ascii ['z', 'x', 'c', 'v', 'b', 'n', 'm', ',', '.', '/'] ++ [0, 0x2A, 0, 0x20]

def scancodeToAsciiShift : List U8 :=
  [0, 0] ++ ascii ['!', '@', '#', '$', '%', '^', '&', '*', '(', ')', '_', '+'] ++ [0x08, 0x09] ++
    ascii ['Q', 'W', 'E', 'R', 'T', 'Y', 'U', 'I', 'O', 'P'] ++ [0x7B, 0x7D, 0x0A, 0] ++
    ascii ['A', 'S', 'D', 'F', 'G', 'H', 'J', 'K', 'L', ':'] ++ [0x22, 0x7E, 0, 0x7C] ++
    ascii ['Z', 'X', 'C', 'V', 'B', 'N', 'M', '<', '>', '?'] ++ [0, 0x2A, 0, 0x20]

def KEY_LSHIFT : U8 := 0x2A

def KEY_RSHIFT : U8 := 0x36

def KEY_LCTRL : U8 := 0x1D

structure Modifiers where
  shiftPressed : Bool
  ctrlPressed : Bool
  altPressed : Bool
  capsLock : Bool

/-- The static variables of the driver. -/
structure State extends Modifiers where
  kbd : ByteRing

/-- The table for the next key. -/
def Modifiers.table (m : Modifiers) : List U8 :=
  if m.shiftPressed then scancodeToAsciiShift else scancodeToAscii

/-- A letter between `lo` and `hi`. -/
def inRange (c : U8) (lo hi : Char) : Bool := lo.toNat ≤ c.toNat && c.toNat ≤ hi.toNat

/-- The character of a key that is not a modifier, or `0`. -/
def Modifiers.translate (m : Modifiers) (scancode : U8) : U8 :=
  if scancode.toNat < scancodeToAscii.length then
    let c := m.table.getD scancode.toNat 0
    let c :=
      if m.capsLock && inRange c 'a' 'z' then c - 0x61 + 0x41
      else if m.capsLock && inRange c 'A' 'Z' then c - 0x41 + 0x61
      else c
    if m.ctrlPressed && inRange c 'a' 'z' then c - 0x61 + 1
    else if m.ctrlPressed && inRange c 'A' 'Z' then c - 0x41 + 1
    else c
  else 0

/-- `ps2_kbd_irq_handler`, on the scancode it reads. -/
def ps2KbdIrqHandler (s : State) (scancode : U8) : State :=
  if scancode &&& 0x80 ≠ 0 then
    let scancode := scancode &&& 0x7F
    if scancode = KEY_LSHIFT ∨ scancode = KEY_RSHIFT then { s with shiftPressed := false }
    else if scancode = KEY_LCTRL then { s with ctrlPressed := false }
    else s
  else if scancode = KEY_LSHIFT ∨ scancode = KEY_RSHIFT then { s with shiftPressed := true }
  else if scancode = KEY_LCTRL then { s with ctrlPressed := true }
  else
    let c := s.translate scancode
    if c ≠ 0 then { s with kbd := s.kbd.put c } else s

def ps2KbdGetc (s : State) : U8 × State := (s.kbd.get.1, { s with kbd := s.kbd.get.2 })

def ps2KbdAvailable (s : State) : Bool := s.kbd.available

def ps2KbdFlush (s : State) : State := { s with kbd := s.kbd.clear }

def ps2KbdGetModifiers (m : Modifiers) : U8 :=
  (if m.shiftPressed then 0x01 else 0) ||| (if m.ctrlPressed then 0x02 else 0) |||
    (if m.altPressed then 0x04 else 0) ||| (if m.capsLock then 0x08 else 0)

inductive Op
  | irq (scancode : U8)
  | getc
  | available
  | flush
  | modifiers

inductive Res
  | done
  | char (c : U8)
  | flag (b : Bool)

def step (s : State) : Op → Res × State
  | .irq scancode => (.done, ps2KbdIrqHandler s scancode)
  | .getc => (.char (ps2KbdGetc s).1, (ps2KbdGetc s).2)
  | .available => (.flag (ps2KbdAvailable s), s)
  | .flush => (.done, ps2KbdFlush s)
  | .modifiers => (.char (ps2KbdGetModifiers s.toModifiers), s)

/-! ## The keyboard as a queue -/

/-- The number of the key that a scancode is about. -/
def code (scancode : U8) : U8 := scancode &&& 0x7F

/-- The scancode is a make code. -/
def isMake (scancode : U8) : Bool := scancode &&& 0x80 = 0

/-- What a scancode does to the modifiers. -/
def Modifiers.press (m : Modifiers) (scancode : U8) : Modifiers :=
  if code scancode = KEY_LSHIFT ∨ code scancode = KEY_RSHIFT then
    { m with shiftPressed := isMake scancode }
  else if code scancode = KEY_LCTRL then { m with ctrlPressed := isMake scancode }
  else m

/-- The character a scancode types, if any. -/
def Modifiers.typed (m : Modifiers) (scancode : U8) : Option U8 :=
  if scancode &&& 0x80 ≠ 0 ∨ scancode = KEY_LSHIFT ∨ scancode = KEY_RSHIFT ∨ scancode = KEY_LCTRL ∨
      m.translate scancode = 0 then none
  else some (m.translate scancode)

/-- A keyboard whose typed characters wait in a list, oldest first. -/
structure Keys extends Modifiers where
  held : List U8

/-- One call on a keyboard that holds up to 255 characters and drops the newest. -/
def Keys.step (q : Keys) : Op → Res × Keys
  | .irq scancode =>
      (.done, { q.press scancode with held := (q.typed scancode).elim q.held (offer 255 q.held) })
  | .getc => (.char (q.held.headD 0), { q with held := q.held.tail })
  | .available => (.flag !q.held.isEmpty, q)
  | .flush => (.done, { q with held := [] })
  | .modifiers => (.char (ps2KbdGetModifiers q.toModifiers), q)

/-- The queue that the ring of the driver represents. -/
def State.keys (s : State) : Keys := { s with held := s.kbd.held }

theorem and_127_of {v : U8} (h : v &&& 0x80 = 0) : v &&& 0x7F = v := by
  revert v
  decide

theorem lctrl_ne : KEY_LCTRL ≠ KEY_LSHIFT ∧ KEY_LCTRL ≠ KEY_RSHIFT := by decide

theorem irq_eq (s : State) (scancode : U8) :
    ps2KbdIrqHandler s scancode =
      { s.press scancode with kbd := (s.typed scancode).elim s.kbd s.kbd.put } := by
  unfold ps2KbdIrqHandler Modifiers.press Modifiers.typed code isMake
  by_cases hup : scancode &&& 128#8 = 0#8
  · -- a key goes down
    have hcode : scancode &&& 127#8 = scancode := and_127_of hup
    by_cases hs : scancode = KEY_LSHIFT ∨ scancode = KEY_RSHIFT
    · have htyped : scancode = KEY_LSHIFT ∨ scancode = KEY_RSHIFT ∨ scancode = KEY_LCTRL ∨
          s.translate scancode = 0#8 := hs.elim .inl fun h => .inr (.inl h)
      simp [hup, hcode, hs, htyped]
    · obtain ⟨hl, hr⟩ := not_or.mp hs
      by_cases hc : scancode = KEY_LCTRL
      · have hctrl : KEY_LCTRL &&& 128#8 = 0#8 := by decide
        have hcode : KEY_LCTRL &&& 127#8 = KEY_LCTRL := by decide
        simp [hc, hctrl, hcode, lctrl_ne]
      · by_cases ht : s.translate scancode = 0#8
        · simp [hup, hcode, hl, hr, hc, ht]
        · simp [hup, hcode, hl, hr, hc, ht]
  · -- a key goes up: no character
    by_cases hs : scancode &&& 127#8 = KEY_LSHIFT ∨ scancode &&& 127#8 = KEY_RSHIFT
    · simp [hup, hs]
    · by_cases hc : scancode &&& 127#8 = KEY_LCTRL
      · simp [hup, hc, lctrl_ne]
      · simp [hup, hs, hc]

theorem held_elim (r : ByteRing) (c : Option U8) :
    (c.elim r r.put).held = c.elim r.held (offer 255 r.held) := by
  cases c with
  | none => rfl
  | some c => exact r.held_put c

/-- **The keyboard buffer is a queue.** -/
theorem step_keys (s : State) (o : Op) :
    s.keys.step o = ((step s o).1, (step s o).2.keys) := by
  cases o with
  | irq scancode =>
      show (Res.done, (⟨s.press scancode, (s.typed scancode).elim s.kbd.held (offer 255 s.kbd.held)⟩ :
        Keys)) = (Res.done, (ps2KbdIrqHandler s scancode).keys)
      rw [irq_eq, ← held_elim]
      rfl
  | getc =>
      obtain ⟨h₁, h₂⟩ := s.kbd.get_eq
      show (Res.char (s.kbd.held.headD 0), _) = (Res.char s.kbd.get.1, _)
      rw [h₁]
      congr 2
      exact h₂.symm
  | available =>
      show (Res.flag !s.kbd.held.isEmpty, _) = (Res.flag s.kbd.available, _)
      rw [s.kbd.available_eq]
      rfl
  | flush =>
      show (Res.done, _) = (Res.done, _)
      congr 2
      exact s.kbd.held_clear.symm
  | modifiers => rfl

theorem run_keys {s t : State} {es : List (Op × Res)} (h : Run (total step) s es t) :
    Run (total Keys.step) s.keys es t.keys := by
  have hsim : ∀ (u : State) (a : Keys) o r u', u.keys = a → total step u o = some (r, u') →
      ∃ a', total Keys.step a (id (o, r)).1 = some ((id (o, r)).2, a') ∧ u'.keys = a' := by
    rintro u - o r u' rfl hu
    refine ⟨u'.keys, ?_, rfl⟩
    rw [total_eq_some] at hu ⊢
    show u.keys.step o = (r, u'.keys)
    rw [step_keys, hu]
  obtain ⟨b, hb, rfl⟩ := h.simulate (fun u a => u.keys = a) id hsim rfl
  rwa [List.map_id] at hb

/-! ## Shifted keys -/

/-- The driver beside the keys held on the keyboard. A key is named by its code and by whether its
codes come after the prefix `E0`. -/
structure Watch where
  driver : State
  prefixed : Bool
  isDown : Bool × U8 → Bool

/-- A key is held from its make code until its break code. -/
def Watch.receive (w : Watch) (scancode : U8) : Watch :=
  if scancode = 0xE0 then { w with prefixed := true }
  else
    { w with
      prefixed := false
      isDown := Function.update w.isDown (w.prefixed, code scancode) (isMake scancode) }

def Watch.step (w : Watch) (o : Op) : Res × Watch :=
  let after := Keyboard.step w.driver o
  match o with
  | .irq scancode => (after.1, { w.receive scancode with driver := after.2 })
  | _ => (after.1, { w with driver := after.2 })

/-- One of the two Shift keys is held. -/
def Watch.shiftDown (w : Watch) : Bool := w.isDown (false, KEY_LSHIFT) || w.isDown (false, KEY_RSHIFT)

/-- The next key is looked up in the table of shifted keys exactly when a Shift key is held. -/
def Watch.Shifts (w : Watch) : Prop := w.driver.table = scancodeToAsciiShift ↔ w.shiftDown = true

/-- The Shift key on the other side. -/
def otherShift (code : U8) : U8 := if code = KEY_LSHIFT then KEY_RSHIFT else KEY_LSHIFT

/-- A Shift key is released only while the other one is up; a prefixed make code with the number of a
Shift key comes only while a Shift key is held, and a prefixed break code only while none is. -/
def Watch.Plain (w : Watch) : Op × Res → Prop
  | (.irq scancode, _) =>
      code scancode = KEY_LSHIFT ∨ code scancode = KEY_RSHIFT →
        if w.prefixed then w.shiftDown = isMake scancode
        else isMake scancode = false → w.isDown (false, otherShift (code scancode)) = false
  | _ => True

/-- The driver after boot, with no key held. -/
def boot : Watch where
  driver :=
    { shiftPressed := false, ctrlPressed := false, altPressed := false, capsLock := false
      kbd := { buffer := fun _ => 0, head := 0, tail := 0 } }
  prefixed := false
  isDown := fun _ => false

theorem shifts_iff (w : Watch) : w.Shifts ↔ w.driver.shiftPressed = w.shiftDown := by
  have hne : scancodeToAscii ≠ scancodeToAsciiShift := fun h => by
    have := congrArg (fun l => l.getD 2 0) h
    revert this
    decide
  unfold Watch.Shifts Modifiers.table
  cases w.driver.shiftPressed <;> cases w.shiftDown <;> simp [hne]

theorem shiftPressed_irq (s : State) (scancode : U8) :
    (ps2KbdIrqHandler s scancode).shiftPressed =
      if code scancode = KEY_LSHIFT ∨ code scancode = KEY_RSHIFT then isMake scancode
      else s.shiftPressed := by
  rw [irq_eq]
  show (s.press scancode).shiftPressed = _
  unfold Modifiers.press
  split_ifs <;> rfl

section Receive

variable {w : Watch} {scancode : U8}

theorem shiftDown_receive_of_not
    (h : ¬(code scancode = KEY_LSHIFT ∨ code scancode = KEY_RSHIFT)) :
    (w.receive scancode).shiftDown = w.shiftDown := by
  obtain ⟨hl, hr⟩ := not_or.mp h
  unfold Watch.receive
  split_ifs
  · rfl
  · simp [Watch.shiftDown, Ne.symm hl, Ne.symm hr]

theorem ne_e0 (h : code scancode = KEY_LSHIFT ∨ code scancode = KEY_RSHIFT) :
    scancode ≠ 0xE0 := by
  rintro rfl
  revert h
  decide

/-- A prefixed code is not one of a Shift key. -/
theorem shiftDown_receive_prefixed (hp : w.prefixed = true) (h : scancode ≠ 0xE0) :
    (w.receive scancode).shiftDown = w.shiftDown := by
  rw [Watch.receive, if_neg h]
  simp [Watch.shiftDown, hp]

theorem shiftDown_receive (hp : w.prefixed = false)
    (h : code scancode = KEY_LSHIFT ∨ code scancode = KEY_RSHIFT) :
    (w.receive scancode).shiftDown =
      (isMake scancode || w.isDown (false, otherShift (code scancode))) := by
  have hne : KEY_LSHIFT ≠ KEY_RSHIFT := by decide
  rw [Watch.receive, if_neg (ne_e0 h)]
  rcases h with h | h
  · simp [Watch.shiftDown, hp, h, otherShift, hne.symm]
  · simp [Watch.shiftDown, hp, h, otherShift, hne, hne.symm, Bool.or_comm]

end Receive

/-- **One scancode.** A driver that follows the Shift keys goes on doing so exactly when the scancode
is a plain one. -/
theorem shifts_irq {w : Watch} (h : w.Shifts) (scancode : U8) (r : Res) :
    (w.step (.irq scancode)).2.Shifts ↔ w.Plain (.irq scancode, r) := by
  have hflag := shiftPressed_irq w.driver scancode
  have hafter : (w.step (.irq scancode)).2.shiftDown = (w.receive scancode).shiftDown := rfl
  rw [shifts_iff] at h ⊢
  rw [hafter]
  show (ps2KbdIrqHandler w.driver scancode).shiftPressed = _ ↔ _
  by_cases hs : code scancode = KEY_LSHIFT ∨ code scancode = KEY_RSHIFT
  · rw [if_pos hs] at hflag
    rw [hflag]
    cases hp : w.prefixed with
    | true =>
        rw [shiftDown_receive_prefixed hp (ne_e0 hs)]
        simp only [Watch.Plain, hp, if_true]
        exact ⟨fun h _ => h.symm, fun h => (h hs).symm⟩
    | false =>
        rw [shiftDown_receive hp hs]
        simp only [Watch.Plain, hp]
        cases isMake scancode <;> simp [hs]
  · rw [if_neg hs] at hflag
    rw [hflag, shiftDown_receive_of_not hs]
    exact iff_of_true h fun h' => absurd h' hs

/-- **Exactness.** The driver shifts keys as the held Shift keys ask for throughout a run exactly when
all its scancodes are plain ones. -/
theorem shifted_throughout_iff {t : Watch} {es : List (Op × Res)}
    (h : Run (total Watch.step) boot es t) :
    Throughout (total Watch.step) Watch.Shifts boot es ↔
      Along (total Watch.step) Watch.Plain boot es := by
  have hboot : boot.Shifts := (shifts_iff boot).mpr rfl
  have hstep : ∀ w o r w', True → w.Shifts → total Watch.step w o = some (r, w') →
      (w'.Shifts ↔ w.Plain (o, r)) := by
    intro w o r w' _ hw hstep
    have hw' : (w.step o).2 = w' := congrArg Prod.snd (total_eq_some.mp hstep)
    rw [← hw']
    cases o with
    | irq scancode => exact shifts_irq hw scancode r
    | getc => exact iff_of_true hw trivial
    | available => exact iff_of_true hw trivial
    | flush => exact iff_of_true hw trivial
    | modifiers => exact iff_of_true hw trivial
  exact h.throughout_iff_along (I := fun _ => True) (fun _ _ _ _ _ _ => trivial) hstep trivial hboot

/-- Left Shift down, right Shift down, right Shift up. -/
def twoShifts : List (Op × Res) :=
  [(.irq KEY_LSHIFT, .done), (.irq KEY_RSHIFT, .done), (.irq 0xB6, .done)]

/-- The state after `twoShifts`. -/
def afterTwoShifts : Watch :=
  (((boot.step (.irq KEY_LSHIFT)).2.step (.irq KEY_RSHIFT)).2.step (.irq 0xB6)).2

theorem run_twoShifts : Run (total Watch.step) boot twoShifts afterTwoShifts :=
  .cons rfl (.cons rfl (.cons rfl (.nil _)))

/-- Left Shift is still held, and keys are no longer shifted. -/
theorem not_shifts_twoShifts :
    Run (total Watch.step) boot twoShifts afterTwoShifts ∧ ¬afterTwoShifts.Shifts :=
  ⟨run_twoShifts, (shifts_iff _).not.mpr (by decide)⟩

theorem shifted_twoShifts :
    Throughout (total Watch.step) Watch.Shifts boot twoShifts ↔
      Along (total Watch.step) Watch.Plain boot twoShifts :=
  shifted_throughout_iff run_twoShifts

end BloodKernel.Keyboard
