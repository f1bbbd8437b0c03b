import BloodKernel.Kernel.Types
import BloodKernel.Lib.Gap

set_option autoImplicit false

/-!
# Input rings

`ps2_kbd.c` and `serial.c` keep received bytes in a ring of 256 cells with `u8` indices: the three
variables `kbd_buffer`, `kbd_head`, `kbd_tail`, and `rx_buffer`, `rx_head`, `rx_tail` of each port. One
cell stays free; a byte that finds the ring full is dropped.

* `put`, `get`, `available`, `clear`: what both drivers do with their ring.
* **`held_put`**, **`get_eq`**: on the held bytes, a queue of capacity 255.
-/

namespace BloodKernel

open Lib

structure ByteRing where
  buffer : Fin 256 → U8
  head : U8
  tail : U8

namespace ByteRing

/-- `(i + 1) % 256`. -/
def next (i : U8) : U8 := BitVec.ofNat 8 ((i.toNat + 1) % 256)

/-- `kbd_buffer_put`, and the body of the loop of `serial_irq_handler`. -/
def put (r : ByteRing) (c : U8) : ByteRing :=
  if next r.head ≠ r.tail then
    { r with buffer := Function.update r.buffer r.head.toFin c, head := next r.head }
  else r

/-- The byte under the read index, or `0` from an empty ring. -/
def get (r : ByteRing) : U8 × ByteRing :=
  if r.head = r.tail then (0, r) else (r.buffer r.tail.toFin, { r with tail := next r.tail })

def available (r : ByteRing) : Bool := r.head != r.tail

def clear (r : ByteRing) : ByteRing := { r with head := 0, tail := 0 }

/-- The ring with its indices as cells. -/
def toGap (r : ByteRing) : GapRing 256 U8 := ⟨r.buffer, r.head.toFin, r.tail.toFin⟩

/-- The held bytes, oldest first. -/
def held (r : ByteRing) : List U8 := r.toGap.toList

theorem toFin_next (i : U8) : (next i).toFin = GapRing.next i.toFin := by
  apply Fin.ext
  show (BitVec.ofNat 8 ((i.toNat + 1) % 256)).toNat = (i.toNat + 1) % 256
  rw [BitVec.toNat_ofNat, Nat.mod_mod]

theorem toFin_eq {i j : U8} : i.toFin = j.toFin ↔ i = j := BitVec.toFin_inj

theorem toGap_put (r : ByteRing) (c : U8) : (r.put c).toGap = r.toGap.put c := by
  have hiff : GapRing.next r.toGap.head = r.toGap.tail ↔ next r.head = r.tail := by
    rw [← toFin_eq, toFin_next]
    exact Iff.rfl
  unfold put GapRing.put
  by_cases h : next r.head = r.tail
  · rw [if_neg (not_not.mpr h), if_pos (hiff.mpr h)]
  · rw [if_pos h, if_neg (hiff.not.mpr h), toGap, toFin_next]
    rfl

/-- **A received byte** is appended, or dropped when 255 bytes are held. -/
theorem held_put (r : ByteRing) (c : U8) : (r.put c).held = offer 255 r.held c := by
  rw [held, toGap_put]
  exact GapRing.toList_put r.toGap c

theorem held_eq_nil {r : ByteRing} : r.held = [] ↔ r.head = r.tail := by
  rw [← toFin_eq]
  exact GapRing.toList_eq_nil

/-- **A read** takes the oldest byte. -/
theorem get_eq (r : ByteRing) : r.get.1 = r.held.headD 0 ∧ r.get.2.held = r.held.tail := by
  unfold get
  by_cases h : r.head = r.tail
  · have hnil : r.held = [] := held_eq_nil.mpr h
    rw [if_pos h, hnil]
    exact ⟨rfl, rfl⟩
  · have hdrop : ({ r with tail := next r.tail } : ByteRing).toGap = r.toGap.drop := by
      rw [toGap, toFin_next]
      rfl
    have hcons : r.held = r.buffer r.tail.toFin :: r.toGap.drop.toList :=
      GapRing.toList_drop (toFin_eq.not.mpr h)
    rw [if_neg h, hcons]
    exact ⟨rfl, congrArg GapRing.toList hdrop⟩

theorem available_eq (r : ByteRing) : r.available = !r.held.isEmpty := by
  have h : r.available = false ↔ r.held.isEmpty = true := by
    rw [List.isEmpty_iff, held_eq_nil, available, bne_eq_false_iff_eq]
  cases hb : r.held.isEmpty with
  | true => exact h.mpr hb
  | false => exact Bool.eq_true_of_not_eq_false (h.not.mpr (by rw [hb]; decide))

theorem held_clear (r : ByteRing) : r.clear.held = [] := held_eq_nil.mpr rfl

theorem length_held_le (r : ByteRing) : r.held.length ≤ 255 := by
  have := r.toGap.count_lt
  rw [held, GapRing.length_toList]
  omega

end ByteRing

end BloodKernel
