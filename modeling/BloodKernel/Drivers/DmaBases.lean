import BloodKernel.Drivers.PagingPhysical

set_option autoImplicit false

/-!
# Addresses for bus masters

A bus master reads and writes memory at physical addresses. What its driver tells it is here a list of
`Base`s: an address in a buffer of the driver, and the number the device takes for the physical address
of it.

* `Ports`: the values last written to the ports;
* `Programmed.Physical`: the numbers are the physical addresses, and buffers of several pages are contiguous;
* **`not_right`**: the address of a page of the heap is never its physical address.
-/

namespace BloodKernel

open Paging

/-! ### Ports -/

/-- The value last written to each port. -/
abbrev Ports := U16 → U32

def Ports.outl (r : Ports) (port : U16) (val : U32) : Ports := Function.update r port val

def Ports.outw (r : Ports) (port val : U16) : Ports := r.outl port (val.setWidth 32)

def Ports.outb (r : Ports) (port : U16) (val : U8) : Ports := r.outl port (val.setWidth 32)

theorem Ports.outl_add (r : Ports) (base i j : U16) (val : U32) :
    r.outl (base + i) val (base + j) = if j = i then val else r (base + j) := by
  unfold Ports.outl
  rw [Function.update_apply]
  exact if_congr (BitVec.add_right_inj base) rfl rfl

/-! ### Pointers of devices -/

/-- An address in a buffer, and the number given to the device. -/
structure Base where
  buffer : U32
  given : BitVec 64

/-- The number is the physical address. -/
def Base.Right (s : Paging.State) (b : Base) : Prop :=
  b.given = (pagingGetPhysicalAddr s b.buffer).setWidth 64

/-- What a call of a driver has programmed: the page tables after it, the pointers, and the buffers of several
pages with their numbers of pages. -/
structure Programmed where
  paging : Paging.State
  bases : List Base
  buffers : List (U32 × ℕ)

def Programmed.Physical (p : Programmed) : Prop :=
  (∀ b ∈ p.bases, b.Right p.paging) ∧ ∀ r ∈ p.buffers, Contiguous p.paging r.1 r.2

/-- A pointer to a page of the heap, programmed as the address of this page: bit 31 of the number is set. -/
structure Base.Virtual (s : Paging.State) (b : Base) : Prop where
  remote : Remote s b.buffer
  high : b.given.getLsbD 31 = true

variable {s s' : Paging.State} {b : Base} {v : U32}

theorem getLsbD_remote (h : Remote s v) : v.getLsbD 31 = true := by
  have hge := h.high
  have hlt := v.isLt
  rw [BitVec.getLsbD, Nat.testBit_eq_decide_div_mod_eq, decide_eq_true_iff]
  omega

/-- **Never.** The physical address of a page of the heap is below 2 GB, its own address is not. -/
theorem Base.Virtual.not_right (h : b.Virtual s) : ¬ b.Right s := by
  intro hright
  have hbit := congrArg (fun w => BitVec.getLsbD w 31) hright
  have hlow := h.remote.low.get_lt
  simp only [h.high, BitVec.getLsbD_setWidth] at hbit
  rw [BitVec.getLsbD, Nat.testBit_lt_two_pow hlow] at hbit
  exact absurd hbit (by decide)

/-- This depends on the entry of the page only. -/
theorem Base.Virtual.of_entry (h : b.Virtual s) (he : entryOf s' b.buffer = entryOf s b.buffer) :
    b.Virtual s' := ⟨⟨h.remote.high, h.remote.low.of_entry he⟩, h.high⟩

theorem Base.Virtual.grown (h : b.Virtual s) (hs : Grown s s') : b.Virtual s' :=
  ⟨h.remote.grown hs, h.high⟩

theorem Base.Virtual.self (h : Remote s v) : (⟨v, v.setWidth 64⟩ : Base).Virtual s := by
  refine ⟨h, ?_⟩
  rw [BitVec.getLsbD_setWidth, getLsbD_remote h]
  rfl

theorem Programmed.not_physical {p : Programmed} (hbases : p.bases ≠ [])
    (h : ∀ b ∈ p.bases, b.Virtual p.paging) : ¬ p.Physical := fun hall => by
  obtain ⟨b, hb⟩ := List.exists_mem_of_ne_nil _ hbases
  exact (h b hb).not_right (hall.1 b hb)

end BloodKernel
