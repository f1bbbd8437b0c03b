import BloodKernel.Drivers.DmaBases

set_option autoImplicit false

/-!
# Initializing the RTL8139

`rtl8139_init` of `drivers/rtl8139.c`. The waits for the controller are left out, but for the value they
end with.

* `Card`: the device structure and the ports; `rtl8139Init`: the call;
* **`init_virtual`**: it gives the controller the addresses of its buffers as they are;
* **`ring_contiguous_iff`**: when the two pages of the receive buffer are contiguous.
-/

namespace BloodKernel.Rtl8139

open Paging

/-- `rtl8139_device_t`. -/
structure Device where
  ioBase : U16
  irq : U8
  macAddr : ℕ → U8
  rxBuffer : U32
  txBuffers : ℕ → U32
  rxOffset : U16
  txCurrent : U8
  initialized : Bool

/-- The device structure and the ports. -/
structure Card where
  ports : Ports
  dev : Device

def Card.boot : Card := ⟨fun _ => 0, ⟨0, 0, fun _ => 0, 0, fun _ => 0, 0, 0, false⟩⟩

/-- What the controller answers: the command register after the reset, and the MAC address. -/
structure Chip where
  cr : U8
  idr : ℕ → U8

/-- `RTL8139_RBSTART` -/
def rbstart : U16 := 0x30

/-- `RTL8139_TSAD0` to `RTL8139_TSAD3` -/
def tsad (i : ℕ) : U16 := BitVec.ofNat 16 (0x20 + 4 * i)

def Card.reset (c : Card) (ioBase : U16) (irq : U8) : Card where
  ports := (c.ports.outb (ioBase + 0x52) 0x00).outb (ioBase + 0x37) 0x10
  dev := { c.dev with ioBase := ioBase, irq := irq }

/-- The MAC address and the receive buffer. -/
def Card.setRx (c : Card) (chip : Chip) (rx : U32) : Card :=
  let mac := fun i => if i < 6 then chip.idr i else c.dev.macAddr i
  { c with dev := { c.dev with macAddr := mac, rxBuffer := rx } }

def Card.setTx (c : Card) (i : ℕ) (tx : U32) : Card :=
  { c with dev := { c.dev with txBuffers := Function.update c.dev.txBuffers i tx } }

/-- Allocate the first `n` transmit buffers. -/
def allocTxBuffers (s : Paging.State) (c : Card) : ℕ → Bool × Card × Paging.State
  | 0 => (true, c, s)
  | n + 1 =>
      let r := allocTxBuffers s c n
      if r.1 = false then r
      else
        let a := pagingAllocPages r.2.2 1
        (a.1 ≠ 0, r.2.1.setTx n a.1, a.2)

/-- The registers, with the buffers of the device structure. -/
def Card.program (c : Card) : Ports :=
  let io := c.dev.ioBase
  let p := c.ports.outl (io + rbstart) c.dev.rxBuffer
  let p := p.outl (io + tsad 0) (c.dev.txBuffers 0)
  let p := p.outl (io + tsad 1) (c.dev.txBuffers 1)
  let p := p.outl (io + tsad 2) (c.dev.txBuffers 2)
  let p := p.outl (io + tsad 3) (c.dev.txBuffers 3)
  -- the interrupts ROK, TOK, RER, TER and RXOVW
  let p := p.outw (io + 0x3C) (0x0001 ||| 0x0004 ||| 0x0002 ||| 0x0008 ||| 0x0010)
  -- accept AB, AM and APM, wrap, and the length of the buffer
  let p := p.outl (io + 0x44) (0x08 ||| 0x04 ||| 0x02 ||| 0x80 ||| (0x06 <<< 13))
  let p := p.outl (io + 0x40) (0x00700000 ||| 0x03000000)
  p.outb (io + 0x37) (0x08 ||| 0x04)

/-- The registers and the state of the rings. -/
def Card.enable (c : Card) : Card where
  ports := c.program
  dev := { c.dev with rxOffset := 0, txCurrent := 0, initialized := true }

def rtl8139Init (s : Paging.State) (c : Card) (chip : Chip) (ioBase : U16) (irq : U8) :
    Bool × Card × Paging.State :=
  let c := c.reset ioBase irq
  if chip.cr &&& 0x10 ≠ 0 then (false, c, s)
  else
    let a := pagingAllocPages s 2
    let c := c.setRx chip a.1
    if a.1 = 0 then (false, c, a.2)
    else
      let r := allocTxBuffers a.2 c 4
      if r.1 = false then r else (true, r.2.1.enable, r.2.2)

/-- The addresses given to the controller. -/
def Card.bases (c : Card) : List Base :=
  ⟨c.dev.rxBuffer, (c.ports (c.dev.ioBase + rbstart)).setWidth 64⟩ ::
    (List.range 4).map fun i => ⟨c.dev.txBuffers i, (c.ports (c.dev.ioBase + tsad i)).setWidth 64⟩

/-- What is programmed. The receive buffer has two pages. -/
def Card.programmed (c : Card) (s : Paging.State) : Programmed := ⟨s, c.bases, [(c.dev.rxBuffer, 2)]⟩

variable {s s' : Paging.State} {c c' : Card} {chip : Chip} {ioBase : U16} {irq : U8} {n : ℕ}

/-! ### The registers -/

theorem program_rbstart (c : Card) : c.program (c.dev.ioBase + rbstart) = c.dev.rxBuffer := by
  simp [Card.program, Ports.outw, Ports.outb, Ports.outl_add, rbstart, tsad]

theorem program_tsad (c : Card) {i : ℕ} (hi : i < 4) :
    c.program (c.dev.ioBase + tsad i) = c.dev.txBuffers i := by
  rcases (by omega : i = 0 ∨ i = 1 ∨ i = 2 ∨ i = 3) with rfl | rfl | rfl | rfl <;>
    simp [Card.program, Ports.outw, Ports.outb, Ports.outl_add, tsad]

/-! ### The buffers -/

/-- `n` transmit buffers have been allocated. -/
structure Allocated (s : Paging.State) (c : Card) (n : ℕ) (c' : Card) (s' : Paging.State) : Prop where
  grown : Grown s s'
  tx : ∀ i < n, Remote s' (c'.dev.txBuffers i)
  rx : c'.dev.rxBuffer = c.dev.rxBuffer

theorem allocTxBuffers_spec (h : Wf s) (hok : (allocTxBuffers s c n).1 = true) :
    Allocated s c n (allocTxBuffers s c n).2.1 (allocTxBuffers s c n).2.2 := by
  induction n with
  | zero => exact ⟨h.grown, fun i hi => absurd hi (Nat.not_lt_zero i), rfl⟩
  | succ n ih =>
      rw [allocTxBuffers] at hok ⊢
      by_cases hprev : (allocTxBuffers s c n).1 = false
      · rw [if_pos hprev, hprev] at hok
        cases hok
      · have hn := ih (Bool.eq_true_of_not_eq_false hprev)
        rw [if_neg hprev] at hok ⊢
        -- the search must not be unfolded
        generalize (allocTxBuffers s c n).2 = r at hn hok ⊢
        generalize ha : pagingAllocPages r.2 1 = a at hok ⊢
        obtain ⟨v, t⟩ := a
        have hne : v ≠ 0 := of_decide_eq_true hok
        have hwf := hn.grown.wf
        refine ⟨hn.grown.alloc (by decide) ha hne, fun i hi => ?_, hn.rx⟩
        show Remote t (Function.update r.1.dev.txBuffers n v i)
        rcases Nat.lt_succ_iff_lt_or_eq.mp hi with hlt | rfl
        · rw [Function.update_of_ne (Nat.ne_of_lt hlt)]
          exact (hn.tx i hlt).grown (hwf.grown_alloc (by decide) ha hne).1
        · rw [Function.update_self]
          exact hwf.remote_alloc (by decide) ha hne

theorem free_allocTxBuffers (h : Wf s) (hok : (allocTxBuffers s c (n + 1)).1 = true) : 0 < freeCount s := by
  induction n with
  | zero =>
      rw [allocTxBuffers, allocTxBuffers, if_neg Bool.false_ne_true.symm] at hok
      simp only at hok
      generalize ha : pagingAllocPages s 1 = a at hok
      obtain ⟨v, t⟩ := a
      exact h.free_alloc (by decide) ha (of_decide_eq_true hok)
  | succ n ih =>
      refine ih (Bool.eq_true_of_not_eq_false fun hprev => ?_)
      rw [allocTxBuffers, if_pos hprev, hprev] at hok
      cases hok

theorem init_cases (hok : rtl8139Init s c chip ioBase irq = (true, c', s')) :
    ∃ v t d, pagingAllocPages s 2 = (v, t) ∧ v ≠ 0 ∧
      allocTxBuffers t ((c.reset ioBase irq).setRx chip v) 4 = (true, d, s') ∧ c' = d.enable := by
  unfold rtl8139Init at hok
  generalize ha : pagingAllocPages s 2 = a at hok
  obtain ⟨v, t⟩ := a
  simp only at hok
  generalize htx : allocTxBuffers t ((c.reset ioBase irq).setRx chip v) 4 = r at hok
  obtain ⟨b, d, u⟩ := r
  split_ifs at hok with hcr hv hb
  · cases congrArg Prod.fst hok
  · cases congrArg Prod.fst hok
  · rw [congrArg Prod.fst hok] at hb
    cases hb
  · obtain ⟨-, h⟩ := Prod.mk.inj hok
    obtain ⟨rfl, rfl⟩ := Prod.mk.inj h
    obtain rfl : b = true := Bool.eq_true_of_not_eq_false hb
    exact ⟨v, t, d, rfl, hv, htx, rfl⟩

/-- While there is room, the transmit buffers are allocated. -/
theorem allocTxBuffers_of_room {m k : ℕ} (h : Room s m k) (hm : m + n ≤ 0x10000) (hk : 2 * n ≤ k) :
    (allocTxBuffers s c n).1 = true ∧ Room (allocTxBuffers s c n).2.2 (m + n) (k - 2 * n) := by
  induction n with
  | zero => exact ⟨rfl, h⟩
  | succ n ih =>
      obtain ⟨hok, hroom⟩ := ih (by omega) (by omega)
      have hone : (1 : U32).toNat = 1 := rfl
      obtain ⟨v, t, ha, hne, hroom'⟩ := hroom.alloc (show 0 < (1 : U32).toNat by decide) (by omega) (by omega)
      rw [allocTxBuffers, if_neg (by rw [hok]; decide), ha]
      refine ⟨decide_eq_true hne, ?_⟩
      have hsub : k - 2 * (n + 1) = k - 2 * n - 2 * (1 : U32).toNat := by omega
      rw [hsub]
      exact hroom'

/-- **While there is room**, the call succeeds, if the reset ends. -/
theorem init_of_room {m k : ℕ} (hcr : chip.cr &&& 0x10 = 0) (h : Room s m k) (hm : m + 6 ≤ 0x10000)
    (hk : 12 ≤ k) : ∃ c' s', rtl8139Init s c chip ioBase irq = (true, c', s') := by
  have htwo : (2 : U32).toNat = 2 := rfl
  obtain ⟨v, t, ha, hne, hroom⟩ := h.alloc (show 0 < (2 : U32).toNat by decide) (by omega) (by omega)
  have htx := (allocTxBuffers_of_room (c := (c.reset ioBase irq).setRx chip v) (n := 4) hroom (by omega)
    (by omega)).1
  unfold rtl8139Init
  rw [ha]
  simp only
  generalize allocTxBuffers t ((c.reset ioBase irq).setRx chip v) 4 = r at htx
  obtain ⟨b, d, u⟩ := r
  rw [if_neg (not_not.mpr hcr), if_neg hne, if_neg (by rw [htx]; decide)]
  exact ⟨_, _, rfl⟩

/-- **The controller gets the driver's addresses.** -/
theorem init_virtual (h : Wf s) (hok : rtl8139Init s c chip ioBase irq = (true, c', s')) :
    Grown s s' ∧ ∀ b ∈ c'.bases, b.Virtual s' := by
  obtain ⟨v, t, d, ha, hne, htx, rfl⟩ := init_cases hok
  have hgrown : Grown s t := (h.grown_alloc (by decide) ha hne).1
  have halloc := allocTxBuffers_spec hgrown.wf (congrArg Prod.fst htx)
  rw [htx] at halloc
  refine ⟨hgrown.trans halloc.grown, fun b hb => ?_⟩
  rcases List.mem_cons.mp hb with rfl | hb
  · show (⟨d.dev.rxBuffer, (d.program (d.dev.ioBase + rbstart)).setWidth 64⟩ : Base).Virtual s'
    rw [program_rbstart, show d.dev.rxBuffer = v from halloc.rx]
    exact .self ((h.remote_alloc (by decide) ha hne).grown halloc.grown)
  · obtain ⟨i, hi, rfl⟩ := List.mem_map.mp hb
    have hi := List.mem_range.mp hi
    show (⟨d.dev.txBuffers i, (d.program (d.dev.ioBase + tsad i)).setWidth 64⟩ : Base).Virtual s'
    rw [program_tsad d hi]
    exact .self (halloc.tx i hi)

/-- The receive buffer of a call that succeeds. The transmit buffers are allocated later. -/
theorem init_ring (h : Wf s) (hok : rtl8139Init s c chip ioBase irq = (true, c', s')) :
    ∃ t, pagingAllocPages s 2 = (c'.dev.rxBuffer, t) ∧ c'.dev.rxBuffer ≠ 0 ∧ 0 < freeCount t ∧ Grown t s' ∧
      c'.ports (c'.dev.ioBase + rbstart) = c'.dev.rxBuffer := by
  obtain ⟨v, t, d, ha, hne, htx, rfl⟩ := init_cases hok
  have hgrown : Grown s t := (h.grown_alloc (by decide) ha hne).1
  have hok' := congrArg Prod.fst htx
  have halloc := allocTxBuffers_spec hgrown.wf hok'
  rw [htx] at halloc
  have hrx : d.enable.dev.rxBuffer = v := halloc.rx
  rw [hrx]
  exact ⟨t, ha, hne, free_allocTxBuffers hgrown.wf hok', halloc.grown, (program_rbstart d).trans hrx⟩

/-- **The ring** is contiguous exactly when the frames for it were consecutive. -/
theorem ring_contiguous_iff (h : Wf s) (hok : rtl8139Init s c chip ioBase irq = (true, c', s')) :
    Contiguous s' c'.dev.rxBuffer 2 ↔ Consecutive s 2 := by
  obtain ⟨t, ha, hne, hfree, hgrown, -⟩ := init_ring h hok
  exact (h.contiguous_grown (by decide) ha hne hfree hgrown).trans (h.contiguous_iff (by decide) ha hne)

end BloodKernel.Rtl8139
