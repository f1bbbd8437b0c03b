import BloodKernel.Drivers.DmaBases

set_option autoImplicit false

/-!
# The UHCI driver

`uhci_init` of `drivers/usb_uhci.c`, and `uhci_control_transfer` up to the wait for the controller. What
lies at the pointers of a controller is part of its structure. The waits of the reset are left out.

* `Controller`, `Driver`: the static data, and the ports;
* `uhciInit`, `queueTransfer`: the calls;
* **`init_virtual`**, **`transfer_virtual`**: the controller gets the addresses of the pages as they are.
-/

namespace BloodKernel.Uhci

open Paging

/-- `uhci_td_t`. -/
structure Td where
  linkPtr : U32
  controlStatus : U32
  token : U32
  bufferPtr : U32

/-- `uhci_qh_t`. -/
structure Qh where
  headLinkPtr : U32
  elementLinkPtr : U32

/-- `uhci_controller_t`, and what its pointers point to: the entries of the frame list, the control queue
head, and the transfer descriptors. -/
structure Controller where
  ioBase : U16
  irq : U8
  frameList : U32
  controlQh : U32
  tdPool : U32
  tdPoolUsed : ℕ → Bool
  initialized : Bool
  frames : ℕ → U32
  qh : Qh
  tds : ℕ → Td

/-- `uhci_controllers` and `uhci_controller_count`, and the ports. -/
structure Driver where
  ports : Ports
  controllers : ℕ → Controller
  count : ℕ

/-- `UHCI_FRBASEADD` -/
def frbaseadd : U16 := 0x08

/-! ### Initialization -/

/-- Global reset, host controller reset, and all bits of the status. -/
def uhciResetController (p : Ports) (ioBase : U16) : Ports :=
  (((p.outw (ioBase + 0x00) 0x0004).outw (ioBase + 0x00) 0).outw (ioBase + 0x00) 0x0002).outw
    (ioBase + 0x02) 0xFFFF

/-- The queue head, with both links terminated, and the frame list, with all entries pointing to it. -/
def Controller.setQh (c : Controller) (qh : U32) : Controller :=
  let qhPhys := qh ||| 2
  { c with
    controlQh := qh
    qh := ⟨1, 1⟩
    frames := fun i => if i < 1024 then qhPhys else c.frames i }

def uhciSetupFrameList (s : Paging.State) (p : Ports) (c : Controller) :
    Controller × Ports × Paging.State :=
  let a := pagingAllocPages s 1
  let c := { c with frameList := a.1 }
  if a.1 = 0 then (c, p, a.2)
  else
    let b := pagingAllocPages a.2 1
    if b.1 = 0 then ({ c with controlQh := 0 }, p, b.2)
    else (c.setQh b.1, p.outl (c.ioBase + frbaseadd) a.1, b.2)

/-- The timing of the frames, the interrupts, and the start. -/
def configure (p : Ports) (ioBase : U16) : Ports :=
  ((p.outw (ioBase + 0x0C) 64).outw (ioBase + 0x04) 0x0F).outw (ioBase + 0x00) (0x0001 ||| 0x0040)

def uhciInit (s : Paging.State) (d : Driver) (ioBase : U16) (irq : U8) : Bool × Driver × Paging.State :=
  if 4 ≤ d.count then (false, d, s)
  else
    let a := pagingAllocPages s 1
    let c := { d.controllers d.count with ioBase := ioBase, irq := irq, tdPool := a.1 }
    if a.1 = 0 then (false, { d with controllers := Function.update d.controllers d.count c }, a.2)
    else
      let c := { c with tdPoolUsed := fun i => if i < 32 then false else c.tdPoolUsed i }
      let r := uhciSetupFrameList a.2 (uhciResetController d.ports ioBase) c
      let c := { r.1 with initialized := true }
      (true, ⟨configure r.2.1 ioBase, Function.update d.controllers d.count c, d.count + 1⟩, r.2.2)

/-! ### Transfers -/

/-- The address of a descriptor in the pool. -/
def Controller.tdAddr (c : Controller) (i : ℕ) : U32 := c.tdPool + BitVec.ofNat 32 (32 * i)

/-- The first unused descriptor, cleared. -/
def uhciAllocTd (c : Controller) : Option ℕ × Controller :=
  match (List.range 32).find? fun i => !c.tdPoolUsed i with
  | some i =>
      (some i, { c with
        tdPoolUsed := Function.update c.tdPoolUsed i true
        tds := Function.update c.tds i ⟨1, 0, 0, 0⟩ })
  | none => (none, c)

def uhciFreeTd (c : Controller) (i : ℕ) : Controller :=
  if i < 32 then { c with tdPoolUsed := Function.update c.tdPoolUsed i false } else c

/-- The arguments of `uhci_control_transfer`. -/
structure Request where
  deviceAddr : U8
  endpoint : U8
  setupPacket : U32
  data : U32
  dataLen : U16

/-- The descriptors of a transfer. -/
structure Chain where
  setup : ℕ
  data : Option ℕ
  status : ℕ

/-- `device_addr << 8 | endpoint << 15`. -/
def Request.address (q : Request) : U32 :=
  (q.deviceAddr.setWidth 32 <<< 8) ||| (q.endpoint.setWidth 32 <<< 15)

/-- `TD_CTRL_ACTIVE | (3 << 27)`. -/
def active : U32 := 0x00800000 ||| (3 <<< 27)

/-- The descriptors, linked in a chain, and the queue head, linked to the first of them. -/
def Controller.queue (c : Controller) (q : Request) (h : Chain) : Controller :=
  let setup : Td := ⟨c.tdAddr (h.data.getD h.status), active, q.address ||| ((8 - 1) <<< 21) ||| 0x2D,
    q.setupPacket⟩
  let data : Td := ⟨c.tdAddr h.status, active,
    q.address ||| 0x00080000 ||| ((q.dataLen.setWidth 32 - 1) <<< 21) ||| 0x69, q.data⟩
  let status : Td := ⟨1, active ||| 0x01000000, q.address ||| 0x00080000 ||| ((0 - 1) <<< 21) ||| 0xE1, 0⟩
  let tds := Function.update c.tds h.setup setup
  let tds := match h.data with
    | some i => Function.update tds i data
    | none => tds
  { c with
    tds := Function.update tds h.status status
    qh := { c.qh with elementLinkPtr := c.tdAddr h.setup } }

def queueTransfer (c : Controller) (q : Request) : Option Chain × Controller :=
  let a := uhciAllocTd c
  let b := uhciAllocTd a.2
  match a.1, b.1 with
  | some setup, some status =>
      if q.dataLen = 0 then (some ⟨setup, none, status⟩, b.2.queue q ⟨setup, none, status⟩)
      else
        let d := uhciAllocTd b.2
        match d.1 with
        | some data => (some ⟨setup, some data, status⟩, d.2.queue q ⟨setup, some data, status⟩)
        | none => (none, uhciFreeTd (uhciFreeTd d.2 setup) status)
  | some setup, none => (none, uhciFreeTd b.2 setup)
  | none, some status => (none, uhciFreeTd b.2 status)
  | none, none => (none, b.2)

/-! ### What the controller gets -/

/-- The address in a link: the low bits are flags. -/
def linkAddr (w : U32) : U32 := w &&& 0xFFFFFFF0

/-- The base of the frame list, and the links of its entries. -/
def Controller.bases (c : Controller) (p : Ports) : List Base :=
  ⟨c.frameList, (p (c.ioBase + frbaseadd)).setWidth 64⟩ ::
    (List.range 1024).map fun i => ⟨c.controlQh, (linkAddr (c.frames i)).setWidth 64⟩

def Controller.links (c : Controller) (h : Chain) : List Base :=
  ⟨c.tdAddr h.setup, (linkAddr c.qh.elementLinkPtr).setWidth 64⟩ ::
    match h.data with
    | some i =>
        [⟨c.tdAddr i, (linkAddr (c.tds h.setup).linkPtr).setWidth 64⟩,
          ⟨c.tdAddr h.status, (linkAddr (c.tds i).linkPtr).setWidth 64⟩]
    | none => [⟨c.tdAddr h.status, (linkAddr (c.tds h.setup).linkPtr).setWidth 64⟩]

variable {s s' t : Paging.State} {c c' : Controller} {d d' : Driver} {p p' : Ports} {ioBase : U16} {irq : U8}
variable {q : Request} {h : Chain} {v : U32} {b : Base}

theorem virtual_link (hv : Remote s v) : (⟨v, (linkAddr (v ||| 2)).setWidth 64⟩ : Base).Virtual s ∧
    (⟨v, (linkAddr v).setWidth 64⟩ : Base).Virtual s := by
  have hbit := getLsbD_remote hv
  refine ⟨⟨hv, ?_⟩, hv, ?_⟩
  all_goals simp [linkAddr, hbit]

theorem setupFrameList_cases (hr : uhciSetupFrameList s p c = (c', p', s')) (hlist : c'.frameList ≠ 0)
    (hqh : c'.controlQh ≠ 0) : ∃ v t w, pagingAllocPages s 1 = (v, t) ∧ v ≠ 0 ∧
      pagingAllocPages t 1 = (w, s') ∧ w ≠ 0 ∧ c' = Controller.setQh { c with frameList := v } w ∧
      p' = p.outl (c.ioBase + frbaseadd) v := by
  unfold uhciSetupFrameList at hr
  generalize ha : pagingAllocPages s 1 = a at hr
  obtain ⟨v, t⟩ := a
  simp only at hr
  generalize hb : pagingAllocPages t 1 = b at hr
  obtain ⟨w, u⟩ := b
  split_ifs at hr with hv hw
  · obtain ⟨rfl, -⟩ := Prod.mk.inj hr
    exact absurd hv hlist
  · obtain ⟨rfl, -⟩ := Prod.mk.inj hr
    exact absurd rfl hqh
  · obtain ⟨rfl, hrest⟩ := Prod.mk.inj hr
    obtain ⟨rfl, rfl⟩ := Prod.mk.inj hrest
    exact ⟨v, t, w, rfl, hv, hb, hw, rfl, rfl⟩

theorem init_cases (hok : uhciInit s d ioBase irq = (true, d', s')) :
    ∃ v t c r p', pagingAllocPages s 1 = (v, t) ∧ v ≠ 0 ∧ c.ioBase = ioBase ∧ c.tdPool = v ∧
      uhciSetupFrameList t (uhciResetController d.ports ioBase) c = (r, p', s') ∧
      d'.controllers d.count = { r with initialized := true } ∧ d'.ports = configure p' ioBase := by
  unfold uhciInit at hok
  generalize ha : pagingAllocPages s 1 = a at hok
  obtain ⟨v, t⟩ := a
  simp only at hok
  split_ifs at hok with hcount hv
  · cases congrArg Prod.fst hok
  · cases congrArg Prod.fst hok
  · generalize hc : ({ d.controllers d.count with
      ioBase := ioBase, irq := irq, tdPool := v,
      tdPoolUsed := fun i => if i < 32 then false else (d.controllers d.count).tdPoolUsed i } : Controller) = c
      at hok
    generalize hr : uhciSetupFrameList t (uhciResetController d.ports ioBase) c = r at hok
    obtain ⟨r, p', u⟩ := r
    obtain ⟨-, hrest⟩ := Prod.mk.inj hok
    obtain ⟨rfl, rfl⟩ := Prod.mk.inj hrest
    refine ⟨v, t, c, r, p', rfl, hv, ?_, ?_, hr, Function.update_self _ _ _, rfl⟩
    · rw [← hc]
    · rw [← hc]

theorem configure_frbaseadd (p : Ports) (ioBase : U16) :
    configure p ioBase (ioBase + frbaseadd) = p (ioBase + frbaseadd) := by
  unfold configure Ports.outw
  rw [Ports.outl_add, if_neg (by decide), Ports.outl_add, if_neg (by decide), Ports.outl_add,
    if_neg (by decide)]

/-- **The frame list** and the queue head: the controller gets the driver's addresses. -/
theorem init_virtual (h : Wf s) (hok : uhciInit s d ioBase irq = (true, d', s'))
    (hlist : (d'.controllers d.count).frameList ≠ 0) (hqh : (d'.controllers d.count).controlQh ≠ 0) :
    Grown s s' ∧ (∀ b ∈ (d'.controllers d.count).bases d'.ports, b.Virtual s') ∧
      ∀ k < 4096, Remote s' ((d'.controllers d.count).tdPool + BitVec.ofNat 32 k) := by
  obtain ⟨u, t, c, r, p', ha, hu, hio, hpool, hr, hctrl, hports⟩ := init_cases hok
  rw [hctrl] at hlist hqh ⊢
  obtain ⟨v, t', w, hb, hv, hc, hw, rfl, rfl⟩ := setupFrameList_cases hr hlist hqh
  obtain ⟨hgrown, hremote⟩ := h.grown_alloc (by decide) ha hu
  have hgrown₁ : Grown t t' := (hgrown.wf.grown_alloc (by decide) hb hv).1
  have hgrown₂ : Grown t' s' := (hgrown₁.wf.grown_alloc (by decide) hc hw).1
  have hgrown' : Grown t s' := hgrown₁.trans hgrown₂
  have hlist' : Remote s' v := (hgrown.wf.remote_alloc (by decide) hb hv).grown hgrown₂
  have hqh' : Remote s' w := hgrown₁.wf.remote_alloc (by decide) hc hw
  refine ⟨hgrown.trans hgrown', fun b hb => ?_, fun k hk => ?_⟩
  · rcases List.mem_cons.mp hb with rfl | hb
    · show (⟨v, (d'.ports (c.ioBase + frbaseadd)).setWidth 64⟩ : Base).Virtual s'
      rw [hports, hio, configure_frbaseadd, Ports.outl_add, if_pos rfl]
      exact .self hlist'
    · obtain ⟨i, hi, rfl⟩ := List.mem_map.mp hb
      show (⟨w, (linkAddr (if i < 1024 then w ||| 2 else c.frames i)).setWidth 64⟩ : Base).Virtual s'
      rw [if_pos (List.mem_range.mp hi)]
      exact (virtual_link hqh').1
  · show Remote s' (c.tdPool + BitVec.ofNat 32 k)
    rw [hpool]
    exact (hremote k hk).grown hgrown'

/-! ### The links of a transfer -/

/-- A descriptor that has been allocated was not in use, and is now. -/
theorem allocTd_eq_some {i : ℕ} (ha : (uhciAllocTd c).1 = some i) : i < 32 ∧ c.tdPoolUsed i = false ∧
    (uhciAllocTd c).2.tdPool = c.tdPool ∧
    (uhciAllocTd c).2.tdPoolUsed = Function.update c.tdPoolUsed i true := by
  unfold uhciAllocTd at ha ⊢
  cases hf : (List.range 32).find? fun i => !c.tdPoolUsed i with
  | none =>
      rw [hf] at ha
      cases ha
  | some j =>
      rw [hf] at ha
      obtain rfl : j = i := Option.some_inj.mp ha
      have hmem := List.mem_range.mp (List.mem_of_find?_eq_some hf)
      have hused : c.tdPoolUsed j = false := by simpa using List.find?_some hf
      exact ⟨hmem, hused, rfl, rfl⟩

theorem ne_of_update {f : ℕ → Bool} {i j : ℕ} (hj : Function.update f i true j = false) :
    j ≠ i ∧ f j = false := by
  by_cases hij : j = i
  · rw [hij, Function.update_self] at hj
    cases hj
  · rw [Function.update_of_ne hij] at hj
    exact ⟨hij, hj⟩

/-- The descriptors of a chain are different ones of the pool. -/
structure Chain.Distinct (h : Chain) : Prop where
  setup_lt : h.setup < 32
  status_lt : h.status < 32
  status_ne : h.status ≠ h.setup
  data_lt : ∀ i, h.data = some i → i < 32
  data_ne : ∀ i, h.data = some i → i ≠ h.status ∧ i ≠ h.setup

theorem queueTransfer_eq_some (hq : queueTransfer c q = (some h, c')) :
    h.Distinct ∧ ∃ e : Controller, e.tdPool = c.tdPool ∧ c' = e.queue q h := by
  unfold queueTransfer at hq
  simp only at hq
  split at hq
  · next setup status ha hb =>
      obtain ⟨hsetup, -, hpool, hused⟩ := allocTd_eq_some ha
      obtain ⟨hstatus, hfree, hpool', hused'⟩ := allocTd_eq_some hb
      rw [hused] at hfree hused'
      have hne := (ne_of_update hfree).1
      split_ifs at hq with hlen
      · obtain ⟨he, rfl⟩ := Prod.mk.inj hq
        obtain rfl := Option.some_inj.mp he
        refine ⟨⟨hsetup, hstatus, hne, fun i hi => ?_, fun i hi => ?_⟩, _, hpool'.trans hpool, rfl⟩
        · cases hi
        · cases hi
      · split at hq
        · next data hd =>
            obtain ⟨hdata, hfree', hpool'', -⟩ := allocTd_eq_some hd
            rw [hused'] at hfree'
            obtain ⟨hne', hfree'⟩ := ne_of_update hfree'
            obtain ⟨he, rfl⟩ := Prod.mk.inj hq
            obtain rfl := Option.some_inj.mp he
            refine ⟨⟨hsetup, hstatus, hne, fun i hi => ?_, fun i hi => ?_⟩, _,
              hpool''.trans (hpool'.trans hpool), rfl⟩
            · obtain rfl := Option.some_inj.mp hi
              exact hdata
            · obtain rfl := Option.some_inj.mp hi
              exact ⟨hne', (ne_of_update hfree').1⟩
        · cases congrArg Prod.fst hq
  all_goals cases congrArg Prod.fst hq

theorem queue_setup (hd : h.Distinct) (c : Controller) (q : Request) :
    ((c.queue q h).tds h.setup).linkPtr = c.tdAddr (h.data.getD h.status) := by
  obtain ⟨setup, data, status⟩ := h
  have hstatus : setup ≠ status := Ne.symm hd.status_ne
  cases data with
  | none => simp [Controller.queue, Function.update_of_ne hstatus]
  | some i =>
      have hdata : setup ≠ i := Ne.symm (hd.data_ne i rfl).2
      simp [Controller.queue, Function.update_of_ne hstatus, Function.update_of_ne hdata]

theorem queue_data {i : ℕ} (hd : h.Distinct) (hi : h.data = some i) (c : Controller) (q : Request) :
    ((c.queue q h).tds i).linkPtr = c.tdAddr h.status := by
  obtain ⟨setup, data, status⟩ := h
  obtain rfl : data = some i := hi
  have hstatus : i ≠ status := (hd.data_ne i rfl).1
  simp [Controller.queue, Function.update_of_ne hstatus]

/-- **The links of a transfer** are the driver's addresses of the descriptors. -/
theorem transfer_virtual (hq : queueTransfer c q = (some h, c'))
    (hpool : ∀ k < 4096, Remote s (c.tdPool + BitVec.ofNat 32 k)) : ∀ b ∈ c'.links h, b.Virtual s := by
  obtain ⟨hd, e, he, rfl⟩ := queueTransfer_eq_some hq
  have htd : ∀ i < 32, (⟨e.tdAddr i, (linkAddr (e.tdAddr i)).setWidth 64⟩ : Base).Virtual s := fun i hi => by
    refine (virtual_link ?_).2
    rw [Controller.tdAddr, he]
    exact hpool _ (by omega)
  have hsetup := queue_setup hd e q
  intro b hb
  rcases List.mem_cons.mp hb with rfl | hb
  · exact htd _ hd.setup_lt
  · cases hdata : h.data with
    | none =>
        rw [hdata] at hb hsetup
        obtain rfl := List.mem_singleton.mp hb
        rw [hsetup]
        exact htd _ hd.status_lt
    | some i =>
        have hlink := queue_data hd hdata e q
        rw [hdata] at hb hsetup
        rcases List.mem_cons.mp hb with rfl | hb
        · rw [hsetup]
          exact htd i (hd.data_lt i hdata)
        · obtain rfl := List.mem_singleton.mp hb
          rw [hlink]
          exact htd _ hd.status_lt

end BloodKernel.Uhci
