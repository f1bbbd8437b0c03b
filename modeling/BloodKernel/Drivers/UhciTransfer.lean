import BloodKernel.Drivers.Uhci
import BloodKernel.Lib.Countdown
import BloodKernel.Lib.Run

set_option autoImplicit false

/-!
# Control transfers of the UHCI driver

All of `uhci_control_transfer` of `drivers/usb_uhci.c`. The host controller writes the control and status
words of the descriptors while the driver waits; what it writes is arbitrary.

* `uhciControlTransfer`: the call;
* `freeTds`, `chainOf`: the pool as the list of its unused descriptors, and the chain taken from it
  (`queueTransfer_fst`);
* `WaitEnds`: the read after the wait;
* **`control_transfer_honest_iff`**: when a reported success is one;
* **`control_transfers_keep_pool`**: no sequence of transfers leaks a descriptor or uses one twice.
-/

namespace BloodKernel.Uhci

/-! ### The call -/

/-- `TD_CTRL_ACTIVE` -/
def ctrlActive : U32 := 0x00800000

/-- `TD_CTRL_STALLED`, `TD_CTRL_DBUFERR`, `TD_CTRL_BABBLE`, `TD_CTRL_NAK`, `TD_CTRL_CRCTOUT` and
`TD_CTRL_BITSTUFF`. -/
def ctrlErrors : U32 :=
  0x00400000 ||| 0x00200000 ||| 0x00100000 ||| 0x00080000 ||| 0x00040000 ||| 0x00020000

/-- What the host controller makes of the descriptors: `hc k i` is the control and status word of
descriptor `i` at the driver's read number `k`. -/
abbrev Behaviour := ℕ → ℕ → U32

/-- The descriptors of a chain, in its order. -/
def Chain.tds (h : Chain) : List ℕ := h.setup :: (h.data.toList ++ [h.status])

/-- `while (timeout-- && (status_td->control_status & TD_CTRL_ACTIVE));`: the read that follows. -/
def waited (hc : Behaviour) (h : Chain) : ℕ :=
  (Lib.countdown 32 (fun k => decide (hc k h.status &&& ctrlActive = 0)) 0 1000000).2

/-- The descriptors of the chain as the host controller leaves them. -/
def Controller.written (c : Controller) (h : Chain) (word : ℕ → U32) : Controller :=
  { c with tds := fun i => if i ∈ h.tds then { c.tds i with controlStatus := word i } else c.tds i }

/-- The end of the call: the queue is terminated and the descriptors are given back. -/
def Controller.cleanUp (c : Controller) (h : Chain) : Controller :=
  let c := { c with qh := { c.qh with elementLinkPtr := 1 } }
  let c := uhciFreeTd c h.setup
  let c := match h.data with
    | some i => uhciFreeTd c i
    | none => c
  uhciFreeTd c h.status

/-- A driver one of whose controllers is another one. -/
def Driver.set (d : Driver) (controller : U8) (c : Controller) : Driver :=
  { d with controllers := Function.update d.controllers controller.toNat c }

def uhciControlTransfer (d : Driver) (controller : U8) (q : Request) (hc : Behaviour) : Bool × Driver :=
  if d.count ≤ controller.toNat then (false, d)
  else
    match queueTransfer (d.controllers controller.toNat) q with
    | (none, c) => (false, d.set controller c)
    | (some h, c) =>
        let k := waited hc h
        (decide (hc k h.status &&& ctrlErrors = 0), d.set controller ((c.written h (hc k)).cleanUp h))

/-! ### The pool as a list -/

/-- The descriptors not in use. -/
def Controller.freeTds (c : Controller) : List ℕ := (List.range 32).filter fun i => !c.tdPoolUsed i

/-- The chain that is taken from a list of unused descriptors. -/
def chainOf (free : List ℕ) (dataLen : U16) : Option Chain :=
  match free with
  | setup :: status :: rest =>
      if dataLen = 0 then some ⟨setup, none, status⟩
      else rest.head?.map fun data => ⟨setup, some data, status⟩
  | _ => none

variable {c c' : Controller} {d d' : Driver} {q : Request} {h : Chain} {hc : Behaviour} {n : U8} {i k : ℕ}

theorem nodup_freeTds (c : Controller) : c.freeTds.Nodup := List.nodup_range.filter _

theorem allocTd_fst (c : Controller) : (uhciAllocTd c).1 = c.freeTds.head? := by
  unfold uhciAllocTd Controller.freeTds
  rw [List.head?_filter]
  split
  · next i hi => exact hi.symm
  · next hi => exact hi.symm

theorem allocTd_of_nil (hf : c.freeTds = []) : uhciAllocTd c = (none, c) := by
  have hfst : (List.range 32).find? (fun i => !c.tdPoolUsed i) = none := by
    rw [← List.head?_filter]
    exact congrArg List.head? hf
  unfold uhciAllocTd
  rw [hfst]

theorem allocTd_of_cons {l : List ℕ} (hf : c.freeTds = i :: l) :
    (uhciAllocTd c).1 = some i ∧ (uhciAllocTd c).2.freeTds = l ∧
      (uhciAllocTd c).2.tdPoolUsed = Function.update c.tdPoolUsed i true := by
  have hfst : (uhciAllocTd c).1 = some i := by
    rw [allocTd_fst, hf]
    rfl
  obtain ⟨-, -, -, hused⟩ := allocTd_eq_some hfst
  have hnodup : (i :: l).Nodup := hf ▸ nodup_freeTds c
  refine ⟨hfst, ?_, hused⟩
  have hfilter : (uhciAllocTd c).2.freeTds = c.freeTds.filter fun j => j != i := by
    rw [Controller.freeTds, Controller.freeTds, List.filter_filter, hused]
    refine List.filter_congr fun j _ => ?_
    by_cases hj : j = i
    · rw [hj, Function.update_self, bne_self_eq_false, Bool.false_and]
      rfl
    · rw [Function.update_of_ne hj, bne_iff_ne.mpr hj, Bool.true_and]
  rw [hfilter, hf, List.filter_cons_of_neg (by simp)]
  refine List.filter_eq_self.mpr fun j hj => bne_iff_ne.mpr ?_
  rintro rfl
  exact (List.nodup_cons.mp hnodup).1 hj

/-- **The chain** is taken from the front of the unused descriptors. -/
theorem queueTransfer_fst (c : Controller) (q : Request) :
    (queueTransfer c q).1 = chainOf c.freeTds q.dataLen := by
  unfold queueTransfer chainOf
  simp only
  cases hf : c.freeTds with
  | nil => simp [allocTd_of_nil hf]
  | cons setup l =>
      obtain ⟨ha, hl, -⟩ := allocTd_of_cons hf
      cases l with
      | nil => simp [ha, allocTd_of_nil hl]
      | cons status l =>
          obtain ⟨hb, hl', -⟩ := allocTd_of_cons hl
          simp only [ha, hb]
          split_ifs with hlen
          · rfl
          · rw [allocTd_fst, hl']
            cases l with
            | nil => rfl
            | cons data l => rfl

/-! ### What is taken and given back -/

/-- From `c` to `c'` the descriptors `l` have been taken: different unused ones of the pool. -/
structure Took (c c' : Controller) (l : List ℕ) : Prop where
  nodup : l.Nodup
  free : ∀ i ∈ l, i < 32 ∧ c.tdPoolUsed i = false
  used : ∀ j, c'.tdPoolUsed j = (decide (j ∈ l) || c.tdPoolUsed j)
  tds : ∀ j, c.tdPoolUsed j = true → c'.tds j = c.tds j

theorem Took.nil (c : Controller) : Took c c [] where
  nodup := .nil
  free := by simp
  used := by simp
  tds := fun _ _ => rfl

theorem Took.perm {l l' : List ℕ} (h : Took c c' l) (hp : l.Perm l') : Took c c' l' where
  nodup := hp.nodup h.nodup
  free := fun i hi => h.free i (hp.mem_iff.mpr hi)
  used := fun j => by simpa only [hp.mem_iff] using h.used j
  tds := h.tds

/-- Another controller with the same pool, whose descriptors differ only where they are not in use. -/
theorem Took.congr {l : List ℕ} {e : Controller} (h : Took c c' l) (hused : e.tdPoolUsed = c'.tdPoolUsed)
    (htds : ∀ j ∉ l, e.tds j = c'.tds j) : Took c e l where
  nodup := h.nodup
  free := h.free
  used := fun j => hused ▸ h.used j
  tds := fun j hj => by
    have hne : j ∉ l := fun hmem => by
      rw [(h.free j hmem).2] at hj
      cases hj
    rw [htds j hne, h.tds j hj]

theorem allocTd_tds (ha : (uhciAllocTd c).1 = some i) {j : ℕ} (hj : j ≠ i) :
    (uhciAllocTd c).2.tds j = c.tds j := by
  unfold uhciAllocTd at ha ⊢
  cases hf : (List.range 32).find? fun i => !c.tdPoolUsed i with
  | none => rfl
  | some k =>
      rw [hf] at ha
      obtain rfl : k = i := Option.some_inj.mp ha
      exact Function.update_of_ne hj _ _

theorem Took.alloc {l : List ℕ} (h : Took c c' l) (ha : (uhciAllocTd c').1 = some i) :
    Took c (uhciAllocTd c').2 (i :: l) := by
  obtain ⟨hlt, hfree, -, hused⟩ := allocTd_eq_some ha
  have hor := h.used i
  rw [hfree] at hor
  obtain ⟨hnot, hfree'⟩ := Bool.or_eq_false_iff.mp hor.symm
  refine ⟨List.nodup_cons.mpr ⟨of_decide_eq_false hnot, h.nodup⟩, fun j hj => ?_, fun j => ?_, fun j hj => ?_⟩
  · rcases List.mem_cons.mp hj with rfl | hj
    · exact ⟨hlt, hfree'⟩
    · exact h.free j hj
  · rw [hused, Function.update_apply]
    by_cases hj : j = i
    · simp [hj]
    · simp [hj, h.used j]
  · have hne : j ≠ i := fun hji => by
      rw [hji, hfree'] at hj
      cases hj
    rw [allocTd_tds ha hne, h.tds j hj]

theorem Took.alloc_none {l : List ℕ} (h : Took c c' l) (ha : (uhciAllocTd c').1 = none) :
    Took c (uhciAllocTd c').2 l := by
  rw [allocTd_fst] at ha
  rw [allocTd_of_nil (List.head?_eq_none_iff.mp ha)]
  exact h

theorem Took.freeTd {l : List ℕ} (h : Took c c' (i :: l)) : Took c (uhciFreeTd c' i) l := by
  obtain ⟨hnot, hnodup⟩ := List.nodup_cons.mp h.nodup
  obtain ⟨hlt, hfree⟩ := h.free i List.mem_cons_self
  unfold uhciFreeTd
  rw [if_pos hlt]
  refine ⟨hnodup, fun j hj => h.free j (List.mem_cons_of_mem _ hj), fun j => ?_, h.tds⟩
  simp only [Function.update_apply]
  by_cases hj : j = i
  · rw [if_pos hj, hj, decide_eq_false hnot, hfree, Bool.or_self]
  · rw [if_neg hj, h.used j]
    simp [hj]

/-- The queue holds descriptors of the chain only. -/
theorem queue_tds (c : Controller) (q : Request) {j : ℕ} (hj : j ∉ h.tds) : (c.queue q h).tds j = c.tds j := by
  obtain ⟨setup, data, status⟩ := h
  cases data with
  | none =>
      simp only [Chain.tds, Option.toList, List.nil_append, List.mem_cons, List.not_mem_nil, or_false,
        not_or] at hj
      simp [Controller.queue, Function.update_of_ne hj.1, Function.update_of_ne hj.2]
  | some i =>
      simp only [Chain.tds, Option.toList, List.cons_append, List.nil_append, List.mem_cons,
        List.not_mem_nil, or_false, not_or] at hj
      simp [Controller.queue, Function.update_of_ne hj.1, Function.update_of_ne hj.2.1,
        Function.update_of_ne hj.2.2]

theorem Took.queue (ht : Took c c' h.tds) (q : Request) : Took c (c'.queue q h) h.tds :=
  ht.congr rfl fun _ hj => queue_tds c' q hj

/-- **The descriptors of a chain** have been taken, or those taken have been given back. -/
theorem took_queueTransfer (c : Controller) (q : Request) :
    Took c (queueTransfer c q).2 (((queueTransfer c q).1.map Chain.tds).getD []) := by
  unfold queueTransfer
  simp only
  have ht := Took.nil c
  split
  · next setup status ha hb =>
      have ht := (ht.alloc ha).alloc hb
      split_ifs with hlen
      · exact Took.queue (h := ⟨setup, none, status⟩) (ht.perm (.swap _ _ _)) q
      · split
        · next data hd =>
            have hperm : [data, status, setup].Perm [setup, data, status] :=
              @List.perm_append_comm _ [data, status] [setup]
            exact Took.queue (h := ⟨setup, some data, status⟩) ((ht.alloc hd).perm hperm) q
        · next hd => exact ((ht.alloc_none hd).perm (.swap _ _ _)).freeTd.freeTd
  · next setup ha hb => exact ((ht.alloc ha).alloc_none hb).freeTd
  · next status ha hb => exact ((ht.alloc_none ha).alloc hb).freeTd
  · next ha hb => exact (ht.alloc_none ha).alloc_none hb

/-- **The end of the call** gives the descriptors of the chain back. -/
theorem Took.cleanUp (ht : Took c c' h.tds) : Took c (c'.cleanUp h) [] := by
  obtain ⟨setup, data, status⟩ := h
  have ht : Took c { c' with qh := { c'.qh with elementLinkPtr := 1 } } _ := ht.congr rfl fun _ _ => rfl
  cases data with
  | none => exact ht.freeTd.freeTd
  | some i => exact ht.freeTd.freeTd.freeTd

theorem Took.written (ht : Took c c' h.tds) (word : ℕ → U32) : Took c (c'.written h word) h.tds :=
  ht.congr rfl fun _ hj => if_neg hj

/-! ### Sequences of transfers -/

/-- The arguments of a transfer, and what the host controller does in it. -/
structure Transfer where
  controller : U8
  request : Request
  hc : Behaviour

def Transfer.call (d : Driver) (a : Transfer) : Bool × Driver :=
  uhciControlTransfer d a.controller a.request a.hc

/-- The descriptors a transfer uses are different ones that were not in use, and after the call the same
descriptors are in use as before, with what they held. -/
structure Proper (d : Driver) (a : Transfer) : Prop where
  chain : ∀ h, (queueTransfer (d.controllers a.controller.toNat) a.request).1 = some h →
    h.tds.Nodup ∧ ∀ i ∈ h.tds, i < 32 ∧ (d.controllers a.controller.toNat).tdPoolUsed i = false
  pool : ∀ m, ((a.call d).2.controllers m).tdPoolUsed = (d.controllers m).tdPoolUsed
  tds : ∀ m i, (d.controllers m).tdPoolUsed i = true →
    ((a.call d).2.controllers m).tds i = (d.controllers m).tds i

theorem set_controllers (d : Driver) (n : U8) (c : Controller) (m : ℕ) :
    (d.set n c).controllers m = if m = n.toNat then c else d.controllers m :=
  Function.update_apply _ _ _ _

theorem took_controlTransfer (d : Driver) (n : U8) (q : Request) (hc : Behaviour) (m : ℕ) :
    Took (d.controllers m) ((uhciControlTransfer d n q hc).2.controllers m) [] := by
  unfold uhciControlTransfer
  split_ifs with hcount
  · exact .nil _
  · have ht := took_queueTransfer (d.controllers n.toNat) q
    split
    · next c hq =>
        rw [hq] at ht
        rw [set_controllers]
        split_ifs with hm
        · exact hm ▸ ht
        · exact .nil _
    · next h c hq =>
        rw [hq] at ht
        have ht : Took (d.controllers n.toNat) c h.tds := ht
        simp only
        rw [set_controllers]
        split_ifs with hm
        · exact hm ▸ (ht.written _).cleanUp
        · exact .nil _

theorem proper (d : Driver) (a : Transfer) : Proper d a where
  chain := fun h hh => by
    have ht := took_queueTransfer (d.controllers a.controller.toNat) a.request
    rw [hh] at ht
    exact ⟨ht.nodup, ht.free⟩
  pool := fun m => funext fun i => by
    have hused := (took_controlTransfer d a.controller a.request a.hc m).used i
    rw [decide_eq_false List.not_mem_nil, Bool.false_or] at hused
    exact hused
  tds := fun m i hi => (took_controlTransfer d a.controller a.request a.hc m).tds i hi

/-- **No transfer leaks a descriptor** or uses one twice, whatever the transfers before it were. -/
theorem control_transfers_keep_pool {es : List (Transfer × Bool)}
    (hrun : Lib.Run (Lib.total Transfer.call) d es d') :
    Lib.Along (Lib.total Transfer.call) (fun s e => Proper s e.1) d es ∧
      ∀ m, (d'.controllers m).tdPoolUsed = (d.controllers m).tdPoolUsed := by
  refine ⟨fun _ e _ u _ _ => proper u e.1, ?_⟩
  refine hrun.invariant (fun s => ∀ m, (s.controllers m).tdPoolUsed = (d.controllers m).tdPoolUsed)
    (fun s a r s' hs hstep m => ?_) fun _ => rfl
  have hpool := (proper s a).pool m
  rw [Lib.total_eq_some.mp hstep] at hpool
  exact hpool.trans (hs m)

theorem call_step (d : Driver) (a : Transfer) :
    Lib.total Transfer.call d a = some ((a.call d).1, (a.call d).2) := rfl

/-- A controller whose descriptors are all unused, with its pool at 1 MiB. -/
def Controller.idle : Controller :=
  ⟨0xC000, 11, 0x101000, 0x102000, 0x100000, fun _ => false, true, fun _ => 0x102002, ⟨1, 1⟩,
    fun _ => ⟨1, 0, 0, 0⟩⟩

/-- The driver with this controller. -/
def Driver.single : Driver := ⟨fun _ => 0, fun _ => .idle, 1⟩

/-- `GET_DESCRIPTOR` for 18 bytes, from the device with the default address. -/
def Request.descriptor : Request := ⟨0, 0, 0x200000, 0x200100, 18⟩

/-- Two transfers that time out. -/
theorem control_transfers_keep_pool_twice :
    let a : Transfer := ⟨0, .descriptor, fun _ _ => active⟩
    let d := (a.call (a.call .single).2).2
    ∀ m, (d.controllers m).tdPoolUsed = (Driver.single.controllers m).tdPoolUsed := by
  intro a d
  exact (control_transfers_keep_pool (.cons (call_step .single a) (.cons (call_step _ a) (.nil d)))).2

/-! ### What a reported success says -/

/-- A descriptor that the host controller is done with, without an error. -/
def Retired (word : U32) : Prop := word &&& ctrlActive = 0 ∧ word &&& ctrlErrors = 0

/-- A reported success is one: the descriptors of the transfer are retired. -/
def Honest (d : Driver) (n : U8) (q : Request) (hc : Behaviour) : Prop :=
  (uhciControlTransfer d n q hc).1 = true →
    ∃ h, (queueTransfer (d.controllers n.toNat) q).1 = some h ∧
      ∀ i ∈ h.tds, Retired (((uhciControlTransfer d n q hc).2.controllers n.toNat).tds i).controlStatus

/-- The wait for a descriptor with the words `word` ends before read `k`: the read before it was the first
to see the descriptor inactive, or all reads of the wait have seen it active. -/
def WaitEnds (word : ℕ → U32) (k : ℕ) : Prop :=
  (∃ j < 1000000, (∀ i < j, word i &&& ctrlActive ≠ 0) ∧ word j &&& ctrlActive = 0 ∧ k = j + 1) ∨
    (∀ i < 1000000, word i &&& ctrlActive ≠ 0) ∧ k = 1000000

theorem waitEnds_iff : WaitEnds (fun j => hc j h.status) k ↔ k = waited hc h := by
  have hfalse (i : ℕ) : decide (hc i h.status &&& ctrlActive = 0) = false ↔ hc i h.status &&& ctrlActive ≠ 0 :=
    decide_eq_false_iff_not
  unfold waited WaitEnds
  rcases Lib.first_or_none (fun k => decide (hc k h.status &&& ctrlActive = 0)) 1000000 with
    ⟨j, hj, hlt, hdone⟩ | hnone
  · rw [Lib.countdown_of_first (k := 0) (by simpa using hlt) (by simpa using hdone) hj, Nat.zero_add]
    have hlt' : ∀ i < j, hc i h.status &&& ctrlActive ≠ 0 := fun i hi => (hfalse i).mp (hlt i hi)
    have hdone' := of_decide_eq_true hdone
    constructor
    · rintro (⟨j', -, hlt'', hdone'', rfl⟩ | ⟨hall, -⟩)
      · rcases Nat.lt_trichotomy j j' with hjj | rfl | hjj
        · exact absurd hdone' (hlt'' j hjj)
        · rfl
        · exact absurd hdone'' (hlt' j' hjj)
      · exact absurd hdone' (hall j hj)
    · rintro rfl
      exact .inl ⟨j, hj, hlt', hdone', rfl⟩
  · rw [Lib.countdown_of_none (k := 0) (by simpa using hnone), Nat.zero_add]
    have hnone' : ∀ i < 1000000, hc i h.status &&& ctrlActive ≠ 0 := fun i hi => (hfalse i).mp (hnone i hi)
    constructor
    · rintro (⟨j, hj, -, hdone, -⟩ | ⟨-, rfl⟩)
      · exact absurd hdone (hnone' j hj)
      · rfl
    · rintro rfl
      exact .inr ⟨hnone', rfl⟩

theorem freeTd_tds (c : Controller) (i : ℕ) : (uhciFreeTd c i).tds = c.tds := by
  unfold uhciFreeTd
  split <;> rfl

theorem cleanUp_tds (c : Controller) (h : Chain) : (c.cleanUp h).tds = c.tds := by
  unfold Controller.cleanUp
  simp only
  rw [freeTd_tds]
  cases h.data with
  | none => rw [freeTd_tds]
  | some i => rw [freeTd_tds, freeTd_tds]

/-- The result of a call that queues a chain, and the words it leaves in the descriptors. -/
theorem controlTransfer_of_chain (hc : Behaviour) (hn : n.toNat < d.count)
    (hq : (queueTransfer (d.controllers n.toNat) q).1 = some h) :
    (uhciControlTransfer d n q hc).1 = decide (hc (waited hc h) h.status &&& ctrlErrors = 0) ∧
      ∀ i ∈ h.tds, (((uhciControlTransfer d n q hc).2.controllers n.toNat).tds i).controlStatus =
        hc (waited hc h) i := by
  unfold uhciControlTransfer
  rw [if_neg (not_le.mpr hn)]
  split
  · next c hq' =>
      rw [hq'] at hq
      cases hq
  · next h' c hq' =>
      rw [hq'] at hq
      obtain rfl := Option.some_inj.mp hq
      refine ⟨rfl, fun i hi => ?_⟩
      rw [set_controllers, if_pos rfl, cleanUp_tds]
      exact congrArg Td.controlStatus (if_pos hi)

theorem controlTransfer_of_none (hq : (queueTransfer (d.controllers n.toNat) q).1 = none) :
    (uhciControlTransfer d n q hc).1 = false := by
  unfold uhciControlTransfer
  split_ifs
  · rfl
  · split
    · rfl
    · next hq' =>
        rw [hq'] at hq
        cases hq

/-- **When a reported success is one.** With the descriptors `h` taken from the front of the pool and `k` the
read that follows the wait: that read sees an error in the status descriptor, or all of them retired. -/
theorem control_transfer_honest_iff (d : Driver) (n : U8) (q : Request) (hc : Behaviour) :
    Honest d n q hc ↔ (n.toNat < d.count → ∀ h k, chainOf (d.controllers n.toNat).freeTds q.dataLen = some h →
      WaitEnds (fun j => hc j h.status) k → hc k h.status &&& ctrlErrors ≠ 0 ∨ ∀ i ∈ h.tds, Retired (hc k i)) := by
  rw [← queueTransfer_fst]
  constructor
  · intro hhonest hn h k hq hk
    obtain rfl := waitEnds_iff.mp hk
    obtain ⟨hres, hword⟩ := controlTransfer_of_chain hc hn hq
    refine or_iff_not_imp_left.mpr fun hno i hi => ?_
    obtain ⟨h', hq', hret⟩ := hhonest (hres.trans (decide_eq_true (not_not.mp hno)))
    obtain rfl := Option.some_inj.mp (hq.symm.trans hq')
    exact hword i hi ▸ hret i hi
  · intro hcond hok
    have hn : n.toNat < d.count := by
      by_contra hn
      rw [uhciControlTransfer, if_pos (not_lt.mp hn)] at hok
      cases hok
    cases hq : (queueTransfer (d.controllers n.toNat) q).1 with
    | none =>
        rw [controlTransfer_of_none hq] at hok
        cases hok
    | some h =>
        obtain ⟨hres, hword⟩ := controlTransfer_of_chain hc hn hq
        refine ⟨h, rfl, fun i hi => ?_⟩
        rcases hcond hn h _ hq (waitEnds_iff.mpr rfl) with herr | hret
        · exact absurd (of_decide_eq_true (hres.symm.trans hok)) herr
        · exact (hword i hi).symm ▸ hret i hi

/-- A device that does not answer: the setup descriptor is stalled after its retries, and the host
controller goes no further. -/
def unanswered : Behaviour := fun _ i => if i = 0 then 0x00440000 else active

/-- The transfer times out and is reported as a success. -/
theorem control_transfer_not_honest : ¬Honest .single 0 .descriptor unanswered := by
  have hq : (queueTransfer (Driver.single.controllers 0) .descriptor).1 = some ⟨0, some 2, 1⟩ := by
    rw [queueTransfer_fst]
    rfl
  have hk : waited unanswered ⟨0, some 2, 1⟩ = 1000000 :=
    (waitEnds_iff.mp (.inr ⟨fun _ _ => by show active &&& ctrlActive ≠ 0; decide, rfl⟩)).symm
  obtain ⟨hres, hword⟩ := controlTransfer_of_chain (d := .single) (n := 0) unanswered Nat.one_pos hq
  rw [hk] at hres hword
  intro hhonest
  obtain ⟨h, hh, hret⟩ := hhonest (hres.trans (by show decide (active &&& ctrlErrors = 0) = true; decide))
  obtain rfl := Option.some_inj.mp (hq.symm.trans hh)
  have hactive := (hret 1 (by decide)).1
  rw [hword 1 (by decide)] at hactive
  exact absurd hactive (by show active &&& ctrlActive ≠ 0; decide)

end BloodKernel.Uhci
