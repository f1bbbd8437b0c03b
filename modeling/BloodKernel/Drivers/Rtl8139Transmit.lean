import BloodKernel.Kernel.Types
import BloodKernel.Lib.Descriptors
import BloodKernel.Lib.Flat
import BloodKernel.Lib.Run

set_option autoImplicit false

/-!
# Sending on the RTL8139

`rtl8139_send_packet` waits for `TSD_OWN` of the next of four descriptors, copies the packet into its buffer byte by
byte, and writes the length into `TSD`, which clears the bit. The chip takes the descriptors in turn, reads the bytes
at `TSAD` while the bit is clear, and sets it again.

* `TxSystem`, `txStep`: the accesses of the driver and of the chip, and those of other code, in any order;
* `txQueue`: a queue of at most four packets; `TxInv`, `TxInv.step`: the descriptors hold the packets of the queue;
* **`rtl8139_transmits_iff`**: driver and chip are that queue in all orders of their accesses, exactly when `TSAD0` to
  `TSAD3` are where the buffers are.
-/

namespace BloodKernel.Rtl8139

open Lib

def txBufferSize : ℕ := 1536

def txDescriptors : ℕ := 4

instance neZero_txDescriptors : NeZero txDescriptors := ⟨by decide⟩

def tsdOwn : U32 := 0x2000

def tsdSize : U32 := 0x1FFF

/-- The physical addresses of the four `tx_buffers`, each in a page of its own, and those in `TSAD0` to `TSAD3`. -/
structure TxAddresses where
  buffers : Fin txDescriptors → ℕ
  tsad : Fin txDescriptors → ℕ
  apart : ∀ i j, i ≠ j → Apart (buffers i) txBufferSize (buffers j) txBufferSize

def TxAddresses.InBuffers (x : TxAddresses) (a : ℕ) : Prop := ∃ i, x.buffers i ≤ a ∧ a < x.buffers i + txBufferSize

instance decidableInBuffers (x : TxAddresses) (a : ℕ) : Decidable (x.InBuffers a) :=
  inferInstanceAs (Decidable (∃ i, x.buffers i ≤ a ∧ a < x.buffers i + txBufferSize))

/-- Where the driver is in `rtl8139_send_packet`. -/
inductive TxPc
  | idle
  /-- In the loop, before the test of `timeout`. -/
  | poll (data : List U8) (timeout : ℕ)
  /-- Before the read of `TSD` that follows the loop. -/
  | check (data : List U8)
  /-- Before the store of byte `i`, or, behind the last byte, before the write of `TSD`. -/
  | copy (data : List U8) (i : ℕ)

/-- `next` is the descriptor that the chip works on, `fifo` what it has read of its packet. -/
structure TxSystem where
  memory : ℕ → U8
  initialized : Bool
  txCurrent : Fin txDescriptors
  pc : TxPc
  tsd : Fin txDescriptors → U32
  next : Fin txDescriptors
  fifo : List U8

/-- A call; the next access of the driver; the chip reads a byte; it is done with a packet, and sets the bits of the
status; other code stores a byte. -/
inductive TxAct
  | send (data : List U8)
  | driver
  | fetch
  | done (status : U32)
  | other (a : ℕ) (v : U8)

/-- `accepted` and `refused` are the ends of calls that return 1 and 0. -/
inductive TxSeen
  | nothing
  | accepted (data : List U8)
  | refused (data : List U8)
  | sent (packet : List U8)
  deriving DecidableEq

variable (x : TxAddresses)

/-- The next access of the driver. -/
def txDriver (s : TxSystem) : Option (TxSeen × TxSystem) :=
  match s.pc with
  | .idle => none
  | .poll data 0 => some (.nothing, { s with pc := .check data })
  | .poll data (timeout + 1) =>
      some (.nothing, { s with pc := if s.tsd s.txCurrent &&& tsdOwn = 0 then .poll data timeout else .check data })
  | .check data =>
      if s.tsd s.txCurrent &&& tsdOwn = 0 then some (.refused data, { s with pc := .idle })
      else some (.nothing, { s with pc := .copy data 0 })
  | .copy data i =>
      if h : i < data.length then
        some (.nothing, { s with
          memory := Function.update s.memory (x.buffers s.txCurrent + i) data[i], pc := .copy data (i + 1) })
      else
        some (.accepted data, { s with
          tsd := Function.update s.tsd s.txCurrent (BitVec.ofNat 32 data.length)
          txCurrent := ahead s.txCurrent 1
          pc := .idle })

/-- The number of bytes that the chip reads for its descriptor. -/
def TxSystem.size (s : TxSystem) (i : Fin txDescriptors) : ℕ := (s.tsd i &&& tsdSize).toNat

/-- One step of one of the parties. `length` is a `u16`. -/
def txStep (s : TxSystem) : TxAct → Option (TxSeen × TxSystem)
  | .send data =>
      match s.pc with
      | .idle =>
          if 2 ^ 16 ≤ data.length then none
          else if s.initialized = false ∨ txBufferSize < data.length then some (.refused data, s)
          else some (.nothing, { s with pc := .poll data 1000000 })
      | _ => none
  | .driver => txDriver x s
  | .fetch =>
      if s.tsd s.next &&& tsdOwn = 0 ∧ s.fifo.length < s.size s.next then
        some (.nothing, { s with fifo := s.fifo ++ [s.memory (x.tsad s.next + s.fifo.length)] })
      else none
  | .done status =>
      if s.tsd s.next &&& tsdOwn = 0 ∧ s.fifo.length = s.size s.next then
        some (.sent s.fifo, { s with
          tsd := Function.update s.tsd s.next (status ||| tsdOwn), next := ahead s.next 1, fifo := [] })
      else none
  | .other a v =>
      if x.InBuffers a then none else some (.nothing, { s with memory := Function.update s.memory a v })

/-- After `rtl8139_init`: the reset of the chip has set `TSD_OWN` of all descriptors. -/
def txBoot (memory : ℕ → U8) : TxSystem := ⟨memory, true, 0, .idle, fun _ => tsdOwn, 0, []⟩

/-- A queue of four packets. A packet that is too long is refused, and any packet while the queue is full. -/
def txQueue (q : List (List U8)) (e : TxSeen) : Option (Unit × List (List U8)) :=
  match e with
  | .nothing => some ((), q)
  | .accepted data => if data.length ≤ txBufferSize ∧ q.length < txDescriptors then some ((), q ++ [data]) else none
  | .refused data => if txBufferSize < data.length ∨ q.length = txDescriptors then some ((), q) else none
  | .sent packet => if q.head? = some packet then some ((), q.tail) else none

def txSeen (es : List (TxAct × TxSeen)) : List (TxSeen × Unit) := es.map fun e => (e.2, ())

/-! ## The descriptors -/

/-- The packet that the chip has yet to send from the buffer at `a`, by its `TSD`. -/
def txHeld (m : ℕ → U8) (a : ℕ) (tsd : U32) : Option (List U8) :=
  if tsd &&& tsdOwn = 0 then some (readAt m a (tsd &&& tsdSize).toNat) else none

def txSlot (s : TxSystem) (i : Fin txDescriptors) : Option (List U8) := txHeld s.memory (x.buffers i) (s.tsd i)

/-- What the driver has made sure of, and copied. -/
def TxPlace (s : TxSystem) : Prop :=
  match s.pc with
  | .idle => True
  | .poll data _ | .check data => data.length ≤ txBufferSize
  | .copy data i => data.length ≤ txBufferSize ∧ i ≤ data.length ∧ s.tsd s.txCurrent &&& tsdOwn ≠ 0 ∧
      readAt s.memory (x.buffers s.txCurrent) i = data.take i

/-- The descriptors hold the queue, and the chip has read the beginning of its first packet. -/
structure TxInv (s : TxSystem) (q : List (List U8)) : Prop where
  initialized : s.initialized = true
  holds : Holds (txSlot x s) s.next s.txCurrent q
  short : ∀ p ∈ q, p.length ≤ txBufferSize
  fifo : s.fifo <+: q.headD []
  place : TxPlace x s

variable {x} {s t : TxSystem} {q : List (List U8)} {r : TxSeen} {i : Fin txDescriptors} {v : U32} {data : List U8}

theorem and_tsdOwn_eq_zero : v &&& tsdOwn = 0 ↔ v.getLsbD 13 = false :=
  and_bit_eq_zero (i := 13) (by decide)

theorem or_tsdOwn_ne_zero (v : U32) : (v ||| tsdOwn) &&& tsdOwn ≠ 0 := by
  rw [ne_eq, and_tsdOwn_eq_zero, BitVec.getLsbD_or]
  simp [tsdOwn]

theorem length_tsdOwn (h : data.length ≤ txBufferSize) : BitVec.ofNat 32 data.length &&& tsdOwn = 0 := by
  rw [and_tsdOwn_eq_zero, BitVec.getLsbD_ofNat, Nat.testBit_lt_two_pow (h.trans_lt (by decide)), Bool.and_false]

theorem length_tsdSize (h : data.length ≤ txBufferSize) :
    (BitVec.ofNat 32 data.length &&& tsdSize).toNat = data.length := by
  have hlt : data.length < 2 ^ 13 := h.trans_lt (by decide)
  have hmask : tsdSize.toNat = 2 ^ 13 - 1 := rfl
  rw [BitVec.toNat_and, BitVec.toNat_ofNat, hmask, Nat.and_two_pow_sub_one_eq_mod]
  omega

theorem txSlot_eq_none : txSlot x s i = none ↔ s.tsd i &&& tsdOwn ≠ 0 := by
  unfold txSlot txHeld
  split_ifs with h
  · exact iff_of_false nofun (not_not.mpr h)
  · exact iff_of_true rfl h

theorem TxInv.size_le (h : TxInv x s q) (hi : s.tsd i &&& tsdOwn = 0) : s.size i ≤ txBufferSize := by
  have hslot : txSlot x s i = some (readAt s.memory (x.buffers i) (s.size i)) := if_pos hi
  have hshort := h.short _ (h.holds.mem hslot)
  rwa [length_readAt] at hshort

/-- A store outside of the buffers with a packet leaves the packets alone. -/
theorem TxInv.txSlot_store (h : TxInv x s q) {a : ℕ} (w : U8)
    (ha : ∀ i, s.tsd i &&& tsdOwn = 0 → ¬(x.buffers i ≤ a ∧ a < x.buffers i + txBufferSize)) :
    txSlot x { s with memory := Function.update s.memory a w } = txSlot x s := by
  funext i
  unfold txSlot txHeld
  by_cases hi : s.tsd i &&& tsdOwn = 0
  · rw [if_pos hi, if_pos hi]
    refine congrArg some (readAt_congr fun k hk => Function.update_of_ne (fun he => ha i hi ?_) _ _)
    have hsize : s.size i ≤ txBufferSize := h.size_le hi
    have hk' : k < s.size i := hk
    omega
  · rw [if_neg hi, if_neg hi]

theorem txSlot_update (x : TxAddresses) (s : TxSystem) (i : Fin txDescriptors) (v : U32) :
    txSlot x { s with tsd := Function.update s.tsd i v } =
      Function.update (txSlot x s) i (txHeld s.memory (x.buffers i) v) := by
  funext j
  simp only [txSlot]
  by_cases hj : j = i
  · subst hj
    rw [Function.update_self, Function.update_self]
  · rw [Function.update_of_ne hj, Function.update_of_ne hj]
    rfl

theorem txHeld_length {m : ℕ → U8} {a : ℕ} (hshort : data.length ≤ txBufferSize)
    (hdata : readAt m a data.length = data) : txHeld m a (BitVec.ofNat 32 data.length) = some data := by
  rw [txHeld, if_pos (length_tsdOwn hshort), length_tsdSize hshort, hdata]

theorem txHeld_own (m : ℕ → U8) (a : ℕ) (v : U32) : txHeld m a (v ||| tsdOwn) = none :=
  if_neg (or_tsdOwn_ne_zero v)

theorem prefix_headD_concat {f p : List U8} (h : f <+: q.headD []) : f <+: (q ++ [p]).headD [] := by
  cases q with
  | nil =>
      rw [List.prefix_nil.mp h]
      exact List.nil_prefix
  | cons p' q => exact h

/-! ## One step -/

theorem TxInv.send (h : TxInv x s q) (hstep : txStep x s (.send data) = some (r, t)) :
    ∃ q', txQueue q r = some ((), q') ∧ TxInv x t q' := by
  cases hpc : s.pc with
  | idle =>
      simp only [txStep, hpc] at hstep
      split_ifs at hstep with hlong hrefuse
      · cases hstep
        have htoo : txBufferSize < data.length := by simpa [h.initialized] using hrefuse
        exact ⟨q, if_pos (Or.inl htoo), h⟩
      · cases hstep
        exact ⟨q, rfl, h.initialized, h.holds, h.short, h.fifo, Nat.not_lt.mp (not_or.mp hrefuse).2⟩
  | poll | check | copy =>
      simp only [txStep, hpc] at hstep
      cases hstep

/-- The bits of `TSD` that the driver polls tell whether the queue is full. -/
theorem TxInv.driver (h : TxInv x s q) (hstep : txDriver x s = some (r, t)) :
    ∃ q', txQueue q r = some ((), q') ∧ TxInv x t q' := by
  have hplace := h.place
  unfold TxPlace at hplace
  cases hpc : s.pc with
  | idle =>
      simp only [txDriver, hpc] at hstep
      cases hstep
  | poll data timeout =>
      rw [hpc] at hplace
      cases timeout with
      | zero =>
          simp only [txDriver, hpc] at hstep
          cases hstep
          exact ⟨q, rfl, h.initialized, h.holds, h.short, h.fifo, hplace⟩
      | succ timeout =>
          simp only [txDriver, hpc] at hstep
          cases hstep
          refine ⟨q, rfl, h.initialized, h.holds, h.short, h.fifo, ?_⟩
          by_cases hown : s.tsd s.txCurrent &&& tsdOwn = 0
          · simpa only [TxPlace, if_pos hown] using hplace
          · simpa only [TxPlace, if_neg hown] using hplace
  | check data =>
      rw [hpc] at hplace
      simp only [txDriver, hpc] at hstep
      split_ifs at hstep with hown
      · cases hstep
        have hfull : q.length = txDescriptors :=
          h.holds.eq_of_filled fun hnone => (txSlot_eq_none.mp hnone) hown
        exact ⟨q, if_pos (Or.inr hfull), h.initialized, h.holds, h.short, h.fifo, trivial⟩
      · cases hstep
        exact ⟨q, rfl, h.initialized, h.holds, h.short, h.fifo, hplace, Nat.zero_le _, hown, rfl⟩
  | copy data i =>
      rw [hpc] at hplace
      obtain ⟨hshort, hi, hown, hcopied⟩ := hplace
      simp only [txDriver, hpc] at hstep
      split_ifs at hstep with hlt
      · cases hstep
        refine ⟨q, rfl, h.initialized, ?_, h.short, h.fifo, hshort, hlt, hown, ?_⟩
        · have hslot := h.txSlot_store (a := x.buffers s.txCurrent + i) data[i] fun j hj hin => ?_
          · exact hslot ▸ h.holds
          · have hne : s.txCurrent ≠ j := fun he => hown (he ▸ hj)
            have hapart := x.apart _ _ hne
            unfold Apart at hapart
            omega
        · rw [List.take_succ_eq_append_getElem hlt, ← hcopied]
          exact readAt_update_succ _ _ _ _
      · cases hstep
        have hlen : i = data.length := le_antisymm hi (Nat.not_lt.mp hlt)
        rw [hlen, List.take_length] at hcopied
        have hempty : txSlot x s s.txCurrent = none := txSlot_eq_none.mpr hown
        refine ⟨q ++ [data], if_pos ⟨hshort, h.holds.lt_of_empty hempty⟩, h.initialized, ?_, ?_,
          prefix_headD_concat h.fifo, trivial⟩
        · have hslot := txSlot_update x s s.txCurrent (BitVec.ofNat 32 data.length)
          rw [txHeld_length hshort hcopied] at hslot
          exact hslot ▸ h.holds.push hempty data
        · intro p hp
          rcases List.mem_append.mp hp with hp | hp
          · exact h.short p hp
          · rw [List.mem_singleton.mp hp]
            exact hshort

theorem TxInv.head (h : TxInv x s q) (hown : s.tsd s.next &&& tsdOwn = 0) :
    q.head? = some (readAt s.memory (x.buffers s.next) (s.size s.next)) := by
  rw [← h.holds.slot_head]
  exact if_pos hown

theorem TxInv.fetch (hx : x.tsad = x.buffers) (h : TxInv x s q) (hstep : txStep x s .fetch = some (r, t)) :
    ∃ q', txQueue q r = some ((), q') ∧ TxInv x t q' := by
  simp only [txStep] at hstep
  split_ifs at hstep with hfetch
  cases hstep
  obtain ⟨hown, hlt⟩ := hfetch
  have hfifo := h.fifo
  rw [List.headD_eq_head?_getD, h.head hown, Option.getD_some, List.prefix_iff_eq_take, take_readAt _ _ hlt.le] at hfifo
  refine ⟨q, rfl, h.initialized, h.holds, h.short, ?_, h.place⟩
  rw [List.headD_eq_head?_getD, h.head hown, Option.getD_some, List.prefix_iff_eq_take, List.length_append,
    List.length_singleton, take_readAt _ _ hlt, hx]
  exact (congrArg (· ++ _) hfifo).trans (readAt_add s.memory (x.buffers s.next) s.fifo.length 1).symm

theorem TxInv.done (h : TxInv x s q) (hstep : txStep x s (.done v) = some (r, t)) :
    ∃ q', txQueue q r = some ((), q') ∧ TxInv x t q' := by
  simp only [txStep] at hstep
  split_ifs at hstep with hdone
  cases hstep
  obtain ⟨hown, hlen⟩ := hdone
  have hhead := h.head hown
  have hfifo := h.fifo
  rw [List.headD_eq_head?_getD, hhead, Option.getD_some, List.prefix_iff_eq_take, hlen, take_readAt _ _ le_rfl] at hfifo
  obtain ⟨p, q, rfl⟩ : ∃ p q', q = p :: q' := by
    cases q with
    | nil => cases hhead
    | cons p q => exact ⟨p, q, rfl⟩
  refine ⟨q, if_pos (hhead.trans (congrArg some hfifo.symm)), h.initialized, ?_,
    fun p' hp' => h.short p' (List.mem_cons_of_mem _ hp'), List.nil_prefix, ?_⟩
  · have hslot := txSlot_update x s s.next (v ||| tsdOwn)
    rw [txHeld_own] at hslot
    exact hslot ▸ h.holds.pop
  · have hplace := h.place
    simp only [TxPlace] at hplace ⊢
    split at hplace
    · trivial
    · exact hplace
    · exact hplace
    · obtain ⟨hshort, hi, hfree, hcopied⟩ := hplace
      refine ⟨hshort, hi, ?_, hcopied⟩
      by_cases hat : s.txCurrent = s.next
      · rw [hat, Function.update_self]
        exact or_tsdOwn_ne_zero v
      · rwa [Function.update_of_ne hat]

theorem TxInv.other (h : TxInv x s q) {a : ℕ} {w : U8} (hstep : txStep x s (.other a w) = some (r, t)) :
    ∃ q', txQueue q r = some ((), q') ∧ TxInv x t q' := by
  simp only [txStep] at hstep
  split_ifs at hstep with hin
  cases hstep
  have hout : ∀ i, ¬(x.buffers i ≤ a ∧ a < x.buffers i + txBufferSize) := fun i hi => hin ⟨i, hi⟩
  refine ⟨q, rfl, h.initialized, h.txSlot_store w (fun i _ => hout i) ▸ h.holds, h.short, h.fifo, ?_⟩
  have hplace := h.place
  simp only [TxPlace] at hplace ⊢
  split at hplace
  · trivial
  · exact hplace
  · exact hplace
  · obtain ⟨hshort, hi, hfree, hcopied⟩ := hplace
    refine ⟨hshort, hi, hfree, hcopied ▸ readAt_congr fun k hk => Function.update_of_ne (fun he => ?_) _ _⟩
    exact hout s.txCurrent (by omega)

/-- **Each step is a step of the queue.** -/
theorem TxInv.step (hx : x.tsad = x.buffers) (h : TxInv x s q) {a : TxAct} (hstep : txStep x s a = some (r, t)) :
    ∃ q', txQueue q r = some ((), q') ∧ TxInv x t q' := by
  cases a with
  | send data => exact h.send hstep
  | driver => exact h.driver hstep
  | fetch => exact h.fetch hx hstep
  | done status => exact h.done hstep
  | other a w => exact h.other hstep

theorem txInv_boot (m : ℕ → U8) : TxInv x (txBoot m) [] where
  initialized := rfl
  holds := holds_nil (fun _ => txSlot_eq_none.mpr (or_tsdOwn_ne_zero 0)) 0
  short := nofun
  fifo := List.nil_prefix
  place := trivial

/-- Driver and chip are a queue, as far as a run shows. -/
def IsQueue (es : List (TxAct × TxSeen)) : Prop := ∃ q, Run txQueue [] (txSeen es) q

theorem isQueue_of_run (hx : x.tsad = x.buffers) {m : ℕ → U8} {es : List (TxAct × TxSeen)}
    (h : Run (txStep x) (txBoot m) es s) : IsQueue es := by
  obtain ⟨q, hq, -⟩ := h.simulate (TxInv x) (fun e => (e.2, ())) (fun _ _ _ _ _ hi hstep => hi.step hx hstep)
    (txInv_boot m)
  exact ⟨q, hq⟩

/-! ## Other addresses -/

/-- No packet is on its way. -/
structure TxQuiet (s : TxSystem) : Prop where
  initialized : s.initialized = true
  pc : s.pc = .idle
  own : ∀ i, s.tsd i &&& tsdOwn ≠ 0
  next : s.next = s.txCurrent
  fifo : s.fifo = []

theorem txQuiet_boot (m : ℕ → U8) : TxQuiet (txBoot m) := ⟨rfl, rfl, fun _ => or_tsdOwn_ne_zero 0, rfl, rfl⟩

/-- The events of a call that sends the byte `b`, until the chip has sent `v`. -/
def txRound (b v : U8) : List (TxAct × TxSeen) :=
  [(.send [b], .nothing), (.driver, .nothing), (.driver, .nothing), (.driver, .nothing), (.driver, .accepted [b]),
    (.fetch, .nothing), (.done 0, .sent [v])]

def TxSystem.afterRound (s : TxSystem) (x : TxAddresses) (b : U8) : TxSystem :=
  { s with
    memory := Function.update s.memory (x.buffers s.txCurrent) b
    tsd := Function.update (Function.update s.tsd s.txCurrent 1) s.next (0 ||| tsdOwn)
    txCurrent := ahead s.txCurrent 1
    next := ahead s.next 1
    fifo := [] }

theorem TxQuiet.afterRound (h : TxQuiet s) (b : U8) : TxQuiet (s.afterRound x b) where
  initialized := h.initialized
  pc := h.pc
  own j := by
    simp only [TxSystem.afterRound, h.next]
    by_cases hj : j = s.txCurrent
    · rw [hj, Function.update_self]
      exact or_tsdOwn_ne_zero 0
    · rw [Function.update_of_ne hj, Function.update_of_ne hj]
      exact h.own j
  next := congrArg (ahead · 1) h.next
  fifo := rfl

theorem TxQuiet.run_round (h : TxQuiet s) (b : U8) : Run (txStep x) s
    (txRound b ((s.afterRound x b).memory (x.tsad s.txCurrent))) (s.afterRound x b) := by
  have hown : s.tsd s.txCurrent &&& tsdOwn ≠ 0 := h.own s.txCurrent
  have hcall : txStep x s (.send [b]) = some (.nothing, { s with pc := .poll [b] 1000000 }) := by
    simp [txStep, h.pc, h.initialized, txBufferSize]
  have hpoll : txStep x { s with pc := .poll [b] 1000000 } .driver = some (.nothing, { s with pc := .check [b] }) := by
    simp only [txStep, txDriver, if_neg hown]
  have hcheck : txStep x { s with pc := .check [b] } .driver = some (.nothing, { s with pc := .copy [b] 0 }) := by
    simp only [txStep, txDriver, if_neg hown]
  -- the state that the write of the length leads to
  obtain ⟨t, ht⟩ : ∃ t : TxSystem, t = { s with
      memory := Function.update s.memory (x.buffers s.txCurrent) b
      tsd := Function.update s.tsd s.txCurrent 1
      txCurrent := ahead s.txCurrent 1
      pc := .idle } := ⟨_, rfl⟩
  have hstart : txStep x { s with
      memory := Function.update s.memory (x.buffers s.txCurrent) b, pc := .copy [b] 1 } .driver =
        some (.accepted [b], t) := by
    rw [ht]
    rfl
  have htsd : t.tsd t.next = 1 := by
    rw [ht]
    exact (congrArg _ h.next).trans (Function.update_self _ _ _)
  have hfetch : txStep x t .fetch = some (.nothing, { t with fifo := [t.memory (x.tsad s.txCurrent)] }) := by
    have hfifo : t.fifo = [] := by
      rw [ht]
      exact h.fifo
    have hnext : t.next = s.txCurrent := by
      rw [ht]
      exact h.next
    have hsize : t.tsd t.next &&& tsdOwn = 0 ∧ t.fifo.length < t.size t.next := by
      rw [TxSystem.size, htsd, hfifo]
      exact ⟨rfl, Nat.zero_lt_one⟩
    rw [txStep, if_pos hsize, hfifo, hnext]
    rfl
  have hdone : txStep x { t with fifo := [t.memory (x.tsad s.txCurrent)] } (.done 0) =
      some (.sent [t.memory (x.tsad s.txCurrent)], s.afterRound x b) := by
    have hsize : t.tsd t.next &&& tsdOwn = 0 ∧ 1 = t.size t.next := by
      rw [TxSystem.size, htsd]
      exact ⟨rfl, rfl⟩
    have hend : { t with tsd := Function.update t.tsd t.next (0 ||| tsdOwn), next := ahead t.next 1, fifo := [] } =
        s.afterRound x b := by
      rw [ht, TxSystem.afterRound, ← h.pc]
    exact (if_pos hsize).trans (congrArg (fun u => some (_, u)) hend)
  have hmem : t.memory = (s.afterRound x b).memory := by rw [ht, TxSystem.afterRound]
  rw [hmem] at hfetch hdone
  exact .cons hcall (.cons hpoll (.cons hcheck (.cons rfl (.cons hstart (.cons hfetch (.cons hdone (.nil _)))))))

theorem queue_round {b v : U8} (h : Run txQueue [] (txSeen (txRound b v)) q) : v = b ∧ q = [] := by
  simpa [txRound, txSeen, run_cons, txQueue, txBufferSize, txDescriptors, eq_comm] using h

theorem exists_rounds (x : TxAddresses) (n : ℕ) : ∃ es s, Run (txStep x) (txBoot fun _ => 0) es s ∧ TxQuiet s ∧
    s.txCurrent = ahead 0 n ∧ ∀ q, Run txQueue [] (txSeen es) q → q = [] := by
  induction n with
  | zero => exact ⟨[], _, .nil _, txQuiet_boot _, (ahead_zero _).symm, fun q hq => (run_nil.mp hq).symm⟩
  | succ n ih =>
      obtain ⟨es, s, hs, hquiet, hcur, hnil⟩ := ih
      refine ⟨es ++ _, _, hs.append (hquiet.run_round 0), hquiet.afterRound 0, ?_, fun q hq => ?_⟩
      · show ahead s.txCurrent 1 = _
        rw [hcur, ahead_ahead]
      · rw [txSeen, List.map_append] at hq
        obtain ⟨q', h₁, h₂⟩ := run_append.mp hq
        rw [hnil q' h₁] at h₂
        exact (queue_round h₂).2

/-- **Transmission.** In all orders of the accesses of the driver, of the chip, and of other code to the rest of the
memory, the calls that return and the packets that the chip sends are those of a queue of four packets: no packet is
lost, changed, or sent twice or out of order, and only a packet that is too long, or any while four wait, is refused.
This is so exactly when the chip looks for the buffers where they are. -/
theorem rtl8139_transmits_iff (x : TxAddresses) :
    (∀ m es s, Run (txStep x) (txBoot m) es s → IsQueue es) ↔ x.tsad = x.buffers := by
  refine ⟨fun h => funext fun i => ?_, fun hx m es s => isQueue_of_run hx⟩
  by_contra hne
  obtain ⟨es, s, hs, hquiet, hcur, hnil⟩ := exists_rounds x i
  have hi : s.txCurrent = i := by
    rw [hcur]
    exact Fin.ext ((congrArg (· % txDescriptors) (Nat.zero_add _)).trans (Nat.mod_eq_of_lt i.isLt))
  -- a byte that differs from the one at the address in TSAD
  have hround := hquiet.run_round (x := x) (s.memory (x.tsad i) + 1)
  obtain ⟨q, hq⟩ := h _ _ _ (hs.append hround)
  rw [txSeen, List.map_append] at hq
  obtain ⟨q', h₁, h₂⟩ := run_append.mp hq
  rw [hnil q' h₁] at h₂
  have hbyte := (queue_round h₂).1
  rw [TxSystem.afterRound, hi] at hbyte
  simp only at hbyte
  rw [Function.update_of_ne hne] at hbyte
  bv_omega

/-- The frames of four pages. -/
def frames (i : Fin txDescriptors) : ℕ := 0x201000 + 0x1000 * i

theorem apart_frames (i j : Fin txDescriptors) (h : i ≠ j) :
    Apart (frames i) txBufferSize (frames j) txBufferSize := by
  have hne : i.val ≠ j.val := fun he => h (Fin.ext he)
  unfold Apart frames txBufferSize
  omega

/-- The buffers are pages. With their physical addresses in `TSAD0` to `TSAD3` packets are sent as they should be; with
the virtual ones, which `rtl8139_init` writes, they are not. -/
theorem rtl8139_transmits_iff_pages :
    (∀ m es s, Run (txStep ⟨frames, frames, apart_frames⟩) (txBoot m) es s → IsQueue es) ∧
    ¬ ∀ m es s, Run (txStep ⟨frames, fun i => 0xD0002000 + 0x1000 * i, apart_frames⟩) (txBoot m) es s → IsQueue es := by
  refine ⟨(rtl8139_transmits_iff ⟨frames, frames, apart_frames⟩).mpr rfl, fun h => ?_⟩
  have hsame := (rtl8139_transmits_iff ⟨frames, fun i => 0xD0002000 + 0x1000 * i, apart_frames⟩).mp h
  exact absurd (congrFun hsame 0) (by decide)

end BloodKernel.Rtl8139
