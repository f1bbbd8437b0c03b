import BloodKernel.Kernel.Types
import BloodKernel.Lib.Descriptors
import BloodKernel.Lib.Flat
import BloodKernel.Lib.Run

set_option autoImplicit false

/-!
# The Ethernet controller

`arch/rt1170/enet.c` shares two rings of 32 descriptors with the controller. Bit 15 of the third word of a descriptor
says that its buffer holds a packet, and the bits below are the length.

* `Rings`: the rings and the buffers, one behind the other; `enetTx`, `enetRx`.
* `Sys`: driver and controller, with the packets that are on their way; `step`, `boot`.
* **`in_order_iff`**: all packets go through exactly when none is received by a call of `enet_rx`, and none sent is
  longer than a buffer.
-/

namespace BloodKernel.Enet

open Lib

def enetTxRingSz : ℕ := 32

def enetRxRingSz : ℕ := 32

def enetBufSz : ℕ := 1536

instance neZero_enetTxRingSz : NeZero enetTxRingSz := ⟨by decide⟩

instance neZero_enetRxRingSz : NeZero enetRxRingSz := ⟨by decide⟩

/-- `td2` and `rd2` are the words with the flag and the length, `txIdx` and `rxIdx` the indices of the driver, modulo
the size of the rings. The buffer of descriptor `i` begins at `enetBufSz * i`. -/
structure Rings where
  td2 : Fin enetTxRingSz → U32
  rd2 : Fin enetRxRingSz → U32
  txBuf : ℕ → U8
  rxBuf : ℕ → U8
  txIdx : Fin enetTxRingSz
  rxIdx : Fin enetRxRingSz

def enetInitDesc (s : Rings) : Rings := { s with td2 := fun _ => 0, rd2 := fun _ => 0 }

def EnetTxFree (s : Rings) : Prop := s.td2 s.txIdx &&& bit 15 = 0

def EnetRxReady (s : Rings) : Prop := s.rd2 s.rxIdx &&& bit 15 ≠ 0

instance decidableEnetTxFree (s : Rings) : Decidable (EnetTxFree s) := inferInstanceAs (Decidable (_ = _))

instance decidableEnetRxReady (s : Rings) : Decidable (EnetRxReady s) := inferInstanceAs (Decidable (_ ≠ _))

/-- What follows the wait for `EnetTxFree`. -/
def enetTx (s : Rings) (pkt : ℕ → U8) (len : U16) : Rings :=
  { s with
    txBuf := writeAt s.txBuf (enetBufSz * s.txIdx) (readAt pkt 0 len.toNat)
    td2 := Function.update s.td2 s.txIdx (bit 15 ||| len.setWidth 32)
    txIdx := ahead s.txIdx 1 }

/-- The length returned, and the bytes copied to the caller. -/
def enetRx (s : Rings) : (U16 × List U8) × Rings :=
  if ¬EnetRxReady s then ((0, []), s)
  else
    let len := (s.rd2 s.rxIdx &&& 0xFFFF).setWidth 16
    ((len, readAt s.rxBuf (enetBufSz * s.rxIdx) len.toNat),
      { s with rd2 := Function.update s.rd2 s.rxIdx 0, rxIdx := ahead s.rxIdx 1 })

/-! ## Driver and controller -/

abbrev Packet := List U8

/-- The word of a descriptor with a packet of length `n`. -/
def mark (n : ℕ) : U32 := bit 15 ||| BitVec.ofNat 32 n

/-- The packet that a descriptor holds, if its flag is set. -/
def slot {n : ℕ} (word : Fin n → U32) (buf : ℕ → U8) (i : Fin n) : Option Packet :=
  if word i &&& bit 15 = 0 then none else some (readAt buf (enetBufSz * i) (word i &&& 0x7FFF).toNat)

/-- The controller has its own indices. `received` are the packets that it has stored and no call has taken,
`queued` those given to `enet_tx` that it has not sent. -/
structure Sys where
  enet : Rings
  rxDev : Fin enetRxRingSz
  txDev : Fin enetTxRingSz
  received : List Packet
  queued : List Packet

/-- A packet is received, `enet_rx`, `enet_tx`, a packet is sent. -/
inductive Op
  | arrive (p : {p : Packet // p.length ≤ enetBufSz})
  | rx
  | tx (pkt : ℕ → U8) (len : U16)
  | sent

/-- `stored a n`: `enet_tx` has written the `n` bytes from `a` on. -/
inductive Res
  | arrived
  | received (len : U16) (copied : List U8)
  | stored (a n : ℕ)
  | sent (p : Packet)

/-- The controller stores a packet in its next buffer. -/
def Sys.arrive (s : Sys) (p : Packet) : Sys :=
  { s with
    enet := { s.enet with
      rxBuf := writeAt s.enet.rxBuf (enetBufSz * s.rxDev) p
      rd2 := Function.update s.enet.rd2 s.rxDev (mark p.length) }
    rxDev := ahead s.rxDev 1
    received := s.received ++ [p] }

/-- The controller sends a packet. -/
def Sys.sent (s : Sys) : Sys :=
  { s with
    enet := { s.enet with td2 := Function.update s.enet.td2 s.txDev 0 }
    txDev := ahead s.txDev 1
    queued := s.queued.tail }

def Sys.rx (s : Sys) : Sys := { s with enet := (enetRx s.enet).2, received := s.received.tail }

def Sys.tx (s : Sys) (pkt : ℕ → U8) (len : U16) : Sys :=
  { s with enet := enetTx s.enet pkt len, queued := s.queued ++ [readAt pkt 0 len.toNat] }

/-- The controller waits for a descriptor without a packet to receive, and for one with a packet to send. A call of
`enet_tx` waits for a free descriptor. -/
def step (s : Sys) : Op → Option (Res × Sys)
  | .arrive p => if s.enet.rd2 s.rxDev &&& bit 15 = 0 then some (.arrived, s.arrive p) else none
  | .rx => some (.received (enetRx s.enet).1.1 (enetRx s.enet).1.2, s.rx)
  | .tx pkt len =>
      if EnetTxFree s.enet then some (.stored (enetBufSz * s.enet.txIdx) len.toNat, s.tx pkt len) else none
  | .sent => (slot s.enet.td2 s.enet.txBuf s.txDev).map fun p => (.sent p, s.sent)

/-- After `enet_init`. -/
def boot (txBuf rxBuf : ℕ → U8) : Sys :=
  ⟨enetInitDesc ⟨fun _ => 0, fun _ => 0, txBuf, rxBuf, 0, 0⟩, 0, 0, [], []⟩

/-- `enet_rx` returns the oldest packet received, with its length and its bytes, and copies no more than a buffer;
`enet_tx` writes only inside the buffer of its descriptor; and the controller sends the oldest packet queued. -/
def Right (s : Sys) : Op × Res → Prop
  | (.rx, .received len copied) =>
      len = BitVec.ofNat 16 (s.received.headD []).length ∧ copied = s.received.headD [] ∧ copied.length ≤ enetBufSz
  | (.tx _ _, .stored a n) => enetBufSz * s.enet.txIdx ≤ a ∧ a + n ≤ enetBufSz * s.enet.txIdx + enetBufSz
  | (.sent, .sent p) => s.queued.head? = some p
  | _ => True

/-- `enet_rx` finds no packet, and `enet_tx` gets one that fits into a buffer. -/
def Fits (s : Sys) : Op × Res → Prop
  | (.rx, _) => s.received = []
  | (.tx _ len, _) => len.toNat ≤ enetBufSz
  | _ => True

/-- The flags and lengths in the descriptors tell what is on its way. -/
structure Inv (s : Sys) : Prop where
  rx : Holds (slot s.enet.rd2 s.enet.rxBuf) s.enet.rxIdx s.rxDev s.received
  tx : Holds (slot s.enet.td2 s.enet.txBuf) s.txDev s.enet.txIdx s.queued
  received : ∀ p ∈ s.received, p.length ≤ enetBufSz
  queued : ∀ p ∈ s.queued, p.length ≤ enetBufSz

variable {n : ℕ} {word : Fin n → U32} {buf : ℕ → U8} {i : Fin n} {p : Packet} {ps : List Packet} {s t : Sys} {r : Res}

/-! ## The words -/

theorem toNat_and_15 (v : U32) : (v &&& 0x7FFF).toNat = v.toNat % 2 ^ 15 := by
  rw [BitVec.toNat_and]
  exact Nat.and_two_pow_sub_one_eq_mod v.toNat 15

theorem toNat_and_16 (v : U32) : (v &&& 0xFFFF).toNat = v.toNat % 2 ^ 16 := by
  rw [BitVec.toNat_and]
  exact Nat.and_two_pow_sub_one_eq_mod v.toNat 16

/-- Of a word with the flag, the low half is not the length. -/
theorem toNat_low_half {v : U32} (h : v &&& bit 15 ≠ 0) :
    ((v &&& 0xFFFF).setWidth 16).toNat = 2 ^ 15 + (v &&& 0x7FFF).toNat := by
  rw [ne_eq, and_bit_eq_zero (by decide), Bool.not_eq_false, BitVec.getLsbD, Nat.testBit_eq_decide_div_mod_eq,
    decide_eq_true_iff] at h
  rw [BitVec.toNat_setWidth, toNat_and_16, toNat_and_15]
  omega

theorem mark_and_bit (n : ℕ) : mark n &&& bit 15 ≠ 0 := by
  rw [ne_eq, and_bit_eq_zero (by decide), mark, BitVec.or_comm, getLsbD_or_bit]
  simp

theorem mark_and_15 {n : ℕ} (h : n < 2 ^ 15) : (mark n &&& 0x7FFF).toNat = n := by
  have hbit : (bit 15).toNat = 2 ^ 15 := rfl
  have hsum : 2 ^ 15 ||| n = 2 ^ 15 + n := (Nat.two_pow_add_eq_or_of_lt h 1).symm
  have hn : n % 2 ^ 32 = n := Nat.mod_eq_of_lt (by omega)
  rw [toNat_and_15, mark, BitVec.toNat_or, hbit, BitVec.toNat_ofNat, hn, hsum, Nat.add_mod_left, Nat.mod_eq_of_lt h]

/-! ## The slots -/

theorem slot_eq_none : slot word buf i = none ↔ word i &&& bit 15 = 0 := by
  unfold slot
  split_ifs with h
  · exact iff_of_true rfl h
  · exact iff_of_false (fun hn => by cases hn) h

theorem slot_clear (word : Fin n → U32) (buf : ℕ → U8) (i : Fin n) :
    slot (Function.update word i 0) buf = Function.update (slot word buf) i none := by
  funext j
  by_cases hj : j = i
  · rw [hj, Function.update_self, slot_eq_none, Function.update_self]
    exact BitVec.zero_and
  · unfold slot
    rw [Function.update_of_ne hj, Function.update_of_ne hj]

/-- Storing a packet that fits fills its slot, and no other. -/
theorem slot_fill (hshort : ∀ j q, slot word buf j = some q → q.length ≤ enetBufSz) (hp : p.length ≤ enetBufSz) :
    slot (Function.update word i (mark p.length)) (writeAt buf (enetBufSz * i) p) =
      Function.update (slot word buf) i (some p) := by
  funext j
  by_cases hj : j = i
  · have hlt : p.length < 2 ^ 15 := hp.trans_lt (by decide)
    rw [hj, Function.update_self]
    unfold slot
    rw [Function.update_self, if_neg (mark_and_bit _), mark_and_15 hlt, readAt_writeAt]
  · rw [Function.update_of_ne hj]
    unfold slot
    rw [Function.update_of_ne hj]
    by_cases hmark : word j &&& bit 15 = 0
    · rw [if_pos hmark, if_pos hmark]
    · have hq : (word j &&& 0x7FFF).toNat ≤ enetBufSz := by
        rw [← length_readAt buf (enetBufSz * j) (word j &&& 0x7FFF).toNat]
        exact hshort j _ (if_neg hmark)
      have hapart : Apart (enetBufSz * i) p.length (enetBufSz * j) (word j &&& 0x7FFF).toNat := by
        have hne : (j : ℕ) ≠ i := fun he => hj (Fin.ext he)
        unfold enetBufSz Apart at *
        omega
      rw [if_neg hmark, if_neg hmark, readAt_writeAt_of_apart hapart]

/-! ## One step -/

theorem enetRx_of_nil (h : Inv s) (hnil : s.received = []) : enetRx s.enet = ((0, []), s.enet) := by
  have hslot := h.rx.slot_head
  rw [hnil, List.head?_nil, slot_eq_none] at hslot
  exact if_pos (not_not.mpr hslot)

/-- The length returned for a packet has the flag in it, and as many bytes are copied. They begin with the packet. -/
theorem enetRx_of_cons (h : Inv s) (hcons : s.received = p :: ps) :
    (enetRx s.enet).1.1.toNat = 2 ^ 15 + p.length ∧ (enetRx s.enet).1.2.length = 2 ^ 15 + p.length ∧
      (enetRx s.enet).1.2.take p.length = p ∧
      (enetRx s.enet).2 = { s.enet with
        rd2 := Function.update s.enet.rd2 s.enet.rxIdx 0, rxIdx := ahead s.enet.rxIdx 1 } := by
  have hslot := h.rx.slot_head
  rw [hcons, List.head?_cons] at hslot
  have hready : EnetRxReady s.enet := fun hfree => by
    rw [slot_eq_none.mpr hfree] at hslot
    cases hslot
  unfold slot at hslot
  rw [if_neg hready] at hslot
  have hp : readAt s.enet.rxBuf (enetBufSz * s.enet.rxIdx) (s.enet.rd2 s.enet.rxIdx &&& 0x7FFF).toNat = p :=
    Option.some_inj.mp hslot
  have hlen : (s.enet.rd2 s.enet.rxIdx &&& 0x7FFF).toNat = p.length := by rw [← hp, length_readAt]
  rw [hlen] at hp
  unfold enetRx
  rw [if_neg (not_not.mpr hready)]
  dsimp only
  rw [length_readAt, toNat_low_half hready, hlen, take_readAt _ _ (Nat.le_add_left _ _)]
  exact ⟨rfl, rfl, hp, rfl⟩

/-- **One step** of a system in order: it is right exactly when it fits. -/
theorem right_iff_fits (h : Inv s) {o : Op} (hstep : step s o = some (r, t)) : Right s (o, r) ↔ Fits s (o, r) := by
  cases o with
  | arrive p => exact Iff.rfl
  | rx =>
      cases hstep
      cases hr : s.received with
      | nil =>
          refine iff_of_true ?_ hr
          rw [enetRx_of_nil h hr]
          unfold Right
          rw [hr]
          exact ⟨rfl, rfl, Nat.zero_le _⟩
      | cons p ps =>
          refine iff_of_false ?_ fun hnil => List.cons_ne_nil p ps (hr.symm.trans hnil)
          rintro ⟨-, -, hle⟩
          rw [(enetRx_of_cons h hr).2.1] at hle
          unfold enetBufSz at hle
          omega
  | tx pkt len =>
      obtain ⟨-, hsome⟩ := Option.ite_none_right_eq_some.mp hstep
      cases hsome
      unfold Right Fits
      dsimp only
      omega
  | sent =>
      obtain ⟨p, hp, hsome⟩ := Option.map_eq_some_iff.mp hstep
      cases hsome
      exact iff_of_true (h.tx.slot_head.symm.trans hp) trivial

theorem Inv.arrive (h : Inv s) (hfree : s.enet.rd2 s.rxDev &&& bit 15 = 0) (hp : p.length ≤ enetBufSz) :
    Inv (s.arrive p) where
  rx := by
    show Holds (slot (Function.update s.enet.rd2 s.rxDev (mark p.length))
      (writeAt s.enet.rxBuf (enetBufSz * s.rxDev) p)) s.enet.rxIdx (ahead s.rxDev 1) (s.received ++ [p])
    rw [slot_fill (fun j q hq => h.received q (h.rx.mem hq)) hp]
    exact h.rx.push (slot_eq_none.mpr hfree) p
  tx := h.tx
  received := List.forall_mem_append.mpr ⟨h.received, List.forall_mem_singleton.mpr hp⟩
  queued := h.queued

theorem Inv.takeRx (h : Inv s) : Inv s.rx := by
  cases hr : s.received with
  | nil =>
      have hsame : s.rx = s := by
        unfold Sys.rx
        rw [enetRx_of_nil h hr, hr]
        exact congrArg (Sys.mk s.enet s.rxDev s.txDev · s.queued) hr.symm
      rwa [hsame]
  | cons p ps =>
      have hpop := h.rx
      rw [hr] at hpop
      have hnext : s.rx = { s with
          enet := { s.enet with rd2 := Function.update s.enet.rd2 s.enet.rxIdx 0, rxIdx := ahead s.enet.rxIdx 1 }
          received := ps } := by
        unfold Sys.rx
        rw [(enetRx_of_cons h hr).2.2.2, hr]
        rfl
      rw [hnext]
      refine ⟨?_, h.tx, fun q hq => h.received q (by rw [hr]; exact List.mem_cons_of_mem _ hq), h.queued⟩
      show Holds (slot (Function.update s.enet.rd2 s.enet.rxIdx 0) s.enet.rxBuf) (ahead s.enet.rxIdx 1) s.rxDev ps
      rw [slot_clear]
      exact hpop.pop

theorem Inv.queue (h : Inv s) (hfree : EnetTxFree s.enet) {pkt : ℕ → U8} {len : U16} (hlen : len.toNat ≤ enetBufSz) :
    Inv (s.tx pkt len) where
  rx := h.rx
  tx := by
    have hmark : bit 15 ||| len.setWidth 32 = mark (readAt pkt 0 len.toNat).length := by
      rw [length_readAt, mark, BitVec.ofNat_toNat]
    have hp : (readAt pkt 0 len.toNat).length ≤ enetBufSz := by rwa [length_readAt]
    show Holds (slot (Function.update s.enet.td2 s.enet.txIdx (bit 15 ||| len.setWidth 32))
      (writeAt s.enet.txBuf (enetBufSz * s.enet.txIdx) (readAt pkt 0 len.toNat))) s.txDev (ahead s.enet.txIdx 1)
      (s.queued ++ [readAt pkt 0 len.toNat])
    rw [hmark, slot_fill (fun j q hq => h.queued q (h.tx.mem hq)) hp]
    exact h.tx.push (slot_eq_none.mpr hfree) _
  received := h.received
  queued := by
    refine List.forall_mem_append.mpr ⟨h.queued, List.forall_mem_singleton.mpr ?_⟩
    rwa [length_readAt]

theorem Inv.send (h : Inv s) (hp : slot s.enet.td2 s.enet.txBuf s.txDev = some p) : Inv s.sent := by
  obtain ⟨q, qs, hq⟩ : ∃ q qs, s.queued = q :: qs := by
    have hhead := h.tx.slot_head.symm.trans hp
    exact ⟨p, s.queued.tail, (List.cons_head?_tail hhead).symm⟩
  have hpop := h.tx
  rw [hq] at hpop
  have hnext : s.sent = { s with
      enet := { s.enet with td2 := Function.update s.enet.td2 s.txDev 0 }
      txDev := ahead s.txDev 1
      queued := qs } := by
    unfold Sys.sent
    rw [hq]
    rfl
  rw [hnext]
  refine ⟨h.rx, ?_, h.received, fun q' hq' => h.queued q' (by rw [hq]; exact List.mem_cons_of_mem _ hq')⟩
  show Holds (slot (Function.update s.enet.td2 s.txDev 0) s.enet.txBuf) (ahead s.txDev 1) s.enet.txIdx qs
  rw [slot_clear]
  exact hpop.pop

theorem Inv.step (h : Inv s) {o : Op} (hf : Fits s (o, r)) (hstep : step s o = some (r, t)) : Inv t := by
  cases o with
  | arrive p =>
      obtain ⟨hfree, hsome⟩ := Option.ite_none_right_eq_some.mp hstep
      cases hsome
      exact h.arrive hfree p.property
  | rx =>
      cases hstep
      exact h.takeRx
  | tx pkt len =>
      obtain ⟨hfree, hsome⟩ := Option.ite_none_right_eq_some.mp hstep
      cases hsome
      exact h.queue hfree hf
  | sent =>
      obtain ⟨p, hp, hsome⟩ := Option.map_eq_some_iff.mp hstep
      cases hsome
      exact h.send hp

/-! ## Runs -/

theorem inv_boot (txBuf rxBuf : ℕ → U8) : Inv (boot txBuf rxBuf) where
  rx := by
    refine holds_nil (fun i => ?_) 0
    exact slot_eq_none.mpr BitVec.zero_and
  tx := by
    refine holds_nil (fun i => ?_) 0
    exact slot_eq_none.mpr BitVec.zero_and
  received := fun _ hp => absurd hp List.not_mem_nil
  queued := fun _ hp => absurd hp List.not_mem_nil

/-- **Packets in order.** In a run of driver and controller all packets go through, each with its length and its
bytes, exactly when no call of `enet_rx` finds one and no packet to send is longer than a buffer. -/
theorem in_order_iff {txBuf rxBuf : ℕ → U8} {es : List (Op × Res)} (h : Run step (boot txBuf rxBuf) es t) :
    Along step Right (boot txBuf rxBuf) es ↔ Along step Fits (boot txBuf rxBuf) es :=
  h.along_iff_along (I := Inv) (fun _ _ _ _ hs hr hstep => hs.step ((right_iff_fits hs hstep).mp hr) hstep)
    (fun _ _ _ _ hs hstep => right_iff_fits hs hstep) (inv_boot txBuf rxBuf)

/-- The state after `enet_init` with all buffers zero. -/
def started : Sys := boot (fun _ => 0) fun _ => 0

/-- The first event is `enet_rx` without a packet, the second sends 60 bytes. -/
theorem in_order_first : Along step Right started
    [(.rx, .received 0 []), (.tx (fun _ => 0xFF) 60, .stored 0 60)] := by
  have hrx : step started .rx = some (.received 0 [], started.rx) := rfl
  have htx : step started.rx (.tx (fun _ => 0xFF) 60) = some (.stored 0 60, started.rx.tx (fun _ => 0xFF) 60) := rfl
  refine (in_order_iff (.cons hrx (.cons htx (.nil _)))).mpr ?_
  refine (along_cons hrx).mpr ⟨rfl, (along_cons htx).mpr ⟨?_, along_nil _ _⟩⟩
  show (60 : U16).toNat ≤ enetBufSz
  decide

/-- A packet of 60 bytes. -/
def sixty : {p : Packet // p.length ≤ enetBufSz} := ⟨List.replicate 60 0xFF, by decide⟩

/-- A packet that is received, with `0x803C` for the length of 60, and one of 1537 bytes to send. -/
theorem not_in_order :
    (∃ copied t, Run step started [(.arrive sixty, .arrived), (.rx, .received 0x803C copied)] t ∧
      copied.length = 0x803C ∧
      ¬Along step Right started [(.arrive sixty, .arrived), (.rx, .received 0x803C copied)]) ∧
    ∃ t, Run step started [(.tx (fun _ => 0xFF) 1537, .stored 0 1537)] t ∧
      ¬Along step Right started [(.tx (fun _ => 0xFF) 1537, .stored 0 1537)] := by
  have harrive : step started (.arrive sixty) = some (.arrived, started.arrive sixty) := rfl
  have hinv : Inv (started.arrive sixty) := (inv_boot _ _).arrive BitVec.zero_and sixty.property
  have hone : (started.arrive sixty).received = [sixty.val] := rfl
  obtain ⟨hlen, hcopied, -, -⟩ := enetRx_of_cons hinv hone
  have hrx : step (started.arrive sixty) .rx =
      some (.received 0x803C (enetRx (started.arrive sixty).enet).1.2, (started.arrive sixty).rx) := by
    have hval : (enetRx (started.arrive sixty).enet).1.1 = 0x803C := BitVec.eq_of_toNat_eq hlen
    rw [← hval]
    rfl
  have htx : step started (.tx (fun _ => 0xFF) 1537) = some (.stored 0 1537, started.tx (fun _ => 0xFF) 1537) := rfl
  refine ⟨⟨_, _, .cons harrive (.cons hrx (.nil _)), hcopied, fun h => ?_⟩, _, .cons htx (.nil _), fun h => ?_⟩
  · have hright := ((along_cons hrx).mp ((along_cons harrive).mp h).2).1
    have hfits : [sixty.val] = [] := (right_iff_fits hinv hrx).mp hright
    exact List.cons_ne_nil _ _ hfits
  · have hfits : (1537 : U16).toNat ≤ enetBufSz :=
      (right_iff_fits (inv_boot _ _) htx).mp ((along_cons htx).mp h).1
    exact absurd hfits (by decide)

end BloodKernel.Enet
