import BloodKernel.Kernel.Spinlock
import BloodKernel.Lib.Cyclic
import BloodKernel.Lib.Run

set_option autoImplicit false

/-!
# The mailboxes of the two cores

`src/arch/stm32h/ipc_mailbox.c`: two rings of 256 bytes in shared memory, one for each direction. The
interrupts that the sends trigger are left out.

* `Mailbox`, `mboxSend`, `mboxRecv`: a ring, and the calls on it; `held`: the bytes in it.
* `held_send`, `held_recv`: a message that fits is appended; what is received is taken from the front.
* `Ledger`: the two mailboxes beside the bytes sent and received so far.
* **`conserved_throughout_iff`**: no byte is lost, overwritten or duplicated throughout a run exactly when
  every message fits into the free space of its mailbox.
-/

namespace BloodKernel.Ipc

open Lib

/-! ## The driver -/

/-- `mailbox_t`. -/
structure Mailbox where
  head : U32
  tail : U32
  data : ℕ → U8

/-- A buffer with its length, a `u32`. -/
abbrev Buffer := { l : List U8 // l.length < 2 ^ 32 }

def Buffer.len (b : Buffer) : U32 := BitVec.ofNat 32 b.1.length

/-- `v & (MAILBOX_SIZE - 1)` -/
def masked (v : U32) : U32 := v &&& 255

def mboxFree (m : Mailbox) : U32 := masked (m.tail - m.head - 1)

def mboxUsed (m : Mailbox) : U32 := masked (m.head - m.tail)

/-- The cell of the byte number `i` from position `p` on. -/
def cell (p : U32) (i : ℕ) : ℕ := (masked (p + BitVec.ofNat 32 i)).toNat

/-- The loop of `mbox_send`, from byte `i` on. -/
def copyIn (head : U32) (data : ℕ → U8) (i : ℕ) : List U8 → ℕ → U8
  | [] => data
  | b :: bs => copyIn head (Function.update data (cell head i) b) (i + 1) bs

/-- `mbox_send` between the calls on its lock. -/
def mboxSend (m : Mailbox) (buf : Buffer) : Mailbox :=
  { m with data := copyIn m.head m.data 0 buf.1, head := masked (m.head + Buffer.len buf) }

/-- `used > max ? max : used`. -/
def toCopy (m : Mailbox) (max : U32) : U32 := if max < mboxUsed m then max else mboxUsed m

/-- `mbox_recv` between the calls on its lock: the bytes copied to the buffer, and the mailbox. -/
def mboxRecv (m : Mailbox) (max : U32) : List U8 × Mailbox :=
  let copy := toCopy m max
  ((List.range copy.toNat).map fun i => m.data (cell m.tail i), { m with tail := masked (m.tail + copy) })

/-- The mailboxes: `mbox_m7` and `mbox_m4`. -/
inductive Core
  | m7
  | m4
  deriving DecidableEq

/-- The two mailboxes and the two locks. -/
structure State where
  mbox : Core → Mailbox
  m7Lock : U32
  m4Lock : U32

/-- `ipc_send_m7` and `ipc_send_m4`. Both take `m7_lock`. -/
def ipcSend (s : State) (c : Core) (buf : Buffer) : Option State :=
  (spinLock s.m7Lock).map fun lock =>
    { s with mbox := Function.update s.mbox c (mboxSend (s.mbox c) buf), m7Lock := spinUnlock lock }

/-- `ipc_recv_m7` and `ipc_recv_m4`. Both take `m4_lock`. -/
def ipcRecv (s : State) (c : Core) (max : U32) : Option (List U8 × State) :=
  (spinLock s.m4Lock).map fun lock =>
    let r := mboxRecv (s.mbox c) max
    (r.1, { s with mbox := Function.update s.mbox c r.2, m4Lock := spinUnlock lock })

/-! ## What a mailbox holds -/

/-- The bytes in the mailbox, oldest first. -/
def held (m : Mailbox) : List U8 := readCyclic 256 m.data m.tail.toNat (mboxUsed m).toNat

variable {m : Mailbox} {buf : Buffer} {max : U32} {p : U32} {i : ℕ}

theorem toNat_masked (v : U32) : (masked v).toNat = v.toNat % 256 := by
  have hmask : (255 : U32).toNat = 2 ^ 8 - 1 := rfl
  rw [masked, BitVec.toNat_and, hmask, Nat.and_two_pow_sub_one_eq_mod]

theorem cell_eq (p : U32) (i : ℕ) : cell p i = (p.toNat + i) % 256 := by
  rw [cell, toNat_masked, BitVec.toNat_add, BitVec.toNat_ofNat]
  omega

theorem copyIn_eq (head : U32) (data : ℕ → U8) (i : ℕ) (bs : List U8) :
    copyIn head data i bs = writeCyclic 256 data (head.toNat + i) bs := by
  induction bs generalizing data i with
  | nil => rfl
  | cons b bs ih => rw [copyIn, writeCyclic, ih, cell_eq, Nat.add_assoc]

theorem used_lt (m : Mailbox) : (mboxUsed m).toNat < 256 := by
  rw [mboxUsed, toNat_masked]
  omega

theorem free_eq (m : Mailbox) : (mboxFree m).toNat = 255 - (mboxUsed m).toNat := by
  have h₁ := m.head.isLt
  have h₂ := m.tail.isLt
  have hone : (1 : U32).toNat = 1 := rfl
  rw [mboxFree, mboxUsed, toNat_masked, toNat_masked, BitVec.toNat_sub, BitVec.toNat_sub,
    BitVec.toNat_sub, hone]
  omega

theorem head_eq (m : Mailbox) : m.head.toNat % 256 = (m.tail.toNat + (mboxUsed m).toNat) % 256 := by
  have h₁ := m.head.isLt
  have h₂ := m.tail.isLt
  rw [mboxUsed, toNat_masked, BitVec.toNat_sub]
  omega

theorem length_held (m : Mailbox) : (held m).length = (mboxUsed m).toNat := length_readCyclic _ _ _

theorem toNat_len (buf : Buffer) : (Buffer.len buf).toNat = buf.1.length := by
  rw [Buffer.len, BitVec.toNat_ofNat, Nat.mod_eq_of_lt buf.2]

theorem used_send (m : Mailbox) (buf : Buffer) :
    (mboxUsed (mboxSend m buf)).toNat = ((mboxUsed m).toNat + buf.1.length) % 256 := by
  have h₁ := m.head.isLt
  have h₂ := m.tail.isLt
  have h₃ := buf.2
  show (masked (masked (m.head + Buffer.len buf) - m.tail)).toNat = _
  rw [mboxUsed, toNat_masked, toNat_masked, BitVec.toNat_sub, BitVec.toNat_sub, toNat_masked,
    BitVec.toNat_add, toNat_len]
  omega

/-- **A message that fits** is appended. -/
theorem held_send (h : buf.1.length ≤ (mboxFree m).toNat) : held (mboxSend m buf) = held m ++ buf.1 := by
  have hlt := used_lt m
  rw [free_eq] at h
  have hused : (mboxUsed (mboxSend m buf)).toNat = (mboxUsed m).toNat + buf.1.length := by
    rw [used_send, Nat.mod_eq_of_lt (by omega)]
  have hdata : (mboxSend m buf).data =
      writeCyclic 256 m.data (m.tail.toNat + (mboxUsed m).toNat) buf.1 := by
    show copyIn m.head m.data 0 buf.1 = _
    rw [copyIn_eq]
    exact writeCyclic_of_mod_eq (head_eq m)
  show readCyclic 256 (mboxSend m buf).data m.tail.toNat (mboxUsed (mboxSend m buf)).toNat = _
  rw [hused, hdata, readCyclic_add, readCyclic_writeCyclic (by omega),
    readCyclic_writeCyclic_ahead le_rfl (by omega)]
  rfl

/-- A message that does not fit makes the mailbox hold fewer bytes than were put into it. -/
theorem length_held_send (h : (mboxFree m).toNat < buf.1.length) :
    (held (mboxSend m buf)).length < (held m).length + buf.1.length := by
  rw [free_eq] at h
  rw [length_held, length_held, used_send]
  have := Nat.mod_lt ((mboxUsed m).toNat + buf.1.length) (show 0 < 256 by decide)
  omega

theorem toCopy_le (m : Mailbox) (max : U32) : (toCopy m max).toNat ≤ (mboxUsed m).toNat := by
  unfold toCopy
  split_ifs with h
  · exact Nat.le_of_lt h
  · exact le_rfl

theorem map_cell (data : ℕ → U8) (p : U32) (k : ℕ) :
    ((List.range k).map fun i => data (cell p i)) = readCyclic 256 data p.toNat k :=
  List.map_congr_left fun i _ => by rw [cell_eq]

theorem used_advance {k : U32} (h : k.toNat ≤ (mboxUsed m).toNat) :
    (mboxUsed { m with tail := masked (m.tail + k) }).toNat = (mboxUsed m).toNat - k.toNat := by
  have h₁ := m.head.isLt
  have h₂ := m.tail.isLt
  have h₃ := k.isLt
  rw [mboxUsed, toNat_masked, BitVec.toNat_sub] at h
  show (masked (m.head - masked (m.tail + k))).toNat = _
  rw [mboxUsed, toNat_masked, toNat_masked, BitVec.toNat_sub, BitVec.toNat_sub, toNat_masked,
    BitVec.toNat_add]
  omega

/-- Moving the tail over `k` bytes takes them from the front. -/
theorem held_advance {k : U32} (h : k.toNat ≤ (mboxUsed m).toNat) :
    readCyclic 256 m.data m.tail.toNat k.toNat ++ held { m with tail := masked (m.tail + k) } = held m := by
  have htail : (masked (m.tail + k)).toNat = (m.tail.toNat + k.toNat) % 256 := by
    rw [toNat_masked, BitVec.toNat_add]
    omega
  have hsum : (mboxUsed m).toNat = k.toNat + ((mboxUsed m).toNat - k.toNat) := by omega
  unfold held
  rw [used_advance h, htail, readCyclic_mod]
  conv => rhs; rw [hsum, readCyclic_add]

/-- **What is received** is taken from the front. -/
theorem held_recv (m : Mailbox) (max : U32) : (mboxRecv m max).1 ++ held (mboxRecv m max).2 = held m := by
  show (List.range (toCopy m max).toNat).map (fun i => m.data (cell m.tail i)) ++ _ = _
  rw [map_cell]
  exact held_advance (toCopy_le m max)

/-! ## Runs -/

inductive Op
  | send (c : Core) (buf : Buffer)
  | recv (c : Core) (max : U32)

/-- The mailboxes, and the bytes sent to and received from each of them so far. -/
structure Ledger where
  driver : State
  sent : Core → List U8
  received : Core → List U8

/-- A call, with the bytes it has received. -/
def step (s : Ledger) : Op → Option (List U8 × Ledger)
  | .send c buf => (ipcSend s.driver c buf).map fun d =>
      ([], { s with driver := d, sent := Function.update s.sent c (s.sent c ++ buf.1) })
  | .recv c max => (ipcRecv s.driver c max).map fun r =>
      (r.1, { s with driver := r.2, received := Function.update s.received c (s.received c ++ r.1) })

/-- What was received and what is still held is what was sent. -/
def Ledger.Conserved (s : Ledger) : Prop := ∀ c, s.received c ++ held (s.driver.mbox c) = s.sent c

/-- A message fits into the free space of its mailbox. -/
def Ledger.Fits (s : Ledger) : Op × List U8 → Prop
  | (.send c buf, _) => buf.1.length ≤ (mboxFree (s.driver.mbox c)).toNat
  | (.recv _ _, _) => True

/-- Empty mailboxes, free locks. -/
structure Ledger.Empty (s : Ledger) : Prop where
  empty : ∀ c, (s.driver.mbox c).head = (s.driver.mbox c).tail
  m7Lock : s.driver.m7Lock = 0
  m4Lock : s.driver.m4Lock = 0
  sent : ∀ c, s.sent c = []
  received : ∀ c, s.received c = []

variable {s s' : Ledger} {o : Op} {r : List U8} {c : Core}

theorem Ledger.Empty.conserved (h : s.Empty) : s.Conserved := by
  intro c
  have hused : mboxUsed (s.driver.mbox c) = 0 := by
    rw [mboxUsed, h.empty c, BitVec.sub_self]
    rfl
  rw [held, hused, h.sent c, h.received c]
  rfl

def Ledger.afterSend (s : Ledger) (c : Core) (buf : Buffer) : Ledger :=
  { s with
    driver :=
      { s.driver with
        mbox := Function.update s.driver.mbox c (mboxSend (s.driver.mbox c) buf), m7Lock := 0 }
    sent := Function.update s.sent c (s.sent c ++ buf.1) }

def Ledger.afterRecv (s : Ledger) (c : Core) (max : U32) : Ledger :=
  { s with
    driver :=
      { s.driver with
        mbox := Function.update s.driver.mbox c (mboxRecv (s.driver.mbox c) max).2, m4Lock := 0 }
    received := Function.update s.received c (s.received c ++ (mboxRecv (s.driver.mbox c) max).1) }

theorem step_send (hs : step s (.send c buf) = some (r, s')) : s' = s.afterSend c buf := by
  obtain ⟨d, hd, he⟩ := Option.map_eq_some_iff.mp hs
  obtain ⟨lock, -, rfl⟩ := Option.map_eq_some_iff.mp hd
  exact (Prod.mk.inj he).2.symm

theorem step_recv (hs : step s (.recv c max) = some (r, s')) : s' = s.afterRecv c max := by
  obtain ⟨d, hd, he⟩ := Option.map_eq_some_iff.mp hs
  obtain ⟨lock, -, rfl⟩ := Option.map_eq_some_iff.mp hd
  exact (Prod.mk.inj he).2.symm

/-- No lock is held. -/
def Ledger.Unlocked (s : Ledger) : Prop := s.driver.m7Lock = 0 ∧ s.driver.m4Lock = 0

/-- Every call leaves the locks free, so any calls can be made, in any order. -/
theorem exists_run_of_unlocked (h : s.Unlocked) (ops : List Op) :
    ∃ es t, es.map Prod.fst = ops ∧ Run step s es t := by
  have hI : ∀ (s : Ledger) o, s.Unlocked → ∃ r s', step s o = some (r, s') ∧ s'.Unlocked := by
    intro s o hs
    cases o with
    | send c buf =>
        refine ⟨[], s.afterSend c buf, ?_, rfl, hs.2⟩
        rw [step, ipcSend, hs.1, spinLock_of_zero]
        rfl
    | recv c max =>
        refine ⟨(mboxRecv (s.driver.mbox c) max).1, s.afterRecv c max, ?_, hs.1, rfl⟩
        rw [step, ipcRecv, hs.2, spinLock_of_zero]
        rfl
  obtain ⟨es, t, he, hr, -⟩ := exists_run _ hI h ops
  exact ⟨es, t, he, hr⟩

/-- **One call** conserves the bytes exactly when it fits. -/
theorem conserved_step (h : s.Conserved) (hs : step s o = some (r, s')) : s'.Conserved ↔ s.Fits (o, r) := by
  cases o with
  | send c buf =>
      rw [step_send hs]
      have hself : s.received c ++ held (s.driver.mbox c) = s.sent c := h c
      show (∀ d, s.received d ++ held (Function.update s.driver.mbox c _ d) =
        Function.update s.sent c _ d) ↔ buf.1.length ≤ _
      constructor
      · intro hall
        have hc := congrArg List.length (hall c)
        rw [Function.update_self, Function.update_self, ← hself] at hc
        by_contra hfull
        have := length_held_send (Nat.not_le.mp hfull)
        simp only [List.length_append] at hc
        omega
      · intro hfit d
        by_cases hd : d = c
        · rw [hd, Function.update_self, Function.update_self, held_send hfit, ← hself,
            List.append_assoc]
        · rw [Function.update_of_ne hd, Function.update_of_ne hd]
          exact h d
  | recv c max =>
      rw [step_recv hs]
      refine iff_of_true (fun d => ?_) trivial
      show Function.update s.received c _ d ++ held (Function.update s.driver.mbox c _ d) = s.sent d
      by_cases hd : d = c
      · rw [hd, Function.update_self, Function.update_self, List.append_assoc, held_recv]
        exact h c
      · rw [Function.update_of_ne hd, Function.update_of_ne hd]
        exact h d

/-- **Exactness.** Starting with empty mailboxes, what was received from a mailbox followed by what it
holds is what was sent to it, throughout a run, exactly when every message fits. -/
theorem conserved_throughout_iff {t : Ledger} {es : List (Op × List U8)} (hs : s.Empty)
    (h : Run step s es t) : Throughout step Ledger.Conserved s es ↔ Along step Ledger.Fits s es :=
  h.throughout_iff_along (I := fun _ => True) (fun _ _ _ _ _ _ => trivial)
    (fun _ _ _ _ _ hc hstep => conserved_step hc hstep) trivial hs.conserved

def empty : Ledger := ⟨⟨fun _ => ⟨0, 0, fun _ => 0⟩, 0, 0⟩, fun _ => [], fun _ => []⟩

theorem empty_empty : empty.Empty := ⟨fun _ => rfl, rfl, rfl, fun _ => rfl, fun _ => rfl⟩

/-- Three bytes, two of which are received. -/
theorem conserved_three : Throughout step Ledger.Conserved empty
    [(.send .m7 ⟨[1, 2, 3], by decide⟩, []), (.recv .m7 2, [1, 2])] ↔
      Along step Ledger.Fits empty [(.send .m7 ⟨[1, 2, 3], by decide⟩, []), (.recv .m7 2, [1, 2])] :=
  conserved_throughout_iff empty_empty (.cons rfl (.cons rfl (.nil _)))

def longMessage : Buffer := ⟨List.replicate 256 0x41, by rw [List.length_replicate]; decide⟩

/-- It brings the head round to the tail: the mailbox is empty again, and all bytes are lost. -/
theorem not_conserved_longMessage :
    ∃ t, Run step empty [(.send .m7 longMessage, [])] t ∧ held (t.driver.mbox .m7) = [] ∧ ¬t.Conserved := by
  have hlength : longMessage.1.length = 256 := List.length_replicate
  have hheld : held ((empty.afterSend .m7 longMessage).driver.mbox .m7) = [] := by
    rw [← List.length_eq_zero_iff, length_held]
    exact (used_send _ longMessage).trans (by rw [hlength]; rfl)
  refine ⟨empty.afterSend .m7 longMessage, .cons rfl (.nil _), hheld, fun h => ?_⟩
  have hsent : [] ++ held ((empty.afterSend .m7 longMessage).driver.mbox .m7) = longMessage.1 := h .m7
  rw [hheld] at hsent
  have := congrArg List.length hsent
  rw [hlength] at this
  cases this

end BloodKernel.Ipc
