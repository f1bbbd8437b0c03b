import BloodKernel.Kernel.Types
import BloodKernel.Lib.Gap
import BloodKernel.Lib.Run

set_option autoImplicit false

/-!
# The mailbox between the cores

`arch/rp2040/multicore.c` passes words from one core to the other through a FIFO of eight words. Bit 0 of
`FIFO_ST` is set when the receive FIFO has data, bit 1 when the transmit FIFO has room; the functions take both
for the opposite.

* `System`: the FIFO, and the two cores in their calls; `act`: one access by one of them.
* `fifo_eq`: no run changes what the FIFO holds. `Places`: a push stores only when the FIFO is full, and a pop
  loads only when it is empty.
* **`transfer_iff`**: the words popped are the words pushed, and a drain leaves the FIFO empty, exactly as long as
  no push or pop gets past its wait and no drain finds data.
-/

namespace BloodKernel.Multicore

open Lib

/-! ## The accesses -/

/-- `FIFO_ST` of a core, from the words in its receive and in its transmit FIFO. -/
def fifoSt (rx tx : List U32) : U32 := (if rx = [] then 0 else bit 0) ||| (if tx.length < 8 then bit 1 else 0)

/-- `multicore_fifo_rvalid`, from the status it reads. -/
def multicoreFifoRvalid (st : U32) : Bool := st &&& bit 0 = 0

/-- Where the sender is in `multicore_fifo_push`: outside of a call; before a read of `FIFO_ST`; before the write
of `FIFO_WR`. -/
inductive Sender
  | idle
  | poll (data : U32)
  | write (data : U32)

/-- Where the receiver is: outside of a call; in `multicore_fifo_pop`, before a read of `FIFO_ST` or of `FIFO_RD`;
before the read of `FIFO_ST` in the loop of `multicore_fifo_drain`. `drain` says that the drain has called the
pop. -/
inductive Receiver
  | idle
  | poll (drain : Bool)
  | read (drain : Bool)
  | drain

/-- The words on their way, and the two cores. -/
structure System where
  fifo : List U32
  sender : Sender
  receiver : Receiver

/-- What can be seen of a step: a word written, the word a pop has read, or the end of a drain. -/
inductive Seen
  | nothing
  | pushed (data : U32)
  | popped (data : U32)
  | drained

/-- The next access of a push. `other` holds the words in the other direction. -/
def senderStep (s : System) (other : List U32) : Option (Seen × System) :=
  match s.sender with
  | .idle => none
  | .poll data =>
      let next := if fifoSt other s.fifo &&& bit 1 ≠ 0 then .poll data else .write data
      some (.nothing, { s with sender := next })
  | .write data => some (.pushed data, { s with fifo := offer 8 s.fifo data, sender := .idle })

/-- The next access of a pop or a drain. `garbage` is what an empty FIFO reads as. -/
def receiverStep (s : System) (other : List U32) (garbage : U32) : Option (Seen × System) :=
  match s.receiver with
  | .idle => none
  | .poll drain =>
      let next := if fifoSt s.fifo other &&& bit 0 ≠ 0 then .poll drain else .read drain
      some (.nothing, { s with receiver := next })
  | .read drain =>
      let next := if drain then .drain else .idle
      some (.popped (s.fifo.headD garbage), { s with fifo := s.fifo.tail, receiver := next })
  | .drain =>
      if multicoreFifoRvalid (fifoSt s.fifo other) then some (.nothing, { s with receiver := .poll true })
      else some (.drained, { s with receiver := .idle })

/-- What can happen: a call starts, or a core makes its next access. -/
inductive Act
  | push (data : U32)
  | pop
  | drain
  | sender (other : List U32)
  | receiver (other : List U32) (garbage : U32)

/-- One step. A core starts a call only when its last one has returned. -/
def act (s : System) : Act → Option (Seen × System)
  | .push data =>
      match s.sender with
      | .idle => some (.nothing, { s with sender := .poll data })
      | _ => none
  | .pop =>
      match s.receiver with
      | .idle => some (.nothing, { s with receiver := .poll false })
      | _ => none
  | .drain =>
      match s.receiver with
      | .idle => some (.nothing, { s with receiver := .drain })
      | _ => none
  | .sender other => senderStep s other
  | .receiver other garbage => receiverStep s other garbage

/-! ## What is transferred -/

/-- The words written by pushes. -/
def pushed (es : List (Act × Seen)) : List U32 := es.flatMap fun
  | (_, .pushed data) => [data]
  | _ => []

/-- The words read by pops. -/
def popped (es : List (Act × Seen)) : List U32 := es.flatMap fun
  | (_, .popped data) => [data]
  | _ => []

/-- Up to every state passed, the words popped and those in the FIFO are those that it held at first and the words
pushed. -/
def Transfers (s : System) (es : List (Act × Seen)) : Prop :=
  ∀ pre post u, es = pre ++ post → Run act s pre u → popped pre ++ u.fifo = s.fifo ++ pushed pre

/-- A drain that ends leaves the FIFO empty. -/
def DrainsAll (s : System) (e : Act × Seen) : Prop := e.2 = .drained → s.fifo = []

/-- No push writes and no pop reads, and no drain finds data. -/
def Waits (s : System) (e : Act × Seen) : Prop :=
  (∀ other data, e.1 = .sender other → s.sender ≠ .write data) ∧
    ∀ other garbage drain, e.1 = .receiver other garbage →
      s.receiver ≠ .read drain ∧ (s.receiver = .drain → s.fifo = [])

/-- No call is in progress, and the FIFO holds no more than its eight words. -/
structure Fresh (s : System) : Prop where
  sender : s.sender = .idle
  receiver : s.receiver = .idle
  fits : s.fifo.length ≤ 8

/-- The write of a push finds the FIFO full, and the read of a pop finds it empty. -/
structure Places (s : System) : Prop where
  full : ∀ data, s.sender = .write data → s.fifo.length = 8
  empty : ∀ drain, s.receiver = .read drain → s.fifo = []
  fits : s.fifo.length ≤ 8

/-- What the start of a call leaves: the FIFO, and a core that stands before a write or a read stood there before. -/
structure Starts (s t : System) : Prop where
  fifo : t.fifo = s.fifo
  sender : ∀ data, t.sender = .write data → s.sender = .write data
  receiver : ∀ drain, t.receiver = .read drain → s.receiver = .read drain

variable {s t u : System} {es : List (Act × Seen)} {a : Act} {r : Seen} {rx tx : List U32}

theorem fifoSt_bit_zero : fifoSt rx tx &&& bit 0 = 0 ↔ rx = [] := by
  unfold fifoSt
  by_cases hrx : rx = [] <;> by_cases htx : tx.length < 8 <;> simp [hrx, htx, bit] <;> decide

theorem fifoSt_bit_one : fifoSt rx tx &&& bit 1 = 0 ↔ ¬tx.length < 8 := by
  unfold fifoSt
  by_cases hrx : rx = [] <;> by_cases htx : tx.length < 8 <;> simp [hrx, htx, bit] <;> decide

/-- **A step** is the start of a call, or an access of one of the cores. -/
theorem act_cases (hstep : act s a = some (r, t)) :
    (r = .nothing ∧ Waits s (a, r) ∧ Starts s t) ∨ (∃ other, a = .sender other ∧ senderStep s other = some (r, t)) ∨
      ∃ other garbage, a = .receiver other garbage ∧ receiverStep s other garbage = some (r, t) := by
  cases a with
  | push data =>
      simp only [act] at hstep
      split at hstep <;> cases hstep
      exact .inl ⟨rfl, ⟨fun _ _ h => (by cases h), fun _ _ _ h => (by cases h)⟩,
        rfl, fun _ h => (by cases h), fun _ h => h⟩
  | pop =>
      simp only [act] at hstep
      split at hstep <;> cases hstep
      exact .inl ⟨rfl, ⟨fun _ _ h => (by cases h), fun _ _ _ h => (by cases h)⟩,
        rfl, fun _ h => h, fun _ h => (by cases h)⟩
  | drain =>
      simp only [act] at hstep
      split at hstep <;> cases hstep
      exact .inl ⟨rfl, ⟨fun _ _ h => (by cases h), fun _ _ _ h => (by cases h)⟩,
        rfl, fun _ h => h, fun _ h => (by cases h)⟩
  | sender other => exact .inr (.inl ⟨other, rfl, hstep⟩)
  | receiver other garbage => exact .inr (.inr ⟨other, garbage, rfl, hstep⟩)

/-! ## The FIFO never changes -/

/-- A push gets to its write only when the FIFO is full, so the word is dropped. -/
theorem Places.sender (h : Places s) {other : List U32} (hstep : senderStep s other = some (r, t)) :
    Places t ∧ t.fifo = s.fifo := by
  have hfits := h.fits
  unfold senderStep at hstep
  split at hstep
  · cases hstep
  · rename_i data hpoll
    cases hstep
    refine ⟨⟨fun d hd => ?_, h.empty, h.fits⟩, rfl⟩
    dsimp only at hd ⊢
    split_ifs at hd with hroom
    have hfull := fifoSt_bit_one.mp (not_not.mp hroom)
    omega
  · rename_i data hwrite
    cases hstep
    have hfull : ¬s.fifo.length < 8 := by
      have hlen := h.full data hwrite
      omega
    have hdrop : offer 8 s.fifo data = s.fifo := if_neg hfull
    refine ⟨⟨fun d hd => (by cases hd), ?_, ?_⟩, hdrop⟩
    · show ∀ drain, s.receiver = .read drain → offer 8 s.fifo data = []
      rw [hdrop]
      exact h.empty
    · show (offer 8 s.fifo data).length ≤ 8
      rw [hdrop]
      exact h.fits

/-- A pop gets to its read only when the FIFO is empty, so what it reads is garbage. -/
theorem Places.receiver (h : Places s) {other : List U32} {garbage : U32}
    (hstep : receiverStep s other garbage = some (r, t)) : Places t ∧ t.fifo = s.fifo := by
  unfold receiverStep at hstep
  split at hstep
  · cases hstep
  · cases hstep
    refine ⟨⟨h.full, fun d hd => ?_, h.fits⟩, rfl⟩
    dsimp only at hd ⊢
    split_ifs at hd with hdata
    exact fifoSt_bit_zero.mp (not_not.mp hdata)
  · rename_i drain hread
    cases hstep
    have hempty := h.empty drain hread
    have htail : s.fifo.tail = s.fifo := by rw [hempty, List.tail_nil]
    refine ⟨⟨?_, fun d hd => ?_, ?_⟩, htail⟩
    · show ∀ data, s.sender = .write data → s.fifo.tail.length = 8
      rw [htail]
      exact h.full
    · dsimp only at hd
      split_ifs at hd
    · show s.fifo.tail.length ≤ 8
      rw [htail]
      exact h.fits
  · split_ifs at hstep
    · cases hstep
      exact ⟨⟨h.full, fun d hd => (by cases hd), h.fits⟩, rfl⟩
    · cases hstep
      exact ⟨⟨h.full, fun d hd => (by cases hd), h.fits⟩, rfl⟩

theorem Places.starts (h : Places s) (hs : Starts s t) : Places t ∧ t.fifo = s.fifo := by
  refine ⟨⟨fun data hd => ?_, fun drain hd => ?_, ?_⟩, hs.fifo⟩
  · rw [hs.fifo]
    exact h.full data (hs.sender data hd)
  · rw [hs.fifo]
    exact h.empty drain (hs.receiver drain hd)
  · rw [hs.fifo]
    exact h.fits

/-- **One step** leaves the FIFO as it is. -/
theorem Places.act (h : Places s) (hstep : act s a = some (r, t)) : Places t ∧ t.fifo = s.fifo := by
  rcases act_cases hstep with ⟨-, -, hs⟩ | ⟨other, -, hs⟩ | ⟨other, garbage, -, hs⟩
  · exact h.starts hs
  · exact h.sender hs
  · exact h.receiver hs

theorem Fresh.places (h : Fresh s) : Places s := by
  refine ⟨fun d hd => ?_, fun d hd => ?_, h.fits⟩
  · rw [h.sender] at hd
    cases hd
  · rw [h.receiver] at hd
    cases hd

/-- **No run changes the FIFO.** -/
theorem fifo_eq (hs : Places s) (h : Run act s es t) : Places t ∧ t.fifo = s.fifo :=
  h.invariant (fun u => Places u ∧ u.fifo = s.fifo) (fun _ _ _ _ hu hstep =>
    ⟨(hu.1.act hstep).1, (hu.1.act hstep).2.trans hu.2⟩) ⟨hs, rfl⟩

/-! ## What completes -/

theorem multicoreFifoRvalid_iff {other : List U32} :
    multicoreFifoRvalid (fifoSt rx other) = true ↔ rx = [] := by
  rw [multicoreFifoRvalid, decide_eq_true_iff, fifoSt_bit_zero]

theorem seen_cases (hstep : act s a = some (r, t)) :
    (r = .nothing ∧ Waits s (a, r)) ∨
      (∃ other data, a = .sender other ∧ s.sender = .write data ∧ r = .pushed data) ∨
      (∃ other garbage drain, a = .receiver other garbage ∧ s.receiver = .read drain ∧
        r = .popped (s.fifo.headD garbage)) ∨
      ∃ other garbage, a = .receiver other garbage ∧ s.receiver = .drain ∧ s.fifo ≠ [] ∧ r = .drained := by
  rcases act_cases hstep with ⟨hr, hw, -⟩ | ⟨other, rfl, hs⟩ | ⟨other, garbage, rfl, hs⟩
  · exact .inl ⟨hr, hw⟩
  · unfold senderStep at hs
    split at hs
    · cases hs
    · rename_i data hpoll
      cases hs
      refine .inl ⟨rfl, fun _ d _ => ?_, fun _ _ _ h => (by cases h)⟩
      rw [hpoll]
      exact Sender.noConfusion
    · rename_i data hwrite
      cases hs
      exact .inr (.inl ⟨other, data, rfl, hwrite, rfl⟩)
  · unfold receiverStep at hs
    split at hs
    · cases hs
    · rename_i drain hpoll
      cases hs
      refine .inl ⟨rfl, fun _ _ h => (by cases h), fun _ _ d _ => ?_⟩
      rw [hpoll]
      exact ⟨Receiver.noConfusion, fun h => (by cases h)⟩
    · rename_i drain hread
      cases hs
      exact .inr (.inr (.inl ⟨other, garbage, drain, rfl, hread, rfl⟩))
    · rename_i hdrain
      split_ifs at hs with hvalid <;> cases hs
      · refine .inl ⟨rfl, fun _ _ h => (by cases h), fun _ _ d _ => ?_⟩
        rw [hdrain]
        exact ⟨Receiver.noConfusion, fun _ => multicoreFifoRvalid_iff.mp hvalid⟩
      · have hdata : s.fifo ≠ [] := fun h => hvalid (multicoreFifoRvalid_iff.mpr h)
        exact .inr (.inr (.inr ⟨other, garbage, rfl, hdrain, hdata, rfl⟩))

theorem pushed_cons (e : Act × Seen) (es : List (Act × Seen)) : pushed (e :: es) = pushed [e] ++ pushed es := by
  rw [pushed, pushed, pushed, List.flatMap_cons, List.flatMap_cons, List.flatMap_nil, List.append_nil]

theorem popped_cons (e : Act × Seen) (es : List (Act × Seen)) : popped (e :: es) = popped [e] ++ popped es := by
  rw [popped, popped, popped, List.flatMap_cons, List.flatMap_cons, List.flatMap_nil, List.append_nil]

/-- **One step** gets nothing through exactly when the calls wait. -/
theorem waits_iff (hstep : act s a = some (r, t)) :
    (pushed [(a, r)] = [] ∧ popped [(a, r)] = []) ∧ DrainsAll s (a, r) ↔ Waits s (a, r) := by
  rcases seen_cases hstep with ⟨rfl, hw⟩ | ⟨other, data, rfl, hwrite, rfl⟩ |
    ⟨other, garbage, drain, rfl, hread, rfl⟩ | ⟨other, garbage, rfl, hdrain, hdata, rfl⟩
  · exact iff_of_true ⟨⟨rfl, rfl⟩, fun h => (by cases h)⟩ hw
  · exact iff_of_false (fun h => by cases h.1.1) fun h => h.1 other data rfl hwrite
  · exact iff_of_false (fun h => by cases h.1.2) fun h => (h.2 other garbage drain rfl).1 hread
  · exact iff_of_false (fun h => hdata (h.2 rfl)) fun h => hdata ((h.2 other garbage false rfl).2 hdrain)

theorem waits_along_iff (h : Run act s es t) :
    (pushed es = [] ∧ popped es = []) ∧ Along act DrainsAll s es ↔ Along act Waits s es := by
  induction h with
  | nil s => exact iff_of_true ⟨⟨rfl, rfl⟩, along_nil _ s⟩ (along_nil _ s)
  | cons hstep _ ih =>
      rw [along_cons hstep, along_cons hstep, ← waits_iff hstep, ← ih, pushed_cons, popped_cons,
        List.append_eq_nil_iff, List.append_eq_nil_iff]
      tauto

theorem pushed_eq_nil (hs : Places s) (hfull : s.fifo.length ≠ 8) (h : Run act s es t) : pushed es = [] := by
  induction h with
  | nil => rfl
  | cons hstep _ ih =>
      obtain ⟨hplaces, hfifo⟩ := hs.act hstep
      rw [pushed_cons, ih hplaces (by rw [hfifo]; exact hfull), List.append_nil]
      rcases seen_cases hstep with ⟨rfl, -⟩ | ⟨_, data, rfl, hwrite, rfl⟩ | ⟨_, _, _, rfl, -, rfl⟩ |
        ⟨_, _, rfl, -, -, rfl⟩
      · rfl
      · exact absurd (hs.full data hwrite) hfull
      · rfl
      · rfl

theorem popped_eq_nil (hs : Places s) (hempty : s.fifo ≠ []) (h : Run act s es t) : popped es = [] := by
  induction h with
  | nil => rfl
  | cons hstep _ ih =>
      obtain ⟨hplaces, hfifo⟩ := hs.act hstep
      rw [popped_cons, ih hplaces (by rw [hfifo]; exact hempty), List.append_nil]
      rcases seen_cases hstep with ⟨rfl, -⟩ | ⟨_, _, rfl, -, rfl⟩ | ⟨_, _, drain, rfl, hread, rfl⟩ |
        ⟨_, _, rfl, -, -, rfl⟩
      · rfl
      · rfl
      · exact absurd (hs.empty drain hread) hempty
      · rfl

/-- What is popped is what is pushed exactly when there is neither. -/
theorem transfers_iff (hs : Places s) (h : Run act s es t) :
    Transfers s es ↔ pushed es = [] ∧ popped es = [] := by
  constructor
  · intro ht
    have hall := ht es [] t (List.append_nil es).symm h
    rw [(fifo_eq hs h).2] at hall
    by_cases hempty : s.fifo = []
    · have hpushed : pushed es = [] := pushed_eq_nil hs (by rw [hempty]; decide) h
      rw [hempty, hpushed, List.append_nil] at hall
      exact ⟨hpushed, hall⟩
    · have hpopped : popped es = [] := popped_eq_nil hs hempty h
      rw [hpopped, List.nil_append] at hall
      exact ⟨List.self_eq_append_right.mp hall, hpopped⟩
  · rintro ⟨hpushed, hpopped⟩ pre post u rfl hu
    have hpre : pushed pre = [] ∧ popped pre = [] := by
      rw [pushed, List.flatMap_append] at hpushed
      rw [popped, List.flatMap_append] at hpopped
      exact ⟨(List.append_eq_nil_iff.mp hpushed).1, (List.append_eq_nil_iff.mp hpopped).1⟩
    rw [hpre.1, hpre.2, (fifo_eq hs hu).2, List.append_nil, List.nil_append]

/-- **Transfers along runs.** -/
theorem transfer_iff (hs : Fresh s) (h : Run act s es t) :
    Transfers s es ∧ Along act DrainsAll s es ↔ Along act Waits s es := by
  rw [transfers_iff hs.places h, waits_along_iff h]

/-- No call is in progress, and these words are in the FIFO. -/
def quiet (fifo : List U32) : System := ⟨fifo, .idle, .idle⟩

/-- A push to the empty FIFO waits. -/
theorem transfer_waiting :
    Transfers (quiet []) [(.push 7, .nothing), (.sender [], .nothing)] ∧
      Along act DrainsAll (quiet []) [(.push 7, .nothing), (.sender [], .nothing)] := by
  have hfresh : Fresh (quiet []) := ⟨rfl, rfl, Nat.zero_le _⟩
  have hpoll : fifoSt [] [] &&& bit 1 ≠ 0 := fun h => fifoSt_bit_one.mp h (by decide)
  have hsecond : act ⟨[], .poll 7, .idle⟩ (.sender []) = some (.nothing, ⟨[], .poll 7, .idle⟩) := by
    show some (Seen.nothing, (⟨[], if _ then _ else _, .idle⟩ : System)) = _
    rw [if_pos hpoll]
  refine (transfer_iff hfresh (.cons rfl (.cons hsecond (.nil _)))).mpr ?_
  refine (along_cons rfl).mpr ⟨⟨fun _ _ h => (by cases h), fun _ _ _ h => (by cases h)⟩,
    (along_cons hsecond).mpr ⟨⟨fun _ _ _ h => (by cases h), fun _ _ _ h => (by cases h)⟩, along_nil _ _⟩⟩

/-- A pop from the empty FIFO returns what the register reads as, and a drain leaves data where it is. -/
theorem not_transfers_empty :
    (∃ t, Run act (quiet []) [(.pop, .nothing), (.receiver [] 9, .nothing), (.receiver [] 9, .popped 9)] t ∧
      ¬Transfers (quiet []) [(.pop, .nothing), (.receiver [] 9, .nothing), (.receiver [] 9, .popped 9)]) ∧
    ∃ t, Run act (quiet [5]) [(.drain, .nothing), (.receiver [] 9, .drained)] t ∧ t.fifo = [5] := by
  have hpoll : act ⟨[], .idle, .poll false⟩ (.receiver [] 9) = some (.nothing, ⟨[], .idle, .read false⟩) := rfl
  have hrun : Run act (quiet []) [(.pop, .nothing), (.receiver [] 9, .nothing), (.receiver [] 9, .popped 9)]
      (quiet []) := .cons rfl (.cons hpoll (.cons rfl (.nil _)))
  refine ⟨⟨_, hrun, fun h => ?_⟩, quiet [5], .cons rfl (.cons rfl (.nil _)), rfl⟩
  have hall := h _ [] _ (List.append_nil _).symm hrun
  exact absurd hall (by decide)

end BloodKernel.Multicore
