import BloodKernel.Arch.Mailbox

set_option autoImplicit false

/-!
# A sender and a receiver on one mailbox

`mbox_send` and `mbox_recv` of `src/arch/stm32h/ipc_mailbox.c`, one access to the shared memory at a time.
The sender takes `m7_lock` and the receiver `m4_lock`, so neither lock keeps them apart.

* `Sender`, `Receiver`: where the two are in their calls; `step`: one access by one of them.
* `SenderOk`, `ReceiverOk`: what a place in a call says of the mailbox. `SenderOk.mono`, `ReceiverOk.mono`: the
  other side does not disturb it.
* **`returned_prefix_stored`**: the receiver returns bytes that have been stored, in their order.
-/

namespace BloodKernel.Ipc

open Lib

/-! ## The accesses -/

/-- Where the sender is: outside of a call; in `spin_lock`; before a load of the head; before storing a byte;
before storing the head; before `spin_unlock`. -/
inductive Sender
  | idle
  | lock (pc : SpinPc) (buf : Buffer)
  | index (buf : Buffer) (i : ℕ)
  | store (buf : Buffer) (i : ℕ) (head : U32)
  | advance (buf : Buffer) (head : U32)
  | unlock

/-- Where the receiver is: outside of a call; in `spin_lock`; before both loads of `mbox_used`, or one of them;
before a load of the tail, with the bytes copied so far; before loading a byte; before storing the tail; before
`spin_unlock`. -/
inductive Receiver
  | idle
  | lock (pc : SpinPc) (max : U32)
  | count (max : U32)
  | countTail (max head : U32)
  | countHead (max tail : U32)
  | index (copy : U32) (got : List U8)
  | load (copy : U32) (got : List U8) (tail : U32)
  | advance (copy : U32) (got : List U8) (tail : U32)
  | unlock (got : List U8)

/-- The mailbox, the two locks, and the two sides. -/
structure System where
  mbox : Mailbox
  m7Lock : U32
  m4Lock : U32
  sender : Sender
  receiver : Receiver

/-- What can be seen of a step: a byte stored, or the bytes that a call returned. -/
inductive Seen
  | nothing
  | stored (b : U8)
  | returned (got : List U8)

/-- The next access of a call of `mbox_send`. -/
def senderStep (s : System) : Option (Seen × System) :=
  match s.sender with
  | .idle => none
  | .lock pc buf =>
      let r := spinStep pc s.m7Lock
      some (.nothing, { s with m7Lock := r.2, sender := r.1.elim (.index buf 0) (.lock · buf) })
  | .index buf i =>
      let head := s.mbox.head
      some (.nothing, { s with sender := if i < buf.1.length then .store buf i head else .advance buf head })
  | .store buf i head =>
      let b := buf.1.getD i 0
      let data := Function.update s.mbox.data (cell head i) b
      some (.stored b, { s with mbox := { s.mbox with data := data }, sender := .index buf (i + 1) })
  | .advance buf head =>
      let m := { s.mbox with head := masked (head + Buffer.len buf) }
      some (.nothing, { s with mbox := m, sender := .unlock })
  | .unlock => some (.nothing, { s with m7Lock := spinUnlock s.m7Lock, sender := .idle })

/-- The loop of `mbox_recv` starts when both indices are known. -/
def startCopy (max head tail : U32) : Receiver :=
  let used := masked (head - tail)
  .index (if max < used then max else used) []

/-- The next access of a call of `mbox_recv`. C leaves open which load of `mbox_used` is the first. -/
def receiverStep (s : System) (tailFirst : Bool) : Option (Seen × System) :=
  match s.receiver with
  | .idle => none
  | .lock pc max =>
      let r := spinStep pc s.m4Lock
      some (.nothing, { s with m4Lock := r.2, receiver := r.1.elim (.count max) (.lock · max) })
  | .count max =>
      let next := if tailFirst then .countHead max s.mbox.tail else .countTail max s.mbox.head
      some (.nothing, { s with receiver := next })
  | .countTail max head => some (.nothing, { s with receiver := startCopy max head s.mbox.tail })
  | .countHead max tail => some (.nothing, { s with receiver := startCopy max s.mbox.head tail })
  | .index copy got =>
      let tail := s.mbox.tail
      let next := if got.length < copy.toNat then .load copy got tail else .advance copy got tail
      some (.nothing, { s with receiver := next })
  | .load copy got tail =>
      some (.nothing, { s with receiver := .index copy (got ++ [s.mbox.data (cell tail got.length)]) })
  | .advance copy got tail =>
      let m := { s.mbox with tail := masked (tail + copy) }
      some (.nothing, { s with mbox := m, receiver := .unlock got })
  | .unlock got => some (.returned got, { s with m4Lock := spinUnlock s.m4Lock, receiver := .idle })

/-- What can happen: a call starts, or one side makes its next access. -/
inductive Act
  | send (buf : Buffer)
  | recv (max : U32)
  | sender
  | receiver (tailFirst : Bool)

/-- One step. A side starts a call only when its last one has returned. -/
def act (s : System) : Act → Option (Seen × System)
  | .send buf =>
      match s.sender with
      | .idle => some (.nothing, { s with sender := .lock .testAndSet buf })
      | _ => none
  | .recv max =>
      match s.receiver with
      | .idle => some (.nothing, { s with receiver := .lock .testAndSet max })
      | _ => none
  | .sender => senderStep s
  | .receiver tailFirst => receiverStep s tailFirst

/-! ## What has been seen -/

/-- The bytes of the messages passed to `mbox_send`. -/
def submitted (es : List (Act × Seen)) : List U8 := es.flatMap fun
  | (.send buf, _) => buf.1
  | _ => []

def stored (es : List (Act × Seen)) : List U8 := es.flatMap fun
  | (_, .stored b) => [b]
  | _ => []

/-- The bytes that calls of `mbox_recv` have returned. -/
def returned (es : List (Act × Seen)) : List U8 := es.flatMap fun
  | (_, .returned got) => got
  | _ => []

/-- A message fits into the free space when its call starts. -/
def System.Fits (s : System) : Act × Seen → Prop
  | (.send buf, _) => buf.1.length ≤ (mboxFree s.mbox).toNat
  | _ => True

/-- An empty mailbox, and no call. -/
structure System.Fresh (s : System) : Prop where
  empty : s.mbox.head = s.mbox.tail
  sender : s.sender = .idle
  receiver : s.receiver = .idle

/-! ## The invariant -/

/-- The bytes of a message whose head has not been stored. -/
def Sender.pending : Sender → List U8
  | .lock _ buf | .index buf _ | .store buf _ _ | .advance buf _ => buf.1
  | .idle | .unlock => []

/-- Those that have been stored. -/
def Sender.written : Sender → List U8
  | .index buf i | .store buf i _ => buf.1.take i
  | .advance buf _ => buf.1
  | .idle | .lock _ _ | .unlock => []

/-- The bytes taken from the mailbox that have not been returned. -/
def Receiver.taken : Receiver → List U8
  | .unlock got => got
  | _ => []

/-- The first `i` bytes of a message have been stored behind the used cells, and all of it fits. -/
structure Writing (m : Mailbox) (buf : Buffer) (i : ℕ) : Prop where
  fits : (mboxUsed m).toNat + buf.1.length ≤ 255
  le : i ≤ buf.1.length
  stored : readCyclic 256 m.data m.head.toNat i = buf.1.take i

/-- The first bytes of the mailbox have been copied, and `copy` of them are there. -/
structure Taking (m : Mailbox) (copy : U32) (got : List U8) : Prop where
  used : copy.toNat ≤ (mboxUsed m).toNat
  le : got.length ≤ copy.toNat
  loaded : readCyclic 256 m.data m.tail.toNat got.length = got

/-- What a place in a call of `mbox_send` says of the mailbox. -/
def SenderOk (m : Mailbox) : Sender → Prop
  | .idle | .unlock => True
  | .lock _ buf => Writing m buf 0
  | .index buf i => Writing m buf i
  | .store buf i head => Writing m buf i ∧ i < buf.1.length ∧ head = m.head
  | .advance buf head => Writing m buf buf.1.length ∧ head = m.head

/-- What a place in a call of `mbox_recv` says of the mailbox. The head may have moved since it was
loaded. -/
def ReceiverOk (m : Mailbox) : Receiver → Prop
  | .idle | .lock _ _ | .count _ | .unlock _ => True
  | .countTail _ head => (masked (head - m.tail)).toNat ≤ (mboxUsed m).toNat
  | .countHead _ tail => tail = m.tail
  | .index copy got => Taking m copy got
  | .load copy got tail => Taking m copy got ∧ got.length < copy.toNat ∧ tail = m.tail
  | .advance copy got tail => Taking m copy got ∧ got.length = copy.toNat ∧ tail = m.tail

/-- What the receiver has returned and taken, then what the mailbox holds, are the messages whose head has
been stored. -/
structure Inv (es : List (Act × Seen)) (s : System) : Prop where
  messages : submitted es = returned es ++ s.receiver.taken ++ held s.mbox ++ s.sender.pending
  bytes : stored es = returned es ++ s.receiver.taken ++ held s.mbox ++ s.sender.written
  sender : SenderOk s.mbox s.sender
  receiver : ReceiverOk s.mbox s.receiver

variable {m m' : Mailbox} {buf : Buffer} {max copy : U32} {got : List U8} {i : ℕ}

theorem Writing.mono (hhead : m'.head = m.head) (hdata : m'.data = m.data)
    (hused : (mboxUsed m').toNat ≤ (mboxUsed m).toNat) (h : Writing m buf i) : Writing m' buf i := by
  refine ⟨by have := h.fits; omega, h.le, ?_⟩
  rw [hhead, hdata]
  exact h.stored

/-- A receiver that takes bytes does not disturb the sender. -/
theorem SenderOk.mono (hhead : m'.head = m.head) (hdata : m'.data = m.data)
    (hused : (mboxUsed m').toNat ≤ (mboxUsed m).toNat) {p : Sender} (h : SenderOk m p) : SenderOk m' p := by
  cases p with
  | idle => trivial
  | unlock => trivial
  | lock pc buf => exact Writing.mono hhead hdata hused h
  | index buf i => exact Writing.mono hhead hdata hused h
  | store buf i head => exact ⟨h.1.mono hhead hdata hused, h.2.1, h.2.2.trans hhead.symm⟩
  | advance buf head => exact ⟨h.1.mono hhead hdata hused, h.2.trans hhead.symm⟩

/-- The used cells stay used, and keep their bytes. -/
structure Ahead (m m' : Mailbox) : Prop where
  tail : m'.tail = m.tail
  used : (mboxUsed m).toNat ≤ (mboxUsed m').toNat
  data : ∀ k ≤ (mboxUsed m).toNat,
    readCyclic 256 m'.data m.tail.toNat k = readCyclic 256 m.data m.tail.toNat k

theorem Taking.mono (ha : Ahead m m') (h : Taking m copy got) : Taking m' copy got := by
  refine ⟨h.used.trans ha.used, h.le, ?_⟩
  rw [ha.tail, ha.data _ (h.le.trans h.used)]
  exact h.loaded

/-- A sender that writes ahead of the used cells does not disturb the receiver. -/
theorem ReceiverOk.mono (ha : Ahead m m') {p : Receiver} (h : ReceiverOk m p) : ReceiverOk m' p := by
  cases p with
  | idle => trivial
  | lock pc max => trivial
  | count max => trivial
  | unlock got => trivial
  | countTail max head =>
      show (masked (head - m'.tail)).toNat ≤ _
      rw [ha.tail]
      exact Nat.le_trans h ha.used
  | countHead max tail => exact Eq.trans h ha.tail.symm
  | index copy got => exact Taking.mono ha h
  | load copy got tail => exact ⟨h.1.mono ha, h.2.1, h.2.2.trans ha.tail.symm⟩
  | advance copy got tail => exact ⟨h.1.mono ha, h.2.1, h.2.2.trans ha.tail.symm⟩

/-! ## One access -/

/-- Storing the next byte. -/
def Mailbox.put (m : Mailbox) (buf : Buffer) (i : ℕ) : Mailbox :=
  { m with data := Function.update m.data (cell m.head i) (buf.1.getD i 0) }

theorem take_getD (h : i < buf.1.length) : buf.1.take (i + 1) = buf.1.take i ++ [buf.1.getD i 0] := by
  rw [List.take_succ_eq_append_getElem h, List.getD_eq_getElem?_getD, List.getElem?_eq_getElem h,
    Option.getD_some]

theorem put_data (m : Mailbox) (buf : Buffer) (i : ℕ) :
    (m.put buf i).data = writeCyclic 256 m.data (m.head.toNat + i) [buf.1.getD i 0] := by
  show Function.update _ _ _ = _
  rw [cell_eq]
  rfl

theorem Writing.ahead_put (h : Writing m buf i) (hi : i < buf.1.length) : Ahead m (m.put buf i) := by
  have hfits := h.fits
  refine ⟨rfl, le_rfl, fun k hk => ?_⟩
  have hcell : (m.head.toNat + i) % 256 = (m.tail.toNat + ((mboxUsed m).toNat + i)) % 256 := by
    rw [Nat.add_mod, head_eq, ← Nat.add_mod, Nat.add_assoc]
  rw [put_data, writeCyclic_of_mod_eq hcell]
  exact readCyclic_writeCyclic_ahead (by omega) (by rw [List.length_singleton]; omega)

/-- **One byte more** has been stored. -/
theorem Writing.put (h : Writing m buf i) (hi : i < buf.1.length) : Writing (m.put buf i) buf (i + 1) := by
  have hfits := h.fits
  refine ⟨hfits, hi, ?_⟩
  have hold : readCyclic 256 (m.put buf i).data m.head.toNat i = buf.1.take i := by
    rw [put_data, readCyclic_writeCyclic_ahead le_rfl (by rw [List.length_singleton]; omega), h.stored]
  have hnew : readCyclic 256 (m.put buf i).data (m.head.toNat + i) 1 = [buf.1.getD i 0] := by
    rw [put_data]
    exact readCyclic_writeCyclic (by rw [List.length_singleton]; omega)
  show readCyclic 256 _ m.head.toNat (i + 1) = _
  rw [readCyclic_add, hold, hnew, take_getD hi]

theorem held_put (h : Writing m buf i) (hi : i < buf.1.length) : held (m.put buf i) = held m :=
  (h.ahead_put hi).data _ le_rfl

/-- Storing the head. -/
def Mailbox.publish (m : Mailbox) (buf : Buffer) : Mailbox :=
  { m with head := masked (m.head + Buffer.len buf) }

theorem used_publish (h : Writing m buf i) :
    (mboxUsed (m.publish buf)).toNat = (mboxUsed m).toNat + buf.1.length := by
  have hused : (mboxUsed (m.publish buf)).toNat = ((mboxUsed m).toNat + buf.1.length) % 256 :=
    used_send m buf
  have hfits := h.fits
  rw [hused, Nat.mod_eq_of_lt (by omega)]

theorem Writing.ahead_publish (h : Writing m buf i) : Ahead m (m.publish buf) :=
  ⟨rfl, by rw [used_publish h]; omega, fun _ _ => rfl⟩

/-- **The message becomes visible** as a whole. -/
theorem held_publish (h : Writing m buf buf.1.length) : held (m.publish buf) = held m ++ buf.1 := by
  have hmessage : readCyclic 256 m.data (m.tail.toNat + (mboxUsed m).toNat) buf.1.length = buf.1 := by
    rw [← readCyclic_mod, ← head_eq, readCyclic_mod, h.stored, List.take_length]
  show readCyclic 256 m.data m.tail.toNat (mboxUsed (m.publish buf)).toNat = _
  rw [used_publish h, readCyclic_add, hmessage]
  rfl

theorem receiverOk_startCopy {head tail : U32} (h : (masked (head - tail)).toNat ≤ (mboxUsed m).toNat) :
    ReceiverOk m (startCopy max head tail) := by
  refine ⟨?_, Nat.zero_le _, rfl⟩
  show (if max < masked (head - tail) then max else masked (head - tail)).toNat ≤ _
  split_ifs with hmax
  · exact (Nat.le_of_lt hmax).trans h
  · exact h

/-- **One byte more** has been copied. -/
theorem Taking.load (h : Taking m copy got) (hlt : got.length < copy.toNat) :
    Taking m copy (got ++ [m.data (cell m.tail got.length)]) := by
  have hlength : (got ++ [m.data (cell m.tail got.length)]).length = got.length + 1 := List.length_append
  refine ⟨h.used, by rw [hlength]; exact hlt, ?_⟩
  rw [hlength, readCyclic_add, h.loaded, cell_eq]
  rfl

/-! ## One step -/

theorem submitted_append (es fs : List (Act × Seen)) : submitted (es ++ fs) = submitted es ++ submitted fs :=
  List.flatMap_append

theorem stored_append (es fs : List (Act × Seen)) : stored (es ++ fs) = stored es ++ stored fs :=
  List.flatMap_append

theorem returned_append (es fs : List (Act × Seen)) : returned (es ++ fs) = returned es ++ returned fs :=
  List.flatMap_append

variable {es : List (Act × Seen)} {s s' t : System} {r : Seen} {b : Bool} {m7 m7' m4 m4' : U32}
  {p p' : Sender} {q q' : Receiver}

theorem Ahead.refl (m : Mailbox) : Ahead m m := ⟨rfl, le_rfl, fun _ _ => rfl⟩

theorem Inv.sender_access (h : Inv es ⟨m, m7, m4, p, q⟩) (hr : returned [(.sender, r)] = [])
    (hpending : held m' ++ p'.pending = held m ++ p.pending)
    (hwritten : held m' ++ p'.written = held m ++ p.written ++ stored [(.sender, r)])
    (ha : Ahead m m') (hp : SenderOk m' p') : Inv (es ++ [(.sender, r)]) ⟨m', m7', m4, p', q⟩ := by
  refine ⟨?_, ?_, hp, h.receiver.mono ha⟩
  · rw [submitted_append, returned_append, hr, h.messages]
    show _ ++ _ ++ held m ++ p.pending ++ [] = returned es ++ [] ++ _ ++ held m' ++ p'.pending
    simp only [List.append_nil, List.append_assoc, hpending]
  · rw [stored_append, returned_append, hr, h.bytes]
    show _ ++ _ ++ held m ++ p.written ++ _ = returned es ++ [] ++ _ ++ held m' ++ p'.written
    simp only [List.append_nil, List.append_assoc] at hwritten ⊢
    rw [hwritten]

theorem Inv.receiver_access (h : Inv es ⟨m, m7, m4, p, q⟩) (hr : stored [(.receiver b, r)] = [])
    (htaken : returned [(.receiver b, r)] ++ q'.taken ++ held m' = q.taken ++ held m)
    (hhead : m'.head = m.head) (hdata : m'.data = m.data)
    (hused : (mboxUsed m').toNat ≤ (mboxUsed m).toNat) (hq : ReceiverOk m' q') :
    Inv (es ++ [(.receiver b, r)]) ⟨m', m7, m4', p, q'⟩ := by
  simp only [List.append_assoc] at htaken
  refine ⟨?_, ?_, h.sender.mono hhead hdata hused, hq⟩
  · rw [submitted_append, returned_append, h.messages]
    show _ ++ q.taken ++ held m ++ _ ++ [] = _ ++ q'.taken ++ held m' ++ p.pending
    simp only [List.append_nil, List.append_assoc]
    rw [← List.append_assoc q.taken, ← htaken]
    simp only [List.append_assoc]
  · rw [stored_append, returned_append, hr, h.bytes]
    show _ ++ q.taken ++ held m ++ _ ++ [] = _ ++ q'.taken ++ held m' ++ p.written
    simp only [List.append_nil, List.append_assoc]
    rw [← List.append_assoc q.taken, ← htaken]
    simp only [List.append_assoc]

/-- **An access of the sender.** -/
theorem Inv.sender_step (h : Inv es s) (hs : senderStep s = some (r, s')) : Inv (es ++ [(.sender, r)]) s' := by
  obtain ⟨m, m7, m4, p, q⟩ := s
  have hp : SenderOk m p := h.sender
  cases p with
  | idle => cases hs
  | lock pc buf =>
      cases hs
      cases hspin : (spinStep pc m7).1 with
      | none =>
          rw [show (none : Option SpinPc).elim (Sender.index buf 0) (.lock · buf) = .index buf 0 from rfl]
          exact h.sender_access rfl rfl (List.append_nil _).symm (.refl m) hp
      | some pc => exact h.sender_access rfl rfl (List.append_nil _).symm (.refl m) hp
  | index buf i =>
      cases hs
      show Inv _ ⟨m, m7, m4, if i < buf.1.length then .store buf i m.head else .advance buf m.head, q⟩
      split_ifs with hi
      · exact h.sender_access rfl rfl (List.append_nil _).symm (.refl m) ⟨hp, hi, rfl⟩
      · obtain rfl : i = buf.1.length := Nat.le_antisymm hp.le (Nat.not_lt.mp hi)
        refine h.sender_access rfl rfl ?_ (.refl m) ⟨hp, rfl⟩
        show held m ++ buf.1 = held m ++ buf.1.take buf.1.length ++ []
        rw [List.take_length, List.append_nil]
  | store buf i head =>
      obtain ⟨hw, hi, rfl⟩ := hp
      cases hs
      refine h.sender_access rfl (congrArg (· ++ buf.1) (held_put hw hi)) ?_ (hw.ahead_put hi) (hw.put hi)
      show held (m.put buf i) ++ buf.1.take (i + 1) = held m ++ buf.1.take i ++ [buf.1.getD i 0]
      rw [held_put hw hi, take_getD hi, List.append_assoc]
  | advance buf head =>
      obtain ⟨hw, rfl⟩ := hp
      cases hs
      have hheld : held (m.publish buf) ++ [] = held m ++ buf.1 := by rw [List.append_nil, held_publish hw]
      exact h.sender_access rfl hheld (hheld.trans (List.append_nil _).symm) hw.ahead_publish trivial
  | unlock =>
      cases hs
      exact h.sender_access rfl rfl (List.append_nil _).symm (.refl m) trivial

/-- **An access of the receiver.** -/
theorem Inv.receiver_step (h : Inv es s) (hs : receiverStep s b = some (r, s')) :
    Inv (es ++ [(.receiver b, r)]) s' := by
  obtain ⟨m, m7, m4, p, q⟩ := s
  have hq : ReceiverOk m q := h.receiver
  cases q with
  | idle => cases hs
  | lock pc max =>
      cases hs
      cases hspin : (spinStep pc m4).1 with
      | none => exact h.receiver_access rfl rfl rfl rfl le_rfl trivial
      | some pc => exact h.receiver_access rfl rfl rfl rfl le_rfl trivial
  | count max =>
      cases hs
      cases b with
      | false => exact h.receiver_access rfl rfl rfl rfl le_rfl (le_refl (mboxUsed m).toNat)
      | true => exact h.receiver_access rfl rfl rfl rfl le_rfl rfl
  | countTail max head =>
      cases hs
      exact h.receiver_access rfl rfl rfl rfl le_rfl (receiverOk_startCopy hq)
  | countHead max tail =>
      obtain rfl : tail = m.tail := hq
      cases hs
      exact h.receiver_access rfl rfl rfl rfl le_rfl (receiverOk_startCopy (le_refl (mboxUsed m).toNat))
  | index copy got =>
      cases hs
      show Inv _ ⟨m, m7, m4, p, if got.length < copy.toNat then .load copy got m.tail else
        .advance copy got m.tail⟩
      split_ifs with hlt
      · exact h.receiver_access rfl rfl rfl rfl le_rfl ⟨hq, hlt, rfl⟩
      · exact h.receiver_access rfl rfl rfl rfl le_rfl ⟨hq, Nat.le_antisymm hq.le (Nat.not_lt.mp hlt), rfl⟩
  | load copy got tail =>
      obtain ⟨ht, hlt, rfl⟩ := hq
      cases hs
      exact h.receiver_access rfl rfl rfl rfl le_rfl (ht.load hlt)
  | advance copy got tail =>
      obtain ⟨ht, heq, rfl⟩ := hq
      cases hs
      have hgot : readCyclic 256 m.data m.tail.toNat copy.toNat = got := by rw [← heq, ht.loaded]
      have hheld : got ++ held { m with tail := masked (m.tail + copy) } = held m := by
        rw [← hgot]
        exact held_advance ht.used
      refine h.receiver_access rfl hheld rfl rfl ?_ trivial
      rw [used_advance ht.used]
      omega
  | unlock got =>
      cases hs
      refine h.receiver_access rfl ?_ rfl rfl le_rfl trivial
      show got ++ [] ++ [] ++ held m = got ++ held m
      rw [List.append_nil, List.append_nil]

/-- **One step** of a run in which every message fits. -/
theorem Inv.act {a : Act} (h : Inv es s) (hfits : s.Fits (a, r)) (hs : act s a = some (r, s')) :
    Inv (es ++ [(a, r)]) s' := by
  cases a with
  | sender => exact h.sender_step hs
  | receiver b => exact h.receiver_step hs
  | send buf =>
      obtain ⟨m, m7, m4, p, q⟩ := s
      cases p with
      | idle =>
          cases hs
          have hlt := used_lt m
          have hle : buf.1.length ≤ (mboxFree m).toNat := hfits
          rw [free_eq] at hle
          have hroom : (mboxUsed m).toNat + buf.1.length ≤ 255 := by omega
          refine ⟨?_, ?_, ⟨hroom, Nat.zero_le _, rfl⟩, h.receiver⟩
          · rw [submitted_append, returned_append, h.messages]
            show _ ++ _ ++ held m ++ [] ++ (buf.1 ++ []) = returned es ++ [] ++ _ ++ held m ++ buf.1
            simp only [List.append_nil, List.append_assoc]
          · rw [stored_append, returned_append, h.bytes]
            show _ ++ _ ++ held m ++ [] ++ [] = returned es ++ [] ++ _ ++ held m ++ []
            simp only [List.append_nil]
      | lock pc buf => cases hs
      | index buf i => cases hs
      | store buf i head => cases hs
      | advance buf head => cases hs
      | unlock => cases hs
  | recv max =>
      obtain ⟨m, m7, m4, p, q⟩ := s
      cases q with
      | idle =>
          cases hs
          refine ⟨?_, ?_, h.sender, trivial⟩
          · rw [submitted_append, returned_append, h.messages]
            show _ ++ [] ++ held m ++ _ ++ [] = returned es ++ [] ++ [] ++ held m ++ _
            simp only [List.append_nil]
          · rw [stored_append, returned_append, h.bytes]
            show _ ++ [] ++ held m ++ _ ++ [] = returned es ++ [] ++ [] ++ held m ++ _
            simp only [List.append_nil]
      | lock pc max => cases hs
      | count max => cases hs
      | countTail max head => cases hs
      | countHead max tail => cases hs
      | index copy got => cases hs
      | load copy got tail => cases hs
      | advance copy got tail => cases hs
      | unlock got => cases hs

theorem System.Fresh.inv (h : s.Fresh) : Inv [] s := by
  obtain ⟨m, m7, m4, p, q⟩ := s
  obtain ⟨hempty, hp, hq⟩ := h
  obtain rfl : p = .idle := hp
  obtain rfl : q = .idle := hq
  have hheld : held m = [] := by
    rw [held, mboxUsed, show m.head = m.tail from hempty, BitVec.sub_self]
    rfl
  refine ⟨?_, ?_, trivial, trivial⟩
  · show [] = [] ++ [] ++ held m ++ []
    rw [hheld]
    rfl
  · show [] = [] ++ [] ++ held m ++ []
    rw [hheld]
    rfl

/-- **One run.** -/
theorem inv_of_run (hs : s.Fresh) (h : Run act s es t) (ha : Along act System.Fits s es) : Inv es t := by
  refine h.history (fun es t => Along act System.Fits s es → Inv es t) (fun _ => hs.inv) ?_ ha
  intro es t a r u hrun ih hstep halong
  obtain ⟨halong, hfits⟩ := (along_snoc hrun).mp halong
  exact (ih halong).act hfits hstep

/-- **The receiver returns only bytes that the sender has stored**, each once and in the order of the messages,
in every interleaving; when no call is under way, what it has not returned is in the mailbox. -/
theorem returned_prefix_stored (hs : s.Fresh) (h : Run act s es t) (ha : Along act System.Fits s es) :
    returned es <+: stored es ∧ stored es <+: submitted es ∧
      (t.sender = .idle → t.receiver = .idle → submitted es = returned es ++ held t.mbox) := by
  have hinv := inv_of_run hs h ha
  have hwritten : t.sender.written <+: t.sender.pending := by
    cases t.sender with
    | idle => exact List.prefix_rfl
    | lock pc buf => exact List.nil_prefix
    | index buf i => exact List.take_prefix i _
    | store buf i head => exact List.take_prefix i _
    | advance buf head => exact List.prefix_rfl
    | unlock => exact List.prefix_rfl
  refine ⟨?_, ?_, ?_⟩
  · rw [hinv.bytes, List.append_assoc, List.append_assoc]
    exact List.prefix_append _ _
  · rw [hinv.bytes, hinv.messages]
    exact (List.prefix_append_right_inj _).mpr hwritten
  · intro hp hq
    rw [hinv.messages, hp, hq]
    show _ ++ [] ++ _ ++ [] = _
    rw [List.append_nil, List.append_nil]

/-- An empty mailbox. -/
def fresh : System := ⟨⟨0, 0, fun _ => 0⟩, 0, 0, .idle, .idle⟩

/-- A message of one byte. Its receiver starts before it is visible and loads the tail first. -/
def oneByte : List (Act × Seen) :=
  [(.send ⟨[7], by decide⟩, .nothing), (.sender, .nothing), (.recv 2, .nothing), (.receiver true, .nothing),
    (.sender, .nothing), (.receiver true, .nothing), (.sender, .stored 7), (.sender, .nothing),
    (.sender, .nothing), (.receiver true, .nothing), (.sender, .nothing), (.receiver true, .nothing),
    (.receiver true, .nothing), (.receiver true, .nothing), (.receiver true, .nothing),
    (.receiver true, .returned [7])]

theorem along_oneByte : Along act System.Fits fresh oneByte := by
  have hroom : [(7 : U8)].length ≤ (mboxFree fresh.mbox).toNat := by decide
  refine (along_cons rfl).mpr ⟨hroom, ?_⟩
  iterate 15 refine (along_cons rfl).mpr ⟨trivial, ?_⟩
  exact along_nil _ _

theorem run_oneByte :
    Run act fresh oneByte ⟨⟨1, 1, Function.update (fun _ => 0) 0 7⟩, 0, 0, .idle, .idle⟩ := by
  iterate 16 refine .cons rfl ?_
  exact .nil _

theorem returned_oneByte :
    returned oneByte = [7] ∧ returned oneByte <+: stored oneByte ∧ stored oneByte <+: submitted oneByte ∧
      submitted oneByte = returned oneByte ++ held ⟨1, 1, Function.update (fun _ => 0) 0 7⟩ := by
  have h := returned_prefix_stored (s := fresh) ⟨rfl, rfl, rfl⟩ run_oneByte along_oneByte
  exact ⟨rfl, h.1, h.2.1, h.2.2 rfl rfl⟩

end BloodKernel.Ipc
