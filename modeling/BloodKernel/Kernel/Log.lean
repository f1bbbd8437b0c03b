import BloodKernel.Kernel.Can
import BloodKernel.Kernel.Sd
import BloodKernel.Lib.Batch

set_option autoImplicit false

/-!
# The log on the SD card

`src/kernel/log.c`. Entries of 20 bytes are collected in `log_buf`, 25 to a block; the buffer is not
cleared when it is written.

* `logInit`, `logCan`, `logFlush`: the functions; `scan`: the records found on the card;
* `readEntry_write`: writing one record of a block and reading another;
* `Inv`: the entries as a `Batch`, and what earlier blocks left in the buffer;
* **`scanned_iff`**: for fewer than 2^23 blocks, the records found are the entries flushed exactly
  when no block is written with fewer entries than an earlier one.
-/

namespace BloodKernel.Log

open Lib

def logMagic : U32 := 0xB10DDEAD

abbrev entrySize : ℕ := 20      -- sizeof(log_entry_t)
abbrev blockEntries : ℕ := 25

/-- `log_entry_t`. -/
@[ext]
structure LogEntry where
  magic : U32
  timestamp : U32
  id : U32
  data : Fin 8 → U8

def LogEntry.bytes (e : LogEntry) (k : Fin entrySize) : U8 :=
  if k.val < 4 then leByte e.magic k
  else if k.val < 8 then leByte e.timestamp (k - 4)
  else if k.val < 12 then leByte e.id (k - 8)
  else e.data (Fin.ofNat 8 (k - 12))

/-- The word at offset `off` of record `i` of a block. -/
def entryWord (b : Block) (i off : ℕ) : U32 :=
  leWord fun k => b (Fin.ofNat sdBlockSize (entrySize * i + (off + k)))

/-- Record `i` of a block. -/
def readEntry (b : Block) (i : ℕ) : LogEntry where
  magic := entryWord b i 0
  timestamp := entryWord b i 4
  id := entryWord b i 8
  data j := b (Fin.ofNat sdBlockSize (entrySize * i + (12 + j)))

/-- What is logged of a frame: its id and its data. -/
abbrev Logged := U32 × (Fin 8 → U8)

def LogEntry.logged (e : LogEntry) : Logged := (e.id, e.data)

/-- The static data of `log.c`, and the card. -/
structure State where
  logBlock : U32
  logBuf : Block
  logIdx : U32
  card : Card

/-- The initial static data; no block has been written. -/
def boot : State := ⟨1, fun _ => 0, 0, fun _ => none⟩

/-! ### The functions -/

/-- The result is that of `sd_write`, if it is called. -/
def logFlush (ans : Answer) (s : State) : Option U8 × State :=
  if s.logIdx ≠ 0 then
    let (r, card) := sdWrite ans s.card s.logBlock s.logBuf
    (some r, { s with logBlock := s.logBlock + 1, card := card, logIdx := 0 })
  else (none, s)

/-- `sd_init` does not touch the log. -/
def logInit (ans : Answer) (s : State) : Option U8 × State := logFlush ans s

/-- The writes through `e`, a pointer into `log_buf`. -/
def writeEntry (s : State) (e : LogEntry) : State :=
  { s with logBuf := memcpy s.logBuf s.logIdx.toNat e.bytes 0 entrySize }

def logCan (ans : Answer) (ticks : U32) (f : CanFrame) (s : State) : Option U8 × State :=
  let s := writeEntry s ⟨logMagic, ticks, f.id, f.data⟩
  let s := { s with logIdx := s.logIdx + BitVec.ofNat 32 entrySize }
  if (s.logIdx + BitVec.ofNat 32 entrySize).toNat > sdBlockSize then logFlush ans s else (none, s)

inductive Op
  | log (ans : Answer) (ticks : U32) (f : CanFrame)
  | flush (ans : Answer)

abbrev Event := Op × Option U8

def step (s : State) : Op → Option U8 × State
  | .log ans ticks f => logCan ans ticks f s
  | .flush ans => logFlush ans s

/-! ### What is found on the card -/

/-- The records of a block: those before the first one without the magic. -/
def records (b : Block) : List Logged :=
  (((List.range blockEntries).map (readEntry b)).takeWhile fun e => e.magic == logMagic).map
    LogEntry.logged

/-- The records of the blocks written among the first `n`, in the order of their addresses. -/
def scanBelow (card : Card) (n : ℕ) : List Logged := (List.range n).flatMap fun p =>
  match card (byteAddr (BitVec.ofNat 32 p)) with
  | some b => records b
  | none => []

/-- The records of all blocks written: 2^23 blocks have a byte address. -/
def scan (card : Card) : List Logged := scanBelow card (2 ^ 23)

/-- The frames passed to `log_can`, in order. -/
def logged (ops : List Op) : List Logged := ops.filterMap fun
  | .log _ _ f => some (f.id, f.data)
  | .flush _ => none

/-- The frames logged whose entries are no longer in the buffer. -/
def flushed (ops : List Op) (t : State) : List Logged :=
  (logged ops).take ((logged ops).length - t.logIdx.toNat / entrySize)

/-- The card holds the entries flushed, each once and in order. -/
def Scanned (es : List Event) (t : State) : Prop := scan t.card = flushed (es.map Prod.fst) t

/-! ### Records of a block -/

section Records

variable {b c : Block} {e : LogEntry} {i j : ℕ}

theorem readEntry_congr (h : ∀ k < entrySize,
    b (Fin.ofNat sdBlockSize (entrySize * i + k)) = c (Fin.ofNat sdBlockSize (entrySize * i + k))) :
    readEntry b i = readEntry c i := by
  have hword : ∀ off, off + 4 ≤ entrySize → entryWord b i off = entryWord c i off := fun off hoff =>
    leWord_congr fun k hk => h (off + k) (by omega)
  apply LogEntry.ext
  · exact hword 0 (by decide)
  · exact hword 4 (by decide)
  · exact hword 8 (by decide)
  · funext k
    exact h (12 + k) (Nat.add_lt_add_left k.isLt 12)

theorem readEntry_eq (h : ∀ k : Fin entrySize,
    b (Fin.ofNat sdBlockSize (entrySize * i + k)) = e.bytes k) : readEntry b i = e := by
  have hword : ∀ (off : ℕ) (v : U32) (hoff : off + 4 ≤ entrySize),
      (∀ k (hk : k < 4), e.bytes ⟨off + k, by omega⟩ = leByte v k) → entryWord b i off = v :=
    fun off v hoff hv => leWord_eq fun k hk => (h ⟨off + k, by omega⟩).trans (hv k hk)
  apply LogEntry.ext
  · refine hword 0 _ (by decide) fun k hk => ?_
    simp only [LogEntry.bytes, Nat.zero_add, if_pos hk]
  · refine hword 4 _ (by decide) fun k hk => ?_
    have h4 : ¬ 4 + k < 4 := by omega
    have h8 : 4 + k < 8 := by omega
    simp only [LogEntry.bytes, if_neg h4, if_pos h8, Nat.add_sub_cancel_left]
  · refine hword 8 _ (by decide) fun k hk => ?_
    have h4 : ¬ 8 + k < 4 := by omega
    have h8 : ¬ 8 + k < 8 := by omega
    have h12 : 8 + k < 12 := by omega
    simp only [LogEntry.bytes, if_neg h4, if_neg h8, if_pos h12, Nat.add_sub_cancel_left]
  · funext k
    have hk : 12 + k.val < entrySize := Nat.add_lt_add_left k.isLt 12
    have h4 : ¬ 12 + k.val < 4 := by omega
    have h8 : ¬ 12 + k.val < 8 := by omega
    have h12 : ¬ 12 + k.val < 12 := by omega
    refine (h ⟨12 + k, hk⟩).trans ?_
    simp only [LogEntry.bytes, if_neg h4, if_neg h8, if_neg h12, Nat.add_sub_cancel_left]
    exact congrArg e.data (Fin.ext (Nat.mod_eq_of_lt k.isLt))

theorem entry_index {k : ℕ} (hi : i < blockEntries) (hk : k < entrySize) :
    (Fin.ofNat sdBlockSize (entrySize * i + k)).val = entrySize * i + k := by
  have hi : i < 25 := hi
  have hk : k < 20 := hk
  exact Nat.mod_eq_of_lt (by change 20 * i + k < 512; omega)

theorem readEntry_memcpy_self (hi : i < blockEntries) :
    readEntry (memcpy b (entrySize * i) e.bytes 0 entrySize) i = e := by
  refine readEntry_eq fun k => ?_
  have hidx := entry_index hi k.isLt
  exact memcpy_of_lt k (by omega) (by omega) (by omega)

theorem readEntry_memcpy_of_ne (hi : i < blockEntries) (hij : i ≠ j) :
    readEntry (memcpy b (entrySize * j) e.bytes 0 entrySize) i = readEntry b i := by
  refine readEntry_congr fun k hk => memcpy_of_not fun hle => ?_
  have hidx := entry_index hi hk
  have hk : k < 20 := hk
  change 20 * j ≤ (Fin.ofNat sdBlockSize (20 * i + k)).val at hle
  change (Fin.ofNat sdBlockSize (20 * i + k)).val = 20 * i + k at hidx
  show 20 * j + 20 ≤ (Fin.ofNat sdBlockSize (20 * i + k)).val
  omega

theorem takeWhile_range {p : ℕ → Bool} {m n : ℕ} (hmn : m ≤ n) (hp : ∀ k < n, p k = true ↔ k < m) :
    (List.range n).takeWhile p = List.range m := by
  obtain ⟨d, rfl⟩ := Nat.exists_eq_add_of_le hmn
  have hpos : ∀ k ∈ List.range m, p k = true := fun k hk => by
    have hk := List.mem_range.mp hk
    exact (hp k (by omega)).mpr hk
  rw [List.range_add, List.takeWhile_append_of_pos hpos]
  cases d with
  | zero => exact List.append_nil _
  | succ d =>
      have hneg : ¬ p m = true := fun h => (Nat.lt_irrefl m) ((hp m (by omega)).mp h)
      rw [List.range_succ_eq_map, List.map_cons, Nat.add_zero, List.takeWhile_cons_of_neg hneg,
        List.append_nil]

theorem records_eq {m : ℕ} (hm : m ≤ blockEntries)
    (h : ∀ k < blockEntries, (readEntry b k).magic = logMagic ↔ k < m) :
    records b = (List.range m).map fun k => (readEntry b k).logged := by
  unfold records
  rw [List.takeWhile_map, List.map_map, takeWhile_range hm fun k hk => ?_]
  · rfl
  · exact beq_iff_eq.trans (h k hk)

/-- **The records of a block** with the magic in its first `m` records, of which the first ones are
`g`: these, and what follows them. -/
theorem exists_stale {m : ℕ} {g : List Logged} (hm : m ≤ blockEntries) (hg : g.length ≤ m)
    (h : ∀ k < blockEntries, (readEntry b k).magic = logMagic ↔ k < m)
    (hentries : ∀ k (hk : k < g.length), (readEntry b k).logged = g[k]) :
    ∃ stale, records b = g ++ stale ∧ stale.length = m - g.length := by
  obtain ⟨d, rfl⟩ := Nat.exists_eq_add_of_le hg
  refine ⟨(List.range d).map fun k => (readEntry b (g.length + k)).logged, ?_, by simp⟩
  rw [records_eq hm h, List.range_add, List.map_append, List.map_map]
  congr 1
  refine List.ext_getElem (by simp) fun k h₁ h₂ => ?_
  rw [List.getElem_map, List.getElem_range]
  exact hentries k h₂

end Records

/-! ### The blocks on the card -/

section Blocks

variable {card : Card} {groups : List (List Logged)} {buf : Block} {g stale : List Logged}

theorem scanBelow_succ (card : Card) (n : ℕ) : scanBelow card (n + 1) = scanBelow card n ++
    match card (byteAddr (BitVec.ofNat 32 n)) with
    | some b => records b
    | none => [] := by
  unfold scanBelow
  rw [List.range_succ, List.flatMap_append, List.flatMap_singleton]

theorem scanBelow_congr {card' : Card} {n : ℕ} (h : ∀ p < n,
    card (byteAddr (BitVec.ofNat 32 p)) = card' (byteAddr (BitVec.ofNat 32 p))) :
    scanBelow card n = scanBelow card' n := by
  induction n with
  | zero => rfl
  | succ n ih =>
      rw [scanBelow_succ, scanBelow_succ, ih fun p hp => h p (Nat.lt_succ_of_lt hp),
        h n (Nat.lt_succ_self n)]

theorem scanBelow_blank {n N : ℕ} (hn : n ≤ N)
    (h : ∀ p, n ≤ p → p < N → card (byteAddr (BitVec.ofNat 32 p)) = none) :
    scanBelow card N = scanBelow card n := by
  induction N, hn using Nat.le_induction with
  | base => rfl
  | succ N hN ih =>
      rw [scanBelow_succ, h N hN (Nat.lt_succ_self N), List.append_nil]
      exact ih fun p hp hlt => h p hp (Nat.lt_succ_of_lt hlt)

theorem exists_scanBelow_eq (h : card (byteAddr (BitVec.ofNat 32 0)) = some buf) (n : ℕ) :
    ∃ rest, scanBelow card (n + 1) = records buf ++ rest := by
  induction n with
  | zero =>
      refine ⟨[], ?_⟩
      rw [scanBelow_succ, h]
      exact (List.append_nil _).symm
  | succ n ih =>
      obtain ⟨rest, hrest⟩ := ih
      rw [scanBelow_succ, hrest, List.append_assoc]
      exact ⟨_, rfl⟩

/-- The card after the block following the first `w` ones has been written. -/
def writeNext (card : Card) (w : ℕ) (buf : Block) : Card :=
  Function.update card (byteAddr (BitVec.ofNat 32 (w + 1))) (some buf)

theorem writeNext_of_ne {w p : ℕ} (hw : w + 1 < 2 ^ 23) (hp : p < 2 ^ 23) (hne : p ≠ w + 1) :
    writeNext card w buf (byteAddr (BitVec.ofNat 32 p)) = card (byteAddr (BitVec.ofNat 32 p)) :=
  Function.update_of_ne (fun he => hne (byteAddr_inj hp hw he)) _ _

theorem scanBelow_writeNext {w : ℕ} (hw : w + 1 < 2 ^ 23) :
    scanBelow (writeNext card w buf) (w + 2) = scanBelow card (w + 1) ++ records buf := by
  have hnew : writeNext card w buf (byteAddr (BitVec.ofNat 32 (w + 1))) = some buf :=
    Function.update_self _ _ _
  have hold : scanBelow (writeNext card w buf) (w + 1) = scanBelow card (w + 1) :=
    scanBelow_congr fun p hp => writeNext_of_ne hw (hp.trans hw) hp.ne
  rw [scanBelow_succ, hold, hnew]

theorem append_eq_append_iff_of_le {S F : List Logged} (h : F.length ≤ S.length) :
    S ++ (g ++ stale) = F ++ g ↔ S = F ∧ stale = [] := by
  constructor
  · intro he
    have hlen := congrArg List.length he
    simp only [List.length_append] at hlen
    have hx : stale = [] := List.eq_nil_of_length_eq_zero (by omega)
    rw [hx, List.append_nil] at he
    exact ⟨List.append_cancel_right he, hx⟩
  · rintro ⟨rfl, rfl⟩
    rw [List.append_nil]

/-- The card after the blocks with the entries `groups` have been written. Up to 2^23 of them, the
records found are the entries exactly if the groups are growing; from then on, the first record found
is one of a later block. -/
structure CardInv (card : Card) (groups : List (List Logged)) : Prop where
  blank : ∀ p, groups.length < p → p < 2 ^ 23 → card (byteAddr (BitVec.ofNat 32 p)) = none
  scan_le : groups.length < 2 ^ 23 →
    groups.flatten.length ≤ (scanBelow card (groups.length + 1)).length
  scan_iff : groups.length < 2 ^ 23 →
    (scanBelow card (groups.length + 1) = groups.flatten ↔ Batch.Growing groups)
  wrapped : 2 ^ 23 ≤ groups.length → ∃ buf x, card (byteAddr (BitVec.ofNat 32 0)) = some buf ∧
    (records buf).head? = some x ∧ x ∈ groups.tail.flatten

theorem cardInv_nil : CardInv (fun _ => none) [] where
  blank _ _ _ := rfl
  scan_le _ := Nat.zero_le _
  scan_iff _ := iff_of_true rfl List.Pairwise.nil
  wrapped h := absurd h (by decide)

theorem CardInv.write_wrapped (h : CardInv card groups) (hg : g ≠ [])
    (hrec : records buf = g ++ stale) (hw : 2 ^ 23 ≤ groups.length + 1) :
    ∃ buf' x, writeNext card groups.length buf (byteAddr (BitVec.ofNat 32 0)) = some buf' ∧
      (records buf').head? = some x ∧ x ∈ (groups ++ [g]).tail.flatten := by
  have hne : groups ≠ [] := fun h0 => by
    rw [h0] at hw
    exact absurd hw (by decide)
  rw [List.tail_append_of_ne_nil hne, List.flatten_append, List.flatten_singleton]
  by_cases hz : byteAddr (BitVec.ofNat 32 (groups.length + 1)) = byteAddr (BitVec.ofNat 32 0)
  · -- block 0 is overwritten
    refine ⟨buf, g.head hg, ?_, ?_, List.mem_append_right _ (List.head_mem hg)⟩
    · rw [← hz]
      exact Function.update_self _ _ _
    · rw [hrec, List.head?_append_of_ne_nil _ hg, List.head?_eq_some_head hg]
  · have hw' : 2 ^ 23 ≤ groups.length := by
      by_contra hlt
      rw [show groups.length + 1 = 2 ^ 23 by omega] at hz
      exact hz byteAddr_wrap
    obtain ⟨buf', x, hbuf, hx, hmem⟩ := h.wrapped hw'
    refine ⟨buf', x, ?_, hx, List.mem_append_left _ hmem⟩
    exact (Function.update_of_ne (Ne.symm hz) _ _).trans hbuf

/-- **Writing a block.** Its records are `g` and what earlier blocks left in the buffer. -/
theorem CardInv.write (h : CardInv card groups) (hg : g ≠ []) (hrec : records buf = g ++ stale)
    (hstale : stale = [] ↔ ∀ g' ∈ groups, g'.length ≤ g.length) :
    CardInv (writeNext card groups.length buf) (groups ++ [g]) := by
  have hlen : (groups ++ [g]).length = groups.length + 1 := List.length_append
  have hflat : (groups ++ [g]).flatten = groups.flatten ++ g := by simp
  refine ⟨fun p hp hlt => ?_, fun hw => ?_, fun hw => ?_, fun hw => ?_⟩
  · rw [hlen] at hp
    rw [writeNext_of_ne (by omega) hlt (by omega)]
    exact h.blank p (by omega) hlt
  · rw [hlen] at hw ⊢
    have := h.scan_le (by omega)
    rw [scanBelow_writeNext hw, hrec, hflat]
    simp only [List.length_append]
    omega
  · rw [hlen] at hw ⊢
    rw [scanBelow_writeNext hw, hrec, hflat, append_eq_append_iff_of_le (h.scan_le (by omega)),
      h.scan_iff (by omega), Batch.growing_snoc_iff, hstale]
  · rw [hlen] at hw
    exact h.write_wrapped hg hrec hw

end Blocks

/-! ### The buffer -/

/-- The state after the writes of `log_can`. -/
def pushed (s : State) (e : LogEntry) : State :=
  { writeEntry s e with logIdx := s.logIdx + BitVec.ofNat 32 entrySize }

/-- The buffer holds the entries `p`. -/
structure Buffers (s : State) (p : List Logged) : Prop where
  idx : s.logIdx.toNat = entrySize * p.length
  entries : ∀ k (hk : k < p.length), (readEntry s.logBuf k).logged = p[k]

section Buffer

variable {s : State} {p : List Logged} {e : LogEntry}

theorem buffers_nil (h : s.logIdx = 0) : Buffers s [] :=
  ⟨by rw [h]; rfl, fun k hk => absurd hk (Nat.not_lt_zero k)⟩

theorem Buffers.logBuf_pushed (h : Buffers s p) : (pushed s e).logBuf =
    memcpy s.logBuf (entrySize * p.length) e.bytes 0 entrySize := by
  rw [← h.idx]
  rfl

/-- **Writing an entry** appends it. -/
theorem Buffers.push (h : Buffers s p) (hroom : p.length < blockEntries) :
    Buffers (pushed s e) (p ++ [e.logged]) := by
  have hroom25 : p.length < 25 := hroom
  have hidx : s.logIdx.toNat = 20 * p.length := h.idx
  refine ⟨?_, fun k hk => ?_⟩
  · show (s.logIdx + BitVec.ofNat 32 20).toNat = 20 * (p ++ [e.logged]).length
    rw [List.length_append, List.length_singleton]
    bv_omega
  · rw [h.logBuf_pushed]
    rw [List.length_append, List.length_singleton] at hk
    by_cases hkn : k = p.length
    · subst hkn
      rw [readEntry_memcpy_self hroom, List.getElem_concat_length]
      rfl
    · have hk' : k < p.length := by omega
      rw [readEntry_memcpy_of_ne (hk'.trans hroom) hkn, List.getElem_append_left hk', h.entries k hk']

theorem Buffers.idx_eq_zero_iff (h : Buffers s p) : s.logIdx = 0 ↔ p = [] := by
  have hidx : s.logIdx.toNat = 20 * p.length := h.idx
  rw [← List.length_eq_zero_iff]
  constructor
  · intro h0
    rw [h0] at hidx
    change 0 = 20 * p.length at hidx
    omega
  · intro h0
    apply BitVec.eq_of_toNat_eq
    rw [hidx, h0]
    rfl

/-- There is no room for another entry exactly if a block is complete. -/
theorem Buffers.full_iff (h : Buffers s p) (hp : p.length ≤ blockEntries) :
    (s.logIdx + BitVec.ofNat 32 entrySize).toNat > sdBlockSize ↔ blockEntries ≤ p.length := by
  have hidx : s.logIdx.toNat = 20 * p.length := h.idx
  have hle : p.length ≤ 25 := hp
  have hsum : (s.logIdx + BitVec.ofNat 32 20).toNat = 20 * p.length + 20 := by bv_omega
  show (s.logIdx + BitVec.ofNat 32 20).toNat > 512 ↔ 25 ≤ p.length
  rw [hsum]
  omega

end Buffer

/-! ### What a call does -/

/-- The state after what `log_can` writes before it tests for a full block. -/
def entered (s : State) : Op → State
  | .log _ ticks f => pushed s ⟨logMagic, ticks, f.id, f.data⟩
  | .flush _ => s

/-- The call runs `log_flush`. -/
def flushes (s : State) (op : Op) : Prop := match op with
  | .log _ _ _ => ((entered s op).logIdx + BitVec.ofNat 32 entrySize).toNat > sdBlockSize
  | .flush _ => True

def Writes (s : State) (op : Op) : Prop := flushes s op ∧ (entered s op).logIdx ≠ 0

def Op.answer : Op → Answer
  | .log ans _ _ => ans
  | .flush ans => ans

def Op.frame : Op → List Logged
  | .log _ _ f => [(f.id, f.data)]
  | .flush _ => []

section Calls

variable {s : State} {op : Op}

theorem step_of_flushes (h : flushes s op) : step s op = logFlush op.answer (entered s op) := by
  cases op with
  | log ans ticks f => exact if_pos h
  | flush ans => rfl

theorem step_of_not_flushes (h : ¬ flushes s op) : step s op = (none, entered s op) := by
  cases op with
  | log ans ticks f => exact if_neg h
  | flush ans => exact absurd trivial h

theorem entered_logBlock (s : State) (op : Op) : (entered s op).logBlock = s.logBlock := by
  cases op with
  | log ans ticks f => rfl
  | flush ans => rfl

theorem logFlush_of_zero {ans : Answer} (h : s.logIdx = 0) : logFlush ans s = (none, s) :=
  if_neg (not_not.mpr h)

theorem logFlush_of_accepts {ans : Answer} (h : s.logIdx ≠ 0) (ha : ans.accepts) : logFlush ans s =
    (some 0, ⟨s.logBlock + 1, s.logBuf, 0,
      Function.update s.card (byteAddr s.logBlock) (some s.logBuf)⟩) := by
  unfold logFlush
  rw [if_pos h, sdWrite_of_accepts ha]

theorem logFlush_of_not_accepts {ans : Answer} (h : s.logIdx ≠ 0) (ha : ¬ ans.accepts) :
    logFlush ans s = (some 1, ⟨s.logBlock + 1, s.logBuf, 0, s.card⟩) := by
  unfold logFlush
  rw [if_pos h, sdWrite_of_not_accepts ha]

theorem step_of_not_writes (h : ¬ Writes s op) : step s op = (none, entered s op) := by
  by_cases hf : flushes s op
  · rw [step_of_flushes hf, logFlush_of_zero (not_not.mp fun h0 => h ⟨hf, h0⟩)]
  · exact step_of_not_flushes hf

theorem step_of_writes (h : Writes s op) : step s op = logFlush op.answer (entered s op) :=
  step_of_flushes h.1

/-- **What a call does**: it writes a block, and the buffer is empty, or it only enters its frame. -/
theorem step_cases {s' : State} {r : Option U8} (hs : step s op = (r, s')) :
    (Writes s op ∧ Buffers s' [] ∧ s'.logBlock = s.logBlock + 1 ∧
      r = some (if op.answer.accepts then 0 else 1)) ∨
    (¬ Writes s op ∧ s' = entered s op ∧ r = none) := by
  by_cases hw : Writes s op
  · rw [step_of_writes hw] at hs
    rw [← entered_logBlock s op]
    by_cases ha : op.answer.accepts
    · rw [logFlush_of_accepts hw.2 ha, Prod.mk.injEq] at hs
      obtain ⟨rfl, rfl⟩ := hs
      exact .inl ⟨hw, buffers_nil rfl, rfl, by rw [if_pos ha]⟩
    · rw [logFlush_of_not_accepts hw.2 ha, Prod.mk.injEq] at hs
      obtain ⟨rfl, rfl⟩ := hs
      exact .inl ⟨hw, buffers_nil rfl, rfl, by rw [if_neg ha]⟩
  · rw [step_of_not_writes hw, Prod.mk.injEq] at hs
    exact .inr ⟨hw, hs.2.symm, hs.1.symm⟩

theorem Buffers.entered {p : List Logged} (h : Buffers s p) (hroom : p.length < blockEntries)
    (op : Op) : Buffers (entered s op) (p ++ op.frame) := by
  cases op with
  | log ans ticks f => exact h.push hroom
  | flush ans =>
      rw [Op.frame, List.append_nil]
      exact h

theorem Buffers.room {p : List Logged} (h : Buffers s p) (hroom : p.length < blockEntries)
    (hw : ¬ Writes s op) : (p ++ op.frame).length < blockEntries := by
  cases op with
  | flush ans => rwa [Op.frame, List.append_nil]
  | log ans ticks f =>
      have he := h.entered hroom (.log ans ticks f)
      have hlen : (p ++ (Op.log ans ticks f).frame).length = p.length + 1 := List.length_append
      have hfull := he.full_iff (hlen.trans_le hroom)
      by_contra hge
      refine hw ⟨hfull.mpr (not_lt.mp hge), fun h0 => ?_⟩
      rw [he.idx_eq_zero_iff.mp h0] at hlen
      cases hlen

theorem Buffers.ne_nil_of_writes {p : List Logged} (h : Buffers s p)
    (hroom : p.length < blockEntries) (hw : Writes s op) : p ++ op.frame ≠ [] :=
  fun h0 => hw.2 ((h.entered hroom op).idx_eq_zero_iff.mpr h0)

end Calls

/-! ### The log as a batch -/

def Op.batch : Op → Batch.Op Logged
  | .log _ _ f => .add (f.id, f.data)
  | .flush _ => .flush

/-- The blocks and the buffer that the calls produce. -/
def batch (ops : List Op) : Batch Logged := Batch.run blockEntries (ops.map Op.batch)

/-- The number of entries of each block written, in order. -/
def fills (ops : List Op) : List ℕ := (batch ops).groups.map List.length

/-- The state holds the batch `b`; `m` is the length of its longest group so far. -/
structure Inv (s : State) (b : Batch Logged) (m : ℕ) : Prop where
  idx : s.logIdx.toNat = entrySize * b.pending.length
  block : s.logBlock = BitVec.ofNat 32 (b.groups.length + 1)
  entries : ∀ k (hk : k < b.pending.length), (readEntry s.logBuf k).logged = b.pending[k]
  magic : ∀ k < blockEntries, (readEntry s.logBuf k).magic = logMagic ↔ k < m
  pending_le : b.pending.length ≤ m
  le : m ≤ blockEntries
  groups_le : ∀ g ∈ b.groups, g.length ≤ m
  attained : m = b.pending.length ∨ ∃ g ∈ b.groups, g.length = m
  card : CardInv s.card b.groups

variable {s s' : State} {b : Batch Logged} {m : ℕ} {ans : Answer}

theorem inv_boot : Inv boot ⟨[], []⟩ 0 where
  idx := rfl
  block := rfl
  entries k hk := absurd hk (Nat.not_lt_zero k)
  magic k _ := iff_of_false (by decide : (leWord fun _ => 0) ≠ logMagic) (Nat.not_lt_zero k)
  pending_le := le_rfl
  le := Nat.zero_le _
  groups_le g hg := absurd hg List.not_mem_nil
  attained := .inl rfl
  card := cardInv_nil

theorem Inv.buffers (h : Inv s b m) : Buffers s b.pending := ⟨h.idx, h.entries⟩

/-- **Writing an entry.** -/
theorem Inv.push {e : LogEntry} (h : Inv s b m) (hroom : b.pending.length < blockEntries)
    (he : e.magic = logMagic) :
    Inv (pushed s e) (b.push e.logged) (max m (b.pending.length + 1)) := by
  have hle := h.pending_le
  have hbuf := h.buffers.push hroom (e := e)
  refine ⟨hbuf.idx, h.block, hbuf.entries, fun k hk => ?_, ?_, max_le h.le hroom, ?_, ?_, h.card⟩
  · rw [h.buffers.logBuf_pushed]
    by_cases hkn : k = b.pending.length
    · subst hkn
      rw [readEntry_memcpy_self hroom]
      exact iff_of_true he (by omega)
    · rw [readEntry_memcpy_of_ne hk hkn, h.magic k hk]
      omega
  · rw [Batch.push_pending, List.length_append]
    exact le_max_right _ _
  · exact fun g hg => (h.groups_le g hg).trans (le_max_left _ _)
  · by_cases hm : m ≤ b.pending.length + 1
    · exact .inl (by simp [max_eq_right hm])
    · rw [max_eq_left (by omega)]
      exact .inr (h.attained.resolve_left (by omega))

theorem logFlush_of_ne {r : Option U8} (h : Inv s b m) (hne : b.pending ≠ [])
    (hs : logFlush ans s = (r, s')) (hr : ∀ x, r = some x → x = 0) :
    s' = ⟨s.logBlock + 1, s.logBuf, 0, writeNext s.card b.groups.length s.logBuf⟩ := by
  have h0 : s.logIdx ≠ 0 := mt h.buffers.idx_eq_zero_iff.mp hne
  by_cases ha : ans.accepts
  · rw [logFlush_of_accepts h0 ha, h.block] at hs
    rw [h.block]
    exact (congrArg Prod.snd hs).symm
  · rw [logFlush_of_not_accepts h0 ha] at hs
    have h1 : r = some 1 := (congrArg Prod.fst hs).symm
    exact absurd (hr 1 h1) (by decide)

/-- **A flush.** -/
theorem Inv.flush {r : Option U8} (h : Inv s b m) (hs : logFlush ans s = (r, s'))
    (hr : ∀ x, r = some x → x = 0) : Inv s' b.flush m := by
  by_cases hne : b.pending = []
  · rw [logFlush_of_zero (h.buffers.idx_eq_zero_iff.mpr hne)] at hs
    have hss : s = s' := congrArg Prod.snd hs
    rw [Batch.flush_of_nil hne, ← hss]
    exact h
  · rw [logFlush_of_ne h hne hs hr, Batch.flush_of_ne hne]
    obtain ⟨stale, hrec, hlen⟩ := exists_stale h.le h.pending_le h.magic h.entries
    -- the buffer has later records exactly if an earlier group is longer
    have hstale : stale = [] ↔ ∀ g ∈ b.groups, g.length ≤ b.pending.length := by
      rw [← List.length_eq_zero_iff, hlen]
      refine ⟨fun h0 g hg => ?_, fun hall => ?_⟩
      · have := h.groups_le g hg
        omega
      · rcases h.attained with hm | ⟨g, hg, hm⟩
        · omega
        · have := hall g hg
          omega
    refine ⟨rfl, ?_, fun k hk => absurd hk (Nat.not_lt_zero k), h.magic, Nat.zero_le _, h.le, ?_, ?_,
      h.card.write hne hrec hstale⟩
    · rw [h.block, List.length_append]
      exact (BitVec.ofNat_add (b.groups.length + 1) 1).symm
    · intro g hg
      rcases List.mem_append.mp hg with hg | hg
      · exact h.groups_le g hg
      · rw [List.mem_singleton.mp hg]
        exact h.pending_le
    · right
      rcases h.attained with hm | ⟨g, hg, hm⟩
      · exact ⟨b.pending, by simp, hm.symm⟩
      · exact ⟨g, List.mem_append_left _ hg, hm⟩

/-- **One call.** -/
theorem Inv.step {op : Op} {r : Option U8} (h : Inv s b m) (hroom : b.pending.length < blockEntries)
    (hs : step s op = (r, s')) (hr : ∀ x, r = some x → x = 0) :
    ∃ m', Inv s' (Batch.step blockEntries b op.batch) m' := by
  cases op with
  | flush ans => exact ⟨m, h.flush hs hr⟩
  | log ans ticks f =>
      have hp := h.push (e := ⟨logMagic, ticks, f.id, f.data⟩) hroom rfl
      refine ⟨max m (b.pending.length + 1), ?_⟩
      have hlen : (b.push (f.id, f.data)).pending.length = b.pending.length + 1 := List.length_append
      have hfull := hp.buffers.full_iff (by rw [LogEntry.logged, hlen]; exact hroom)
      change logCan ans ticks f s = (r, s') at hs
      unfold logCan at hs
      rw [Op.batch, Batch.step]
      by_cases hf : blockEntries ≤ (b.push (f.id, f.data)).pending.length
      · rw [if_pos hf]
        exact hp.flush ((if_pos (hfull.mpr hf)).symm.trans hs) hr
      · rw [if_neg hf]
        have hss : pushed s ⟨logMagic, ticks, f.id, f.data⟩ = s' :=
          congrArg Prod.snd ((if_neg (mt hfull.mp hf)).symm.trans hs)
        exact hss ▸ hp

/-- The calls produce the blocks and the buffer of the batch, if the writes succeed. -/
theorem run_inv {es : List Event} {t : State} (h : Run (total step) boot es t)
    (hok : ∀ e ∈ es, ∀ x, e.2 = some x → x = 0) : ∃ m, Inv t (batch (es.map Prod.fst)) m := by
  refine h.history (fun es t => (∀ e ∈ es, ∀ x, e.2 = some x → x = 0) →
    ∃ m, Inv t (batch (es.map Prod.fst)) m) (fun _ => ⟨0, inv_boot⟩) ?_ hok
  intro es t op r u _ ih hs hok
  obtain ⟨m, hm⟩ := ih fun e he => hok e (List.mem_append_left _ he)
  have hroom := Batch.pending_lt (by decide : 0 < blockEntries) ((es.map Prod.fst).map Op.batch)
  obtain ⟨m', hm'⟩ := hm.step hroom (total_eq_some.mp hs) (hok (op, r) (by simp))
  refine ⟨m', ?_⟩
  rw [batch, List.map_append, List.map_append, List.map_singleton, List.map_singleton,
    Batch.run_snoc]
  exact hm'

/-! ### What the scan finds -/

/-- Every block has at least as many entries as those before it, and there are fewer than 2^23. -/
def LogOk (ops : List Op) : Prop := (fills ops).length < 2 ^ 23 ∧ (fills ops).Pairwise (· ≤ ·)

instance decidableLogOk : DecidablePred LogOk := fun _ => inferInstanceAs (Decidable (_ ∧ _))

/-- The first frame logged is not logged again. -/
def FirstOnce (ops : List Op) : Prop := ∀ x xs, logged ops = x :: xs → x ∉ xs

theorem added_batch (ops : List Op) : Batch.added (ops.map Op.batch) = logged ops := by
  unfold Batch.added logged
  rw [List.filterMap_map]
  congr 1
  funext op
  cases op with
  | log ans ticks f => rfl
  | flush ans => rfl

theorem logged_eq (ops : List Op) :
    logged ops = (batch ops).groups.flatten ++ (batch ops).pending := by
  rw [← added_batch]
  exact (Batch.flatten_groups _ _).symm

theorem Inv.flushed_eq {ops : List Op} {t : State} (h : Inv t (batch ops) m) :
    flushed ops t = (batch ops).groups.flatten := by
  have hdiv : t.logIdx.toNat / entrySize = (batch ops).pending.length := by
    rw [h.idx]
    exact Nat.mul_div_cancel_left _ (by decide)
  unfold flushed
  rw [hdiv, logged_eq, List.length_append, Nat.add_sub_cancel]
  exact List.take_left

theorem fills_length (ops : List Op) : (fills ops).length = (batch ops).groups.length :=
  List.length_map _

theorem Inv.scan_iff {ops : List Op} {t : State} (h : Inv t (batch ops) m)
    (hw : (fills ops).length < 2 ^ 23) :
    scan t.card = flushed ops t ↔ (fills ops).Pairwise (· ≤ ·) := by
  rw [fills_length] at hw
  have hscan : scan t.card = scanBelow t.card ((batch ops).groups.length + 1) :=
    scanBelow_blank hw fun p hp hlt => h.card.blank p hp hlt
  rw [hscan, h.flushed_eq]
  exact h.card.scan_iff hw

/-- With 2^23 blocks or more, the scan starts with a record of a later block. -/
theorem Inv.scan_ne {ops : List Op} {t : State} (h : Inv t (batch ops) m)
    (hw : 2 ^ 23 ≤ (fills ops).length) (hfirst : FirstOnce ops) : scan t.card ≠ flushed ops t := by
  rw [fills_length] at hw
  intro he
  rw [h.flushed_eq] at he
  obtain ⟨buf, x, hbuf, hx, hmem⟩ := h.card.wrapped hw
  obtain ⟨n, hn⟩ := Nat.exists_eq_succ_of_ne_zero (Nat.two_pow_pos 23).ne'
  obtain ⟨rest, hrest⟩ := exists_scanBelow_eq hbuf n
  have hhead : (batch ops).groups.flatten.head? = some x := by
    rw [← he, scan, hn, hrest, List.head?_append, hx]
    rfl
  -- it is a record of the first block as well, so its frame has been logged twice
  cases hgs : (batch ops).groups with
  | nil =>
      rw [hgs] at hhead
      cases hhead
  | cons g gs =>
      have hg : g ≠ [] := Batch.groups_ne_nil _ _ g (hgs ▸ List.mem_cons_self)
      obtain ⟨y, ys, rfl⟩ := List.exists_cons_of_ne_nil hg
      rw [hgs] at hhead hmem
      obtain rfl : y = x := Option.some.inj hhead
      refine hfirst y (ys ++ gs.flatten ++ (batch ops).pending) ?_ ?_
      · rw [logged_eq, hgs]
        rfl
      · exact List.mem_append_left _ (List.mem_append_right _ hmem)

/-- **When the records found are the entries flushed.** In any sequence of calls after `log_init` whose
writes succeed: they are if every block is written with at least as many entries as those before it,
and there are fewer than 2^23 blocks. Conversely, if there are fewer than 2^23 blocks, or the first
frame logged is not logged again, they are only then. -/
theorem scanned_iff {ans : Answer} {es : List Event} {t : State}
    (h : Run (total step) (logInit ans boot).2 es t)
    (hok : ∀ e ∈ es, ∀ x, e.2 = some x → x = 0) :
    (LogOk (es.map Prod.fst) → Scanned es t) ∧
      ((fills (es.map Prod.fst)).length < 2 ^ 23 ∨ FirstOnce (es.map Prod.fst) →
        Scanned es t → LogOk (es.map Prod.fst)) := by
  obtain ⟨m, hm⟩ := run_inv h hok
  refine ⟨fun hlog => (hm.scan_iff hlog.1).mpr hlog.2, fun hor hs => ?_⟩
  by_cases hw : (fills (es.map Prod.fst)).length < 2 ^ 23
  · exact ⟨hw, (hm.scan_iff hw).mp hs⟩
  · exact absurd hs (hm.scan_ne (not_lt.mp hw) (hor.resolve_left hw))

/-- The card accepts the command and the data. -/
def accepted : Answer := ⟨0, 5⟩

def frame (id : U32) : CanFrame := ⟨id, 8, fun _ => 0⟩

/-- A block with one entry, then one with two. -/
def growingEvents : List Event :=
  [(.log accepted 0 (frame 1), none), (.flush accepted, some 0), (.log accepted 1 (frame 2), none),
    (.log accepted 2 (frame 3), none), (.flush accepted, some 0)]

/-- A block with two entries, then one with one. -/
def shrinkingEvents : List Event :=
  [(.log accepted 0 (frame 1), none), (.log accepted 1 (frame 2), none), (.flush accepted, some 0),
    (.log accepted 2 (frame 3), none), (.flush accepted, some 0)]

theorem scanned_iff_growing :
    ∃ t, Run (total step) (logInit accepted boot).2 growingEvents t ∧ Scanned growingEvents t := by
  obtain ⟨t, h⟩ : ∃ t, Run (total step) (logInit accepted boot).2 growingEvents t :=
    ⟨_, .cons rfl (.cons rfl (.cons rfl (.cons rfl (.cons rfl (.nil _)))))⟩
  have hok : ∀ e ∈ growingEvents, ∀ x, e.2 = some x → x = 0 := by
    simp [growingEvents]
  exact ⟨t, h, (scanned_iff h hok).1 (by decide)⟩

/-- The second block still has the second entry of the first one. -/
theorem log_not_scanned :
    ¬ ∀ (ans : Answer) (es : List Event) (t : State), Run (total step) (logInit ans boot).2 es t →
      (∀ e ∈ es, ∀ x, e.2 = some x → x = 0) → Scanned es t := by
  intro hall
  obtain ⟨t, h⟩ : ∃ t, Run (total step) (logInit accepted boot).2 shrinkingEvents t :=
    ⟨_, .cons rfl (.cons rfl (.cons rfl (.cons rfl (.cons rfl (.nil _)))))⟩
  have hok : ∀ e ∈ shrinkingEvents, ∀ x, e.2 = some x → x = 0 := by
    simp [shrinkingEvents]
  obtain ⟨m, hm⟩ := run_inv h hok
  have hgrowing := (hm.scan_iff (by decide)).mp (hall accepted shrinkingEvents t h hok)
  exact absurd hgrowing (by decide)

end BloodKernel.Log
