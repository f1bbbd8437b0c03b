import BloodKernel.Kernel.Log

set_option autoImplicit false

/-!
# The log over power cycles

At power-on the static data of `log.c` is initial, the card is as it was, and `log_init` runs.

* `step`: a call, or a power cycle; `writes`: the addresses of the blocks that a run has written;
* `positions`: the place of each write in its power cycle, from the calls and the card's answers;
* **`append_only_iff`**: no block is written twice exactly when no two writes of the run have the same
  place modulo 2^23.
-/

namespace BloodKernel.LogCycles

open Lib Log

def powerOn (ans : Answer) (card : Card) : State := (logInit ans { boot with card := card }).2

inductive Op
  | call (op : Log.Op)
  | power (ans : Answer)

abbrev Event := Op × Option U8

def step (s : State) : Op → Option U8 × State
  | .call op => Log.step s op
  | .power ans => (none, powerOn ans s.card)

/-- The addresses of the blocks that the calls wrote with success, in order. -/
def writes : State → List Event → List U32
  | _, [] => []
  | s, (.call op, r) :: es =>
      (if r = some 0 then [byteAddr s.logBlock] else []) ++ writes (step s (.call op)).2 es
  | s, (.power ans, _) :: es => writes (step s (.power ans)).2 es

/-- A block written is never written again. -/
def AppendOnly (s₀ : State) (es : List Event) : Prop := (writes s₀ es).Nodup

/-- The places of the successful writes in their power cycles, counted from 1 and with the writes that
failed; `p` entries are pending, and `w` blocks have been flushed since power-on. -/
def positions : ℕ → ℕ → List Op → List ℕ
  | _, _, [] => []
  | _, _, .power _ :: ops => positions 0 0 ops
  | p, w, .call op :: ops =>
      let p := p + op.frame.length
      if p = blockEntries ∨ (op.frame = [] ∧ p ≠ 0) then
        (if op.answer.accepts then [w + 1] else []) ++ positions 0 (w + 1) ops
      else positions p w ops

variable {s t : State} {p : List Logged} {w : ℕ} {op : Log.Op}

/-- A call writes a block if the block is complete, or if it is a flush of some entries. -/
theorem writes_iff (h : Buffers s p) (hroom : p.length < blockEntries) : Writes s op ↔
    p.length + op.frame.length = blockEntries ∨
      (op.frame = [] ∧ p.length + op.frame.length ≠ 0) := by
  have he := h.entered hroom op
  have hzero := he.idx_eq_zero_iff
  unfold Writes
  rw [ne_eq, hzero, ← List.length_eq_zero_iff, List.length_append]
  cases op with
  | flush ans =>
      have hne : p.length ≠ blockEntries := hroom.ne
      simp [flushes, Op.frame, hne]
  | log ans ticks f =>
      have hlen : (p ++ (Log.Op.log ans ticks f).frame).length = p.length + 1 := List.length_append
      have hfull := he.full_iff (hlen.trans_le hroom)
      rw [hlen] at hfull
      have hroom : p.length + 1 ≤ blockEntries := hroom
      show _ ∧ ¬ p.length + 1 = 0 ↔ p.length + 1 = blockEntries ∨ _
      rw [flushes, hfull, hroom.ge_iff_eq']
      simp [Op.frame, eq_comm]

/-- **The addresses written** are those of the places. -/
theorem writes_eq {es : List Event} (h : Run (total step) s es t) (hb : Buffers s p)
    (hroom : p.length < blockEntries) (hblock : s.logBlock = BitVec.ofNat 32 (w + 1)) :
    writes s es = (positions p.length w (es.map Prod.fst)).map
      fun n => byteAddr (BitVec.ofNat 32 n) := by
  induction h generalizing p w with
  | nil s => rfl
  | @cons s s' t o r es hs _ ih =>
      have hs := total_eq_some.mp hs
      have hss : (step s o).2 = s' := congrArg Prod.snd hs
      cases o with
      | power ans =>
          have hnil : Buffers s' [] := hss ▸ buffers_nil rfl
          have hone : s'.logBlock = BitVec.ofNat 32 (0 + 1) := hss ▸ rfl
          show writes (step s (.power ans)).2 es = _
          rw [hss]
          exact ih hnil (by decide) hone
      | call op =>
          rw [writes, hss, List.map_cons, positions]
          rcases step_cases (hs : Log.step s op = (r, s')) with ⟨hw, hnil, hnext, hr⟩ | ⟨hw, rfl, rfl⟩
          · -- the buffer is empty again, and one more block has been flushed
            have hblock' : s'.logBlock = BitVec.ofNat 32 (w + 1 + 1) := by
              rw [hnext, hblock]
              exact (BitVec.ofNat_add (w + 1) 1).symm
            rw [if_pos ((writes_iff hb hroom).mp hw), ih hnil (by decide) hblock']
            by_cases ha : op.answer.accepts
            · rw [hr, if_pos ha, if_pos ha, if_pos rfl, hblock]
              rfl
            · rw [hr, if_neg ha, if_neg ha, if_neg (by decide)]
              rfl
          · have he := hb.entered hroom op
            have hlen : (p ++ op.frame).length = p.length + op.frame.length := List.length_append
            rw [if_neg (mt (writes_iff hb hroom).mpr hw), ← hlen]
            exact ih he (hb.room hroom hw) ((entered_logBlock s op).trans hblock)

/-- **When the log is append-only.** Over any sequence of calls and power cycles, from any content of the
card, no block is written twice if and only if no two successful writes have the same place in their
power cycles, modulo 2^23. -/
theorem append_only_iff {ans : Answer} {card : Card} {es : List Event}
    (h : Run (total step) (powerOn ans card) es t) : AppendOnly (powerOn ans card) es ↔
      ((positions 0 0 (es.map Prod.fst)).map (· % 2 ^ 23)).Nodup := by
  have hnil : Buffers (powerOn ans card) [] := buffers_nil rfl
  have hw := writes_eq (w := 0) h hnil (by decide) rfl
  unfold AppendOnly
  rw [hw, List.Nodup, List.Nodup, List.pairwise_map, List.pairwise_map]
  exact List.Pairwise.iff fun m n => not_congr byteAddr_eq_iff

/-- Each of two power cycles flushes an entry. -/
def twoCycles : List Event :=
  [(.call (.log accepted 0 (frame 1)), none), (.call (.flush accepted), some 0),
    (.power accepted, none), (.call (.log accepted 0 (frame 2)), none),
    (.call (.flush accepted), some 0)]

theorem append_only_iff_twoCycles : ∃ t, Run (total step) (powerOn accepted fun _ => none) twoCycles t ∧
    (AppendOnly (powerOn accepted fun _ => none) twoCycles ↔
      ((positions 0 0 (twoCycles.map Prod.fst)).map (· % 2 ^ 23)).Nodup) := by
  obtain ⟨t, h⟩ : ∃ t, Run (total step) (powerOn accepted fun _ => none) twoCycles t :=
    ⟨_, .cons rfl (.cons rfl (.cons rfl (.cons rfl (.cons rfl (.nil _)))))⟩
  exact ⟨t, h, append_only_iff h⟩

/-- Both cycles write block 1. -/
theorem block_rewritten : ¬ ∀ (ans : Answer) (card : Card) (es : List Event) (t : State),
    Run (total step) (powerOn ans card) es t → AppendOnly (powerOn ans card) es := by
  intro hall
  obtain ⟨t, h⟩ : ∃ t, Run (total step) (powerOn accepted fun _ => none) twoCycles t :=
    ⟨_, .cons rfl (.cons rfl (.cons rfl (.cons rfl (.cons rfl (.nil _)))))⟩
  have hnodup := hall _ _ _ t h
  have hw : writes (powerOn accepted fun _ => none) twoCycles = [byteAddr 1, byteAddr 1] := rfl
  unfold AppendOnly at hnodup
  rw [hw] at hnodup
  simp at hnodup

end BloodKernel.LogCycles
