import BloodKernel.Kernel.Log

set_option autoImplicit false

/-!
# The log when the card refuses a block

`log_flush` ignores the result of `sd_write`, and neither it nor `log_can` returns anything.

* `buffered`, `written`: the entries in the buffer, and those in the blocks that a run has written;
* `KeepsEntries`: a call whose `sd_write` fails keeps the buffered entries and the block number;
* **`kept_iff`**: no entry is lost to a failed write exactly when no write is refused.
-/

namespace BloodKernel.Log

open Lib

/-- The entries in the buffer. -/
def buffered (s : State) : List Logged :=
  (List.range (s.logIdx.toNat / entrySize)).map fun k => (readEntry s.logBuf k).logged

/-- The entries in the blocks that the calls wrote with success, in order. -/
def written : State → List Event → List Logged
  | _, [] => []
  | s, (op, r) :: es =>
      (if r = some 0 then buffered (entered s op) else []) ++ written (step s op).2 es

/-- If the `sd_write` of the call fails, the buffered entries and the block number are kept. -/
def KeepsEntries (s : State) (e : Event) : Prop :=
  ∀ x, e.2 = some x → x ≠ 0 → buffered (step s e.1).2 = buffered (entered s e.1) ∧
    (step s e.1).2.logBlock = s.logBlock

/-- No entry is lost to a failed write: failed writes keep the entries, and every frame logged is in
a block written or still in the buffer. -/
def EntriesKept (s₀ : State) (es : List Event) (t : State) : Prop :=
  Along (total step) KeepsEntries s₀ es ∧ written s₀ es ++ buffered t = logged (es.map Prod.fst)

/-- If the call writes a block, the card accepts it. -/
def FindsCardReady (s : State) (e : Event) : Prop := Writes s e.1 → e.1.answer.accepts

variable {s s' t : State} {p : List Logged} {op : Op} {r : Option U8} {es : List Event}

theorem Buffers.buffered_eq (h : Buffers s p) : buffered s = p := by
  have hlen : s.logIdx.toNat / entrySize = p.length := by
    rw [h.idx]
    exact Nat.mul_div_cancel_left _ (by decide)
  unfold buffered
  rw [hlen]
  refine List.ext_getElem (by simp) fun k h₁ h₂ => ?_
  rw [List.getElem_map, List.getElem_range]
  exact h.entries k h₂

theorem written_snoc {s₀ : State} (h : Run (total step) s₀ es t) (op : Op) (r : Option U8) :
    written s₀ (es ++ [(op, r)]) =
      written s₀ es ++ if r = some 0 then buffered (entered t op) else [] := by
  induction h with
  | nil s => exact List.append_nil _
  | @cons s s' t o x es hs _ ih =>
      have hss : (step s o).2 = s' := congrArg Prod.snd (total_eq_some.mp hs)
      rw [List.cons_append, written, written, hss, ih, List.append_assoc]

theorem logged_snoc (ops : List Op) (op : Op) : logged (ops ++ [op]) = logged ops ++ op.frame := by
  unfold logged
  rw [List.filterMap_append]
  cases op with
  | log ans ticks f => rfl
  | flush ans => rfl

/-- **One step.** With `w` in the blocks written and `p` in the buffer, a call that finds the card ready
adds the frame it logs, and one that does not loses what the buffer held. -/
theorem step_kept (h : Buffers s p) (hroom : p.length < blockEntries) (w : List Logged)
    (hs : step s op = (r, s')) : ∃ p', Buffers s' p' ∧ p'.length < blockEntries ∧
      ((FindsCardReady s (op, r) ∧ KeepsEntries s (op, r) ∧
          w ++ (if r = some 0 then buffered (entered s op) else []) ++ p' = w ++ p ++ op.frame) ∨
        (¬ FindsCardReady s (op, r) ∧
          (w ++ (if r = some 0 then buffered (entered s op) else []) ++ p').length <
            (w ++ p ++ op.frame).length)) := by
  have he := h.entered hroom op
  rcases step_cases hs with ⟨hw, hnil, -, hr⟩ | ⟨hw, rfl, rfl⟩
  · have hpos := List.length_pos_iff.mpr (h.ne_nil_of_writes hroom hw)
    refine ⟨[], hnil, by decide, ?_⟩
    rw [he.buffered_eq, List.append_nil, List.append_assoc]
    by_cases ha : op.answer.accepts
    · rw [if_pos ha] at hr
      refine .inl ⟨fun _ => ha, fun x hx hx0 => ?_, by rw [if_pos hr]⟩
      exact absurd (Option.some.inj (hr.symm.trans hx)).symm hx0
    · rw [if_neg ha] at hr
      refine .inr ⟨fun hf => ha (hf hw), ?_⟩
      rw [hr, if_neg (by decide), List.append_nil, List.length_append]
      omega
  · refine ⟨_, he, h.room hroom hw, .inl ⟨fun hwr => absurd hwr hw, fun x hx => ?_, ?_⟩⟩
    · cases hx
    · rw [if_neg (by decide), List.append_nil, List.append_assoc]

/-- **The run, step by step.** At most the frames logged are in the blocks written and in the buffer,
and all of them are exactly if every write so far has found the card ready. -/
theorem run_kept {s₀ : State} (h₀ : Buffers s₀ []) (h : Run (total step) s₀ es t) :
    ∃ p, Buffers t p ∧ p.length < blockEntries ∧
      (written s₀ es ++ p).length ≤ (logged (es.map Prod.fst)).length ∧
      (written s₀ es ++ p = logged (es.map Prod.fst) ↔ Along (total step) FindsCardReady s₀ es) ∧
      (Along (total step) FindsCardReady s₀ es → Along (total step) KeepsEntries s₀ es) := by
  refine h.history (fun es t => ∃ p, Buffers t p ∧ p.length < blockEntries ∧
      (written s₀ es ++ p).length ≤ (logged (es.map Prod.fst)).length ∧
      (written s₀ es ++ p = logged (es.map Prod.fst) ↔ Along (total step) FindsCardReady s₀ es) ∧
      (Along (total step) FindsCardReady s₀ es → Along (total step) KeepsEntries s₀ es)) ?_ ?_
  · exact ⟨[], h₀, by decide, le_rfl, iff_of_true rfl (along_nil _ _), fun _ => along_nil _ _⟩
  · rintro es t op r u hrun ⟨p, hp, hroom, hle, hiff, hkeep⟩ hs
    obtain ⟨p', hp', hroom', hcase⟩ := step_kept hp hroom (written s₀ es) (total_eq_some.mp hs)
    refine ⟨p', hp', hroom', ?_⟩
    rw [written_snoc hrun, List.map_append, List.map_singleton, logged_snoc, along_snoc hrun,
      along_snoc hrun]
    have hlen : (written s₀ es ++ p ++ op.frame).length ≤
        (logged (es.map Prod.fst) ++ op.frame).length := by
      simp only [List.length_append] at hle ⊢
      omega
    rcases hcase with ⟨hf, hk, heq⟩ | ⟨hf, hlt⟩
    · rw [heq]
      refine ⟨hlen, ?_, fun ha => ⟨hkeep ha.1, hk⟩⟩
      rw [List.append_left_inj, hiff]
      exact ⟨fun ha => ⟨ha, hf⟩, And.left⟩
    · refine ⟨(hlt.trans_le hlen).le, iff_of_false (fun he => ?_) fun ha => hf ha.2,
        fun ha => absurd ha.2 hf⟩
      rw [he] at hlt
      exact absurd hlt (not_lt.mpr hlen)

/-- **When no entry is lost to a failed write.** In any sequence of calls after `log_init`, whatever the
card answers: failed writes keep the buffered entries and the block number, and every frame logged is in
a block written or in the buffer, if and only if no call writes a block that the card refuses. -/
theorem kept_iff {ans : Answer} (h : Run (total step) (logInit ans boot).2 es t) :
    EntriesKept (logInit ans boot).2 es t ↔
      Along (total step) FindsCardReady (logInit ans boot).2 es := by
  obtain ⟨p, hp, -, -, hiff, hkeep⟩ := run_kept (buffers_nil rfl) h
  unfold EntriesKept
  rw [hp.buffered_eq, hiff]
  exact ⟨And.right, fun ha => ⟨hkeep ha, ha⟩⟩

/-- The card does not take the data. -/
def refused : Answer := ⟨0, 0x0D⟩

def refusedEvents : List Event := [(.log accepted 0 (frame 1), none), (.flush refused, some 1)]

def afterRefused : State := (step (step boot (.log accepted 0 (frame 1))).2 (.flush refused)).2

theorem run_refused : Run (total step) (logInit accepted boot).2 refusedEvents afterRefused :=
  .cons rfl (.cons rfl (.nil _))

theorem kept_iff_refused : EntriesKept (logInit accepted boot).2 refusedEvents afterRefused ↔
    Along (total step) FindsCardReady (logInit accepted boot).2 refusedEvents := kept_iff run_refused

/-- The entry is neither on the card nor in the buffer. -/
theorem entry_lost : ¬ ∀ (ans : Answer) (es : List Event) (t : State),
    Run (total step) (logInit ans boot).2 es t → EntriesKept (logInit ans boot).2 es t := by
  intro hall
  have hlen := congrArg List.length (hall accepted _ _ run_refused).2
  exact absurd hlen (by decide)

end BloodKernel.Log
