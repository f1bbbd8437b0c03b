import BloodKernel.Kernel.Isotp
import BloodKernel.Lib.Run

set_option autoImplicit false

/-!
# Calls of `isotp_send` and the transmit mailbox

Between two calls the controller, or another caller of `can_send`, may change the registers of the
mailbox in any way.

* `step`: one call, or one change; `accepted`: the messages for which `isotp_send` returned 0;
* **`placed_iff`**: the transmissions requested by the calls are those of the accepted messages, each
  once and in order, exactly when no call finds the mailbox busy. The result of `can_send` is
  dropped.
-/

namespace BloodKernel.IsotpSend

open Lib

inductive Op
  | send (msg : IsotpMsg)
  | env (mb : TxMailbox)

inductive Ret
  | none
  | sent (r : U8)
  deriving DecidableEq

abbrev Event := Op × Ret

def step (tx : CanTx) : Op → Option (Ret × CanTx)
  | .send msg => (isotpSend tx msg).map fun (r, tx) => (.sent r, tx)
  | .env mb => some (.none, { tx with mb := mb })

/-- `can_lock` is free, and no transmission has been requested. -/
def boot (mb : TxMailbox) : CanTx := ⟨mb, 0, []⟩

/-- The messages for which `isotp_send` returned 0, in order. -/
def accepted (es : List Event) : List IsotpMsg := es.filterMap fun e => match e with
  | (.send msg, .sent r) => if r = 0 then some msg else none
  | _ => none

/-- The mailbox contents that transmit the message. -/
def request (msg : IsotpMsg) : TxMailbox := sentMailbox (singleFrame msg)

/-- The requests are those of the accepted messages. -/
def Placed (es : List Event) (t : CanTx) : Prop := t.requested = (accepted es).map request

/-- A call for a single frame finds the mailbox free. -/
def FindsFree (tx : CanTx) (e : Event) : Prop :=
  ∀ msg, e.1 = .send msg → msg.len.toNat ≤ 7 → canTxMailboxFree tx = 1

variable {tx tx' : CanTx} {op : Op} {r : Ret} {es : List Event}

/-- **One step.** It keeps `can_lock` free and accepts at most one message, whose request it places
exactly if it `FindsFree`. -/
theorem step_cases (hl : tx.canLock = 0) (hs : step tx op = some (r, tx')) : tx'.canLock = 0 ∧
    ((FindsFree tx (op, r) ∧ tx'.requested = tx.requested ++ (accepted [(op, r)]).map request) ∨
      (¬ FindsFree tx (op, r) ∧ tx'.requested = tx.requested ∧ accepted [(op, r)] ≠ [])) := by
  cases op with
  | env mb =>
      cases hs
      refine ⟨hl, .inl ⟨fun _ he => absurd he (by simp), ?_⟩⟩
      simp [accepted]
  | send msg =>
      have hfree : FindsFree tx (.send msg, r) ↔ (msg.len.toNat ≤ 7 → canTxMailboxFree tx = 1) :=
        ⟨fun h => h msg rfl, fun h _ he => by cases he; exact h⟩
      rw [hfree]
      by_cases hlen : msg.len.toNat ≤ 7
      · rw [step, isotpSend_short hlen] at hs
        by_cases hf : canTxMailboxFree tx = 1
        · rw [canSend_free hl hf] at hs
          cases hs
          refine ⟨rfl, .inl ⟨fun _ => hf, ?_⟩⟩
          simp [accepted, request]
        · rw [canSend_busy hl hf] at hs
          cases hs
          refine ⟨hl, .inr ⟨fun h => hf (h hlen), rfl, ?_⟩⟩
          simp [accepted]
      · rw [step, isotpSend_long (Nat.lt_of_not_le hlen)] at hs
        cases hs
        refine ⟨hl, .inl ⟨fun h => absurd h hlen, ?_⟩⟩
        simp [accepted]

theorem accepted_snoc (es : List Event) (e : Event) :
    accepted (es ++ [e]) = accepted es ++ accepted [e] := List.filterMap_append

/-- **The run, step by step.** There are at most as many requests as accepted messages, and they are
those messages' requests exactly if every call so far has found the mailbox free. -/
theorem run_placed {mb : TxMailbox} {t : CanTx} (h : Run step (boot mb) es t) : t.canLock = 0 ∧
    t.requested.length ≤ (accepted es).length ∧
      (Placed es t ↔ Along step FindsFree (boot mb) es) := by
  refine h.history (fun es t => t.canLock = 0 ∧ t.requested.length ≤ (accepted es).length ∧
    (Placed es t ↔ Along step FindsFree (boot mb) es)) ⟨rfl, le_rfl, ?_⟩ ?_
  · exact iff_of_true rfl (along_nil _ _)
  · intro es t op r u hrun ⟨hl, hlen, hiff⟩ hs
    obtain ⟨hl', hcase⟩ := step_cases hl hs
    unfold Placed at hiff ⊢
    rw [along_snoc hrun, accepted_snoc, List.map_append, List.length_append]
    refine ⟨hl', ?_⟩
    rcases hcase with ⟨hf, hreq⟩ | ⟨hf, hreq, hacc⟩
    · rw [hreq, List.append_left_inj, hiff, List.length_append, List.length_map]
      exact ⟨by omega, ⟨fun ha => ⟨ha, hf⟩, fun ha => ha.1⟩⟩
    · -- a request is missing from now on
      have hpos : 0 < (accepted [(op, r)]).length := List.length_pos_iff.mpr hacc
      rw [hreq]
      refine ⟨by omega, iff_of_false (fun he => ?_) fun ha => hf ha.2⟩
      have := congrArg List.length he
      rw [List.length_append, List.length_map, List.length_map] at this
      omega

/-- **When accepted messages are placed.** In any sequence of calls, with any changes of the mailbox
between them, the transmissions requested are those of the messages for which `isotp_send` returned
0, each once and in order, if and only if no call for a single frame finds the mailbox busy. -/
theorem placed_iff {mb : TxMailbox} {t : CanTx} (h : Run step (boot mb) es t) :
    Placed es t ↔ Along step FindsFree (boot mb) es := (run_placed h).2.2

def busy : TxMailbox := ⟨1, 0, 0, 0⟩

def busyEvents : List Event := [(.send shortMsg, .sent 0)]

theorem run_busy : Run step (boot busy) busyEvents (boot busy) := .cons rfl (.nil _)

theorem placed_iff_busy : Placed busyEvents (boot busy) ↔
    Along step FindsFree (boot busy) busyEvents := placed_iff run_busy

/-- `isotp_send` returns 0 although nothing has been placed. -/
theorem not_placed : ¬ ∀ (mb : TxMailbox) (es : List Event) (t : CanTx),
    Run step (boot mb) es t → Placed es t := by
  intro hall
  have hnil : [] = (accepted busyEvents).map request := hall busy busyEvents _ run_busy
  cases hnil

end BloodKernel.IsotpSend
