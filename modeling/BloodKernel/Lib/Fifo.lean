import BloodKernel.Lib.Run

set_option autoImplicit false

/-!
# Bounded FIFO queues

A bounded FIFO of capacity `n` holds a list, oldest first. A send is accepted exactly when fewer
than `n` items are held; a receive takes the oldest item.

* `Fifo.step`: one call; `Fifo.accepted`, `Fifo.received`: what a run accepted and handed out.
* **`Fifo.conservation`**: what a run received, followed by what is still held, is what was held at
  first followed by what it accepted.
-/

namespace Lib.Fifo

variable {α : Type}

inductive Op (α : Type)
  | send (x : α)
  | recv

/-- What a call returns: whether the item was accepted, or the item received. -/
inductive Res (α : Type)
  | sent (ok : Bool)
  | received (x : Option α)

/-- One call on a queue of capacity `n` holding `held`. -/
def step (n : ℕ) (held : List α) : Op α → Res α × List α
  | .send x => if held.length < n then (.sent true, held ++ [x]) else (.sent false, held)
  | .recv => match held with
    | [] => (.received none, [])
    | x :: rest => (.received (some x), rest)

/-- The items accepted by the calls, in order. -/
def accepted : List (Op α × Res α) → List α
  | [] => []
  | (.send x, .sent true) :: es => x :: accepted es
  | _ :: es => accepted es

/-- The items handed out by the calls, in order. -/
def received : List (Op α × Res α) → List α
  | [] => []
  | (.recv, .received (some x)) :: es => x :: received es
  | _ :: es => received es

/-- A queue never holds more than its capacity. -/
theorem length_le {n : ℕ} {held held' : List α} {es : List (Op α × Res α)}
    (h : Run (total (step n)) held es held') (h₀ : held.length ≤ n) : held'.length ≤ n := by
  refine h.invariant (fun l => l.length ≤ n) (fun l o r l' hl hs => ?_) h₀
  cases o with
  | send x =>
      simp only [total, step, Option.some.injEq] at hs
      split_ifs at hs with hlt <;> cases hs
      · simp only [List.length_append, List.length_singleton]
        omega
      · exact hl
  | recv =>
      cases l with
      | nil => cases hs; exact hl
      | cons y l => cases hs; simp only [List.length_cons] at hl; omega

/-- **Conservation.** Nothing accepted is lost, repeated or reordered. -/
theorem conservation {n : ℕ} {held held' : List α} {es : List (Op α × Res α)}
    (h : Run (total (step n)) held es held') : received es ++ held' = held ++ accepted es := by
  induction h with
  | nil => simp [received, accepted]
  | @cons held held₁ held' o r es hstep _ ih =>
      cases o with
      | send x =>
          simp only [total, step, Option.some.injEq] at hstep
          split_ifs at hstep <;> cases hstep
          · simpa [received, accepted] using ih
          · simpa [received, accepted] using ih
      | recv =>
          cases held with
          | nil => cases hstep; simpa [received, accepted] using ih
          | cons y held => cases hstep; simpa [received, accepted] using ih

end Lib.Fifo
