import Mathlib.Data.List.Induction

set_option autoImplicit false

/-!
# Batching

Items are collected until there are `n` of them, or until a flush; each collection becomes a group.

* `Batch.add`, `Batch.flush`, `Batch.run`: the operations;
* **`Batch.flatten_groups`**: the groups, followed by what is pending, are the items in order;
* `Batch.Growing`: no group is shorter than an earlier one.
-/

namespace Lib

/-- The groups so far, and the items of the next one. -/
structure Batch (α : Type) where
  groups : List (List α)
  pending : List α

namespace Batch

variable {α : Type}

inductive Op (α : Type)
  | add (x : α)
  | flush

def flush (b : Batch α) : Batch α :=
  if b.pending = [] then b else ⟨b.groups ++ [b.pending], []⟩

def push (b : Batch α) (x : α) : Batch α := ⟨b.groups, b.pending ++ [x]⟩

/-- One operation; a group of `n` items is flushed at once. -/
def step (n : ℕ) (b : Batch α) : Op α → Batch α
  | .add x => if n ≤ (b.push x).pending.length then (b.push x).flush else b.push x
  | .flush => b.flush

def run (n : ℕ) (ops : List (Op α)) : Batch α := ops.foldl (step n) ⟨[], []⟩

/-- The items added, in order. -/
def added (ops : List (Op α)) : List α := ops.filterMap fun
  | .add x => some x
  | .flush => none

/-- No group is shorter than an earlier one. -/
def Growing (groups : List (List α)) : Prop := (groups.map List.length).Pairwise (· ≤ ·)

@[simp] theorem push_pending (b : Batch α) (x : α) : (b.push x).pending = b.pending ++ [x] := rfl

theorem flush_of_ne {b : Batch α} (h : b.pending ≠ []) :
    b.flush = ⟨b.groups ++ [b.pending], []⟩ := if_neg h

theorem flush_of_nil {b : Batch α} (h : b.pending = []) : b.flush = b := if_pos h

theorem run_snoc (n : ℕ) (ops : List (Op α)) (op : Op α) :
    run n (ops ++ [op]) = step n (run n ops) op := by
  rw [run, List.foldl_append]
  rfl

theorem flush_pending (b : Batch α) : b.flush.pending = [] := by
  by_cases h : b.pending = []
  · rw [flush_of_nil h, h]
  · rw [flush_of_ne h]

theorem pending_lt {n : ℕ} (hn : 0 < n) (ops : List (Op α)) : (run n ops).pending.length < n := by
  have hflush : ∀ b : Batch α, b.flush.pending.length < n := fun b => by
    rw [flush_pending]
    exact hn
  induction ops using List.reverseRecOn with
  | nil => exact hn
  | append_singleton ops op _ =>
      rw [run_snoc]
      cases op with
      | flush => exact hflush _
      | add x =>
          rw [step]
          split_ifs with h
          · exact hflush _
          · exact Nat.lt_of_not_le h

theorem flush_flatten (b : Batch α) :
    b.flush.groups.flatten ++ b.flush.pending = b.groups.flatten ++ b.pending := by
  by_cases h : b.pending = []
  · rw [flush_of_nil h]
  · rw [flush_of_ne h, List.flatten_append, List.flatten_singleton, List.append_nil]

/-- **Nothing is lost, repeated or reordered.** -/
theorem flatten_groups (n : ℕ) (ops : List (Op α)) :
    (run n ops).groups.flatten ++ (run n ops).pending = added ops := by
  induction ops using List.reverseRecOn with
  | nil => rfl
  | append_singleton ops op ih =>
      have hadd : added (ops ++ [op]) = added ops ++ added [op] := List.filterMap_append
      rw [run_snoc, hadd, ← ih]
      cases op with
      | flush => exact (flush_flatten _).trans (List.append_nil _).symm
      | add x =>
          have hpush : (push (run n ops) x).groups.flatten ++ (push (run n ops) x).pending =
              (run n ops).groups.flatten ++ (run n ops).pending ++ [x] :=
            (List.append_assoc _ _ _).symm
          rw [step]
          split_ifs
          · exact (flush_flatten _).trans hpush
          · exact hpush

theorem flush_groups_ne_nil {b : Batch α} (h : ∀ g ∈ b.groups, g ≠ []) :
    ∀ g ∈ b.flush.groups, g ≠ [] := by
  by_cases hp : b.pending = []
  · rwa [flush_of_nil hp]
  · rw [flush_of_ne hp]
    intro g hg
    rcases List.mem_append.mp hg with hg | hg
    · exact h g hg
    · rwa [List.mem_singleton.mp hg]

theorem groups_ne_nil (n : ℕ) (ops : List (Op α)) : ∀ g ∈ (run n ops).groups, g ≠ [] := by
  induction ops using List.reverseRecOn with
  | nil => exact fun g hg => absurd hg List.not_mem_nil
  | append_singleton ops op ih =>
      rw [run_snoc]
      cases op with
      | flush => exact flush_groups_ne_nil ih
      | add x =>
          rw [step]
          split_ifs
          · exact flush_groups_ne_nil ih
          · exact ih

theorem growing_snoc_iff {groups : List (List α)} {g : List α} :
    Growing (groups ++ [g]) ↔ Growing groups ∧ ∀ g' ∈ groups, g'.length ≤ g.length := by
  unfold Growing
  rw [List.map_append, List.pairwise_append]
  simp

end Batch

end Lib
