import Mathlib.Data.List.Basic

set_option autoImplicit false

/-!
# Computations and the places they read

A `Traced ι β` is a value together with the places that were read to compute it, in order. Programs are
built from `Traced.pure`, `Traced.bind` and the reads of a memory `m : ι → α`; forgetting the places is
`value`.

* `readList`: the cells at the places of a list, one after the other.
* `Traced.Only`: all places read satisfy a predicate; `only_bind`, `only_readList`.
-/

namespace Lib

variable {ι α β γ : Type}

/-- A value, and the places read to compute it. -/
structure Traced (ι β : Type) where
  value : β
  reads : List ι

namespace Traced

/-- Nothing is read. -/
def pure (b : β) : Traced ι β := ⟨b, []⟩

def bind (x : Traced ι β) (f : β → Traced ι γ) : Traced ι γ :=
  ⟨(f x.value).value, x.reads ++ (f x.value).reads⟩

/-- The cell at one place. -/
def read (m : ι → α) (i : ι) : Traced ι α := ⟨m i, [i]⟩

/-- The cells at the places of a list. -/
def readList (m : ι → α) (is : List ι) : Traced ι (List α) := ⟨is.map m, is⟩

@[simp] theorem value_pure (b : β) : (pure b : Traced ι β).value = b := rfl

@[simp] theorem value_bind (x : Traced ι β) (f : β → Traced ι γ) :
    (x.bind f).value = (f x.value).value := rfl

@[simp] theorem value_read (m : ι → α) (i : ι) : (read m i).value = m i := rfl

@[simp] theorem value_readList (m : ι → α) (is : List ι) : (readList m is).value = is.map m := rfl

theorem bind_congr {x : Traced ι β} {f g : β → Traced ι γ} (h : f x.value = g x.value) :
    x.bind f = x.bind g := by
  unfold bind
  rw [h]

/-- Every place that is read satisfies `P`. -/
def Only (P : ι → Prop) (x : Traced ι β) : Prop := ∀ i ∈ x.reads, P i

variable {P : ι → Prop}

theorem only_pure (b : β) : Only P (pure b : Traced ι β) := fun _ h => absurd h List.not_mem_nil

theorem only_bind {x : Traced ι β} {f : β → Traced ι γ} :
    Only P (x.bind f) ↔ Only P x ∧ Only P (f x.value) := List.forall_mem_append

theorem only_read {m : ι → α} {i : ι} : Only P (read m i) ↔ P i := List.forall_mem_singleton

theorem only_readList {m : ι → α} {is : List ι} : Only P (readList m is) ↔ ∀ i ∈ is, P i := Iff.rfl

end Traced

end Lib
