import Mathlib.Data.List.Induction

set_option autoImplicit false

/-!
# Runs of a partial step function

`Run step s es t`: from `s` the events `es`, pairs of an operation and the result it returned,
lead to `t`. A step returning `none` is one the system cannot take, so no run passes through it.

* `run_append`, `run_snoc`, `Run.det`: splitting runs and determinism.
* `Run.invariant`, `Run.history`: induction over runs, from the front and from the back.
* `Along`, `Throughout`: a property of every step, and of every state, of a run.
* `Run.along_iff_along`, `Run.throughout_iff_along_while`, `Run.throughout_iff_along`,
  `Run.throughout_of_along`, `exists_run`: from steps to runs.
* **`Run.simulate`**: a simulation relation carries runs over, event by event.
* **`run_image_iff`**: a function that carries steps over, both ways.
* **`Run.project`**: the events that concern one part of the system form a run of that part.
* `foldl_of_trans`: a loop whose steps keep to a preorder.
-/

namespace Lib

variable {S O R : Type}

theorem foldl_of_trans {P : S → S → Prop} {f : S → O → S} {l : List O} (hrefl : ∀ s, P s s)
    (htrans : ∀ s t u, P s t → P t u → P s u) (h : ∀ s, ∀ o ∈ l, P s (f s o)) (s : S) :
    P s (l.foldl f s) := by
  induction l generalizing s with
  | nil => exact hrefl s
  | cons o l ih =>
      have hhead := h s o List.mem_cons_self
      exact htrans _ _ _ hhead (ih (fun s o' ho' => h s o' (List.mem_cons_of_mem _ ho')) (f s o))

/-- A run: the events in order, from one state to another. -/
inductive Run (step : S → O → Option (R × S)) : S → List (O × R) → S → Prop
  | nil (s : S) : Run step s [] s
  | cons {s s' t : S} {o : O} {r : R} {es : List (O × R)} (hstep : step s o = some (r, s'))
      (hrun : Run step s' es t) : Run step s ((o, r) :: es) t

/-- A step function that is always defined. -/
def total (f : S → O → R × S) : S → O → Option (R × S) := fun s o => some (f s o)

theorem total_eq_some {f : S → O → R × S} {s s' : S} {o : O} {r : R} :
    total f s o = some (r, s') ↔ f s o = (r, s') := Option.some_inj

section Runs

variable {step : S → O → Option (R × S)}

@[simp] theorem run_nil {s t : S} : Run step s [] t ↔ s = t :=
  ⟨fun h => by cases h; rfl, fun h => h ▸ .nil s⟩

theorem run_cons {s t : S} {o : O} {r : R} {es : List (O × R)} :
    Run step s ((o, r) :: es) t ↔ ∃ s', step s o = some (r, s') ∧ Run step s' es t :=
  ⟨fun h => by cases h with | cons h₁ h₂ => exact ⟨_, h₁, h₂⟩, fun ⟨_, h₁, h₂⟩ => .cons h₁ h₂⟩

theorem run_append {s u : S} {es fs : List (O × R)} :
    Run step s (es ++ fs) u ↔ ∃ t, Run step s es t ∧ Run step t fs u := by
  induction es generalizing s with
  | nil => simp
  | cons e es ih =>
      obtain ⟨o, r⟩ := e
      simp only [List.cons_append, run_cons, ih]
      exact ⟨fun ⟨s', h, t, h₁, h₂⟩ => ⟨t, ⟨s', h, h₁⟩, h₂⟩,
        fun ⟨t, ⟨s', h, h₁⟩, h₂⟩ => ⟨s', h, t, h₁, h₂⟩⟩

theorem Run.append {s t u : S} {es fs : List (O × R)} (h₁ : Run step s es t)
    (h₂ : Run step t fs u) : Run step s (es ++ fs) u :=
  run_append.mpr ⟨t, h₁, h₂⟩

theorem run_snoc {s u : S} {es : List (O × R)} {o : O} {r : R} :
    Run step s (es ++ [(o, r)]) u ↔ ∃ t, Run step s es t ∧ step t o = some (r, u) := by
  simp [run_append, run_cons]

theorem Run.det {s t u : S} {es : List (O × R)} (h₁ : Run step s es t) (h₂ : Run step s es u) :
    t = u := by
  induction h₁ with
  | nil s => exact run_nil.mp h₂
  | cons hstep _ ih =>
      obtain ⟨s', h, h'⟩ := run_cons.mp h₂
      rw [hstep] at h
      cases h
      exact ih h'

/-- **Invariant rule.** What every step preserves, every run preserves. -/
theorem Run.invariant (I : S → Prop) (hI : ∀ s o r s', I s → step s o = some (r, s') → I s')
    {s t : S} {es : List (O × R)} (h : Run step s es t) (hs : I s) : I t := by
  induction h with
  | nil => exact hs
  | cons hstep _ ih => exact ih (hI _ _ _ _ hs hstep)

/-- **History rule.** Induction on the last step, for properties of the events and the state. -/
theorem Run.history {s : S} (P : List (O × R) → S → Prop) (h₀ : P [] s)
    (hP : ∀ es t o r u, Run step s es t → P es t → step t o = some (r, u) → P (es ++ [(o, r)]) u)
    {t : S} {es : List (O × R)} (h : Run step s es t) : P es t := by
  induction es using List.reverseRecOn generalizing t with
  | nil => exact run_nil.mp h ▸ h₀
  | append_singleton es e ih =>
      obtain ⟨t', h₁, h₂⟩ := run_snoc.mp h
      exact hP es t' e.1 e.2 t h₁ (ih h₁) h₂

/-- Every step of the run `es` from `s` satisfies `P`, a property of the state before it and its
event. -/
def Along (step : S → O → Option (R × S)) (P : S → O × R → Prop) (s : S) (es : List (O × R)) :
    Prop :=
  ∀ pre e post u, es = pre ++ e :: post → Run step s pre u → P u e

/-- Every state that the run `es` from `s` passes through satisfies `Q`. -/
def Throughout (step : S → O → Option (R × S)) (Q : S → Prop) (s : S) (es : List (O × R)) : Prop :=
  ∀ pre post u, es = pre ++ post → Run step s pre u → Q u

theorem along_nil (P : S → O × R → Prop) (s : S) : Along step P s [] := by
  intro pre e post u h
  simp at h

theorem along_cons {P : S → O × R → Prop} {s s' : S} {o : O} {r : R} {es : List (O × R)}
    (h : step s o = some (r, s')) :
    Along step P s ((o, r) :: es) ↔ P s (o, r) ∧ Along step P s' es := by
  constructor
  · intro ha
    refine ⟨ha [] _ es s rfl (.nil s), fun pre e post u he hu => ?_⟩
    exact ha ((o, r) :: pre) e post u (by rw [he]; rfl) (.cons h hu)
  · rintro ⟨h₀, ha⟩ pre e post u he hu
    cases pre with
    | nil =>
        cases he
        exact run_nil.mp hu ▸ h₀
    | cons x pre =>
        cases he
        obtain ⟨s₁, h₁, hu⟩ := run_cons.mp hu
        rw [h] at h₁
        cases h₁
        exact ha pre e post u rfl hu

theorem along_snoc {P : S → O × R → Prop} {s t : S} {e : O × R} {es : List (O × R)}
    (h : Run step s es t) : Along step P s (es ++ [e]) ↔ Along step P s es ∧ P t e := by
  constructor
  · intro ha
    refine ⟨fun pre e' post u he hu => ?_, ha es e [] t rfl h⟩
    exact ha pre e' (post ++ [e]) u (by rw [he]; simp) hu
  · rintro ⟨ha, hp⟩ pre e' post u he hu
    rcases List.eq_nil_or_concat post with rfl | ⟨post, x, rfl⟩
    · obtain ⟨rfl, he⟩ := List.append_inj' he rfl
      obtain rfl : e = e' := by simpa using he
      exact hu.det h ▸ hp
    · have he' : es ++ [e] = (pre ++ e' :: post) ++ [x] := by rw [he]; simp
      exact ha pre e' post u (List.append_inj' he' rfl).1 hu

theorem Throughout.first {Q : S → Prop} {s : S} {es : List (O × R)} (h : Throughout step Q s es) : Q s :=
  h [] es s rfl (.nil s)

theorem Throughout.last {Q : S → Prop} {s t : S} {es : List (O × R)} (h : Throughout step Q s es)
    (hr : Run step s es t) : Q t :=
  h es [] t (List.append_nil es).symm hr

theorem throughout_nil {Q : S → Prop} {s : S} : Throughout step Q s [] ↔ Q s := by
  refine ⟨Throughout.first, fun h pre post u he hu => ?_⟩
  obtain ⟨rfl, -⟩ := List.append_eq_nil_iff.mp he.symm
  exact run_nil.mp hu ▸ h

theorem throughout_cons {Q : S → Prop} {s s' : S} {o : O} {r : R} {es : List (O × R)}
    (h : step s o = some (r, s')) :
    Throughout step Q s ((o, r) :: es) ↔ Q s ∧ Throughout step Q s' es := by
  constructor
  · intro hq
    refine ⟨hq.first, fun pre post u he hu => ?_⟩
    exact hq ((o, r) :: pre) post u (by rw [he]; rfl) (.cons h hu)
  · rintro ⟨h₀, hq⟩ pre post u he hu
    cases pre with
    | nil => exact run_nil.mp hu ▸ h₀
    | cons x pre =>
        cases he
        obtain ⟨s₁, h₁, hu⟩ := run_cons.mp hu
        rw [h] at h₁
        cases h₁
        exact hq pre post u rfl hu

/-- Two properties of a step that agree on the states satisfying `I`, which the steps with these
properties preserve, agree along a run. -/
theorem Run.along_iff_along {I : S → Prop} {P P' : S → O × R → Prop}
    (hI : ∀ s o r s', I s → P s (o, r) → step s o = some (r, s') → I s')
    (hP : ∀ s o r s', I s → step s o = some (r, s') → (P s (o, r) ↔ P' s (o, r)))
    {s t : S} {es : List (O × R)} (h : Run step s es t) (hs : I s) :
    Along step P s es ↔ Along step P' s es := by
  induction h with
  | nil s => exact iff_of_true (along_nil P s) (along_nil P' s)
  | cons hstep _ ih =>
      rw [along_cons hstep, along_cons hstep, ← hP _ _ _ _ hs hstep]
      exact and_congr_right fun hp => ih (hI _ _ _ _ hs hp hstep)

/-- Two properties of a step that agree on the states satisfying an invariant agree along a run. -/
theorem Run.along_iff {I : S → Prop} {P P' : S → O × R → Prop}
    (hI : ∀ s o r s', I s → step s o = some (r, s') → I s')
    (hP : ∀ s o r s', I s → step s o = some (r, s') → (P s (o, r) ↔ P' s (o, r)))
    {s t : S} {es : List (O × R)} (h : Run step s es t) (hs : I s) :
    Along step P s es ↔ Along step P' s es :=
  h.along_iff_along (fun s o r s' hs _ => hI s o r s' hs) hP hs

/-- **Step by step, as long as it holds.** If on states satisfying `Q` and `I` a step meets `P` exactly when
it leads to a state satisfying `Q`, and such a step preserves `I`, then `Q` holds throughout a run exactly
when all its steps meet `P`. -/
theorem Run.throughout_iff_along_while {I Q : S → Prop} {P : S → O × R → Prop}
    (hI : ∀ s o r s', I s → Q s → Q s' → step s o = some (r, s') → I s')
    (hQP : ∀ s o r s', I s → Q s → step s o = some (r, s') → (Q s' ↔ P s (o, r)))
    {s t : S} {es : List (O × R)} (h : Run step s es t) (hi : I s) (hs : Q s) :
    Throughout step Q s es ↔ Along step P s es := by
  induction h with
  | nil s => exact ⟨fun _ => along_nil P s, fun _ => throughout_nil.mpr hs⟩
  | @cons s s' t o r es hstep _ ih =>
      rw [throughout_cons hstep, along_cons hstep, ← hQP s o r s' hi hs hstep]
      constructor
      · rintro ⟨-, hq⟩
        have hs' : Q s' := hq.first
        exact ⟨hs', (ih (hI s o r s' hi hs hs' hstep) hs').mp hq⟩
      · rintro ⟨hs', ha⟩
        exact ⟨hs, (ih (hI s o r s' hi hs hs' hstep) hs').mpr ha⟩

/-- **Step by step.** If on states satisfying `Q` and the invariant `I` a step meets `P` exactly when
it leads to a state satisfying `Q`, then `Q` holds throughout a run exactly when all its steps meet
`P`. -/
theorem Run.throughout_iff_along {I Q : S → Prop} {P : S → O × R → Prop}
    (hI : ∀ s o r s', I s → step s o = some (r, s') → I s')
    (hQP : ∀ s o r s', I s → Q s → step s o = some (r, s') → (Q s' ↔ P s (o, r)))
    {s t : S} {es : List (O × R)} (h : Run step s es t) (hi : I s) (hs : Q s) :
    Throughout step Q s es ↔ Along step P s es :=
  h.throughout_iff_along_while (fun s o r s' hi _ _ => hI s o r s' hi) hQP hi hs

/-- **Conditional invariant rule.** What every step that meets `P` preserves, and what it implies of a
state, holds throughout a run whose steps all meet `P`. -/
theorem Run.throughout_of_along {I Q : S → Prop} {P : S → O × R → Prop}
    (hI : ∀ s o r s', I s → P s (o, r) → step s o = some (r, s') → I s') (hQ : ∀ s, I s → Q s)
    {s t : S} {es : List (O × R)} (h : Run step s es t) (ha : Along step P s es) (hs : I s) :
    Throughout step Q s es := by
  induction h with
  | nil s => exact throughout_nil.mpr (hQ s hs)
  | cons hstep _ ih =>
      obtain ⟨hp, ha⟩ := (along_cons hstep).mp ha
      exact (throughout_cons hstep).mpr ⟨hQ _ hs, ih ha (hI _ _ _ _ hs hp hstep)⟩

/-- A system whose invariant lets every operation through can perform any operations. -/
theorem exists_run (I : S → Prop) (hI : ∀ s o, I s → ∃ r s', step s o = some (r, s') ∧ I s')
    {s : S} (hs : I s) (ops : List O) : ∃ es t, es.map Prod.fst = ops ∧ Run step s es t ∧ I t := by
  induction ops generalizing s with
  | nil => exact ⟨[], s, rfl, .nil s, hs⟩
  | cons o ops ih =>
      obtain ⟨r, s', hstep, hs'⟩ := hI s o hs
      obtain ⟨es, t, he, h, ht⟩ := ih hs'
      exact ⟨(o, r) :: es, t, by rw [List.map_cons, he], .cons hstep h, ht⟩

end Runs

/-- **Simulation.** If `f` translates every step of the first system into one of the second between
related states, it translates every run. -/
theorem Run.simulate {A O' R' : Type} {step : S → O → Option (R × S)}
    {step' : A → O' → Option (R' × A)} (Rel : S → A → Prop) (f : O × R → O' × R')
    (hsim : ∀ s a o r s', Rel s a → step s o = some (r, s') →
      ∃ a', step' a (f (o, r)).1 = some ((f (o, r)).2, a') ∧ Rel s' a')
    {s t : S} {es : List (O × R)} (h : Run step s es t) {a : A} (ha : Rel s a) :
    ∃ b, Run step' a (es.map f) b ∧ Rel t b := by
  induction h generalizing a with
  | nil => exact ⟨a, .nil a, ha⟩
  | cons hstep _ ih =>
      obtain ⟨a', h₁, h₂⟩ := hsim _ _ _ _ _ ha hstep
      obtain ⟨b, hb, hr⟩ := ih h₂
      exact ⟨b, .cons h₁ hb, hr⟩

/-- **Image.** If the steps of the second system are the images of the steps of the first, its runs are the images of
the runs. -/
theorem run_image_iff {A : Type} {step : S → O → Option (R × S)} {step' : A → O → Option (R × A)} {f : S → A}
    {I : S → Prop} (hI : ∀ s o r s', I s → step s o = some (r, s') → I s')
    (hf : ∀ s o, I s → (step s o).map (fun x => (x.1, f x.2)) = step' (f s) o)
    {s : S} (hs : I s) {es : List (O × R)} {b : A} :
    (∃ t, Run step s es t ∧ f t = b) ↔ Run step' (f s) es b := by
  induction es generalizing s with
  | nil => simp only [run_nil, exists_eq_left']
  | cons e es ih =>
      obtain ⟨o, r⟩ := e
      simp only [run_cons, ← hf s o hs, Option.map_eq_some_iff]
      constructor
      · rintro ⟨t, ⟨s', hstep, hrun⟩, ht⟩
        exact ⟨f s', ⟨(r, s'), hstep, rfl⟩, (ih (hI s o r s' hs hstep)).mp ⟨t, hrun, ht⟩⟩
      · rintro ⟨_, ⟨⟨r', s'⟩, hstep, heq⟩, hrun⟩
        cases heq
        obtain ⟨t, hrun', ht⟩ := (ih (hI s o _ s' hs hstep)).mpr hrun
        exact ⟨t, ⟨s', hstep, hrun'⟩, ht⟩

/-- **Projection.** If an event either is a step of the part `abs` of the state or leaves it alone, the
events of that part are a run of it on their own. -/
theorem Run.project {A O' R' : Type} {step : S → O → Option (R × S)}
    {step' : A → O' → Option (R' × A)} (abs : S → A) (f : O × R → Option (O' × R'))
    (hnone : ∀ s o r s', step s o = some (r, s') → f (o, r) = none → abs s' = abs s)
    (hsome : ∀ s o r s' o' r', step s o = some (r, s') → f (o, r) = some (o', r') →
      step' (abs s) o' = some (r', abs s'))
    {s t : S} {es : List (O × R)} (h : Run step s es t) :
    Run step' (abs s) (es.filterMap f) (abs t) := by
  induction h with
  | nil s => exact .nil (abs s)
  | @cons s s' t o r es hstep _ ih =>
      cases hf : f (o, r) with
      | none =>
          rw [List.filterMap_cons_none hf, ← hnone s o r s' hstep hf]
          exact ih
      | some e =>
          rw [List.filterMap_cons_some hf]
          exact .cons (hsome s o r s' e.1 e.2 hstep hf) ih

end Lib
