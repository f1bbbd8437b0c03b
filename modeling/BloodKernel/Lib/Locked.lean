import BloodKernel.Lib.Run
import Mathlib.Logic.Function.Basic

set_option autoImplicit false

/-!
# Objects behind a lock

Agents call the operations of an object. A call takes a lock, makes its accesses to the data of the object, and
releases the lock; the accesses of different agents come in any order.

* `WordOps`, `SpinLock`: the accesses to the word of a lock, and what makes them a lock; `Object`: the operations,
  one access at a time; `Path`: the accesses of one operation without any in between; `Does`: a whole operation;
* `step`: one access of one agent; `Inv`, `Inv.step`: who holds the lock, and what its accesses add up to;
* **`Inv.excl`**: two agents never hold the lock; **`exists_run_returned`**: in the order of their returns, the
  calls are calls of the object that take one step each; **`exists_completion`**: the agents do not deadlock.
-/

namespace Lib.Locked

/-- What an access to the word of the lock means for a call that wants the lock. -/
inductive Attempt (P : Type)
  | again (pc : P)
  | acquired
  | gaveUp

/-- From the place `pc` on, the word `w` lets a call through, or it gives up. -/
inductive Enters {W P : Type} (attempt : P → W → Attempt P × W) : P → W → Prop
  | acquired {pc : P} {w w' : W} (h : attempt pc w = (.acquired, w')) : Enters attempt pc w
  | gaveUp {pc : P} {w w' : W} (h : attempt pc w = (.gaveUp, w')) : Enters attempt pc w
  | again {pc pc' : P} {w w' : W} (h : attempt pc w = (.again pc', w')) (h' : Enters attempt pc' w') :
      Enters attempt pc w

/-- The accesses to the word of a lock. -/
structure WordOps (W P : Type) where
  attempt : P → W → Attempt P × W
  release : W → W

/-- Accesses that make a lock. Only a free word is acquired, and it is then held; all other accesses of a call that
wants the lock leave it as held as it was. -/
structure SpinLock (W P : Type) extends WordOps W P where
  Held : W → Prop
  free_of_acquired : ∀ pc w w', attempt pc w = (.acquired, w') → ¬Held w ∧ Held w'
  held_of_again : ∀ pc w pc' w', attempt pc w = (.again pc', w') → (Held w' ↔ Held w)
  held_of_gaveUp : ∀ pc w w', attempt pc w = (.gaveUp, w') → (Held w' ↔ Held w)
  free_release : ∀ w, ¬Held (release w)
  enters : ∀ pc w, ¬Held w → Enters attempt pc w

/-- An operation starts at a place, and each access leads to the next place, or to a result. -/
structure Object (D O R L : Type) where
  start : O → L
  access : L → D → Option ((L ⊕ R) × D)

section Paths

variable {D R L : Type} {access : L → D → Option ((L ⊕ R) × D)} {l l₁ : L} {d d₁ d' : D} {r : R} {x : L ⊕ R}

/-- The accesses from the place `l` and the data `d` lead to `x` and `d'`. -/
inductive Path (access : L → D → Option ((L ⊕ R) × D)) (l : L) (d : D) : L ⊕ R → D → Prop
  | refl : Path access l d (.inl l) d
  | snoc {l₁ : L} {d₁ d₂ : D} {x : L ⊕ R} (h : Path access l d (.inl l₁) d₁) (ha : access l₁ d₁ = some (x, d₂)) :
      Path access l d x d₂

theorem Path.single (h : access l d = some (x, d')) : Path access l d x d' := Path.refl.snoc h

theorem Path.trans (h₁ : Path access l d (.inl l₁) d₁) (h₂ : Path access l₁ d₁ x d') : Path access l d x d' := by
  induction h₂ with
  | refl => exact h₁
  | snoc _ ha ih => exact ih.snoc ha

/-- A path to a result has a first access, and goes on from where that leads. -/
theorem Path.head (h : Path access l d x d') : x = .inl l ∧ d' = d ∨
    access l d = some (x, d') ∨ ∃ l₁ d₁, access l d = some (.inl l₁, d₁) ∧ Path access l₁ d₁ x d' := by
  induction h with
  | refl => exact Or.inl ⟨rfl, rfl⟩
  | @snoc l₂ d₂ d₃ x h ha ih =>
      rcases ih with ⟨hx, rfl⟩ | h₁ | ⟨l₁, d₁, h₁, h₂⟩
      · cases hx
        exact Or.inr (Or.inl ha)
      · exact Or.inr (Or.inr ⟨l₂, d₂, h₁, .single ha⟩)
      · exact Or.inr (Or.inr ⟨l₁, d₁, h₁, h₂.snoc ha⟩)

theorem Path.rest (h : Path access l d (.inr r) d') {y : L ⊕ R} {e : D} (hp : Path access l d y e) :
    (∃ m, y = .inl m ∧ Path access m e (.inr r) d') ∨ y = .inr r ∧ e = d' := by
  induction hp with
  | refl => exact Or.inl ⟨l, rfl, h⟩
  | @snoc l₁ d₁ d₂ y _ ha ih =>
      rcases ih with ⟨m, hm, hrest⟩ | ⟨hy, -⟩
      · cases hm
        rcases hrest.head with ⟨hx, -⟩ | h₁ | ⟨l₂, e, h₁, h₂⟩
        · cases hx
        · cases ha.symm.trans h₁
          exact Or.inr ⟨rfl, rfl⟩
        · cases ha.symm.trans h₁
          exact Or.inl ⟨l₂, rfl, h₂⟩
      · cases hy

theorem Path.unique {r' : R} (h : Path access l d (.inr r) d') {e : D} (h' : Path access l d (.inr r') e) :
    r' = r ∧ e = d' := by
  rcases h.rest h' with ⟨m, hm, -⟩ | ⟨hr, he⟩
  · cases hm
  · exact ⟨Sum.inr.inj hr, he⟩

theorem Path.access_ne_none (h : Path access l d (.inr r) d') (hp : Path access l d (.inl l₁) d₁) :
    access l₁ d₁ ≠ none := by
  intro hnone
  rcases h.rest hp with ⟨m, hm, hrest⟩ | ⟨hx, -⟩
  · cases hm
    rcases hrest.head with ⟨hx, -⟩ | ha | ⟨l₂, d₂, ha, -⟩
    · cases hx
    · rw [hnone] at ha
      cases ha
    · rw [hnone] at ha
      cases ha
  · cases hx

end Paths

variable {A W P D O R L : Type}

/-- The operation `o`, on its own, leads from `d` to `d'` and returns `r`. -/
def Does (obj : Object D O R L) (d : D) (o : O) (r : R) (d' : D) : Prop :=
  Path obj.access (obj.start o) d (.inr r) d'

inductive Pos (P L O R : Type)
  | idle
  | locking (o : O) (pc : P)
  | inside (o : O) (l : L)
  | leaving (o : O) (r : R)

/-- The operation of an agent that holds the lock, and how far it has come. -/
def Pos.reached : Pos P L O R → Option (O × (L ⊕ R))
  | .inside o l => some (o, .inl l)
  | .leaving o r => some (o, .inr r)
  | _ => none

/-- The agent holds the lock. -/
def Pos.Holds (p : Pos P L O R) : Prop := p.reached ≠ none

/-- The agents, the word of the lock, and the data. -/
structure State (A W P D O R L : Type) where
  pos : A → Pos P L O R
  word : W
  data : D

inductive Op (A O : Type)
  | call (a : A) (o : O)
  | step (a : A)

inductive Ret (O R : Type)
  | none
  | refused (o : O)
  | returned (o : O) (r : R)

/-- No agent has called yet. -/
def boot (w : W) (d : D) : State A W P D O R L := ⟨fun _ => .idle, w, d⟩

/-- The calls that had the lock, in the order of their returns. -/
def returned (es : List (Op A O × Ret O R)) : List (O × R) := es.filterMap fun e => match e.2 with
  | .returned o r => some (o, r)
  | _ => none

section Steps

variable [DecidableEq A]

def State.move (s : State A W P D O R L) (a : A) (p : Pos P L O R) : State A W P D O R L :=
  { s with pos := Function.update s.pos a p }

/-- One access of one agent, or the start of a call. -/
def step (lock : WordOps W P) (entry : O → P) (obj : Object D O R L) (s : State A W P D O R L) :
    Op A O → Option (Ret O R × State A W P D O R L)
  | .call a o => match s.pos a with
      | .idle => some (.none, s.move a (.locking o (entry o)))
      | _ => none
  | .step a => match s.pos a with
      | .idle => none
      | .locking o pc => match lock.attempt pc s.word with
          | (.again pc', w) => some (.none, { s.move a (.locking o pc') with word := w })
          | (.acquired, w) => some (.none, { s.move a (.inside o (obj.start o)) with word := w })
          | (.gaveUp, w) => some (.refused o, { s.move a .idle with word := w })
      | .inside o l => match obj.access l s.data with
          | some (.inl l', d) => some (.none, { s.move a (.inside o l') with data := d })
          | some (.inr r, d) => some (.none, { s.move a (.leaving o r) with data := d })
          | none => none
      | .leaving o r => some (.returned o r, { s.move a .idle with word := lock.release s.word })

variable {lock : SpinLock W P} {entry : O → P} {obj : Object D O R L} {s s' t : State A W P D O R L} {a b : A}
  {o : O} {pc : P} {l : L} {r : R} {op : Op A O} {ret : Ret O R} {d d' : D}

/-- **What a step can be.** The agent waits for the lock, takes it, makes one access, or returns. -/
theorem step_cases (h : step lock.toWordOps entry obj s op = some (ret, s')) :
    (∃ a p, (s.pos a).reached = none ∧ p.reached = none ∧ (∀ o r, ret ≠ .returned o r) ∧
      ∃ w, (lock.Held w ↔ lock.Held s.word) ∧ s' = { s.move a p with word := w }) ∨
    (∃ a o w, (s.pos a).reached = none ∧ ret = .none ∧ ¬lock.Held s.word ∧ lock.Held w ∧
      s' = { s.move a (.inside o (obj.start o)) with word := w }) ∨
    (∃ a o l x p d, s.pos a = .inside o l ∧ ret = .none ∧ obj.access l s.data = some (x, d) ∧
      p.reached = some (o, x) ∧ s' = { s.move a p with data := d }) ∨
    ∃ a o r, s.pos a = .leaving o r ∧ ret = .returned o r ∧
      s' = { s.move a .idle with word := lock.release s.word } := by
  cases op with
  | call a o =>
      cases hp : s.pos a with
      | idle =>
          simp only [step, hp, Option.some.injEq, Prod.mk.injEq] at h
          obtain ⟨rfl, rfl⟩ := h
          exact Or.inl ⟨a, _, by rw [hp]; rfl, rfl, by simp, s.word, Iff.rfl, rfl⟩
      | locking | inside | leaving => simp [step, hp] at h
  | step a =>
      cases hp : s.pos a with
      | idle => simp [step, hp] at h
      | locking o pc =>
          have hout : (s.pos a).reached = none := by rw [hp]; rfl
          obtain ⟨t, w, ht⟩ : ∃ t w, lock.attempt pc s.word = (t, w) := ⟨_, _, rfl⟩
          cases t with
          | again pc' =>
              simp only [step, hp, ht, Option.some.injEq, Prod.mk.injEq] at h
              obtain ⟨rfl, rfl⟩ := h
              exact Or.inl ⟨a, _, hout, rfl, by simp, w, lock.held_of_again pc _ pc' w ht, rfl⟩
          | acquired =>
              simp only [step, hp, ht, Option.some.injEq, Prod.mk.injEq] at h
              obtain ⟨rfl, rfl⟩ := h
              obtain ⟨hfree, hheld⟩ := lock.free_of_acquired pc _ w ht
              exact Or.inr (Or.inl ⟨a, o, w, hout, rfl, hfree, hheld, rfl⟩)
          | gaveUp =>
              simp only [step, hp, ht, Option.some.injEq, Prod.mk.injEq] at h
              obtain ⟨rfl, rfl⟩ := h
              exact Or.inl ⟨a, _, hout, rfl, by simp, w, lock.held_of_gaveUp pc _ w ht, rfl⟩
      | inside o l =>
          cases ha : obj.access l s.data with
          | none => simp [step, hp, ha] at h
          | some xd =>
              obtain ⟨x, d⟩ := xd
              cases x with
              | inl l' =>
                  simp only [step, hp, ha, Option.some.injEq, Prod.mk.injEq] at h
                  obtain ⟨rfl, rfl⟩ := h
                  exact Or.inr (Or.inr (Or.inl ⟨a, o, l, _, .inside o l', d, hp, rfl, ha, rfl, rfl⟩))
              | inr r =>
                  simp only [step, hp, ha, Option.some.injEq, Prod.mk.injEq] at h
                  obtain ⟨rfl, rfl⟩ := h
                  exact Or.inr (Or.inr (Or.inl ⟨a, o, l, _, .leaving o r, d, hp, rfl, ha, rfl, rfl⟩))
      | leaving o r =>
          simp only [step, hp, Option.some.injEq, Prod.mk.injEq] at h
          obtain ⟨rfl, rfl⟩ := h
          exact Or.inr (Or.inr (Or.inr ⟨a, o, r, hp, rfl, rfl⟩))

/-- With the calls that have returned, the data was `d`. An agent that holds the lock has made its accesses from
there on. -/
structure Inv (lock : SpinLock W P) (obj : Object D O R L) (s : State A W P D O R L) (d : D) : Prop where
  held : lock.Held s.word ↔ ∃ a, (s.pos a).Holds
  excl : ∀ a b, (s.pos a).Holds → (s.pos b).Holds → a = b
  free : (∀ a, ¬(s.pos a).Holds) → s.data = d
  path : ∀ a o x, (s.pos a).reached = some (o, x) → Path obj.access (obj.start o) d x s.data

theorem holds_of_reached {p : Pos P L O R} {x : L ⊕ R} (h : p.reached = some (o, x)) : p.Holds := by
  intro hn
  rw [h] at hn
  cases hn

omit [DecidableEq A] in
theorem inv_boot {w : W} (hw : ¬lock.Held w) (d : D) : Inv lock obj (boot (A := A) w d) d where
  held := iff_of_false hw fun ⟨_, ha⟩ => ha rfl
  excl _ _ ha := absurd rfl ha
  free _ := rfl
  path _ _ _ h := by cases h

/-- A step of a call that does not have the lock, and does not take it. -/
theorem Inv.wait (h : Inv lock obj s d) {p : Pos P L O R} {w : W} (ha : (s.pos a).reached = none)
    (hp : p.reached = none) (hw : lock.Held w ↔ lock.Held s.word) : Inv lock obj { s.move a p with word := w } d := by
  have hreached : ∀ b, (Function.update s.pos a p b).reached = (s.pos b).reached := by
    intro b
    by_cases hb : b = a
    · rw [hb, Function.update_self, hp, ha]
    · rw [Function.update_of_ne hb]
  have hholds : ∀ b, (Function.update s.pos a p b).Holds ↔ (s.pos b).Holds := fun b => by
    unfold Pos.Holds
    rw [hreached]
  refine ⟨hw.trans (h.held.trans (exists_congr fun b => (hholds b).symm)), fun b c hb hc => ?_, fun hn => ?_,
    fun b o x hb => h.path b o x ((hreached b).symm.trans hb)⟩
  · exact h.excl b c ((hholds b).mp hb) ((hholds c).mp hc)
  · exact h.free fun b hb => hn b ((hholds b).mpr hb)

/-- Only the agent `a` can hold the lock when it moves on to `x`, after the accesses that lead there. -/
theorem Inv.only {p : Pos P L O R} {w : W} {e : D} {x : L ⊕ R} (hp : p.reached = some (o, x)) (hw : lock.Held w)
    (hothers : ∀ b, b ≠ a → ¬(s.pos b).Holds) (hpath : Path obj.access (obj.start o) d x e) :
    Inv lock obj { s.move a p with word := w, data := e } d := by
  have hself : (Function.update s.pos a p a).reached = some (o, x) := by rw [Function.update_self, hp]
  have honly : ∀ b, (Function.update s.pos a p b).Holds → b = a := by
    intro b hb
    by_contra hne
    rw [Function.update_of_ne hne] at hb
    exact hothers b hne hb
  refine ⟨iff_of_true hw ⟨a, holds_of_reached hself⟩, fun b c hb hc => (honly b hb).trans (honly c hc).symm,
    fun hn => absurd (holds_of_reached hself) (hn a), fun b o' x' hb => ?_⟩
  obtain rfl := honly b (holds_of_reached hb)
  cases hself.symm.trans hb
  exact hpath

/-- **One step.** The data of the returned calls changes when a call returns, and then as that call on its own
would change it. -/
theorem Inv.step (h : Inv lock obj s d) (hs : step lock.toWordOps entry obj s op = some (ret, s')) :
    (∃ o r d', ret = .returned o r ∧ Does obj d o r d' ∧ Inv lock obj s' d') ∨
      (∀ o r, ret ≠ .returned o r) ∧ Inv lock obj s' d := by
  rcases step_cases hs with ⟨a, p, ha, hp, hret, w, hw, rfl⟩ | ⟨a, o, w, ha, rfl, hfree, hheld, rfl⟩ |
    ⟨a, o, l, x, p, e, ha, rfl, hacc, hp, rfl⟩ | ⟨a, o, r, ha, rfl, rfl⟩
  · exact Or.inr ⟨hret, h.wait ha hp hw⟩
  · have hnone : ∀ b, ¬(s.pos b).Holds := fun b hb => hfree (h.held.mpr ⟨b, hb⟩)
    have hd : s.data = d := h.free hnone
    refine Or.inr ⟨by simp, Inv.only rfl hheld (fun b _ => hnone b) ?_⟩
    rw [← hd]
    exact .refl
  · have hreached : (s.pos a).reached = some (o, .inl l) := by rw [ha]; rfl
    have hholds := holds_of_reached hreached
    refine Or.inr ⟨by simp, Inv.only hp (h.held.mpr ⟨a, hholds⟩) (fun b hb hbh => hb (h.excl b a hbh hholds)) ?_⟩
    exact (h.path a o _ hreached).snoc hacc
  · have hreached : (s.pos a).reached = some (o, .inr r) := by rw [ha]; rfl
    have hholds := holds_of_reached hreached
    have hnone : ∀ b, ¬(Function.update s.pos a .idle b).Holds := by
      intro b hb
      by_cases hba : b = a
      · rw [hba, Function.update_self] at hb
        exact hb rfl
      · rw [Function.update_of_ne hba] at hb
        exact hba (h.excl b a hb hholds)
    refine Or.inl ⟨o, r, s.data, rfl, h.path a o _ hreached, ?_, fun b c hb => absurd hb (hnone b), fun _ => rfl,
      fun b o' x' hb => absurd (holds_of_reached hb) (hnone b)⟩
    exact iff_of_false (lock.free_release s.word) fun ⟨b, hb⟩ => hnone b hb

/-- **A run.** Where `call` is what the operations do on their own, the calls that have returned are a run of it,
in the order of their returns. -/
theorem exists_run_returned {call : D → O → Option (R × D)}
    (hcall : ∀ d o r d', Does obj d o r d' → call d o = some (r, d')) {es : List (Op A O × Ret O R)}
    (h : Run (Locked.step lock.toWordOps entry obj) s es t) (hi : Inv lock obj s d) :
    ∃ d', Run call d (returned es) d' ∧ Inv lock obj t d' := by
  induction h generalizing d with
  | nil => exact ⟨d, .nil d, hi⟩
  | @cons s s' t op ret es hstep _ ih =>
      rcases hi.step hstep with ⟨o, r, e, rfl, hdoes, hi'⟩ | ⟨hret, hi'⟩
      · obtain ⟨d', hrun, ht⟩ := ih hi'
        exact ⟨d', .cons (hcall _ _ _ _ hdoes) hrun, ht⟩
      · obtain ⟨d', hrun, ht⟩ := ih hi'
        refine ⟨d', ?_, ht⟩
        have hnone : returned ((op, ret) :: es) = returned es := by
          cases ret with
          | returned o r => exact absurd rfl (hret o r)
          | none | refused => rfl
        rwa [hnone]

/-! ### No deadlock -/

/-- These are steps of the agent `b`, and one of its calls comes back. -/
def Completes (b : A) (es : List (Op A O × Ret O R)) : Prop :=
  (∀ e ∈ es, e.1 = .step b) ∧ ∃ e ∈ es, e.2 ≠ .none

omit [DecidableEq A] in
theorem Completes.cons {es : List (Op A O × Ret O R)} (h : Completes b es) (ret : Ret O R) :
    Completes b ((.step b, ret) :: es) := by
  obtain ⟨e, he, hne⟩ := h.2
  exact ⟨List.forall_mem_cons.mpr ⟨rfl, h.1⟩, e, List.mem_cons_of_mem _ he, hne⟩

theorem step_access {l' : L} (hb : s.pos b = .inside o l) (ha : obj.access l s.data = some (.inl l', d)) :
    step lock.toWordOps entry obj s (.step b) = some (.none, { s.move b (.inside o l') with data := d }) := by
  rw [step, hb]
  simp only [ha]

theorem step_result (hb : s.pos b = .inside o l) (ha : obj.access l s.data = some (.inr r, d)) :
    step lock.toWordOps entry obj s (.step b) = some (.none, { s.move b (.leaving o r) with data := d }) := by
  rw [step, hb]
  simp only [ha]

theorem completes_of_leaving (hb : s.pos b = .leaving o r) :
    ∃ es t, Run (step lock.toWordOps entry obj) s es t ∧ Completes b es := by
  refine ⟨[(.step b, .returned o r)], _, .cons (by rw [step, hb]) (.nil _), by simp, _, List.mem_singleton_self _, ?_⟩
  simp

/-- An agent that holds the lock can make its accesses one after the other, and return. -/
theorem completes_of_inside {e : D} (hb : s.pos b = .inside o l) (hpath : Path obj.access l s.data (.inr r) e) :
    ∃ es t, Run (step lock.toWordOps entry obj) s es t ∧ Completes b es := by
  have hrun : ∀ {x : L ⊕ R} {e : D}, Path obj.access l s.data x e →
      ∃ es t, Run (step lock.toWordOps entry obj) s es t ∧ (∀ e ∈ es, e.1 = .step b) ∧
        (t.pos b).reached = some (o, x) ∧ t.data = e := by
    intro x e hx
    induction hx with
    | refl => exact ⟨[], s, .nil s, by simp, by rw [hb]; rfl, rfl⟩
    | @snoc l₁ d₁ d₂ x _ ha ih =>
        obtain ⟨es, t, ht, hes, hpos, rfl⟩ := ih
        have hin : t.pos b = .inside o l₁ := by
          cases hp : t.pos b <;> rw [hp] at hpos <;> cases hpos
          rfl
        have hsnoc : ∀ ret, ∀ e ∈ es ++ [(Op.step b, ret)], e.1 = .step b := fun ret e he =>
          (List.mem_append.mp he).elim (hes e) fun he => by rw [List.mem_singleton.mp he]
        cases x with
        | inl l₂ =>
            have hpos' : Function.update t.pos b (.inside o l₂) b = .inside o l₂ := Function.update_self _ _ _
            exact ⟨_, _, run_snoc.mpr ⟨t, ht, step_access hin ha⟩, hsnoc _, congrArg Pos.reached hpos', rfl⟩
        | inr r =>
            have hpos' : Function.update t.pos b (.leaving o r) b = .leaving o r := Function.update_self _ _ _
            exact ⟨_, _, run_snoc.mpr ⟨t, ht, step_result hin ha⟩, hsnoc _, congrArg Pos.reached hpos', rfl⟩
  obtain ⟨es, t, ht, hes, hpos, -⟩ := hrun hpath
  have hleave : t.pos b = .leaving o r := by
    cases hp : t.pos b <;> rw [hp] at hpos <;> cases hpos
    rfl
  obtain ⟨fs, u, hu, hfs, e, he, hne⟩ : ∃ fs u, Run (step lock.toWordOps entry obj) t fs u ∧ Completes b fs :=
    completes_of_leaving hleave
  exact ⟨es ++ fs, u, ht.append hu, fun e he => (List.mem_append.mp he).elim (hes e) (hfs e), e,
    List.mem_append_right _ he, hne⟩

theorem completes_of_enters {w : W} (hw : Enters lock.attempt pc w) (hb : s.pos b = .locking o pc) (hs : s.word = w)
    (hdoes : ∃ r d', Does obj s.data o r d') : ∃ es t, Run (step lock.toWordOps entry obj) s es t ∧ Completes b es := by
  induction hw generalizing s with
  | @acquired pc w w' ht =>
      subst hs
      have hstep : step lock.toWordOps entry obj s (.step b) =
          some (.none, { s.move b (.inside o (obj.start o)) with word := w' }) := by
        rw [step, hb]
        simp only [ht]
      obtain ⟨r, d', hpath⟩ := hdoes
      obtain ⟨es, t, hrun, hc⟩ : ∃ es t, Run (step lock.toWordOps entry obj)
          { s.move b (.inside o (obj.start o)) with word := w' } es t ∧ Completes b es :=
        completes_of_inside (Function.update_self _ _ _) hpath
      exact ⟨_, t, .cons hstep hrun, hc.cons _⟩
  | @gaveUp pc w w' ht =>
      subst hs
      have hstep : step lock.toWordOps entry obj s (.step b) =
          some (.refused o, { s.move b .idle with word := w' }) := by
        rw [step, hb]
        simp only [ht]
      exact ⟨_, _, .cons hstep (.nil _), by simp, _, List.mem_singleton_self _, by simp⟩
  | @again pc pc' w w' ht _ ih =>
      subst hs
      have hstep : step lock.toWordOps entry obj s (.step b) =
          some (.none, { s.move b (.locking o pc') with word := w' }) := by
        rw [step, hb]
        simp only [ht]
      obtain ⟨es, t, hrun, hc⟩ := ih (s := { s.move b (.locking o pc') with word := w' })
        (Function.update_self _ _ _) rfl hdoes
      exact ⟨_, t, .cons hstep hrun, hc.cons _⟩

/-- **No deadlock.** Where every operation, on its own, comes to a result, then as long as some agent is in a
call, there is an agent whose steps alone complete a call. -/
theorem exists_completion (hdoes : ∀ o, ∃ r d', Does obj d o r d') (h : Inv lock obj s d) (ha : s.pos a ≠ .idle) :
    ∃ b es t, Run (step lock.toWordOps entry obj) s es t ∧ Completes b es := by
  by_cases hheld : ∃ b, (s.pos b).Holds
  · obtain ⟨b, hb⟩ := hheld
    refine ⟨b, ?_⟩
    cases hp : s.pos b with
    | idle | locking => rw [hp] at hb; exact absurd rfl hb
    | inside o l =>
        obtain ⟨r, d', hd⟩ := hdoes o
        rcases hd.rest (h.path b o (.inl l) (by rw [hp]; rfl)) with ⟨m, hm, hrest⟩ | ⟨hx, -⟩
        · cases hm
          exact completes_of_inside hp hrest
        · cases hx
    | leaving o r => exact completes_of_leaving hp
  · refine ⟨a, ?_⟩
    have hfree : ¬lock.Held s.word := fun hh => hheld (h.held.mp hh)
    have hd : s.data = d := h.free fun b hb => hheld ⟨b, hb⟩
    cases hp : s.pos a with
    | idle => exact absurd hp ha
    | locking o pc => exact completes_of_enters (lock.enters pc _ hfree) hp rfl (hd.symm ▸ hdoes o)
    | inside o l => exact absurd ⟨a, holds_of_reached (o := o) (x := .inl l) (by rw [hp]; rfl)⟩ hheld
    | leaving o r => exact absurd ⟨a, holds_of_reached (o := o) (x := .inr r) (by rw [hp]; rfl)⟩ hheld

end Steps

end Lib.Locked
