import Mathlib.Data.Fintype.Pigeonhole
import Mathlib.Logic.Function.Iterate

set_option autoImplicit false

/-!
# Following pointers

`follow stop next` goes from a pointer to the next one until it comes to one that stops.

* `FirstStop`: the number of steps to the first that stops; `follow_eq_some_iff`: what is found.
* **`exists_follow_iff`**: if there are `N` pointers in all, one that stops is among the first `N`, or the pointers are
  followed for ever.
-/

namespace Lib

section Follow

variable {α : Type} (stop : α → Prop) (next : α → α)

/-- The first pointer from `p` on that stops, if it is among the first `fuel`. -/
def follow [DecidablePred stop] : ℕ → α → Option α
  | 0, _ => none
  | fuel + 1, p => if stop p then some p else follow fuel (next p)

/-- After `n` steps from `p` a pointer stops, for the first time. -/
structure FirstStop (p : α) (n : ℕ) : Prop where
  stops : stop (next^[n] p)
  first : ∀ m < n, ¬stop (next^[m] p)

variable {stop next} {p q : α} {n fuel : ℕ}

theorem FirstStop.zero (h : stop p) : FirstStop stop next p 0 :=
  ⟨h, fun m hm => absurd hm (Nat.not_lt_zero m)⟩

theorem firstStop_succ (h : ¬stop p) : FirstStop stop next p (n + 1) ↔ FirstStop stop next (next p) n := by
  constructor
  · rintro ⟨hn, hfirst⟩
    refine ⟨hn, fun m hm => ?_⟩
    exact hfirst (m + 1) (Nat.succ_lt_succ hm)
  · rintro ⟨hn, hfirst⟩
    refine ⟨hn, fun m hm => ?_⟩
    cases m with
    | zero => exact h
    | succ m => exact hfirst m (Nat.lt_of_succ_lt_succ hm)

theorem FirstStop.unique {m : ℕ} (hm : FirstStop stop next p m) (hn : FirstStop stop next p n) : m = n :=
  Nat.le_antisymm (not_lt.mp fun h => hm.first n h hn.stops) (not_lt.mp fun h => hn.first m h hm.stops)

theorem exists_firstStop (h : ∃ n, stop (next^[n] p)) : ∃ n, FirstStop stop next p n := by
  classical
  exact ⟨Nat.find h, Nat.find_spec h, fun m hm => Nat.find_min h hm⟩

/-- **Among finitely many pointers** the first that stops is not farther away than there are pointers: else one of
them would have been met twice before. -/
theorem FirstStop.lt_card [Fintype α] (h : FirstStop stop next p n) : n < Fintype.card α := by
  by_contra hge
  have hcard : Fintype.card α < Fintype.card (Fin (n + 1)) := by rw [Fintype.card_fin]; omega
  obtain ⟨i, j, hne, heq⟩ := Fintype.exists_ne_map_eq_of_card_lt (fun k : Fin (n + 1) => next^[(k : ℕ)] p) hcard
  wlog hij : (i : ℕ) < j generalizing i j
  · exact this j i hne.symm heq.symm (by omega)
  -- from the first of the two meetings the way to the stop is as long as from the second
  have hj := j.isLt
  have hstop : stop (next^[n - j + i] p) := by
    rw [Function.iterate_add_apply, heq, ← Function.iterate_add_apply, Nat.sub_add_cancel (Nat.le_of_lt_succ hj)]
    exact h.stops
  exact h.first (n - j + i) (by omega) hstop

variable [DecidablePred stop]

/-- **What is found** is the first that stops. -/
theorem follow_eq_some_iff :
    follow stop next fuel p = some q ↔ ∃ n < fuel, FirstStop stop next p n ∧ next^[n] p = q := by
  induction fuel generalizing p with
  | zero => exact iff_of_false (fun h => by cases h) fun ⟨n, hn, _⟩ => absurd hn (Nat.not_lt_zero n)
  | succ fuel ih =>
      rw [follow]
      by_cases h : stop p
      · rw [if_pos h, Option.some_inj]
        constructor
        · exact fun hq => ⟨0, Nat.succ_pos fuel, .zero h, hq⟩
        · rintro ⟨n, -, hn, hq⟩
          cases n with
          | zero => exact hq
          | succ n => exact absurd h (hn.first 0 (Nat.succ_pos n))
      · rw [if_neg h, ih]
        constructor
        · rintro ⟨n, hlt, hn, hq⟩
          exact ⟨n + 1, Nat.succ_lt_succ hlt, (firstStop_succ h).mpr hn, hq⟩
        · rintro ⟨n, hlt, hn, hq⟩
          cases n with
          | zero => exact absurd hn.stops h
          | succ n => exact ⟨n, Nat.lt_of_succ_lt_succ hlt, (firstStop_succ h).mp hn, hq⟩

theorem isSome_follow_iff : (follow stop next fuel p).isSome ↔ ∃ n < fuel, stop (next^[n] p) := by
  constructor
  · intro h
    obtain ⟨q, hq⟩ := Option.isSome_iff_exists.mp h
    obtain ⟨n, hlt, hn, -⟩ := follow_eq_some_iff.mp hq
    exact ⟨n, hlt, hn.stops⟩
  · rintro ⟨n, hlt, hn⟩
    obtain ⟨m, hm⟩ := exists_firstStop ⟨n, hn⟩
    have hle : m ≤ n := not_lt.mp fun h => hm.first n h hn
    exact Option.isSome_iff_exists.mpr ⟨_, follow_eq_some_iff.mpr ⟨m, hle.trans_lt hlt, hm, rfl⟩⟩

/-- **The end.** The pointers are followed to an end exactly when one of the first stops, as many as there are. -/
theorem exists_follow_iff [Fintype α] :
    (∃ fuel, (follow stop next fuel p).isSome) ↔ ∃ n < Fintype.card α, stop (next^[n] p) := by
  constructor
  · rintro ⟨fuel, h⟩
    obtain ⟨n, -, hn⟩ := isSome_follow_iff.mp h
    obtain ⟨m, hm⟩ := exists_firstStop ⟨n, hn⟩
    exact ⟨m, hm.lt_card, hm.stops⟩
  · rintro ⟨n, hlt, hn⟩
    exact ⟨Fintype.card α, isSome_follow_iff.mpr ⟨n, hlt, hn⟩⟩

end Follow

end Lib
