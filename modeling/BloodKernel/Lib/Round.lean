import BloodKernel.Lib.Search
import Mathlib.Algebra.NeZero
import Mathlib.Data.Fintype.Card
import Mathlib.Data.Fintype.Fin

set_option autoImplicit false

/-!
# One round of a cyclic array

The slots of an array of `n`, in the cyclic order that starts after a slot `c` and ends with `c`.

* `places c i`: how many places after `c` the slot `i` comes, from 1 to `n`;
* `slotsAfter p c d`, `roundFrom p c`: the slots satisfying `p` that come more than `d` places after `c`,
  and all of them, in this order; `mem_roundFrom`, `pairwise_roundFrom`, `length_roundFrom`;
* **`nextFrom_slotsAfter`**: the cyclic search from the slot at place `d`, for another slot satisfying `p`,
  stops at the first slot of `slotsAfter p c d`.
-/

namespace Lib

variable {n : ℕ}

/-- The number of places from `c` on to `i`, from 1 to `n`. -/
def places (c i : Fin n) : ℕ := if c.val < i then i - c else i + n - c

theorem places_pos (c i : Fin n) : 1 ≤ places c i := by
  have := c.isLt
  unfold places
  split_ifs with h <;> omega

theorem places_le (c i : Fin n) : places c i ≤ n := by
  have := i.isLt
  unfold places
  split_ifs with h <;> omega

variable [NeZero n]

theorem slotAfter_places (c i : Fin n) : slotAfter n c (places c i) = i := by
  have := c.isLt
  have := i.isLt
  apply Fin.ext
  rw [slotAfter, Fin.val_ofNat, places]
  split_ifs with h
  · rw [Nat.add_sub_cancel' h.le, Nat.mod_eq_of_lt i.isLt]
  · rw [show c.val + (i.val + n - c.val) = i + n by omega, Nat.add_mod_right,
      Nat.mod_eq_of_lt i.isLt]

theorem places_slotAfter {c : Fin n} {k : ℕ} (h : 1 ≤ k) (hk : k ≤ n) :
    places c (slotAfter n c k) = k := by
  have := c.isLt
  unfold places
  rw [slotAfter, Fin.val_ofNat]
  rcases Nat.lt_or_ge (c + k) n with hlt | hge
  · rw [Nat.mod_eq_of_lt hlt, if_pos (by omega)]
    omega
  · rw [Nat.mod_eq_sub_mod hge, Nat.mod_eq_of_lt (by omega), if_neg (by omega)]
    omega

theorem slotAfter_add (c a b : ℕ) : slotAfter n (slotAfter n c a) b = slotAfter n c (a + b) :=
  Fin.ext (by simp only [slotAfter, Fin.val_ofNat, Nat.mod_add_mod, Nat.add_assoc])

theorem slotAfter_zero (c : Fin n) : slotAfter n c 0 = c :=
  Fin.ext (Nat.mod_eq_of_lt c.isLt)

variable (p : Fin n → Bool) (c : Fin n)

/-- The slots satisfying `p` that come more than `d` places after `c`, in this order. -/
def slotsAfter (d : ℕ) : List (Fin n) := ((List.range' (d + 1) (n - d)).map (slotAfter n c)).filter p

/-- All slots satisfying `p`, in the order of the round that starts after `c`. -/
def roundFrom : List (Fin n) := slotsAfter p c 0

variable {p c}

theorem mem_slotsAfter {d : ℕ} {i : Fin n} : i ∈ slotsAfter p c d ↔ p i = true ∧ d < places c i := by
  unfold slotsAfter
  rw [List.mem_filter, List.mem_map, and_comm]
  refine and_congr_right fun _ => ⟨?_, fun h => ⟨places c i, ?_, slotAfter_places c i⟩⟩
  · rintro ⟨k, hk, rfl⟩
    rw [List.mem_range'_1] at hk
    rw [places_slotAfter (by omega) (by omega)]
    omega
  · have := places_le c i
    rw [List.mem_range'_1]
    omega

theorem mem_roundFrom {i : Fin n} : i ∈ roundFrom p c ↔ p i = true :=
  mem_slotsAfter.trans (and_iff_left (places_pos c i))

theorem pairwise_roundFrom : (roundFrom p c).Pairwise fun i j => places c i < places c j := by
  unfold roundFrom slotsAfter
  refine List.Pairwise.filter _ (List.pairwise_map.mpr ?_)
  refine List.Pairwise.imp_of_mem (fun {a b} ha hb hab => ?_) List.pairwise_lt_range'
  rw [List.mem_range'_1] at ha hb
  rwa [places_slotAfter (by omega) (by omega), places_slotAfter (by omega) (by omega)]

theorem nodup_roundFrom : (roundFrom p c).Nodup :=
  pairwise_roundFrom.imp fun h e => absurd (e ▸ h) (lt_irrefl _)

theorem length_roundFrom : (roundFrom p c).length = (Finset.univ.filter fun i => p i = true).card := by
  rw [← List.toFinset_card_of_nodup nodup_roundFrom]
  refine congrArg _ (Finset.ext fun i => ?_)
  rw [List.mem_toFinset, mem_roundFrom, Finset.mem_filter, and_iff_right (Finset.mem_univ i)]

theorem slotsAfter_of_le {d : ℕ} (h : n ≤ d) : slotsAfter p c d = [] := by
  unfold slotsAfter
  rw [Nat.sub_eq_zero_of_le h]
  rfl

theorem slotsAfter_of_lt {d : ℕ} (h : d < n) : slotsAfter p c d =
    if p (slotAfter n c (d + 1)) = true then slotAfter n c (d + 1) :: slotsAfter p c (d + 1)
    else slotsAfter p c (d + 1) := by
  unfold slotsAfter
  rw [show n - d = (n - (d + 1)) + 1 by omega, List.range'_succ, List.map_cons, List.filter_cons]

theorem slotsAfter_eq_cons {d : ℕ} {y : Fin n} {ys : List (Fin n)} (h : slotsAfter p c d = y :: ys) :
    ∃ e, d < e ∧ e ≤ n ∧ y = slotAfter n c e ∧ p y = true ∧ ys = slotsAfter p c e ∧
      ∀ j, d < j → j < e → p (slotAfter n c j) = false := by
  obtain ⟨k, hk⟩ : ∃ k, n - d = k := ⟨_, rfl⟩
  induction k generalizing d with
  | zero =>
      rw [slotsAfter_of_le (by omega)] at h
      cases h
  | succ k ih =>
      rw [slotsAfter_of_lt (by omega)] at h
      by_cases hp : p (slotAfter n c (d + 1)) = true
      · rw [if_pos hp, List.cons.injEq] at h
        obtain ⟨rfl, rfl⟩ := h
        exact ⟨d + 1, by omega, by omega, rfl, hp, rfl, fun j _ _ => by omega⟩
      · rw [if_neg hp] at h
        obtain ⟨e, he, hen, hy, hpy, hys, hlt⟩ := ih h (by omega)
        refine ⟨e, by omega, hen, hy, hpy, hys, fun j hj hje => ?_⟩
        rcases Nat.lt_or_eq_of_le hj with hj | rfl
        · exact hlt j hj hje
        · exact Bool.eq_false_of_not_eq_true hp

/-- **The next slot.** From the slot at place `d`, the search for another slot satisfying `p` stops at
the first slot ahead, unless that is the slot itself. -/
theorem nextFrom_slotsAfter {d : ℕ} {x y : Fin n} {ys : List (Fin n)} (hx : slotAfter n c d = x)
    (h : slotsAfter p c d = y :: ys) :
    nextFrom (fun i => p i && decide (i ≠ x)) x = if y = x then none else some y := by
  obtain ⟨e, hde, hen, rfl, hp, -, hlt⟩ := slotsAfter_eq_cons h
  have hslot : ∀ j, slotAfter n x j = slotAfter n c (d + j) := fun j => by
    rw [← hx, slotAfter_add]
  by_cases hyx : slotAfter n c e = x
  · -- the round is over: `x` is the only slot satisfying `p`
    have hd : d = 0 := by
      by_contra hd
      have hplace := congrArg (places c) (hyx.trans hx.symm)
      rw [places_slotAfter (by omega) hen, places_slotAfter (by omega) (by omega)] at hplace
      omega
    subst hd
    rw [slotAfter_zero] at hx
    subst hx
    rw [if_pos hyx, nextFrom_eq_none_iff]
    intro i
    by_cases hi : i = c
    · simp [hi]
    · have hplace : places c i < e := by
        have hle := places_le c i
        have he : e = n := by
          have := congrArg (places c) (hyx.trans (slotAfter_self c).symm)
          rwa [places_slotAfter (by omega) hen, places_slotAfter (Nat.pos_of_neZero n) le_rfl] at this
        refine lt_of_le_of_ne (he ▸ hle) fun hpl => hi ?_
        rw [← slotAfter_places c i, hpl, hyx]
      have := hlt _ (places_pos c i) hplace
      rw [slotAfter_places] at this
      simp [this]
  · rw [if_neg hyx, nextFrom_eq_some_iff]
    refine ⟨by simp [hp, hyx], e - d, by omega, by omega, ?_, fun j hj hje => ?_⟩
    · rw [hslot, Nat.add_sub_cancel' hde.le]
    · rw [hslot, hlt (d + j) (by omega) (by omega), Bool.false_and]

end Lib
