import Mathlib.Data.Nat.Digits.Lemmas

set_option autoImplicit false

/-!
# Numerals

The digits of a number in a base, the most significant first.

* `IsNumeral b n ds`, `Shortest b n ds`: `ds` is a numeral of `n`, and one with no leading zeros;
* `Shortest.unique`: there is only one; `shortest_reverse_digits`: it is `Nat.digits`, reversed;
* `fixed b w n`: the numeral with exactly `w` digits; `isNumeral_fixed`, `IsNumeral.eq_of_length`.
-/

namespace Lib

/-- The value of the digits `ds`. -/
def numeralValue (b : ℕ) (ds : List ℕ) : ℕ := Nat.ofDigits b ds.reverse

/-- `ds` is a numeral of `n` in base `b`. -/
structure IsNumeral (b n : ℕ) (ds : List ℕ) : Prop where
  lt : ∀ d ∈ ds, d < b
  value : numeralValue b ds = n

/-- `ds` is a numeral of `n`, and no numeral of `n` is shorter. -/
structure Shortest (b n : ℕ) (ds : List ℕ) : Prop extends IsNumeral b n ds where
  ne_nil : ds ≠ []
  length_le : ∀ es, IsNumeral b n es → es ≠ [] → ds.length ≤ es.length

variable {b n : ℕ} {ds es : List ℕ}

theorem IsNumeral.lt_pow (hb : 1 < b) (h : IsNumeral b n ds) : n < b ^ ds.length := by
  have hlt := Nat.ofDigits_lt_base_pow_length hb fun d hd => h.lt d (List.mem_reverse.mp hd)
  rw [List.length_reverse] at hlt
  exact h.value ▸ hlt

theorem IsNumeral.eq_of_length (hb : 1 < b) (h : IsNumeral b n ds) (h' : IsNumeral b n es)
    (hlen : ds.length = es.length) : ds = es := by
  have hvalue : Nat.ofDigits b ds.reverse = Nat.ofDigits b es.reverse := h.value.trans h'.value.symm
  have hrev := Nat.ofDigits_inj_of_len_eq hb (by simpa using hlen)
    (fun d hd => h.lt d (List.mem_reverse.mp hd)) (fun d hd => h'.lt d (List.mem_reverse.mp hd)) hvalue
  exact List.reverse_injective hrev

theorem Shortest.unique (hb : 1 < b) (h : Shortest b n ds) (h' : Shortest b n es) : ds = es :=
  h.toIsNumeral.eq_of_length hb h'.toIsNumeral
    (Nat.le_antisymm (h.length_le es h'.toIsNumeral h'.ne_nil)
      (h'.length_le ds h.toIsNumeral h.ne_nil))

theorem shortest_zero (hb : 0 < b) : Shortest b 0 [0] where
  lt := by simpa using hb
  value := by simp [numeralValue]
  ne_nil := List.cons_ne_nil _ _
  length_le es _ hne := List.length_pos_iff.mpr hne

theorem shortest_reverse_digits (hb : 1 < b) (hn : n ≠ 0) :
    Shortest b n (Nat.digits b n).reverse where
  lt _ hd := Nat.digits_lt_base hb (List.mem_reverse.mp hd)
  value := by rw [numeralValue, List.reverse_reverse, Nat.ofDigits_digits]
  ne_nil h := hn (Nat.digits_eq_nil_iff_eq_zero.mp (List.reverse_eq_nil_iff.mp h))
  length_le es h _ := by
    rw [List.length_reverse, Nat.digits_length_le_iff hb]
    exact h.lt_pow hb

/-! ### Numerals of a fixed length -/

/-- The last `w` digits of `n`. -/
def fixed (b : ℕ) : ℕ → ℕ → List ℕ
  | 0, _ => []
  | w + 1, n => n / b ^ w % b :: fixed b w n

@[simp] theorem length_fixed (b w n : ℕ) : (fixed b w n).length = w := by
  induction w with
  | zero => rfl
  | succ w ih => rw [fixed, List.length_cons, ih]

theorem numeralValue_cons (b d : ℕ) (ds : List ℕ) :
    numeralValue b (d :: ds) = numeralValue b ds + b ^ ds.length * d := by
  unfold numeralValue
  rw [List.reverse_cons, Nat.ofDigits_append, List.length_reverse, Nat.ofDigits_singleton]

theorem isNumeral_fixed (hb : 0 < b) (w n : ℕ) : IsNumeral b (n % b ^ w) (fixed b w n) := by
  induction w with
  | zero => exact ⟨nofun, by rw [pow_zero, Nat.mod_one]; rfl⟩
  | succ w ih =>
      refine ⟨fun d hd => ?_, ?_⟩
      · rcases List.mem_cons.mp hd with rfl | hd
        · exact Nat.mod_lt _ hb
        · exact ih.lt d hd
      · rw [fixed, numeralValue_cons, ih.value, length_fixed, pow_succ, Nat.mod_mul]

end Lib
