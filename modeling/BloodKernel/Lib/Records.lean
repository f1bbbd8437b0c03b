import Mathlib.Data.BitVec
import Mathlib.Data.List.Basic

set_option autoImplicit false

/-!
# Records with a tag and a length

A list of bytes is cut into records: a tag, a length, and as many bytes. The first record that would reach beyond
the end ends the list.

* `records`: the records of a list; **`records_drop`**: those from a position on, by the bytes at this position.
* `length_value_lt`: a value is shorter than 256 bytes.
* `record`: the bytes of a record; **`records_flatMap`**: records that are written one after the other are read back.
-/

namespace Lib

/-- The records of a list of bytes. -/
def records (l : List (BitVec 8)) : List (BitVec 8 × List (BitVec 8)) :=
  match l with
  | t :: n :: rest =>
      if n.toNat ≤ rest.length then (t, rest.take n.toNat) :: records (rest.drop n.toNat) else []
  | _ => []
  termination_by l.length
  decreasing_by
    rw [List.length_drop, List.length_cons, List.length_cons]
    omega

variable {l : List (BitVec 8)} {pos : ℕ}

theorem records_cons_cons (t n : BitVec 8) (rest : List (BitVec 8)) : records (t :: n :: rest) =
    if n.toNat ≤ rest.length then (t, rest.take n.toNat) :: records (rest.drop n.toNat) else [] := by
  rw [records]

theorem records_of_length_lt (h : l.length < 2) : records l = [] := by
  match l with
  | [] => rw [records]; exact fun _ _ _ h => by cases h
  | [_] => rw [records]; exact fun _ _ _ h => by cases h
  | _ :: _ :: _ => exact absurd h (by simp)

@[simp] theorem records_nil : records [] = [] :=
  records_of_length_lt Nat.zero_lt_two

theorem length_value_lt {q : BitVec 8 × List (BitVec 8)} (h : q ∈ records l) : q.2.length < 256 := by
  induction l using records.induct with
  | case1 t n rest hle ih =>
      rw [records_cons_cons, if_pos hle] at h
      rcases List.mem_cons.mp h with rfl | h
      · rw [List.length_take]
        exact (Nat.min_le_left _ _).trans_lt n.isLt
      · exact ih h
  | case2 t n rest hle =>
      rw [records_cons_cons, if_neg hle] at h
      cases h
  | case3 l hl =>
      have hshort : l.length < 2 := by
        match l, hl with
        | [], _ => exact Nat.zero_lt_two
        | [_], _ => exact Nat.one_lt_two
        | t :: n :: rest, hl => exact absurd rfl (hl t n rest)
      rw [records_of_length_lt hshort] at h
      cases h

theorem records_drop_of_end (h : l.length ≤ pos + 1) : records (l.drop pos) = [] :=
  records_of_length_lt (by rw [List.length_drop]; omega)

/-- **The records from a position on**: the one at this position, if it fits, and those behind it. -/
theorem records_drop (h : pos + 1 < l.length) : records (l.drop pos) =
    if pos + 2 + (l[pos + 1]).toNat ≤ l.length then
      (l[pos], (l.drop (pos + 2)).take (l[pos + 1]).toNat) :: records (l.drop (pos + 2 + (l[pos + 1]).toNat))
    else [] := by
  rw [List.drop_eq_getElem_cons (by omega : pos < l.length), List.drop_eq_getElem_cons h, records_cons_cons,
    List.length_drop, List.drop_drop]
  refine if_congr ?_ rfl rfl
  omega

/-! ## Writing records -/

def record (q : BitVec 8 × List (BitVec 8)) : List (BitVec 8) := q.1 :: BitVec.ofNat 8 q.2.length :: q.2

theorem records_record_append {q : BitVec 8 × List (BitVec 8)} (h : q.2.length < 256) (rest : List (BitVec 8)) :
    records (record q ++ rest) = q :: records rest := by
  have hlen : (BitVec.ofNat 8 q.2.length).toNat = q.2.length := Nat.mod_eq_of_lt h
  have hle : q.2.length ≤ (q.2 ++ rest).length := by
    rw [List.length_append]
    exact Nat.le_add_right _ _
  unfold record
  rw [List.cons_append, List.cons_append, records_cons_cons, hlen, if_pos hle, List.take_left, List.drop_left]

/-- **Reading back.** -/
theorem records_flatMap {qs : List (BitVec 8 × List (BitVec 8))} (h : ∀ q ∈ qs, q.2.length < 256) :
    records (qs.flatMap record) = qs := by
  induction qs with
  | nil => exact records_nil
  | cons q qs ih =>
      rw [List.flatMap_cons, records_record_append (h q List.mem_cons_self),
        ih fun q hq => h q (List.mem_cons_of_mem _ hq)]

theorem length_flatMap_records_le (l : List (BitVec 8)) : ((records l).flatMap record).length ≤ l.length := by
  induction l using records.induct with
  | case1 t n rest hle ih =>
      rw [List.length_drop] at ih
      have hrecord : (record (t, rest.take n.toNat)).length = n.toNat + 1 + 1 :=
        congrArg (· + 1 + 1) ((List.length_take).trans (Nat.min_eq_left hle))
      rw [records_cons_cons, if_pos hle, List.flatMap_cons, List.length_append, hrecord, List.length_cons,
        List.length_cons]
      omega
  | case2 t n rest hle =>
      rw [records_cons_cons, if_neg hle]
      exact Nat.zero_le _
  | case3 l hl =>
      rw [records]
      · exact Nat.zero_le _
      · exact hl

end Lib
