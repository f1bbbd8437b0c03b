import BloodKernel.Lib.Lies

set_option autoImplicit false

/-!
# Records in memory, one after the other

A loop walks over records in memory with a pointer, up to the end of an area. `At m stop p l`: the pointer
stands at the bytes of `l`, the last ones before the end. `laid bytes p xs`: the records of a list with their
addresses, from `p` on.

* `At.tail`, `At.drop`, `At.append`: the pointer goes on; `At.lt`, `At.not_lt`: whether it is at the end.
* **`At.of_mem_laid`**: where a record is laid there are its bytes.
-/

namespace Lib

variable {m : Mem} {lo stop p : BitVec 32} {l l' : List (BitVec 8)}

theorem lt_iff_toNat {p q : BitVec 32} : p < q ↔ p.toNat < q.toNat := Iff.rfl

/-! ## Pointers -/

/-- The pointer stands `l.length` bytes before the end, at the bytes of `l`. -/
structure At (m : Mem) (stop p : BitVec 32) (l : List (BitVec 8)) : Prop where
  lies : Lies m p l
  toNat_add : p.toNat + l.length = stop.toNat

theorem At.drop (h : At m stop p l) {k : ℕ} (hk : k ≤ l.length) :
    At m stop (p + BitVec.ofNat 32 k) (l.drop k) := by
  have hlength := h.toNat_add
  have hstop := stop.isLt
  refine ⟨h.lies.drop hk, ?_⟩
  rw [toNat_address (by omega), List.length_drop]
  omega

theorem At.append (h : At m stop p (l ++ l')) : At m stop (p + BitVec.ofNat 32 l.length) l' := by
  have hdrop := h.drop (k := l.length) (by rw [List.length_append]; exact Nat.le_add_right _ _)
  rwa [List.drop_left] at hdrop

theorem At.tail {x : BitVec 8} (h : At m stop p (x :: l)) : At m stop (p + 1) l :=
  h.drop (k := 1) (Nat.succ_le_succ (Nat.zero_le _))

theorem At.lt {x : BitVec 8} (h : At m stop p (x :: l)) : p < stop := by
  have hlength := h.toNat_add
  rw [List.length_cons] at hlength
  rw [lt_iff_toNat]
  omega

theorem At.not_lt (h : At m stop p []) : ¬p < stop := by
  have hlength := h.toNat_add
  rw [List.length_nil] at hlength
  rw [lt_iff_toNat]
  omega

/-- An address from `lo` on, and before the end. -/
def Within (lo stop a : BitVec 32) : Prop := lo.toNat ≤ a.toNat ∧ a.toNat < stop.toNat

theorem At.within {x : BitVec 8} (h : At m stop p (x :: l)) (hlo : lo.toNat ≤ p.toNat) :
    Within lo stop p := ⟨hlo, h.lt⟩

theorem At.le_succ {x : BitVec 8} (h : At m stop p (x :: l)) (hlo : lo.toNat ≤ p.toNat) :
    lo.toNat ≤ (p + 1).toNat := by
  have hlength := h.toNat_add
  have htail := h.tail.toNat_add
  rw [List.length_cons] at hlength
  omega

/-! ## Records -/

variable {α : Type} {bytes : α → List (BitVec 8)} {xs : List α}

/-- The records with their addresses, from `p` on. -/
def laid (bytes : α → List (BitVec 8)) (p : BitVec 32) : List α → List (BitVec 32 × α)
  | [] => []
  | x :: xs => (p, x) :: laid bytes (p + BitVec.ofNat 32 (bytes x).length) xs

/-- **A record** lies at its address, and is not in front of the first one. -/
theorem At.of_mem_laid (h : At m stop p (xs.flatMap bytes)) {q : BitVec 32 × α}
    (hq : q ∈ laid bytes p xs) : p.toNat ≤ q.1.toNat ∧ ∃ rest, At m stop q.1 (bytes q.2 ++ rest) := by
  induction xs generalizing p with
  | nil => exact absurd hq List.not_mem_nil
  | cons x xs ih =>
      rw [List.flatMap_cons] at h
      rcases List.mem_cons.mp hq with rfl | hq
      · exact ⟨Nat.le_refl _, _, h⟩
      · obtain ⟨hle, hat⟩ := ih h.append hq
        have hlength := h.toNat_add
        have hlength' := h.append.toNat_add
        rw [List.length_append] at hlength
        exact ⟨by omega, hat⟩

end Lib
