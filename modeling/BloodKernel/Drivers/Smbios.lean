import BloodKernel.Kernel.Types
import BloodKernel.Lib.Laid
import BloodKernel.Lib.Traced

set_option autoImplicit false

/-!
# The SMBIOS table

`smbios_find_structure` and `smbios_get_string` of `drivers/smbios.c` on a memory of bytes. The search is
written with the addresses that it reads; addresses wrap.

* `skipStrings`, `findLoop`: the two loops of the search; after `fuel` rounds the outer one has no result.
* `afterStrings`: what lies behind the string set at the start of a list, and how far behind the end of the
  list the search goes on when no two zeros end it.
* **`skipStrings_some`**, **`skipStrings_none`**: the inner loop, on the bytes up to the end of the table.
-/

namespace BloodKernel.Smbios

open Lib

/-! ## The driver -/

/-- `smbios_table` and `smbios_table_length`. -/
structure Table where
  address : U32
  length : U16

/-- `while (current < end && (*current != 0 || *(current + 1) != 0)) current++`. -/
def skipStrings (m : Mem) (end' current : U32) : Traced U32 U32 :=
  if current < end' then
    (Traced.read m current).bind fun b =>
      if b ≠ 0 then skipStrings m end' (current + 1)
      else (Traced.read m (current + 1)).bind fun c =>
        if c ≠ 0 then skipStrings m end' (current + 1) else .pure current
  else .pure current
termination_by end'.toNat - current.toNat
decreasing_by all_goals
  rename_i h
  have hone : (1 : U32).toNat = 1 := rfl
  have hlt : current.toNat < end'.toNat := h
  rw [BitVec.toNat_add, hone]
  omega

/-- The rounds of `while (current < end)`. `some 0`: there is no such structure; `none`: the loop has not
ended after `fuel` rounds. -/
def findLoop (m : Mem) (end' : U32) (type instance' : U8) :
    ℕ → U32 → U8 → Traced U32 (Option U32)
  | 0, _, _ => .pure none
  | fuel + 1, current, foundInstances =>
      if current < end' then
        (Traced.read m current).bind fun headerType =>
          if headerType = type ∧ foundInstances = instance' then .pure (some current)
          else if headerType = 127 then .pure (some 0)
          else
            (Traced.read m (current + 1)).bind fun headerLength =>
            (skipStrings m end' (current + headerLength.setWidth 32)).bind fun current =>
            findLoop m end' type instance' fuel (current + 2)
              (if headerType = type then foundInstances + 1 else foundInstances)
      else .pure (some 0)

/-- `smbios_find_structure`. -/
def smbiosFindStructure (m : Mem) (t : Table) (type instance' : U8) (fuel : ℕ) :
    Traced U32 (Option U32) :=
  if t.address = 0 then .pure (some 0)
  else findLoop m (t.address + t.length.setWidth 32) type instance' fuel t.address 0

/-- `while (*strings != 0) strings++`. -/
def skipString (m : Mem) : ℕ → U32 → Option U32
  | 0, _ => none
  | fuel + 1, strings => if m strings ≠ 0 then skipString m fuel (strings + 1) else some strings

/-- The rounds of the outer loop. `some none`: the empty string of the driver. -/
def stringLoop (m : Mem) (stringNumber : U8) : ℕ → U32 → U8 → Option (Option U32)
  | 0, _, _ => none
  | fuel + 1, strings, currentString =>
      if m strings ≠ 0 then
        if currentString = stringNumber then some (some strings)
        else (skipString m fuel strings).bind fun strings =>
          stringLoop m stringNumber fuel (strings + 1) (currentString + 1)
      else some none

/-- `smbios_get_string`. -/
def smbiosGetString (m : Mem) (header : U32) (stringNumber : U8) (fuel : ℕ) : Option (Option U32) :=
  if stringNumber = 0 then some none
  else stringLoop m stringNumber fuel (header + (m (header + 1)).setWidth 32) 1

/-! ## String sets -/

/-- What lies behind the two zeros, and `0`. Without two zeros the search goes on two bytes behind the end;
`none`: it looks for the second zero behind the end. -/
def afterStrings : List U8 → Option (List U8 × ℕ)
  | [] => some ([], 2)
  | [x] => if x ≠ 0 then some ([], 2) else none
  | x :: y :: l => if x ≠ 0 ∨ y ≠ 0 then afterStrings (y :: l) else some (l, 0)

variable {m : Mem} {end' p : U32} {l : List U8}

theorem skipStrings_of_not_lt (h : ¬p < end') : skipStrings m end' p = .pure p := by
  rw [skipStrings, if_neg h]

theorem skipStrings_of_ne (h : p < end') (hb : m p ≠ 0) :
    skipStrings m end' p = (Traced.read m p).bind fun _ => skipStrings m end' (p + 1) := by
  rw [skipStrings, if_pos h]
  exact Traced.bind_congr (if_pos hb)

theorem skipStrings_of_zero (h : p < end') (hb : m p = 0) :
    skipStrings m end' p = (Traced.read m p).bind fun _ => (Traced.read m (p + 1)).bind fun c =>
      if c ≠ 0 then skipStrings m end' (p + 1) else .pure p := by
  rw [skipStrings, if_pos h]
  exact Traced.bind_congr (if_neg (not_not.mpr hb))

theorem skipStrings_next {P : U32 → Prop} {x y : U8} (h : At m end' p (x :: y :: l))
    (hxy : x ≠ 0 ∨ y ≠ 0) :
    (skipStrings m end' p).value = (skipStrings m end' (p + 1)).value ∧
      ((skipStrings m end' p).Only P → (skipStrings m end' (p + 1)).Only P) ∧
      (P p → P (p + 1) → (skipStrings m end' (p + 1)).Only P → (skipStrings m end' p).Only P) := by
  by_cases hb : m p ≠ 0
  · rw [skipStrings_of_ne h.lt hb, Traced.only_bind, Traced.only_read]
    exact ⟨rfl, And.right, fun hp _ honly => ⟨hp, honly⟩⟩
  · have hc : m (p + 1) ≠ 0 := by
      rw [h.lies.2.1]
      rw [h.lies.1] at hb
      exact hxy.resolve_left hb
    have heq : skipStrings m end' p = (Traced.read m p).bind fun _ =>
        (Traced.read m (p + 1)).bind fun _ => skipStrings m end' (p + 1) :=
      (skipStrings_of_zero h.lt (not_not.mp hb)).trans
        (Traced.bind_congr (Traced.bind_congr (if_pos hc)))
    rw [heq, Traced.only_bind, Traced.only_bind, Traced.only_read, Traced.only_read]
    exact ⟨rfl, fun honly => honly.2.2, fun hp hp' honly => ⟨hp, hp', honly⟩⟩

/-- **A string set that ends**, or runs up to the end of the table without a zero as its last byte: only
bytes of the table are read, and the search goes on behind it. -/
theorem skipStrings_some {lo : U32} {rest : List U8} {beyond : ℕ} (h : At m end' p l)
    (hlo : lo.toNat ≤ p.toNat) (hafter : afterStrings l = some (rest, beyond)) :
    (skipStrings m end' p).Only (Within lo end') ∧
      (skipStrings m end' p).value.toNat + 2 + rest.length = end'.toNat + beyond ∧
      p.toNat ≤ (skipStrings m end' p).value.toNat ∧
      Lies m ((skipStrings m end' p).value + 2) rest := by
  induction l using afterStrings.induct generalizing p with
  | case1 =>
      cases hafter
      rw [skipStrings_of_not_lt h.not_lt]
      exact ⟨Traced.only_pure _, congrArg (· + 2) h.toNat_add, Nat.le_refl _, trivial⟩
  | case2 x hx =>
      -- the last byte of the table is not zero
      rw [afterStrings, if_pos hx] at hafter
      cases hafter
      have hbyte : m p ≠ 0 := h.lies.1 ▸ hx
      rw [skipStrings_of_ne h.lt hbyte, skipStrings_of_not_lt h.tail.not_lt, Traced.only_bind,
        Traced.only_read]
      have hlength := h.tail.toNat_add
      rw [List.length_nil] at hlength
      have hlength' := h.toNat_add
      rw [List.length_singleton] at hlength'
      refine ⟨⟨h.within hlo, Traced.only_pure _⟩, ?_, ?_, trivial⟩
      · show (p + 1).toNat + 2 + 0 = _
        omega
      · show p.toNat ≤ (p + 1).toNat
        omega
  | case3 x hx =>
      rw [afterStrings, if_neg hx] at hafter
      cases hafter
  | case4 x y l hxy ih =>
      rw [afterStrings, if_pos hxy] at hafter
      obtain ⟨honly, hlength, hvalue, hrest⟩ := ih h.tail (h.le_succ hlo) hafter
      obtain ⟨heq, -, hreads⟩ := skipStrings_next h hxy
      rw [heq]
      exact ⟨hreads (h.within hlo) (h.tail.within (h.le_succ hlo)) honly, hlength,
        (h.le_succ (Nat.le_refl _)).trans hvalue, hrest⟩
  | case5 x y l hxy =>
      rw [afterStrings, if_neg hxy] at hafter
      cases hafter
      rw [not_or, not_not, not_not] at hxy
      have hb : m p = 0 := h.lies.1.trans hxy.1
      have hc : ¬m (p + 1) ≠ 0 := not_not.mpr (h.lies.2.1.trans hxy.2)
      rw [skipStrings_of_zero h.lt hb, Traced.only_bind, Traced.only_bind, Traced.only_read,
        Traced.only_read, Traced.value_bind, Traced.value_bind, Traced.value_read, if_neg hc]
      have hlength := h.toNat_add
      rw [List.length_cons, List.length_cons] at hlength
      refine ⟨⟨h.within hlo, h.tail.within (h.le_succ hlo), Traced.only_pure _⟩, ?_, Nat.le_refl _, ?_⟩
      · show p.toNat + 2 + rest.length = _
        omega
      · have hskip := h.lies.2.2
        rw [BitVec.add_assoc] at hskip
        exact hskip

/-- **A last byte of zero** that no other zero precedes: the byte behind the table is read. -/
theorem skipStrings_none {lo : U32} (h : At m end' p l) (hafter : afterStrings l = none) :
    ¬(skipStrings m end' p).Only (Within lo end') := by
  induction l using afterStrings.induct generalizing p with
  | case1 => cases hafter
  | case2 x hx =>
      rw [afterStrings, if_pos hx] at hafter
      cases hafter
  | case3 x hx =>
      intro honly
      have hb : m p = 0 := h.lies.1.trans (not_not.mp hx)
      rw [skipStrings_of_zero h.lt hb, Traced.only_bind, Traced.only_bind, Traced.only_read,
        Traced.only_read] at honly
      exact h.tail.not_lt honly.2.1.2
  | case4 x y l hxy ih =>
      rw [afterStrings, if_pos hxy] at hafter
      exact fun honly => ih h.tail hafter ((skipStrings_next h hxy).2.1 honly)
  | case5 x y l hxy =>
      rw [afterStrings, if_neg hxy] at hafter
      cases hafter

/-! ## Headers -/

section Round

variable {type instance' found headerType headerLength : U8} {fuel : ℕ}

theorem findLoop_of_not_lt (h : ¬p < end') :
    findLoop m end' type instance' (fuel + 1) p found = .pure (some 0) := if_neg h

theorem findLoop_of_hit (h : At m end' p (headerType :: l))
    (hhit : headerType = type ∧ found = instance') :
    findLoop m end' type instance' (fuel + 1) p found =
      (Traced.read m p).bind fun _ => .pure (some p) := by
  rw [findLoop, if_pos h.lt]
  refine Traced.bind_congr ?_
  rw [Traced.value_read, h.lies.1, if_pos hhit]

theorem findLoop_of_last (h : At m end' p (headerType :: l))
    (hhit : ¬(headerType = type ∧ found = instance')) (hlast : headerType = 127) :
    findLoop m end' type instance' (fuel + 1) p found =
      (Traced.read m p).bind fun _ => .pure (some 0) := by
  rw [findLoop, if_pos h.lt]
  refine Traced.bind_congr ?_
  rw [Traced.value_read, h.lies.1, if_neg hhit, if_pos hlast]

theorem findLoop_of_next (h : At m end' p (headerType :: l))
    (hhit : ¬(headerType = type ∧ found = instance')) (hlast : headerType ≠ 127) :
    findLoop m end' type instance' (fuel + 1) p found =
      (Traced.read m p).bind fun _ => (Traced.read m (p + 1)).bind fun headerLength =>
        (skipStrings m end' (p + BitVec.ofNat 32 headerLength.toNat)).bind fun current =>
          findLoop m end' type instance' fuel (current + 2)
            (if headerType = type then found + 1 else found) := by
  rw [findLoop, if_pos h.lt]
  refine Traced.bind_congr ?_
  rw [Traced.value_read, h.lies.1, if_neg hhit, if_neg hlast]
  refine Traced.bind_congr ?_
  rw [BitVec.ofNat_toNat]

end Round

end BloodKernel.Smbios
