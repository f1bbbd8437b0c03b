import BloodKernel.Drivers.Smbios

set_option autoImplicit false

/-!
# Searching a well-formed SMBIOS table

A table is a list of structures, each a formatted area and a set of strings; its last one, and no other, is
of type 127.

* `Structure.bytes`, `Listing.bytes`: the bytes of a structure and of a table; `afterStrings_stringSet`.
* `placed`: the structures of a table with their addresses.
* `findLoop_structures`, `stringLoop_strings`: the two loops, by induction over the list.
* **`find_and_string`**: the search returns the structure with this type and this number, and a string of it
  is found by its number.
-/

namespace BloodKernel.Smbios

open Lib

/-! ## Tables -/

/-- A structure: its type, the formatted area behind the type and the length, and its strings. -/
structure Structure where
  type : U8
  body : List U8
  strings : List (List U8)
  length_mem : 2 ≤ body.length ∧ body.length + 2 < 256
  strings_ok : ∀ s ∈ strings, s ≠ [] ∧ 0 ∉ s

/-- Strings, each with its terminating zero. -/
def terminated (ss : List (List U8)) : List U8 := ss.flatMap fun s => s ++ [0]

/-- The string set behind a formatted area: another zero ends it, and two zeros are an empty one. -/
def stringSet (ss : List (List U8)) : List U8 := if ss = [] then [0, 0] else terminated ss ++ [0]

/-- The length of the formatted area. -/
def Structure.length (s : Structure) : ℕ := s.body.length + 2

def Structure.bytes (s : Structure) : List U8 :=
  s.type :: BitVec.ofNat 8 s.length :: s.body ++ stringSet s.strings

/-- The structures of a table, and the one that ends it. -/
structure Listing where
  front : List Structure
  last : Structure
  front_ne : ∀ s ∈ front, s.type ≠ 127
  last_eq : last.type = 127

def Listing.structures (t : Listing) : List Structure := t.front ++ [t.last]

def bytesOf (ss : List Structure) : List U8 := ss.flatMap Structure.bytes

def Listing.bytes (t : Listing) : List U8 := bytesOf t.structures

/-- The structures with their addresses, from `p` on. -/
def placed (p : U32) (ss : List Structure) : List (U32 × Structure) := laid Structure.bytes p ss

/-- The addresses of the structures of a type, in table order. -/
def addresses (type : U8) (p : U32) (ss : List Structure) : List U32 :=
  ((placed p ss).filter fun q => q.2.type = type).map Prod.fst

/-! ## String sets -/

theorem terminated_cons (s : List U8) (ss : List (List U8)) :
    terminated (s :: ss) = s ++ 0 :: terminated ss := by
  rw [terminated, List.flatMap_cons, List.append_assoc]
  rfl

theorem afterStrings_append {s l : List U8} (hs : 0 ∉ s) (x : U8) :
    afterStrings (s ++ x :: l) = afterStrings (x :: l) := by
  induction s with
  | nil => rfl
  | cons c s ih =>
      rw [List.mem_cons, not_or] at hs
      obtain ⟨y, l', hl'⟩ : ∃ y l', s ++ x :: l = y :: l' :=
        List.exists_cons_of_ne_nil (List.append_ne_nil_of_right_ne_nil _ (List.cons_ne_nil _ _))
      rw [← ih hs.2, List.cons_append, hl', afterStrings, if_pos (.inl (Ne.symm hs.1))]

theorem afterStrings_zero {ss : List (List U8)} (hss : ∀ s ∈ ss, s ≠ [] ∧ 0 ∉ s) (rest : List U8) :
    afterStrings (0 :: (terminated ss ++ 0 :: rest)) = some (rest, 0) := by
  induction ss with
  | nil => exact if_neg (by decide)
  | cons s ss ih =>
      obtain ⟨hne, hs⟩ := hss s List.mem_cons_self
      have hrest := ih fun s' hs' => hss s' (List.mem_cons_of_mem _ hs')
      obtain ⟨c, s, rfl⟩ := List.exists_cons_of_ne_nil hne
      rw [terminated_cons, List.append_assoc, List.cons_append, List.cons_append, afterStrings,
        if_pos (.inr (List.ne_of_not_mem_cons hs).symm)]
      rw [← List.cons_append, afterStrings_append hs, hrest]

/-- **The end of a string set** is found. -/
theorem afterStrings_stringSet {ss : List (List U8)} (hss : ∀ s ∈ ss, s ≠ [] ∧ 0 ∉ s)
    (rest : List U8) : afterStrings (stringSet ss ++ rest) = some (rest, 0) := by
  cases ss with
  | nil => exact if_neg (by decide)
  | cons s ss =>
      have hs := (hss s List.mem_cons_self).2
      have hrest := afterStrings_zero (fun s' hs' => hss s' (List.mem_cons_of_mem _ hs')) rest
      rw [stringSet, if_neg (List.cons_ne_nil _ _), terminated_cons, List.append_assoc,
        List.append_assoc, List.singleton_append, List.cons_append, afterStrings_append hs, hrest]

/-! ## The search -/

theorem toNat_length (s : Structure) : (BitVec.ofNat 8 s.length).toNat = s.length := by
  rw [BitVec.toNat_ofNat]
  exact Nat.mod_eq_of_lt s.length_mem.2

theorem length_bytes (s : Structure) :
    s.bytes.length = s.length + (stringSet s.strings).length := by
  rw [Structure.bytes, List.length_append, List.length_cons, List.length_cons]
  rfl

/-- Behind the formatted area are the strings. -/
theorem drop_bytes (s : Structure) (rest : List U8) :
    (s.bytes ++ rest).drop s.length = stringSet s.strings ++ rest := by
  rw [Structure.bytes, List.append_assoc]
  exact List.drop_left

variable {m : Mem} {end' p : U32}

theorem skipStrings_structure {s : Structure} {rest : List U8} (h : At m end' p (s.bytes ++ rest)) :
    (skipStrings m end' (p + BitVec.ofNat 32 s.length)).value + 2 =
        p + BitVec.ofNat 32 s.bytes.length ∧
      At m end' (p + BitVec.ofNat 32 s.bytes.length) rest := by
  have htotal := h.toNat_add
  have hbytes := length_bytes s
  have hend := end'.isLt
  rw [List.length_append] at htotal
  have hstrings : At m end' (p + BitVec.ofNat 32 s.length) (stringSet s.strings ++ rest) := by
    rw [← drop_bytes]
    exact h.drop (by rw [List.length_append]; omega)
  have hrest : At m end' (p + BitVec.ofNat 32 s.bytes.length) rest := h.append
  obtain ⟨-, hvalue, -, -⟩ := skipStrings_some hstrings (Nat.le_refl _)
    (afterStrings_stringSet s.strings_ok rest)
  refine ⟨BitVec.eq_of_toNat_eq ?_, hrest⟩
  have htwo : (2 : U32).toNat = 2 := rfl
  have hlast := hrest.toNat_add
  rw [BitVec.toNat_add, htwo]
  omega

theorem addresses_cons (type : U8) (p : U32) (s : Structure) (ss : List Structure) :
    addresses type p (s :: ss) =
      if s.type = type then p :: addresses type (p + BitVec.ofNat 32 s.bytes.length) ss
      else addresses type (p + BitVec.ofNat 32 s.bytes.length) ss := by
  unfold addresses placed
  rw [laid, List.filter_cons]
  by_cases h : s.type = type
  · rw [if_pos (decide_eq_true h), if_pos h, List.map_cons]
  · rw [if_neg (by rw [decide_eq_false h]; decide), if_neg h]

/-- Of a number of structures that have been found, as the driver counts them. -/
theorem ofNat_succ_eq {j : ℕ} : (BitVec.ofNat 8 j + 1 : U8) = BitVec.ofNat 8 (j + 1) := by
  rw [BitVec.ofNat_add]
  rfl

theorem ofNat_eq_iff {j k : ℕ} (hj : j ≤ k) (hk : k < 256) :
    BitVec.ofNat 8 j = BitVec.ofNat 8 k ↔ j = k := by
  rw [← BitVec.toNat_inj, BitVec.toNat_ofNat, BitVec.toNat_ofNat, Nat.mod_eq_of_lt (by omega),
    Nat.mod_eq_of_lt hk]

theorem findLoop_found {s : Structure} {ss : List Structure} {l : List U8} {type : U8} {j k fuel : ℕ}
    (h : At m end' p (s.type :: l)) (hj : j ≤ k) (hk : k < 256)
    (hhit : s.type = type ∧ BitVec.ofNat 8 j = BitVec.ofNat 8 k) :
    (findLoop m end' type (BitVec.ofNat 8 k) (fuel + 1) p (BitVec.ofNat 8 j)).value =
      some ((addresses type p (s :: ss))[k - j]?.getD 0) := by
  rw [findLoop_of_hit h hhit, addresses_cons, if_pos hhit.1, (ofNat_eq_iff hj hk).mp hhit.2, Nat.sub_self]
  rfl

/-- The end of the table, where there is no further structure of the type. -/
theorem findLoop_ended {s : Structure} {l : List U8} {type : U8} {j k fuel : ℕ}
    (h : At m end' p (s.type :: l)) (hj : j ≤ k) (hlast : s.type = 127)
    (hhit : ¬(s.type = type ∧ BitVec.ofNat 8 j = BitVec.ofNat 8 k)) :
    (findLoop m end' type (BitVec.ofNat 8 k) (fuel + 1) p (BitVec.ofNat 8 j)).value =
      some ((addresses type p [s])[k - j]?.getD 0) := by
  rw [findLoop_of_last h hhit hlast, addresses_cons]
  show some 0 = _
  refine congrArg some ?_
  split_ifs with htype
  · have hne : j ≠ k := fun hjk => hhit ⟨htype, hjk ▸ rfl⟩
    have hlt : 0 < k - j := by omega
    show 0 = [p][k - j]?.getD 0
    rw [List.getElem?_eq_none (show [p].length ≤ k - j from hlt)]
    rfl
  · rfl

/-- **The search**, with `j` structures of the type found and `k` asked for. -/
theorem findLoop_structures {front : List Structure} {last : Structure} {type : U8} {j k fuel : ℕ}
    (hfront : ∀ s ∈ front, s.type ≠ 127) (hlast : last.type = 127) (hj : j ≤ k) (hk : k < 256)
    (hfuel : front.length < fuel) (h : At m end' p (bytesOf (front ++ [last]))) :
    (findLoop m end' type (BitVec.ofNat 8 k) fuel p (BitVec.ofNat 8 j)).value =
      some ((addresses type p (front ++ [last]))[k - j]?.getD 0) := by
  obtain ⟨fuel, rfl⟩ := Nat.exists_eq_add_one.mpr (Nat.zero_lt_of_lt hfuel)
  induction front generalizing p j fuel with
  | nil =>
      rw [List.nil_append, bytesOf, List.flatMap_singleton, ← List.append_nil last.bytes] at h
      have hheader : At m end' p (last.type :: _) := h
      by_cases hhit : last.type = type ∧ BitVec.ofNat 8 j = BitVec.ofNat 8 k
      · exact findLoop_found hheader hj hk hhit
      · exact findLoop_ended hheader hj hlast hhit
  | cons s front ih =>
      rw [List.cons_append, bytesOf, List.flatMap_cons] at h
      have hheader : At m end' p (s.type :: _) := h
      by_cases hhit : s.type = type ∧ BitVec.ofNat 8 j = BitVec.ofNat 8 k
      · exact findLoop_found hheader hj hk hhit
      · obtain ⟨hskip, hrest⟩ := skipStrings_structure h
        have hlength : m (p + 1) = BitVec.ofNat 8 s.length := h.lies.2.1
        obtain ⟨fuel, rfl⟩ := Nat.exists_eq_add_one.mpr (Nat.zero_lt_of_lt (Nat.lt_of_succ_lt_succ hfuel))
        have hnext (i : ℕ) (hi : i ≤ k) := ih (fun s' hs' => hfront s' (List.mem_cons_of_mem _ hs')) hi
          hrest fuel (Nat.lt_of_succ_lt_succ hfuel)
        rw [findLoop_of_next hheader hhit (hfront s List.mem_cons_self), List.cons_append, addresses_cons]
        simp only [Traced.value_bind, Traced.value_read]
        rw [hlength, toNat_length, hskip]
        by_cases htype : s.type = type
        · have hne : j ≠ k := fun hjk => hhit ⟨htype, hjk ▸ rfl⟩
          have hsub : k - j = k - (j + 1) + 1 := by omega
          rw [if_pos htype, if_pos htype, ofNat_succ_eq, hnext (j + 1) (by omega), hsub,
            List.getElem?_cons_succ]
        · rw [if_neg htype, if_neg htype, hnext j hj]

/-! ## Strings -/

theorem skipString_eq {s l : List U8} {fuel : ℕ} (hs : 0 ∉ s) (hfuel : s.length < fuel)
    (h : Lies m p (s ++ 0 :: l)) : skipString m fuel p = some (p + BitVec.ofNat 32 s.length) := by
  obtain ⟨fuel, rfl⟩ := Nat.exists_eq_add_one.mpr (Nat.zero_lt_of_lt hfuel)
  induction s generalizing p fuel with
  | nil =>
      rw [skipString, if_neg (not_not.mpr h.1)]
      exact congrArg some (BitVec.add_zero p).symm
  | cons c s ih =>
      rw [List.mem_cons, not_or] at hs
      have hbyte : m p ≠ 0 := h.1 ▸ Ne.symm hs.1
      obtain ⟨fuel, rfl⟩ := Nat.exists_eq_add_one.mpr (Nat.zero_lt_of_lt (Nat.lt_of_succ_lt_succ hfuel))
      rw [skipString, if_pos hbyte, ih hs.2 h.2 fuel (Nat.lt_of_succ_lt_succ hfuel), add_ofNat_succ,
        List.length_cons]

/-- **The strings**, from the one with number `i` on. -/
theorem stringLoop_strings {ss : List (List U8)} {rest : List U8} {i n fuel : ℕ}
    (hss : ∀ s ∈ ss, s ≠ [] ∧ 0 ∉ s) (hi : i ≤ n) (hn : n < 256)
    (hfuel : (terminated ss).length < fuel) (h : Lies m p (terminated ss ++ 0 :: rest)) :
    stringLoop m (BitVec.ofNat 8 n) fuel p (BitVec.ofNat 8 i) =
      some (if n - i < ss.length then
        some (p + BitVec.ofNat 32 (terminated (ss.take (n - i))).length) else none) := by
  obtain ⟨fuel, rfl⟩ := Nat.exists_eq_add_one.mpr (Nat.zero_lt_of_lt hfuel)
  induction ss generalizing p i fuel with
  | nil =>
      have hbyte : ¬m p ≠ 0 := not_not.mpr h.1
      rw [stringLoop, if_neg hbyte]
      rfl
  | cons s ss ih =>
      obtain ⟨hne, hs⟩ := hss s List.mem_cons_self
      have hfirst : m p ≠ 0 := by
        obtain ⟨c, s, rfl⟩ := List.exists_cons_of_ne_nil hne
        exact h.1 ▸ (List.ne_of_not_mem_cons hs).symm
      rw [stringLoop, if_pos hfirst]
      by_cases hhit : BitVec.ofNat 8 i = BitVec.ofNat 8 n
      · rw [if_pos hhit, (ofNat_eq_iff hi hn).mp hhit, Nat.sub_self,
          if_pos (show 0 < (s :: ss).length from Nat.succ_pos _)]
        exact congrArg (some ∘ some) (BitVec.add_zero p).symm
      · have hne : i ≠ n := fun h => hhit (h ▸ rfl)
        rw [terminated_cons, List.append_assoc, List.cons_append] at h
        rw [terminated_cons, List.length_append, List.length_cons] at hfuel
        obtain ⟨fuel, rfl⟩ := Nat.exists_eq_succ_of_ne_zero (show fuel ≠ 0 by omega)
        have hnext : Lies m (p + BitVec.ofNat 32 s.length + 1) (terminated ss ++ 0 :: rest) :=
          (lies_append.mp h).2.2
        have hrec := ih (fun s' hs' => hss s' (List.mem_cons_of_mem _ hs')) (show i + 1 ≤ n by omega)
          hnext fuel (by omega)
        rw [if_neg hhit, skipString_eq hs (by omega) h, Option.bind_some, ofNat_succ_eq, hrec]
        have hsub : n - i = n - (i + 1) + 1 := by omega
        rw [hsub, List.take_succ_cons, terminated_cons, List.length_append, List.length_cons,
          List.length_cons, add_ofNat_succ, BitVec.add_assoc, ← BitVec.ofNat_add]
        exact congrArg some (if_congr Nat.succ_lt_succ_iff.symm rfl rfl)

/-- The address of string number `n` of a structure at `p`. -/
def Structure.stringAt (s : Structure) (p : U32) (n : ℕ) : Option U32 :=
  if 1 ≤ n ∧ n ≤ s.strings.length then
    some (p + BitVec.ofNat 32 (s.length + (terminated (s.strings.take (n - 1))).length))
  else none

theorem stringSet_eq (ss : List (List U8)) : ∃ rest, stringSet ss = terminated ss ++ 0 :: rest := by
  unfold stringSet
  split_ifs with h
  · subst h
    exact ⟨[0], rfl⟩
  · exact ⟨[], rfl⟩

theorem getString_eq {s : Structure} {rest : List U8} {n : U8} {fuel : ℕ}
    (hfuel : s.bytes.length ≤ fuel) (h : Lies m p (s.bytes ++ rest)) :
    smbiosGetString m p n fuel = some (s.stringAt p n.toNat) := by
  obtain ⟨rest', hset⟩ := stringSet_eq s.strings
  have hbytes := length_bytes s
  rw [hset, List.length_append] at hbytes
  have hlength : m (p + 1) = BitVec.ofNat 8 s.length := h.2.1
  have hstrings : Lies m (p + BitVec.ofNat 32 s.length) (terminated s.strings ++ 0 :: (rest' ++ rest)) := by
    have hdrop := h.drop (k := s.length) (by rw [List.length_append]; omega)
    rwa [drop_bytes, hset, List.append_assoc, List.cons_append] at hdrop
  have hlen : 2 ≤ s.length := Nat.le_add_left _ _
  unfold smbiosGetString
  by_cases hn : n = 0
  · subst hn
    rw [if_pos rfl]
    rfl
  · have hpos : 1 ≤ n.toNat := by
      by_contra h0
      exact hn (BitVec.eq_of_toNat_eq (show n.toNat = 0 by omega))
    have hnumber : n = BitVec.ofNat 8 n.toNat := by rw [BitVec.ofNat_toNat, BitVec.setWidth_eq]
    rw [if_neg hn, hlength, ← BitVec.ofNat_toNat, toNat_length, hnumber,
      show (1 : U8) = BitVec.ofNat 8 1 from rfl,
      stringLoop_strings s.strings_ok hpos n.isLt (by omega) hstrings, ← hnumber]
    unfold Structure.stringAt
    rw [BitVec.add_assoc, ← BitVec.ofNat_add]
    exact congrArg some (if_congr (by omega) rfl rfl)

theorem terminated_split {ss : List (List U8)} {k : ℕ} (h : k < ss.length) :
    ∃ rest, terminated ss = terminated (ss.take k) ++ (ss[k] ++ [0] ++ rest) := by
  refine ⟨terminated (ss.drop (k + 1)), ?_⟩
  have hsplit : ss = ss.take k ++ ss[k] :: ss.drop (k + 1) := by
    rw [← List.drop_eq_getElem_cons h, List.take_append_drop]
  unfold terminated
  conv_lhs => rw [hsplit]
  rw [List.flatMap_append, List.flatMap_cons]

theorem lies_stringAt {s : Structure} {rest : List U8} {n : ℕ} {q : U32} (h : Lies m p (s.bytes ++ rest))
    (hq : s.stringAt p n = some q) :
    ∃ str, s.strings[n - 1]? = some str ∧ Lies m q (str ++ [0]) := by
  unfold Structure.stringAt at hq
  split_ifs at hq with hn
  cases hq
  have hlt : n - 1 < s.strings.length := by omega
  refine ⟨s.strings[n - 1], List.getElem?_eq_getElem hlt, ?_⟩
  obtain ⟨rest', hset⟩ := stringSet_eq s.strings
  obtain ⟨rest'', hsplit⟩ := terminated_split hlt
  have hdrop := h.drop (k := s.length) (by rw [List.length_append, length_bytes]; omega)
  rw [drop_bytes, hset, hsplit, List.append_assoc, List.append_assoc, lies_append, List.append_assoc,
    List.append_assoc, ← List.append_assoc, lies_append] at hdrop
  rw [BitVec.ofNat_add, ← BitVec.add_assoc]
  exact hdrop.2.1

/-! ## The two functions -/

/-- A table in memory, at an address other than 0, from where on addresses do not wrap. -/
structure InMemory (m : Mem) (table : Table) (t : Listing) : Prop where
  address_ne : table.address ≠ 0
  length_eq : table.length.toNat = t.bytes.length
  fits : table.address.toNat + t.bytes.length < 2 ^ 32
  lies : Lies m table.address t.bytes

theorem InMemory.at {table : Table} {t : Listing} (h : InMemory m table t) :
    At m (table.address + table.length.setWidth 32) table.address (bytesOf t.structures) := by
  have hwidth : table.length.setWidth 32 = BitVec.ofNat 32 t.bytes.length := by
    refine BitVec.eq_of_toNat_eq ?_
    rw [BitVec.toNat_setWidth, BitVec.toNat_ofNat, h.length_eq]
  refine ⟨h.lies, ?_⟩
  rw [hwidth, toNat_address h.fits]
  rfl

/-- **Searching a table.** From as many rounds on as the table has structures, the search returns the
address of the structure of the type with this number, or `0` if there is none. From as many rounds on as
the structure has bytes, `smbios_get_string` returns the string with this number, or the empty one if
there is none. -/
theorem find_and_string {table : Table} {t : Listing} (h : InMemory m table t) :
    (∀ type instance' fuel, t.structures.length ≤ fuel →
      (smbiosFindStructure m table type instance' fuel).value =
        some ((addresses type table.address t.structures)[instance'.toNat]?.getD 0)) ∧
    (∀ q ∈ placed table.address t.structures, q.1 ≠ 0 ∧
      ∀ (n : U8) fuel, q.2.bytes.length ≤ fuel →
        smbiosGetString m q.1 n fuel = some (q.2.stringAt q.1 n.toNat) ∧
        ∀ r, q.2.stringAt q.1 n.toNat = some r →
          ∃ str, q.2.strings[n.toNat - 1]? = some str ∧ Lies m r (str ++ [0])) := by
  constructor
  · intro type instance' fuel hfuel
    have hnumber : instance' = BitVec.ofNat 8 instance'.toNat := by
      rw [BitVec.ofNat_toNat, BitVec.setWidth_eq]
    have hlength : t.front.length < fuel := by
      rw [Listing.structures, List.length_append] at hfuel
      exact hfuel
    have hsearch : (findLoop m (table.address + table.length.setWidth 32) type
          (BitVec.ofNat 8 instance'.toNat) fuel table.address (BitVec.ofNat 8 0)).value = _ :=
      findLoop_structures t.front_ne t.last_eq (Nat.zero_le _) instance'.isLt hlength h.at
    rw [← hnumber] at hsearch
    unfold smbiosFindStructure
    rw [if_neg h.address_ne]
    exact hsearch
  · intro q hq
    obtain ⟨hle, rest, hat⟩ := h.at.of_mem_laid hq
    refine ⟨fun hzero => h.address_ne (BitVec.eq_of_toNat_eq ?_), fun n fuel hfuel => ?_⟩
    · rw [hzero] at hle
      exact Nat.le_zero.mp hle
    · exact ⟨getString_eq hfuel hat.lies, fun r hr => lies_stringAt hat.lies hr⟩

/-- Two structures of type 1, the first with two strings, and the end of the table. -/
def twoSystems : Listing where
  front :=
    [{ type := 1
       body := [0x01, 0x00, 0x01, 0x02]
       strings := [[0x41, 0x42], [0x43]]
       length_mem := by decide
       strings_ok := by decide },
     { type := 1
       body := [0x02, 0x00, 0x00, 0x00]
       strings := []
       length_mem := by decide
       strings_ok := by decide }]
  last :=
    { type := 127
      body := [0x03, 0x00]
      strings := []
      length_mem := by decide
      strings_ok := by decide }
  front_ne := by decide
  last_eq := rfl

theorem find_and_string_twoSystems :
    (smbiosFindStructure (holding 0xF0000 twoSystems.bytes) ⟨0xF0000, 26⟩ 1 1 3).value =
        some 0xF000C ∧
      smbiosGetString (holding 0xF0000 twoSystems.bytes) 0xF0000 2 26 = some (some 0xF0009) := by
  have hmem : InMemory (holding 0xF0000 twoSystems.bytes) ⟨0xF0000, 26⟩ twoSystems :=
    ⟨by decide, rfl, by decide, lies_holding _ (by decide)⟩
  obtain ⟨hfind, hstring⟩ := find_and_string hmem
  exact ⟨hfind 1 1 3 (by decide), ((hstring _ List.mem_cons_self).2 2 26 (by decide)).1⟩

end BloodKernel.Smbios
