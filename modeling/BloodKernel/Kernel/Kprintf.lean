import BloodKernel.Kernel.Types
import BloodKernel.Lib.Numeral

set_option autoImplicit false

/-!
# `kernel/kprintf.c`

`none` is a read behind the end of a string, an access outside of `buf` or `hex`, an argument that is missing
or of the other type, or a loop that has not ended.

* `CString`, `Arg`: a string and its terminating NUL; an argument;
* `printHex`, `printDec`, `kprintf`: the functions; the default case of the switch steps back one byte;
* `pieces`: the directives and the verbatim bytes of a format, from left to right;
* `Text`, `Prints`: what a directive prints for an argument, and a format for its arguments;
  `Prints.unique`: only one text;
* **`kprintf_prints`**: `kprintf` prints it and returns.
-/

namespace BloodKernel.Kprintf

open Lib

/-- A character of the source. -/
def ascii (c : Char) : U8 := BitVec.ofNat 8 c.toNat

/-- The bytes of a string before its terminating NUL. -/
structure CString where
  bytes : List U8
  nul_notMem : 0 ∉ bytes

def CString.stored (s : CString) : List U8 := s.bytes ++ [0]

/-- A variable argument: an `int` or `u32`, or a `const char*`. -/
inductive Arg
  | word (val : U32)
  | str (s : CString)

/-- `va_arg(ap, u32)` and `va_arg(ap, int)`. -/
def vaWord : List Arg → Option (U32 × List Arg)
  | .word val :: args => some (val, args)
  | _ => none

/-- `va_arg(ap, const char*)`. -/
def vaStr : List Arg → Option (CString × List Arg)
  | .str s :: args => some (s, args)
  | _ => none

/-- `uart` is what has been sent. -/
def uartPutc (uart : List U8) (c : U8) : List U8 := uart ++ [c]

def hex : List U8 := "0123456789ABCDEF".toList.map ascii

/-- The loop of `print_hex` for the last `k` values of `i`. -/
def printHexLoop (val : U32) : ℕ → List U8 → Option (List U8)
  | 0, uart => some uart
  | k + 1, uart => do
      let c ← hex[((val >>> (4 * k)) &&& 0xF).toNat]?
      printHexLoop val k (uartPutc uart c)

def printHex (val : U32) (uart : List U8) : Option (List U8) := printHexLoop val 8 uart

/-- `buf` of `print_dec`; `none` where nothing has been written. -/
abbrev DecBuf := Fin 12 → Option U8

/-- `while (val)`. -/
def fillDec (val : U32) (buf : DecBuf) (idx : ℕ) : Option (DecBuf × ℕ) :=
  if hval : val = 0 then some (buf, idx)
  else if h : idx < 12 then
    fillDec (val / 10)
      (Function.update buf ⟨idx, h⟩ (some ((0x30 + val % 10).setWidth 8))) (idx + 1)
  else none
termination_by val.toNat
decreasing_by
  rw [BitVec.toNat_udiv]
  exact Nat.div_lt_self (Nat.pos_of_ne_zero fun h0 => hval (BitVec.eq_of_toNat_eq h0)) (by decide)

/-- `while (idx--)`. -/
def emitDec (buf : DecBuf) : ℕ → List U8 → Option (List U8)
  | 0, uart => some uart
  | idx + 1, uart =>
      if h : idx < 12 then do
        let c ← buf ⟨idx, h⟩
        emitDec buf idx (uartPutc uart c)
      else none

def printDec (val : U32) (uart : List U8) : Option (List U8) :=
  if val = 0 then some (uartPutc uart (ascii '0'))
  else do
    let (buf, idx) ← fillDec val (fun _ => none) 0
    emitDec buf idx uart

/-- `while (*s) uart_putc(*s++)`, for the bytes from `s` on. -/
def putStr : List U8 → List U8 → Option (List U8)
  | [], _ => none
  | b :: s, uart => if b = 0 then some uart else putStr s (uartPutc uart b)

/-- `while (*fmt)`, with `fmt` at byte `i`. -/
def kprintfLoop (fmt : CString) : ℕ → ℕ → List Arg → List U8 → Option (List U8)
  | 0, _, _, _ => none
  | fuel + 1, i, args, uart => do
      let b ← fmt.stored[i]?
      if b = 0 then some uart
      else if b = ascii '%' then do
        let c ← fmt.stored[i + 1]?
        if c = ascii 'x' then do
          let (val, args) ← vaWord args
          let uart ← printHex val uart
          kprintfLoop fmt fuel (i + 2) args uart
        else if c = ascii 'd' then do
          let (val, args) ← vaWord args
          let uart ← printDec val uart
          kprintfLoop fmt fuel (i + 2) args uart
        else if c = ascii 's' then do
          let (s, args) ← vaStr args
          let uart ← putStr s.stored uart
          kprintfLoop fmt fuel (i + 2) args uart
        else if c = ascii 'c' then do
          let (val, args) ← vaWord args
          kprintfLoop fmt fuel (i + 2) args (uartPutc uart (val.setWidth 8))
        else kprintfLoop fmt fuel (i + 2 - 1) args (uartPutc uart (ascii '%'))
      else kprintfLoop fmt fuel (i + 1) args (uartPutc uart b)

/-- `kprintf`, for at most `fuel` rounds. -/
def kprintf (fmt : CString) (args : List Arg) (fuel : ℕ) (uart : List U8) : Option (List U8) :=
  kprintfLoop fmt fuel 0 args uart

/-! ### Formats -/

inductive Directive
  | hex
  | dec
  | str
  | chr

def Directive.letter : Directive → U8
  | .hex => ascii 'x'
  | .dec => ascii 'd'
  | .str => ascii 's'
  | .chr => ascii 'c'

/-- The directive that `%` starts before `c`. -/
def directive (c : U8) : Option Directive :=
  if c = ascii 'x' then some .hex
  else if c = ascii 'd' then some .dec
  else if c = ascii 's' then some .str
  else if c = ascii 'c' then some .chr
  else none

/-- A part of a format. -/
inductive Piece
  | verbatim (b : U8)
  | directive (k : Directive)

/-- The parts of a format, from left to right. -/
def pieces : List U8 → List Piece
  | [] => []
  | [b] => [.verbatim b]
  | b :: c :: l =>
      if b = ascii '%' then
        match directive c with
        | some k => .directive k :: pieces l
        | none => .verbatim b :: pieces (c :: l)
      else .verbatim b :: pieces (c :: l)

def digitChar (d : ℕ) : U8 :=
  if d < 10 then ascii '0' + BitVec.ofNat 8 d else ascii 'A' + BitVec.ofNat 8 (d - 10)

/-- What a directive prints for its argument. -/
inductive Text : Directive → Arg → List U8 → Prop
  | hex {val : U32} {ds : List ℕ} (h : IsNumeral 16 val.toNat ds) (hlen : ds.length = 8) :
      Text .hex (.word val) (ds.map digitChar)
  | dec {val : U32} {ds : List ℕ} (h : Shortest 10 val.toNat ds) :
      Text .dec (.word val) (ds.map digitChar)
  | str (s : CString) : Text .str (.str s) s.bytes
  | chr (val : U32) : Text .chr (.word val) [val.setWidth 8]

/-- What a format prints for its arguments. -/
inductive Prints : List Piece → List Arg → List U8 → Prop
  | nil (args : List Arg) : Prints [] args []
  | verbatim {ps : List Piece} {args : List Arg} {out : List U8} (b : U8) (h : Prints ps args out) :
      Prints (.verbatim b :: ps) args (b :: out)
  | directive {k : Directive} {ps : List Piece} {arg : Arg} {args : List Arg} {text out : List U8}
      (htext : Text k arg text) (h : Prints ps args out) :
      Prints (.directive k :: ps) (arg :: args) (text ++ out)

/-- The argument is of the type that the directive takes. -/
def Takes : Directive → Arg → Prop
  | .str, .str _ => True
  | .hex, .word _ => True
  | .dec, .word _ => True
  | .chr, .word _ => True
  | _, _ => False

/-- Each directive has an argument of its type. -/
inductive Matches : List Piece → List Arg → Prop
  | nil (args : List Arg) : Matches [] args
  | verbatim {ps : List Piece} {args : List Arg} (b : U8) (h : Matches ps args) :
      Matches (.verbatim b :: ps) args
  | directive {k : Directive} {ps : List Piece} {arg : Arg} {args : List Arg} (hk : Takes k arg)
      (h : Matches ps args) : Matches (.directive k :: ps) (arg :: args)

theorem Text.unique {k : Directive} {arg : Arg} {text text' : List U8} (h : Text k arg text)
    (h' : Text k arg text') : text = text' := by
  cases h with
  | hex h hlen =>
      cases h' with
      | hex h' hlen' => rw [h.eq_of_length (by decide) h' (hlen.trans hlen'.symm)]
  | dec h =>
      cases h' with
      | dec h' => rw [h.unique (by decide) h']
  | str s =>
      cases h' with
      | str => rfl
  | chr val =>
      cases h' with
      | chr => rfl

theorem Prints.unique {ps : List Piece} {args : List Arg} {out out' : List U8} (h : Prints ps args out)
    (h' : Prints ps args out') : out = out' := by
  induction h generalizing out' with
  | nil args =>
      cases h' with
      | nil => rfl
  | verbatim b h ih =>
      cases h' with
      | verbatim _ h' => rw [ih h']
  | directive htext h ih =>
      cases h' with
      | directive htext' h' => rw [htext.unique htext', ih h']

/-! ### Numerals -/

theorem hex_getElem? {d : ℕ} (h : d < 16) : hex[d]? = some (digitChar d) := by
  revert d
  decide

theorem toNat_nibble (val : U32) (k : ℕ) :
    ((val >>> (4 * k)) &&& 0xF).toNat = val.toNat / 16 ^ k % 16 := by
  have hmask : (0xF : U32).toNat = 2 ^ 4 - 1 := rfl
  rw [BitVec.toNat_and, hmask, Nat.and_two_pow_sub_one_eq_mod, BitVec.toNat_ushiftRight,
    Nat.shiftRight_eq_div_pow, Nat.pow_mul]

theorem printHexLoop_eq (val : U32) (k : ℕ) (uart : List U8) :
    printHexLoop val k uart = some (uart ++ (fixed 16 k val.toNat).map digitChar) := by
  induction k generalizing uart with
  | zero => simp [printHexLoop, fixed]
  | succ k ih =>
      have hread : hex[((val >>> (4 * k)) &&& 0xF).toNat]? =
          some (digitChar (val.toNat / 16 ^ k % 16)) := by
        rw [toNat_nibble, hex_getElem? (Nat.mod_lt _ (by decide))]
      simp only [printHexLoop, hread, Option.bind_eq_bind, Option.bind_some, ih]
      simp [fixed, uartPutc]

theorem printHex_text (val : U32) : ∃ text, Text .hex (.word val) text ∧
    ∀ uart, printHex val uart = some (uart ++ text) := by
  have h := isNumeral_fixed (b := 16) (by decide) 8 val.toNat
  rw [Nat.mod_eq_of_lt (val.isLt.trans_le (by decide))] at h
  exact ⟨_, .hex h (length_fixed 16 8 val.toNat), printHexLoop_eq val 8⟩

/-- `buf` holds the characters of the digits `ds`. -/
structure Holds (buf : DecBuf) (ds : List ℕ) : Prop where
  length_le : ds.length ≤ 12
  char : ∀ (j : ℕ) (hj : j < 12) (d : ℕ), ds[j]? = some d → buf ⟨j, hj⟩ = some (digitChar d)

theorem decChar (val : U32) : (0x30 + val % 10 : U32).setWidth 8 = digitChar (val.toNat % 10) := by
  have hlt : val.toNat % 10 < 10 := Nat.mod_lt _ (by decide)
  unfold digitChar
  rw [if_pos hlt]
  apply BitVec.eq_of_toNat_eq
  have hten : (10 : U32).toNat = 10 := rfl
  have h30 : (0x30 : U32).toNat = 48 := rfl
  have hzero : (ascii '0').toNat = 48 := rfl
  rw [BitVec.toNat_setWidth, BitVec.toNat_add, BitVec.toNat_umod, hten, h30, BitVec.toNat_add, hzero,
    BitVec.toNat_ofNat]
  omega

theorem Holds.push {buf : DecBuf} {ds : List ℕ} {d : ℕ} (h : Holds buf ds) (hlt : ds.length < 12) :
    Holds (Function.update buf ⟨ds.length, hlt⟩ (some (digitChar d))) (ds ++ [d]) := by
  refine ⟨by simpa using hlt, fun j hj e he => ?_⟩
  rcases Nat.lt_trichotomy j ds.length with hj' | rfl | hj'
  · rw [List.getElem?_append_left hj'] at he
    rw [Function.update_of_ne (by simpa using hj'.ne), h.char j hj e he]
  · have hde : d = e := by simpa using he
    rw [Function.update_self, hde]
  · rw [List.getElem?_eq_none (by simpa using hj')] at he
    cases he

theorem fillDec_holds {val : U32} {buf : DecBuf} {ds : List ℕ} (h : Holds buf ds)
    (hroom : ds.length + (Nat.digits 10 val.toNat).length ≤ 12) :
    ∃ buf', fillDec val buf ds.length = some (buf', (ds ++ Nat.digits 10 val.toNat).length) ∧
      Holds buf' (ds ++ Nat.digits 10 val.toNat) := by
  generalize hidx : ds.length = idx
  induction val, buf, idx using fillDec.induct generalizing ds with
  | case1 buf idx => exact ⟨buf, by rw [fillDec]; simp [hidx], by simpa using h⟩
  | case2 val buf idx hval hlt ih =>
      subst hidx
      have hpos : 0 < val.toNat := Nat.pos_of_ne_zero fun h0 => hval (BitVec.eq_of_toNat_eq h0)
      have hten : (val / 10).toNat = val.toNat / 10 := BitVec.toNat_udiv
      have hdigits : Nat.digits 10 val.toNat = val.toNat % 10 :: Nat.digits 10 (val / 10).toNat := by
        rw [hten, Nat.digits_def' (by decide) hpos]
      rw [hdigits, List.length_cons] at hroom
      have hpush : Holds (Function.update buf ⟨ds.length, hlt⟩
          (some ((0x30 + val % 10).setWidth 8))) (ds ++ [val.toNat % 10]) := by
        rw [decChar]
        exact h.push hlt
      obtain ⟨buf', hfill, hholds⟩ :=
        ih hpush (by rw [List.length_append, List.length_singleton]; omega) (by simp)
      rw [fillDec, dif_neg hval, dif_pos hlt]
      refine ⟨buf', ?_, ?_⟩
      · rw [hfill, hdigits, List.append_assoc, List.singleton_append]
      · rwa [hdigits, ← List.singleton_append, ← List.append_assoc]
  | case3 val buf idx hval hge =>
      subst hidx
      have hne : Nat.digits 10 val.toNat ≠ [] := Nat.digits_ne_nil_iff_ne_zero.mpr fun h0 =>
        hval (BitVec.eq_of_toNat_eq h0)
      have := List.length_pos_iff.mpr hne
      omega

theorem emitDec_holds {buf : DecBuf} {ds : List ℕ} (h : Holds buf ds) (uart : List U8) :
    emitDec buf ds.length uart = some (uart ++ ds.reverse.map digitChar) := by
  induction ds using List.reverseRecOn generalizing uart with
  | nil => simp [emitDec]
  | append_singleton ds d ih =>
      have hlt : ds.length < 12 := by simpa using h.length_le
      have hchar : buf ⟨ds.length, hlt⟩ = some (digitChar d) := h.char _ hlt d (by simp)
      have h' : Holds buf ds := ⟨hlt.le, fun j hj e he => h.char j hj e (by
        obtain ⟨hj', -⟩ := List.getElem?_eq_some_iff.mp he
        rwa [List.getElem?_append_left hj'])⟩
      simp [emitDec, hlt, hchar, ih h', uartPutc]

theorem printDec_text (val : U32) : ∃ text, Text .dec (.word val) text ∧
    ∀ uart, printDec val uart = some (uart ++ text) := by
  by_cases hval : val = 0
  · subst hval
    exact ⟨_, .dec (shortest_zero (by decide)), fun uart => rfl⟩
  · have hne : val.toNat ≠ 0 := fun h0 => hval (BitVec.eq_of_toNat_eq h0)
    have hlen : (Nat.digits 10 val.toNat).length ≤ 12 := by
      rw [Nat.digits_length_le_iff (by decide)]
      exact val.isLt.trans_le (by decide)
    have hempty : Holds (fun _ => none) [] := ⟨by decide, nofun⟩
    obtain ⟨buf, hfill, hholds⟩ := fillDec_holds hempty (by simpa using hlen)
    refine ⟨_, .dec (shortest_reverse_digits (by decide) hne), fun uart => ?_⟩
    have hfill' : fillDec val (fun _ => none) 0 = some (buf, (Nat.digits 10 val.toNat).length) := hfill
    simp only [printDec, if_neg hval, hfill', Option.bind_eq_bind, Option.bind_some]
    exact emitDec_holds hholds uart

/-! ### The loop -/

theorem putStr_stored (s : CString) (uart : List U8) :
    putStr s.stored uart = some (uart ++ s.bytes) := by
  obtain ⟨l, hl⟩ := s
  show putStr (l ++ [0]) uart = some (uart ++ l)
  induction l generalizing uart with
  | nil => simp [putStr]
  | cons b l ih =>
      have hb : b ≠ 0 := fun h0 => hl (h0 ▸ List.mem_cons_self)
      rw [List.cons_append, putStr, if_neg hb, ih _ fun h0 => hl (List.mem_cons_of_mem b h0)]
      simp [uartPutc]

theorem stored_getElem? {fmt : CString} {pre l : List U8} (h : fmt.bytes = pre ++ l) (k : ℕ) :
    fmt.stored[pre.length + k]? = (l ++ [0])[k]? := by
  rw [CString.stored, h, List.append_assoc, List.getElem?_append_right (Nat.le_add_right _ _),
    Nat.add_sub_cancel_left]

variable {fmt : CString} {i : ℕ} {args : List Arg}

/-- **A round at a verbatim byte**: any byte but `%`, or a `%` with no directive. -/
theorem kprintfLoop_verbatim {b : U8} (hb : fmt.stored[i]? = some b) (hne : b ≠ 0)
    (hc : b = ascii '%' → ∃ c, fmt.stored[i + 1]? = some c ∧ directive c = none) (fuel : ℕ)
    (uart : List U8) :
    kprintfLoop fmt (fuel + 1) i args uart = kprintfLoop fmt fuel (i + 1) args (uart ++ [b]) := by
  simp only [kprintfLoop, hb, Option.bind_eq_bind, Option.bind_some, if_neg hne]
  by_cases hpercent : b = ascii '%'
  · obtain ⟨c, hread, hdir⟩ := hc hpercent
    unfold directive at hdir
    split_ifs at hdir with hx hd hs hchr
    simp [hpercent, hread, hx, hd, hs, hchr, uartPutc]
  · simp [hpercent, uartPutc]

theorem directive_eq_some {c : U8} {k : Directive} (h : directive c = some k) : c = k.letter := by
  unfold directive at h
  split_ifs at h with hx hd hs hchr <;> cases h <;> assumption

/-- **A round at a directive** prints its argument. -/
theorem kprintfLoop_directive {c : U8} {k : Directive} {arg : Arg}
    (hb : fmt.stored[i]? = some (ascii '%')) (hread : fmt.stored[i + 1]? = some c)
    (hdir : directive c = some k) (hk : Takes k arg) : ∃ text, Text k arg text ∧ ∀ fuel uart,
      kprintfLoop fmt (fuel + 1) i (arg :: args) uart =
        kprintfLoop fmt fuel (i + 2) args (uart ++ text) := by
  rw [directive_eq_some hdir] at hread
  cases k with
  | hex =>
      cases arg with
      | str s => exact hk.elim
      | word val =>
          obtain ⟨text, htext, hprint⟩ := printHex_text val
          exact ⟨text, htext, fun fuel uart => by
            simp +decide [kprintfLoop, hb, hread, Directive.letter, vaWord, hprint]⟩
  | dec =>
      cases arg with
      | str s => exact hk.elim
      | word val =>
          obtain ⟨text, htext, hprint⟩ := printDec_text val
          exact ⟨text, htext, fun fuel uart => by
            simp +decide [kprintfLoop, hb, hread, Directive.letter, vaWord, hprint]⟩
  | str =>
      cases arg with
      | word val => exact hk.elim
      | str s =>
          exact ⟨s.bytes, .str s, fun fuel uart => by
            simp +decide [kprintfLoop, hb, hread, Directive.letter, vaStr, putStr_stored]⟩
  | chr =>
      cases arg with
      | str s => exact hk.elim
      | word val =>
          exact ⟨_, .chr val, fun fuel uart => by
            simp +decide [kprintfLoop, hb, hread, Directive.letter, vaWord, uartPutc]⟩

/-- From the byte after `pre` on, the loop prints the parts `ps` of the rest `l`. -/
def RunPrints (fmt : CString) (pre l : List U8) (ps : List Piece) (args : List Arg) : Prop :=
  ∃ out, Prints ps args out ∧ ∀ fuel uart, l.length < fuel →
    kprintfLoop fmt fuel pre.length args uart = some (uart ++ out)

variable {pre l : List U8} {ps : List Piece}

theorem runPrints_nil (h : fmt.bytes = pre) (args : List Arg) : RunPrints fmt pre [] [] args := by
  refine ⟨[], .nil args, fun fuel uart hfuel => ?_⟩
  obtain ⟨fuel, rfl⟩ := Nat.exists_eq_succ_of_ne_zero (Nat.ne_zero_of_lt hfuel)
  have hnul : fmt.stored[pre.length]? = some 0 := stored_getElem? (h.trans (List.append_nil _).symm) 0
  simp [kprintfLoop, hnul]

theorem RunPrints.verbatim {b : U8} (hfmt : fmt.bytes = pre ++ b :: l)
    (hc : b = ascii '%' → ∃ c, (l ++ [0])[0]? = some c ∧ directive c = none)
    (h : RunPrints fmt (pre ++ [b]) l ps args) :
    RunPrints fmt pre (b :: l) (.verbatim b :: ps) args := by
  obtain ⟨out, hprints, hloop⟩ := h
  have hne : b ≠ 0 := fun h0 => fmt.nul_notMem (by simp [hfmt, h0])
  have hb : fmt.stored[pre.length]? = some b := stored_getElem? hfmt 0
  have hread : fmt.stored[pre.length + 1]? = (l ++ [0])[0]? := stored_getElem? hfmt 1
  refine ⟨b :: out, .verbatim b hprints, fun fuel uart hfuel => ?_⟩
  obtain ⟨fuel, rfl⟩ := Nat.exists_eq_succ_of_ne_zero (Nat.ne_zero_of_lt hfuel)
  have hrest := hloop fuel (uart ++ [b]) (Nat.lt_of_succ_lt_succ hfuel)
  rw [List.length_append, List.length_singleton] at hrest
  rw [kprintfLoop_verbatim hb hne (hread ▸ hc), hrest, List.append_assoc, List.singleton_append]

theorem RunPrints.directive {c : U8} {k : Directive} {arg : Arg}
    (hfmt : fmt.bytes = pre ++ ascii '%' :: c :: l) (hdir : Kprintf.directive c = some k)
    (hk : Takes k arg) (h : RunPrints fmt (pre ++ [ascii '%', c]) l ps args) :
    RunPrints fmt pre (ascii '%' :: c :: l) (.directive k :: ps) (arg :: args) := by
  obtain ⟨out, hprints, hloop⟩ := h
  obtain ⟨text, htext, hround⟩ : ∃ text, Text k arg text ∧ ∀ fuel uart,
      kprintfLoop fmt (fuel + 1) pre.length (arg :: args) uart =
        kprintfLoop fmt fuel (pre.length + 2) args (uart ++ text) :=
    kprintfLoop_directive (stored_getElem? hfmt 0) (stored_getElem? hfmt 1) hdir hk
  refine ⟨text ++ out, .directive htext hprints, fun fuel uart hfuel => ?_⟩
  obtain ⟨fuel, rfl⟩ := Nat.exists_eq_succ_of_ne_zero (Nat.ne_zero_of_lt hfuel)
  have hrest := hloop fuel (uart ++ text) (by simp at hfuel; omega)
  rw [List.length_append] at hrest
  rw [← List.append_assoc, ← hrest]
  exact hround fuel uart

theorem runPrints_pieces (hfmt : fmt.bytes = pre ++ l) (h : Matches (pieces l) args) :
    RunPrints fmt pre l (pieces l) args := by
  induction l using pieces.induct generalizing pre args with
  | case1 => exact runPrints_nil (hfmt.trans (List.append_nil _)) args
  | case2 b =>
      refine RunPrints.verbatim hfmt (fun _ => ⟨0, rfl, by decide⟩) (runPrints_nil hfmt args)
  | case3 c l k hdir ih =>
      rw [pieces, if_pos rfl, hdir] at h ⊢
      cases h with
      | directive hk h => exact .directive hfmt hdir hk (ih (by simpa using hfmt) h)
  | case4 c l hdir ih =>
      rw [pieces, if_pos rfl, hdir] at h ⊢
      cases h with
      | verbatim _ h => exact .verbatim hfmt (fun _ => ⟨c, rfl, hdir⟩) (ih (by simpa using hfmt) h)
  | case5 b c l hb ih =>
      rw [pieces, if_neg hb] at h ⊢
      cases h with
      | verbatim _ h => exact .verbatim hfmt (fun h' => absurd h' hb) (ih (by simpa using hfmt) h)

/-- **What `kprintf` prints.** -/
theorem kprintf_prints {fmt : CString} {args : List Arg} (h : Matches (pieces fmt.bytes) args) :
    ∃ out, Prints (pieces fmt.bytes) args out ∧ ∀ fuel uart, fmt.bytes.length < fuel →
      kprintf fmt args fuel uart = some (uart ++ out) :=
  runPrints_pieces (List.nil_append _).symm h

/-- The format `a%%%x%s%`. -/
def percents : CString where
  bytes := "a%%%x%s%".toList.map ascii
  nul_notMem := by decide

theorem kprintf_prints_percents :
    ∃ out, Prints (pieces percents.bytes) [.word 0xBEEF, .str percents] out ∧
      ∀ fuel uart, percents.bytes.length < fuel →
        kprintf percents [.word 0xBEEF, .str percents] fuel uart = some (uart ++ out) :=
  kprintf_prints (.verbatim _ (.verbatim _ (.verbatim _ (.directive trivial (.directive trivial
    (.verbatim _ (.nil _)))))))

end BloodKernel.Kprintf
