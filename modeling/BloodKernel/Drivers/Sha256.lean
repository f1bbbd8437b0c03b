import BloodKernel.Kernel.Types
import BloodKernel.Lib.Cut

set_option autoImplicit false

/-!
# Incremental SHA-256

The SHA-256 part of `drivers/hwcrypto.c`. A context buffers up to a block of the message; full blocks
are passed to `sha256_process_block_shani`, whose effect on the hash state is the parameter `compress`.
The list of passed blocks is kept beside the state of the driver.

* `hwcryptoSha256Update`, `hwcryptoSha256Final`, `hwcryptoSha256Oneshot`.
* `Ctx.content`: the bytes a context has absorbed; `content_update`: an update appends its data.
* **`blocks_eq_pad`**: the blocks of a message hashed in pieces are those of its padding, and the
  digest is that of `hwcryptoSha256Oneshot`.
-/

namespace BloodKernel.Sha256

open Lib

/-! ## The driver -/

abbrev U64 := BitVec 64

abbrev Block := Fin 64 → U8

abbrev Hash := Fin 8 → U32

/-- A pointer to data with its length, a `u32`. -/
abbrev Data := { l : List U8 // l.length < 2 ^ 32 }

/-- `sha256_ctx_t`, and the blocks passed on so far. -/
structure Ctx where
  h : Hash
  buffer : Block
  bufferLen : ℕ
  totalLen : U64
  bufferLen_le : bufferLen ≤ 64
  passed : List Block

def initialHash : Hash :=
  #v[0x6a09e667, 0xbb67ae85, 0x3c6ef372, 0xa54ff53a, 0x510e527f, 0x9b05688c, 0x1f83d9ab,
    0x5be0cd19].get

/-- `hwcrypto_sha256_init`, on a context whose buffer holds anything. -/
def hwcryptoSha256Init (buffer : Block) : Ctx where
  h := initialHash
  buffer := buffer
  bufferLen := 0
  totalLen := 0
  bufferLen_le := Nat.zero_le _
  passed := []

section Shani

variable (shani : Bool) (compress : Hash → Block → Hash)

/-- `sha256_process_block_shani` on the buffer. -/
def process (c : Ctx) : Ctx :=
  { c with h := compress c.h c.buffer, passed := c.passed ++ [c.buffer] }

/-- The data copied in one turn of the loop of `hwcrypto_sha256_update`. -/
def toCopy (c : Ctx) (data : List U8) : ℕ :=
  if data.length < 64 - c.bufferLen then data.length else 64 - c.bufferLen

theorem toCopy_le (c : Ctx) (data : List U8) :
    toCopy c data ≤ data.length ∧ c.bufferLen + toCopy c data ≤ 64 := by
  have := c.bufferLen_le
  unfold toCopy
  split_ifs <;> omega

theorem length_take_toCopy (c : Ctx) (data : List U8) :
    (data.take (toCopy c data)).length = toCopy c data := by
  rw [List.length_take, Nat.min_eq_left (toCopy_le c data).1]

theorem fits_toCopy (c : Ctx) (data : List U8) :
    c.bufferLen + (data.take (toCopy c data)).length ≤ 64 := by
  rw [length_take_toCopy]
  exact (toCopy_le c data).2

/-- Copy some bytes behind the held ones. -/
def append (c : Ctx) (xs : List U8) (h : c.bufferLen + xs.length ≤ 64) : Ctx :=
  { c with
    buffer := write c.buffer c.bufferLen xs
    bufferLen := c.bufferLen + xs.length
    bufferLen_le := h }

/-- One turn copies data to the buffer. -/
def absorb (c : Ctx) (data : List U8) : Ctx :=
  { append c (data.take (toCopy c data)) (fits_toCopy c data) with
    totalLen := c.totalLen + BitVec.ofNat 64 (toCopy c data) }

/-- `ctx->buffer_len = 0`. -/
def Ctx.empty (c : Ctx) : Ctx := { c with bufferLen := 0, bufferLen_le := Nat.zero_le _ }

/-- A turn copies something, unless the buffer is full already. -/
theorem toCopy_pos {c : Ctx} {data : List U8} (h : data ≠ []) (hlt : c.bufferLen < 64) :
    0 < toCopy c data := by
  have hpos : 0 < data.length := List.length_pos_iff.mpr h
  unfold toCopy
  split_ifs <;> omega

theorem length_drop_lt {c : Ctx} {data : List U8} (h : data ≠ []) (hlt : c.bufferLen < 64) :
    (data.drop (toCopy c data)).length < data.length := by
  have hpos := toCopy_pos h hlt
  have hlen : 0 < data.length := List.length_pos_iff.mpr h
  rw [List.length_drop]
  omega

/-- A turn that fills the buffer leaves less data, or the same data and an empty buffer. -/
theorem decreasing_full {c : Ctx} {data : List U8} (h : data ≠ []) :
    Prod.Lex (· < ·) (· < ·)
      ((data.drop (toCopy c data)).length, (process compress (absorb c data)).empty.bufferLen)
      (data.length, c.bufferLen) := by
  have hle := c.bufferLen_le
  by_cases hlt : c.bufferLen < 64
  · exact .left _ _ (length_drop_lt h hlt)
  · have hzero : toCopy c data = 0 := by
      have := (toCopy_le c data).2
      omega
    rw [hzero, List.drop_zero]
    refine .right _ ?_
    show 0 < c.bufferLen
    omega

theorem decreasing_part {c : Ctx} {data : List U8} (h : data ≠ [])
    (hne : (absorb c data).bufferLen ≠ 64) :
    Prod.Lex (· < ·) (· < ·) ((data.drop (toCopy c data)).length, (absorb c data).bufferLen)
      (data.length, c.bufferLen) := by
  have hle := c.bufferLen_le
  have hle' := (absorb c data).bufferLen_le
  have hmono : c.bufferLen ≤ (absorb c data).bufferLen := Nat.le_add_right _ _
  exact .left _ _ (length_drop_lt h (by omega))

/-- The loop of `hwcrypto_sha256_update`. -/
def updateLoop (c : Ctx) (data : List U8) : U8 × Ctx :=
  if data = [] then (1, c)
  else if (absorb c data).bufferLen = 64 then
    if shani then updateLoop (process compress (absorb c data)).empty (data.drop (toCopy c data))
    else (0, absorb c data)
  else updateLoop (absorb c data) (data.drop (toCopy c data))
termination_by (data.length, c.bufferLen)
decreasing_by
  · exact decreasing_full compress ‹_›
  · exact decreasing_part ‹_› ‹_›

/-- `hwcrypto_sha256_update`; `none` is a null pointer. -/
def hwcryptoSha256Update (c : Ctx) (data : Option Data) : U8 × Ctx :=
  match data with
  | none => (0, c)
  | some data => updateLoop shani compress c data.1

/-- The bytes of a 64-bit word, the most significant first. -/
def lengthBytes (n : U64) : List U8 :=
  (List.range 8).map fun i => ((n >>> ((7 - i) * 8)) &&& 0xFF).setWidth 8

/-- The bytes of the hash, each word with its most significant byte first. -/
def digest (h : Hash) : List U8 :=
  (List.ofFn h).flatMap fun w : U32 =>
    [((w >>> 24) &&& 0xFF).setWidth 8, ((w >>> 16) &&& 0xFF).setWidth 8,
      ((w >>> 8) &&& 0xFF).setWidth 8, (w &&& 0xFF).setWidth 8]

/-- `while (buffer_len < n) buffer[buffer_len++] = 0`. -/
def fill (c : Ctx) (n : ℕ) (h : n ≤ 64) : Ctx :=
  append c (List.replicate (n - c.bufferLen) 0) (by
    have := c.bufferLen_le
    rw [List.length_replicate]
    omega)

/-- Write the length in bits behind byte 56. -/
def storeLength (c : Ctx) : Ctx :=
  { c with buffer := write c.buffer 56 (lengthBytes (c.totalLen * 8)) }

/-- The end of `hwcrypto_sha256_final`, from the zeros before the length on. -/
def finish (c : Ctx) : U8 × Ctx :=
  let c := storeLength (fill c 56 (by decide))
  if shani then (1, process compress c) else (0, c)

/-- `hwcrypto_sha256_final`: its result and the context after it. `none`: the buffer is full, and
`0x80` is written past its end. -/
def hwcryptoSha256Final (c : Ctx) : Option (U8 × Ctx) :=
  if h : c.bufferLen < 64 then
    let c := append c [0x80] h
    if 56 < c.bufferLen then
      let c := fill c 64 le_rfl
      if shani then some (finish shani compress (process compress c).empty) else some (0, c)
    else some (finish shani compress c)
  else none

/-- `hwcrypto_sha256_oneshot`: the digest, if it returns `1`. -/
def hwcryptoSha256Oneshot (buffer : Block) (data : Option Data) : Option (List U8) :=
  let r := hwcryptoSha256Update shani compress (hwcryptoSha256Init buffer) data
  if r.1 = 0 then none
  else match hwcryptoSha256Final shani compress r.2 with
    | none => none
    | some r => if r.1 = 0 then none else some (digest r.2.h)

/-- A caller that updates with some pieces in turn, as long as the calls return `1`. -/
def feed (c : Ctx) : List Data → Option Ctx
  | [] => some c
  | data :: pieces =>
      let r := hwcryptoSha256Update shani compress c (some data)
      if r.1 = 0 then none else feed r.2 pieces

/-- A caller that hashes some pieces: the blocks passed on and the digest. -/
def hashPieces (buffer : Block) (pieces : List Data) : Option (List Block × List U8) :=
  match feed shani compress (hwcryptoSha256Init buffer) pieces with
  | none => none
  | some c => match hwcryptoSha256Final shani compress c with
    | none => none
    | some r => if r.1 = 0 then none else some (r.2.passed, digest r.2.h)

end Shani

/-! ## What a context has absorbed -/

/-- A number as eight bytes, the most significant first. -/
def be64 (n : ℕ) : List U8 := (List.range 8).map fun i => BitVec.ofNat 8 (n / 256 ^ (7 - i))

/-- The padded message: a byte `0x80`, zeros, and the length in bits. -/
def pad (m : List U8) : List U8 :=
  m ++ 0x80 :: List.replicate ((119 - m.length % 64) % 64) 0 ++ be64 (8 * m.length)

/-- The absorbed bytes: the blocks passed on and the held part of the next. -/
def Ctx.content (c : Ctx) : List U8 := c.passed.flatMap List.ofFn ++ upTo c.buffer c.bufferLen

variable {compress : Hash → Block → Hash}

/-- The context has absorbed `m`: its length is counted, and its full blocks are hashed. -/
structure Absorbed (compress : Hash → Block → Hash) (c : Ctx) (m : List U8) : Prop where
  content_eq : c.content = m
  total_eq : c.totalLen = BitVec.ofNat 64 m.length
  hash_eq : c.h = c.passed.foldl compress initialHash

theorem absorbed_init (buffer : Block) : Absorbed compress (hwcryptoSha256Init buffer) [] where
  content_eq := rfl
  total_eq := rfl
  hash_eq := rfl

/-- Bytes written behind the held ones are absorbed. -/
theorem content_append (c : Ctx) {xs : List U8} (h : c.bufferLen + xs.length ≤ 64) :
    (append c xs h).content = c.content ++ xs := by
  show c.passed.flatMap List.ofFn ++ upTo (write c.buffer c.bufferLen xs) (c.bufferLen + xs.length) = _
  rw [upTo_write h, Ctx.content, List.append_assoc]

theorem Absorbed.absorb {c : Ctx} {m : List U8} (h : Absorbed compress c m) (data : List U8) :
    Absorbed compress (absorb c data) (m ++ data.take (toCopy c data)) where
  content_eq := by
    rw [← h.content_eq]
    exact content_append c (fits_toCopy c data)
  total_eq := by
    show c.totalLen + BitVec.ofNat 64 (toCopy c data) = _
    rw [h.total_eq, List.length_append, length_take_toCopy, BitVec.ofNat_add]
  hash_eq := h.hash_eq

theorem Absorbed.process {c : Ctx} {m : List U8} (h : Absorbed compress c m)
    (hfull : c.bufferLen = 64) : Absorbed compress (process compress c).empty m where
  content_eq := by
    rw [← h.content_eq, Ctx.content, Ctx.content, hfull, upTo_all]
    show (c.passed ++ [c.buffer]).flatMap List.ofFn ++ [] = _
    simp
  total_eq := h.total_eq
  hash_eq := by
    show compress c.h c.buffer = (c.passed ++ [c.buffer]).foldl compress initialHash
    rw [List.foldl_append, h.hash_eq]
    rfl

/-- **Update.** The loop absorbs all its data and leaves room in the buffer. -/
theorem Absorbed.updateLoop {c : Ctx} {m : List U8} (h : Absorbed compress c m)
    (hlt : c.bufferLen < 64) (data : List U8) :
    ∃ c', updateLoop true compress c data = (1, c') ∧ Absorbed compress c' (m ++ data) ∧
      c'.bufferLen < 64 := by
  -- induction on the length of the data; a turn with room in the buffer copies something
  induction hn : data.length using Nat.strong_induction_on generalizing c m data with
  | _ n ih =>
      unfold Sha256.updateLoop
      by_cases hd : data = []
      · rw [if_pos hd]
        exact ⟨c, rfl, by rw [hd, List.append_nil]; exact h, hlt⟩
      · have hless := length_drop_lt hd hlt
        have habs := h.absorb data
        have hall : m ++ data.take (toCopy c data) ++ data.drop (toCopy c data) = m ++ data := by
          rw [List.append_assoc, List.take_append_drop]
        rw [if_neg hd]
        by_cases hfull : (Sha256.absorb c data).bufferLen = 64
        · rw [if_pos hfull, if_pos rfl, ← hall]
          exact ih _ (hn ▸ hless) (habs.process hfull) (Nat.zero_lt_succ 63) _ rfl
        · rw [if_neg hfull, ← hall]
          have hle := (Sha256.absorb c data).bufferLen_le
          exact ih _ (hn ▸ hless) habs (by omega) _ rfl

/-- Updates with some pieces absorb their concatenation. -/
theorem Absorbed.feed {c : Ctx} {m : List U8} (h : Absorbed compress c m) (hlt : c.bufferLen < 64)
    (pieces : List Data) :
    ∃ c', feed true compress c pieces = some c' ∧
      Absorbed compress c' (m ++ pieces.flatMap Subtype.val) ∧ c'.bufferLen < 64 := by
  induction pieces generalizing c m with
  | nil => exact ⟨c, rfl, by simpa using h, hlt⟩
  | cons data pieces ih =>
      obtain ⟨c₁, h₁, habs, hlt₁⟩ := h.updateLoop hlt data.1
      obtain ⟨c₂, h₂, habs₂, hlt₂⟩ := ih habs hlt₁
      refine ⟨c₂, ?_, by rw [List.flatMap_cons, ← List.append_assoc]; exact habs₂, hlt₂⟩
      have hupdate : hwcryptoSha256Update true compress c (some data) = (1, c₁) := h₁
      rw [Sha256.feed, hupdate]
      exact h₂

/-! ## The padding -/

theorem length_passed (bs : List Block) : (bs.flatMap List.ofFn).length = 64 * bs.length := by
  induction bs with
  | nil => rfl
  | cons b bs ih =>
      rw [List.flatMap_cons, List.length_append, ih, List.length_ofFn, List.length_cons]
      omega

theorem bufferLen_eq {c : Ctx} {m : List U8} (h : Absorbed compress c m) (hlt : c.bufferLen < 64) :
    c.bufferLen = m.length % 64 := by
  rw [← h.content_eq, Ctx.content, List.length_append, length_passed, length_upTo hlt.le,
    Nat.mul_add_mod, Nat.mod_eq_of_lt hlt]

theorem lengthBytes_eq {n : ℕ} (h : n < 2 ^ 61) : lengthBytes (BitVec.ofNat 64 n * 8) = be64 (8 * n) := by
  have h8 : (8 : U64).toNat = 8 := rfl
  have hbits : (BitVec.ofNat 64 n * 8).toNat = 8 * n := by
    rw [BitVec.toNat_mul, BitVec.toNat_ofNat, h8]
    omega
  refine List.map_congr_left fun i _ => BitVec.eq_of_toNat_eq ?_
  have h255 : (0xFF : U64).toNat = 2 ^ 8 - 1 := rfl
  rw [BitVec.toNat_setWidth, BitVec.toNat_and, h255, Nat.and_two_pow_sub_one_eq_mod,
    BitVec.toNat_ushiftRight, Nat.shiftRight_eq_div_pow, hbits, Nat.mod_mod, BitVec.toNat_ofNat,
    Nat.mul_comm (7 - i) 8, Nat.pow_mul]

/-- The blocks passed on are hashed. -/
def Hashed (compress : Hash → Block → Hash) (c : Ctx) : Prop :=
  c.h = c.passed.foldl compress initialHash

theorem Hashed.process {c : Ctx} (h : Hashed compress c) : Hashed compress (process compress c) := by
  show compress c.h c.buffer = (c.passed ++ [c.buffer]).foldl compress initialHash
  rw [List.foldl_append, h]
  rfl

theorem content_fill (c : Ctx) {n : ℕ} (h : n ≤ 64) :
    (fill c n h).content = c.content ++ List.replicate (n - c.bufferLen) 0 :=
  content_append c _

theorem bufferLen_fill {c : Ctx} {n : ℕ} (h : n ≤ 64) (hle : c.bufferLen ≤ n) :
    (fill c n h).bufferLen = n := by
  show c.bufferLen + (List.replicate (n - c.bufferLen) (0 : U8)).length = n
  rw [List.length_replicate]
  omega

theorem passed_process {c : Ctx} (h : c.bufferLen = 64) :
    (process compress c).passed.flatMap List.ofFn = c.content := by
  show (c.passed ++ [c.buffer]).flatMap List.ofFn = _
  rw [Ctx.content, h, upTo_all]
  simp

theorem finish_eq {c : Ctx} (hc : Hashed compress c) (h : c.bufferLen ≤ 56) :
    ∃ c', finish true compress c = (1, c') ∧ Hashed compress c' ∧
      c'.passed.flatMap List.ofFn =
        c.content ++ List.replicate (56 - c.bufferLen) 0 ++ lengthBytes (c.totalLen * 8) := by
  refine ⟨process compress (storeLength (fill c 56 (by decide))), rfl, Hashed.process hc, ?_⟩
  have hfill := content_fill c (by decide : 56 ≤ 64)
  have hlen := bufferLen_fill (by decide : 56 ≤ 64) h
  rw [← hfill, Ctx.content, hlen, List.append_assoc]
  have hbytes : (lengthBytes (c.totalLen * 8)).length = 8 := rfl
  have hstore : upTo (write (fill c 56 (by decide)).buffer 56 (lengthBytes (c.totalLen * 8))) 64 =
      upTo (fill c 56 (by decide)).buffer 56 ++ lengthBytes (c.totalLen * 8) :=
    upTo_write (n := 64) (by rw [hbytes])
  rw [← hstore, upTo_all]
  show (c.passed ++ [_]).flatMap List.ofFn = _
  simp
  rfl

/-- **Final.** The blocks of a context that has absorbed `m` become those of the padding of `m`. -/
theorem final_eq {c : Ctx} {m : List U8} (h : Absorbed compress c m) (hlt : c.bufferLen < 64)
    (hm : m.length < 2 ^ 61) :
    ∃ c', hwcryptoSha256Final true compress c = some (1, c') ∧ Hashed compress c' ∧
      c'.passed.flatMap List.ofFn = pad m := by
  have hlen := bufferLen_eq h hlt
  have hc : Hashed compress c := h.hash_eq
  have happend : (append c [0x80] hlt).content = m ++ [0x80] := by
    rw [content_append, h.content_eq]
  have hbytes : lengthBytes (c.totalLen * 8) = be64 (8 * m.length) := by
    rw [h.total_eq, lengthBytes_eq hm]
  have happlen : (append c [0x80] hlt).bufferLen = c.bufferLen + 1 := rfl
  unfold hwcryptoSha256Final
  rw [dif_pos hlt]
  by_cases h56 : 56 < c.bufferLen + 1
  · -- the length does not fit: zeros fill this block, and it goes in the next
    simp only [happlen, if_pos h56, if_true]
    have hfull : (fill (append c [0x80] hlt) 64 le_rfl).bufferLen = 64 :=
      bufferLen_fill le_rfl (by rw [happlen]; omega)
    obtain ⟨c', hfin, hhash, hpassed⟩ :=
      finish_eq (c := (process compress (fill (append c [0x80] hlt) 64 le_rfl)).empty)
        (Hashed.process hc) (Nat.zero_le 56)
    refine ⟨c', by rw [hfin], hhash, ?_⟩
    have hempty : (process compress (fill (append c [0x80] hlt) 64 le_rfl)).empty.content =
        m ++ [0x80] ++ List.replicate (64 - (c.bufferLen + 1)) 0 := by
      have hpass : (process compress (fill (append c [0x80] hlt) 64 le_rfl)).passed.flatMap List.ofFn =
          (fill (append c [0x80] hlt) 64 le_rfl).content := passed_process hfull
      rw [← happend, ← happlen, ← content_fill _ le_rfl, ← hpass]
      exact List.append_nil _
    have hcount : (119 - m.length % 64) % 64 = 64 - (c.bufferLen + 1) + 56 := by omega
    rw [hpassed, hempty, pad, hcount, List.replicate_add, ← hbytes]
    simp only [List.append_assoc, List.cons_append, List.nil_append]
    rfl
  · simp only [happlen, if_neg h56]
    obtain ⟨c', hfin, hhash, hpassed⟩ :=
      finish_eq (c := append c [0x80] hlt) hc (by rw [happlen]; omega)
    have hcount : (119 - m.length % 64) % 64 = 56 - (c.bufferLen + 1) := by omega
    refine ⟨c', by rw [hfin], hhash, ?_⟩
    rw [hpassed, happend, happlen, pad, hcount, ← hbytes]
    simp only [List.append_assoc, List.cons_append, List.nil_append]
    rfl

/-- **One message.** Hashed in pieces, its blocks are those of its padding. -/
theorem hashPieces_eq (compress : Hash → Block → Hash) (buffer : Block) (pieces : List Data)
    (hm : (pieces.flatMap Subtype.val).length < 2 ^ 61) :
    ∃ blocks : List Block, hashPieces true compress buffer pieces =
        some (blocks, digest (blocks.foldl compress initialHash)) ∧
      blocks.flatMap List.ofFn = pad (pieces.flatMap Subtype.val) := by
  have hinit : Absorbed compress (hwcryptoSha256Init buffer) [] := absorbed_init buffer
  obtain ⟨c, hfeed, habs, hlt⟩ := hinit.feed (Nat.zero_lt_succ 63) pieces
  obtain ⟨c', hfinal, hhash, hpassed⟩ := final_eq habs hlt hm
  refine ⟨c'.passed, ?_, hpassed⟩
  unfold hashPieces
  rw [hfeed]
  show (match hwcryptoSha256Final true compress c with
    | none => none
    | some r => if r.1 = 0 then none else some (r.2.passed, digest r.2.h)) = _
  rw [hfinal, ← hhash]
  rfl

/-- `hwcrypto_sha256_oneshot` hashes its data as one piece. -/
theorem oneshot_eq (shani : Bool) (compress : Hash → Block → Hash) (buffer : Block) (data : Data) :
    hwcryptoSha256Oneshot shani compress buffer (some data) =
      (hashPieces shani compress buffer [data]).map Prod.snd := by
  unfold hwcryptoSha256Oneshot hashPieces feed feed
  by_cases h : (hwcryptoSha256Update shani compress (hwcryptoSha256Init buffer) (some data)).1 = 0
  · simp [h]
  · simp only [h, if_false]
    cases hwcryptoSha256Final shani compress
        (hwcryptoSha256Update shani compress (hwcryptoSha256Init buffer) (some data)).2 with
    | none => rfl
    | some r =>
        show (if r.1 = 0 then none else some (digest r.2.h)) =
          (if r.1 = 0 then none else some (r.2.passed, digest r.2.h)).map Prod.snd
        split_ifs <;> rfl

theorem map_ofFn_eq_cut (bs : List Block) : bs.map List.ofFn = cut 64 (bs.flatMap List.ofFn) := by
  rw [List.flatMap_def, cut_flatten (by decide)]
  intro b hb
  obtain ⟨b', -, rfl⟩ := List.mem_map.mp hb
  exact List.length_ofFn

theorem blocks_inj {bs bs' : List Block} (h : bs.flatMap List.ofFn = bs'.flatMap List.ofFn) :
    bs = bs' := by
  refine List.map_injective_iff.mpr List.ofFn_injective ?_
  rw [map_ofFn_eq_cut, map_ofFn_eq_cut, h]

/-- **Exact blocks.** With SHA-NI present, a message hashed in pieces is passed on as the blocks of
its padding, and its digest is the one of `hwcrypto_sha256_oneshot`. -/
theorem blocks_eq_pad (compress : Hash → Block → Hash) (buffer : Block) (pieces : List Data)
    (hm : (pieces.flatMap Subtype.val).length < 2 ^ 61) :
    ∃ blocks hash, hashPieces true compress buffer pieces = some (blocks, hash) ∧
      blocks.map List.ofFn = cut 64 (pad (pieces.flatMap Subtype.val)) ∧
      ∀ (data : Data) (buffer' : Block), data.1 = pieces.flatMap Subtype.val →
        hwcryptoSha256Oneshot true compress buffer' (some data) = some hash := by
  obtain ⟨blocks, hhash, hblocks⟩ := hashPieces_eq compress buffer pieces hm
  refine ⟨blocks, _, hhash, by rw [map_ofFn_eq_cut, hblocks], fun data buffer' hdata => ?_⟩
  have hone : [data].flatMap Subtype.val = pieces.flatMap Subtype.val := by
    rw [← hdata]
    simp
  obtain ⟨blocks', hhash', hblocks'⟩ := hashPieces_eq compress buffer' [data] (hone ▸ hm)
  obtain rfl : blocks' = blocks := blocks_inj (by rw [hblocks', hblocks, hone])
  rw [oneshot_eq, hhash']
  rfl

/-- The message `abc` in two pieces. -/
def abc : List Data := [⟨[0x61], by decide⟩, ⟨[0x62, 0x63], by decide⟩]

theorem blocks_eq_pad_abc :
    ∃ blocks hash, hashPieces true (fun h _ => h) (fun _ => 0) abc = some (blocks, hash) ∧
      blocks.map List.ofFn = cut 64 (pad (abc.flatMap Subtype.val)) ∧
      ∀ (data : Data) (buffer' : Block), data.1 = abc.flatMap Subtype.val →
        hwcryptoSha256Oneshot true (fun h _ => h) buffer' (some data) = some hash :=
  blocks_eq_pad (fun h _ => h) (fun _ => 0) abc (by decide)

end BloodKernel.Sha256
