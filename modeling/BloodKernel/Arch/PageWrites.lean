import BloodKernel.Arch.FlashQspi
import BloodKernel.Lib.Paged

set_option autoImplicit false

/-!
# Writing page by page

`flash_write` of `arch/rp2040/flash_qspi.c` and `qspi_write` of `arch/stm32h/qspi_flash.c` cut what they write into
chunks, each up to the end of a page of 256 bytes, and program one after the other. They are the same loop, with
lengths of 32 and of 16 bits.

* `pageWrites`: the loop; `flashWriteCalls`, `qspiWriteCalls`: the two functions, for any function that programs a
  page.
* **`pageWrites_spec`**: the loop ends, and its calls cover the data.
* `flashWrite_eq`: with `flash_page_program` it is `flash_write`.
* **`writes_in_pages`**: both functions write the data in chunks within pages.
-/

namespace BloodKernel.PageWrites

open Lib FlashQspi

/-! ### The loop -/

/-- `n` bytes of a buffer. -/
def bytes (buf : ℕ → U8) (i n : ℕ) : List U8 := (List.range n).map fun k => buf (i + k)

/-- What programs a page: given the address and the bytes, it changes the state, or does not return. -/
abbrev Program (σ : Type) := U32 → List U8 → σ → Option σ

section Loop

variable {w : ℕ} {σ : Type} (program : Program σ) (pageRemaining : U32 → BitVec w) (buf : ℕ → U8)

/-- The loop, with `buf` advanced by `i`. -/
def pageWrites : ℕ → U32 → ℕ → BitVec w → σ → Option σ
  | 0, _, _, _, _ => none
  | fuel + 1, addr, i, len, s =>
      if 0 < len then
        let chunk := if len < pageRemaining addr then len else pageRemaining addr
        (program addr (bytes buf i chunk.toNat) s).bind
          (pageWrites fuel (addr + chunk.setWidth 32) (i + chunk.toNat) (len - chunk))
      else some s

end Loop

/-- `256 - page_offset` -/
def flashPageRemaining (addr : U32) : U32 := 256 - (addr &&& 0xFF)

/-- `page_rem`, a `u16`. -/
def qspiPageRem (addr : U32) : U16 := (256 - (addr &&& 0xFF)).setWidth 16

/-- `flash_write`, for any function in place of `flash_page_program`. -/
def flashWriteCalls {σ : Type} (program : Program σ) (addr : U32) (buf : ℕ → U8) (len : U32) (fuel : ℕ) (s : σ) :
    Option σ :=
  pageWrites program flashPageRemaining buf fuel addr 0 len s

/-- `qspi_write`, for any function in place of `qspi_page_program`. -/
def qspiWriteCalls {σ : Type} (program : Program σ) (addr : U32) (buf : ℕ → U8) (len : U16) (fuel : ℕ) (s : σ) :
    Option σ :=
  pageWrites program qspiPageRem buf fuel addr 0 len s

/-! ### The chunks -/

variable {w : ℕ} {pageRemaining : U32 → BitVec w} {buf : ℕ → U8} {addr : U32} {len chunk : BitVec w} {i m n : ℕ}

theorem bytes_add (buf : ℕ → U8) (i m n : ℕ) : bytes buf i (m + n) = bytes buf i m ++ bytes buf (i + m) n := by
  unfold bytes
  rw [List.range_add, List.map_append, List.map_map]
  congr 1
  exact List.map_congr_left fun k _ => congrArg buf (Nat.add_assoc i m k).symm

theorem length_bytes (buf : ℕ → U8) (i n : ℕ) : (bytes buf i n).length = n := by
  rw [bytes, List.length_map, List.length_range]

/-- What is left of the page of an address. -/
def Remaining (pageRemaining : U32 → BitVec w) : Prop :=
  ∀ addr, (pageRemaining addr).toNat = 256 - addr.toNat % 256

theorem remaining_flash : Remaining flashPageRemaining := by
  intro addr
  have h256 : (256 : U32).toNat = 256 := rfl
  unfold flashPageRemaining
  rw [BitVec.toNat_sub, toNat_and_ff, h256]
  omega

theorem remaining_qspi : Remaining qspiPageRem := by
  intro addr
  have hflash := remaining_flash addr
  unfold flashPageRemaining at hflash
  unfold qspiPageRem
  rw [BitVec.toNat_setWidth, hflash]
  omega

theorem pos_iff (len : BitVec w) : 0 < len ↔ 0 < len.toNat := by
  have hzero : (0 : BitVec w).toNat = 0 := BitVec.toNat_zero
  rw [BitVec.lt_def, hzero]

/-- The first chunk is as large as the remaining bytes and the page allow. -/
theorem toNat_chunk (hrem : Remaining pageRemaining) (addr : U32) (len : BitVec w) :
    (if len < pageRemaining addr then len else pageRemaining addr).toNat =
      min len.toNat (256 - addr.toNat % 256) := by
  have hlt : len < pageRemaining addr ↔ len.toNat < 256 - addr.toNat % 256 := by rw [BitVec.lt_def, hrem]
  split_ifs with h
  · rw [hlt] at h
    omega
  · rw [hlt] at h
    rw [hrem]
    omega

/-- The calls of `program` for some chunks. -/
def calls {σ : Type} (program : Program σ) (cs : List (Chunk 32 U8)) (s : σ) : Option σ :=
  cs.foldlM (fun s c => program c.addr c.data s) s

theorem bytes_chunk (buf : ℕ → U8) (i : ℕ) (h : chunk ≤ len) : bytes buf i len.toNat =
    bytes buf i chunk.toNat ++ bytes buf (i + chunk.toNat) (len - chunk).toNat := by
  rw [← bytes_add, BitVec.toNat_sub_of_le h, Nat.add_sub_of_le h]

theorem pageWrites_spec_of_not_pos (buf : ℕ → U8) (n : ℕ) (addr : U32) (i : ℕ) (h : ¬0 < len) :
    ∃ cs, Covers 256 addr (bytes buf i len.toNat) cs ∧ ∀ (σ : Type) (program : Program σ) (k : ℕ) (s : σ),
      pageWrites program pageRemaining buf (n + 1 + k) addr i len s = calls program cs s := by
  refine ⟨[], ?_, fun σ program k s => ?_⟩
  · have hzero : len.toNat = 0 := by
      rw [pos_iff] at h
      omega
    rw [hzero]
    exact .nil 256 addr
  · rw [Nat.add_right_comm, pageWrites, if_neg h]
    rfl

/-- **The loop** ends within as many rounds as there are bytes, and makes the calls for chunks that cover the data. -/
theorem pageWrites_spec (hrem : Remaining pageRemaining) (buf : ℕ → U8) :
    ∀ (n : ℕ) (addr : U32) (i : ℕ) (len : BitVec w), len.toNat ≤ n → ∃ cs, Covers 256 addr (bytes buf i len.toNat) cs ∧
      ∀ (σ : Type) (program : Program σ) (k : ℕ) (s : σ),
        pageWrites program pageRemaining buf (n + 1 + k) addr i len s = calls program cs s := by
  intro n
  induction n with
  | zero =>
      intro addr i len hlen
      refine pageWrites_spec_of_not_pos buf 0 addr i fun hpos => ?_
      rw [pos_iff] at hpos
      omega
  | succ n ih =>
      intro addr i len hlen
      by_cases hpos : 0 < len
      · have hpos' : 0 < len.toNat := (pos_iff len).mp hpos
        have hchunk := toNat_chunk hrem addr len
        generalize hc : (if len < pageRemaining addr then len else pageRemaining addr) = chunk at hchunk
        have hle : chunk ≤ len := BitVec.le_def.mpr (by omega)
        have hrest : (len - chunk).toNat = len.toNat - chunk.toNat := BitVec.toNat_sub_of_le hle
        have hnext : addr + BitVec.ofNat 32 chunk.toNat = addr + chunk.setWidth 32 := by rw [BitVec.ofNat_toNat]
        obtain ⟨cs, hcovers, hcalls⟩ := ih (addr + chunk.setWidth 32) (i + chunk.toNat) (len - chunk) (by omega)
        refine ⟨⟨addr, bytes buf i chunk.toNat⟩ :: cs, ?_, fun σ program k s => ?_⟩
        · rw [bytes_chunk buf i hle]
          refine .cons (fun hnil => ?_) ?_ ?_
          · have hlength := length_bytes buf i chunk.toNat
            rw [hnil, List.length_nil] at hlength
            omega
          · rw [length_bytes, hchunk]
            omega
          · rwa [length_bytes, hnext]
        · rw [Nat.add_right_comm, pageWrites, if_pos hpos, hc, calls, List.foldlM_cons]
          exact congrArg (Option.bind (program addr (bytes buf i chunk.toNat) s)) (funext (hcalls σ program k))
      · exact pageWrites_spec_of_not_pos buf (n + 1) addr i hpos

/-! ### The functions -/

/-- A function that writes some data ends, and programs them in order and at their addresses, in chunks of which none
is empty and each lies in one page of 256 bytes. -/
def WritesInPages (addr : U32) (data : List U8) (write : ∀ σ : Type, Program σ → ℕ → σ → Option σ) : Prop :=
  ∃ cs, Covers 256 addr data cs ∧ ∃ n, ∀ (σ : Type) (program : U32 → List U8 → σ → σ) (k : ℕ) (s : σ),
    write σ (fun a data s => some (program a data s)) (n + k) s =
      some (cs.foldl (fun s c => program c.addr c.data s) s)

theorem writesInPages (hrem : Remaining pageRemaining) (addr : U32) (buf : ℕ → U8) (len : BitVec w) :
    WritesInPages addr (bytes buf 0 len.toNat) fun _ program fuel s =>
      pageWrites program pageRemaining buf fuel addr 0 len s := by
  obtain ⟨cs, hcovers, hcalls⟩ := pageWrites_spec hrem buf len.toNat addr 0 len le_rfl
  refine ⟨cs, hcovers, len.toNat + 1, fun σ program k s => ?_⟩
  exact (hcalls σ _ k s).trans List.foldlM_pure

/-- **Both functions** write any data to any address in chunks within pages. -/
theorem writes_in_pages (addr : U32) (buf : ℕ → U8) (len : U32) (len' : U16) :
    WritesInPages addr (bytes buf 0 len.toNat) (fun _ program => flashWriteCalls program addr buf len) ∧
      WritesInPages addr (bytes buf 0 len'.toNat) (fun _ program => qspiWriteCalls program addr buf len') :=
  ⟨writesInPages remaining_flash addr buf len, writesInPages remaining_qspi addr buf len'⟩

/-! ### With `flash_page_program` -/

variable {answers : ℕ → ℕ → U8}

/-- `flash_page_program`, with its waits. -/
def flashProgram (answers : ℕ → ℕ → U8) (waits : ℕ) : Program Flash := fun addr data f =>
  flashPageProgram answers waits f addr data

/-- **`flash_write`** is the loop with it. -/
theorem flashWrite_eq (waits : ℕ) : ∀ (n : ℕ) (addr : U32) (i : ℕ) (len : U32) (f : Flash), len.toNat ≤ n →
    flashWrite answers waits f addr (bytes buf i len.toNat) =
      pageWrites (flashProgram answers waits) flashPageRemaining buf (n + 1) addr i len f := by
  have hend {addr : U32} {i : ℕ} {len : U32} {f : Flash} (fuel : ℕ) (h : ¬0 < len) :
      flashWrite answers waits f addr (bytes buf i len.toNat) =
        pageWrites (flashProgram answers waits) flashPageRemaining buf (fuel + 1) addr i len f := by
    have hlength : ¬0 < (bytes buf i len.toNat).length := by rwa [length_bytes, ← pos_iff]
    rw [flashWrite, dif_neg hlength, pageWrites, if_neg h]
  intro n
  induction n with
  | zero =>
      intro addr i len f hlen
      refine hend 0 fun hpos => ?_
      rw [pos_iff] at hpos
      omega
  | succ n ih =>
      intro addr i len f hlen
      by_cases hpos : 0 < len
      · have hlength : 0 < (bytes buf i len.toNat).length := by rwa [length_bytes, ← pos_iff]
        have hchunk := toNat_chunk remaining_flash addr len
        have hsize : chunkSize addr len.toNat = min len.toNat (256 - addr.toNat % 256) := by
          rw [chunkSize, toNat_and_ff]
        rw [flashWrite_cons hlength, length_bytes, hsize, ← hchunk, pageWrites, if_pos hpos]
        generalize (if len < flashPageRemaining addr then len else flashPageRemaining addr) = chunk at hchunk
        have hpos' : 0 < len.toNat := (pos_iff len).mp hpos
        have hle : chunk ≤ len := BitVec.le_def.mpr (by omega)
        have hrest : (len - chunk).toNat = len.toNat - chunk.toNat := BitVec.toNat_sub_of_le hle
        have htake := length_bytes buf i chunk.toNat
        rw [bytes_chunk buf i hle, List.take_left' htake, List.drop_left' htake, BitVec.ofNat_toNat]
        exact congrArg (Option.bind _) (funext fun g => ih _ _ _ g (by omega))
      · exact hend (n + 1) hpos

end BloodKernel.PageWrites
