import BloodKernel.Kernel.Flash
import BloodKernel.Lib.CopyWords

set_option autoImplicit false

/-!
# What `flash_write` writes

`flash_write` of `kernel/flash.c` over a memory of bytes, in which `data` is too; the loop moves words, and
the index wraps. `burn` says what a byte holds after a store, as in `Lib.CopyWords`.

* `flashWrite`: the function, with the addresses of the bytes that it reads from `data`;
* `after`, `writeWords_eq`: the state after a number of rounds, and the loop; `flashWrite_register`: `FLASH_CR`
  is as in `Flash.flashWrite`;
* `Exact`: the range has the bytes of `data`, and nothing else is written or read;
* **`flashWrite_exact_iff`**: when it is.
-/

namespace BloodKernel.FlashWrite

open Lib
open Flash (flashUnlock flashLock flashWait)

/-- `FLASH_CR`, the memory, and the addresses of the bytes of `data` that have been read. -/
structure State where
  cr : U32
  mem : Mem
  reads : List U32

def wordBytes (a : U32) : List U32 := (List.range 4).map fun k => a + BitVec.ofNat 32 k

section Source

variable (burn : U32 → U8 → U8 → U8) (clears : Bool) (addr data : U32)

/-- The body of the loop. -/
def writeWord (i : U32) (s : State) : State where
  cr := flashWait clears (Flash.store s.cr (addr + i) (load32 s.mem (data + i)))
  mem := storeWord burn s.mem (addr + i) (load32 s.mem (data + i))
  reads := s.reads ++ wordBytes (data + i)

/-- The loop from `i` on, for at most `fuel` rounds. -/
def writeWords (len : U32) : ℕ → U32 → State → Option State
  | 0, i, s => if i < len then none else some s
  | fuel + 1, i, s =>
      if i < len then writeWords len fuel (i + 4) (writeWord burn clears addr data i s) else some s

def start (cr : U32) (m : Mem) : State := ⟨flashUnlock cr ||| bit 0, m, []⟩

def finish (s : State) : State := { s with cr := flashLock (s.cr &&& ~~~bit 0) }

/-- The function, with a loop of at most `fuel` rounds. -/
def flashWrite (len : U32) (fuel : ℕ) (cr : U32) (m : Mem) : Option State :=
  (writeWords burn clears addr data len fuel 0 (start cr m)).map finish

/-- The state after `n` rounds. -/
def after (s : State) : ℕ → State
  | 0 => s
  | n + 1 => writeWord burn clears addr data (BitVec.ofNat 32 (4 * n)) (after s n)

end Source

/-- The bytes of `data`, as they were in `m`, are in the range at `addr`, no other byte has changed, and only
these have been read. -/
structure Exact (m : Mem) (addr data len : U32) (s : State) : Prop where
  written : ∀ k < len.toNat, s.mem (addr + BitVec.ofNat 32 k) = m (data + BitVec.ofNat 32 k)
  frame : ∀ x, ¬ InRange addr len.toNat x → s.mem x = m x
  reads : ∀ x ∈ s.reads, InRange data len.toNat x

def rounds (len : U32) : ℕ := (len.toNat + 3) / 4

variable {burn : U32 → U8 → U8 → U8} {clears : Bool} {addr data len cr : U32} {m : Mem} {s s' : State}
  {n fuel : ℕ}

/-! ### The loop -/

theorem mem_after (s : State) (n : ℕ) :
    (after burn clears addr data s n).mem = copyWords burn s.mem addr data n := by
  induction n with
  | zero => rfl
  | succ n ih => rw [after, writeWord, ih]; rfl

theorem mem_reads_after (hs : s.reads = []) (hn : 4 * n ≤ 2 ^ 32) {x : U32} :
    x ∈ (after burn clears addr data s n).reads ↔ InRange data (4 * n) x := by
  induction n with
  | zero =>
      rw [after, hs]
      exact iff_of_false List.not_mem_nil not_inRange_zero
  | succ n ih =>
      have hword : x ∈ wordBytes (data + BitVec.ofNat 32 (4 * n)) ↔
          InRange (data + BitVec.ofNat 32 (4 * n)) 4 x := by
        rw [inRange_iff]
        simp [wordBytes, eq_comm]
      have hsplit := inRange_add_iff (a := data) (x := x) (k := 4 * n) (n := 4) (by omega)
      rw [after, writeWord, List.mem_append, ih (by omega), hword, hsplit]
      constructor
      · rintro (h | h)
        · exact h.mono (by omega)
        · exact h.1
      · intro h
        exact or_iff_not_imp_left.mpr fun h' => ⟨h, h'⟩

theorem toNat_index (hn : 4 * n < 2 ^ 32) : (BitVec.ofNat 32 (4 * n)).toNat = 4 * n := by
  rw [BitVec.toNat_ofNat, Nat.mod_eq_of_lt hn]

theorem index_lt_iff (hn : 4 * n < 2 ^ 32) : BitVec.ofNat 32 (4 * n) < len ↔ n < rounds len := by
  rw [BitVec.lt_def, toNat_index hn, rounds]
  omega

theorem index_succ (n : ℕ) : BitVec.ofNat 32 (4 * n) + 4 = BitVec.ofNat 32 (4 * (n + 1)) := by
  rw [Nat.mul_succ, BitVec.ofNat_add]
  rfl

/-- **The loop** makes its rounds, if the index does not wrap. -/
theorem writeWords_eq (hlen : len.toNat ≤ 0xFFFFFFFC) (hn : n ≤ rounds len) :
    writeWords burn clears addr data len fuel (BitVec.ofNat 32 (4 * n)) (after burn clears addr data s n) =
      if rounds len ≤ n + fuel then some (after burn clears addr data s (rounds len)) else none := by
  have hrounds : 4 * rounds len < 2 ^ 32 := by unfold rounds; omega
  induction fuel generalizing n with
  | zero =>
      rw [writeWords]
      rcases hn.lt_or_eq with hlt | rfl
      · rw [if_pos ((index_lt_iff (by omega)).mpr hlt), if_neg (by omega)]
      · rw [if_neg fun h => lt_irrefl _ ((index_lt_iff hrounds).mp h), if_pos (by omega)]
  | succ fuel ih =>
      rw [writeWords]
      rcases hn.lt_or_eq with hlt | rfl
      · rw [if_pos ((index_lt_iff (by omega)).mpr hlt), index_succ]
        refine (ih (Nat.succ_le_of_lt hlt)).trans (if_congr (by omega) rfl rfl)
      · rw [if_neg fun h => lt_irrefl _ ((index_lt_iff hrounds).mp h), if_pos (by omega)]

/-- With a longer length the index wraps, and the loop does not end. -/
theorem writeWords_eq_none (hlen : 0xFFFFFFFC < len.toNat) (n fuel : ℕ) (s : State) :
    writeWords burn clears addr data len fuel (BitVec.ofNat 32 (4 * n)) s = none := by
  have hlt : ∀ n, BitVec.ofNat 32 (4 * n) < len := fun n => by
    rw [BitVec.lt_def, BitVec.toNat_ofNat]
    omega
  induction fuel generalizing n s with
  | zero => rw [writeWords, if_pos (hlt n)]
  | succ fuel ih => rw [writeWords, if_pos (hlt n), index_succ, ih]

/-- **The call.** -/
theorem flashWrite_eq : flashWrite burn clears addr data len fuel cr m =
    if len.toNat ≤ 0xFFFFFFFC ∧ rounds len ≤ fuel then
      some (finish (after burn clears addr data (start cr m) (rounds len)))
    else none := by
  unfold flashWrite
  by_cases hlen : len.toNat ≤ 0xFFFFFFFC
  · have hloop : writeWords burn clears addr data len fuel 0 (start cr m) =
        if rounds len ≤ 0 + fuel then some (after burn clears addr data (start cr m) (rounds len))
        else none := writeWords_eq hlen (Nat.zero_le (rounds len))
    rw [hloop, Nat.zero_add]
    by_cases hfuel : rounds len ≤ fuel
    · rw [if_pos hfuel, if_pos ⟨hlen, hfuel⟩]
      rfl
    · rw [if_neg hfuel, if_neg fun h => hfuel h.2]
      rfl
  · have hloop : writeWords burn clears addr data len fuel 0 (start cr m) = none :=
      writeWords_eq_none (Nat.not_le.mp hlen) 0 fuel _
    rw [hloop, if_neg fun h => hlen h.1]
    rfl

/-- The register is as in the model of the driver's register, for the words that are read. -/
theorem flashWrite_register (h : flashWrite burn clears addr data len fuel cr m = some s') :
    ∃ words, Flash.flashWrite clears cr addr words len = some s'.cr := by
  rw [flashWrite_eq] at h
  split_ifs at h with hret
  cases h
  have hlen : len ≤ 0xFFFFFFFC := hret.1
  have hrounds : 4 * rounds len < 2 ^ 32 := by have := hret.1; unfold rounds; omega
  let words : U32 → U32 := fun i =>
    load32 (after burn clears addr data (start cr m) (i.toNat / 4)).mem (data + i)
  have hloop : ∀ n ≤ rounds len, Flash.writeLoop clears addr words len hlen
      (after burn clears addr data (start cr m) n).cr (BitVec.ofNat 32 (4 * n)) =
        (after burn clears addr data (start cr m) (rounds len)).cr := by
    intro n hn
    induction hn using Nat.decreasingInduction with
    | self =>
        rw [Flash.writeLoop, dif_neg fun h => lt_irrefl _ ((index_lt_iff hrounds).mp h)]
    | of_succ n hn ih =>
        have hword : words (BitVec.ofNat 32 (4 * n)) =
            load32 (after burn clears addr data (start cr m) n).mem (data + BitVec.ofNat 32 (4 * n)) := by
          show load32 (after burn clears addr data (start cr m) (_ / 4)).mem _ = _
          rw [toNat_index (by omega), Nat.mul_div_cancel_left n (by decide)]
        rw [Flash.writeLoop, dif_pos ((index_lt_iff (by omega)).mpr hn), hword, index_succ]
        exact ih
  refine ⟨words, ?_⟩
  rw [Flash.flashWrite, dif_pos hlen]
  exact congrArg (fun cr => some (flashLock (cr &&& ~~~bit 0))) (hloop 0 (Nat.zero_le _))

/-! ### The bytes -/

theorem reads_iff (hlen : len.toNat ≤ 0xFFFFFFFC) :
    (∀ x ∈ (after burn clears addr data (start cr m) (rounds len)).reads, InRange data len.toNat x) ↔
      len.toNat % 4 = 0 := by
  have hrounds : 4 * rounds len ≤ 2 ^ 32 := by unfold rounds; omega
  have hreads : (∀ x ∈ (after burn clears addr data (start cr m) (rounds len)).reads,
      InRange data len.toNat x) ↔ ∀ x, InRange data (4 * rounds len) x → InRange data len.toNat x :=
    forall_congr' fun x => imp_congr_left (mem_reads_after rfl hrounds)
  rw [hreads, inRange_subset_iff hrounds, rounds]
  omega

theorem mod_four_of_exact (h : flashWrite burn clears addr data len fuel cr m = some s')
    (he : Exact m addr data len s') : len.toNat % 4 = 0 := by
  rw [flashWrite_eq] at h
  split_ifs at h with hret
  cases h
  exact (reads_iff hret.1).mp he.reads

/-- **Whole words.** -/
theorem exact_iff (hmod : len.toNat % 4 = 0) :
    Exact m addr data len (finish (after burn clears addr data (start cr m) (rounds len))) ↔
      ∀ k < len.toNat, burn (addr + BitVec.ofNat 32 k) (m (addr + BitVec.ofNat 32 k))
        (sourceByte m addr data k) = m (data + BitVec.ofNat 32 k) := by
  have hlt := len.isLt
  have hbytes : 4 * rounds len = len.toNat := by unfold rounds; omega
  have hmem : (finish (after burn clears addr data (start cr m) (rounds len))).mem =
      copyWords burn m addr data (rounds len) := mem_after _ _
  rw [← hbytes, ← copyWords_eq_iff (by omega), hbytes]
  constructor
  · intro h
    rw [← hmem]
    exact h.written
  · intro h
    exact ⟨hmem ▸ h, fun x hx => hmem ▸ copyWords_of_not (by omega) (hbytes ▸ hx),
      (reads_iff (by omega)).mpr hmod⟩

/-- **When `flash_write` is exact.** The call returns with the bytes of `data` in the range, and nothing else
written or read, if and only if the length is a multiple of 4 and every byte of the range takes its byte. On
an erased range, and with data apart from it: if and only if the length is a multiple of 4. -/
theorem flashWrite_exact_iff (burn : U32 → U8 → U8 → U8) (clears : Bool) (addr data len cr : U32) (m : Mem) :
    ((∃ fuel s, flashWrite burn clears addr data len fuel cr m = some s ∧ Exact m addr data len s) ↔
      len.toNat % 4 = 0 ∧ ∀ k < len.toNat, burn (addr + BitVec.ofNat 32 k)
        (m (addr + BitVec.ofNat 32 k)) (sourceByte m addr data k) = m (data + BitVec.ofNat 32 k)) ∧
    ((∀ x, InRange addr len.toNat x → ∀ b, burn x (m x) b = b) →
      (∀ x, InRange addr len.toNat x → ¬ InRange data len.toNat x) →
      ((∃ fuel s, flashWrite burn clears addr data len fuel cr m = some s ∧ Exact m addr data len s) ↔
        len.toNat % 4 = 0)) := by
  have hexact : (∃ fuel s, flashWrite burn clears addr data len fuel cr m = some s ∧
      Exact m addr data len s) ↔ len.toNat % 4 = 0 ∧ ∀ k < len.toNat, burn (addr + BitVec.ofNat 32 k)
        (m (addr + BitVec.ofNat 32 k)) (sourceByte m addr data k) = m (data + BitVec.ofNat 32 k) := by
    constructor
    · rintro ⟨fuel, s, h, he⟩
      have hmod := mod_four_of_exact h he
      refine ⟨hmod, ?_⟩
      rw [flashWrite_eq] at h
      split_ifs at h with hret
      cases h
      exact (exact_iff hmod).mp he
    · rintro ⟨hmod, hburn⟩
      have hlt := len.isLt
      have he : Exact m addr data len (finish (after burn clears addr data (start cr m) (rounds len))) :=
        (exact_iff hmod).mpr hburn
      refine ⟨rounds len, _, ?_, he⟩
      rw [flashWrite_eq, if_pos ⟨by omega, le_rfl⟩]
  refine ⟨hexact, fun herased hapart => hexact.trans (and_iff_left fun k hk => ?_)⟩
  rw [herased _ (inRange_add hk), sourceByte_of_apart hapart hk]

/-- A memory whose bytes below `0x20000000` are erased, and zeros from there on. -/
def erasedFlash : Mem := fun x => if x.toNat < 0x20000000 then 0xFF else 0

theorem inRange_erasedFlash {x : U32} (h : InRange 0x08080000 4 x) :
    0x08080000 ≤ x.toNat ∧ x.toNat < 0x08080004 := by
  have haddr : (0x08080000 : U32).toNat = 0x08080000 := rfl
  have := x.isLt
  unfold InRange at h
  rw [BitVec.toNat_sub, haddr] at h
  omega

theorem flashWrite_exact_iff_erased :
    (∃ fuel s, flashWrite (fun _ old b => old &&& b) false 0x08080000 0x20000000 4 fuel (bit 31)
        erasedFlash = some s ∧ Exact erasedFlash 0x08080000 0x20000000 4 s) ↔ (4 : U32).toNat % 4 = 0 := by
  refine (flashWrite_exact_iff _ false 0x08080000 0x20000000 4 (bit 31) erasedFlash).2
    (fun x hx b => ?_) fun x hx hdata => ?_
  · have hlt := inRange_erasedFlash hx
    rw [erasedFlash, if_pos (by omega)]
    exact BitVec.allOnes_and
  · have hlt := inRange_erasedFlash hx
    have hbuffer : (0x20000000 : U32).toNat = 0x20000000 := rfl
    have hfour : (4 : U32).toNat = 4 := rfl
    unfold InRange at hdata
    rw [BitVec.toNat_sub, hbuffer, hfour] at hdata
    omega

/-- Writing one byte to an erased flash. -/
theorem flashWrite_not_exact : ¬ ∃ fuel s,
    flashWrite (fun _ old b => old &&& b) false 0x08080000 0x20000000 1 fuel (bit 31) erasedFlash = some s ∧
      Exact erasedFlash 0x08080000 0x20000000 1 s := by
  rintro ⟨fuel, s, h, he⟩
  exact absurd (mod_four_of_exact h he) (by decide)

end BloodKernel.FlashWrite
