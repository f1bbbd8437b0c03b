import BloodKernel.Kernel.Types
import BloodKernel.Lib.Stride

set_option autoImplicit false

/-!
# Flushing a range

`drivers/cache_coherency.c` flushes the cache lines of a range of addresses. The first address is the start, rounded
down to a line, and the size of a line is a word of 32 bits.

* `cacheCoherencyFlushLine`, `cacheCoherencyFlushRange`: the functions.
* `toNat_firstLine`: the rounding also clears the upper half of the start.
* `flushed_strided`: the addresses of a run of the loop.
* **`flushes_lines_iff`**: exactly the lines of the range are flushed, each once, when the start is below 2^32 and the
  end a line below 2^64.
-/

namespace BloodKernel.CacheCoherency

open Lib

/-! ## The driver -/

/-- The fields of `cache_coherency_info` that a flush uses; of the levels, `line_size`. -/
structure Info where
  numCacheLevels : U8
  lineSizes : ℕ → U32
  totalCacheOperations : U32
  cacheFlushes : U32
  lastCoherencyEvent : U64

/-- The static data, and the addresses that CLFLUSH was given. -/
structure State where
  info : Info
  flushed : List U64

/-- `timer_get_ticks` returns `ticks n` after flush `n`. -/
def cacheCoherencyFlushLine (ticks : ℕ → U64) (s : State) (address : U64) : State :=
  { flushed := s.flushed ++ [address]
    info := { s.info with
      cacheFlushes := s.info.cacheFlushes + 1
      totalCacheOperations := s.info.totalCacheOperations + 1
      lastCoherencyEvent := ticks s.flushed.length } }

def Info.lineSize (info : Info) : U32 := if 0 < info.numCacheLevels then info.lineSizes 0 else 64

/-- `start & ~(line_size - 1)`. The complement has 32 bits. -/
def firstLine (start : U64) (lineSize : U32) : U64 := start &&& (~~~(lineSize - 1)).setWidth 64

def cacheCoherencyFlushRange (ticks : ℕ → U64) (fuel : ℕ) (s : State) (start size : U64) : Option State :=
  strideLoop (s.info.lineSize.setWidth 64) (start + size) (cacheCoherencyFlushLine ticks) fuel
    (firstLine start s.info.lineSize) s

/-- The lines of `flushes`. -/
def linesOf (lineSize : ℕ) (flushes : List U64) : List ℕ := flushes.map fun address => address.toNat / lineSize

/-- The call returns, after a flush of each line that intersects the range, and of no other. -/
def FlushesLines (ticks : ℕ → U64) (s : State) (start size : U64) : Prop :=
  ∃ fuel t flushes, cacheCoherencyFlushRange ticks fuel s start size = some t ∧ t.flushed = s.flushed ++ flushes ∧
    (linesOf s.info.lineSize.toNat flushes).Nodup ∧
    ∀ line, line ∈ linesOf s.info.lineSize.toNat flushes ↔
      ∃ x, start.toNat ≤ x ∧ x < start.toNat + size.toNat ∧ x / s.info.lineSize.toNat = line

/-! ## The loop -/

variable {ticks : ℕ → U64} {s t : State} {start size step bound : U64} {lineSize : U32} {j n q : ℕ}

/-- **The first address**: the start modulo 2^32, rounded down. -/
theorem toNat_firstLine (hline : lineSize.toNat = 2 ^ j) :
    (firstLine start lineSize).toNat = start.toNat % 2 ^ 32 / 2 ^ j * 2 ^ j := by
  refine Nat.eq_of_testBit_eq fun i => ?_
  have hmask : (lineSize - 1).getLsbD i = decide (i < j) := by
    rw [← BitVec.testBit_toNat, toNat_sub_one hline, Nat.testBit_two_pow_sub_one]
  unfold firstLine
  rw [BitVec.testBit_toNat, BitVec.getLsbD_and, BitVec.getLsbD_setWidth, BitVec.getLsbD_not, hmask,
    Nat.testBit_mul_two_pow, Nat.testBit_div_two_pow, Nat.testBit_mod_two_pow, BitVec.testBit_toNat]
  by_cases hi : j ≤ i
  · rw [Nat.sub_add_cancel hi]
    by_cases hlow : i < 32
    · simp [hi, hlow, Nat.lt_trans hlow (by decide : 32 < 64)]
    · simp [hlow]
  · simp [hi, Nat.lt_of_not_le hi]

/-- **The addresses of a run.** -/
theorem flushed_strided : (strided step (cacheCoherencyFlushLine ticks) start n s).flushed =
    s.flushed ++ (List.range n).map fun k => start + BitVec.ofNat 64 k * step := by
  induction n with
  | zero => exact (List.append_nil _).symm
  | succ n ih =>
      rw [strided_concat, List.range_succ, List.map_append, ← List.append_assoc, ← ih]
      rfl

theorem linesOf_run (hstep : 0 < step.toNat) (hstart : start.toNat = q * step.toNat)
    (hwrap : start.toNat + n * step.toNat < 2 ^ 64) :
    linesOf step.toNat ((List.range n).map fun k => start + BitVec.ofNat 64 k * step) =
      (List.range n).map fun k => q + k := by
  unfold linesOf
  rw [List.map_map]
  refine List.map_congr_left fun k hk => ?_
  have hlt : start.toNat + k * step.toNat < 2 ^ 64 :=
    (Nat.add_le_add_left (Nat.mul_le_mul_right _ (List.mem_range.mp hk).le) _).trans_lt hwrap
  have hvalue : (start + BitVec.ofNat 64 k * step).toNat = (q + k) * step.toNat := by
    rw [BitVec.toNat_add, BitVec.toNat_mul, BitVec.toNat_ofNat, Nat.mod_mul_mod, Nat.add_mod_mod, Nat.mod_eq_of_lt hlt,
      hstart, Nat.add_mul]
  rw [Function.comp_apply, hvalue, Nat.mul_div_cancel _ hstep]

/-! ## The range -/

/-- The block of the first address, for lines of 2^j bytes. -/
def firstBlock (start : U64) (j : ℕ) : ℕ := start.toNat % 2 ^ 32 / 2 ^ j

def turns (start size : U64) (j : ℕ) : ℕ := strides (firstBlock start j * 2 ^ j) (2 ^ j) (start.toNat + size.toNat)

theorem lt_of_line (hline : lineSize.toNat = 2 ^ j) : j < 32 :=
  (Nat.pow_lt_pow_iff_right (by decide)).mp (hline ▸ lineSize.isLt)

theorem toNat_step (lineSize : U32) : (lineSize.setWidth 64).toNat = lineSize.toNat :=
  BitVec.toNat_setWidth_of_le (by decide)

theorem toNat_pos (hsize : size ≠ 0) : 0 < size.toNat :=
  Nat.pos_of_ne_zero fun h => hsize (BitVec.eq_of_toNat_eq h)

theorem firstBlock_lt (start : U64) (j : ℕ) (hsize : size ≠ 0) :
    firstBlock start j * 2 ^ j < start.toNat + size.toNat := by
  have hblock := Nat.div_mul_le_self (start.toNat % 2 ^ 32) (2 ^ j)
  have hmod := Nat.mod_le start.toNat (2 ^ 32)
  have hpos := toNat_pos hsize
  unfold firstBlock
  omega

/-- **When the call returns**, and with what. -/
theorem returns_iff (hline : s.info.lineSize.toNat = 2 ^ j) (hsize : size ≠ 0)
    (hwrap : start.toNat + size.toNat < 2 ^ 64) :
    (∃ fuel, cacheCoherencyFlushRange ticks fuel s start size = some t) ↔
      start.toNat + size.toNat + 2 ^ j ≤ 2 ^ 64 ∧ t = strided (s.info.lineSize.setWidth 64)
        (cacheCoherencyFlushLine ticks) (firstLine start s.info.lineSize) (turns start size j) s := by
  have hj := lt_of_line hline
  have hpow : 2 ^ (64 - j) * 2 ^ j = 2 ^ 64 := by rw [← Nat.pow_add, Nat.sub_add_cancel (by omega)]
  have hfit := strides_fit_iff (c := 2 ^ (64 - j)) (Nat.two_pow_pos j) (firstBlock_lt start j hsize)
  have hstep : (s.info.lineSize.setWidth 64).toNat = 2 ^ j := (toNat_step _).trans hline
  have hpos : 0 < (s.info.lineSize.setWidth 64).toNat := hstep ▸ Nat.two_pow_pos j
  have hdvd : (s.info.lineSize.setWidth 64).toNat ∣ 2 ^ 64 := hstep ▸ Nat.pow_dvd_pow 2 (by omega)
  unfold cacheCoherencyFlushRange
  rw [exists_strideLoop_iff hpos hdvd, hstep, toNat_firstLine hline, BitVec.toNat_add_of_lt hwrap, ← hpow, ← hfit]
  rfl

theorem linesOf_returned (hline : s.info.lineSize.toNat = 2 ^ j) (hsize : size ≠ 0)
    (hfits : start.toNat + size.toNat + 2 ^ j ≤ 2 ^ 64) :
    linesOf (2 ^ j) ((List.range (turns start size j)).map fun k =>
      firstLine start s.info.lineSize + BitVec.ofNat 64 k * s.info.lineSize.setWidth 64) =
        (List.range (turns start size j)).map fun k => firstBlock start j + k := by
  have hlast := (strides_bounds (Nat.two_pow_pos j) (firstBlock_lt start j hsize)).2
  have hstep : (s.info.lineSize.setWidth 64).toNat = 2 ^ j := (toNat_step _).trans hline
  have hfirst : (firstLine start s.info.lineSize).toNat = firstBlock start j * 2 ^ j := toNat_firstLine hline
  rw [← hstep] at hfirst ⊢
  refine linesOf_run (hstep ▸ Nat.two_pow_pos j) hfirst ?_
  rw [hfirst, hstep]
  exact hlast.trans_le hfits

theorem firstBlock_eq_iff (hj : j < 32) : firstBlock start j = start.toNat / 2 ^ j ↔ start.toNat < 2 ^ 32 := by
  constructor
  · intro h
    have hblock : start.toNat / 2 ^ j < 2 ^ (32 - j) := by
      rw [← h, firstBlock, Nat.div_lt_iff_lt_mul (Nat.two_pow_pos j), ← Nat.pow_add, Nat.sub_add_cancel hj.le]
      exact Nat.mod_lt _ (Nat.two_pow_pos 32)
    rwa [Nat.div_lt_iff_lt_mul (Nat.two_pow_pos j), ← Nat.pow_add, Nat.sub_add_cancel hj.le] at hblock
  · intro h
    rw [firstBlock, Nat.mod_eq_of_lt h]

/-- The lines from the first of the loop to the end are those of the range. -/
theorem forall_line_iff (hj : j < 32) (hsize : size ≠ 0) :
    (∀ line, firstBlock start j ≤ line ∧ line * 2 ^ j < start.toNat + size.toNat ↔
      ∃ x, start.toNat ≤ x ∧ x < start.toNat + size.toNat ∧ x / 2 ^ j = line) ↔ start.toNat < 2 ^ 32 := by
  have hrange : start.toNat < start.toNat + size.toNat :=
    Nat.lt_add_of_pos_right (toNat_pos hsize)
  simp only [exists_meets_iff (Nat.two_pow_pos j) hrange]
  rw [← firstBlock_eq_iff hj]
  constructor
  · intro h
    have hfirst := (h (firstBlock start j)).mp ⟨le_rfl, firstBlock_lt start j hsize⟩
    have hstart := (h (start.toNat / 2 ^ j)).mpr ⟨le_rfl, (Nat.div_mul_le_self _ _).trans_lt hrange⟩
    exact le_antisymm hstart.1 hfirst.1
  · intro h line
    rw [h]

theorem mem_turns (line : ℕ) : line ∈ (List.range (turns start size j)).map (fun k => firstBlock start j + k) ↔
    firstBlock start j ≤ line ∧ line * 2 ^ j < start.toNat + size.toNat := by
  simp only [List.mem_map, List.mem_range]
  exact exists_turn_iff (Nat.two_pow_pos j)

theorem FlushesLines.bounds (h : FlushesLines ticks s start size) (hline : s.info.lineSize.toNat = 2 ^ j)
    (hsize : size ≠ 0) (hwrap : start.toNat + size.toNat < 2 ^ 64) :
    start.toNat < 2 ^ 32 ∧ start.toNat + size.toNat + 2 ^ j ≤ 2 ^ 64 := by
  obtain ⟨fuel, t, flushes, hrun, hflushed, -, hmem⟩ := h
  obtain ⟨hfits, rfl⟩ := (returns_iff hline hsize hwrap).mp ⟨fuel, hrun⟩
  rw [flushed_strided, List.append_cancel_left_eq] at hflushed
  rw [← hflushed, hline] at hmem
  refine ⟨(forall_line_iff (lt_of_line hline) hsize).mp fun line => ?_, hfits⟩
  rw [← hmem, linesOf_returned hline hsize hfits, mem_turns]

/-- **When a call flushes the lines of its range**: the start is below 2^32, and the end is a line below 2^64. -/
theorem flushes_lines_iff (ticks : ℕ → U64) (s : State) (start size : U64) (j : ℕ)
    (hline : s.info.lineSize.toNat = 2 ^ j) (hsize : size ≠ 0) (hwrap : start.toNat + size.toNat < 2 ^ 64) :
    FlushesLines ticks s start size ↔ start.toNat < 2 ^ 32 ∧ start.toNat + size.toNat + 2 ^ j ≤ 2 ^ 64 := by
  refine ⟨fun h => h.bounds hline hsize hwrap, ?_⟩
  rintro ⟨hlow, hfits⟩
  obtain ⟨fuel, hrun⟩ := (returns_iff hline hsize hwrap).mpr ⟨hfits, rfl⟩
  refine ⟨fuel, _, _, hrun, flushed_strided, ?_, fun line => ?_⟩
  · rw [hline, linesOf_returned hline hsize hfits]
    exact List.nodup_range.map fun _ _ h => Nat.add_left_cancel h
  · rw [hline, linesOf_returned hline hsize hfits, mem_turns]
    exact (forall_line_iff (lt_of_line hline) hsize).mpr hlow line

/-- A processor that reports no caches: its lines have 64 bytes. -/
def sample : State := ⟨⟨0, fun _ => 0, 0, 0, 0⟩, []⟩

theorem flushes_lines_iff_hundred : FlushesLines (fun _ => 0) sample 100 100 :=
  (flushes_lines_iff (fun _ => 0) sample 100 100 6 rfl (by decide) (by decide)).mpr (by decide)

/-- For the byte at 2^32 the loop starts at 0. For the bytes from 0 to 2^64 - 2 it never ends. -/
theorem not_flushes_lines : ¬FlushesLines (fun _ => 0) sample 0x100000000 1 ∧
    ¬FlushesLines (fun _ => 0) sample 0 0xFFFFFFFFFFFFFFFF :=
  ⟨fun h => absurd (h.bounds (j := 6) rfl (by decide) (by decide)).1 (by decide),
    fun h => absurd (h.bounds (j := 6) rfl (by decide) (by decide)).2 (by decide)⟩

end BloodKernel.CacheCoherency
