import BloodKernel.Kernel.Types

set_option autoImplicit false

/-!
# The serial flash

`arch/rp2040/flash_qspi.c` drives a W25Q16 through the serial interface. The bytes clocked between selecting and
releasing the chip form one command, which is executed when the chip is released. The waits for the serial
interface itself and its modes are left out.

* `Flash`: the memory of the chip, its write enable latch and the bytes clocked so far; `execute`: a command.
* `flashRead`, `flashSectorErase`, `flashPageProgram`, `flashWrite`: the functions.
* **`flash_ok_iff`**: a write or an erase does what it should exactly when its waits end and there is nothing to
  change: the write enable byte is in one command with what follows, so nothing is executed.
-/

namespace BloodKernel.FlashQspi

/-! ## The chip -/

/-- The memory, the write enable latch, whether the chip is selected, and the bytes clocked since then. `waits`
counts the calls of `flash_wait_write_done`. -/
structure Flash where
  mem : ℕ → U8
  writeEnabled : Bool
  selected : Bool
  frame : List U8
  waits : ℕ

def chipSize : ℕ := 0x200000

def commandAddr (a₂ a₁ a₀ : U8) : ℕ := (a₂.toNat * 65536 + a₁.toNat * 256 + a₀.toNat) % chipSize

/-- Programming clears bits. The addresses stay in one page. -/
def programPage (a : ℕ) : ℕ → List U8 → (ℕ → U8) → ℕ → U8
  | _, [], mem => mem
  | i, b :: bs, mem =>
      let cell := a / 256 * 256 + (a + i) % 256
      programPage a (i + 1) bs (Function.update mem cell (mem cell &&& b))

def eraseSector (a : ℕ) (mem : ℕ → U8) : ℕ → U8 := fun x => if x / 4096 = a / 4096 then 0xFF else mem x

/-- The command in the frame: write enable alone, a program or a sector erase when enabled. Others do not change
the memory. -/
def execute (f : Flash) : Flash :=
  match f.frame with
  | [0x06] => { f with writeEnabled := true }
  | 0x02 :: a₂ :: a₁ :: a₀ :: b :: bs =>
      if f.writeEnabled then
        { f with mem := programPage (commandAddr a₂ a₁ a₀) 0 (b :: bs) f.mem, writeEnabled := false }
      else f
  | [0x20, a₂, a₁, a₀] =>
      if f.writeEnabled then
        { f with mem := eraseSector (commandAddr a₂ a₁ a₀) f.mem, writeEnabled := false }
      else f
  | _ => f

/-! ## The driver -/

/-- A byte written to `DR0`. -/
def dr0 (f : Flash) (v : U8) : Flash := if f.selected then { f with frame := f.frame ++ [v] } else f

/-- `flash_cs_force`: selecting the chip starts a command, releasing it executes the command. -/
def flashCsForce (f : Flash) (enable : Bool) : Flash :=
  if enable then { f with selected := true, frame := if f.selected then f.frame else [] }
  else if f.selected then { execute f with selected := false, frame := [] }
  else f

def flashReadStatus (f : Flash) : Flash := dr0 (dr0 f 0x05) 0

def flashWriteEnable (f : Flash) : Flash := dr0 f 0x06

section Waits

-- `answers k n`: what is read as the status by poll `n` of wait `k`
variable (answers : ℕ → ℕ → U8)

/-- The loop of `flash_wait_write_done`, from poll `n` on. -/
def pollLoop : ℕ → ℕ → Flash → Option Flash
  | 0, _, _ => none
  | fuel + 1, n, f =>
      if answers f.waits n &&& 1 ≠ 0 then pollLoop fuel (n + 1) (flashReadStatus f) else some (flashReadStatus f)

def flashWaitWriteDone (fuel : ℕ) (f : Flash) : Option Flash :=
  (pollLoop answers fuel 0 f).map fun f => { f with waits := f.waits + 1 }

/-- The bytes of an address in a command. -/
def addrBytes (addr : U32) : List U8 := [(addr >>> 16).setWidth 8, (addr >>> 8).setWidth 8, addr.setWidth 8]

/-- A command with write enable, and the wait after it. -/
def command (fuel : ℕ) (f : Flash) (bytes : List U8) : Option Flash :=
  let f := flashWriteEnable (flashCsForce f true)
  flashWaitWriteDone answers fuel (flashCsForce (bytes.foldl dr0 f) false)

def flashSectorErase (fuel : ℕ) (f : Flash) (addr : U32) : Option Flash :=
  command answers fuel f (0x20 :: addrBytes addr)

def flashPageProgram (fuel : ℕ) (f : Flash) (addr : U32) (buf : List U8) : Option Flash :=
  command answers fuel f (0x02 :: addrBytes addr ++ buf.take 256)

/-- `(len < page_remaining) ? len : page_remaining`. -/
def chunkSize (addr : U32) (len : ℕ) : ℕ := min len (256 - (addr &&& 0xFF).toNat)

theorem chunkSize_pos (addr : U32) {len : ℕ} (h : 0 < len) : 0 < chunkSize addr len := by
  have hmask : (0xFF : U32).toNat = 2 ^ 8 - 1 := rfl
  unfold chunkSize
  rw [BitVec.toNat_and, hmask, Nat.and_two_pow_sub_one_eq_mod]
  omega

def flashWrite (fuel : ℕ) (f : Flash) (addr : U32) (buf : List U8) : Option Flash :=
  if _h : 0 < buf.length then
    let n := chunkSize addr buf.length
    (flashPageProgram answers fuel f addr (buf.take n)).bind fun f =>
      flashWrite fuel f (addr + BitVec.ofNat 32 n) (buf.drop n)
  else some f
  termination_by buf.length
  decreasing_by
    have := chunkSize_pos addr _h
    rw [List.length_drop]
    omega

end Waits

/-- The memory as `flash_read` sees it. -/
def Flash.xip (f : Flash) (addr : U32) : U8 := f.mem (addr.toNat % chipSize)

def flashRead (xip : U32 → U8) (addr : U32) (len : ℕ) : List U8 :=
  (List.range len).map fun i => xip (addr + BitVec.ofNat 32 i)

/-! ## Commands are ignored -/

variable {answers : ℕ → ℕ → U8} {f f' : Flash} {addr : U32} {buf bytes : List U8} {fuel k n : ℕ} {v : U8}

theorem foldl_dr0 (h : f.selected = true) (bytes : List U8) :
    bytes.foldl dr0 f = { f with frame := f.frame ++ bytes } := by
  induction bytes generalizing f with
  | nil =>
      rw [List.append_nil]
      rfl
  | cons b bytes ih =>
      have hdr0 : dr0 f b = { f with frame := f.frame ++ [b] } := if_pos h
      have hrest := ih (f := { f with frame := f.frame ++ [b] }) h
      rw [List.foldl_cons, hdr0, hrest, List.append_assoc]
      rfl

/-- From `f` to `f'` the memory stays as it is, in `k` waits. -/
structure Unchanged (f f' : Flash) (k : ℕ) : Prop where
  mem : f'.mem = f.mem
  selected : f'.selected = false
  waits : f'.waits = f.waits + k

theorem Unchanged.trans {f'' : Flash} {j : ℕ} (h : Unchanged f f' j) (h' : Unchanged f' f'' k) :
    Unchanged f f'' (j + k) :=
  ⟨h'.mem.trans h.mem, h'.selected, by rw [h'.waits, h.waits, Nat.add_assoc]⟩

/-- **A command that begins with write enable** and goes on is not executed. -/
theorem execute_of_enable (h : f.frame = 0x06 :: v :: bytes) : execute f = f := by
  unfold execute
  rw [h]
  rfl

/-- The bytes between selecting and releasing the chip are executed as one command. -/
theorem execute_frame (hs : f.selected = false) (bytes : List U8) :
    flashCsForce (bytes.foldl dr0 (flashCsForce f true)) false =
      { execute { f with selected := true, frame := bytes } with selected := false, frame := [] } := by
  have hselect : flashCsForce f true = { f with selected := true, frame := [] } := by
    unfold flashCsForce
    rw [if_pos rfl, hs]
    rfl
  rw [hselect, foldl_dr0 rfl]
  rfl

theorem unchanged_command (hs : f.selected = false) (h : bytes ≠ []) :
    Unchanged f (flashCsForce (bytes.foldl dr0 (flashWriteEnable (flashCsForce f true))) false) 0 := by
  obtain ⟨v, bytes, rfl⟩ := List.exists_cons_of_ne_nil h
  have hexec : execute { f with selected := true, frame := 0x06 :: v :: bytes } =
      { f with selected := true, frame := 0x06 :: v :: bytes } := execute_of_enable rfl
  show Unchanged f (flashCsForce ((0x06 :: v :: bytes).foldl dr0 (flashCsForce f true)) false) 0
  rw [execute_frame hs, hexec]
  exact ⟨rfl, rfl, rfl⟩

/-- The status is read while the chip is not selected. -/
theorem readStatus_of_released (hs : f.selected = false) : flashReadStatus f = f := by
  have hdr0 : ∀ v, dr0 f v = f := fun v => if_neg (by rw [hs]; decide)
  rw [flashReadStatus, hdr0, hdr0]

/-- Some poll of a wait finds the chip ready. -/
def Ends (answers : ℕ → ℕ → U8) (k : ℕ) : Prop := ∃ n, answers k n &&& 1 = 0

theorem pollLoop_eq_some (hs : f.selected = false) :
    pollLoop answers fuel n f = some f' ↔ f' = f ∧ ∃ m < fuel, answers f.waits (n + m) &&& 1 = 0 := by
  induction fuel generalizing n with
  | zero => exact iff_of_false (fun h => by cases h) fun ⟨_, m, hm, _⟩ => Nat.not_lt_zero m hm
  | succ fuel ih =>
      rw [pollLoop, readStatus_of_released hs]
      by_cases hready : answers f.waits n &&& 1 = 0
      · rw [if_neg (not_not.mpr hready), Option.some_inj, eq_comm]
        exact (and_iff_left ⟨0, Nat.succ_pos fuel, hready⟩).symm
      · rw [if_pos hready, ih]
        refine and_congr_right fun _ => ⟨fun ⟨m, hm, h⟩ => ⟨m + 1, by omega, ?_⟩, fun ⟨m, hm, h⟩ => ?_⟩
        · rwa [Nat.add_comm m, ← Nat.add_assoc]
        · cases m with
          | zero => exact absurd h hready
          | succ m => exact ⟨m, by omega, by rwa [Nat.add_assoc, Nat.add_comm 1]⟩

/-- **A command** returns exactly when its wait ends, and changes nothing. -/
theorem command_spec (hs : f.selected = false) (h : bytes ≠ []) :
    (∀ fuel f', command answers fuel f bytes = some f' → Unchanged f f' 1 ∧ Ends answers f.waits) ∧
      (Ends answers f.waits → ∃ f' fuel₀, ∀ fuel ≥ fuel₀, command answers fuel f bytes = some f') := by
  have hunchanged := unchanged_command hs h
  have hcommand : ∀ fuel, command answers fuel f bytes = flashWaitWriteDone answers fuel
      (flashCsForce (bytes.foldl dr0 (flashWriteEnable (flashCsForce f true))) false) := fun _ => rfl
  simp only [hcommand]
  generalize flashCsForce (bytes.foldl dr0 (flashWriteEnable (flashCsForce f true))) false = g at hunchanged ⊢
  obtain ⟨hmem, hselected, hwaits⟩ := hunchanged
  refine ⟨fun fuel f' hf => ?_, fun ⟨n, hn⟩ => ⟨{ g with waits := g.waits + 1 }, n + 1, fun fuel hfuel => ?_⟩⟩
  · obtain ⟨g', hg, rfl⟩ := Option.map_eq_some_iff.mp hf
    obtain ⟨rfl, m, -, hm⟩ := (pollLoop_eq_some hselected).mp hg
    rw [hwaits, Nat.zero_add] at hm
    exact ⟨⟨hmem, hselected, congrArg (· + 1) hwaits⟩, m, hm⟩
  · have hpoll : pollLoop answers fuel 0 g = some g :=
      (pollLoop_eq_some hselected).mpr ⟨rfl, n, hfuel, by rwa [hwaits, Nat.zero_add, Nat.add_zero]⟩
    rw [flashWaitWriteDone, hpoll]
    rfl

theorem toNat_and_ff (addr : U32) : (addr &&& 0xFF).toNat = addr.toNat % 256 := by
  have hmask : (0xFF : U32).toNat = 2 ^ 8 - 1 := rfl
  rw [BitVec.toNat_and, hmask, Nat.and_two_pow_sub_one_eq_mod]

/-- The number of pages that a range touches. -/
def pages (addr : U32) (len : ℕ) : ℕ := if len = 0 then 0 else (addr.toNat % 256 + len + 255) / 256

theorem pages_eq (addr : U32) (h : 0 < n) :
    pages addr n = 1 + pages (addr + BitVec.ofNat 32 (chunkSize addr n)) (n - chunkSize addr n) := by
  have hchunk : chunkSize addr n = min n (256 - addr.toNat % 256) := by rw [chunkSize, toNat_and_ff]
  have haddr : (addr + BitVec.ofNat 32 (chunkSize addr n)).toNat % 256 = (addr.toNat + chunkSize addr n) % 256 := by
    rw [BitVec.toNat_add, BitVec.toNat_ofNat]
    omega
  unfold pages
  rw [if_neg (Nat.pos_iff_ne_zero.mp h), haddr, hchunk]
  split_ifs with hrest
  · omega
  · omega

theorem flashWrite_cons (h : 0 < buf.length) (fuel : ℕ) (f : Flash) (addr : U32) :
    flashWrite answers fuel f addr buf =
      (flashPageProgram answers fuel f addr (buf.take (chunkSize addr buf.length))).bind fun g =>
        flashWrite answers fuel g (addr + BitVec.ofNat 32 (chunkSize addr buf.length))
          (buf.drop (chunkSize addr buf.length)) := by
  rw [flashWrite, dif_pos h]

/-- **A write** returns exactly when the waits after its pages end, and changes nothing. -/
theorem flashWrite_spec (hs : f.selected = false) :
    (∀ fuel f', flashWrite answers fuel f addr buf = some f' → Unchanged f f' (pages addr buf.length) ∧
      ∀ k < pages addr buf.length, Ends answers (f.waits + k)) ∧
    ((∀ k < pages addr buf.length, Ends answers (f.waits + k)) →
      ∃ f' fuel₀, ∀ fuel ≥ fuel₀, flashWrite answers fuel f addr buf = some f') := by
  induction hlen : buf.length using Nat.strong_induction_on generalizing f addr buf with
  | _ len ih =>
      subst hlen
      by_cases hpos : 0 < buf.length
      · -- one page, then the induction hypothesis for the rest
        have hchunk := chunkSize_pos addr hpos
        have hdrop : (buf.drop (chunkSize addr buf.length)).length = buf.length - chunkSize addr buf.length :=
          List.length_drop
        have hprogram : (∀ fuel g, flashPageProgram answers fuel f addr (buf.take _) = some g →
            Unchanged f g 1 ∧ Ends answers f.waits) ∧ (Ends answers f.waits →
              ∃ g fuel₀, ∀ fuel ≥ fuel₀, flashPageProgram answers fuel f addr (buf.take _) = some g) :=
          command_spec hs (List.cons_ne_nil 0x02
            (addrBytes addr ++ (buf.take (chunkSize addr buf.length)).take 256))
        simp only [flashWrite_cons hpos, pages_eq addr hpos, ← hdrop]
        generalize addr + BitVec.ofNat 32 (chunkSize addr buf.length) = addr' at ih ⊢
        refine ⟨fun fuel f' hf => ?_, fun hends => ?_⟩
        · obtain ⟨g, hg, hrest⟩ := Option.bind_eq_some_iff.mp hf
          obtain ⟨hfirst, hend⟩ := hprogram.1 fuel g hg
          obtain ⟨hothers, hends⟩ := (ih _ (by omega) hfirst.selected rfl).1 fuel f' hrest
          refine ⟨hfirst.trans hothers, fun k hk => ?_⟩
          cases k with
          | zero => exact hend
          | succ k =>
              have := hends k (by omega)
              rwa [hfirst.waits, Nat.add_assoc, Nat.add_comm 1] at this
        · obtain ⟨g, fuel₁, hg⟩ := hprogram.2 (hends 0 (by omega))
          obtain ⟨hfirst, -⟩ := hprogram.1 fuel₁ g (hg fuel₁ le_rfl)
          have hrest : ∀ k < pages addr' (buf.drop (chunkSize addr buf.length)).length,
              Ends answers (g.waits + k) := fun k hk => by
            rw [hfirst.waits, Nat.add_assoc]
            exact hends (1 + k) (by omega)
          obtain ⟨f', fuel₂, hf⟩ := (ih _ (by omega) hfirst.selected rfl).2 hrest
          refine ⟨f', max fuel₁ fuel₂, fun fuel hfuel => ?_⟩
          rw [hg fuel ((Nat.le_max_left _ _).trans hfuel)]
          exact hf fuel ((Nat.le_max_right _ _).trans hfuel)
      · obtain rfl : buf = [] := List.length_eq_zero_iff.mp (Nat.eq_zero_of_not_pos hpos)
        have hnil : ∀ fuel, flashWrite answers fuel f addr [] = some f := fun fuel => by
          rw [flashWrite, dif_neg hpos]
        refine ⟨fun fuel f' hf => ⟨?_, fun k hk => absurd hk (Nat.not_lt_zero k)⟩,
          fun _ => ⟨f, 0, fun fuel _ => hnil fuel⟩⟩
        obtain rfl := Option.some.inj ((hnil fuel).symm.trans hf)
        exact ⟨rfl, hs, rfl⟩

/-! ## Writing and erasing -/

/-- `flash_write` returns, the range then reads as the buffer, and no other byte has changed. -/
def Writes (answers : ℕ → ℕ → U8) (f : Flash) (addr : U32) (buf : List U8) : Prop :=
  ∃ fuel f', flashWrite answers fuel f addr buf = some f' ∧ flashRead f'.xip addr buf.length = buf ∧
    ∀ x < chipSize, (x < addr.toNat ∨ addr.toNat + buf.length ≤ x) → f'.mem x = f.mem x

/-- `flash_sector_erase` returns, and the sector of the address is erased, no other byte has changed. -/
def Erases (answers : ℕ → ℕ → U8) (f : Flash) (addr : U32) : Prop :=
  ∃ fuel f', flashSectorErase answers fuel f addr = some f' ∧
    ∀ x < chipSize, f'.mem x = if x / 4096 = addr.toNat / 4096 then 0xFF else f.mem x

/-- A range of erased bytes. -/
def Erased (f : Flash) (a len : ℕ) : Prop := ∀ i < len, f.mem (a + i) = 0xFF

theorem xip_add (f : Flash) {i : ℕ} (h : addr.toNat + i < chipSize) :
    f.xip (addr + BitVec.ofNat 32 i) = f.mem (addr.toNat + i) := by
  have hsize : chipSize = 0x200000 := rfl
  have haddr : (addr + BitVec.ofNat 32 i).toNat = addr.toNat + i := by
    rw [BitVec.toNat_add, BitVec.toNat_ofNat]
    omega
  rw [Flash.xip, haddr, Nat.mod_eq_of_lt h]

theorem flashRead_of_erased (hfit : addr.toNat + n ≤ chipSize) (h : Erased f addr.toNat n) :
    flashRead f.xip addr n = List.replicate n 0xFF := by
  refine List.eq_replicate_iff.mpr ⟨?_, fun b hb => ?_⟩
  · rw [flashRead, List.length_map, List.length_range]
  · obtain ⟨i, hi, rfl⟩ := List.mem_map.mp hb
    have hi' := List.mem_range.mp hi
    rw [xip_add f (by omega), h i hi']

theorem writes_iff (hs : f.selected = false) (hfit : addr.toNat + buf.length ≤ chipSize)
    (herased : Erased f addr.toNat buf.length) : Writes answers f addr buf ↔
      (∀ k < pages addr buf.length, Ends answers (f.waits + k)) ∧ ∀ b ∈ buf, b = 0xFF := by
  have hspec := @flashWrite_spec answers f addr buf hs
  have hread : ∀ f', Unchanged f f' (pages addr buf.length) →
      flashRead f'.xip addr buf.length = List.replicate buf.length 0xFF := fun f' h =>
    flashRead_of_erased hfit fun i hi => by rw [h.mem, herased i hi]
  constructor
  · rintro ⟨fuel, f', hf, hbuf, -⟩
    obtain ⟨hunchanged, hends⟩ := hspec.1 fuel f' hf
    rw [hread f' hunchanged] at hbuf
    refine ⟨hends, fun b hb => ?_⟩
    rw [← hbuf] at hb
    exact List.eq_of_mem_replicate hb
  · rintro ⟨hends, hbuf⟩
    obtain ⟨f', fuel, hf⟩ := hspec.2 hends
    have hunchanged := (hspec.1 fuel f' (hf fuel le_rfl)).1
    refine ⟨fuel, f', hf fuel le_rfl, ?_, fun x _ _ => by rw [hunchanged.mem]⟩
    rw [hread f' hunchanged]
    exact (List.eq_replicate_iff.mpr ⟨rfl, hbuf⟩).symm

theorem erases_iff (hs : f.selected = false) (haddr : addr.toNat < chipSize) : Erases answers f addr ↔
    Ends answers f.waits ∧ Erased f (addr.toNat / 4096 * 4096) 4096 := by
  have hspec := @command_spec answers f _ hs (List.cons_ne_nil 0x20 (addrBytes addr))
  have hsize : chipSize = 0x200000 := rfl
  constructor
  · rintro ⟨fuel, f', hf, hmem⟩
    obtain ⟨hunchanged, hend⟩ := hspec.1 fuel f' hf
    refine ⟨hend, fun i hi => ?_⟩
    have h := hmem (addr.toNat / 4096 * 4096 + i) (by omega)
    rwa [hunchanged.mem, if_pos (by omega)] at h
  · rintro ⟨hend, herased⟩
    obtain ⟨f', fuel, hf⟩ := hspec.2 hend
    refine ⟨fuel, f', hf fuel le_rfl, fun x _ => ?_⟩
    rw [(hspec.1 fuel f' (hf fuel le_rfl)).1.mem]
    split_ifs with hx
    · have h := herased (x % 4096) (by omega)
      rwa [← hx, Nat.div_add_mod'] at h
    · rfl

/-- **Exactness.** With the chip released, a write to an erased range leaves the buffer there and all else
alone exactly when its waits end and the buffer is all ones; a sector erase sets the sector and nothing else
exactly when its wait ends and the sector is erased already. -/
theorem flash_ok_iff (hs : f.selected = false) (haddr : addr.toNat < chipSize) :
    (∀ buf : List U8, addr.toNat + buf.length ≤ chipSize → Erased f addr.toNat buf.length →
      (Writes answers f addr buf ↔
        (∀ k < pages addr buf.length, Ends answers (f.waits + k)) ∧ ∀ b ∈ buf, b = 0xFF)) ∧
    (Erases answers f addr ↔ Ends answers f.waits ∧ Erased f (addr.toNat / 4096 * 4096) 4096) :=
  ⟨fun _ hfit herased => writes_iff hs hfit herased, erases_iff hs haddr⟩

/-- A chip with one value everywhere, released. -/
def filled (v : U8) : Flash := ⟨fun _ => v, false, false, [], 0⟩

/-- Polls that find the chip ready at once. -/
def ready (_ _ : ℕ) : U8 := 0

/-- On an erased chip, ones are written and a sector is erased. -/
theorem flash_ok_ones : Writes ready (filled 0xFF) 0 [0xFF] ∧ Erases ready (filled 0xFF) 0 := by
  have h := @flash_ok_iff ready (filled 0xFF) 0 rfl (by decide)
  have hend : ∀ k, Ends ready k := fun _ => ⟨0, show (0 : U8) &&& 1 = 0 by decide⟩
  refine ⟨(h.1 [0xFF] (by decide) fun _ _ => rfl).mpr ⟨fun k _ => hend _, fun b hb => ?_⟩,
    h.2.mpr ⟨hend _, fun _ _ => rfl⟩⟩
  exact List.mem_singleton.mp hb

/-- A zero is not written, and a sector of zeros is not erased. -/
theorem zeros_stay : (Erased (filled 0xFF) 0 1 ∧ ¬ Writes ready (filled 0xFF) 0 [0]) ∧
    ¬ Erases ready (filled 0) 0 := by
  refine ⟨⟨fun _ _ => rfl, fun h => ?_⟩, fun h => ?_⟩
  · have hones := ((writes_iff rfl (by decide) fun _ _ => rfl).mp h).2 0 (List.mem_singleton.mpr rfl)
    exact absurd hones (by decide)
  · have hzero : (0 : U8) = 0xFF := ((erases_iff rfl (by decide)).mp h).2 0 (by decide)
    exact absurd hzero (by decide)

end BloodKernel.FlashQspi
