import BloodKernel.Kernel.Types
import BloodKernel.Lib.Flat
import BloodKernel.Lib.Run

set_option autoImplicit false

/-!
# The instruction memory of a PIO block

`pio_load_program` of `arch/rp2040/pio_driver.c` puts a program into the first words of the memory that are all
zero. It does not try the last position, and when it finds none it takes position 0.

* `Blocks`: the two instruction memories; `pioLoadProgram`: a load; `search`: the position it takes.
* `History`: the memories with the programs loaded so far; `Fits`: there is a range of slots for one more.
* **`loads_right_iff`**: along a run every program that fits gets its own slots and no other is written, exactly
  when the first zero words are such a range.
-/

namespace BloodKernel.Pio

open Lib

/-! ## The loader -/

/-- `INSTR_MEM` of the two blocks, 32 words each. -/
structure Blocks where
  pio0 : ℕ → U32
  pio1 : ℕ → U32

/-- `(pio_num == 0) ? PIO0 : PIO1`. -/
def Blocks.pio (b : Blocks) (pioNum : U8) : ℕ → U32 := if pioNum = 0 then b.pio0 else b.pio1

def Blocks.setPio (b : Blocks) (pioNum : U8) (m : ℕ → U32) : Blocks :=
  if pioNum = 0 then { b with pio0 := m } else { b with pio1 := m }

/-- A program and its length. -/
structure Program where
  words : List U16
  pos : 1 ≤ words.length
  le : words.length ≤ 32

def Program.len (prog : Program) : ℕ := prog.words.length

/-- The instructions as they are written to the memory. -/
def Program.code (prog : Program) : List U32 := prog.words.map fun w => w.setWidth 32

def blinkProg : Program := ⟨[0xE081, 0xE000], by decide, by decide⟩

def spiProg : Program := ⟨[0x6001, 0x5001, 0x0000], by decide, by decide⟩

/-- The words from `i` on are zero. -/
def isFree (m : ℕ → U32) (i len : ℕ) : Bool := (List.range len).all fun j => decide (m (i + j) = 0)

/-- The offset that the loop finds, or the 0 it starts with. -/
def search (m : ℕ → U32) (len : ℕ) : ℕ := ((List.range (32 - len)).find? fun i => isFree m i len).getD 0

def pioLoadProgram (b : Blocks) (pioNum : U8) (prog : Program) : ℕ × Blocks :=
  let m := b.pio pioNum
  let offset := search m prog.len
  (offset, b.setPio pioNum (writeAt m offset prog.code))

/-! ## What should be loaded -/

/-- The slots from `i` on are inside the memory, and no program has been loaded there. -/
def Clear (loaded : List (ℕ × Program)) (i len : ℕ) : Prop :=
  i + len ≤ 32 ∧ ∀ q ∈ loaded, Apart i len q.1 q.2.len

instance decidableClear (loaded : List (ℕ × Program)) (i len : ℕ) : Decidable (Clear loaded i len) :=
  inferInstanceAs (Decidable (_ ∧ _))

/-- There is room for a program. -/
def Fits (loaded : List (ℕ × Program)) (len : ℕ) : Prop := ∃ i < 33, Clear loaded i len

instance decidableFits (loaded : List (ℕ × Program)) (len : ℕ) : Decidable (Fits loaded len) :=
  inferInstanceAs (Decidable (∃ i < 33, _))

/-- The memories, and the programs loaded so far with the offsets returned. -/
structure History where
  blocks : Blocks
  loaded : List (ℕ × Program)

section Load

-- the block of all calls
variable (pioNum : U8)

/-- A load. A program for which there was no room does not count as loaded. -/
def step (h : History) (prog : Program) : ℕ × History :=
  let r := pioLoadProgram h.blocks pioNum prog
  (r.1, ⟨r.2, if Fits h.loaded prog.len then (r.1, prog) :: h.loaded else h.loaded⟩)

/-- The loaded programs are where they were put, inside the memory and apart from each other. -/
structure Kept (h : History) : Prop where
  inside : ∀ q ∈ h.loaded, q.1 + q.2.len ≤ 32
  stored : ∀ q ∈ h.loaded, readAt (h.blocks.pio pioNum) q.1 q.2.len = q.2.code
  apart : h.loaded.Pairwise fun p q => Apart p.1 p.2.len q.1 q.2.len

/-- After the call all programs are kept, and one that does not fit has not been written. -/
def Right (h : History) (e : Program × ℕ) : Prop :=
  Kept pioNum (step pioNum h e.1).2 ∧ (¬Fits h.loaded e.1.len → (step pioNum h e.1).2.blocks = h.blocks)

/-- If there is room, the first zero words that the search can find are free slots. If there is none, the program
is written over itself: over zero words, if there are any, or else over the first words of the memory. -/
def Placeable (h : History) (e : Program × ℕ) : Prop :=
  let m := h.blocks.pio pioNum
  let len := e.1.len
  let zeros := ∃ i, i + len < 32 ∧ isFree m i len = true
  (Fits h.loaded len →
      ∃ i, Clear h.loaded i len ∧ (i + len < 32 ∨ len = 32) ∧ ∀ j < i, isFree m j len = false) ∧
    (¬Fits h.loaded len → zeros ∧ (∀ w ∈ e.1.words, w = 0) ∨ ¬zeros ∧ readAt m 0 len = e.1.code)

/-- Nothing has been loaded, and the memory of the block is zero. -/
structure Blank (h : History) : Prop where
  loaded : h.loaded = []
  zero : ∀ k < 32, h.blocks.pio pioNum k = 0

/-- Slots of no program are zero. -/
def ZeroElsewhere (h : History) : Prop :=
  ∀ k < 32, (∀ q ∈ h.loaded, ¬(q.1 ≤ k ∧ k < q.1 + q.2.len)) → h.blocks.pio pioNum k = 0

end Load

variable {pioNum : U8} {h t : History} {b : Blocks} {m : ℕ → U32} {prog : Program} {i len : ℕ}
  {loaded : List (ℕ × Program)}

@[simp] theorem pio_setPio (b : Blocks) (pioNum : U8) (m : ℕ → U32) : (b.setPio pioNum m).pio pioNum = m := by
  unfold Blocks.pio Blocks.setPio
  split_ifs <;> rfl

theorem setPio_eq_self_iff : b.setPio pioNum m = b ↔ m = b.pio pioNum := by
  constructor
  · intro h
    rw [← pio_setPio b pioNum m, h]
  · rintro rfl
    unfold Blocks.setPio Blocks.pio
    split_ifs <;> rfl

@[simp] theorem length_code (prog : Program) : prog.code.length = prog.len := List.length_map _

theorem isFree_iff : isFree m i len = true ↔ ∀ j < len, m (i + j) = 0 := by
  unfold isFree
  simp only [List.all_eq_true, List.mem_range, decide_eq_true_iff]

/-- The search finds the first zero words, if it does not have to go to the end of the memory. -/
theorem search_eq (hi : i + len < 32) (hfree : isFree m i len = true) (hfirst : ∀ j < i, isFree m j len = false) :
    search m len = i := by
  have hfind : (List.range (32 - len)).find? (fun i => isFree m i len) = some i := by
    refine List.find?_range_eq_some.mpr ⟨hfree, List.mem_range.mpr (by omega), fun j hj => ?_⟩
    rw [hfirst j hj]
    rfl
  rw [search, hfind, Option.getD_some]

theorem search_cases (m : ℕ → U32) (len : ℕ) :
    (search m len + len < 32 ∧ isFree m (search m len) len = true ∧ ∀ j < search m len, isFree m j len = false) ∨
      (search m len = 0 ∧ ¬∃ i, i + len < 32 ∧ isFree m i len = true) := by
  unfold search
  cases hfind : (List.range (32 - len)).find? fun i => isFree m i len with
  | some i =>
      obtain ⟨hfree, hmem, hfirst⟩ := List.find?_range_eq_some.mp hfind
      have hi := List.mem_range.mp hmem
      exact .inl ⟨by rw [Option.getD_some]; omega, hfree, fun j hj => by simpa using hfirst j hj⟩
  | none =>
      refine .inr ⟨rfl, fun ⟨i, hi, hfree⟩ => ?_⟩
      have hnot := List.find?_range_eq_none.mp hfind i (by omega)
      rw [hfree] at hnot
      exact absurd hnot (by decide)

theorem search_add_le (m : ℕ → U32) (prog : Program) : search m prog.len + prog.len ≤ 32 := by
  have hle : prog.len ≤ 32 := prog.le
  rcases search_cases m prog.len with ⟨hlt, -, -⟩ | ⟨hzero, -⟩ <;> omega

/-! ## One load -/

theorem isFree_of_clear (hz : ZeroElsewhere pioNum h) (hc : Clear h.loaded i len) :
    isFree (h.blocks.pio pioNum) i len = true := by
  have hinside := hc.1
  refine isFree_iff.mpr fun j hj => hz (i + j) (by omega) fun q hq => ?_
  rcases hc.2 q hq with hapart | hapart <;> omega

/-- The slots that the search takes are free exactly when the first zero words are. -/
theorem clear_search_iff (hz : ZeroElsewhere pioNum h) (prog : Program) :
    Clear h.loaded (search (h.blocks.pio pioNum) prog.len) prog.len ↔
      ∃ i, Clear h.loaded i prog.len ∧ (i + prog.len < 32 ∨ prog.len = 32) ∧
        ∀ j < i, isFree (h.blocks.pio pioNum) j prog.len = false := by
  have hle : prog.len ≤ 32 := prog.le
  constructor
  · intro hc
    refine ⟨_, hc, ?_⟩
    rcases search_cases (h.blocks.pio pioNum) prog.len with ⟨hlt, -, hfirst⟩ | ⟨hzero, hnone⟩
    · exact ⟨.inl hlt, hfirst⟩
    · rw [hzero] at hc ⊢
      refine ⟨?_, fun j hj => absurd hj (Nat.not_lt_zero j)⟩
      -- free slots at 0 would have been found
      by_contra hne
      exact hnone ⟨0, by omega, isFree_of_clear hz hc⟩
  · rintro ⟨i, hc, hend, hfirst⟩
    have hsearch : search (h.blocks.pio pioNum) prog.len = i := by
      rcases hend with hlt | hall
      · exact search_eq hlt (isFree_of_clear hz hc) hfirst
      · have hinside := hc.1
        have hzero : i = 0 := by omega
        rw [hall, hzero]
        rfl
    rw [hsearch]
    exact hc

/-- With a new program written to its slots, all are kept exactly when these slots were free. -/
theorem kept_cons_iff (hk : Kept pioNum h) (hi : i + prog.len ≤ 32) :
    Kept pioNum ⟨h.blocks.setPio pioNum (writeAt (h.blocks.pio pioNum) i prog.code), (i, prog) :: h.loaded⟩ ↔
      Clear h.loaded i prog.len := by
  constructor
  · exact fun hk' => ⟨hi, (List.pairwise_cons.mp hk'.apart).1⟩
  · rintro ⟨-, hapart⟩
    refine ⟨fun q hq => ?_, fun q hq => ?_, List.pairwise_cons.mpr ⟨hapart, hk.apart⟩⟩
    · rcases List.mem_cons.mp hq with rfl | hq
      · exact hi
      · exact hk.inside q hq
    · show readAt ((h.blocks.setPio pioNum _).pio pioNum) q.1 q.2.len = q.2.code
      rw [pio_setPio]
      rcases List.mem_cons.mp hq with rfl | hq
      · rw [← length_code, readAt_writeAt]
      · rw [readAt_writeAt_of_apart, hk.stored q hq]
        rw [length_code]
        exact hapart q hq

theorem step_of_fits (hf : Fits h.loaded prog.len) :
    (step pioNum h prog).2 =
      ⟨h.blocks.setPio pioNum
          (writeAt (h.blocks.pio pioNum) (search (h.blocks.pio pioNum) prog.len) prog.code),
        (search (h.blocks.pio pioNum) prog.len, prog) :: h.loaded⟩ := by
  simp only [step, pioLoadProgram, if_pos hf]

theorem step_of_not_fits (hf : ¬Fits h.loaded prog.len) :
    (step pioNum h prog).2 =
      ⟨h.blocks.setPio pioNum
          (writeAt (h.blocks.pio pioNum) (search (h.blocks.pio pioNum) prog.len) prog.code), h.loaded⟩ := by
  simp only [step, pioLoadProgram, if_neg hf]

theorem code_eq_zeros_iff (hfree : isFree m i prog.len = true) :
    readAt m i prog.len = prog.code ↔ ∀ w ∈ prog.words, w = 0 := by
  have hread : readAt m i prog.len = prog.words.map fun _ => (0 : U32) := by
    refine List.ext_getElem (by rw [length_readAt, List.length_map]; rfl) fun j hj _ => ?_
    rw [length_readAt] at hj
    rw [getElem_readAt, List.getElem_map]
    exact isFree_iff.mp hfree j hj
  rw [hread, Program.code, List.map_inj_left]
  refine forall_congr' fun w => imp_congr_right fun _ => ⟨fun hw => ?_, fun hw => by rw [hw]; rfl⟩
  have hval := congrArg BitVec.toNat hw
  have hlt := w.isLt
  rw [BitVec.toNat_setWidth, Nat.mod_eq_of_lt (by omega)] at hval
  exact BitVec.eq_of_toNat_eq hval.symm

/-- **One load** is right exactly when the program is placeable. -/
theorem right_iff (hz : ZeroElsewhere pioNum h) (hk : Kept pioNum h) (prog : Program) (o : ℕ) :
    Right pioNum h (prog, o) ↔ Placeable pioNum h (prog, o) := by
  unfold Right Placeable
  by_cases hf : Fits h.loaded prog.len
  · simp only [hf, not_true_eq_false, false_imp_iff, and_true, true_imp_iff]
    rw [step_of_fits hf, kept_cons_iff hk (search_add_le _ prog), clear_search_iff hz]
  · have hsame : (step pioNum h prog).2.blocks = h.blocks ↔
        readAt (h.blocks.pio pioNum) (search (h.blocks.pio pioNum) prog.len) prog.len = prog.code := by
      rw [step_of_not_fits hf, setPio_eq_self_iff, writeAt_eq_self_iff, length_code]
    have hkept : (step pioNum h prog).2.blocks = h.blocks → Kept pioNum (step pioNum h prog).2 := by
      intro hb
      have hloaded : (step pioNum h prog).2.loaded = h.loaded := by rw [step_of_not_fits hf]
      refine ⟨?_, ?_, ?_⟩
      · rw [hloaded]
        exact hk.inside
      · rw [hloaded, hb]
        exact hk.stored
      · rw [hloaded]
        exact hk.apart
    simp only [hf, not_false_eq_true, false_imp_iff, true_and, true_imp_iff]
    rw [and_iff_right_of_imp hkept, hsame]
    rcases search_cases (h.blocks.pio pioNum) prog.len with ⟨hlt, hfree, -⟩ | ⟨hzero, hnone⟩
    · rw [code_eq_zeros_iff hfree]
      have hzeros : ∃ i, i + prog.len < 32 ∧ isFree (h.blocks.pio pioNum) i prog.len = true := ⟨_, hlt, hfree⟩
      simp only [hzeros, true_and, not_true_eq_false, false_and, or_false]
    · rw [hzero]
      simp only [hnone, false_and, not_false_eq_true, true_and, false_or]

theorem ZeroElsewhere.step (hz : ZeroElsewhere pioNum h) (prog : Program) {o : ℕ}
    (hr : Right pioNum h (prog, o)) : ZeroElsewhere pioNum (step pioNum h prog).2 := by
  by_cases hf : Fits h.loaded prog.len
  · rw [step_of_fits hf]
    intro k hk hnone
    show (h.blocks.setPio pioNum _).pio pioNum k = 0
    have hnew := hnone _ List.mem_cons_self
    rw [pio_setPio, writeAt_of_not (by rwa [length_code])]
    exact hz k hk fun q hq => hnone q (List.mem_cons_of_mem _ hq)
  · have hblocks := hr.2 hf
    have hloaded : (Pio.step pioNum h prog).2.loaded = h.loaded := by rw [step_of_not_fits hf]
    intro k hk hnone
    rw [hblocks]
    rw [hloaded] at hnone
    exact hz k hk hnone

theorem Blank.zeroElsewhere (hb : Blank pioNum h) : ZeroElsewhere pioNum h := fun k hk _ => hb.zero k hk

theorem Blank.kept (hb : Blank pioNum h) : Kept pioNum h := by
  refine ⟨fun q hq => ?_, fun q hq => ?_, ?_⟩
  · rw [hb.loaded] at hq
    cases hq
  · rw [hb.loaded] at hq
    cases hq
  · rw [hb.loaded]
    exact .nil

/-- **Loads along runs.** -/
theorem loads_right_iff {es : List (Program × ℕ)} (hb : Blank pioNum h) (hrun : Run (total (step pioNum)) h es t) :
    Along (total (step pioNum)) (Right pioNum) h es ↔ Along (total (step pioNum)) (Placeable pioNum) h es := by
  refine hrun.along_iff_along (I := fun h => ZeroElsewhere pioNum h ∧ Kept pioNum h)
    (fun s prog o s' hs hr hstep => ?_) (fun s prog o s' hs _ => right_iff hs.1 hs.2 prog o)
    ⟨hb.zeroElsewhere, hb.kept⟩
  have hs' : (step pioNum s prog).2 = s' := congrArg Prod.snd (total_eq_some.mp hstep)
  rw [← hs']
  exact ⟨hs.1.step prog hr, hr.1⟩

/-- Both memories zero, and nothing loaded. -/
def blank : History := ⟨⟨fun _ => 0, fun _ => 0⟩, []⟩

theorem blank_blank : Blank 0 blank := ⟨rfl, fun _ _ => rfl⟩

/-- The first program gets the first slots, and the second one the next. -/
theorem right_along_two : Along (total (step 0)) (Right 0) blank [(blinkProg, 0), (spiProg, 2)] := by
  have hfits : Fits [] blinkProg.len := ⟨0, by decide, by decide⟩
  have hblink : total (step 0) blank blinkProg = some (0, (step 0 blank blinkProg).2) := rfl
  have hspi : total (step 0) (step 0 blank blinkProg).2 spiProg =
      some (2, (step 0 (step 0 blank blinkProg).2 spiProg).2) := rfl
  have hloaded : (step 0 blank blinkProg).2.loaded = [(0, blinkProg)] := by
    rw [step_of_fits hfits]
    rfl
  have hroom : Fits (step 0 blank blinkProg).2.loaded spiProg.len := by
    rw [hloaded]
    exact ⟨2, by decide, by decide⟩
  refine (loads_right_iff blank_blank (.cons hblink (.cons hspi (.nil _)))).mpr ((along_cons hblink).mpr
    ⟨⟨fun _ => ?_, fun hnot => absurd hfits hnot⟩, (along_cons hspi).mpr
      ⟨⟨fun _ => ?_, fun hnot => absurd hroom hnot⟩, along_nil _ _⟩⟩)
  · exact ⟨0, by decide, .inl (by decide), fun j hj => absurd hj (Nat.not_lt_zero j)⟩
  · rw [hloaded]
    refine ⟨2, by decide, .inl (by decide), fun j hj => ?_⟩
    obtain rfl | rfl : j = 0 ∨ j = 1 := by omega
    · rfl
    · rfl

/-- The SPI program ends with a zero word, so the next program is put over its last instruction. -/
theorem not_right_after_spi :
    Run (total (step 0)) blank [(spiProg, 0), (blinkProg, 2)] (step 0 (step 0 blank spiProg).2 blinkProg).2 ∧
      ¬Along (total (step 0)) (Right 0) blank [(spiProg, 0), (blinkProg, 2)] := by
  have hfirst : total (step 0) blank spiProg = some (0, (step 0 blank spiProg).2) := rfl
  have hsecond : total (step 0) (step 0 blank spiProg).2 blinkProg =
      some (2, (step 0 (step 0 blank spiProg).2 blinkProg).2) := rfl
  refine ⟨.cons hfirst (.cons hsecond (.nil _)), fun h => ?_⟩
  have hright := ((along_cons hsecond).mp ((along_cons hfirst).mp h).2).1
  have hspi : (step 0 blank spiProg).2.loaded = [(0, spiProg)] := by
    have hfits : Fits blank.loaded spiProg.len := ⟨0, by decide, by decide⟩
    rw [step_of_fits hfits]
    rfl
  have hblink : (step 0 (step 0 blank spiProg).2 blinkProg).2.loaded = [(2, blinkProg), (0, spiProg)] := by
    have hfits : Fits (step 0 blank spiProg).2.loaded blinkProg.len := by
      rw [hspi]
      exact ⟨3, by decide, by decide⟩
    have hoffset : search ((step 0 blank spiProg).2.blocks.pio 0) blinkProg.len = 2 := rfl
    rw [step_of_fits hfits, hspi, hoffset]
  have hapart := hright.1.apart
  rw [hblink] at hapart
  exact absurd ((List.pairwise_cons.mp hapart).1 (0, spiProg) List.mem_cons_self) (by decide)

end BloodKernel.Pio
