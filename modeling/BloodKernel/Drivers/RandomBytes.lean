import BloodKernel.Kernel.Types

set_option autoImplicit false

/-!
# Random bytes from the processor

`hwcrypto_rdrand32`, `hwcrypto_rdseed32` and `hwcrypto_get_random_bytes` of `drivers/hwcrypto.c`. A draw that
fails is reported by the word 0 and a counter of all failures; beside the words the model keeps whether they
were drawn.

* `Hardware`: the instructions; `Rng`: the counters, and the instructions executed so far.
* `draw32`, `hwcryptoGetRandomBytes`: the functions.
* `Rng.after`, `drawAt`: the draws of a request, one after the other; `rngAfter_requests`,
  `rngAfter_failures`: the counters.
* `fillWords_ret`, `fillWords_draws`: the loop over the whole words.
* **`random_bytes_drawn_iff`**: when a success means that all words were drawn.
-/

namespace BloodKernel.RandomBytes

/-! ### The driver -/

/-- What the processor has, and the outcome of an instruction that is the `k`-th one to be executed: `none`
clears the carry flag. -/
structure Hardware where
  hasRdrand : Bool
  hasRdseed : Bool
  rdrand : ℕ → Option U32
  rdseed : ℕ → Option U32

/-- The counters of `hwcrypto_stats` for the generator, and the number of instructions executed. -/
structure Rng where
  rngRequests : U32
  rngFailures : U32
  time : ℕ

/-- The loop of retries. -/
def retry (instruction : ℕ → Option U32) : ℕ → ℕ → Option U32 × ℕ
  | 0, k => (none, k)
  | n + 1, k =>
      match instruction k with
      | some value => (some value, k + 1)
      | none => retry instruction n (k + 1)

/-- A draw with one of the instructions. `none` is a failure, for which the C functions return 0. -/
def draw32 (has : Bool) (instruction : ℕ → Option U32) (s : Rng) : Option U32 × Rng :=
  if has = false then (none, { s with rngFailures := s.rngFailures + 1 })
  else
    match retry instruction 10 s.time with
    | (some value, k) => (some value, { s with rngRequests := s.rngRequests + 1, time := k })
    | (none, k) => (none, { s with rngFailures := s.rngFailures + 1, time := k })

def hwcryptoRdrand32 (hw : Hardware) : Rng → Option U32 × Rng := draw32 hw.hasRdrand hw.rdrand

def hwcryptoRdseed32 (hw : Hardware) : Rng → Option U32 × Rng := draw32 hw.hasRdseed hw.rdseed

/-- `hwcrypto_has_rdseed() ? hwcrypto_rdseed32() : hwcrypto_rdrand32()` -/
def randomWord (hw : Hardware) (s : Rng) : Option U32 × Rng :=
  if hw.hasRdseed then hwcryptoRdseed32 hw s else hwcryptoRdrand32 hw s

def valueOf (draw : Option U32) : U32 := draw.getD 0

def bytesOf (rand : U32) (n : ℕ) : List U8 := (List.range n).map fun i => ((rand >>> (i * 8)) &&& 0xFF).setWidth 8

/-- What a request returns and writes, and the draws of the words that it used. -/
structure Result where
  ret : Bool
  bytes : List U8
  draws : List (Option U32)
  rng : Rng

/-- The test for a failed draw: the word, and the counters after the draw. -/
def Suspicious (draw : Option U32) (s : Rng) : Prop := valueOf draw = 0 ∧ s.rngRequests < s.rngFailures

instance (draw : Option U32) (s : Rng) : Decidable (Suspicious draw s) := inferInstanceAs (Decidable (_ ∧ _))

/-- The loop over the whole words. -/
def fillWords (hw : Hardware) : ℕ → Rng → Result
  | 0, s => ⟨true, [], [], s⟩
  | n + 1, s =>
      let r := randomWord hw s
      if Suspicious r.1 r.2 then ⟨false, [], [], r.2⟩
      else
        let q := fillWords hw n r.2
        ⟨q.ret, bytesOf (valueOf r.1) 4 ++ q.bytes, r.1 :: q.draws, q.rng⟩

/-- `hwcrypto_get_random_bytes`, with a buffer or with a null pointer. -/
def hwcryptoGetRandomBytes (hw : Hardware) (buffer : Bool) (len : U32) (s : Rng) : Result :=
  if buffer = false ∨ len = 0 then ⟨false, [], [], s⟩
  else
    let q := fillWords hw (len / 4).toNat s
    if q.ret = false then q
    else
      let remaining := len % 4
      if 0 < remaining then
        let r := randomWord hw q.rng
        ⟨true, q.bytes ++ bytesOf (valueOf r.1) remaining.toNat, q.draws ++ [r.1], r.2⟩
      else q

/-! ### The draws of a request -/

/-- The generator after `i` draws. -/
def Rng.after (hw : Hardware) (s : Rng) : ℕ → Rng
  | 0 => s
  | i + 1 => (randomWord hw (Rng.after hw s i)).2

/-- The draw number `i`. -/
def drawAt (hw : Hardware) (s : Rng) (i : ℕ) : Option U32 := (randomWord hw (s.after hw i)).1

/-- How many of the first `i` draws succeed. -/
def drawn (hw : Hardware) (s : Rng) (i : ℕ) : ℕ := (List.range i).countP fun j => (drawAt hw s j).isSome

/-- How many of them fail. -/
def failed (hw : Hardware) (s : Rng) (i : ℕ) : ℕ := (List.range i).countP fun j => (drawAt hw s j).isNone

/-- The draw number `i` gives 0, when more draws have failed than succeeded, those of earlier requests among
them. The counters have 32 bits. -/
def Caught (hw : Hardware) (s : Rng) (i : ℕ) : Prop :=
  valueOf (drawAt hw s i) = 0 ∧
    s.rngRequests + BitVec.ofNat 32 (drawn hw s (i + 1)) < s.rngFailures + BitVec.ofNat 32 (failed hw s (i + 1))

variable {hw : Hardware} {s : Rng} {n i : ℕ} {buffer : Bool} {len : U32}

theorem after_succ (hw : Hardware) (s : Rng) (i : ℕ) : (randomWord hw s).2.after hw i = s.after hw (i + 1) := by
  induction i with
  | zero => rfl
  | succ i ih =>
      rw [Rng.after, ih]
      rfl

theorem drawAt_succ (hw : Hardware) (s : Rng) (i : ℕ) : drawAt hw (randomWord hw s).2 i = drawAt hw s (i + 1) := by
  unfold drawAt
  rw [after_succ]

theorem draw32_counters (has : Bool) (instruction : ℕ → Option U32) (s : Rng) :
    let r := draw32 has instruction s
    r.2.rngRequests = s.rngRequests + BitVec.ofNat 32 r.1.isSome.toNat ∧
      r.2.rngFailures = s.rngFailures + BitVec.ofNat 32 r.1.isNone.toNat := by
  unfold draw32
  by_cases hhas : has = false
  · rw [if_pos hhas]
    exact ⟨(BitVec.add_zero _).symm, rfl⟩
  · rw [if_neg hhas]
    rcases retry instruction 10 s.time with ⟨_ | value, k⟩
    · exact ⟨(BitVec.add_zero _).symm, rfl⟩
    · exact ⟨rfl, (BitVec.add_zero _).symm⟩

theorem randomWord_counters (hw : Hardware) (s : Rng) :
    let r := randomWord hw s
    r.2.rngRequests = s.rngRequests + BitVec.ofNat 32 r.1.isSome.toNat ∧
      r.2.rngFailures = s.rngFailures + BitVec.ofNat 32 r.1.isNone.toNat := by
  unfold randomWord
  by_cases hseed : hw.hasRdseed = true
  · rw [if_pos hseed]
    exact draw32_counters _ _ s
  · rw [if_neg hseed]
    exact draw32_counters _ _ s

theorem countP_range_succ (p : ℕ → Bool) (i : ℕ) :
    (List.range (i + 1)).countP p = (List.range i).countP p + (p i).toNat := by
  rw [List.range_succ, List.countP_append, List.countP_singleton]
  cases p i
  · rfl
  · rfl

/-- **The counters** count the draws. -/
theorem after_counters (hw : Hardware) (s : Rng) (i : ℕ) :
    (s.after hw i).rngRequests = s.rngRequests + BitVec.ofNat 32 (drawn hw s i) ∧
      (s.after hw i).rngFailures = s.rngFailures + BitVec.ofNat 32 (failed hw s i) := by
  induction i with
  | zero => exact ⟨(BitVec.add_zero _).symm, (BitVec.add_zero _).symm⟩
  | succ i ih =>
      obtain ⟨hrequests, hfailures⟩ := randomWord_counters hw (s.after hw i)
      unfold drawn failed at ih ⊢
      rw [countP_range_succ, countP_range_succ, BitVec.ofNat_add, BitVec.ofNat_add, ← BitVec.add_assoc,
        ← BitVec.add_assoc, ← ih.1, ← ih.2]
      exact ⟨hrequests, hfailures⟩

theorem caught_iff : Caught hw s i ↔ Suspicious (drawAt hw s i) (s.after hw (i + 1)) := by
  unfold Caught Suspicious
  rw [(after_counters hw s (i + 1)).1, (after_counters hw s (i + 1)).2]

/-! ### The loop -/

/-- **The loop** goes to its end exactly when it is not caught on the way; then it has used all draws. -/
theorem fillWords_ret (hw : Hardware) (n : ℕ) (s : Rng) :
    (fillWords hw n s).ret = true ↔ ∀ i < n, ¬Caught hw s i := by
  induction n generalizing s with
  | zero => exact iff_of_true rfl fun i hi => absurd hi (Nat.not_lt_zero i)
  | succ n ih =>
      have hcaught (i : ℕ) : Caught hw (randomWord hw s).2 i ↔ Caught hw s (i + 1) := by
        rw [caught_iff, caught_iff, drawAt_succ, after_succ]
      have hhead : Caught hw s 0 ↔ Suspicious (randomWord hw s).1 (randomWord hw s).2 := caught_iff
      unfold fillWords
      simp only
      by_cases h : Suspicious (randomWord hw s).1 (randomWord hw s).2
      · rw [if_pos h]
        exact iff_of_false Bool.false_ne_true fun hall => hall 0 n.succ_pos (hhead.mpr h)
      · rw [if_neg h, ih]
        constructor
        · intro hall i hi
          cases i with
          | zero => exact fun h0 => h (hhead.mp h0)
          | succ i => exact fun hi' => hall i (by omega) ((hcaught i).mpr hi')
        · exact fun hall i hi hi' => hall (i + 1) (by omega) ((hcaught i).mp hi')

theorem fillWords_draws (h : (fillWords hw n s).ret = true) :
    (fillWords hw n s).draws = (List.range n).map (drawAt hw s) ∧ (fillWords hw n s).rng = s.after hw n := by
  induction n generalizing s with
  | zero => exact ⟨rfl, rfl⟩
  | succ n ih =>
      unfold fillWords at h ⊢
      simp only at h ⊢
      by_cases hs : Suspicious (randomWord hw s).1 (randomWord hw s).2
      · rw [if_pos hs] at h
        exact absurd h Bool.false_ne_true
      · rw [if_neg hs] at h
        obtain ⟨hdraws, hrng⟩ := ih h
        rw [if_neg hs]
        refine ⟨?_, hrng.trans (after_succ hw s n)⟩
        have hshift : drawAt hw (randomWord hw s).2 = fun i => drawAt hw s (i + 1) :=
          funext fun i => drawAt_succ hw s i
        show (randomWord hw s).1 :: (fillWords hw n (randomWord hw s).2).draws = _
        rw [hdraws, List.range_succ_eq_map, List.map_cons, List.map_map, hshift]
        rfl

/-! ### A request -/

/-- The words that a request of `len` bytes uses. -/
def wordsOf (len : U32) : ℕ := (len.toNat + 3) / 4

/-- **A request** succeeds exactly when it is not caught at a whole word; then it has used one draw for each
word. -/
theorem randomBytes_ret (hw : Hardware) (buffer : Bool) (len : U32) (s : Rng) :
    ((hwcryptoGetRandomBytes hw buffer len s).ret = true ↔
        ¬(buffer = false ∨ len = 0) ∧ ∀ i < len.toNat / 4, ¬Caught hw s i) ∧
      ((hwcryptoGetRandomBytes hw buffer len s).ret = true →
        (hwcryptoGetRandomBytes hw buffer len s).draws = (List.range (wordsOf len)).map (drawAt hw s)) := by
  have hwords : (len / 4).toNat = len.toNat / 4 := BitVec.toNat_udiv
  have hrest : (len % 4).toNat = len.toNat % 4 := BitVec.toNat_umod
  have hret := fillWords_ret hw (len.toNat / 4) s
  unfold hwcryptoGetRandomBytes
  by_cases hnothing : buffer = false ∨ len = 0
  · rw [if_pos hnothing]
    exact ⟨iff_of_false Bool.false_ne_true fun h => h.1 hnothing, fun h => absurd h Bool.false_ne_true⟩
  · rw [if_neg hnothing, hwords, and_iff_right hnothing]
    simp only
    by_cases hloop : (fillWords hw (len.toNat / 4) s).ret = true
    · obtain ⟨hdraws, hrng⟩ := fillWords_draws hloop
      rw [if_neg (by rw [hloop]; exact Bool.noConfusion)]
      by_cases hremaining : 0 < len % 4
      · have hpos : 0 < len.toNat % 4 := hrest ▸ BitVec.lt_def.mp hremaining
        have hsucc : wordsOf len = len.toNat / 4 + 1 := by
          unfold wordsOf
          omega
        rw [if_pos hremaining]
        refine ⟨iff_of_true rfl (hret.mp hloop), fun _ => ?_⟩
        show (fillWords hw (len.toNat / 4) s).draws ++ [(randomWord hw (fillWords hw (len.toNat / 4) s).rng).1] = _
        rw [hdraws, hrng, hsucc, List.range_succ, List.map_append]
        rfl
      · have hzero : len.toNat % 4 = 0 := by
          rw [← hrest]
          exact Nat.eq_zero_of_not_pos fun hpos => hremaining (BitVec.lt_def.mpr hpos)
        have hsame : wordsOf len = len.toNat / 4 := by
          unfold wordsOf
          omega
        rw [if_neg hremaining, hsame]
        exact ⟨hret, fun _ => hdraws⟩
    · rw [if_pos (Bool.eq_false_iff.mpr hloop)]
      exact ⟨hret, fun h => absurd h hloop⟩

/-- A success means that all words were drawn. -/
def Drawn (hw : Hardware) (buffer : Bool) (len : U32) (s : Rng) : Prop :=
  (hwcryptoGetRandomBytes hw buffer len s).ret = true →
    ∀ draw ∈ (hwcryptoGetRandomBytes hw buffer len s).draws, draw.isSome

/-- **When a success means that all words were drawn**: no draw fails, or the request is caught at a whole word,
or there is nothing to do. -/
theorem random_bytes_drawn_iff (hw : Hardware) (buffer : Bool) (len : U32) (s : Rng) :
    Drawn hw buffer len s ↔ (buffer = false ∨ len = 0) ∨ (∀ i < wordsOf len, (drawAt hw s i).isSome) ∨
      ∃ i < len.toNat / 4, Caught hw s i := by
  obtain ⟨hret, hdraws⟩ := randomBytes_ret hw buffer len s
  unfold Drawn
  constructor
  · intro h
    refine or_iff_not_imp_left.mpr fun hsome => or_iff_not_imp_right.mpr fun hcaught i hi => ?_
    have hok := hret.mpr ⟨hsome, fun i hi hc => hcaught ⟨i, hi, hc⟩⟩
    refine h hok (drawAt hw s i) ?_
    rw [hdraws hok]
    exact List.mem_map_of_mem (List.mem_range.mpr hi)
  · rintro (hnothing | hall | ⟨i, hi, hc⟩) hok
    · exact absurd hnothing (hret.mp hok).1
    · rw [hdraws hok]
      intro draw hdraw
      obtain ⟨i, hi, rfl⟩ := List.mem_map.mp hdraw
      exact hall i (List.mem_range.mp hi)
    · exact absurd hc ((hret.mp hok).2 i hi)

/-- A processor whose generator gives nothing. -/
def exhausted : Hardware := ⟨true, false, fun _ => none, fun _ => none⟩

/-- After five requests that have succeeded, four bytes of zeros are returned as random ones. -/
theorem not_drawn_exhausted : ¬Drawn exhausted true 4 ⟨5, 0, 5⟩ := by
  intro h
  have hnone : (none : Option U32).isSome = true := h (by decide) none (by decide)
  cases hnone

end BloodKernel.RandomBytes
