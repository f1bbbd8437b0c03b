import BloodKernel.Kernel.Types
import BloodKernel.Lib.Bytes

set_option autoImplicit false

/-!
# CAN-FD messages

`canfd_send` and `canfd_recv` of `arch/stm32h/canfd.c` and `arch/pic32mz/canfd.c` pack a frame into message words
and take it out again.

* `putWords`, `getWords`: the data loops, which both drivers have; `header_eq`, `recovered_eq`: the header word,
  and what comes back of the id.
* `Stm32h`, `Pic32mz`: the two drivers.
* **`round_trip_iff`**: which frames come back, for both: the length and the flags have to lie in the bits of the
  id already.
-/

namespace BloodKernel.Canfd

open Lib

/-! ## Common to both drivers -/

/-- The lengths of CAN-FD frames. -/
def lengths : List ℕ := [0, 1, 2, 3, 4, 5, 6, 7, 8, 12, 16, 20, 24, 32, 48, 64]

/-- The rounds of the loop `for (u8 i = 0; i < len; i += 4)`. -/
def rounds (len : U8) : ℕ := (len.toNat + 3) / 4

/-- The loop that writes the data from word `first` on, `n` rounds of it. -/
def putWords (first : ℕ) (data : ℕ → U8) : ℕ → (ℕ → U32) → ℕ → U32
  | 0, ram => ram
  | n + 1, ram => Function.update (putWords first data n ram) (first + n) (leWord fun k => data (4 * n + k))

/-- The loop that reads it. -/
def getWords (first : ℕ) (ram : ℕ → U32) : ℕ → (ℕ → U8) → ℕ → U8
  | 0, data => data
  | n + 1, data => fun i =>
      if 4 * n ≤ i ∧ i < 4 * n + 4 then leByte (ram (first + n)) (i - 4 * n) else getWords first ram n data i

/-- `(f->id << 18) | (f->len << 16)` -/
def headerWord (id : U32) (len : U8) : U32 := (id <<< 18) ||| (len.setWidth 32 <<< 16)

/-- `(w >> 18) & 0x1FFFFFFF` -/
def idField (w : U32) : U32 := (w >>> 18) &&& 0x1FFFFFFF

/-- `(w >> 16) & 0xF`, as a `u8`. -/
def lenField (w : U32) : U8 := ((w >>> 16) &&& 0xF).setWidth 8

/-- The length, divided by 4, takes bits that the id has set. -/
def LenInId (id : U32) (len : U8) : Prop := ∀ i < 2, len.getLsbD (i + 2) = true → id.getLsbD i = true

variable {ram : ℕ → U32} {data data' : ℕ → U8} {first n i j : ℕ} {id w : U32} {len : U8}

theorem putWords_of_ne (h : j < first) : putWords first data n ram j = ram j := by
  induction n with
  | zero => rfl
  | succ n ih => rw [putWords, Function.update_of_ne (by omega), ih]

theorem putWords_of_lt (h : j < n) : putWords first data n ram (first + j) = leWord fun k => data (4 * j + k) := by
  induction n with
  | zero => exact absurd h (Nat.not_lt_zero j)
  | succ n ih =>
      by_cases hj : j = n
      · rw [hj, putWords, Function.update_self]
      · rw [putWords, Function.update_of_ne (by omega), ih (by omega)]

/-- **The words give the data back.** -/
theorem getWords_of_words (h : ∀ j < n, ram (first + j) = leWord fun k => data (4 * j + k)) (hi : i < 4 * n) :
    getWords first ram n data' i = data i := by
  induction n with
  | zero => exact absurd hi (Nat.not_lt_zero i)
  | succ n ih =>
      show (if 4 * n ≤ i ∧ i < 4 * n + 4 then leByte (ram (first + n)) (i - 4 * n)
        else getWords first ram n data' i) = data i
      split_ifs with hlast
      · rw [h n (Nat.lt_succ_self n), leByte_leWord _ (by omega)]
        exact congrArg data (by omega)
      · exact ih (fun j hj => h j (Nat.lt_succ_of_lt hj)) (by omega)

theorem lt_rounds (h : i < len.toNat) : i < 4 * rounds len := by
  unfold rounds
  omega

theorem rounds_le (h : len.toNat ∈ lengths) : rounds len ≤ 16 := by
  have hall : ∀ n ∈ lengths, n ≤ 64 := by decide
  have hlen := hall _ h
  unfold rounds
  omega

theorem getLsbD_headerWord (hi : i < 32) : (headerWord id len).getLsbD i =
    (!decide (i < 18) && id.getLsbD (i - 18) || !decide (i < 16) && len.getLsbD (i - 16)) := by
  have hlen : (len.setWidth 32).getLsbD (i - 16) = len.getLsbD (i - 16) := by
    rw [BitVec.getLsbD_setWidth, decide_eq_true (show i - 16 < 32 by omega), Bool.true_and]
  rw [headerWord, BitVec.getLsbD_or, BitVec.getLsbD_shiftLeft, BitVec.getLsbD_shiftLeft, hlen]
  simp [hi]

theorem getLsbD_idField (w : U32) (i : ℕ) : (idField w).getLsbD i = (decide (i < 14) && w.getLsbD (18 + i)) := by
  have hmask : (0x1FFFFFFF : U32) = BitVec.ofNat 32 (2 ^ 29 - 1) := rfl
  rw [idField, hmask, shift_and_mask w 18 (by decide), BitVec.getLsbD_setWidth, BitVec.getLsbD_extractLsb']
  by_cases hi : i < 14
  · simp [hi, show i < 32 by omega, show i < 29 by omega]
  · simp [hi, BitVec.getLsbD_of_ge w (18 + i) (by omega)]

theorem getLsbD_lenField (w : U32) (i : ℕ) : (lenField w).getLsbD i = (decide (i < 4) && w.getLsbD (16 + i)) := by
  have hmask : (0xF : U32) = BitVec.ofNat 32 (2 ^ 4 - 1) := rfl
  rw [lenField, hmask, shift_and_mask w 16 (by decide), BitVec.getLsbD_setWidth, BitVec.getLsbD_setWidth,
    BitVec.getLsbD_extractLsb']
  by_cases hi : i < 4
  · simp [hi, show i < 8 by omega, show i < 32 by omega]
  · simp [hi]

theorem toNat_lenField_lt (w : U32) : (lenField w).toNat < 16 := by
  have hmask : (0xF : U32).toNat = 2 ^ 4 - 1 := rfl
  rw [lenField, BitVec.toNat_setWidth, BitVec.toNat_and, hmask, Nat.and_two_pow_sub_one_eq_mod]
  omega

theorem idField_eq_iff : idField w = id ↔ id.toNat < 2 ^ 14 ∧ ∀ i < 14, w.getLsbD (18 + i) = id.getLsbD i := by
  constructor
  · rintro rfl
    refine ⟨?_, fun i hi => ?_⟩
    · have hmask : (0x1FFFFFFF : U32).toNat = 2 ^ 29 - 1 := rfl
      have := w.isLt
      rw [idField, BitVec.toNat_and, hmask, Nat.and_two_pow_sub_one_eq_mod, BitVec.toNat_ushiftRight,
        Nat.shiftRight_eq_div_pow]
      omega
    · rw [getLsbD_idField, decide_eq_true hi, Bool.true_and]
  · rintro ⟨hid, hbits⟩
    apply BitVec.eq_of_getLsbD_eq
    intro i hi
    rw [getLsbD_idField]
    by_cases hlow : i < 14
    · rw [decide_eq_true hlow, Bool.true_and, hbits i hlow]
    · rw [decide_eq_false hlow, Bool.false_and, BitVec.getLsbD, Nat.testBit_lt_two_pow]
      exact hid.trans_le (Nat.pow_le_pow_right (by decide) (Nat.not_lt.mp hlow))

/-! ## The STM32H driver -/

namespace Stm32h

/-- `canfd_frame_t` -/
structure Frame where
  id : U32
  len : U8
  flags : U8
  data : ℕ → U8

/-- The word of `msg_ram` at which the buffer for the next frame to send starts. -/
def txBuf (txfqs : U32) : ℕ := (1536 + ((txfqs >>> 16) &&& 0x1F).toNat * 72) / 4

/-- That of the next received frame. -/
def rxBuf (rxf0s : U32) : ℕ := (1024 + ((rxf0s >>> 8) &&& 0x3F).toNat * 72) / 4

/-- The first word of the buffer, with the flags. -/
def firstWord (f : Frame) : U32 :=
  let w := headerWord f.id f.len
  let w := if f.flags &&& 1 ≠ 0 then w ||| bit 21 else w
  if f.flags &&& 2 ≠ 0 then w ||| bit 20 else w

def canfdSend (txfqs : U32) (ram : ℕ → U32) (f : Frame) : U8 × (ℕ → U32) :=
  if txfqs &&& 0x3F = 0 then (1, ram)
  else
    let buf := txBuf txfqs
    (0, putWords (buf + 2) f.data (rounds f.len) (Function.update ram buf (firstWord f)))

def flagsField (w : U32) : U8 :=
  let flags : U8 := 0
  let flags := if w &&& bit 21 ≠ 0 then flags ||| 1 else flags
  if w &&& bit 20 ≠ 0 then flags ||| 2 else flags

def canfdRecv (rxf0s : U32) (ram : ℕ → U32) (f : Frame) : U8 × Frame :=
  if rxf0s &&& 0x7F = 0 then (1, f)
  else
    let buf := rxBuf rxf0s
    let len := lenField (ram (buf + 1))
    (0, ⟨idField (ram buf), len, flagsField (ram buf), getWords (buf + 2) ram (rounds len) f.data⟩)

/-- The frames that can be sent. -/
structure Accepted (f : Frame) : Prop where
  id : f.id.toNat < 2 ^ 29
  len : f.len.toNat ∈ lengths
  flags : f.flags.toNat < 4

/-- The same frame, up to the data behind its length. -/
structure Same (f g : Frame) : Prop where
  id : g.id = f.id
  len : g.len = f.len
  flags : g.flags = f.flags
  data : ∀ i < f.len.toNat, g.data i = f.data i

/-- What a frame has to meet: its id has 14 bits, its length and its flags are in these bits, and the second
word of the buffer, which is not written, has its length already. -/
structure Fits (f : Frame) (second : U32) : Prop where
  id : f.id.toNat < 2 ^ 14
  len : LenInId f.id f.len
  fdf : f.flags.getLsbD 0 = f.id.getLsbD 3
  brs : f.flags.getLsbD 1 = f.id.getLsbD 2
  second : lenField second = f.len

variable {f g : Frame} {txfqs rxf0s : U32} {ram' : ℕ → U32}

theorem flag_iff : ∀ v : U8, (v &&& 1 ≠ 0 ↔ v.getLsbD 0 = true) ∧ (v &&& 2 ≠ 0 ↔ v.getLsbD 1 = true) := by
  decide

theorem word_flag_iff {k : ℕ} (hk : k < 32) : w &&& bit k ≠ 0 ↔ w.getLsbD k = true := by
  rw [ne_eq, and_bit_eq_zero hk, Bool.not_eq_false]

theorem getLsbD_firstWord (f : Frame) (i : ℕ) : (firstWord f).getLsbD i =
    ((headerWord f.id f.len).getLsbD i || f.flags.getLsbD 0 && decide (i = 21) ||
      f.flags.getLsbD 1 && decide (i = 20)) := by
  have hor : ∀ (c : Bool) (v : U32) k, (if c = true then v ||| bit k else v).getLsbD i =
      (v.getLsbD i || c && decide (k < 32 ∧ k = i)) := by
    intro c v k
    cases c with
    | false => rw [if_neg (by decide), Bool.false_and, Bool.or_false]
    | true => rw [if_pos rfl, getLsbD_or_bit, Bool.true_and]
  unfold firstWord
  simp only [(flag_iff f.flags).1, (flag_iff f.flags).2, hor]
  simp [eq_comm]

/-- The flags come back exactly when both bits of the word are theirs. -/
theorem flagsField_eq_iff {flags : U8} (h : flags.toNat < 4) :
    flagsField w = flags ↔ w.getLsbD 21 = flags.getLsbD 0 ∧ w.getLsbD 20 = flags.getLsbD 1 := by
  unfold flagsField
  simp only [word_flag_iff (show 21 < 32 by decide), word_flag_iff (show 20 < 32 by decide)]
  generalize w.getLsbD 21 = a
  generalize w.getLsbD 20 = b
  revert a b flags
  decide

theorem firstWord_id (f : Frame) (hi : i < 14) : (firstWord f).getLsbD (18 + i) =
    (f.id.getLsbD i || f.len.getLsbD (i + 2) || f.flags.getLsbD 0 && decide (i = 3) ||
      f.flags.getLsbD 1 && decide (i = 2)) := by
  rw [getLsbD_firstWord f, getLsbD_headerWord (by omega)]
  rw [decide_eq_false (show ¬ 18 + i < 18 by omega), decide_eq_false (show ¬ 18 + i < 16 by omega),
    show 18 + i - 18 = i by omega, show 18 + i - 16 = i + 2 by omega]
  simp only [Bool.not_false, Bool.true_and]
  congr 2
  · congr 1
    exact decide_eq_decide.mpr (by omega)
  · exact decide_eq_decide.mpr (by omega)

theorem len_high (h : lenField w = len) (hi : 4 ≤ i) : len.getLsbD i = false := by
  rw [← h, getLsbD_lenField, decide_eq_false (Nat.not_lt.mpr hi), Bool.false_and]

theorem recv_send (hsend : txfqs &&& 0x3F ≠ 0) (hrecv : rxf0s &&& 0x7F ≠ 0) (hf : Accepted f)
    (hwords : ∀ i < 18, ram' (rxBuf rxf0s + i) = (canfdSend txfqs ram f).2 (txBuf txfqs + i)) :
    Same f (canfdRecv rxf0s ram' g).2 ↔ idField (firstWord f) = f.id ∧
      lenField (ram (txBuf txfqs + 1)) = f.len ∧ flagsField (firstWord f) = f.flags := by
  have hsent : (canfdSend txfqs ram f).2 = putWords (txBuf txfqs + 2) f.data (rounds f.len)
      (Function.update ram (txBuf txfqs) (firstWord f)) := by rw [canfdSend, if_neg hsend]
  have hfirst : ram' (rxBuf rxf0s) = firstWord f := by
    have h := hwords 0 (by decide)
    rwa [Nat.add_zero, Nat.add_zero, hsent, putWords_of_ne (by omega), Function.update_self] at h
  have hsecond : ram' (rxBuf rxf0s + 1) = ram (txBuf txfqs + 1) := by
    rw [hwords 1 (by decide), hsent, putWords_of_ne (by omega), Function.update_of_ne (by omega)]
  have hdata : ∀ j < rounds f.len, ram' (rxBuf rxf0s + 2 + j) = leWord fun k => f.data (4 * j + k) := by
    intro j hj
    have hj' : j < 16 := hj.trans_le (rounds_le hf.len)
    rw [Nat.add_assoc, hwords (2 + j) (by omega), hsent, ← Nat.add_assoc, putWords_of_lt hj]
  rw [canfdRecv, if_neg hrecv]
  simp only [hfirst, hsecond]
  refine ⟨fun h => ⟨h.id, h.len, h.flags⟩, fun h => ⟨h.1, h.2.1, h.2.2, fun i hi => ?_⟩⟩
  show getWords (rxBuf rxf0s + 2) ram' (rounds (lenField (ram (txBuf txfqs + 1)))) g.data i = f.data i
  rw [h.2.1]
  exact getWords_of_words hdata (lt_rounds hi)

/-- The bit of the word for the FD format is also bit 3 of the id, and the one for the bit rate is bit 2. -/
theorem flags_iff (hf : Accepted f) (hlen : lenField w = f.len) : flagsField (firstWord f) = f.flags ↔
    (f.id.getLsbD 3 || f.flags.getLsbD 0) = f.flags.getLsbD 0 ∧
      (f.id.getLsbD 2 || f.flags.getLsbD 1) = f.flags.getLsbD 1 := by
  have h21 := firstWord_id f (show 3 < 14 by decide)
  have h20 := firstWord_id f (show 2 < 14 by decide)
  rw [len_high hlen (by decide)] at h21 h20
  rw [flagsField_eq_iff hf.flags, show 21 = 18 + 3 from rfl, show 20 = 18 + 2 from rfl, h21, h20]
  simp

/-- **A frame comes back** exactly when it fits. -/
theorem same_iff (hsend : txfqs &&& 0x3F ≠ 0) (hrecv : rxf0s &&& 0x7F ≠ 0) (hf : Accepted f)
    (hwords : ∀ i < 18, ram' (rxBuf rxf0s + i) = (canfdSend txfqs ram f).2 (txBuf txfqs + i)) :
    Same f (canfdRecv rxf0s ram' g).2 ↔ Fits f (ram (txBuf txfqs + 1)) := by
  rw [recv_send hsend hrecv hf hwords, idField_eq_iff]
  constructor
  · rintro ⟨⟨hid, hbits⟩, hlen, hflags⟩
    obtain ⟨hfdf, hbrs⟩ := (flags_iff hf hlen).mp hflags
    have hbit : ∀ i < 14, (f.id.getLsbD i || f.len.getLsbD (i + 2) || f.flags.getLsbD 0 && decide (i = 3) ||
        f.flags.getLsbD 1 && decide (i = 2)) = f.id.getLsbD i := fun i hi => by rw [← firstWord_id f hi, hbits i hi]
    have h3 := hbit 3 (by decide)
    have h2 := hbit 2 (by decide)
    rw [len_high hlen (by decide)] at h3 h2
    refine ⟨hid, fun i hi hset => ?_, ?_, ?_, hlen⟩
    · have hi' := hbit i (by omega)
      rw [hset, Bool.or_true, Bool.true_or, Bool.true_or] at hi'
      exact hi'.symm
    · simp only [decide_true, Bool.and_true, Bool.or_false, decide_eq_false (show ¬ 3 = 2 by decide),
        Bool.and_false] at h3
      exact hfdf.symm.trans h3
    · simp only [decide_true, Bool.and_true, Bool.or_false, decide_eq_false (show ¬ 2 = 3 by decide),
        Bool.and_false] at h2
      exact hbrs.symm.trans h2
  · rintro ⟨hid, hlenId, hfdf, hbrs, hlen⟩
    refine ⟨⟨hid, fun i hi => ?_⟩, hlen, (flags_iff hf hlen).mpr ⟨?_, ?_⟩⟩
    · rw [firstWord_id f hi, hfdf, hbrs]
      have hlow : (f.id.getLsbD i || f.len.getLsbD (i + 2)) = f.id.getLsbD i := by
        by_cases hi' : i < 2
        · cases hset : f.len.getLsbD (i + 2) with
          | false => exact Bool.or_false _
          | true => rw [hlenId i hi' hset, Bool.or_true]
        · rw [len_high hlen (by omega), Bool.or_false]
      rw [hlow]
      by_cases h3 : i = 3
      · subst h3
        simp
      · by_cases h2 : i = 2
        · subst h2
          simp
        · simp [h3, h2]
    · rw [hfdf, Bool.or_self]
    · rw [hbrs, Bool.or_self]

end Stm32h

/-! ## The PIC32MZ driver -/

namespace Pic32mz

/-- `canfd_frame_t` -/
structure Frame where
  id : U32
  len : U8
  data : ℕ → U8

/-- The words of the message in the FIFO to send. -/
def canfdSend (tx : ℕ → U32) (f : Frame) : ℕ → U32 :=
  putWords 1 f.data (rounds f.len) (Function.update tx 0 (headerWord f.id f.len))

/-- The frame from the words of a received message. -/
def canfdRecv (rx : ℕ → U32) (f : Frame) : Frame :=
  let len := lenField (rx 0)
  ⟨idField (rx 0), len, getWords 1 rx (rounds len) f.data⟩

/-- The frames that can be sent. -/
structure Accepted (f : Frame) : Prop where
  id : f.id.toNat < 2 ^ 29
  len : f.len.toNat ∈ lengths

/-- The same frame, up to the data behind its length. -/
structure Same (f g : Frame) : Prop where
  id : g.id = f.id
  len : g.len = f.len
  data : ∀ i < f.len.toNat, g.data i = f.data i

/-- What a frame has to meet: its id has 14 bits, its length 4, and the two high bits of the length are the
two low bits of the id. -/
structure Fits (f : Frame) : Prop where
  id : f.id.toNat < 2 ^ 14
  len : f.len.toNat < 16
  shared : ∀ i < 2, f.id.getLsbD i = f.len.getLsbD (i + 2)

variable {f g : Frame} {tx rx : ℕ → U32}

theorem recv_send (hf : Accepted f) (hwords : ∀ i < 17, rx i = canfdSend tx f i) :
    Same f (canfdRecv rx g) ↔ idField (headerWord f.id f.len) = f.id ∧
      lenField (headerWord f.id f.len) = f.len := by
  have hfirst : rx 0 = headerWord f.id f.len := by
    rw [hwords 0 (by decide), canfdSend, putWords_of_ne (by decide), Function.update_self]
  have hdata : ∀ j < rounds f.len, rx (1 + j) = leWord fun k => f.data (4 * j + k) := by
    intro j hj
    have hj' : j < 16 := hj.trans_le (rounds_le hf.len)
    rw [hwords (1 + j) (by omega), canfdSend, putWords_of_lt hj]
  rw [canfdRecv, hfirst]
  refine ⟨fun h => ⟨h.id, h.len⟩, fun h => ⟨h.1, h.2, fun i hi => ?_⟩⟩
  show getWords 1 rx (rounds (lenField (headerWord f.id f.len))) g.data i = f.data i
  rw [h.2]
  exact getWords_of_words hdata (lt_rounds hi)

theorem header_id (f : Frame) {i : ℕ} (hi : i < 14) : (headerWord f.id f.len).getLsbD (18 + i) =
    (f.id.getLsbD i || f.len.getLsbD (i + 2)) := by
  rw [getLsbD_headerWord (by omega), decide_eq_false (show ¬ 18 + i < 18 by omega),
    decide_eq_false (show ¬ 18 + i < 16 by omega), show 18 + i - 18 = i by omega,
    show 18 + i - 16 = i + 2 by omega]
  rfl

theorem header_len (f : Frame) {i : ℕ} (hi : i < 4) : (headerWord f.id f.len).getLsbD (16 + i) =
    (!decide (i < 2) && f.id.getLsbD (i - 2) || f.len.getLsbD i) := by
  rw [getLsbD_headerWord (by omega), decide_eq_false (show ¬ 16 + i < 16 by omega),
    show 16 + i - 16 = i by omega, show 16 + i - 18 = i - 2 by omega,
    decide_eq_decide.mpr (show 16 + i < 18 ↔ i < 2 by omega)]
  rfl

/-- **A frame comes back** exactly when it fits. -/
theorem same_iff (hf : Accepted f) (hwords : ∀ i < 17, rx i = canfdSend tx f i) :
    Same f (canfdRecv rx g) ↔ Fits f := by
  rw [recv_send hf hwords, idField_eq_iff]
  constructor
  · rintro ⟨⟨hid, hbits⟩, hlen⟩
    refine ⟨hid, ?_, fun i hi => ?_⟩
    · have hlt := toNat_lenField_lt (headerWord f.id f.len)
      rwa [hlen] at hlt
    · have hidBit := hbits i (by omega)
      have hlenBit := congrArg (fun v : U8 => v.getLsbD (i + 2)) hlen
      simp only [getLsbD_lenField, decide_eq_true (show i + 2 < 4 by omega), Bool.true_and] at hlenBit
      rw [header_id f (by omega)] at hidBit
      rw [header_len f (by omega), decide_eq_false (show ¬ i + 2 < 2 by omega), Nat.add_sub_cancel] at hlenBit
      exact hidBit.symm.trans hlenBit
  · rintro ⟨hid, hlt, hshared⟩
    have hhigh : ∀ i, 4 ≤ i → f.len.getLsbD i = false := fun i hi =>
      Nat.testBit_lt_two_pow (hlt.trans_le (show 2 ^ 4 ≤ 2 ^ i from Nat.pow_le_pow_right (by decide) hi))
    refine ⟨⟨hid, fun i hi => ?_⟩, ?_⟩
    · rw [header_id f hi]
      by_cases hlow : i < 2
      · rw [hshared i hlow, Bool.or_self]
      · rw [hhigh (i + 2) (by omega), Bool.or_false]
    · apply BitVec.eq_of_getLsbD_eq
      intro i hi
      rw [getLsbD_lenField]
      by_cases hlow : i < 4
      · rw [decide_eq_true hlow, Bool.true_and, header_len f hlow]
        by_cases htwo : i < 2
        · rw [decide_eq_true htwo]
          rfl
        · have hbit := hshared (i - 2) (by omega)
          rw [Nat.sub_add_cancel (Nat.not_lt.mp htwo)] at hbit
          rw [decide_eq_false htwo, hbit, Bool.not_false, Bool.true_and, Bool.or_self]
      · rw [decide_eq_false hlow, Bool.false_and, hhigh i (Nat.not_lt.mp hlow)]

end Pic32mz

/-! ## Both drivers -/

/-- **Exactness.** When the words of a message are received as they were sent, a frame comes back exactly when
it fits: a frame `f` on the STM32H and a frame `f'` on the PIC32MZ. -/
theorem round_trip_iff (txfqs rxf0s : U32) (ram ram' : ℕ → U32) (f g : Stm32h.Frame) (hsend : txfqs &&& 0x3F ≠ 0)
    (hrecv : rxf0s &&& 0x7F ≠ 0) (hf : Stm32h.Accepted f)
    (hwords : ∀ i < 18, ram' (Stm32h.rxBuf rxf0s + i) = (Stm32h.canfdSend txfqs ram f).2 (Stm32h.txBuf txfqs + i))
    (tx rx : ℕ → U32) (f' g' : Pic32mz.Frame) (hf' : Pic32mz.Accepted f')
    (hwords' : ∀ i < 17, rx i = Pic32mz.canfdSend tx f' i) :
    (Stm32h.Same f (Stm32h.canfdRecv rxf0s ram' g).2 ↔ Stm32h.Fits f (ram (Stm32h.txBuf txfqs + 1))) ∧
      (Pic32mz.Same f' (Pic32mz.canfdRecv rx g') ↔ Pic32mz.Fits f') :=
  ⟨Stm32h.same_iff hsend hrecv hf hwords, Pic32mz.same_iff hf' hwords'⟩

/-- Received on the STM32H from the first buffer, as it was sent from the first buffer of a cleared memory. -/
def Stm32h.echo (f : Stm32h.Frame) : Stm32h.Frame :=
  (Stm32h.canfdRecv 1 (fun i => (Stm32h.canfdSend 1 (fun _ => 0) f).2 (i + 128)) ⟨0, 0, 0, fun _ => 0⟩).2

/-- Received on the PIC32MZ as it was sent. -/
def Pic32mz.echo (f : Pic32mz.Frame) : Pic32mz.Frame :=
  Pic32mz.canfdRecv (Pic32mz.canfdSend (fun _ => 0) f) ⟨0, 0, fun _ => 0⟩

/-- What is sent from the first buffer, 128 words behind that which it is received from. -/
theorem Stm32h.echo_words (ram : ℕ → U32) (f : Stm32h.Frame) (i : ℕ) :
    (fun i => (Stm32h.canfdSend 1 ram f).2 (i + 128)) (Stm32h.rxBuf 1 + i) =
      (Stm32h.canfdSend 1 ram f).2 (Stm32h.txBuf 1 + i) := by
  have hbuf : Stm32h.rxBuf 1 + 128 = Stm32h.txBuf 1 := by decide
  show (Stm32h.canfdSend 1 ram f).2 (Stm32h.rxBuf 1 + i + 128) = _
  rw [Nat.add_right_comm, hbuf]

def count (k : ℕ) : U8 := BitVec.ofNat 8 (k + 1)

/-- Frames of 8 bytes with the id `0x102` come back, on the STM32H from a buffer that has held one of this length. -/
theorem round_trip_frames :
    Stm32h.Same ⟨0x102, 8, 0, count⟩ (Stm32h.canfdRecv 1
      (fun i => (Stm32h.canfdSend 1 (fun _ => 0x80000) ⟨0x102, 8, 0, count⟩).2 (i + 128)) ⟨0, 0, 0, fun _ => 0⟩).2 ∧
      Pic32mz.Same ⟨0x102, 8, count⟩ (Pic32mz.echo ⟨0x102, 8, count⟩) := by
  have hiff := round_trip_iff 1 1 (fun _ => 0x80000)
    (fun i => (Stm32h.canfdSend 1 (fun _ => 0x80000) ⟨0x102, 8, 0, count⟩).2 (i + 128)) ⟨0x102, 8, 0, count⟩
    ⟨0, 0, 0, fun _ => 0⟩ (by decide) (by decide) ⟨by decide, by decide, by decide⟩
    (fun i _ => Stm32h.echo_words _ _ i) (fun _ => 0) (Pic32mz.canfdSend (fun _ => 0) ⟨0x102, 8, count⟩)
    ⟨0x102, 8, count⟩ ⟨0, 0, fun _ => 0⟩ ⟨by decide, by decide⟩ fun _ _ => rfl
  have hbits : ∀ i < 2, (8 : U8).getLsbD (i + 2) = (0x102 : U32).getLsbD i := by
    intro i hi
    obtain rfl | rfl : i = 0 ∨ i = 1 := by omega
    · rfl
    · rfl
  exact ⟨hiff.1.mpr ⟨by decide, fun i hi h => hbits i hi ▸ h, rfl, rfl, rfl⟩,
    hiff.2.mpr ⟨by decide, by decide, fun i hi => (hbits i hi).symm⟩⟩

/-- A frame of 8 bytes with the id `0x100` comes back with the id `0x102`. -/
theorem id_changes :
    (Stm32h.Accepted ⟨0x100, 8, 0, fun _ => 0⟩ ∧
      ¬ Stm32h.Same ⟨0x100, 8, 0, fun _ => 0⟩ (Stm32h.echo ⟨0x100, 8, 0, fun _ => 0⟩)) ∧
    (Pic32mz.Accepted ⟨0x100, 8, fun _ => 0⟩ ∧
      ¬ Pic32mz.Same ⟨0x100, 8, fun _ => 0⟩ (Pic32mz.echo ⟨0x100, 8, fun _ => 0⟩)) := by
  have hstm : (Stm32h.echo ⟨0x100, 8, 0, fun _ => 0⟩).id ≠ 0x100 := by decide
  have hpic : (Pic32mz.echo ⟨0x100, 8, fun _ => 0⟩).id ≠ 0x100 := by decide
  exact ⟨⟨⟨by decide, by decide, by decide⟩, fun h => hstm h.id⟩, ⟨by decide, by decide⟩, fun h => hpic h.id⟩

end BloodKernel.Canfd
