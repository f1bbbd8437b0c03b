import BloodKernel.Arch.Canfd

set_option autoImplicit false

/-!
# The message memory of the CAN controller

`canfd_init` of `arch/stm32h/canfd.c` divides the 2 KB of `msg_ram` between filters, received messages and messages
to send. `canfd_send` and `canfd_recv` find an element by an index that the controller reports, 72 bytes for each.

* `Area`: the areas that are configured; `indices`: the data loop; `sendWrites`, `sendReads`, `recvReads`,
  `recvWrites`: the accesses of the two functions.
* `mem_indices_iff`: the values that the counter of the loop takes on, also where it wraps.
* `canfdSend_frame`: no other words are changed.
* `sendSafe_iff`: a frame that is sent is always written to the received messages, or behind `msg_ram`.
* **`accesses_safe_iff`**: when both functions access only what they should.
-/

namespace BloodKernel.Canfd.Stm32h

open Lib

/-! ### The areas -/

/-- The words of `msg_ram`. -/
def ramWords : ℕ := 512

/-- An area as it is configured: the offset in bytes from `msg_ram`, and the number of elements. -/
structure Area where
  offset : ℕ
  count : ℕ

/-- `FDCAN1->SIDFC` -/
def sidfc : Area := ⟨0, 128⟩

/-- `FDCAN1->XIDFC` -/
def xidfc : Area := ⟨512, 64⟩

/-- `FDCAN1->RXF0C` -/
def rxf0c : Area := ⟨1024, 64⟩

/-- A word is in one of the elements, of `size` words each. -/
def Area.Holds (a : Area) (size w : ℕ) : Prop := a.offset / 4 ≤ w ∧ w < a.offset / 4 + a.count * size

/-- The words of an element with data, by the code of its size in `RXESC`. The driver leaves the code zero, and
counts 72 bytes for an element. -/
def elementWords (code : Fin 8) : ℕ := [4, 5, 6, 7, 8, 10, 14, 18].getD code 4

/-! ### The accesses -/

/-- The values of `i` in the loop `for (u8 i = 0; i < len; i += 4)`, in at most `fuel` rounds from `i` on. -/
def indices (len : U8) : ℕ → U8 → List U8
  | 0, _ => []
  | fuel + 1, i => if i < len then i :: indices len fuel (i + 4) else []

/-- The four bytes of the data at each of them. -/
def dataBytes (is : List U8) : List ℕ := is.flatMap fun i => [i.toNat, i.toNat + 1, i.toNat + 2, i.toNat + 3]

/-- The words of `msg_ram` at each of them. -/
def dataWords (buf : ℕ) (is : List U8) : List ℕ := is.map fun i => buf + 2 + i.toNat / 4

/-- The words that `canfd_send` writes in at most `fuel` rounds. -/
def sendWrites (txfqs : U32) (f : Frame) (fuel : ℕ) : List ℕ :=
  if txfqs &&& 0x3F = 0 then [] else txBuf txfqs :: dataWords (txBuf txfqs) (indices f.len fuel 0)

/-- The bytes of `f->data` that it reads. -/
def sendReads (txfqs : U32) (f : Frame) (fuel : ℕ) : List ℕ :=
  if txfqs &&& 0x3F = 0 then [] else dataBytes (indices f.len fuel 0)

/-- The length that `canfd_recv` finds. -/
def recvLen (rxf0s : U32) (ram : ℕ → U32) : U8 := lenField (ram (rxBuf rxf0s + 1))

def recvReads (rxf0s : U32) (ram : ℕ → U32) (fuel : ℕ) : List ℕ :=
  if rxf0s &&& 0x7F = 0 then []
  else rxBuf rxf0s :: (rxBuf rxf0s + 1) :: dataWords (rxBuf rxf0s) (indices (recvLen rxf0s ram) fuel 0)

/-- The bytes of `f->data` that it writes. -/
def recvWrites (rxf0s : U32) (ram : ℕ → U32) (fuel : ℕ) : List ℕ :=
  if rxf0s &&& 0x7F = 0 then [] else dataBytes (indices (recvLen rxf0s ram) fuel 0)

/-- `canfd_send` writes only inside of `msg_ram`, and no filter and no received message, and reads only the data of the
frame. -/
structure SendSafe (code : Fin 8) (txfqs : U32) (f : Frame) : Prop where
  inside : ∀ fuel, ∀ w ∈ sendWrites txfqs f fuel, w < ramWords
  received : ∀ fuel, ∀ w ∈ sendWrites txfqs f fuel, ¬rxf0c.Holds (elementWords code) w
  filters : ∀ fuel, ∀ w ∈ sendWrites txfqs f fuel, ¬sidfc.Holds 1 w ∧ ¬xidfc.Holds 2 w
  data : ∀ fuel, ∀ k ∈ sendReads txfqs f fuel, k < 64

/-- `canfd_recv` reads only inside of `msg_ram`, and writes only the data of the frame. -/
structure RecvSafe (rxf0s : U32) (ram : ℕ → U32) : Prop where
  inside : ∀ fuel, ∀ w ∈ recvReads rxf0s ram fuel, w < ramWords
  data : ∀ fuel, ∀ k ∈ recvWrites rxf0s ram fuel, k < 64

/-- The index at which the next frame is put. -/
def putIndex (txfqs : U32) : ℕ := ((txfqs >>> 16) &&& 0x1F).toNat

/-- The index from which the next one is got. -/
def getIndex (rxf0s : U32) : ℕ := ((rxf0s >>> 8) &&& 0x3F).toNat

/-! ### The loop -/

variable {len i j : U8} {fuel : ℕ} {txfqs rxf0s : U32} {f : Frame} {ram : ℕ → U32} {code : Fin 8}

theorem txBuf_eq (txfqs : U32) : txBuf txfqs = 384 + 18 * putIndex txfqs := by
  unfold txBuf putIndex
  omega

theorem rxBuf_eq (rxf0s : U32) : rxBuf rxf0s = 256 + 18 * getIndex rxf0s := by
  unfold rxBuf getIndex
  omega

theorem mod_four_add : ∀ i : U8, i.toNat % 4 = 0 → (i + 4).toNat % 4 = 0 := by
  decide

theorem of_mem_indices (hj : j.toNat % 4 = 0) (h : i ∈ indices len fuel j) : i.toNat % 4 = 0 ∧ i < len := by
  induction fuel generalizing j with
  | zero => cases h
  | succ fuel ih =>
      unfold indices at h
      split_ifs at h with hlt
      · rcases List.mem_cons.mp h with rfl | h
        · exact ⟨hj, hlt⟩
        · exact ih (mod_four_add j hj) h
      · cases h

theorem mem_indices (n : ℕ) (hn : 4 * n < len.toNat) : BitVec.ofNat 8 (4 * n) ∈ indices len (n + 1) 0 := by
  have hlen := len.isLt
  have hlt {m : ℕ} (hm : m ≤ n) : BitVec.ofNat 8 (4 * m) < len := by
    rw [BitVec.lt_def, BitVec.toNat_ofNat]
    omega
  have hall : ∀ m k, m + k = n → BitVec.ofNat 8 (4 * n) ∈ indices len (k + 1) (BitVec.ofNat 8 (4 * m)) := by
    intro m k
    induction k generalizing m with
    | zero =>
        rintro rfl
        unfold indices
        rw [if_pos (hlt (Nat.le_add_right m 0))]
        exact List.mem_cons_self
    | succ k ih =>
        intro hmk
        have hnext : BitVec.ofNat 8 (4 * m) + 4 = BitVec.ofNat 8 (4 * (m + 1)) := (BitVec.ofNat_add (4 * m) 4).symm
        unfold indices
        rw [if_pos (hlt (by omega)), hnext]
        exact List.mem_cons_of_mem _ (ih (m + 1) (by omega))
  have hzero := hall 0 n (Nat.zero_add n)
  rwa [Nat.mul_zero] at hzero

/-- **The values of the counter.** -/
theorem mem_indices_iff : (∃ fuel, i ∈ indices len fuel 0) ↔ i.toNat % 4 = 0 ∧ i < len := by
  constructor
  · rintro ⟨fuel, h⟩
    exact of_mem_indices rfl h
  · rintro ⟨hmod, hlt⟩
    have hval : 4 * (i.toNat / 4) = i.toNat := by omega
    have hmem : BitVec.ofNat 8 (4 * (i.toNat / 4)) ∈ indices len (i.toNat / 4 + 1) 0 :=
      mem_indices _ (by rw [hval]; exact hlt)
    rw [hval, BitVec.ofNat_toNat, BitVec.setWidth_eq] at hmem
    exact ⟨_, hmem⟩

theorem forall_indices_iff {P : U8 → Prop} :
    (∀ fuel, ∀ i ∈ indices len fuel 0, P i) ↔ ∀ i : U8, i.toNat % 4 = 0 → i < len → P i := by
  constructor
  · intro h i hmod hlt
    obtain ⟨fuel, hi⟩ := mem_indices_iff.mpr ⟨hmod, hlt⟩
    exact h fuel i hi
  · intro h fuel i hi
    obtain ⟨hmod, hlt⟩ := mem_indices_iff.mp ⟨fuel, hi⟩
    exact h i hmod hlt

theorem dataBytes_lt_iff : (∀ fuel, ∀ k ∈ dataBytes (indices len fuel 0), k < 64) ↔ len.toNat ≤ 64 := by
  have hfour : (∀ fuel, ∀ k ∈ dataBytes (indices len fuel 0), k < 64) ↔
      ∀ fuel, ∀ i ∈ indices len fuel 0, i.toNat + 3 < 64 := by
    refine forall_congr' fun fuel => ⟨fun h i hi => ?_, fun h k hk => ?_⟩
    · exact h _ (List.mem_flatMap.mpr ⟨i, hi, by simp⟩)
    · obtain ⟨i, hi, hk⟩ := List.mem_flatMap.mp hk
      have hlt := h i hi
      simp only [List.mem_cons, List.not_mem_nil, or_false] at hk
      omega
  rw [hfour, forall_indices_iff]
  constructor
  · intro h
    by_contra hlong
    exact absurd (h 64 (by decide) (Nat.not_le.mp hlong)) (by decide)
  · intro hlen i hmod hlt
    have hlt : i.toNat < len.toNat := hlt
    omega

theorem dataWords_lt_iff {buf : ℕ} : (∀ fuel, ∀ w ∈ dataWords buf (indices len fuel 0), w < ramWords) ↔
    len.toNat = 0 ∨ buf + 2 + (len.toNat + 3) / 4 ≤ ramWords := by
  have hmap : (∀ fuel, ∀ w ∈ dataWords buf (indices len fuel 0), w < ramWords) ↔
      ∀ fuel, ∀ i ∈ indices len fuel 0, buf + 2 + i.toNat / 4 < ramWords :=
    forall_congr' fun fuel => List.forall_mem_map
  rw [hmap, forall_indices_iff]
  constructor
  · intro h
    by_contra hno
    obtain ⟨hpos, hlong⟩ := not_or.mp hno
    have hlt := len.isLt
    have hval : (BitVec.ofNat 8 (4 * ((len.toNat - 1) / 4))).toNat = 4 * ((len.toNat - 1) / 4) :=
      Nat.mod_eq_of_lt (by omega)
    have hlast := h (BitVec.ofNat 8 (4 * ((len.toNat - 1) / 4))) (by rw [hval]; omega)
      (by rw [BitVec.lt_def, hval]; omega)
    rw [hval] at hlast
    omega
  · intro h i hmod hlt
    have hlt : i.toNat < len.toNat := hlt
    omega

/-! ### Sending -/

theorem putWords_of_le {first n w : ℕ} {data : ℕ → U8} (h : first + n ≤ w) :
    putWords first data n ram w = ram w := by
  induction n with
  | zero => rfl
  | succ n ih => rw [putWords, Function.update_of_ne (by omega), ih (by omega)]

theorem canfdSend_frame {w : ℕ} (h : ∀ fuel, w ∉ sendWrites txfqs f fuel) : (canfdSend txfqs ram f).2 w = ram w := by
  unfold canfdSend
  unfold sendWrites at h
  by_cases hfull : txfqs &&& 0x3F = 0
  · rw [if_pos hfull]
  · simp only [if_neg hfull, List.mem_cons, not_or] at h
    have hfirst : w ≠ txBuf txfqs := (h 0).1
    rw [if_neg hfull]
    dsimp only
    by_cases hbefore : w < txBuf txfqs + 2
    · rw [putWords_of_ne hbefore, Function.update_of_ne hfirst]
    by_cases hbehind : txBuf txfqs + 2 + rounds f.len ≤ w
    · rw [putWords_of_le hbehind, Function.update_of_ne hfirst]
    · -- a word of the data
      unfold rounds at hbehind
      have hlt : 4 * (w - (txBuf txfqs + 2)) < f.len.toNat := by omega
      have hlen := f.len.isLt
      have hval : (BitVec.ofNat 8 (4 * (w - (txBuf txfqs + 2)))).toNat = 4 * (w - (txBuf txfqs + 2)) :=
        Nat.mod_eq_of_lt (by omega)
      refine absurd (List.mem_map.mpr ⟨_, mem_indices _ hlt, ?_⟩) (h _).2
      rw [hval]
      omega

theorem forall_mem_of_nil {accesses : ℕ → List ℕ} (h : ∀ fuel, accesses fuel = []) {P : ℕ → Prop} :
    ∀ fuel, ∀ k ∈ accesses fuel, P k := by
  intro fuel k hk
  rw [h] at hk
  cases hk

theorem four_le_elementWords : ∀ code : Fin 8, 4 ≤ elementWords code := by
  decide

/-- **Sending.** The received messages, of whatever size, take up all of `msg_ram` behind the filters. -/
theorem sendSafe_iff : SendSafe code txfqs f ↔ txfqs &&& 0x3F = 0 := by
  constructor
  · intro h
    by_contra hfull
    have hmem : txBuf txfqs ∈ sendWrites txfqs f 0 := by
      unfold sendWrites
      rw [if_neg hfull]
      exact List.mem_cons_self
    have hinside := h.inside 0 _ hmem
    have hsize := four_le_elementWords code
    refine h.received 0 _ hmem ⟨?_, ?_⟩
    · rw [txBuf_eq]
      show 1024 / 4 ≤ 384 + 18 * putIndex txfqs
      omega
    · show txBuf txfqs < 1024 / 4 + 64 * elementWords code
      unfold ramWords at hinside
      omega
  · intro hfull
    have hwrites (fuel : ℕ) : sendWrites txfqs f fuel = [] := if_pos hfull
    have hreads (fuel : ℕ) : sendReads txfqs f fuel = [] := if_pos hfull
    exact ⟨forall_mem_of_nil hwrites, forall_mem_of_nil hwrites, forall_mem_of_nil hwrites, forall_mem_of_nil hreads⟩

/-! ### Receiving -/

/-- **Receiving.** From index 14 on an element can reach beyond `msg_ram`. -/
theorem recvSafe_iff : RecvSafe rxf0s ram ↔
    rxf0s &&& 0x7F = 0 ∨ getIndex rxf0s ≤ 13 ∨ getIndex rxf0s = 14 ∧ (recvLen rxf0s ram).toNat ≤ 8 := by
  have hlen : (recvLen rxf0s ram).toNat < 16 := toNat_lenField_lt _
  by_cases hempty : rxf0s &&& 0x7F = 0
  · have hreads (fuel : ℕ) : recvReads rxf0s ram fuel = [] := if_pos hempty
    have hwrites (fuel : ℕ) : recvWrites rxf0s ram fuel = [] := if_pos hempty
    exact iff_of_true ⟨forall_mem_of_nil hreads, forall_mem_of_nil hwrites⟩ (.inl hempty)
  · have hinside : (∀ fuel, ∀ w ∈ recvReads rxf0s ram fuel, w < ramWords) ↔
        getIndex rxf0s ≤ 13 ∨ getIndex rxf0s = 14 ∧ (recvLen rxf0s ram).toNat ≤ 8 := by
      have hwords := @dataWords_lt_iff (recvLen rxf0s ram) (rxBuf rxf0s)
      unfold recvReads
      simp only [if_neg hempty, List.forall_mem_cons, forall_and]
      rw [forall_const, forall_const, hwords, rxBuf_eq]
      unfold ramWords
      omega
    have hdata : ∀ fuel, ∀ k ∈ recvWrites rxf0s ram fuel, k < 64 := by
      unfold recvWrites
      simp only [if_neg hempty]
      exact dataBytes_lt_iff.mpr (by omega)
    rw [or_iff_right hempty, ← hinside]
    exact ⟨RecvSafe.inside, fun h => ⟨h, hdata⟩⟩

/-- **Exactness.** Whatever the size of the received messages: `canfd_send` accesses only what it should exactly when
no message can be sent, and `canfd_recv` exactly when there is none, or it is one of the first, or the one with index
14 and at most 8 bytes. -/
theorem accesses_safe_iff (code : Fin 8) (txfqs rxf0s : U32) (f : Frame) (ram : ℕ → U32) :
    (SendSafe code txfqs f ↔ txfqs &&& 0x3F = 0) ∧
      (RecvSafe rxf0s ram ↔ rxf0s &&& 0x7F = 0 ∨ getIndex rxf0s ≤ 13 ∨
        getIndex rxf0s = 14 ∧ (recvLen rxf0s ram).toNat ≤ 8) :=
  ⟨sendSafe_iff, recvSafe_iff⟩

/-- An empty frame put at index 0 is written to a received message; one got from index 15 is not in `msg_ram`. -/
theorem not_accesses_safe :
    ¬SendSafe 0 0x01 ⟨0, 0, 0, fun _ => 0⟩ ∧ ¬RecvSafe 0x0F01 fun _ => 0 := by
  refine ⟨fun h => ?_, fun h => ?_⟩
  · exact h.received 0 384 (by decide) ⟨by decide, by decide⟩
  · exact absurd (h.inside 0 526 (by decide)) (by decide)

end BloodKernel.Canfd.Stm32h
