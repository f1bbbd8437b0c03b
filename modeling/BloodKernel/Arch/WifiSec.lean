import BloodKernel.Kernel.Types
import BloodKernel.Lib.Bytes
import BloodKernel.Lib.Flat
import Mathlib.Data.Sym.Sym2

set_option autoImplicit false

/-!
# Encryption and key derivation of the WLAN

`arch/esp32s3/wifi_sec.c` drives an AES peripheral that encrypts one block. Data is encrypted block by block, and
the decryption is the encryption once more. The pairwise key comes from a PRF that encrypts the beginning of its data.

* `aesEncrypt`: one block through the registers; **`aesEncrypt_bijective`**.
* `wifiEncryptData`, `wifiDecryptData`; **`roundTrips_iff`**: the exact condition under which the data come back.
* `wifiDerivePtk`, `ptkBlocks`; **`ptkBlocks_not_separated`**: no two handshakes are told apart.
-/

namespace BloodKernel.WifiSec

open Lib

abbrev Block := Fin 16 → U8

/-- What the peripheral computes of the words in its registers: for each key a permutation. -/
abbrev Peripheral := (Fin 4 → U32) → Equiv.Perm (Fin 4 → U32)

/-- `*(u32*)(b + i*4)`. -/
def loadWords (b : Block) : Fin 4 → U32 := fun i => leWord fun k => (List.ofFn b).getD (4 * i + k) 0

/-- `*(u32*)(out + i*4) = w[i]`. -/
def storeWords (w : Fin 4 → U32) : Block := fun j => leByte ((List.ofFn w).getD (j / 4) 0) (j % 4)

def aesEncrypt (aes : Peripheral) (key input : Block) : Block :=
  storeWords (aes (loadWords key) (loadWords input))

/-! ## Data -/

section Data

variable (aes : Peripheral) (tk : Block) (data : ℕ → U8) (len : U16)

/-- `block[16]`: the data from `i` on, filled up with zeros. -/
def dataBlock (i : U16) : Block := fun j =>
  if (j : ℕ) < min (len.toNat - i.toNat) 16 then data (i.toNat + j) else 0

/-- The loop over the blocks. `i` is a `u16`. -/
def encryptLoop : ℕ → U16 → (ℕ → U8) → Option (ℕ → U8)
  | 0, _, _ => none
  | fuel + 1, i, out =>
      if i < len then
        encryptLoop fuel (i + 16) (writeAt out i.toNat (List.ofFn (aesEncrypt aes tk (dataBlock data len i))))
      else some out

/-- `out` after at most `fuel` turns of the loop. `tk` is the temporal key. -/
def wifiEncryptData (out : ℕ → U8) (fuel : ℕ) : Option (ℕ → U8) := encryptLoop aes tk data len fuel 0 out

def wifiDecryptData (out : ℕ → U8) (fuel : ℕ) : Option (ℕ → U8) := wifiEncryptData aes tk data len out fuel

/-- The call returns, and leaves `c`. -/
def Returns (call : ℕ → Option (ℕ → U8)) (c : ℕ → U8) : Prop := ∃ fuel, call fuel = some c

/-- Nothing is written from `len` on. -/
def Within (out c : ℕ → U8) : Prop := ∀ k, len.toNat ≤ k → c k = out k

/-- Whatever is in the two buffers: both calls return and stay inside of them, and the data come back. -/
def RoundTrips : Prop :=
  ∀ out out' : ℕ → U8, ∃ c p, Returns (wifiEncryptData aes tk data len out) c ∧ Within len out c ∧
    Returns (wifiDecryptData aes tk c len out') p ∧ Within len out' p ∧ ∀ k < len.toNat, p k = data k

/-- The block `m` of the data. -/
def fullBlock (m : ℕ) : Block := fun j => data (16 * m + j)

/-- What is written for block `m`. -/
def cipherBlock (m : ℕ) : Block := aesEncrypt aes tk (dataBlock data len (BitVec.ofNat 16 (16 * m)))

def numBlocks : ℕ := (len.toNat + 15) / 16

/-- The place of byte `k` in its block. -/
def place (k : ℕ) : Fin 16 := ⟨k % 16, Nat.mod_lt k (by decide)⟩

/-- What the loop leaves in `out` from block `m` on. -/
def encrypted (m : ℕ) (out : ℕ → U8) : ℕ → U8 := fun k =>
  if 16 * m ≤ k ∧ k < 16 * numBlocks len then cipherBlock aes tk data len (k / 16) (place k) else out k

end Data

variable {aes : Peripheral} {tk : Block} {data : ℕ → U8} {len : U16} {out c : ℕ → U8} {m : ℕ}

theorem getD_ofFn {α : Type} {n k : ℕ} (f : Fin n → α) (x : α) (h : k < n) : (List.ofFn f).getD k x = f ⟨k, h⟩ := by
  rw [List.getD_eq_getElem _ _ (by rwa [List.length_ofFn]), List.getElem_ofFn]

theorem storeWords_loadWords (b : Block) : storeWords (loadWords b) = b := by
  funext j
  have hj : 4 * (j / 4) + j % 4 = (j : ℕ) := Nat.div_add_mod _ _
  unfold storeWords loadWords
  rw [getD_ofFn _ _ (by omega), leByte_leWord _ (Nat.mod_lt _ (by decide)), hj, getD_ofFn b _ j.isLt]

theorem loadWords_storeWords (w : Fin 4 → U32) : loadWords (storeWords w) = w := by
  funext i
  unfold loadWords
  refine leWord_eq fun k hk => ?_
  have hdiv : (4 * i + k) / 4 = (i : ℕ) := by omega
  have hmod : (4 * i + k) % 4 = k := by omega
  rw [getD_ofFn _ _ (by omega)]
  unfold storeWords
  rw [hdiv, hmod, getD_ofFn w _ i.isLt]

/-- **The peripheral permutes the blocks.** -/
theorem aesEncrypt_bijective (aes : Peripheral) (key : Block) : Function.Bijective (aesEncrypt aes key) := by
  have hload : Function.Bijective loadWords :=
    Function.bijective_iff_has_inverse.mpr ⟨storeWords, storeWords_loadWords, loadWords_storeWords⟩
  have hstore : Function.Bijective storeWords :=
    Function.bijective_iff_has_inverse.mpr ⟨loadWords, loadWords_storeWords, storeWords_loadWords⟩
  exact hstore.comp ((aes (loadWords key)).bijective.comp hload)

/-! ## The loop over the blocks -/

theorem writeAt_block (b : Block) {k : ℕ} : writeAt out (16 * m) (List.ofFn b) k =
    if k / 16 = m then b (place k) else out k := by
  split_ifs with hk
  · obtain ⟨i, rfl⟩ : ∃ i, k = 16 * m + i := ⟨k - 16 * m, by omega⟩
    have hi : i < 16 := by omega
    rw [writeAt_add (by rwa [List.length_ofFn]), List.getElem_ofFn]
    congr 1
    apply Fin.ext
    show i = (16 * m + i) % 16
    omega
  · refine writeAt_of_not ?_
    rw [List.length_ofFn]
    omega

theorem encrypted_writeAt (hm : m < numBlocks len) : encrypted aes tk data len (m + 1)
    (writeAt out (16 * m) (List.ofFn (cipherBlock aes tk data len m))) = encrypted aes tk data len m out := by
  funext k
  unfold encrypted
  rw [writeAt_block]
  by_cases hk : k / 16 = m
  · rw [if_neg (by omega), if_pos hk, if_pos (by omega), hk]
  · rw [if_neg hk]
    exact if_congr (by omega) rfl rfl

theorem encrypted_numBlocks : encrypted aes tk data len (numBlocks len) out = out := by
  funext k
  unfold encrypted
  rw [if_neg (by omega)]

/-- **The loop**, for lengths with which `i` does not wrap. -/
theorem encryptLoop_eq (hlen : len.toNat ≤ 65520) : ∀ (fuel m : ℕ) (out : ℕ → U8), m ≤ numBlocks len →
    encryptLoop aes tk data len fuel (BitVec.ofNat 16 (16 * m)) out =
      if numBlocks len - m < fuel then some (encrypted aes tk data len m out) else none := by
  intro fuel
  induction fuel with
  | zero => exact fun m out _ => rfl
  | succ fuel ih =>
      intro m out hm
      have hle : numBlocks len ≤ 4095 := by unfold numBlocks; omega
      have hval : (BitVec.ofNat 16 (16 * m)).toNat = 16 * m := Nat.mod_eq_of_lt (by omega)
      have hmore : BitVec.ofNat 16 (16 * m) < len ↔ m < numBlocks len := by
        rw [BitVec.lt_def, hval]
        unfold numBlocks
        omega
      unfold encryptLoop
      by_cases hlt : m < numBlocks len
      · have hnext : BitVec.ofNat 16 (16 * m) + 16 = BitVec.ofNat 16 (16 * (m + 1)) :=
          (BitVec.ofNat_add (16 * m) 16).symm
        rw [if_pos (hmore.mpr hlt), hnext, ih _ _ hlt, hval]
        change (if _ then some (encrypted aes tk data len (m + 1)
          (writeAt out (16 * m) (List.ofFn (cipherBlock aes tk data len m)))) else none) = _
        rw [encrypted_writeAt hlt]
        exact if_congr (by omega) rfl rfl
      · obtain rfl : m = numBlocks len := by omega
        rw [if_neg fun h => hlt (hmore.mp h), encrypted_numBlocks, if_pos (by omega)]

/-- With a longer one `i` goes back to 0, and the loop does not end. -/
theorem encryptLoop_of_lt (hlen : 65520 < len.toNat) : ∀ (fuel : ℕ) (i : U16) (out : ℕ → U8), 16 ∣ i.toNat →
    encryptLoop aes tk data len fuel i out = none := by
  intro fuel
  induction fuel with
  | zero => exact fun i out _ => rfl
  | succ fuel ih =>
      intro i out hi
      have hlt : i < len := by
        have := i.isLt
        rw [BitVec.lt_def]
        omega
      have hnext : 16 ∣ (i + 16).toNat := by
        have hsixteen : (16 : U16).toNat = 16 := rfl
        rw [BitVec.toNat_add, hsixteen]
        omega
      unfold encryptLoop
      rw [if_pos hlt, ih _ _ hnext]

theorem returns_iff (hlen : len.toNat ≤ 65520) :
    Returns (wifiEncryptData aes tk data len out) c ↔ c = encrypted aes tk data len 0 out := by
  have hloop (fuel : ℕ) : wifiEncryptData aes tk data len out fuel =
      if numBlocks len < fuel then some (encrypted aes tk data len 0 out) else none :=
    encryptLoop_eq hlen fuel 0 out (Nat.zero_le _)
  constructor
  · rintro ⟨fuel, h⟩
    rw [hloop] at h
    split_ifs at h
    exact (Option.some_inj.mp h).symm
  · rintro rfl
    exact ⟨numBlocks len + 1, by rw [hloop, if_pos (Nat.lt_succ_self _)]⟩

theorem not_returns (hlen : 65520 < len.toNat) : ¬Returns (wifiEncryptData aes tk data len out) c := by
  rintro ⟨fuel, h⟩
  rw [wifiEncryptData, encryptLoop_of_lt hlen fuel 0 out (Nat.dvd_zero 16)] at h
  cases h

/-! ## There and back -/

/-- A last block that is not full goes beyond the buffer. -/
theorem not_roundTrips_of_not_dvd (h : ¬16 ∣ len.toNat) : ¬RoundTrips aes tk data len := by
  intro hr
  by_cases hlen : len.toNat ≤ 65520
  · have hlast (out : ℕ → U8) : encrypted aes tk data len 0 out len.toNat =
        cipherBlock aes tk data len (len.toNat / 16) (place len.toNat) := by
      refine if_pos ⟨Nat.zero_le _, ?_⟩
      unfold numBlocks
      omega
    obtain ⟨c, p, hc, hwithin, -⟩ :=
      hr (fun _ => cipherBlock aes tk data len (len.toNat / 16) (place len.toNat) + 1) 0
    rw [returns_iff hlen] at hc
    have hkept := hwithin len.toNat le_rfl
    rw [hc, hlast] at hkept
    bv_omega
  · obtain ⟨c, p, hc, -⟩ := hr 0 0
    exact not_returns (Nat.not_le.mp hlen) hc

section Full

variable (h : 16 ∣ len.toNat)

include h

theorem encrypted_of_lt {k : ℕ} (hk : k < len.toNat) :
    encrypted aes tk data len 0 out k = aesEncrypt aes tk (fullBlock data (k / 16)) (place k) := by
  have hval : (BitVec.ofNat 16 (16 * (k / 16))).toNat = 16 * (k / 16) := Nat.mod_eq_of_lt (by omega)
  have hblock : dataBlock data len (BitVec.ofNat 16 (16 * (k / 16))) = fullBlock data (k / 16) := by
    funext j
    unfold dataBlock
    rw [hval]
    exact if_pos (by omega)
  unfold encrypted cipherBlock
  rw [hblock]
  refine if_pos ⟨Nat.zero_le _, ?_⟩
  unfold numBlocks
  omega

theorem encrypted_of_le {k : ℕ} (hk : len.toNat ≤ k) : encrypted aes tk data len 0 out k = out k := by
  refine if_neg fun hlt => ?_
  unfold numBlocks at hlt
  omega

theorem fullBlock_encrypted (hm : m < len.toNat / 16) :
    fullBlock (encrypted aes tk data len 0 out) m = aesEncrypt aes tk (fullBlock data m) := by
  funext j
  have hdiv : (16 * m + j) / 16 = m := by omega
  have hmod : place (16 * m + j) = j := Fin.ext (by show (16 * m + j) % 16 = (j : ℕ); omega)
  unfold fullBlock
  rw [encrypted_of_lt h (by omega), hdiv, hmod]
  rfl

/-- With full blocks the data come back exactly when each block does. -/
theorem roundTrips_iff_of_dvd : RoundTrips aes tk data len ↔ ∀ m < len.toNat / 16,
    aesEncrypt aes tk (aesEncrypt aes tk (fullBlock data m)) = fullBlock data m := by
  have hlen : len.toNat ≤ 65520 := by
    have := len.isLt
    omega
  constructor
  · intro hr m hm
    obtain ⟨c, p, hc, -, hp, -, hback⟩ := hr 0 0
    obtain rfl := (returns_iff hlen).mp hc
    obtain rfl := (returns_iff hlen).mp hp
    have hsecond : fullBlock (encrypted aes tk (encrypted aes tk data len 0 0) len 0 0) m =
        aesEncrypt aes tk (aesEncrypt aes tk (fullBlock data m)) := by
      rw [fullBlock_encrypted h hm, fullBlock_encrypted h hm]
    rw [← hsecond]
    funext j
    exact hback _ (by omega)
  · intro hblocks out out'
    refine ⟨_, _, (returns_iff hlen).mpr rfl, fun k => encrypted_of_le h, (returns_iff hlen).mpr rfl,
      fun k => encrypted_of_le h, fun k hk => ?_⟩
    have hm : k / 16 < len.toNat / 16 := by omega
    rw [encrypted_of_lt h hk, fullBlock_encrypted h hm, hblocks _ hm]
    show data (16 * (k / 16) + k % 16) = data k
    rw [Nat.div_add_mod]

end Full

/-- **There and back.** The data come back, and nothing beyond the buffers is written, exactly when all blocks are
full and the key's permutation, done twice, gives each of them back. -/
theorem roundTrips_iff (aes : Peripheral) (tk : Block) (data : ℕ → U8) (len : U16) :
    RoundTrips aes tk data len ↔ 16 ∣ len.toNat ∧ ∀ m < len.toNat / 16,
      aesEncrypt aes tk (aesEncrypt aes tk (fullBlock data m)) = fullBlock data m := by
  constructor
  · intro hr
    have hdvd : 16 ∣ len.toNat := not_not.mp fun h => not_roundTrips_of_not_dvd h hr
    exact ⟨hdvd, (roundTrips_iff_of_dvd hdvd).mp hr⟩
  · rintro ⟨hdvd, hblocks⟩
    exact (roundTrips_iff_of_dvd hdvd).mpr hblocks

/-- A peripheral that adds one to each word, whatever the key. -/
def addOne : Peripheral := fun _ =>
  { toFun := fun w i => w i + 1
    invFun := fun w i => w i - 1
    left_inv := fun w => by simp
    right_inv := fun w => by simp }

theorem aesEncrypt_addOne (key : Block) : aesEncrypt addOne key (aesEncrypt addOne key 0) 0 = 2 := by
  unfold aesEncrypt
  rw [loadWords_storeWords]
  show storeWords (addOne 0 (addOne 0 (loadWords 0))) 0 = 2
  decide

/-- One full block, which the second encryption does not give back, and a single byte, for which 16 are written. -/
theorem not_roundTrips : ¬RoundTrips addOne 0 0 16 ∧ ¬RoundTrips addOne 0 0 1 := by
  refine ⟨fun h => ?_, not_roundTrips_of_not_dvd (by decide)⟩
  have hback := (roundTrips_iff_of_dvd (by decide)).mp h 0 (by decide)
  have hbyte : aesEncrypt addOne 0 (aesEncrypt addOne 0 0) 0 = 0 := congrFun hback 0
  rw [aesEncrypt_addOne] at hbyte
  exact absurd hbyte (by decide)

/-! ## The pairwise key -/

/-- What `wifi_derive_ptk` is given. -/
structure Handshake where
  anonce : Fin 32 → U8
  snonce : Fin 32 → U8
  aa : Fin 6 → U8
  spa : Fin 6 → U8

/-- "Pairwise key expansion", with its final zero. -/
def label : List U8 :=
  [0x50, 0x61, 0x69, 0x72, 0x77, 0x69, 0x73, 0x65, 0x20, 0x6B, 0x65, 0x79, 0x20,
    0x65, 0x78, 0x70, 0x61, 0x6E, 0x73, 0x69, 0x6F, 0x6E, 0x00]

/-- The pair with the one first whose first byte is less. -/
def inOrder {n : ℕ} [NeZero n] (x y : Fin n → U8) : List U8 :=
  if x 0 < y 0 then List.ofFn x ++ List.ofFn y else List.ofFn y ++ List.ofFn x

/-- The bytes stored in `data`, all 99 of them. -/
def ptkData (h : Handshake) : List U8 := label ++ inOrder h.aa h.spa ++ inOrder h.anonce h.snonce

/-- `tmp[j] = data[j % len] ^ key[j] ^ (i >> 4)`. -/
def prfBlock (key : Fin 32 → U8) (data : List U8) (i : ℕ) : Block := fun j =>
  data.getD (j % data.length) 0 ^^^ key (Fin.castLE (by decide) j) ^^^ BitVec.ofNat 8 (i >>> 4)

/-- The blocks that `prf` gives to the cipher: for each `i` below `out_len` in steps of 16. -/
def prfBlocks (key : Fin 32 → U8) (data : List U8) (outLen : ℕ) : List Block :=
  ((List.range outLen).filter fun i => decide (16 ∣ i)).map (prfBlock key data)

/-- The blocks stored in `out`. The first 16 bytes of `key` are the key of the cipher. -/
def prf (aes : Peripheral) (key : Fin 32 → U8) (data : List U8) (outLen : ℕ) : List Block :=
  (prfBlocks key data outLen).map (aesEncrypt aes fun j => key (Fin.castLE (by decide) j))

/-- The 56 bytes of `ptk_t`, and what is stored behind them. -/
def wifiDerivePtk (aes : Peripheral) (pmk : Fin 32 → U8) (h : Handshake) : List Block := prf aes pmk (ptkData h) 56

/-- What a call gives to the cipher. -/
def ptkBlocks (pmk : Fin 32 → U8) (h : Handshake) : List Block := prfBlocks pmk (ptkData h) 56

/-- The addresses or the nonces differ, as unordered pairs. -/
def Differ (h h' : Handshake) : Prop :=
  s(h.aa, h.spa) ≠ s(h'.aa, h'.spa) ∨ s(h.anonce, h.snonce) ≠ s(h'.anonce, h'.snonce)

theorem length_inOrder {n : ℕ} [NeZero n] (x y : Fin n → U8) : (inOrder x y).length = 2 * n := by
  unfold inOrder
  split_ifs <;> rw [List.length_append, List.length_ofFn, List.length_ofFn, Nat.two_mul]

theorem length_ptkData (h : Handshake) : (ptkData h).length = 99 := by
  unfold ptkData
  rw [List.length_append, List.length_append, length_inOrder, length_inOrder]
  rfl

/-- Only the first 16 bytes of the data are looked at, and these are the label's. -/
theorem prfBlock_ptkData (pmk : Fin 32 → U8) (h : Handshake) (i : ℕ) :
    prfBlock pmk (ptkData h) i = prfBlock pmk label i := by
  funext j
  have hlabel : label.length = 23 := rfl
  have hj : (j : ℕ) < label.length := by omega
  unfold prfBlock
  rw [length_ptkData, hlabel, Nat.mod_eq_of_lt (by omega), Nat.mod_eq_of_lt (by omega), ptkData, List.append_assoc,
    List.getD_append _ _ _ _ hj]

theorem ptkBlocks_eq (pmk : Fin 32 → U8) (h : Handshake) : ptkBlocks pmk h = prfBlocks pmk label 56 :=
  List.map_congr_left fun i _ => prfBlock_ptkData pmk h i

/-- **No handshakes are told apart**: all of them give the same blocks to the cipher, and lead to the same key. -/
theorem ptkBlocks_not_separated (pmk : Fin 32 → U8) :
    (¬∃ h h', Differ h h' ∧ ptkBlocks pmk h ≠ ptkBlocks pmk h') ∧
      ∀ aes h h', wifiDerivePtk aes pmk h = wifiDerivePtk aes pmk h' := by
  refine ⟨?_, fun aes h h' => ?_⟩
  · rintro ⟨h, h', -, hne⟩
    exact hne ((ptkBlocks_eq pmk h).trans (ptkBlocks_eq pmk h').symm)
  · have hblocks : ptkBlocks pmk h = ptkBlocks pmk h' := (ptkBlocks_eq pmk h).trans (ptkBlocks_eq pmk h').symm
    exact congrArg (List.map _) hblocks

/-- All zero, and with one bit of the first nonce set. -/
theorem zero_one_not_separated :
    Differ ⟨0, 0, 0, 0⟩ ⟨fun i => if i = 0 then 1 else 0, 0, 0, 0⟩ ∧
      ptkBlocks 0 ⟨0, 0, 0, 0⟩ = ptkBlocks 0 ⟨fun i => if i = 0 then 1 else 0, 0, 0, 0⟩ := by
  refine ⟨.inr fun h => ?_, (ptkBlocks_eq _ _).trans (ptkBlocks_eq _ _).symm⟩
  have hfirst : (0 : Fin 32 → U8) = fun i => if i = 0 then 1 else 0 := by
    rcases Sym2.eq_iff.mp h with ⟨h, -⟩ | ⟨-, h⟩
    · exact h
    · exact h
  have hbyte : (0 : U8) = 1 := congrFun hfirst 0
  exact absurd hbyte (by decide)

end BloodKernel.WifiSec
