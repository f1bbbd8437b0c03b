import BloodKernel.Arch.WifiSec

set_option autoImplicit false

/-!
# What the key derivation of the WLAN writes

The label, the addresses and the nonces of a handshake are put into `data[76]`, the PRF stores whole blocks, and a
frame is copied to `tmp[512]` to check its MIC. The lengths of the name and of the password are divided by.

* `wifiDerivePtkStores`, `wifiDeriveGtkStores`, `wifiVerifyMic`, `wifiDerivePmk`: the stores, with their places.
* `inside_pushed_iff`, **`inside_prfStores_iff`**: the PRF stays inside its output when that has whole blocks.
* **`derivations_inside_iff`**: which functions stay inside their arrays, and for which lengths.
-/

namespace BloodKernel.WifiSec

/-- Stores to an array, in order: the byte and its place. -/
abbrev Stores := List (U8 × ℕ)

/-- All stores are to the first `n` bytes. -/
def Inside (n : ℕ) (ws : Stores) : Prop := ∀ w ∈ ws, w.2 < n

/-- `data[i++]` for each of the bytes. `i` is a `u8`. -/
def pushed (l : List U8) : Stores := l.zipIdx.map fun w => (w.1, w.2 % 256)

def cipherKey (key : Fin 32 → U8) : Block := fun j => key (Fin.castAdd 16 j)

/-- `prf` stores a block at `out + i`, for each `i` below `out_len` in steps of 16. -/
def prfStores (aes : Peripheral) (key : Fin 32 → U8) (data : List U8) (outLen : ℕ) : Stores :=
  ((List.range outLen).filter fun i => decide (16 ∣ i)).flatMap fun i =>
    (List.ofFn (aesEncrypt aes (cipherKey key) (prfBlock key data i))).zipIdx i

/-- What a derivation stores in its array `data`, and from its target on. -/
structure Derivation where
  data : Stores
  out : Stores

/-- `ptk_t` has 56 bytes. -/
def wifiDerivePtkStores (aes : Peripheral) (pmk : Fin 32 → U8) (h : Handshake) : Derivation :=
  ⟨pushed (ptkData h), prfStores aes pmk (ptkData h) 56⟩

/-- "Group key expansion", with its final zero. -/
def groupLabel : List U8 :=
  [0x47, 0x72, 0x6F, 0x75, 0x70, 0x20, 0x6B, 0x65, 0x79, 0x20, 0x65, 0x78, 0x70, 0x61, 0x6E, 0x73, 0x69, 0x6F, 0x6E,
    0x00]

/-- Of the nonce six bytes are taken. -/
def gtkNonce (gnonce : ℕ → U8) : List U8 := (List.range 6).map gnonce

/-- The bytes of `data[32]`. -/
def gtkData (gnonce : ℕ → U8) (aa : Fin 6 → U8) : List U8 := groupLabel ++ List.ofFn aa ++ gtkNonce gnonce

/-- `gtk_t` has 22 bytes. -/
def wifiDeriveGtkStores (aes : Peripheral) (pmk : Fin 32 → U8) (gnonce : ℕ → U8) (aa : Fin 6 → U8) : Derivation :=
  ⟨groupLabel.zipIdx ++ (List.ofFn aa).zipIdx 20 ++ (gtkNonce gnonce).zipIdx 26,
    prfStores aes pmk (gtkData gnonce aa) 22⟩

/-- The frame is copied, and its MIC overwritten with zeros. -/
def micStores (eapol : ℕ → U8) (len : U16) : Stores :=
  ((List.range len.toNat).map eapol).zipIdx ++ (List.replicate 16 0).zipIdx 77

/-- The stores to `tmp[512]`, and the result. `tmp` is not initialised. -/
def wifiVerifyMic (aes : Peripheral) (kck : Block) (tmp eapol : ℕ → U8) (len : U16) (mic : Block) : Stores × Bool :=
  let copied := (micStores eapol len).foldl (fun tmp w => Function.update tmp w.2 w.1) tmp
  (micStores eapol len, decide (aesEncrypt aes kck (fun j => copied j) = mic))

/-- `i % len`, which has no result when `len` is 0. -/
def modLen (i : ℕ) (len : U8) : Option ℕ := if len = 0 then none else some (i % len.toNat)

/-- The loop that fills `tmp`. -/
def pbkdf2Start (pass : ℕ → U8) (passLen : U8) (salt : ℕ → U8) (saltLen : U8) : Option (List U8) :=
  (List.range 32).mapM fun i =>
    (modLen i passLen).bind fun j => (modLen i saltLen).map fun k => pass j ^^^ salt k

/-- PBKDF2 with 4096 iterations: `hash[i] = tmp[i] ^ (iter & 0xFF)`. -/
def pbkdf2 (pass : ℕ → U8) (passLen : U8) (salt : ℕ → U8) (saltLen : U8) : Option (List U8) :=
  (pbkdf2Start pass passLen salt saltLen).map fun tmp =>
    (List.range 4096).foldl (fun tmp iter => tmp.map fun b => b ^^^ BitVec.ofNat 8 iter) tmp

/-- What is stored in `pmk`. -/
def wifiDerivePmk (ssid : ℕ → U8) (ssidLen : U8) (pass : ℕ → U8) (passLen : U8) : Option (List U8) :=
  pbkdf2 pass passLen ssid ssidLen

variable {aes : Peripheral} {key : Fin 32 → U8} {data l : List U8} {ws ws' : Stores} {n outLen : ℕ}

theorem inside_append : Inside n (ws ++ ws') ↔ Inside n ws ∧ Inside n ws' := List.forall_mem_append

theorem inside_zipIdx_iff {k : ℕ} : Inside n (l.zipIdx k) ↔ l = [] ∨ k + l.length ≤ n := by
  constructor
  · intro h
    rcases List.eq_nil_or_concat l with rfl | ⟨l, b, rfl⟩
    · exact .inl rfl
    · refine .inr ?_
      have hmem : (b, k + l.length) ∈ (l.concat b).zipIdx k := by
        rw [List.mk_mem_zipIdx_iff_le_and_getElem?_sub, Nat.add_sub_cancel_left, List.concat_eq_append,
          List.getElem?_concat_length]
        exact ⟨Nat.le_add_right _ _, rfl⟩
      rw [List.length_concat]
      exact h _ hmem
  · rintro (rfl | h)
    · exact fun w hw => by cases hw
    · exact fun w hw => (List.snd_lt_add_of_mem_zipIdx hw).trans_le h

/-- `data[i++]` stays inside when the array is long enough for the bytes, as long as `i` does not wrap. -/
theorem inside_pushed_iff (hlen : l.length ≤ 256) : Inside n (pushed l) ↔ l.length ≤ n := by
  have hwrap : pushed l = l.zipIdx := by
    refine (List.map_congr_left fun w hw => ?_).trans (List.map_id _)
    have hlt := List.snd_lt_of_mem_zipIdx hw
    exact Prod.ext rfl (Nat.mod_eq_of_lt (hlt.trans_le hlen))
  rw [hwrap, inside_zipIdx_iff, Nat.zero_add]
  refine ⟨?_, .inr⟩
  rintro (rfl | h)
  · exact Nat.zero_le _
  · exact h

/-- **The output of the PRF.** -/
theorem inside_prfStores_iff : Inside outLen (prfStores aes key data outLen) ↔ 16 ∣ outLen := by
  unfold prfStores Inside
  simp only [List.mem_flatMap, List.mem_filter, List.mem_range, decide_eq_true_eq]
  constructor
  · intro h
    by_contra hnot
    -- The last block begins inside of the output, and its last byte lies behind it.
    have hstart : 16 * (outLen / 16) < outLen := by omega
    have hlast := inside_zipIdx_iff.mp fun w hw => h w ⟨_, ⟨hstart, Nat.dvd_mul_right 16 _⟩, hw⟩
    rcases hlast with hnil | hle
    · have hlen := congrArg List.length hnil
      rw [List.length_ofFn] at hlen
      exact absurd hlen (by decide)
    · rw [List.length_ofFn] at hle
      omega
  · rintro hdvd w ⟨i, ⟨hi, hdvd'⟩, hw⟩
    have hlt := List.snd_lt_add_of_mem_zipIdx hw
    rw [List.length_ofFn] at hlt
    omega

theorem prfStores_map_fst : (prfStores aes key data outLen).map Prod.fst =
    (prf aes key data outLen).flatMap fun b => List.ofFn b := by
  unfold prfStores prf prfBlocks
  rw [List.map_flatMap, List.flatMap_map, List.flatMap_map]
  refine List.flatMap_congr fun i _ => ?_
  rw [List.zipIdx_map_fst]
  rfl

/-! ## The four functions -/

variable {pmk : Fin 32 → U8} {gnonce tmp eapol ssid pass : ℕ → U8} {aa : Fin 6 → U8} {kck mic : Block} {len : U16}
  {ssidLen passLen : U8}

/-- 99 bytes are put into `data[76]`, and 64 are stored from the start of the 56 bytes of `ptk`. -/
theorem not_inside_ptk (aes : Peripheral) (pmk : Fin 32 → U8) (h : Handshake) :
    ¬Inside 76 (wifiDerivePtkStores aes pmk h).data ∧ ¬Inside 56 (wifiDerivePtkStores aes pmk h).out := by
  have hlen := length_ptkData h
  refine ⟨fun hin => ?_, fun hin => absurd (inside_prfStores_iff.mp hin) (by decide)⟩
  have hle := (inside_pushed_iff (by omega)).mp hin
  omega

/-- The group key: `data[32]` is filled, and 32 bytes are stored from the start of the 22 bytes of `gtk`. -/
theorem inside_gtk (aes : Peripheral) (pmk : Fin 32 → U8) (gnonce : ℕ → U8) (aa : Fin 6 → U8) :
    Inside 32 (wifiDeriveGtkStores aes pmk gnonce aa).data ∧
      ¬Inside 22 (wifiDeriveGtkStores aes pmk gnonce aa).out := by
  constructor
  · refine inside_append.mpr ⟨inside_append.mpr ⟨?_, ?_⟩, ?_⟩
    · exact inside_zipIdx_iff.mpr (.inr (by decide))
    · exact inside_zipIdx_iff.mpr (.inr (by rw [List.length_ofFn]; decide))
    · refine inside_zipIdx_iff.mpr (.inr ?_)
      unfold gtkNonce
      rw [List.length_map, List.length_range]
  · exact fun hin => absurd (inside_prfStores_iff.mp hin) (by decide)

theorem inside_mic_iff : Inside 512 (wifiVerifyMic aes kck tmp eapol len mic).1 ↔ len.toNat ≤ 512 := by
  have hzeros : Inside 512 ((List.replicate 16 (0 : U8)).zipIdx 77) :=
    inside_zipIdx_iff.mpr (.inr (by rw [List.length_replicate]; decide))
  refine inside_append.trans ((and_iff_left hzeros).trans (inside_zipIdx_iff.trans ?_))
  rw [List.map_eq_nil_iff, List.range_eq_nil, Nat.zero_add, List.length_map, List.length_range]
  omega

theorem modLen_of_ne {i : ℕ} {len : U8} (h : len ≠ 0) : modLen i len = some (i % len.toNat) := if_neg h

theorem modLen_zero (i : ℕ) : modLen i 0 = none := if_pos rfl

theorem isSome_pbkdf2Start_iff : (pbkdf2Start pass passLen ssid ssidLen).isSome ↔ ssidLen ≠ 0 ∧ passLen ≠ 0 := by
  have hrange : List.range 32 = 0 :: List.range' 1 31 := rfl
  unfold pbkdf2Start
  constructor
  · intro h
    constructor
    · rintro rfl
      have hfirst : ((modLen 0 passLen).bind fun j => (modLen 0 0).map fun k => pass j ^^^ ssid k) = none :=
        Option.bind_eq_none_iff.mpr fun _ _ => rfl
      rw [hrange, List.mapM_cons, hfirst] at h
      cases h
    · rintro rfl
      rw [hrange, List.mapM_cons, modLen_zero] at h
      cases h
  · rintro ⟨hs, hp⟩
    have hbyte (i : ℕ) : ((modLen i passLen).bind fun j => (modLen i ssidLen).map fun k => pass j ^^^ ssid k) =
        pure (pass (i % passLen.toNat) ^^^ ssid (i % ssidLen.toNat)) := by
      rw [modLen_of_ne hp, modLen_of_ne hs]
      rfl
    simp only [hbyte, List.mapM_pure]
    rfl

theorem isSome_pmk_iff : (wifiDerivePmk ssid ssidLen pass passLen).isSome ↔ ssidLen ≠ 0 ∧ passLen ≠ 0 := by
  unfold wifiDerivePmk pbkdf2
  rw [Option.isSome_map]
  exact isSome_pbkdf2Start_iff

/-- **Where the four functions stay inside.** For no handshake does the pairwise key stay in its array and in its
structure. The group key stays in its array, not in its structure. A frame fits when it has at most 512 bytes, and the
derivation from the password divides by zero when the name or the password is empty. -/
theorem derivations_inside_iff (aes : Peripheral) (pmk : Fin 32 → U8) (h : Handshake) (gnonce : ℕ → U8)
    (aa : Fin 6 → U8) (kck : Block) (tmp eapol : ℕ → U8) (len : U16) (mic : Block) (ssid : ℕ → U8) (ssidLen : U8)
    (pass : ℕ → U8) (passLen : U8) :
    (¬Inside 76 (wifiDerivePtkStores aes pmk h).data ∧ ¬Inside 56 (wifiDerivePtkStores aes pmk h).out) ∧
      (Inside 32 (wifiDeriveGtkStores aes pmk gnonce aa).data ∧
        ¬Inside 22 (wifiDeriveGtkStores aes pmk gnonce aa).out) ∧
      (Inside 512 (wifiVerifyMic aes kck tmp eapol len mic).1 ↔ len.toNat ≤ 512) ∧
      ((wifiDerivePmk ssid ssidLen pass passLen).isSome ↔ ssidLen ≠ 0 ∧ passLen ≠ 0) :=
  ⟨not_inside_ptk aes pmk h, inside_gtk aes pmk gnonce aa, inside_mic_iff, isSome_pmk_iff⟩

/-- A handshake and a group nonce of zeros, a frame of 513 bytes, and an empty password. -/
theorem not_derivations_inside :
    ¬Inside 76 (wifiDerivePtkStores addOne 0 ⟨0, 0, 0, 0⟩).data ∧
      ¬Inside 56 (wifiDerivePtkStores addOne 0 ⟨0, 0, 0, 0⟩).out ∧
      ¬Inside 22 (wifiDeriveGtkStores addOne 0 0 0).out ∧ ¬Inside 512 (wifiVerifyMic addOne 0 0 0 513 0).1 ∧
      wifiDerivePmk 0 4 0 0 = none := by
  obtain ⟨hdata, hout⟩ := not_inside_ptk addOne 0 ⟨0, 0, 0, 0⟩
  refine ⟨hdata, hout, (inside_gtk addOne 0 0 0).2, fun h => absurd (inside_mic_iff.mp h) (by decide), ?_⟩
  exact Option.not_isSome_iff_eq_none.mp fun h => (isSome_pmk_iff.mp h).2 rfl

end BloodKernel.WifiSec
