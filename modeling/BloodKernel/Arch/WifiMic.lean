import BloodKernel.Arch.WifiSecWrites

set_option autoImplicit false

/-!
# What the MIC of a frame covers

`wifi_verify_mic` copies a frame, sets its MIC to zero and computes a MIC to compare with. The cipher reads one block.

* `micInput`: the data over which the MIC is computed; `micInput_apply`: they are the first 16 bytes of the frame.
* `DifferOutside`: frames that differ outside of the MIC; `Told`: some MIC is right for one of them only.
* `Covered`: a change is; **`mic_covers_iff`**: the changes that are covered are those of the first block.
-/

namespace BloodKernel.WifiSec

open Lib

/-- `tmp` when the MIC is computed. -/
def copied (tmp eapol : ℕ → U8) (len : U16) : ℕ → U8 :=
  (micStores eapol len).foldl (fun tmp w => Function.update tmp w.2 w.1) tmp

/-- The data over which the MIC is computed: `aes_encrypt` reads one block from `tmp` on. -/
def micInput (tmp eapol : ℕ → U8) (len : U16) : Block := fun j => copied tmp eapol len j

/-- Two frames differ in a byte that is not one of the MIC. -/
def DifferOutside (len : U16) (eapol eapol' : ℕ → U8) : Prop :=
  ∃ k < len.toNat, ¬(77 ≤ k ∧ k < 93) ∧ eapol k ≠ eapol' k

/-- There is a MIC that is right for one of two frames and wrong for the other. -/
def Told (aes : Peripheral) (kck : Block) (tmp tmp' : ℕ → U8) (len : U16) (eapol eapol' : ℕ → U8) : Prop :=
  ∃ mic, (wifiVerifyMic aes kck tmp eapol len mic).2 ≠ (wifiVerifyMic aes kck tmp' eapol' len mic).2

/-- A change outside of the MIC changes what the MIC is computed over, and a MIC shows it. -/
def Covered (aes : Peripheral) (kck : Block) (tmp tmp' : ℕ → U8) (len : U16) (eapol eapol' : ℕ → U8) : Prop :=
  DifferOutside len eapol eapol' →
    micInput tmp eapol len ≠ micInput tmp' eapol' len ∧ Told aes kck tmp tmp' len eapol eapol'

variable {aes : Peripheral} {kck mic : Block} {tmp tmp' eapol eapol' : ℕ → U8} {len : U16}

theorem copied_eq : copied tmp eapol len =
    writeAt (writeAt tmp 0 ((List.range len.toNat).map eapol)) 77 (List.replicate 16 0) := by
  unfold copied micStores
  rw [List.foldl_append, foldl_update_zipIdx, foldl_update_zipIdx]

theorem copied_of_lt {k : ℕ} (hk : k < 77) (hlen : k < len.toNat) : copied tmp eapol len k = eapol k := by
  have hlength : k < ((List.range len.toNat).map eapol).length := by rwa [List.length_map, List.length_range]
  have hcopy := writeAt_add (m := tmp) (a := 0) hlength
  rw [Nat.zero_add, List.getElem_map, List.getElem_range] at hcopy
  rw [copied_eq, writeAt_of_not (by omega), hcopy]

theorem micInput_apply (hlen : 16 ≤ len.toNat) (j : Fin 16) : micInput tmp eapol len j = eapol j :=
  copied_of_lt (by omega) (by omega)

theorem micInput_ne_iff (hlen : 16 ≤ len.toNat) :
    micInput tmp eapol len ≠ micInput tmp' eapol' len ↔ ∃ k < 16, eapol k ≠ eapol' k := by
  rw [Function.ne_iff]
  simp only [micInput_apply hlen]
  exact ⟨fun ⟨j, hj⟩ => ⟨j, j.isLt, hj⟩, fun ⟨k, hk, hne⟩ => ⟨⟨k, hk⟩, hne⟩⟩

theorem wifiVerifyMic_snd : (wifiVerifyMic aes kck tmp eapol len mic).2 =
    decide (aesEncrypt aes kck (micInput tmp eapol len) = mic) := rfl

/-- The cipher loses nothing: what is told apart is what differs in its block. -/
theorem told_iff : Told aes kck tmp tmp' len eapol eapol' ↔ micInput tmp eapol len ≠ micInput tmp' eapol' len := by
  unfold Told
  simp only [wifiVerifyMic_snd]
  constructor
  · rintro ⟨mic, hne⟩ heq
    exact hne (by rw [heq])
  · intro hne
    have hcipher := (aesEncrypt_bijective aes kck).1.ne hne
    refine ⟨aesEncrypt aes kck (micInput tmp eapol len), ?_⟩
    rw [decide_eq_true rfl, decide_eq_false hcipher.symm]
    exact Bool.true_eq_false_eq_False

/-- **What the MIC covers.** Two frames that differ outside of the MIC have a difference in what the MIC is computed
over, which some MIC shows, exactly when they then differ in their first 16 bytes. -/
theorem mic_covers_iff (aes : Peripheral) (kck : Block) (tmp tmp' eapol eapol' : ℕ → U8) (len : U16)
    (hlen : 93 ≤ len.toNat) : Covered aes kck tmp tmp' len eapol eapol' ↔
      (DifferOutside len eapol eapol' → ∃ k < 16, eapol k ≠ eapol' k) := by
  have hinput : micInput tmp eapol len ≠ micInput tmp' eapol' len ↔ ∃ k < 16, eapol k ≠ eapol' k :=
    micInput_ne_iff (by omega)
  refine forall_congr' fun _ => ?_
  rw [told_iff, and_self]
  exact hinput

/-- A frame of zeros, and one with another first byte. -/
theorem mic_covers_iff_first : Covered addOne 0 0 0 93 0 (Function.update 0 0 1) :=
  (mic_covers_iff addOne 0 0 0 0 (Function.update 0 0 1) 93 (by decide)).mpr fun _ => ⟨0, by decide, by decide⟩

/-- A frame of zeros, and one with another byte behind the first block. The replay counter of a key frame ends there. -/
theorem not_mic_covers : ¬Covered addOne 0 0 0 93 0 (Function.update 0 16 1) := by
  have hdiffer : DifferOutside 93 0 (Function.update 0 16 1) := ⟨16, by decide, by decide, by decide⟩
  intro hcovered
  obtain ⟨k, hk, hne⟩ := (micInput_ne_iff (by decide)).mp (hcovered hdiffer).1
  rw [Function.update_of_ne hk.ne] at hne
  exact hne rfl

end BloodKernel.WifiSec
