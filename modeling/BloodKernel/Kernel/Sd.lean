import BloodKernel.Kernel.Types
import Mathlib.Logic.Function.Basic

set_option autoImplicit false

/-!
# The SD card

`sd_write` of `src/kernel/sd.c`, above the bytes it exchanges with the card: the card answers the
command and the data, and stores the block if it accepts both.

* `Card`, `Answer`, `sdWrite`; `Answer.accepts`: a write returns 0, and the block is stored.
-/

namespace BloodKernel

abbrev sdBlockSize : ℕ := 512

abbrev Block := Fin sdBlockSize → U8

/-- The blocks written so far, by the byte address in the command. -/
abbrev Card := U32 → Option Block

/-- What the card answers: R1 to the command, 0xFF if none comes, and its response to the data. -/
structure Answer where
  r1 : U8
  resp : U8

/-- `block << 9`. -/
@[irreducible]
def byteAddr (block : U32) : U32 := block <<< 9

def sdWrite (ans : Answer) (card : Card) (block : U32) (buf : Block) : U8 × Card :=
  if ans.r1 ≠ 0 then (1, card)      -- WRITE_SINGLE
  else if ans.resp &&& 0x1F ≠ 0x05 then (1, card)
  else (0, Function.update card (byteAddr block) (some buf))

/-- The card accepts the command and the data. -/
def Answer.accepts (ans : Answer) : Prop := ans.r1 = 0 ∧ ans.resp &&& 0x1F = 0x05

instance decidableAccepts (ans : Answer) : Decidable ans.accepts := inferInstanceAs (Decidable (_ ∧ _))

theorem sdWrite_of_accepts {ans : Answer} (h : ans.accepts) (card : Card) (block : U32) (buf : Block) :
    sdWrite ans card block buf = (0, Function.update card (byteAddr block) (some buf)) := by
  unfold sdWrite
  rw [if_neg (not_not.mpr h.1), if_neg (not_not.mpr h.2)]

theorem sdWrite_of_not_accepts {ans : Answer} (h : ¬ ans.accepts) (card : Card) (block : U32)
    (buf : Block) : sdWrite ans card block buf = (1, card) := by
  unfold sdWrite
  split_ifs with h₁ h₂
  · rfl
  · rfl
  · exact absurd ⟨not_not.mp h₁, not_not.mp h₂⟩ h

theorem byteAddr_ofNat (n : ℕ) : byteAddr (BitVec.ofNat 32 n) = BitVec.ofNat 32 (512 * n) := by
  unfold byteAddr
  apply BitVec.eq_of_toNat_eq
  rw [BitVec.toNat_shiftLeft, Nat.shiftLeft_eq, BitVec.toNat_ofNat, BitVec.toNat_ofNat]
  omega

theorem byteAddr_eq_iff {m n : ℕ} :
    byteAddr (BitVec.ofNat 32 m) = byteAddr (BitVec.ofNat 32 n) ↔ m % 2 ^ 23 = n % 2 ^ 23 := by
  rw [byteAddr_ofNat, byteAddr_ofNat]
  constructor
  · intro h
    have := congrArg BitVec.toNat h
    rw [BitVec.toNat_ofNat, BitVec.toNat_ofNat] at this
    omega
  · intro h
    apply BitVec.eq_of_toNat_eq
    rw [BitVec.toNat_ofNat, BitVec.toNat_ofNat]
    omega

theorem byteAddr_inj {m n : ℕ} (hm : m < 2 ^ 23) (hn : n < 2 ^ 23)
    (h : byteAddr (BitVec.ofNat 32 m) = byteAddr (BitVec.ofNat 32 n)) : m = n := by
  have := byteAddr_eq_iff.mp h
  rwa [Nat.mod_eq_of_lt hm, Nat.mod_eq_of_lt hn] at this

theorem byteAddr_wrap : byteAddr (BitVec.ofNat 32 (2 ^ 23)) = byteAddr (BitVec.ofNat 32 0) :=
  byteAddr_eq_iff.mpr (Nat.mod_self _)

end BloodKernel
