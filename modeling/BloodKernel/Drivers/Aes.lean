import BloodKernel.Kernel.Types
import BloodKernel.Lib.Bytes
import BloodKernel.Lib.Cipher
import Mathlib.Data.FinEnum
import Mathlib.Data.Fintype.Pi

set_option autoImplicit false

/-!
# AES blocks

`hwcrypto_aes_encrypt_block` and `hwcrypto_aes_decrypt_block` of `drivers/hwcrypto.c`. The AES-NI
instructions are their documented round functions on a state of four columns of four bytes.

* `shiftRows`, `subBytes`, `mixColumns` and their inverses; `invMixColumns_mixColumns`.
* `aes`: the round functions make up a key-alternating cipher.
* **`blocks_invert`**: on every expanded key, the two functions are inverse to each other.
-/

namespace BloodKernel.Aes

open Lib

/-! ## The instructions -/

abbrev Block := Fin 16 → U8

/-- An XMM register: column, row. -/
abbrev State := Fin 4 → Fin 4 → U8

/-- The substitution box: row by the high half of a byte, column by the low half. -/
def sboxTable : Vector (Vector U8 16) 16 :=
  #v[
    #v[0x63, 0x7c, 0x77, 0x7b, 0xf2, 0x6b, 0x6f, 0xc5, 0x30, 0x01, 0x67, 0x2b, 0xfe, 0xd7, 0xab, 0x76],
    #v[0xca, 0x82, 0xc9, 0x7d, 0xfa, 0x59, 0x47, 0xf0, 0xad, 0xd4, 0xa2, 0xaf, 0x9c, 0xa4, 0x72, 0xc0],
    #v[0xb7, 0xfd, 0x93, 0x26, 0x36, 0x3f, 0xf7, 0xcc, 0x34, 0xa5, 0xe5, 0xf1, 0x71, 0xd8, 0x31, 0x15],
    #v[0x04, 0xc7, 0x23, 0xc3, 0x18, 0x96, 0x05, 0x9a, 0x07, 0x12, 0x80, 0xe2, 0xeb, 0x27, 0xb2, 0x75],
    #v[0x09, 0x83, 0x2c, 0x1a, 0x1b, 0x6e, 0x5a, 0xa0, 0x52, 0x3b, 0xd6, 0xb3, 0x29, 0xe3, 0x2f, 0x84],
    #v[0x53, 0xd1, 0x00, 0xed, 0x20, 0xfc, 0xb1, 0x5b, 0x6a, 0xcb, 0xbe, 0x39, 0x4a, 0x4c, 0x58, 0xcf],
    #v[0xd0, 0xef, 0xaa, 0xfb, 0x43, 0x4d, 0x33, 0x85, 0x45, 0xf9, 0x02, 0x7f, 0x50, 0x3c, 0x9f, 0xa8],
    #v[0x51, 0xa3, 0x40, 0x8f, 0x92, 0x9d, 0x38, 0xf5, 0xbc, 0xb6, 0xda, 0x21, 0x10, 0xff, 0xf3, 0xd2],
    #v[0xcd, 0x0c, 0x13, 0xec, 0x5f, 0x97, 0x44, 0x17, 0xc4, 0xa7, 0x7e, 0x3d, 0x64, 0x5d, 0x19, 0x73],
    #v[0x60, 0x81, 0x4f, 0xdc, 0x22, 0x2a, 0x90, 0x88, 0x46, 0xee, 0xb8, 0x14, 0xde, 0x5e, 0x0b, 0xdb],
    #v[0xe0, 0x32, 0x3a, 0x0a, 0x49, 0x06, 0x24, 0x5c, 0xc2, 0xd3, 0xac, 0x62, 0x91, 0x95, 0xe4, 0x79],
    #v[0xe7, 0xc8, 0x37, 0x6d, 0x8d, 0xd5, 0x4e, 0xa9, 0x6c, 0x56, 0xf4, 0xea, 0x65, 0x7a, 0xae, 0x08],
    #v[0xba, 0x78, 0x25, 0x2e, 0x1c, 0xa6, 0xb4, 0xc6, 0xe8, 0xdd, 0x74, 0x1f, 0x4b, 0xbd, 0x8b, 0x8a],
    #v[0x70, 0x3e, 0xb5, 0x66, 0x48, 0x03, 0xf6, 0x0e, 0x61, 0x35, 0x57, 0xb9, 0x86, 0xc1, 0x1d, 0x9e],
    #v[0xe1, 0xf8, 0x98, 0x11, 0x69, 0xd9, 0x8e, 0x94, 0x9b, 0x1e, 0x87, 0xe9, 0xce, 0x55, 0x28, 0xdf],
    #v[0x8c, 0xa1, 0x89, 0x0d, 0xbf, 0xe6, 0x42, 0x68, 0x41, 0x99, 0x2d, 0x0f, 0xb0, 0x54, 0xbb, 0x16]]

/-- The inverse substitution box. -/
def invSboxTable : Vector (Vector U8 16) 16 :=
  #v[
    #v[0x52, 0x09, 0x6a, 0xd5, 0x30, 0x36, 0xa5, 0x38, 0xbf, 0x40, 0xa3, 0x9e, 0x81, 0xf3, 0xd7, 0xfb],
    #v[0x7c, 0xe3, 0x39, 0x82, 0x9b, 0x2f, 0xff, 0x87, 0x34, 0x8e, 0x43, 0x44, 0xc4, 0xde, 0xe9, 0xcb],
    #v[0x54, 0x7b, 0x94, 0x32, 0xa6, 0xc2, 0x23, 0x3d, 0xee, 0x4c, 0x95, 0x0b, 0x42, 0xfa, 0xc3, 0x4e],
    #v[0x08, 0x2e, 0xa1, 0x66, 0x28, 0xd9, 0x24, 0xb2, 0x76, 0x5b, 0xa2, 0x49, 0x6d, 0x8b, 0xd1, 0x25],
    #v[0x72, 0xf8, 0xf6, 0x64, 0x86, 0x68, 0x98, 0x16, 0xd4, 0xa4, 0x5c, 0xcc, 0x5d, 0x65, 0xb6, 0x92],
    #v[0x6c, 0x70, 0x48, 0x50, 0xfd, 0xed, 0xb9, 0xda, 0x5e, 0x15, 0x46, 0x57, 0xa7, 0x8d, 0x9d, 0x84],
    #v[0x90, 0xd8, 0xab, 0x00, 0x8c, 0xbc, 0xd3, 0x0a, 0xf7, 0xe4, 0x58, 0x05, 0xb8, 0xb3, 0x45, 0x06],
    #v[0xd0, 0x2c, 0x1e, 0x8f, 0xca, 0x3f, 0x0f, 0x02, 0xc1, 0xaf, 0xbd, 0x03, 0x01, 0x13, 0x8a, 0x6b],
    #v[0x3a, 0x91, 0x11, 0x41, 0x4f, 0x67, 0xdc, 0xea, 0x97, 0xf2, 0xcf, 0xce, 0xf0, 0xb4, 0xe6, 0x73],
    #v[0x96, 0xac, 0x74, 0x22, 0xe7, 0xad, 0x35, 0x85, 0xe2, 0xf9, 0x37, 0xe8, 0x1c, 0x75, 0xdf, 0x6e],
    #v[0x47, 0xf1, 0x1a, 0x71, 0x1d, 0x29, 0xc5, 0x89, 0x6f, 0xb7, 0x62, 0x0e, 0xaa, 0x18, 0xbe, 0x1b],
    #v[0xfc, 0x56, 0x3e, 0x4b, 0xc6, 0xd2, 0x79, 0x20, 0x9a, 0xdb, 0xc0, 0xfe, 0x78, 0xcd, 0x5a, 0xf4],
    #v[0x1f, 0xdd, 0xa8, 0x33, 0x88, 0x07, 0xc7, 0x31, 0xb1, 0x12, 0x10, 0x59, 0x27, 0x80, 0xec, 0x5f],
    #v[0x60, 0x51, 0x7f, 0xa9, 0x19, 0xb5, 0x4a, 0x0d, 0x2d, 0xe5, 0x7a, 0x9f, 0x93, 0xc9, 0x9c, 0xef],
    #v[0xa0, 0xe0, 0x3b, 0x4d, 0xae, 0x2a, 0xf5, 0xb0, 0xc8, 0xeb, 0xbb, 0x3c, 0x83, 0x53, 0x99, 0x61],
    #v[0x17, 0x2b, 0x04, 0x7e, 0xba, 0x77, 0xd6, 0x26, 0xe1, 0x69, 0x14, 0x63, 0x55, 0x21, 0x0c, 0x7d]]

/-- Look a byte up. -/
def lookup (t : Vector (Vector U8 16) 16) (b : U8) : U8 :=
  have := b.isLt
  t[b.toNat / 16][b.toNat % 16]

def sbox (b : U8) : U8 := lookup sboxTable b

def invSbox (b : U8) : U8 := lookup invSboxTable b

/-- `movups` from memory: byte `4 * c + r` goes to column `c`, row `r`. -/
def load (b : Block) : State := fun c r => b ⟨4 * c + r, by omega⟩

/-- `movups` to memory. -/
def store (s : State) : Block := fun i => s ⟨i / 4, by omega⟩ ⟨i % 4, by omega⟩

/-- `pxor`. -/
def pxor (s k : State) : State := fun c r => s c r ^^^ k c r

/-- Row `r` moves left by `r` columns. -/
def shiftRows (s : State) : State := fun c r => s (c + r) r

def invShiftRows (s : State) : State := fun c r => s (c - r) r

def subBytes (s : State) : State := fun c r => sbox (s c r)

def invSubBytes (s : State) : State := fun c r => invSbox (s c r)

/-- Multiplication by `x` in the field of 256 elements. -/
def xtime (b : U8) : U8 := (b <<< 1) ^^^ (if b.msb then 0x1B else 0)

def mul3 (b : U8) : U8 := xtime b ^^^ b

def mul9 (b : U8) : U8 := xtime (xtime (xtime b)) ^^^ b

def mul11 (b : U8) : U8 := xtime (xtime (xtime b)) ^^^ xtime b ^^^ b

def mul13 (b : U8) : U8 := xtime (xtime (xtime b)) ^^^ xtime (xtime b) ^^^ b

def mul14 (b : U8) : U8 := xtime (xtime (xtime b)) ^^^ xtime (xtime b) ^^^ xtime b

def mixColumns (s : State) : State := fun c r =>
  xtime (s c r) ^^^ mul3 (s c (r + 1)) ^^^ s c (r + 2) ^^^ s c (r + 3)

def invMixColumns (s : State) : State := fun c r =>
  mul14 (s c r) ^^^ mul11 (s c (r + 1)) ^^^ mul13 (s c (r + 2)) ^^^ mul9 (s c (r + 3))

def aesenc (s k : State) : State := pxor (mixColumns (subBytes (shiftRows s))) k

def aesenclast (s k : State) : State := pxor (subBytes (shiftRows s)) k

def aesdec (s k : State) : State := pxor (invMixColumns (invSubBytes (invShiftRows s))) k

def aesdeclast (s k : State) : State := pxor (invSubBytes (invShiftRows s)) k

def aesimc (k : State) : State := invMixColumns k

/-! ## The driver -/

/-- `expanded_key` of `aes_ctx_t`. -/
abbrev ExpandedKey := Fin 60 → U32

/-- The 16 bytes from `16 * i` on of the expanded key, for the eleven round keys. -/
def roundKey (k : ExpandedKey) (i : Fin 11) : State := fun c r => leByte (k ⟨4 * i + c, by omega⟩) r

/-- `hwcrypto_aes_encrypt_block`: the output, if it returns `1`. -/
def hwcryptoAesEncryptBlock (aesni : Bool) (k : ExpandedKey) (input : Block) : Option Block :=
  if aesni then
    let x := pxor (load input) (roundKey k 0)
    let x := aesenc x (roundKey k 1)
    let x := aesenc x (roundKey k 2)
    let x := aesenc x (roundKey k 3)
    let x := aesenc x (roundKey k 4)
    let x := aesenc x (roundKey k 5)
    let x := aesenc x (roundKey k 6)
    let x := aesenc x (roundKey k 7)
    let x := aesenc x (roundKey k 8)
    let x := aesenc x (roundKey k 9)
    some (store (aesenclast x (roundKey k 10)))
  else none

/-- `hwcrypto_aes_decrypt_block`: the output, if it returns `1`. -/
def hwcryptoAesDecryptBlock (aesni : Bool) (k : ExpandedKey) (input : Block) : Option Block :=
  if aesni then
    let x := pxor (load input) (roundKey k 10)
    let x := aesdec x (aesimc (roundKey k 9))
    let x := aesdec x (aesimc (roundKey k 8))
    let x := aesdec x (aesimc (roundKey k 7))
    let x := aesdec x (aesimc (roundKey k 6))
    let x := aesdec x (aesimc (roundKey k 5))
    let x := aesdec x (aesimc (roundKey k 4))
    let x := aesdec x (aesimc (roundKey k 3))
    let x := aesdec x (aesimc (roundKey k 2))
    let x := aesdec x (aesimc (roundKey k 1))
    some (store (aesdeclast x (roundKey k 0)))
  else none

/-! ## The round functions are inverse to each other -/

theorem load_store (s : State) : load (store s) = s := by
  funext c r
  have hc : (4 * c + r : ℕ) / 4 = c := by omega
  have hr : (4 * c + r : ℕ) % 4 = r := by omega
  simp [load, store, hc, hr]

theorem store_load (b : Block) : store (load b) = b := by
  funext i
  exact congrArg b (Fin.ext (Nat.div_add_mod _ _))

theorem pxor_pxor (s k : State) : pxor (pxor s k) k = s := by
  funext c r
  rw [pxor, pxor, BitVec.xor_assoc, BitVec.xor_self, BitVec.xor_zero]

theorem invSbox_sbox : ∀ b : U8, invSbox (sbox b) = b := by
  decide

theorem sbox_invSbox (b : U8) : sbox (invSbox b) = b :=
  (Function.LeftInverse.rightInverse_of_surjective invSbox_sbox
    (Finite.surjective_of_injective (Function.LeftInverse.injective invSbox_sbox))) b

theorem xtime_xor (a b : U8) : xtime (a ^^^ b) = xtime a ^^^ xtime b := by
  unfold xtime
  rw [BitVec.shiftLeft_xor_distrib, BitVec.msb_xor]
  cases a.msb <;> cases b.msb <;> grind

/-! ### Columns

A column goes through `mixColumns` and `invMixColumns` as through two circulant matrices. The product
of their entries is summed up per byte of the column, in `coeff_zero` to `coeff_three`. -/

theorem xor_left_comm (a b c : U8) : a ^^^ (b ^^^ c) = b ^^^ (a ^^^ c) := by
  rw [← BitVec.xor_assoc, BitVec.xor_comm a b, BitVec.xor_assoc]

theorem mul9_xor (a b : U8) : mul9 (a ^^^ b) = mul9 a ^^^ mul9 b := by
  simp only [mul9, xtime_xor]
  ac_rfl

theorem mul11_xor (a b : U8) : mul11 (a ^^^ b) = mul11 a ^^^ mul11 b := by
  simp only [mul11, xtime_xor]
  ac_rfl

theorem mul13_xor (a b : U8) : mul13 (a ^^^ b) = mul13 a ^^^ mul13 b := by
  simp only [mul13, xtime_xor]
  ac_rfl

theorem mul14_xor (a b : U8) : mul14 (a ^^^ b) = mul14 a ^^^ mul14 b := by
  simp only [mul14, xtime_xor]
  ac_rfl

section Coefficients

variable (a : U8)

theorem coeff_zero : mul14 (xtime a) ^^^ mul11 a ^^^ mul13 a ^^^ mul9 (mul3 a) = a := by
  simp only [mul3, mul9, mul11, mul13, mul14, xtime_xor]
  simp [BitVec.xor_assoc, BitVec.xor_comm, xor_left_comm]

theorem coeff_one : mul14 (mul3 a) ^^^ mul11 (xtime a) ^^^ mul13 a ^^^ mul9 a = 0 := by
  simp only [mul3, mul9, mul11, mul13, mul14, xtime_xor]
  simp [BitVec.xor_assoc, BitVec.xor_comm, xor_left_comm]

theorem coeff_two : mul14 a ^^^ mul11 (mul3 a) ^^^ mul13 (xtime a) ^^^ mul9 a = 0 := by
  simp only [mul3, mul9, mul11, mul13, mul14, xtime_xor]
  simp [BitVec.xor_assoc, BitVec.xor_comm, xor_left_comm]

theorem coeff_three : mul14 a ^^^ mul11 a ^^^ mul13 (mul3 a) ^^^ mul9 (xtime a) = 0 := by
  simp only [mul3, mul9, mul11, mul13, mul14, xtime_xor]
  simp [BitVec.xor_assoc, BitVec.xor_comm, xor_left_comm]

end Coefficients

theorem column (a b c d : U8) :
    mul14 (xtime a ^^^ mul3 b ^^^ c ^^^ d) ^^^ mul11 (xtime b ^^^ mul3 c ^^^ d ^^^ a) ^^^
      mul13 (xtime c ^^^ mul3 d ^^^ a ^^^ b) ^^^ mul9 (xtime d ^^^ mul3 a ^^^ b ^^^ c) = a := by
  calc
    _ = (mul14 (xtime a) ^^^ mul11 a ^^^ mul13 a ^^^ mul9 (mul3 a)) ^^^
        (mul14 (mul3 b) ^^^ mul11 (xtime b) ^^^ mul13 b ^^^ mul9 b) ^^^
        (mul14 c ^^^ mul11 (mul3 c) ^^^ mul13 (xtime c) ^^^ mul9 c) ^^^
        (mul14 d ^^^ mul11 d ^^^ mul13 (mul3 d) ^^^ mul9 (xtime d)) := by
      simp only [mul9_xor, mul11_xor, mul13_xor, mul14_xor]
      ac_rfl
    _ = a := by simp [coeff_zero, coeff_one, coeff_two, coeff_three]

theorem invMixColumns_mixColumns (s : State) : invMixColumns (mixColumns s) = s := by
  funext c r
  have h₂ : r + 1 + 1 = r + 2 ∧ r + 2 + 3 = r + 1 ∧ r + 3 + 2 = r + 1 ∧ r + 3 + 3 = r + 2 := by omega
  have h₃ : r + 1 + 2 = r + 3 ∧ r + 2 + 1 = r + 3 := by omega
  have h₀ : r + 1 + 3 = r ∧ r + 2 + 2 = r ∧ r + 3 + 1 = r := by omega
  simp only [invMixColumns, mixColumns, h₀, h₂, h₃]
  exact column _ _ _ _

theorem mixColumns_invMixColumns (s : State) : mixColumns (invMixColumns s) = s :=
  (Function.LeftInverse.rightInverse_of_surjective invMixColumns_mixColumns
    (Finite.surjective_of_injective (Function.LeftInverse.injective invMixColumns_mixColumns))) s

theorem mixColumns_pxor (s k : State) :
    mixColumns (pxor s k) = pxor (mixColumns s) (mixColumns k) := by
  funext c r
  simp only [mixColumns, pxor, mul3, xtime_xor]
  ac_rfl

/-! ## The driver is a cipher and its inverse -/

/-- `ShiftRows` and `SubBytes`. -/
def substitution : State ≃ State where
  toFun s := subBytes (shiftRows s)
  invFun s := invSubBytes (invShiftRows s)
  left_inv s := by
    funext c r
    simp [subBytes, shiftRows, invSubBytes, invShiftRows, invSbox_sbox]
  right_inv s := by
    funext c r
    simp [subBytes, shiftRows, invSubBytes, invShiftRows, sbox_invSbox]

def aes : Cipher State where
  add := pxor
  add_add := pxor_pxor
  sub := substitution
  mix := ⟨mixColumns, invMixColumns, invMixColumns_mixColumns, mixColumns_invMixColumns⟩
  mix_add := mixColumns_pxor

def innerKeys (k : ExpandedKey) : List State :=
  [roundKey k 1, roundKey k 2, roundKey k 3, roundKey k 4, roundKey k 5, roundKey k 6, roundKey k 7,
    roundKey k 8, roundKey k 9]

theorem aes_enc (s k : State) : aes.enc s k = aesenc s k := rfl

theorem aes_dec (s k : State) : aes.dec s (aes.mix.symm k) = aesdec s (aesimc k) := rfl

theorem aes_enclast (s k : State) : aes.add (aes.sub s) k = aesenclast s k := rfl

theorem aes_declast (s k : State) : aes.add (aes.sub.symm s) k = aesdeclast s k := rfl

theorem aes_add (s k : State) : aes.add s k = pxor s k := rfl

theorem encrypt_eq (k : ExpandedKey) (b : Block) :
    hwcryptoAesEncryptBlock true k b =
      some (store (aes.encrypt (roundKey k 0) (innerKeys k) (roundKey k 10) (load b))) := by
  rw [hwcryptoAesEncryptBlock, if_pos rfl, Cipher.encrypt, innerKeys, aes_enclast, aes_add]
  simp only [List.foldl_cons, List.foldl_nil, aes_enc]

theorem decrypt_eq (k : ExpandedKey) (b : Block) :
    hwcryptoAesDecryptBlock true k b =
      some (store (aes.decrypt (roundKey k 0) (innerKeys k) (roundKey k 10) (load b))) := by
  rw [hwcryptoAesDecryptBlock, if_pos rfl, Cipher.decrypt, innerKeys, aes_declast, aes_add]
  simp only [List.reverse_cons, List.reverse_nil, List.nil_append, List.cons_append, List.map_cons,
    List.map_nil, List.foldl_cons, List.foldl_nil, aes_dec]

/-- **Inverse functions.** With AES-NI present, decryption undoes encryption and encryption undoes
decryption, for every expanded key and every block. -/
theorem blocks_invert (k : ExpandedKey) (b : Block) :
    (hwcryptoAesEncryptBlock true k b).bind (hwcryptoAesDecryptBlock true k) = some b ∧
      (hwcryptoAesDecryptBlock true k b).bind (hwcryptoAesEncryptBlock true k) = some b := by
  constructor
  · rw [encrypt_eq, Option.bind_some, decrypt_eq, load_store, Cipher.decrypt_encrypt, store_load]
  · rw [decrypt_eq, Option.bind_some, encrypt_eq, load_store, Cipher.encrypt_decrypt, store_load]

end BloodKernel.Aes
