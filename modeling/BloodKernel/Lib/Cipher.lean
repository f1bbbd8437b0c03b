import Mathlib.Logic.Equiv.Defs

set_option autoImplicit false

/-!
# Key-alternating ciphers

A block cipher that alternates the addition of round keys with a permutation of the blocks. A round is
a substitution `sub`, then a mixing `mix` that respects the key addition; the last round does not mix.
Decryption is the equivalent inverse cipher: its rounds have the shape of the encryption's, with the
unmixed round keys.

* `Cipher.enc`, `Cipher.dec`: one round; `Cipher.encrypt`, `Cipher.decrypt`.
* `dec_sub_enc`, `enc_sub_dec`: a round undoes a round under the substitution.
* **`decrypt_encrypt`**, **`encrypt_decrypt`**.
-/

namespace Lib

/-- The operations of a cipher on the blocks `X`. -/
structure Cipher (X : Type) where
  add : X → X → X
  add_add : ∀ x k, add (add x k) k = x
  sub : X ≃ X
  mix : X ≃ X
  mix_add : ∀ x y, mix (add x y) = add (mix x) (mix y)

namespace Cipher

variable {X : Type} (e : Cipher X)

/-- One round of encryption. -/
def enc (x k : X) : X := e.add (e.mix (e.sub x)) k

/-- One round of decryption, on a key that has gone through `mix.symm`. -/
def dec (x k : X) : X := e.add (e.mix.symm (e.sub.symm x)) k

/-- Encryption with the first key, the keys of the inner rounds and the last key. -/
def encrypt (first : X) (keys : List X) (last : X) (x : X) : X :=
  e.add (e.sub (keys.foldl e.enc (e.add x first))) last

/-- Decryption with the same keys. -/
def decrypt (first : X) (keys : List X) (last : X) (x : X) : X :=
  e.add (e.sub.symm ((keys.reverse.map e.mix.symm).foldl e.dec (e.add x last))) first

theorem symm_mix_add (x y : X) : e.mix.symm (e.add x y) = e.add (e.mix.symm x) (e.mix.symm y) := by
  rw [Equiv.symm_apply_eq, e.mix_add, Equiv.apply_symm_apply, Equiv.apply_symm_apply]

/-- A round of decryption undoes a round of encryption, under the substitution. -/
theorem dec_sub_enc (x k : X) : e.dec (e.sub (e.enc x k)) (e.mix.symm k) = e.sub x := by
  unfold dec enc
  rw [Equiv.symm_apply_apply, ← e.symm_mix_add, e.add_add, Equiv.symm_apply_apply]

/-- A round of encryption undoes a round of decryption, under the inverse substitution. -/
theorem enc_sub_dec (x k : X) : e.enc (e.sub.symm (e.dec x (e.mix.symm k))) k = e.sub.symm x := by
  unfold dec enc
  rw [Equiv.apply_symm_apply, ← e.symm_mix_add, Equiv.apply_symm_apply, e.add_add]

theorem foldl_dec_enc (keys : List X) (x : X) :
    (keys.reverse.map e.mix.symm).foldl e.dec (e.sub (keys.foldl e.enc x)) = e.sub x := by
  induction keys generalizing x with
  | nil => rfl
  | cons k keys ih =>
      rw [List.foldl_cons, List.reverse_cons, List.map_append, List.foldl_append, ih]
      exact e.dec_sub_enc x k

theorem foldl_enc_dec (keys : List X) (x : X) :
    keys.foldl e.enc (e.sub.symm ((keys.reverse.map e.mix.symm).foldl e.dec x)) = e.sub.symm x := by
  induction keys generalizing x with
  | nil => rfl
  | cons k keys ih =>
      rw [List.foldl_cons, List.reverse_cons, List.map_append, List.foldl_append]
      exact (congrArg (keys.foldl e.enc) (e.enc_sub_dec _ k)).trans (ih x)

/-- **Decryption undoes encryption.** -/
theorem decrypt_encrypt (first : X) (keys : List X) (last x : X) :
    e.decrypt first keys last (e.encrypt first keys last x) = x := by
  unfold decrypt encrypt
  rw [e.add_add, foldl_dec_enc, Equiv.symm_apply_apply, e.add_add]

/-- **Encryption undoes decryption.** -/
theorem encrypt_decrypt (first : X) (keys : List X) (last x : X) :
    e.encrypt first keys last (e.decrypt first keys last x) = x := by
  unfold decrypt encrypt
  rw [e.add_add, foldl_enc_dec, Equiv.apply_symm_apply, e.add_add]

end Cipher

end Lib
