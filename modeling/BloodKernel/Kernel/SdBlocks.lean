import BloodKernel.Kernel.SdCard

set_option autoImplicit false

/-!
# Blocks of the card

A block number becomes a byte address by a shift of 32 bits, which drops the upper nine bits.

* `toNat_byteAddr`, `blockAt_storeBlock`, `blockAt_storeBlock_of_ne`: the addresses, and one block read
  after another one has been stored;
* `Returns`, `Kept`: the result of a call whose waits all end; the law of a write and two reads;
* `Agrees.sdWrite`: the card refines the blocks written so far, by their addresses;
* **`blocks_kept_iff`**: the law holds for two block numbers exactly when they differ modulo 2^23.
-/

namespace BloodKernel.SdCard

open Lib

theorem toNat_byteAddr (b : U32) : (byteAddr b).toNat = 512 * (b.toNat % 2 ^ 23) := by
  have h := byteAddr_ofNat b.toNat
  rw [BitVec.ofNat_toNat, BitVec.setWidth_eq] at h
  rw [h, BitVec.toNat_ofNat]
  omega

theorem byteAddr_eq_byteAddr_iff {b b' : U32} :
    byteAddr b = byteAddr b' ↔ b.toNat % 2 ^ 23 = b'.toNat % 2 ^ 23 := by
  rw [← BitVec.toNat_inj, toNat_byteAddr, toNat_byteAddr]
  omega

variable {m : Mem} {t : ℕ → Timing} {b b' : U32}

theorem blockAt_storeBlock (m : Mem) (addr : U32) (buf : Block) :
    blockAt (storeBlock m addr (List.ofFn buf)) addr = buf := by
  refine Eq.trans ?_ (getD_ofFn buf)
  funext i
  have hi : InRange addr sdBlockSize (addr + BitVec.ofNat 32 i) := inRange_add i.isLt
  have hoff : (addr + BitVec.ofNat 32 i - addr).toNat = i := by
    have : i.val < 512 := i.isLt
    rw [add_sub_self, BitVec.toNat_ofNat, Nat.mod_eq_of_lt (by omega)]
  rw [blockAt, storeBlock, if_pos hi, hoff]

theorem blockAt_storeBlock_of_ne (h : byteAddr b ≠ byteAddr b') (buf : Block) :
    blockAt (storeBlock m (byteAddr b) (List.ofFn buf)) (byteAddr b') = blockAt m (byteAddr b') := by
  funext i
  have hne : b.toNat % 2 ^ 23 ≠ b'.toNat % 2 ^ 23 := mt byteAddr_eq_byteAddr_iff.mpr h
  have hout : ¬ InRange (byteAddr b) sdBlockSize (byteAddr b' + BitVec.ofNat 32 i) := by
    have : i.val < 512 := i.isLt
    unfold InRange
    rw [BitVec.toNat_sub, BitVec.toNat_add, BitVec.toNat_ofNat, toNat_byteAddr, toNat_byteAddr]
    show ¬ _ < 512
    omega
  rw [blockAt, storeBlock, if_neg hout, blockAt]

/-- With enough polls the call returns `x`. -/
def Returns {α : Type} (f : ℕ → Option α) (x : α) : Prop := ∃ n, ∀ polls > n, f polls = some x

theorem Returns.unique {α : Type} {f : ℕ → Option α} {x y : α} (hx : Returns f x) (hy : Returns f y) :
    x = y := by
  obtain ⟨n, hn⟩ := hx
  obtain ⟨k, hk⟩ := hy
  have h := hn (max n k + 1) (by omega)
  rw [hk (max n k + 1) (by omega)] at h
  exact (Option.some.inj h).symm

theorem returns_sdRead (buf : Block) : Returns (fun polls => sdRead polls ⟨m, .idle, t⟩ b buf)
    (0, blockAt m (byteAddr b), ⟨m, .idle, later t⟩) :=
  ⟨_, fun _ h => sdRead_idle h b buf⟩

theorem returns_sdWrite (buf : Block) : Returns (fun polls => sdWrite polls ⟨m, .idle, t⟩ b buf)
    (0, ⟨storeBlock m (byteAddr b) (List.ofFn buf), .idle, later (later t)⟩) :=
  ⟨_, fun _ h => sdWrite_idle h b buf⟩

/-- `sd_write(b, buf)` returns 0; then `sd_read(b)` returns `buf`, and `sd_read(b')` what it would have
returned before the write. -/
def Kept (c : Card) (b b' : U32) (buf : Block) : Prop :=
  ∃ c₁, Returns (fun polls => sdWrite polls c b buf) (0, c₁) ∧
    (∀ old, ∃ c₂, Returns (fun polls => sdRead polls c₁ b old) (0, buf, c₂)) ∧
    ∀ old, ∃ got c₂ c₃, Returns (fun polls => sdRead polls c b' old) (0, got, c₂) ∧
      Returns (fun polls => sdRead polls c₁ b' old) (0, got, c₃)

/-- If the numbers name the same block, only a write that changes nothing is kept. -/
theorem Kept.eq_blockAt {buf : Block} (h : Kept ⟨m, .idle, t⟩ b b' buf)
    (haddr : byteAddr b = byteAddr b') : buf = blockAt m (byteAddr b') := by
  obtain ⟨c₁, hwrite, -, hother⟩ := h
  obtain ⟨got, c₂, c₃, hbefore, hafter⟩ := hother buf
  obtain ⟨-, rfl⟩ := Prod.mk.inj (hwrite.unique (returns_sdWrite buf))
  have hold := hbefore.unique (returns_sdRead buf)
  have hnew := hafter.unique (returns_sdRead buf)
  simp only [Prod.mk.injEq, true_and] at hold hnew
  rw [haddr, blockAt_storeBlock] at hnew
  exact hnew.1.symm.trans hold.1

/-- **When two block numbers name different blocks.** For every card and all block numbers `b` and `b'`,
every write of `b` is read back from `b` and leaves `b'` as it was if and only if the numbers differ
modulo 2^23. -/
theorem blocks_kept_iff (m : Mem) (t : ℕ → Timing) (b b' : U32) :
    (∀ buf, Kept ⟨m, .idle, t⟩ b b' buf) ↔ b.toNat % 2 ^ 23 ≠ b'.toNat % 2 ^ 23 := by
  constructor
  · intro h heq
    -- a block that differs from the stored one
    have hsame := (h fun i => blockAt m (byteAddr b') i + 1).eq_blockAt
      (byteAddr_eq_byteAddr_iff.mpr heq)
    have hfirst := congrArg BitVec.toNat (congrFun hsame ⟨0, by decide⟩)
    have hone : (1 : U8).toNat = 1 := rfl
    have := (blockAt m (byteAddr b') ⟨0, by decide⟩).isLt
    rw [BitVec.toNat_add, hone] at hfirst
    omega
  · intro hne buf
    have haddr : byteAddr b ≠ byteAddr b' := mt byteAddr_eq_byteAddr_iff.mp hne
    have hown := fun old => returns_sdRead (m := storeBlock m (byteAddr b) (List.ofFn buf))
      (t := later (later t)) (b := b) old
    have hafter := fun old => returns_sdRead (m := storeBlock m (byteAddr b) (List.ofFn buf))
      (t := later (later t)) (b := b') old
    rw [blockAt_storeBlock] at hown
    rw [blockAt_storeBlock_of_ne haddr] at hafter
    exact ⟨_, returns_sdWrite buf, fun old => ⟨_, hown old⟩,
      fun old => ⟨_, _, _, returns_sdRead old, hafter old⟩⟩

/-- A card that answers without delay. -/
def promptTiming : Timing := ⟨0, by decide, 0, 5, by decide, 0, (0xFF, 0xFF)⟩

/-- Block 2^23 and block 0 are the same 512 bytes. -/
theorem blocks_not_kept : ¬ ∀ (m : Mem) (t : ℕ → Timing) (b b' : U32) (buf : Block), b ≠ b' →
    Kept ⟨m, .idle, t⟩ b b' buf := by
  intro hall
  have h := (hall (fun _ => 0) (fun _ => promptTiming) 0x800000 0 (fun _ => 1) (by decide)).eq_blockAt
    (byteAddr_eq_byteAddr_iff.mpr (by decide))
  have hfirst : (1 : U8) = 0 := congrFun h ⟨0, by decide⟩
  exact absurd hfirst (by decide)

/-! ### The blocks written so far -/

/-- The card stores the blocks written so far. -/
def Agrees (written : BloodKernel.Card) (m : Mem) : Prop :=
  ∀ b buf, written (byteAddr b) = some buf → blockAt m (byteAddr b) = buf

/-- **The card refines the blocks by their addresses**: a write leaves both in agreement. -/
theorem Agrees.sdWrite {written : BloodKernel.Card} {ans : Answer} (h : Agrees written m)
    (ha : ans.accepts) (b : U32) (buf : Block) :
    ∃ m', Returns (fun polls => sdWrite polls ⟨m, .idle, t⟩ b buf)
        ((BloodKernel.sdWrite ans written b buf).1, ⟨m', .idle, later (later t)⟩) ∧
      Agrees (BloodKernel.sdWrite ans written b buf).2 m' := by
  rw [sdWrite_of_accepts ha]
  refine ⟨_, returns_sdWrite buf, fun b' buf' hb' => ?_⟩
  have hb' : Function.update written (byteAddr b) (some buf) (byteAddr b') = some buf' := hb'
  by_cases haddr : byteAddr b = byteAddr b'
  · rw [← haddr, Function.update_self, Option.some.injEq] at hb'
    rw [← haddr, blockAt_storeBlock, hb']
  · rw [Function.update_of_ne (Ne.symm haddr)] at hb'
    rw [blockAt_storeBlock_of_ne haddr, h b' buf' hb']

end BloodKernel.SdCard
