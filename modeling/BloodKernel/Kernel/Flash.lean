import BloodKernel.Kernel.Types
import BloodKernel.Lib.Run

set_option autoImplicit false

/-!
# The flash driver

`src/kernel/flash.c`, of the registers `FLASH_CR` only: a store to its address sets it, and the two keys
clear its lock bit. The hardware may clear the start bit when an operation ends: `clears`.

* `flashErase`, `flashWrite`: the functions; `field`: the sector field of `FLASH_CR`;
* `leftBy`, `Fits`: what the calls leave in the field, and numbers that contain what is left;
* `flashErase_started`, `Inv.step`: the field when an erase starts, and after a call;
* **`selects_iff`**: every erase selects its own sector exactly when every number contains what the
  earlier calls have left.
-/

namespace BloodKernel.Flash

open Lib

/-- The address of `FLASH_CR`. -/
def flashCr : U32 := 0x40023C10

/-- `FLASH_CR` after a store of `v` to `addr`. -/
def store (cr addr v : U32) : U32 := if addr = flashCr then v else cr

def flashUnlock (cr : U32) : U32 := cr &&& ~~~bit 31

def flashLock (cr : U32) : U32 := cr ||| bit 31

/-- When the wait ends, the hardware has cleared the start bit, or has not. -/
def flashWait (clears : Bool) (cr : U32) : U32 := if clears then cr &&& ~~~bit 16 else cr

/-- The sector number of an address. -/
def sector (addr : U32) : U32 := (addr - 0x08000000) >>> 11

/-- `FLASH_CR` when the start bit is being set, and after the call. -/
def flashErase (clears : Bool) (cr addr : U32) : U32 × U32 :=
  let cr := flashUnlock cr
  let cr := cr ||| bit 1
  let started := cr ||| (sector addr <<< 3)
  let cr := started ||| bit 16
  let cr := flashWait clears cr
  let cr := cr &&& ~~~bit 1
  (started, flashLock cr)

theorem left_decrease {i len : U32} (hlen : len ≤ 0xFFFFFFFC) (h : i < len) :
    len.toNat - (i + 4).toNat < len.toNat - i.toNat := by
  have hlt : i.toNat < len.toNat := h
  have hle : len.toNat ≤ 0xFFFFFFFC := hlen
  have hfour : (4 : U32).toNat = 4 := rfl
  rw [BitVec.toNat_add, hfour, Nat.mod_eq_of_lt (by omega)]
  omega

/-- The loop from `i` on; `data i` is the word at that place of the buffer. -/
def writeLoop (clears : Bool) (addr : U32) (data : U32 → U32) (len : U32) (hlen : len ≤ 0xFFFFFFFC)
    (cr i : U32) : U32 :=
  if h : i < len then
    writeLoop clears addr data len hlen (flashWait clears (store cr (addr + i) (data i))) (i + 4)
  else cr
termination_by len.toNat - i.toNat
decreasing_by exact left_decrease hlen h

/-- `FLASH_CR` after the call. With `len` above `0xFFFFFFFC` the index wraps and the loop never ends. -/
def flashWrite (clears : Bool) (cr addr : U32) (data : U32 → U32) (len : U32) : Option U32 :=
  if hlen : len ≤ 0xFFFFFFFC then
    let cr := flashUnlock cr
    let cr := cr ||| bit 0
    let cr := writeLoop clears addr data len hlen cr 0
    let cr := cr &&& ~~~bit 0
    some (flashLock cr)
  else none

/-- The bits of `FLASH_CR` that an erase fills. -/
def field (cr : U32) : U32 := (cr >>> 3) &&& 0x1FFFFF

/-! ### The calls -/

inductive Op
  | erase (addr : U32)
  | write (addr : U32) (data : U32 → U32) (len : U32)

/-- A call with `FLASH_CR` when it sets the start bit. -/
abbrev Event := Op × Option U32

def step (clears : Bool) (cr : U32) : Op → Option (Option U32 × U32)
  | .erase addr => some (some (flashErase clears cr addr).1, (flashErase clears cr addr).2)
  | .write addr data len => (flashWrite clears cr addr data len).map (none, ·)

/-- An erase starts with its own sector number in the field. -/
def Selects : Event → Prop
  | (.erase addr, some cr) => field cr = sector addr
  | _ => True

/-- What a call leaves in the field, in which `f` was left before: an erase adds its number, and the start
bit is bit 13 of the field; a write leaves it as it is, unless it stores a word to `FLASH_CR`. -/
def leftBy (clears : Bool) (f : U32) : Op → U32
  | .erase addr => if clears then (f ||| sector addr) &&& ~~~bit 13 else f ||| sector addr ||| bit 13
  | .write addr data len =>
      if (flashCr - addr).toNat < len.toNat ∧ (flashCr - addr).toNat % 4 = 0 then
        field (flashWait clears (data (flashCr - addr)))
      else f

/-- The number of an erase contains all bits left before. -/
def FitsOp (f : U32) : Op → Prop
  | .erase addr => f &&& ~~~sector addr = 0
  | .write _ _ _ => True

/-- Every number contains the bits left before it, from `f` on. -/
def Fits (clears : Bool) : U32 → List Op → Prop
  | _, [] => True
  | f, op :: ops => FitsOp f op ∧ Fits clears (leftBy clears f op) ops

/-! ### The bits of the field -/

variable {clears : Bool} {cr cr' f : U32} {k : ℕ}

theorem getLsbD_field : (field cr).getLsbD k = (decide (k < 21) && cr.getLsbD (3 + k)) := by
  have h := shift_and_mask cr 3 (k := 21) (by omega)
  have hfield : field cr = (cr.extractLsb' 3 21).setWidth 32 := h
  rw [hfield, BitVec.getLsbD_setWidth, BitVec.getLsbD_extractLsb']
  by_cases hk : k < 21
  · have : k < 32 := by omega
    simp [hk, this]
  · simp [hk]

/-- Values that agree on the bits of the field have the same field. -/
theorem field_congr (h : ∀ k < 21, cr'.getLsbD (3 + k) = cr.getLsbD (3 + k)) : field cr' = field cr := by
  apply BitVec.eq_of_getLsbD_eq
  intro k _
  rw [getLsbD_field, getLsbD_field]
  by_cases hk : k < 21
  · rw [h k hk]
  · simp [hk]

theorem getLsbD_sector_of_le (addr : U32) (hk : 21 ≤ k) : (sector addr).getLsbD k = false := by
  rw [sector, BitVec.getLsbD_ushiftRight]
  exact BitVec.getLsbD_of_ge _ _ (by omega)

/-- Adding a number in which all bits of `f` are set changes nothing. -/
theorem or_eq_right_iff {f n : U32} : f ||| n = n ↔ f &&& ~~~n = 0 := by
  constructor
  · intro h
    apply BitVec.eq_of_getLsbD_eq
    intro k hk
    have hb := congrArg (fun x : U32 => x.getLsbD k) h
    simp only [BitVec.getLsbD_or] at hb
    rw [BitVec.getLsbD_and, BitVec.getLsbD_not, ← hb]
    cases f.getLsbD k <;> simp
  · intro h
    apply BitVec.eq_of_getLsbD_eq
    intro k hk
    have hb := congrArg (fun x : U32 => x.getLsbD k) h
    simp only [BitVec.getLsbD_and, BitVec.getLsbD_not, hk, decide_true, Bool.true_and] at hb
    rw [BitVec.getLsbD_or]
    cases hn : n.getLsbD k with
    | true => simp
    | false => simpa [hn] using hb

theorem field_flashUnlock (cr : U32) : field (flashUnlock cr) = field cr :=
  field_congr fun k hk => by
    rw [flashUnlock, getLsbD_and_not_bit (by omega), decide_eq_true (by omega), Bool.and_true]

theorem field_flashLock (cr : U32) : field (flashLock cr) = field cr :=
  field_congr fun _ _ => getLsbD_or_bit_of_ne (by omega)

theorem field_or_bit {i : ℕ} (hi : i < 3) : field (cr ||| bit i) = field cr :=
  field_congr fun _ _ => getLsbD_or_bit_of_ne (by omega)

theorem field_and_not_bit {i : ℕ} (hi : i < 3) : field (cr &&& ~~~bit i) = field cr :=
  field_congr fun k hk => by
    rw [getLsbD_and_not_bit (by omega), decide_eq_true (by omega), Bool.and_true]

theorem field_or_sector (addr : U32) : field (cr ||| sector addr <<< 3) = field cr ||| sector addr := by
  apply BitVec.eq_of_getLsbD_eq
  intro k _
  rw [BitVec.getLsbD_or, getLsbD_field, getLsbD_field, BitVec.getLsbD_or, BitVec.getLsbD_shiftLeft]
  by_cases hk : k < 21
  · have h32 : 3 + k < 32 := by omega
    have hge : ¬ 3 + k < 3 := by omega
    simp [hk, h32, hge]
  · simp [hk, getLsbD_sector_of_le addr (Nat.not_lt.mp hk)]

theorem field_or_start : field (cr ||| bit 16) = field cr ||| bit 13 := by
  apply BitVec.eq_of_getLsbD_eq
  intro k _
  rw [getLsbD_or_bit, getLsbD_field, getLsbD_field, getLsbD_or_bit]
  by_cases hk : k < 21
  · have h : 16 = 3 + k ↔ 13 = k := by omega
    simp [hk, h]
  · have h : ¬ 13 = k := by omega
    simp [hk, h]

theorem field_and_not_start : field (cr &&& ~~~bit 16) = field cr &&& ~~~bit 13 := by
  apply BitVec.eq_of_getLsbD_eq
  intro k h32
  rw [getLsbD_and_not_bit h32, getLsbD_field, getLsbD_field]
  by_cases hk : k < 21
  · have h : 16 = 3 + k ↔ 13 = k := by omega
    rw [getLsbD_and_not_bit (by omega)]
    simp [hk, h]
  · simp [hk]

theorem or_bit_and_not_bit (v : U32) (i : ℕ) : (v ||| bit i) &&& ~~~bit i = v &&& ~~~bit i := by
  apply BitVec.eq_of_getLsbD_eq
  intro k hk
  rw [getLsbD_and_not_bit hk, getLsbD_and_not_bit hk]
  by_cases h : i = k
  · simp [h]
  · rw [getLsbD_or_bit_of_ne h]

/-! ### What a call does -/

/-- **The start of an erase.** What was in the field is still there. -/
theorem flashErase_started (clears : Bool) (cr addr : U32) :
    field (flashErase clears cr addr).1 = field cr ||| sector addr := by
  show field ((flashUnlock cr ||| bit 1) ||| sector addr <<< 3) = _
  rw [field_or_sector, field_or_bit (by omega), field_flashUnlock]

/-- The start bit is not left set where the hardware clears it. -/
def Settled (clears : Bool) (cr : U32) : Prop := clears = true → cr.getLsbD 16 = false

theorem settled_flashWait (clears : Bool) (cr : U32) : Settled clears (flashWait clears cr) := by
  rintro rfl
  rw [flashWait, if_pos rfl, getLsbD_and_not_bit (by omega), decide_eq_false (by omega),
    Bool.and_false]

theorem Settled.congr (h : Settled clears cr) (he : cr'.getLsbD 16 = cr.getLsbD 16) :
    Settled clears cr' := fun hc => he.trans (h hc)

theorem Settled.flashWait_eq (h : Settled clears cr) : flashWait clears cr = cr := by
  cases clears with
  | false => rfl
  | true =>
      rw [flashWait, if_pos rfl]
      apply BitVec.eq_of_getLsbD_eq
      intro k hk
      rw [getLsbD_and_not_bit hk]
      by_cases h16 : 16 = k
      · rw [← h16, h rfl, Bool.false_and]
      · rw [decide_eq_true h16, Bool.and_true]

theorem field_flashErase (clears : Bool) (cr addr : U32) :
    field (flashErase clears cr addr).2 = leftBy clears (field cr) (.erase addr) := by
  show field (flashLock (flashWait clears ((flashErase clears cr addr).1 ||| bit 16) &&&
    ~~~bit 1)) = _
  rw [field_flashLock, field_and_not_bit (by omega), leftBy, flashWait]
  cases clears with
  | false =>
      show field (_ ||| bit 16) = field cr ||| sector addr ||| bit 13
      rw [field_or_start, flashErase_started]
  | true =>
      show field ((_ ||| bit 16) &&& ~~~bit 16) = (field cr ||| sector addr) &&& ~~~bit 13
      rw [field_and_not_start, field_or_start, or_bit_and_not_bit, flashErase_started]

theorem settled_flashErase (clears : Bool) (cr addr : U32) :
    Settled clears (flashErase clears cr addr).2 := by
  refine (settled_flashWait clears ((flashErase clears cr addr).1 ||| bit 16)).congr ?_
  show (flashLock (flashWait clears ((flashErase clears cr addr).1 ||| bit 16) &&&
    ~~~bit 1)).getLsbD 16 = _
  rw [flashLock, getLsbD_or_bit_of_ne (by omega), getLsbD_and_not_bit (by omega),
    decide_eq_true (by omega), Bool.and_true]

/-- The loop leaves the register as it is, unless it stores a word to it. -/
theorem writeLoop_eq {addr len : U32} {data : U32 → U32} (hlen : len ≤ 0xFFFFFFFC) {i : U32}
    (h : Settled clears cr) : writeLoop clears addr data len hlen cr i =
      if i.toNat ≤ (flashCr - addr).toNat ∧ (flashCr - addr).toNat < len.toNat ∧
        ((flashCr - addr).toNat - i.toNat) % 4 = 0 then flashWait clears (data (flashCr - addr))
      else cr := by
  fun_induction writeLoop clears addr data len hlen cr i with
  | case1 cr i hi ih =>
      have hlt : i.toNat < len.toNat := hi
      have hle : len.toNat ≤ 0xFFFFFFFC := hlen
      have hfour : (i + 4).toNat = i.toNat + 4 :=
        (BitVec.toNat_add i 4).trans (Nat.mod_eq_of_lt (by show i.toNat + 4 < _; omega))
      rw [ih (settled_flashWait clears _), hfour]
      by_cases hat : addr + i = flashCr
      · -- this word goes to the register, and no later one does
        have hj : flashCr - addr = i := by rw [← hat, BitVec.add_comm, BitVec.add_sub_cancel]
        rw [hj, store, if_pos hat, if_neg (by omega), if_pos (by omega)]
      · have hj : (flashCr - addr).toNat ≠ i.toNat := fun he => hat (by
          rw [← BitVec.eq_of_toNat_eq he, BitVec.add_comm, BitVec.sub_add_cancel])
        rw [store, if_neg hat, h.flashWait_eq]
        refine if_congr ?_ rfl rfl
        omega
  | case2 cr i hi =>
      have hge : len.toNat ≤ i.toNat := BitVec.not_lt.mp hi
      rw [if_neg (by omega)]

/-- What is known of the register between two calls: `f` is in the field. -/
structure Inv (clears : Bool) (f cr : U32) : Prop where
  field_eq : field cr = f
  settled : Settled clears cr

theorem inv_start (clears : Bool) : Inv clears 0 (bit 31) where
  field_eq := by decide
  settled _ := by decide

theorem Inv.erase (h : Inv clears f cr) (addr : U32) :
    Inv clears (leftBy clears f (.erase addr)) (flashErase clears cr addr).2 where
  field_eq := h.field_eq ▸ field_flashErase clears cr addr
  settled := settled_flashErase clears cr addr

theorem Inv.write {addr len : U32} {data : U32 → U32} (h : Inv clears f cr)
    (hw : flashWrite clears cr addr data len = some cr') :
    Inv clears (leftBy clears f (.write addr data len)) cr' := by
  unfold flashWrite at hw
  by_cases hlen : len ≤ 0xFFFFFFFC
  · rw [dif_pos hlen, Option.some.injEq] at hw
    have hset : Settled clears (flashUnlock cr ||| bit 0) := h.settled.congr (by
      rw [getLsbD_or_bit_of_ne (by omega), flashUnlock, getLsbD_and_not_bit (by omega),
        decide_eq_true (by omega), Bool.and_true])
    have hbit : ∀ v : U32, (flashLock (v &&& ~~~bit 0)).getLsbD 16 = v.getLsbD 16 := fun v => by
      rw [flashLock, getLsbD_or_bit_of_ne (by omega), getLsbD_and_not_bit (by omega),
        decide_eq_true (by omega), Bool.and_true]
    have hfield : ∀ v : U32, field (flashLock (v &&& ~~~bit 0)) = field v := fun v => by
      rw [field_flashLock, field_and_not_bit (by omega)]
    have hloop : writeLoop clears addr data len hlen (flashUnlock cr ||| bit 0) 0 =
        if (flashCr - addr).toNat < len.toNat ∧ (flashCr - addr).toNat % 4 = 0 then
          flashWait clears (data (flashCr - addr))
        else flashUnlock cr ||| bit 0 := by
      have hzero : (0 : U32).toNat = 0 := rfl
      rw [writeLoop_eq hlen hset]
      refine if_congr ?_ rfl rfl
      rw [hzero, Nat.sub_zero, and_iff_right (Nat.zero_le _)]
    have hcr : flashLock (writeLoop clears addr data len hlen (flashUnlock cr ||| bit 0) 0 &&&
      ~~~bit 0) = cr' := hw
    rw [← hcr, hloop, leftBy]
    split_ifs with hit
    · exact ⟨hfield _, (settled_flashWait clears _).congr (hbit _)⟩
    · refine ⟨?_, hset.congr (hbit _)⟩
      rw [hfield, field_or_bit (by omega), field_flashUnlock, h.field_eq]
  · rw [dif_neg hlen] at hw
    cases hw

/-! ### The sectors erased -/

/-- **One call.** It leaves in the field what `leftBy` says, and an erase selects its own sector exactly
when its number contains what was left before. -/
theorem Inv.step {op : Op} {r : Option U32} (h : Inv clears f cr)
    (hs : step clears cr op = some (r, cr')) :
    Inv clears (leftBy clears f op) cr' ∧ (Selects (op, r) ↔ FitsOp f op) := by
  cases op with
  | erase addr =>
      have hs : some (some (flashErase clears cr addr).1, (flashErase clears cr addr).2) =
        some (r, cr') := hs
      rw [Option.some.injEq, Prod.mk.injEq] at hs
      refine ⟨hs.2 ▸ h.erase addr, ?_⟩
      rw [← hs.1]
      show field (flashErase clears cr addr).1 = sector addr ↔ _
      rw [flashErase_started, h.field_eq]
      exact or_eq_right_iff
  | write addr data len =>
      have hs : (flashWrite clears cr addr data len).map (Prod.mk none) = some (r, cr') := hs
      obtain ⟨v, hv, he⟩ := Option.map_eq_some_iff.mp hs
      rw [Prod.mk.injEq] at he
      refine ⟨h.write (he.2 ▸ hv), ?_⟩
      rw [← he.1]
      exact Iff.rfl

theorem Inv.run {t : U32} {es : List Event} (hrun : Run (Flash.step clears) cr es t)
    (h : Inv clears f cr) : (∀ e ∈ es, Selects e) ↔ Fits clears f (es.map Prod.fst) := by
  induction hrun generalizing f with
  | nil => exact iff_of_true (fun e he => absurd he List.not_mem_nil) trivial
  | cons hstep _ ih =>
      obtain ⟨h', hsel⟩ := h.step hstep
      rw [List.forall_mem_cons, List.map_cons, Fits, ih h', hsel]

/-- **When an erase selects its own sector.** In every run of calls that starts with only the lock bit
set, every erase starts with its own number in the field if and only if every number contains the
bits that the earlier calls have left there. -/
theorem selects_iff {t : U32} {es : List Event} (h : Run (step clears) (bit 31) es t) :
    (∀ e ∈ es, Selects e) ↔ Fits clears 0 (es.map Prod.fst) :=
  (inv_start clears).run h

def twoErases : List Event :=
  [(.erase 0x08000800, some (flashErase true (bit 31) 0x08000800).1),
    (.erase 0x08001000,
      some (flashErase true (flashErase true (bit 31) 0x08000800).2 0x08001000).1)]

theorem run_twoErases : ∃ t, Run (step true) (bit 31) twoErases t :=
  ⟨_, .cons rfl (.cons rfl (.nil _))⟩

theorem selects_iff_twoErases : ∃ t, Run (step true) (bit 31) twoErases t ∧
    ((∀ e ∈ twoErases, Selects e) ↔ Fits true 0 (twoErases.map Prod.fst)) := by
  obtain ⟨t, h⟩ := run_twoErases
  exact ⟨t, h, selects_iff h⟩

/-- The second erase starts with 3 in the field. -/
theorem erase_wrong_sector : ¬ ∀ (clears : Bool) (es : List Event) (t : U32),
    Run (step clears) (bit 31) es t → ∀ e ∈ es, Selects e := by
  intro hall
  obtain ⟨t, h⟩ := run_twoErases
  have hlast := hall true twoErases t h _ (List.mem_cons_of_mem _ List.mem_cons_self)
  exact absurd hlast (by unfold Selects; decide)

end BloodKernel.Flash
