import BloodKernel.Kernel.Sd
import BloodKernel.Lib.Region
import Mathlib.Data.List.GetD

set_option autoImplicit false

/-!
# The bytes exchanged with the SD card

`sd_cmd`, `sd_read` and `sd_write` of `src/kernel/sd.c`, byte by byte, with a card that is addressed by
bytes. The select line is left out: no byte is exchanged while it is off.

* `Timing`, `Phase`, `Card`, `spiXfer`: a card that answers correctly, after any delays;
* `sdCmd`, `sdRead`, `sdWrite`: the functions; a wait without a bound takes the number of its polls;
* `pollR1_sending`, `waitToken_sending`, `waitBusy_sending`, `readBytes_sending`, `writeBytes_data`: the
  loops;
* **`sdRead_idle`**, **`sdWrite_idle`**: what the functions return, and what they leave on the card.
-/

namespace BloodKernel.SdCard

open Lib

/-! ### The card -/

/-- How the card answers: the bytes before R1, which comes within eight; those before the data token;
its response to accepted data; the bytes for which it is busy; and the CRC that it sends. -/
structure Timing where
  ncr : ℕ
  ncr_lt : ncr < 8
  nac : ℕ
  resp : U8
  accepts : resp &&& 0x1F = 0x05
  busy : ℕ
  crc : U8 × U8

/-- What the card is doing: it waits for a command, has got the first bytes of one, sends bytes and then
expects a block to store or nothing, waits for the token before a block, or has got bytes of it. -/
inductive Phase
  | idle
  | command (got : List U8)
  | send (x : U8) (xs : List U8) (store : Option U32)
  | token (addr : U32)
  | data (addr : U32) (got : List U8)

/-- The bytes stored, by their addresses, and the timings of the commands and blocks to come. -/
structure Card where
  mem : Mem
  phase : Phase
  timing : ℕ → Timing

def Phase.sending : List U8 → Option U32 → Phase
  | x :: xs, store => .send x xs store
  | [], some addr => .token addr
  | [], none => .idle

/-- The block at `addr`. -/
def blockAt (m : Mem) (addr : U32) : Block := fun i => m (addr + BitVec.ofNat 32 i)

def storeBlock (m : Mem) (addr : U32) (l : List U8) : Mem := fun x =>
  if InRange addr sdBlockSize x then l.getD (x - addr).toNat 0 else m x

/-- The timings after the next one. -/
def later (t : ℕ → Timing) : ℕ → Timing := fun n => t (n + 1)

/-- R1, after its delay. -/
def Timing.r1 (t : Timing) (r : U8) (xs : List U8) : List U8 := List.replicate t.ncr 0xFF ++ r :: xs

/-- A command of six bytes: 17 reads a block, 24 stores one; others are illegal. The argument is a byte
address. -/
def execute (m : Mem) (t : ℕ → Timing) (cmd : List U8) : Card :=
  let addr := leWord fun k => cmd.getD (4 - k) 0
  if cmd.getD 0 0 = 0x51 then
    ⟨m, .sending ((t 0).r1 0 (List.replicate (t 0).nac 0xFF ++
      0xFE :: (List.ofFn (blockAt m addr) ++ [(t 0).crc.1, (t 0).crc.2]))) none, later t⟩
  else if cmd.getD 0 0 = 0x58 then ⟨m, .sending ((t 0).r1 0 []) (some addr), later t⟩
  else ⟨m, .sending ((t 0).r1 0x04 []) none, later t⟩

/-- All bytes of a block have come, with their CRC. -/
def program (m : Mem) (t : ℕ → Timing) (addr : U32) (got : List U8) : Card :=
  ⟨storeBlock m addr (got.take sdBlockSize),
    .sending ((t 0).resp :: List.replicate (t 0).busy 0) none, later t⟩

/-- One byte each way. -/
def spiXfer (c : Card) (out : U8) : U8 × Card :=
  match c.phase with
  | .idle => (0xFF, if out &&& 0xC0 = 0x40 then { c with phase := .command [out] } else c)
  | .command got =>
      (0xFF, if got.length < 5 then { c with phase := .command (got ++ [out]) }
        else execute c.mem c.timing (got ++ [out]))
  | .send x xs store => (x, { c with phase := .sending xs store })
  | .token addr => (0xFF, if out = 0xFE then { c with phase := .data addr [] } else c)
  | .data addr got =>
      (0xFF, if got.length < sdBlockSize + 1 then { c with phase := .data addr (got ++ [out]) }
        else program c.mem c.timing addr (got ++ [out]))

/-! ### The functions -/

/-- `spi_xfer` where its result is not used. -/
def spiPut (c : Card) (out : U8) : Card := (spiXfer c out).2

/-- The loop at the end of `sd_cmd`. -/
def pollR1 : ℕ → Card → U8 × Card
  | 0, c => (0xFF, c)
  | n + 1, c =>
      let (r, c) := spiXfer c 0xFF
      if r &&& 0x80 = 0 then (r, c) else pollR1 n c

def sdCmd (c : Card) (cmd : U8) (arg : U32) : U8 × Card :=
  let crc : U8 := 0xFF
  let c := spiPut c 0xFF      -- dummy
  let c := spiPut c (cmd ||| 0x40)
  let c := spiPut c ((arg >>> 24).setWidth 8)
  let c := spiPut c ((arg >>> 16).setWidth 8)
  let c := spiPut c ((arg >>> 8).setWidth 8)
  let c := spiPut c (arg.setWidth 8)
  let c := spiPut c crc
  pollR1 8 c

/-- `while (spi_xfer(0xFF) != 0xFE)` -/
def waitToken : ℕ → Card → Option Card
  | 0, _ => none
  | n + 1, c =>
      let (r, c) := spiXfer c 0xFF
      if r ≠ 0xFE then waitToken n c else some c

/-- `while (spi_xfer(0xFF) == 0)` -/
def waitBusy : ℕ → Card → Option Card
  | 0, _ => none
  | n + 1, c =>
      let (r, c) := spiXfer c 0xFF
      if r = 0 then waitBusy n c else some c

/-- The bytes of `n` exchanges. -/
def readBytes : ℕ → Card → List U8 × Card
  | 0, c => ([], c)
  | n + 1, c =>
      let (r, c) := spiXfer c 0xFF
      let (l, c) := readBytes n c
      (r :: l, c)

def writeBytes (c : Card) (l : List U8) : Card := l.foldl spiPut c

/-- `none`: a wait does not end within `polls` polls. -/
def sdRead (polls : ℕ) (c : Card) (block : U32) (buf : Block) : Option (U8 × Block × Card) := do
  let (r, c) := sdCmd c 17 (byteAddr block)      -- READ_SINGLE
  if r ≠ 0 then
    return (1, buf, c)
  -- wait data token
  let c ← waitToken polls c
  let (l, c) := readBytes sdBlockSize c
  let c := spiPut c 0xFF
  let c := spiPut c 0xFF      -- CRC discard
  return (0, fun i => l.getD i 0, c)

/-- The part of `sd_write` that sends the block. -/
def sendBlock (c : Card) (buf : Block) : Card :=
  let c := spiPut c 0xFF
  let c := spiPut c 0xFE      -- token
  let c := writeBytes c (List.ofFn buf)
  let c := spiPut c 0xFF
  let c := spiPut c 0xFF      -- dummy CRC
  c

/-- The part that waits until the block is stored. -/
def finishWrite (polls : ℕ) (c : Card) : Option (U8 × Card) := do
  let (resp, c) := spiXfer c 0xFF
  if resp &&& 0x1F ≠ 0x05 then
    return (1, c)
  let c ← waitBusy polls c      -- busy
  return (0, c)

def sdWrite (polls : ℕ) (c : Card) (block : U32) (buf : Block) : Option (U8 × Card) := do
  let (r, c) := sdCmd c 24 (byteAddr block)      -- WRITE_SINGLE
  if r ≠ 0 then
    return (1, c)
  finishWrite polls (sendBlock c buf)

/-! ### The loops -/

section Loops

variable {m : Mem} {t : ℕ → Timing} {xs : List U8} {store : Option U32} {addr : U32}

theorem sending_token (addr : U32) : Phase.sending [] (some addr) = .token addr := rfl

@[simp] theorem spiXfer_sending (x out : U8) : spiXfer ⟨m, .sending (x :: xs) store, t⟩ out =
    (x, ⟨m, .sending xs store, t⟩) := rfl

theorem pollR1_sending {k n : ℕ} {r : U8} (h : k < n) (hr : r &&& 0x80 = 0) :
    pollR1 n ⟨m, .sending (List.replicate k 0xFF ++ r :: xs) store, t⟩ =
      (r, ⟨m, .sending xs store, t⟩) := by
  induction k generalizing n with
  | zero =>
      obtain ⟨n, rfl⟩ := Nat.exists_eq_succ_of_ne_zero (Nat.ne_of_gt h)
      rw [List.replicate_zero, List.nil_append, pollR1, spiXfer_sending]
      exact if_pos hr
  | succ k ih =>
      obtain ⟨n, rfl⟩ := Nat.exists_eq_succ_of_ne_zero (Nat.ne_zero_of_lt h)
      have hnext := ih (Nat.lt_of_succ_lt_succ h)
      rw [List.replicate_succ, List.cons_append, pollR1, spiXfer_sending, ← hnext]
      exact if_neg (by decide)

theorem waitToken_sending {k n : ℕ} (h : k < n) :
    waitToken n ⟨m, .sending (List.replicate k 0xFF ++ 0xFE :: xs) store, t⟩ =
      some ⟨m, .sending xs store, t⟩ := by
  induction k generalizing n with
  | zero =>
      obtain ⟨n, rfl⟩ := Nat.exists_eq_succ_of_ne_zero (Nat.ne_of_gt h)
      rw [List.replicate_zero, List.nil_append, waitToken, spiXfer_sending]
      exact if_neg (not_not.mpr rfl)
  | succ k ih =>
      obtain ⟨n, rfl⟩ := Nat.exists_eq_succ_of_ne_zero (Nat.ne_zero_of_lt h)
      have hnext := ih (Nat.lt_of_succ_lt_succ h)
      rw [List.replicate_succ, List.cons_append, waitToken, spiXfer_sending, ← hnext]
      exact if_pos (by decide)

/-- When the card is no longer busy it sends 0xFF. -/
theorem waitBusy_sending {k n : ℕ} (h : k < n) :
    waitBusy n ⟨m, .sending (List.replicate k 0) none, t⟩ = some ⟨m, .idle, t⟩ := by
  induction k generalizing n with
  | zero =>
      obtain ⟨n, rfl⟩ := Nat.exists_eq_succ_of_ne_zero (Nat.ne_of_gt h)
      rw [List.replicate_zero, waitBusy]
      exact if_neg (by decide)
  | succ k ih =>
      obtain ⟨n, rfl⟩ := Nat.exists_eq_succ_of_ne_zero (Nat.ne_zero_of_lt h)
      have hnext := ih (Nat.lt_of_succ_lt_succ h)
      rw [List.replicate_succ, waitBusy, spiXfer_sending, ← hnext]
      exact if_pos rfl

theorem readBytes_sending (l : List U8) : readBytes l.length ⟨m, .sending (l ++ xs) store, t⟩ =
    (l, ⟨m, .sending xs store, t⟩) := by
  induction l with
  | nil => rfl
  | cons x l ih =>
      rw [List.length_cons, readBytes, List.cons_append, spiXfer_sending]
      simp only [ih]

theorem spiPut_data {got : List U8} (h : got.length < sdBlockSize + 1) (out : U8) :
    spiPut ⟨m, .data addr got, t⟩ out = ⟨m, .data addr (got ++ [out]), t⟩ := if_pos h

theorem spiPut_last {got : List U8} (h : ¬ got.length < sdBlockSize + 1) (out : U8) :
    spiPut ⟨m, .data addr got, t⟩ out = program m t addr (got ++ [out]) := if_neg h

theorem writeBytes_data {l got : List U8} (h : got.length + l.length ≤ sdBlockSize + 1) :
    writeBytes ⟨m, .data addr got, t⟩ l = ⟨m, .data addr (got ++ l), t⟩ := by
  induction l generalizing got with
  | nil => rw [List.append_nil]; rfl
  | cons x l ih =>
      rw [List.length_cons] at h
      have hlen : (got ++ [x]).length + l.length ≤ sdBlockSize + 1 := by
        rw [List.length_append, List.length_singleton]
        omega
      show writeBytes (spiPut ⟨m, .data addr got, t⟩ x) l = _
      rw [spiPut_data (by omega), ih hlen, List.append_assoc, List.singleton_append]

end Loops

/-! ### A command -/

theorem setWidth_ushiftRight (v : U32) (k : ℕ) : (v >>> (8 * k)).setWidth 8 = leByte v k := by
  apply BitVec.eq_of_toNat_eq
  rw [BitVec.toNat_setWidth, BitVec.toNat_ushiftRight, Nat.shiftRight_eq_div_pow, toNat_leByte]

def commandBytes (cmd : U8) (arg : U32) : List U8 :=
  [cmd ||| 0x40, (arg >>> 24).setWidth 8, (arg >>> 16).setWidth 8, (arg >>> 8).setWidth 8,
    arg.setWidth 8, 0xFF]

theorem leWord_commandBytes (cmd : U8) (arg : U32) :
    leWord (fun k => (commandBytes cmd arg).getD (4 - k) 0) = arg := by
  refine leWord_eq fun k hk => ?_
  have hbyte := setWidth_ushiftRight arg k
  obtain rfl | rfl | rfl | rfl : k = 0 ∨ k = 1 ∨ k = 2 ∨ k = 3 := by omega
  · rwa [Nat.mul_zero, BitVec.ushiftRight_zero] at hbyte
  · exact hbyte
  · exact hbyte
  · exact hbyte

variable {m : Mem} {t : ℕ → Timing}

theorem sdCmd_read (arg : U32) : sdCmd ⟨m, .idle, t⟩ 17 arg =
    pollR1 8 (execute m t (commandBytes 17 arg)) := rfl

theorem sdCmd_write (arg : U32) : sdCmd ⟨m, .idle, t⟩ 24 arg =
    pollR1 8 (execute m t (commandBytes 24 arg)) := rfl

/-! ### The calls -/

theorem getD_ofFn (buf : Block) : (fun i : Fin sdBlockSize => (List.ofFn buf).getD i 0) = buf := by
  funext i
  have hi : i.val < (List.ofFn buf).length := by rw [List.length_ofFn]; exact i.isLt
  rw [List.getD_eq_getElem?_getD, List.getElem?_eq_getElem hi, Option.getD_some, List.getElem_ofFn]

/-- **`sd_read`** returns the 512 bytes at the address in the command, and changes none. -/
theorem sdRead_idle {polls : ℕ} (h : (t 0).nac < polls) (block : U32) (buf : Block) :
    sdRead polls ⟨m, .idle, t⟩ block buf =
      some (0, blockAt m (byteAddr block), ⟨m, .idle, later t⟩) := by
  have hexec : execute m t (commandBytes 17 (byteAddr block)) =
      ⟨m, .sending (List.replicate (t 0).ncr 0xFF ++ 0 :: (List.replicate (t 0).nac 0xFF ++
        0xFE :: (List.ofFn (blockAt m (byteAddr block)) ++ [(t 0).crc.1, (t 0).crc.2]))) none,
        later t⟩ := by
    unfold execute
    rw [leWord_commandBytes]
    rfl
  have hread : readBytes (List.ofFn (blockAt m (byteAddr block))).length
      ⟨m, .sending (List.ofFn (blockAt m (byteAddr block)) ++ [(t 0).crc.1, (t 0).crc.2]) none, later t⟩ =
      (List.ofFn (blockAt m (byteAddr block)),
        ⟨m, .sending [(t 0).crc.1, (t 0).crc.2] none, later t⟩) := readBytes_sending _
  rw [List.length_ofFn] at hread
  unfold sdRead
  rw [sdCmd_read, hexec, pollR1_sending (t 0).ncr_lt (by decide)]
  simp only [ne_eq, not_true_eq_false, if_false, waitToken_sending h, Option.bind_eq_bind,
    Option.bind_some, hread, getD_ofFn]
  rfl

theorem sendBlock_token (addr : U32) (buf : Block) : sendBlock ⟨m, .token addr, t⟩ buf =
    ⟨storeBlock m addr (List.ofFn buf), .sending ((t 0).resp :: List.replicate (t 0).busy 0) none,
      later t⟩ := by
  have hlen : (List.ofFn buf).length = sdBlockSize := List.length_ofFn
  have hlen' : (List.ofFn buf ++ [0xFF]).length = sdBlockSize + 1 := by
    rw [List.length_append, hlen, List.length_singleton]
  have hidle : spiPut ⟨m, .token addr, t⟩ 0xFF = ⟨m, .token addr, t⟩ := rfl
  have htoken : spiPut ⟨m, .token addr, t⟩ 0xFE = ⟨m, .data addr [], t⟩ := rfl
  have hwrite : writeBytes ⟨m, .data addr [], t⟩ (List.ofFn buf) =
      ⟨m, .data addr ([] ++ List.ofFn buf), t⟩ := writeBytes_data (by rw [hlen]; decide)
  rw [List.nil_append] at hwrite
  have hlast : spiPut ⟨m, .data addr (List.ofFn buf), t⟩ 0xFF =
      ⟨m, .data addr (List.ofFn buf ++ [0xFF]), t⟩ :=
    spiPut_data (by rw [hlen]; exact Nat.lt_succ_self _) 0xFF
  have hprogram : spiPut ⟨m, .data addr (List.ofFn buf ++ [0xFF]), t⟩ 0xFF =
      program m t addr (List.ofFn buf ++ [0xFF] ++ [0xFF]) :=
    spiPut_last (by rw [hlen']; exact lt_irrefl _) 0xFF
  rw [program, List.append_assoc, List.take_left' hlen] at hprogram
  simp only [sendBlock, hidle, htoken, hwrite, hlast, hprogram]

theorem finishWrite_sending {polls : ℕ} (T : Timing) (h : T.busy < polls) :
    finishWrite polls ⟨m, .sending (T.resp :: List.replicate T.busy 0) none, t⟩ =
      some (0, ⟨m, .idle, t⟩) := by
  unfold finishWrite
  rw [spiXfer_sending]
  simp only [ne_eq, T.accepts, not_true_eq_false, if_false, waitBusy_sending h, Option.bind_eq_bind,
    Option.bind_some]
  rfl

/-- **`sd_write`** stores the block at the address in the command. -/
theorem sdWrite_idle {polls : ℕ} (h : (t 1).busy < polls) (block : U32) (buf : Block) :
    sdWrite polls ⟨m, .idle, t⟩ block buf =
      some (0, ⟨storeBlock m (byteAddr block) (List.ofFn buf), .idle, later (later t)⟩) := by
  have hexec : execute m t (commandBytes 24 (byteAddr block)) =
      ⟨m, .sending (List.replicate (t 0).ncr 0xFF ++ 0 :: []) (some (byteAddr block)), later t⟩ := by
    unfold execute
    rw [leWord_commandBytes]
    rfl
  unfold sdWrite
  rw [sdCmd_write, hexec, pollR1_sending (t 0).ncr_lt (by decide)]
  simp only [ne_eq, not_true_eq_false, if_false, sending_token, sendBlock_token]
  exact finishWrite_sending (t 1) h

end BloodKernel.SdCard
