import BloodKernel.Drivers.Sha256
import BloodKernel.Lib.Run

set_option autoImplicit false

/-!
# The writes to the buffer of a hash context

Calls of the SHA-256 functions of `drivers/hwcrypto.c` on one context, in any order and whatever the calls
before have returned. Without SHA-NI, `hwcrypto_sha256_update` and `hwcrypto_sha256_final` return 0 and leave
a full buffer behind.

* `updateWrites`, `finalWrites`, `Op.writes`: the indices of the buffer that a call writes, in order;
  `update_frame`, `final_frame`: the other bytes stay.
* `step`: a call. After a write behind the buffer there is no context any more.
* `writes_lt_iff`: a call stays in the buffer exactly when it is no final one on a full buffer.
* **`writes_inside_iff`**: the calls of a run; **`inside_of_shani`**: with SHA-NI, all runs.
-/

namespace BloodKernel.Sha256

open Lib

section Shani

variable (shani : Bool) (compress : Hash → Block → Hash)

/-- The writes of the loop of `hwcrypto_sha256_update`. -/
def updateWrites (c : Ctx) (data : List U8) : List ℕ :=
  if data = [] then []
  else
    List.range' c.bufferLen (toCopy c data) ++
      if (absorb c data).bufferLen = 64 then
        if shani then updateWrites (process compress (absorb c data)).empty (data.drop (toCopy c data)) else []
      else updateWrites (absorb c data) (data.drop (toCopy c data))
termination_by (data.length, c.bufferLen)
decreasing_by
  · exact decreasing_full compress ‹_›
  · exact decreasing_part ‹_› ‹_›

/-- The writes of `hwcrypto_sha256_final`: the byte `0x80`, zeros up to the end of the block if there is no room
for the length, zeros up to the length, and the length. With a full buffer the first one is behind it. -/
def finalWrites (c : Ctx) : List ℕ :=
  c.bufferLen ::
    if 64 ≤ c.bufferLen then []
    else if 56 < c.bufferLen + 1 then
      List.range' (c.bufferLen + 1) (64 - (c.bufferLen + 1)) ++
        if shani then List.range' 0 56 ++ List.range' 56 8 else []
    else List.range' (c.bufferLen + 1) (56 - (c.bufferLen + 1)) ++ List.range' 56 8

/-- A call on a context: an update with data or a null pointer, a final one with a place for the hash or a null
pointer. -/
inductive Op
  | init
  | update (data : Option Data)
  | final (hash : Bool)

def Op.writes (c : Ctx) : Op → List ℕ
  | .init => []
  | .update none => []
  | .update (some data) => updateWrites shani compress c data.1
  | .final false => []
  | .final true => finalWrites shani c

/-- A call with its result. A write behind the buffer leaves no context. -/
def step : Option Ctx → Op → Option (U8 × Option Ctx)
  | none, _ => none
  | some c, .init => some (1, some (hwcryptoSha256Init c.buffer))
  | some c, .update data =>
      let r := hwcryptoSha256Update shani compress c data
      some (r.1, some r.2)
  | some c, .final false => some (0, some c)
  | some c, .final true =>
      match hwcryptoSha256Final shani compress c with
      | some r => some (r.1, some r.2)
      | none => some (0, none)

end Shani

/-! ## The writes are those of the calls -/

variable {shani : Bool} {compress : Hash → Block → Hash} {c : Ctx} {xs data : List U8}

theorem append_frame (h : c.bufferLen + xs.length ≤ 64) {i : Fin 64}
    (hi : (i : ℕ) ∉ List.range' c.bufferLen xs.length) : (append c xs h).buffer i = c.buffer i := by
  rw [List.mem_range'_1] at hi
  show write c.buffer c.bufferLen xs i = c.buffer i
  unfold write
  exact dif_neg (by omega)

theorem absorb_frame {i : Fin 64} (hi : (i : ℕ) ∉ List.range' c.bufferLen (toCopy c data)) :
    (absorb c data).buffer i = c.buffer i := by
  refine append_frame (fits_toCopy c data) ?_
  rwa [length_take_toCopy]

/-- **An update** writes nothing else. -/
theorem update_frame {i : Fin 64} (hi : (i : ℕ) ∉ updateWrites shani compress c data) :
    (updateLoop shani compress c data).2.buffer i = c.buffer i := by
  induction c, data using updateLoop.induct shani compress with
  | case1 c => rw [updateLoop, if_pos rfl]
  | case2 c data hdata hfull hshani ih =>
      rw [updateWrites, if_neg hdata, if_pos hfull, if_pos hshani, List.mem_append, not_or] at hi
      rw [updateLoop, if_neg hdata, if_pos hfull, if_pos hshani, ih hi.2]
      exact absorb_frame hi.1
  | case3 c data hdata hfull hshani =>
      rw [updateWrites, if_neg hdata, if_pos hfull, if_neg hshani, List.append_nil] at hi
      rw [updateLoop, if_neg hdata, if_pos hfull, if_neg hshani]
      exact absorb_frame hi
  | case4 c data hdata hfull ih =>
      rw [updateWrites, if_neg hdata, if_neg hfull, List.mem_append, not_or] at hi
      rw [updateLoop, if_neg hdata, if_neg hfull, ih hi.2]
      exact absorb_frame hi.1

theorem fill_frame {n : ℕ} (h : n ≤ 64) {i : Fin 64} (hi : (i : ℕ) ∉ List.range' c.bufferLen (n - c.bufferLen)) :
    (fill c n h).buffer i = c.buffer i := by
  refine append_frame _ ?_
  rwa [List.length_replicate]

theorem storeLength_frame {i : Fin 64} (hi : (i : ℕ) ∉ List.range' 56 8) : (storeLength c).buffer i = c.buffer i := by
  have hlength : (lengthBytes (c.totalLen * 8)).length = 8 := by
    rw [lengthBytes, List.length_map, List.length_range]
  rw [List.mem_range'_1] at hi
  show write c.buffer 56 _ i = c.buffer i
  unfold write
  exact dif_neg (by omega)

theorem finish_frame {i : Fin 64}
    (hi : (i : ℕ) ∉ List.range' c.bufferLen (56 - c.bufferLen) ++ List.range' 56 8) :
    (finish shani compress c).2.buffer i = c.buffer i := by
  rw [List.mem_append, not_or] at hi
  have hbuffer : (storeLength (fill c 56 (by decide))).buffer i = c.buffer i := by
    rw [storeLength_frame hi.2, fill_frame _ hi.1]
  unfold finish
  simp only
  split_ifs
  · exact hbuffer
  · exact hbuffer

/-- **A final call** writes nothing else. -/
theorem final_frame {r : U8 × Ctx} (h : hwcryptoSha256Final shani compress c = some r) {i : Fin 64}
    (hi : (i : ℕ) ∉ finalWrites shani c) : r.2.buffer i = c.buffer i := by
  unfold hwcryptoSha256Final at h
  unfold finalWrites at hi
  split at h
  · next hlt =>
      have hhead : (append c [0x80] hlt).bufferLen = c.bufferLen + 1 := rfl
      rw [if_neg (not_le.mpr hlt), List.mem_cons, not_or] at hi
      have hfirst : (append c [0x80] hlt).buffer i = c.buffer i := by
        refine @append_frame c [0x80] hlt i fun hmem => hi.1 ?_
        rw [List.length_singleton, List.range'_one, List.mem_singleton] at hmem
        exact hmem
      simp only [hhead] at h
      by_cases hroom : 56 < c.bufferLen + 1
      · rw [if_pos hroom] at h hi
        obtain ⟨hzeros, hrest⟩ := not_or.mp (List.mem_append.not.mp hi.2)
        have hfill : (fill (append c [0x80] hlt) 64 le_rfl).buffer i = c.buffer i :=
          (fill_frame le_rfl hzeros).trans hfirst
        split_ifs at h hrest with hshani
        · obtain rfl := Option.some_inj.mp h
          exact (finish_frame hrest).trans hfill
        · obtain rfl := Option.some_inj.mp h
          exact hfill
      · rw [if_neg hroom] at h hi
        obtain rfl := Option.some_inj.mp h
        exact (finish_frame hi.2).trans hfirst
  · cases h

/-! ## Inside the buffer -/

theorem updateWrites_lt {i : ℕ} (hi : i ∈ updateWrites shani compress c data) : i < 64 := by
  have hcopy (c : Ctx) (data : List U8) (hmem : i ∈ List.range' c.bufferLen (toCopy c data)) : i < 64 :=
    (List.mem_range'_1.mp hmem).2.trans_le (toCopy_le c data).2
  induction c, data using updateLoop.induct shani compress with
  | case1 c =>
      rw [updateWrites, if_pos rfl] at hi
      exact absurd hi List.not_mem_nil
  | case2 c data hdata hfull hshani ih =>
      rw [updateWrites, if_neg hdata, if_pos hfull, if_pos hshani] at hi
      exact (List.mem_append.mp hi).elim (hcopy c data) ih
  | case3 c data hdata hfull hshani =>
      rw [updateWrites, if_neg hdata, if_pos hfull, if_neg hshani, List.append_nil] at hi
      exact hcopy c data hi
  | case4 c data hdata hfull ih =>
      rw [updateWrites, if_neg hdata, if_neg hfull] at hi
      exact (List.mem_append.mp hi).elim (hcopy c data) ih

/-- A final call stays in the buffer exactly when this is not full. -/
theorem finalWrites_lt_iff : (∀ i ∈ finalWrites shani c, i < 64) ↔ c.bufferLen ≠ 64 := by
  have hle := c.bufferLen_le
  unfold finalWrites
  rw [List.forall_mem_cons]
  constructor
  · rintro ⟨hlt, -⟩
    exact hlt.ne
  · intro hne
    have hlt : c.bufferLen < 64 := by omega
    refine ⟨hlt, fun i hi => ?_⟩
    rw [if_neg (not_le.mpr hlt)] at hi
    split_ifs at hi
    all_goals simp only [List.mem_append, List.mem_range'_1, List.not_mem_nil, or_false] at hi
    all_goals omega

/-- **One call** stays in the buffer, unless it is a final one on a full buffer. -/
theorem writes_lt_iff (o : Op) :
    (∀ i ∈ o.writes shani compress c, i < 64) ↔ (o = .final true → c.bufferLen ≠ 64) := by
  match o with
  | .init => exact iff_of_true (fun i hi => absurd hi List.not_mem_nil) fun h => by cases h
  | .update none => exact iff_of_true (fun i hi => absurd hi List.not_mem_nil) fun h => by cases h
  | .update (some data) => exact iff_of_true (fun i hi => updateWrites_lt hi) fun h => by cases h
  | .final false => exact iff_of_true (fun i hi => absurd hi List.not_mem_nil) fun h => by cases h
  | .final true => exact finalWrites_lt_iff.trans ⟨fun h _ => h, fun h => h rfl⟩

/-! ## Runs -/

/-- The writes of a call stay in the buffer. -/
def Inside (shani : Bool) (compress : Hash → Block → Hash) (s : Option Ctx) (e : Op × U8) : Prop :=
  ∀ c, s = some c → ∀ i ∈ e.1.writes shani compress c, i < 64

/-- A call that finishes a hash does not find the buffer full. -/
def NotFull (s : Option Ctx) (e : Op × U8) : Prop := ∀ c, s = some c → e.1 = .final true → c.bufferLen ≠ 64

/-- **All writes of a run** are in the buffer exactly when no final call finds it full. -/
theorem writes_inside_iff {es : List (Op × U8)} {t : Option Ctx} (hrun : Run (step shani compress) (some c) es t) :
    Along (step shani compress) (Inside shani compress) (some c) es ↔
      Along (step shani compress) NotFull (some c) es :=
  hrun.along_iff (I := fun _ => True) (fun _ _ _ _ _ _ => trivial)
    (fun _ o _ _ _ _ => forall₂_congr fun _ _ => writes_lt_iff o) trivial

/-! ### With SHA-NI -/

theorem updateLoop_lt (hlt : c.bufferLen < 64) : (updateLoop true compress c data).2.bufferLen < 64 := by
  induction c, data using updateLoop.induct true compress with
  | case1 c =>
      rw [updateLoop, if_pos rfl]
      exact hlt
  | case2 c data hdata hfull _ ih =>
      rw [updateLoop, if_neg hdata, if_pos hfull, if_pos rfl]
      exact ih (Nat.zero_lt_succ 63)
  | case3 c data hdata hfull hshani => exact absurd rfl hshani
  | case4 c data hdata hfull ih =>
      have hle := (absorb c data).bufferLen_le
      rw [updateLoop, if_neg hdata, if_neg hfull]
      exact ih (by omega)

theorem finish_bufferLen (hle : c.bufferLen ≤ 56) : (finish shani compress c).2.bufferLen = 56 := by
  have hfill : (storeLength (fill c 56 (by decide))).bufferLen = 56 := by
    show c.bufferLen + (List.replicate (56 - c.bufferLen) (0 : U8)).length = 56
    rw [List.length_replicate]
    omega
  unfold finish
  simp only
  split_ifs
  · exact hfill
  · exact hfill

theorem final_lt {r : U8 × Ctx} (h : hwcryptoSha256Final true compress c = some r) : r.2.bufferLen < 64 := by
  unfold hwcryptoSha256Final at h
  split at h
  · next hlt =>
      simp only at h
      split_ifs at h with hroom
      · obtain rfl := Option.some_inj.mp h
        rw [finish_bufferLen (by exact Nat.zero_le 56)]
        decide
      · obtain rfl := Option.some_inj.mp h
        rw [finish_bufferLen (not_lt.mp hroom)]
        decide
  · cases h

theorem step_lt {o : Op} {r : U8} {c' : Ctx} (hstep : step true compress (some c) o = some (r, some c'))
    (hlt : c.bufferLen < 64) : c'.bufferLen < 64 := by
  match o, hstep with
  | .init, hstep =>
      obtain rfl := Option.some_inj.mp (Prod.mk.inj (Option.some_inj.mp hstep)).2
      exact Nat.zero_lt_succ 63
  | .update none, hstep =>
      obtain rfl := Option.some_inj.mp (Prod.mk.inj (Option.some_inj.mp hstep)).2
      exact hlt
  | .update (some data), hstep =>
      obtain rfl := Option.some_inj.mp (Prod.mk.inj (Option.some_inj.mp hstep)).2
      exact updateLoop_lt hlt
  | .final false, hstep =>
      obtain rfl := Option.some_inj.mp (Prod.mk.inj (Option.some_inj.mp hstep)).2
      exact hlt
  | .final true, hstep =>
      cases hfinal : hwcryptoSha256Final true compress c with
      | none =>
          simp only [step, hfinal] at hstep
          cases (Prod.mk.inj (Option.some_inj.mp hstep)).2
      | some p =>
          simp only [step, hfinal] at hstep
          obtain rfl := Option.some_inj.mp (Prod.mk.inj (Option.some_inj.mp hstep)).2
          exact final_lt hfinal

/-- A call changes no byte of the buffer but those it writes. -/
def WritesOnly (shani : Bool) (compress : Hash → Block → Hash) (s : Option Ctx) (e : Op × U8) : Prop :=
  ∀ c r c', s = some c → step shani compress (some c) e.1 = some (r, some c') →
    ∀ i : Fin 64, (i : ℕ) ∉ e.1.writes shani compress c → c'.buffer i = c.buffer i

theorem writesOnly (s : Option Ctx) (e : Op × U8) : WritesOnly shani compress s e := by
  rintro c r c' - hstep i hi
  match e with
  | (.init, _) =>
      obtain rfl := Option.some_inj.mp (Prod.mk.inj (Option.some_inj.mp hstep)).2
      rfl
  | (.update none, _) =>
      obtain rfl := Option.some_inj.mp (Prod.mk.inj (Option.some_inj.mp hstep)).2
      rfl
  | (.update (some data), _) =>
      obtain rfl := Option.some_inj.mp (Prod.mk.inj (Option.some_inj.mp hstep)).2
      exact update_frame hi
  | (.final false, _) =>
      obtain rfl := Option.some_inj.mp (Prod.mk.inj (Option.some_inj.mp hstep)).2
      rfl
  | (.final true, _) =>
      cases hfinal : hwcryptoSha256Final shani compress c with
      | none =>
          simp only [step, hfinal] at hstep
          cases (Prod.mk.inj (Option.some_inj.mp hstep)).2
      | some p =>
          simp only [step, hfinal] at hstep
          obtain rfl := Option.some_inj.mp (Prod.mk.inj (Option.some_inj.mp hstep)).2
          exact final_frame hfinal hi

/-- **With SHA-NI** every call of a run from an initialized context writes inside the buffer, and changes no byte of it
but those it writes. -/
theorem inside_of_shani (compress : Hash → Block → Hash) (buffer : Block) (es : List (Op × U8)) :
    Along (step true compress) (fun s e => Inside true compress s e ∧ WritesOnly true compress s e)
      (some (hwcryptoSha256Init buffer)) es := by
  refine fun pre e post u _ hpre => ⟨fun c hc => (writes_lt_iff e.1).mpr fun _ => ?_, writesOnly u e⟩
  have hroom : ∀ c, u = some c → c.bufferLen < 64 := by
    refine hpre.invariant (fun s => ∀ c, s = some c → c.bufferLen < 64) (fun s o r s' hs hstep c' hc' => ?_)
      fun c hc => ?_
    · cases s with
      | none => cases hstep
      | some c => exact step_lt (hc' ▸ hstep) (hs c rfl)
    · obtain rfl := Option.some_inj.mp hc
      exact Nat.zero_lt_succ 63
  exact (hroom c hc).ne

/-! ### Short data -/

theorem updateLoop_of_room (h : c.bufferLen + data.length < 64) : ∃ c',
    updateLoop shani compress c data = (1, c') ∧ c'.bufferLen = c.bufferLen + data.length := by
  by_cases hdata : data = []
  · exact ⟨c, by rw [updateLoop, if_pos hdata], by rw [hdata, List.length_nil, Nat.add_zero]⟩
  · have hcopy : toCopy c data = data.length := if_pos (by omega)
    have hlen : (absorb c data).bufferLen = c.bufferLen + data.length := by
      show c.bufferLen + (data.take (toCopy c data)).length = _
      rw [length_take_toCopy, hcopy]
    refine ⟨absorb c data, ?_, hlen⟩
    rw [updateLoop, if_neg hdata, if_neg (by omega), hcopy, List.drop_length, updateLoop, if_pos rfl]

def message : Data := ⟨[0x61, 0x62, 0x63], by decide⟩

/-- A compression function that does nothing. -/
def noCompress : Hash → Block → Hash := fun h _ => h

theorem exists_run_message (shani : Bool) : ∃ c r t, c.bufferLen = 3 ∧
    step shani noCompress (some (hwcryptoSha256Init fun _ => 0)) (.update (some message)) = some (1, some c) ∧
    step shani noCompress (some c) (.final true) = some (r, some t) := by
  obtain ⟨c, hupdate, hlen⟩ : ∃ c, updateLoop shani noCompress (hwcryptoSha256Init fun _ => 0) message.1 = (1, c) ∧
      c.bufferLen = 3 := updateLoop_of_room (by decide)
  have hstep : step shani noCompress (some (hwcryptoSha256Init fun _ => 0)) (.update (some message)) =
      some (1, some c) := by
    show some ((updateLoop shani noCompress _ message.1).1, some (updateLoop shani noCompress _ message.1).2) = _
    rw [hupdate]
  obtain ⟨p, hfinal⟩ : ∃ p, hwcryptoSha256Final shani noCompress c = some p := by
    unfold hwcryptoSha256Final
    rw [dif_pos (by omega : c.bufferLen < 64)]
    dsimp only
    split_ifs
    all_goals exact ⟨_, rfl⟩
  exact ⟨c, p.1, p.2, hlen, hstep, by simp only [step, hfinal]⟩

theorem inside_of_shani_message : ∃ r t,
    Run (step true noCompress) (some (hwcryptoSha256Init fun _ => 0))
      [(.update (some message), 1), (.final true, r)] t ∧
    Along (step true noCompress) (fun s e => Inside true noCompress s e ∧ WritesOnly true noCompress s e)
      (some (hwcryptoSha256Init fun _ => 0)) [(.update (some message), 1), (.final true, r)] := by
  obtain ⟨c, r, t, -, hupdate, hfinal⟩ := exists_run_message true
  have hrun := Run.cons hupdate (.cons hfinal (.nil _))
  exact ⟨r, some t, hrun, inside_of_shani noCompress _ _⟩

/-! ### Without -/

def zeros : Data := ⟨List.replicate 64 0, by decide⟩

/-- Without SHA-NI, three bytes and a final call. -/
theorem writes_inside_message : ∃ r t,
    Run (step false noCompress) (some (hwcryptoSha256Init fun _ => 0))
      [(.update (some message), 1), (.final true, r)] t ∧
    Along (step false noCompress) (Inside false noCompress) (some (hwcryptoSha256Init fun _ => 0))
      [(.update (some message), 1), (.final true, r)] := by
  obtain ⟨c, r, t, hlen, hupdate, hfinal⟩ := exists_run_message false
  have hrun := Run.cons hupdate (.cons hfinal (.nil _))
  refine ⟨r, some t, hrun, (writes_inside_iff hrun).mpr ?_⟩
  refine (along_cons hupdate).mpr ⟨fun _ _ he => (by cases he), (along_cons hfinal).mpr ⟨fun c' hc _ => ?_,
    along_nil _ _⟩⟩
  obtain rfl := Option.some_inj.mp hc
  omega

/-- Without SHA-NI, an update with a block returns 0, and the final call then writes behind the buffer. -/
theorem not_writes_inside_block : ∃ t, Run (step false noCompress) (some (hwcryptoSha256Init fun _ => 0))
    [(.update (some zeros), 0), (.final true, 0)] t ∧
      ¬Along (step false noCompress) (Inside false noCompress) (some (hwcryptoSha256Init fun _ => 0))
        [(.update (some zeros), 0), (.final true, 0)] := by
  obtain ⟨c₀, hc₀⟩ : ∃ c₀, hwcryptoSha256Init (fun _ => 0) = c₀ := ⟨_, rfl⟩
  have hcopy : toCopy c₀ zeros.1 = 64 := by
    rw [← hc₀]
    rfl
  have hfull : (absorb c₀ zeros.1).bufferLen = 64 := by
    show c₀.bufferLen + (zeros.1.take (toCopy c₀ zeros.1)).length = 64
    rw [length_take_toCopy, hcopy, ← hc₀]
    rfl
  have hupdate : updateLoop false noCompress c₀ zeros.1 = (0, absorb c₀ zeros.1) := by
    rw [updateLoop, if_neg (by decide), if_pos hfull, if_neg Bool.false_ne_true]
  have hstep : step false noCompress (some c₀) (.update (some zeros)) = some (0, some (absorb c₀ zeros.1)) := by
    show some ((updateLoop false noCompress c₀ zeros.1).1, some (updateLoop false noCompress c₀ zeros.1).2) = _
    rw [hupdate]
  have hfinal : step false noCompress (some (absorb c₀ zeros.1)) (.final true) = some (0, none) := by
    have hnone : hwcryptoSha256Final false noCompress (absorb c₀ zeros.1) = none := by
      unfold hwcryptoSha256Final
      exact dif_neg (by omega)
    simp only [step, hnone]
  rw [hc₀]
  refine ⟨none, .cons hstep (.cons hfinal (.nil _)), fun hall => ?_⟩
  have hinside := ((along_cons hfinal).mp ((along_cons hstep).mp hall).2).1 _ rfl
  exact finalWrites_lt_iff.mp hinside hfull

end BloodKernel.Sha256
