import BloodKernel.Kernel.Types
import BloodKernel.Lib.Keyed
import BloodKernel.Lib.Run
import BloodKernel.Lib.Search

set_option autoImplicit false

/-!
# The access point

`arch/esp32s3/wifi_ap.c` keeps a table of eight stations, filled by the authentication requests and changed by the
association requests it receives. What it sends are the responses.

* `Ap`: the table and the count; `wifiApInit`, `wifiApHandleAuth`, `wifiApHandleAssoc`, `wifiApProcessFrame`.
* `process_cases`: what a frame can do.
* **`consistent_of_run`**: after any frames the count is right, the addresses and association ids of the stations
  are distinct, and a frame that fails a check changes nothing.
-/

namespace BloodKernel.WifiAp

open Lib

abbrev Mac := Fin 6 → U8

/-- The bytes of a frame, as many as its length. -/
abbrev Frame := List U8

/-- State 0 is a free slot, 1 an authenticated and 2 an associated station. -/
structure StaInfo where
  mac : Mac
  aid : U8
  state : U8

structure Ap where
  stations : Fin 8 → StaInfo
  staCount : U8

/-- The source address. -/
def srcMac (f : Frame) : Mac := fun j => f.getD (10 + j) 0

/-- `*(u16*)(frame + k)`. -/
def half (f : Frame) (k : ℕ) : U16 := f.getD (k + 1) 0 ++ f.getD k 0

/-- `frame[0] & 0xFC`. -/
def frameType (f : Frame) : U8 := f.getD 0 0 &&& 0xFC

def wifiApInit (s : Ap) : Ap := ⟨fun i => { s.stations i with state := 0 }, 0⟩

def findStation (s : Ap) (mac : Mac) : Option (Fin 8) :=
  first fun i => decide (0 < (s.stations i).state ∧ (s.stations i).mac = mac)

/-- A slot is filled with an authenticated station. -/
def fill (s : Ap) (i : Fin 8) (mac : Mac) : Ap :=
  ⟨Function.update s.stations i ⟨mac, BitVec.ofNat 8 (i + 1), 1⟩, s.staCount + 1⟩

def addStation (s : Ap) (mac : Mac) : Option (Fin 8) × Ap :=
  match first fun i => decide ((s.stations i).state = 0) with
  | some i => (some i, fill s i mac)
  | none => (none, s)

/-- A station becomes associated. -/
def associate (s : Ap) (i : Fin 8) : Ap :=
  { s with stations := Function.update s.stations i { s.stations i with state := 2 } }

section Bssid

-- the address of the access point
variable (bssid : Mac)

/-- The header of a response: type, duration, destination, source, BSSID, sequence control. -/
def header (type : U8) (mac : Mac) : Frame :=
  [type, 0x00, 0x00, 0x00] ++ List.ofFn mac ++ List.ofFn bssid ++ List.ofFn bssid ++ [0x00, 0x00]

/-- Algorithm, transaction sequence and status of success. -/
def authResp (mac : Mac) : Frame := header bssid 0xB0 mac ++ [0x00, 0x00, 0x02, 0x00, 0x00, 0x00]

/-- Capabilities, status of success and association id. -/
def assocResp (mac : Mac) (aid : U8) : Frame := header bssid 0x10 mac ++ [0x01, 0x00, 0x00, 0x00, aid, 0xC0]

/-- The response, if one is sent, and the table. -/
def wifiApHandleAuth (s : Ap) (f : Frame) : Option Frame × Ap :=
  if f.length < 30 then (none, s)
  else if half f 24 ≠ 0 ∨ half f 26 ≠ 1 then (none, s)
  else
    match findStation s (srcMac f) with
    | some _ => (some (authResp bssid (srcMac f)), s)
    | none =>
        match addStation s (srcMac f) with
        | (some _, s) => (some (authResp bssid (srcMac f)), s)
        | (none, s) => (none, s)

def wifiApHandleAssoc (s : Ap) (f : Frame) : Option Frame × Ap :=
  if f.length < 28 then (none, s)
  else
    match findStation s (srcMac f) with
    | some i =>
        if (s.stations i).state ≠ 1 then (none, s)
        else (some (assocResp bssid (srcMac f) (s.stations i).aid), associate s i)
    | none => (none, s)

/-- Probe requests (`0x40`) and deauthentications (`0xC0`) are not handled. -/
def wifiApProcessFrame (s : Ap) (f : Frame) : Option Frame × Ap :=
  if f.length < 24 then (none, s)
  else if frameType f = 0xB0 then wifiApHandleAuth bssid s f
  else if frameType f = 0x00 then wifiApHandleAssoc bssid s f
  else (none, s)

end Bssid

def wifiApGetStationCount (s : Ap) : U8 := s.staCount

/-! ## The table -/

/-- The length and field checks of an authentication request. -/
structure AuthRequest (f : Frame) : Prop where
  long : 30 ≤ f.length
  type : frameType f = 0xB0
  algorithm : half f 24 = 0
  sequence : half f 26 = 1

/-- Those of an association request. -/
structure AssocRequest (f : Frame) : Prop where
  long : 28 ≤ f.length
  type : frameType f = 0x00

/-- The address in a slot, if there is a station. -/
def macIn (s : Ap) (i : Fin 8) : Option Mac := if (s.stations i).state = 0 then none else some (s.stations i).mac

/-- The association id in a slot, if there is a station. -/
def aidIn (s : Ap) (i : Fin 8) : Option U8 := if (s.stations i).state = 0 then none else some (s.stations i).aid

/-- The count is that of the slots with a station, and these have distinct addresses and distinct association ids
from 1 to 8. -/
structure Consistent (s : Ap) : Prop where
  count : (wifiApGetStationCount s).toNat = (Finset.univ.filter fun i => (s.stations i).state ≠ 0).card
  macs : Distinct (macIn s)
  aids : Distinct (aidIn s)
  range : ∀ i aid, aidIn s i = some aid → 1 ≤ aid.toNat ∧ aid.toNat ≤ 8

/-- What the frames keep: the association id of a slot is its number, and its state is 0, 1 or 2. -/
structure Inv (s : Ap) : Prop where
  count : s.staCount.toNat = numKeys (macIn s)
  macs : Distinct (macIn s)
  aid : ∀ i, (s.stations i).state ≠ 0 → (s.stations i).aid = BitVec.ofNat 8 (i + 1)
  state : ∀ i, (s.stations i).state.toNat ≤ 2

variable {bssid : Mac} {s t : Ap} {f : Frame} {mac : Mac} {i j : Fin 8}

theorem macIn_eq_none : macIn s i = none ↔ (s.stations i).state = 0 := by
  unfold macIn
  split_ifs with h
  · exact iff_of_true rfl h
  · exact iff_of_false (fun hn => by cases hn) h

theorem macIn_eq_some : macIn s i = some mac ↔ (s.stations i).state ≠ 0 ∧ (s.stations i).mac = mac := by
  unfold macIn
  split_ifs with h
  · exact iff_of_false (fun hn => by cases hn) fun hn => hn.1 h
  · rw [Option.some_inj, and_iff_right h]

theorem macIn_fill (s : Ap) (i : Fin 8) (mac : Mac) : macIn (fill s i mac) = Function.update (macIn s) i (some mac) :=
  Function.comp_update (fun x : StaInfo => if x.state = 0 then none else some x.mac) s.stations i _

theorem macIn_associate (h : (s.stations i).state ≠ 0) : macIn (associate s i) = macIn s := by
  have hsame : macIn s i = some (s.stations i).mac := if_neg h
  have hupdate : macIn (associate s i) = Function.update (macIn s) i (some (s.stations i).mac) :=
    Function.comp_update (fun x : StaInfo => if x.state = 0 then none else some x.mac) s.stations i _
  rw [hupdate, ← hsame, Function.update_eq_self]

theorem findStation_eq_some (hd : Distinct (macIn s)) : findStation s mac = some i ↔ macIn s i = some mac := by
  have hslot : ∀ j, decide (0 < (s.stations j).state ∧ (s.stations j).mac = mac) = true ↔ macIn s j = some mac := by
    intro j
    rw [decide_eq_true_iff, macIn_eq_some]
    exact and_congr_left fun _ => BitVec.pos_iff_ne_zero _
  unfold findStation
  rw [first_eq_some_iff, hslot]
  refine and_iff_left_of_imp fun hi j hj => ?_
  rw [Bool.eq_false_iff, ne_eq, hslot]
  intro hmac
  exact absurd (hd j i mac hmac hi) hj.ne

theorem findStation_eq_none : findStation s mac = none ↔ ∀ i, macIn s i ≠ some mac := by
  unfold findStation
  rw [first_eq_none_iff]
  refine forall_congr' fun i => ?_
  rw [decide_eq_false_iff_not, ne_eq, macIn_eq_some]
  exact not_congr (and_congr_left fun _ => BitVec.pos_iff_ne_zero _)

/-! ## One frame -/

variable (bssid) in
/-- An authentication request is answered unless its station is new and there is no free slot. -/
theorem handleAuth_cases (hd : Distinct (macIn s)) (hf : AuthRequest f) :
    (∃ i, macIn s i = some (srcMac f) ∧
        wifiApHandleAuth bssid s f = (some (authResp bssid (srcMac f)), s)) ∨
      (∃ i, (∀ j, macIn s j ≠ some (srcMac f)) ∧ macIn s i = none ∧
        wifiApHandleAuth bssid s f = (some (authResp bssid (srcMac f)), fill s i (srcMac f))) ∨
      ((∀ j, macIn s j ≠ some (srcMac f)) ∧ (∀ i, macIn s i ≠ none) ∧ wifiApHandleAuth bssid s f = (none, s)) := by
  have hlong : ¬f.length < 30 := Nat.not_lt.mpr hf.long
  have hfields : ¬(half f 24 ≠ 0 ∨ half f 26 ≠ 1) := by
    rw [not_or, not_not, not_not]
    exact ⟨hf.algorithm, hf.sequence⟩
  unfold wifiApHandleAuth
  rw [if_neg hlong, if_neg hfields]
  cases hfind : findStation s (srcMac f) with
  | some i => exact .inl ⟨i, (findStation_eq_some hd).mp hfind, rfl⟩
  | none =>
      have hnone := findStation_eq_none.mp hfind
      cases hfree : first fun i => decide ((s.stations i).state = 0) with
      | some i =>
          have hi : macIn s i = none := macIn_eq_none.mpr (of_decide_eq_true (first_eq_some_iff.mp hfree).1)
          exact .inr (.inl ⟨i, hnone, hi, by simp only [addStation, hfree]⟩)
      | none =>
          have hall : ∀ i, macIn s i ≠ none := fun i hi =>
            of_decide_eq_false (first_eq_none_iff.mp hfree i) (macIn_eq_none.mp hi)
          exact .inr (.inr ⟨hnone, hall, by simp only [addStation, hfree]⟩)

variable (bssid) in
theorem handleAssoc_cases (hd : Distinct (macIn s)) (hf : AssocRequest f) :
    (∃ i, macIn s i = some (srcMac f) ∧ (s.stations i).state = 1 ∧
        wifiApHandleAssoc bssid s f =
          (some (assocResp bssid (srcMac f) (s.stations i).aid), associate s i)) ∨
      ((∀ i, macIn s i = some (srcMac f) → (s.stations i).state ≠ 1) ∧ wifiApHandleAssoc bssid s f = (none, s)) := by
  have hlong : ¬f.length < 28 := Nat.not_lt.mpr hf.long
  unfold wifiApHandleAssoc
  rw [if_neg hlong]
  cases hfind : findStation s (srcMac f) with
  | some i =>
      have hi := (findStation_eq_some hd).mp hfind
      by_cases hstate : (s.stations i).state = 1
      · exact .inl ⟨i, hi, hstate, if_neg (not_not.mpr hstate)⟩
      · refine .inr ⟨fun j hj => ?_, if_pos hstate⟩
        rw [hd j i _ hj hi]
        exact hstate
  | none => exact .inr ⟨fun i hi => absurd hi (findStation_eq_none.mp hfind i), rfl⟩

theorem process_of_auth (hf : AuthRequest f) : wifiApProcessFrame bssid s f = wifiApHandleAuth bssid s f := by
  have hlong := hf.long
  rw [wifiApProcessFrame, if_neg (by omega), if_pos hf.type]

theorem process_of_assoc (hf : AssocRequest f) : wifiApProcessFrame bssid s f = wifiApHandleAssoc bssid s f := by
  have hlong := hf.long
  have htype : frameType f ≠ 0xB0 := by
    rw [hf.type]
    decide
  rw [wifiApProcessFrame, if_neg (by omega), if_neg htype, if_pos hf.type]

theorem process_of_neither (ha : ¬AuthRequest f) (hb : ¬AssocRequest f) : wifiApProcessFrame bssid s f = (none, s) := by
  unfold wifiApProcessFrame wifiApHandleAuth wifiApHandleAssoc
  split_ifs with hshort hauth hlong hfields hassoc hlong'
  · rfl
  · rfl
  · rfl
  · rw [not_or, not_not, not_not] at hfields
    exact absurd ⟨Nat.not_lt.mp hlong, hauth, hfields.1, hfields.2⟩ ha
  · rfl
  · exact absurd ⟨Nat.not_lt.mp hlong', hassoc⟩ hb
  · rfl

variable (bssid) in
/-- **One frame**: it changes nothing, or fills a free slot with a new station, or associates a station. -/
theorem process_cases (hd : Distinct (macIn s)) (f : Frame) :
    (wifiApProcessFrame bssid s f).2 = s ∨
      (∃ i, (∀ j, macIn s j ≠ some (srcMac f)) ∧ macIn s i = none ∧
        (wifiApProcessFrame bssid s f).2 = fill s i (srcMac f)) ∨
      ∃ i, AssocRequest f ∧ macIn s i = some (srcMac f) ∧ (s.stations i).state = 1 ∧
        (wifiApProcessFrame bssid s f).2 = associate s i := by
  by_cases ha : AuthRequest f
  · rw [process_of_auth ha]
    rcases handleAuth_cases bssid hd ha with ⟨i, -, heq⟩ | ⟨i, hnew, hfree, heq⟩ | ⟨-, -, heq⟩
    · rw [heq]
      exact .inl rfl
    · rw [heq]
      exact .inr (.inl ⟨i, hnew, hfree, rfl⟩)
    · rw [heq]
      exact .inl rfl
  · by_cases hb : AssocRequest f
    · rw [process_of_assoc hb]
      rcases handleAssoc_cases bssid hd hb with ⟨i, hi, hstate, heq⟩ | ⟨-, heq⟩
      · rw [heq]
        exact .inr (.inr ⟨i, hb, hi, hstate, rfl⟩)
      · rw [heq]
        exact .inl rfl
    · rw [process_of_neither ha hb]
      exact .inl rfl

/-! ## Runs -/

theorem Inv.fill (h : Inv s) (hnew : ∀ j, macIn s j ≠ some mac) (hi : macIn s i = none) : Inv (fill s i mac) := by
  have hle : numKeys (macIn s) + 1 ≤ 8 := by
    rw [← numKeys_update (k := mac) hi]
    exact numKeys_le _
  refine ⟨?_, ?_, ?_, ?_⟩
  · rw [macIn_fill, numKeys_update hi, ← h.count]
    have hone : (1 : U8).toNat = 1 := rfl
    have hcount := h.count
    show (s.staCount + 1).toNat = _
    rw [BitVec.toNat_add, hone, Nat.mod_eq_of_lt (by omega)]
  · rw [macIn_fill]
    exact (distinct_update hi).mpr ⟨h.macs, hnew⟩
  · exact (Function.forall_update_iff s.stations fun j x => x.state ≠ 0 → x.aid = BitVec.ofNat 8 (j + 1)).mpr
      ⟨fun _ => rfl, fun j _ => h.aid j⟩
  · exact (Function.forall_update_iff s.stations fun _ x => x.state.toNat ≤ 2).mpr
      ⟨Nat.le_succ 1, fun j _ => h.state j⟩

theorem Inv.associate (h : Inv s) (hi : (s.stations i).state ≠ 0) : Inv (associate s i) := by
  refine ⟨?_, ?_, ?_, ?_⟩
  · rw [macIn_associate hi]
    exact h.count
  · rw [macIn_associate hi]
    exact h.macs
  · exact (Function.forall_update_iff s.stations fun j x => x.state ≠ 0 → x.aid = BitVec.ofNat 8 (j + 1)).mpr
      ⟨fun _ => h.aid i hi, fun j _ => h.aid j⟩
  · exact (Function.forall_update_iff s.stations fun _ x => x.state.toNat ≤ 2).mpr
      ⟨Nat.le_refl 2, fun j _ => h.state j⟩

variable (bssid) in
theorem Inv.process (h : Inv s) (f : Frame) : Inv (wifiApProcessFrame bssid s f).2 := by
  rcases process_cases bssid h.macs f with heq | ⟨i, hnew, hfree, heq⟩ | ⟨i, -, hi, -, heq⟩
  · rw [heq]
    exact h
  · rw [heq]
    exact h.fill hnew hfree
  · rw [heq]
    exact h.associate (macIn_eq_some.mp hi).1

theorem macIn_init (s : Ap) (i : Fin 8) : macIn (wifiApInit s) i = none := rfl

theorem inv_init (s : Ap) : Inv (wifiApInit s) := by
  refine ⟨?_, distinct_of_free (macIn_init s), fun i h => absurd rfl h, fun i => Nat.zero_le _⟩
  rw [numKeys_of_free (macIn_init s)]
  rfl

theorem inv_of_run {es : List (Frame × Option Frame)}
    (h : Run (total (wifiApProcessFrame bssid)) (wifiApInit s) es t) : Inv t := by
  refine h.invariant Inv (fun s f r s' hs hstep => ?_) (inv_init s)
  have hprocess := hs.process bssid f
  rwa [total_eq_some.mp hstep] at hprocess

theorem toNat_slotId (i : Fin 8) : (BitVec.ofNat 8 (i + 1)).toNat = i + 1 := Nat.mod_eq_of_lt (by omega)

theorem aidIn_eq_some (h : Inv s) {aid : U8} (ha : aidIn s i = some aid) : aid.toNat = i + 1 := by
  unfold aidIn at ha
  split_ifs at ha with hstate
  cases ha
  rw [h.aid i hstate, toNat_slotId]

theorem Inv.consistent (h : Inv s) : Consistent s := by
  refine ⟨?_, h.macs, fun i j aid hi hj => ?_, fun i aid hi => ?_⟩
  · have hfilter : (Finset.univ.filter fun i => (macIn s i).isSome) =
        Finset.univ.filter fun i => (s.stations i).state ≠ 0 := by
      refine Finset.filter_congr fun i _ => ?_
      rw [Option.isSome_iff_ne_none, ne_eq, macIn_eq_none]
    show s.staCount.toNat = _
    rw [h.count, numKeys, hfilter]
  · have hival := aidIn_eq_some h hi
    have hjval := aidIn_eq_some h hj
    exact Fin.ext (by omega)
  · have hval := aidIn_eq_some h hi
    omega

/-- **The table after any frames.** -/
theorem consistent_of_run {es : List (Frame × Option Frame)}
    (h : Run (total (wifiApProcessFrame bssid)) (wifiApInit s) es t) :
    Consistent t ∧ ∀ f, ¬AuthRequest f → ¬AssocRequest f → (wifiApProcessFrame bssid t f).2 = t :=
  ⟨(inv_of_run h).consistent, fun f ha hb => by rw [process_of_neither ha hb]⟩

/-! ## Frames of a station -/

/-- A frame with the given type, source address and body. -/
def frameFrom (type : U8) (mac : Mac) (body : List U8) : Frame :=
  [type, 0x00, 0x00, 0x00] ++ List.replicate 6 0xFF ++ List.ofFn mac ++ List.replicate 8 0x00 ++ body

/-- The request for open authentication. -/
def authFrame (mac : Mac) : Frame := frameFrom 0xB0 mac [0x00, 0x00, 0x01, 0x00, 0x00, 0x00]

def assocFrame (mac : Mac) : Frame := frameFrom 0x00 mac [0x01, 0x00, 0x0A, 0x00]

theorem srcMac_frameFrom (type : U8) (mac : Mac) (body : List U8) : srcMac (frameFrom type mac body) = mac := by
  funext j
  match j with
  | 0 | 1 | 2 | 3 | 4 | 5 => rfl

theorem authRequest_authFrame (mac : Mac) : AuthRequest (authFrame mac) where
  long := le_refl 30
  type := by
    show (0xB0 : U8) &&& 0xFC = 0xB0
    decide
  algorithm := by
    show ((0x00 : U8) ++ (0x00 : U8) : U16) = 0
    decide
  sequence := by
    show ((0x00 : U8) ++ (0x01 : U8) : U16) = 1
    decide

theorem assocRequest_assocFrame (mac : Mac) : AssocRequest (assocFrame mac) where
  long := le_refl 28
  type := by
    show (0x00 : U8) &&& 0xFC = 0x00
    decide

/-- Two stations authenticate, and the first one is associated; then a frame is too short. -/
theorem consistent_two : ∃ es t,
    es.map Prod.fst = [authFrame fun _ => 2, authFrame fun _ => 3, assocFrame fun _ => 2, [0xB0]] ∧
    Run (total (wifiApProcessFrame fun _ => 1)) (wifiApInit ⟨fun _ => ⟨fun _ => 0, 0, 0⟩, 0⟩) es t ∧
    Consistent t ∧ wifiApGetStationCount t = 2 :=
  have hrun := Run.cons rfl (.cons rfl (.cons rfl (.cons rfl (.nil _))))
  ⟨_, _, rfl, hrun, (consistent_of_run hrun).1, rfl⟩

end BloodKernel.WifiAp
