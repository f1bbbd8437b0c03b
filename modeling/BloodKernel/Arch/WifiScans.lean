import BloodKernel.Arch.WifiSta

set_option autoImplicit false

/-!
# What a scan result depends on

Result slots are used again by the next scan, and of a slot only the fields are written for which the frame has an
element. RSN and WPA elements write the same field.

* `Determined`: two scans, after any earlier ones, that receive a frame for the same slot, also with its RSN and WPA
  elements in another order, agree on the result.
* `scanResults_foldl`: what a slot holds after a scan; `authMode_parsed`, `ssid_parsed`: the last elements decide.
* **`scan_determined_iff`**: the results agree exactly when the frame has a name and either RSN or WPA elements. For
  all 32 bytes of `ssid[]` to agree a name of at least 32 bytes is needed.
-/

namespace BloodKernel.WifiSta

open Lib

def IsRsn (q : U8 × List U8) : Prop := q.1 = 48

/-- A vendor element of WPA. -/
def IsWpa (q : U8 × List U8) : Prop := q.1 = 221 ∧ 4 ≤ q.2.length ∧ q.2.take 3 = [0x00, 0x50, 0xF2]

instance decidableIsRsn : DecidablePred IsRsn := fun _ => inferInstanceAs (Decidable (_ = _))

instance decidableIsWpa : DecidablePred IsWpa := fun _ => inferInstanceAs (Decidable (_ ∧ _))

def HasRsn (f : Frame) : Prop := ∃ q ∈ elements f, IsRsn q

def HasWpa (f : Frame) : Prop := ∃ q ∈ elements f, IsWpa q

/-- `g` is `f` with its RSN and WPA elements in another order, among themselves and between the other elements. -/
structure Reordered (f g : Frame) : Prop where
  fixed : g.bytes.take 36 = f.bytes.take 36
  perm : (elements g).Perm (elements f)
  others : ((elements g).filter fun q => decide (¬(IsRsn q ∨ IsWpa q))) =
    (elements f).filter fun q => decide (¬(IsRsn q ∨ IsWpa q))

/-- The results agree on `ssid_len`, `bssid`, `auth_mode` and the given bytes of `ssid`. -/
structure Agree (bytes : ScanResult → Fin 32 → Prop) (a b : ScanResult) : Prop where
  ssid : ∀ j, bytes a j → a.ssid j = b.ssid j
  ssidLen : a.ssidLen = b.ssidLen
  bssid : a.bssid = b.bssid
  authMode : a.authMode = b.authMode

/-- All bytes of `ssid[32]`. -/
def allBytes (_ : ScanResult) (_ : Fin 32) : Prop := True

/-- The bytes of `ssid[32]` below `ssid_len`. -/
def nameBytes (r : ScanResult) (j : Fin 32) : Prop := (j : ℕ) < r.ssidLen.toNat

/-- **A result is a function of its frame.** After any earlier scans, two scans receive `f` for a slot, the second
with its RSN and WPA elements in any order: then they leave the same result, and where there is an RSN element the
result says WPA2. -/
def Determined (bytes : ScanResult → Fin 32 → Prop) (f : Frame) : Prop :=
  ∀ g es es' s s' rx rx' t t' ch ch' (i : Fin 16), Reordered f g → Run step boot es s → Run step boot es' s' →
    (stored rx)[(i : ℕ)]? = some (ch, f) → (stored rx')[(i : ℕ)]? = some (ch', g) → wifiScanStart s rx = some t →
      wifiScanStart s' rx' = some t' →
        Agree bytes (t.scanResults i) (t'.scanResults i) ∧ (HasRsn f → (t.scanResults i).authMode = 2)

/-! ## What a slot holds after a scan -/

variable {f g : Frame} {r r' : ScanResult} {s t : Sta} {i : Fin 16} {ch ch' : U8}

/-- Slots that have been filled stay as they are. -/
theorem scanResults_foldl_of_lt (l : List (U8 × Frame)) (hi : (i : ℕ) < s.scanCount.toNat) :
    (l.foldl store s).scanResults i = s.scanResults i := by
  induction l generalizing s with
  | nil => rfl
  | cons p l ih =>
      rw [List.foldl_cons]
      by_cases h : s.scanCount.toNat < 16
      · rw [ih (by rw [scanCount_store h]; omega), scanResults_store_of_ne hi.ne]
      · rw [store_of_full (Nat.not_lt.mp h), ih hi]

theorem scanResults_foldl {l : List (U8 × Frame)} {p : U8 × Frame} (hi : s.scanCount.toNat ≤ i)
    (hp : l[(i : ℕ) - s.scanCount.toNat]? = some p) :
    (l.foldl store s).scanResults i = parsed (s.scanResults i) p.1 p.2 := by
  induction l generalizing s with
  | nil => cases hp
  | cons q l ih =>
      have h : s.scanCount.toNat < 16 := hi.trans_lt i.isLt
      rw [List.foldl_cons]
      by_cases heq : (i : ℕ) = s.scanCount.toNat
      · obtain rfl : i = ⟨s.scanCount.toNat, h⟩ := Fin.ext heq
        rw [Nat.sub_self] at hp
        cases hp
        rw [scanResults_foldl_of_lt _ (by rw [scanCount_store h]; exact Nat.lt_succ_self _), scanResults_store_self h]
      · have hsub : (i : ℕ) - s.scanCount.toNat = (i : ℕ) - (s.scanCount.toNat + 1) + 1 := by omega
        rw [hsub, List.getElem?_cons_succ] at hp
        rw [ih (by rw [scanCount_store h]; omega) (by rwa [scanCount_store h]), scanResults_store_of_ne heq]

/-- **A slot after a scan.** -/
theorem scanResults_scan {rx : U8 → List Frame} (hscan : wifiScanStart s rx = some t)
    (hi : (stored rx)[(i : ℕ)]? = some (ch, f)) : t.scanResults i = parsed (s.scanResults i) ch f := by
  rw [wifiScanStart_eq] at hscan
  cases hscan
  unfold stored at hi
  rw [List.getElem?_take_of_lt i.isLt] at hi
  exact scanResults_foldl (s := scanning s) (Nat.zero_le _) hi

/-! ## The fields of a result -/

/-- The byte of the name that an element stores at `j`. -/
def setsByte (j : Fin 32) (q : U8 × List U8) : Option U8 := if q.1 = 0 then (q.2.take 32)[(j : ℕ)]? else none

/-- The mode that an element stores. -/
def setsMode (q : U8 × List U8) : Option U8 := if IsRsn q then some 2 else if IsWpa q then some 1 else none

theorem setsByte_of_ne {q : U8 × List U8} {j : Fin 32} (h : q.1 ≠ 0) : setsByte j q = none := if_neg h

theorem setsLength_of_ne {q : U8 × List U8} (h : q.1 ≠ 0) : setsLength q = none := if_neg h

theorem ssid_apply (j : Fin 32) (r : ScanResult) (q : U8 × List U8) :
    (apply r q).ssid j = (setsByte j q).getD (r.ssid j) := by
  unfold apply setsByte
  split_ifs
  · exact List.getD_eq_getElem?_getD ..
  all_goals rfl

theorem not_rsn_or_wpa {q : U8 × List U8} (h : q.1 = 0) : ¬(IsRsn q ∨ IsWpa q) := by
  rintro (h' | h')
  · exact absurd (h.symm.trans h') (by decide)
  · exact absurd (h.symm.trans h'.1) (by decide)

theorem setsMode_of_isRsn {q : U8 × List U8} (h : IsRsn q) : setsMode q = some 2 := if_pos h

theorem setsMode_of_isWpa {q : U8 × List U8} (h : IsWpa q) : setsMode q = some 1 := by
  have hrsn : ¬IsRsn q := fun h' => absurd (h.1.symm.trans h') (by decide)
  exact (if_neg hrsn).trans (if_pos h)

theorem setsMode_of_not {q : U8 × List U8} (h : ¬(IsRsn q ∨ IsWpa q)) : setsMode q = none :=
  (if_neg fun h' => h (.inl h')).trans (if_neg fun h' => h (.inr h'))

theorem authMode_apply (r : ScanResult) (q : U8 × List U8) : (apply r q).authMode = (setsMode q).getD r.authMode := by
  unfold apply
  split_ifs with h₀ h₁ h₂ h₃
  · rw [setsMode_of_not (not_rsn_or_wpa h₀)]
    rfl
  · rw [setsMode_of_isRsn h₁]
    rfl
  · rw [setsMode_of_isWpa ⟨h₂.1, h₂.2, h₃⟩]
    rfl
  · rw [setsMode_of_not (not_or.mpr ⟨h₁, fun h => h₃ h.2.2⟩)]
    rfl
  · rw [setsMode_of_not (not_or.mpr ⟨h₁, fun h => h₂ ⟨h.1, h.2.1⟩⟩)]
    rfl

theorem bssid_apply (r : ScanResult) (q : U8 × List U8) : (apply r q).bssid = r.bssid := by
  unfold apply
  split_ifs <;> rfl

theorem authMode_parsed (r : ScanResult) (ch : U8) (f : Frame) :
    (parsed r ch f).authMode = (latest setsMode (elements f)).getD r.authMode :=
  get_foldl ScanResult.authMode authMode_apply _ _

theorem ssid_parsed (r : ScanResult) (ch : U8) (f : Frame) (j : Fin 32) :
    (parsed r ch f).ssid j = (latest (setsByte j) (elements f)).getD (r.ssid j) :=
  get_foldl (fun r : ScanResult => r.ssid j) (ssid_apply j) _ _

theorem length_parsed (r : ScanResult) (ch : U8) (f : Frame) :
    (parsed r ch f).ssidLen = (latest setsLength (elements f)).getD r.ssidLen :=
  get_foldl ScanResult.ssidLen ssidLen_apply _ _

theorem bssid_parsed (r : ScanResult) (ch : U8) (f : Frame) :
    (parsed r ch f).bssid = fun j : Fin 6 => ((f.bytes.drop 16).take 6).getD j 0 :=
  foldl_of_trans (P := fun r r' : ScanResult => r'.bssid = r.bssid) (fun _ => rfl) (fun _ _ _ h₁ h₂ => h₂.trans h₁)
    (fun r q _ => bssid_apply r q) _

/-! ## Reordered frames -/

theorem Reordered.refl (f : Frame) : Reordered f f := ⟨rfl, .refl _, rfl⟩

theorem Reordered.latest_eq {β : Type} {sets : U8 × List U8 → Option β} (h : Reordered f g)
    (hsets : ∀ q, IsRsn q ∨ IsWpa q → sets q = none) : latest sets (elements g) = latest sets (elements f) := by
  have hnot : ∀ q, ¬¬(IsRsn q ∨ IsWpa q) → sets q = none := fun q hq => hsets q (not_not.mp hq)
  rw [← latest_filter _ hnot, h.others, latest_filter _ hnot]

theorem Reordered.probeResponse (h : Reordered f g) (hf : ProbeResponse f) : ProbeResponse g := by
  have hlen := congrArg List.length h.fixed
  rw [List.length_take, List.length_take] at hlen
  have hhead := congrArg List.head? h.fixed
  rw [List.head?_take, List.head?_take, if_neg (by decide), if_neg (by decide)] at hhead
  exact ⟨by have := hf.1; omega, hhead.trans hf.2⟩

theorem Reordered.bssid (h : Reordered f g) : ((g.bytes.drop 16).take 6) = (f.bytes.drop 16).take 6 := by
  have hpart (e : Frame) : (e.bytes.drop 16).take 6 = ((e.bytes.take 36).drop 16).take 6 := by
    rw [List.drop_take, List.take_take]
    rfl
  rw [hpart g, h.fixed, ← hpart f]

/-! ## Frames that determine the result -/

/-- The frame has RSN elements, or WPA elements, and not both. -/
def OneKind (f : Frame) : Prop := HasRsn f ↔ ¬HasWpa f

/-- The frame has a name of more than `n` bytes. -/
def NameAbove (f : Frame) (n : ℕ) : Prop := ∃ q ∈ elements f, q.1 = 0 ∧ n < q.2.length

/-- The frame has a name, also an empty one. -/
def HasName (f : Frame) : Prop := ∃ q ∈ elements f, q.1 = 0

theorem latest_setsMode_of_rsn (hrsn : HasRsn f) (hwpa : ¬HasWpa f) : latest setsMode (elements f) = some 2 :=
  latest_eq_some (fun _ _ hr => setsMode_of_isRsn hr)
    (fun q hq hr => setsMode_of_not (not_or.mpr ⟨hr, fun hw => hwpa ⟨q, hq, hw⟩⟩)) hrsn

theorem latest_setsMode_of_wpa {l : List (U8 × List U8)} (hwpa : ∃ q ∈ l, IsWpa q) (hrsn : ∀ q ∈ l, ¬IsRsn q) :
    latest setsMode l = some 1 :=
  latest_eq_some (fun _ _ hw => setsMode_of_isWpa hw)
    (fun q hq hw => setsMode_of_not (not_or.mpr ⟨hrsn q hq, hw⟩)) hwpa

theorem latest_setsMode_eq_none_iff : latest setsMode (elements f) = none ↔ ¬HasRsn f ∧ ¬HasWpa f := by
  rw [latest_eq_none_iff]
  constructor
  · intro h
    constructor
    · rintro ⟨q, hq, hr⟩
      exact absurd ((setsMode_of_isRsn hr).symm.trans (h q hq)) (Option.some_ne_none _)
    · rintro ⟨q, hq, hw⟩
      exact absurd ((setsMode_of_isWpa hw).symm.trans (h q hq)) (Option.some_ne_none _)
  · rintro ⟨hr, hw⟩ q hq
    exact setsMode_of_not (not_or.mpr ⟨fun h => hr ⟨q, hq, h⟩, fun h => hw ⟨q, hq, h⟩⟩)

theorem latest_setsLength_eq_none_iff : latest setsLength (elements f) = none ↔ ¬HasName f := by
  rw [latest_eq_none_iff]
  constructor
  · rintro h ⟨q, hq, h₀⟩
    exact absurd ((if_pos h₀).symm.trans (h q hq)) (Option.some_ne_none _)
  · exact fun h q hq => setsLength_of_ne fun h₀ => h ⟨q, hq, h₀⟩

theorem latest_setsByte_eq_none_iff {j : Fin 32} : latest (setsByte j) (elements f) = none ↔ ¬NameAbove f j := by
  have hbyte {q : U8 × List U8} (h₀ : q.1 = 0) : setsByte j q = none ↔ ¬(j : ℕ) < q.2.length := by
    unfold setsByte
    rw [if_pos h₀, List.getElem?_take_of_lt j.isLt, List.getElem?_eq_none_iff, Nat.not_lt]
  rw [latest_eq_none_iff]
  constructor
  · rintro h ⟨q, hq, h₀, hlt⟩
    exact (hbyte h₀).mp (h q hq) hlt
  · intro h q hq
    by_cases h₀ : q.1 = 0
    · exact (hbyte h₀).mpr fun hlt => h ⟨q, hq, h₀, hlt⟩
    · exact setsByte_of_ne h₀

/-- Below `ssid_len` the frame has written all bytes. -/
theorem nameAbove_of_nameBytes {j : Fin 32} (hname : HasName f) (h : nameBytes (parsed r ch f) j) : NameAbove f j := by
  unfold nameBytes at h
  rw [length_parsed] at h
  cases hl : latest setsLength (elements f) with
  | none => exact absurd hname (latest_setsLength_eq_none_iff.mp hl)
  | some v =>
      obtain ⟨q, hq, hv⟩ := exists_of_latest hl
      unfold setsLength at hv
      split_ifs at hv with h₀
      cases hv
      rw [hl, Option.getD_some, BitVec.toNat_ofNat] at h
      exact ⟨q, hq, h₀, h.trans_le (Nat.mod_le _ _)⟩

/-- A field that an element sets does not depend on what was there before. -/
theorem getD_eq_getD {β : Type} {o : Option β} (h : o ≠ none) (v w : β) : o.getD v = o.getD w := by
  cases o with
  | none => exact absurd rfl h
  | some u => rfl

theorem Reordered.latest_setsMode (h : Reordered f g) (hkind : OneKind f) :
    latest setsMode (elements g) = latest setsMode (elements f) := by
  have hrsn : HasRsn g ↔ HasRsn f := exists_congr fun q => and_congr_left fun _ => h.perm.mem_iff
  have hwpa : HasWpa g ↔ HasWpa f := exists_congr fun q => and_congr_left fun _ => h.perm.mem_iff
  by_cases hr : HasRsn f
  · have hw := hkind.mp hr
    rw [latest_setsMode_of_rsn hr hw, latest_setsMode_of_rsn (hrsn.mpr hr) (hwpa.not.mpr hw)]
  · have hw : HasWpa f := not_not.mp (hkind.not.mp hr)
    rw [latest_setsMode_of_wpa hw fun q hq hq' => hr ⟨q, hq, hq'⟩,
      latest_setsMode_of_wpa (hwpa.mpr hw) fun q hq hq' => hr (hrsn.mp ⟨q, hq, hq'⟩)]

/-- **Two slots filled from a frame.** -/
theorem Reordered.agree {bytes : ScanResult → Fin 32 → Prop} (h : Reordered f g) (hkind : OneKind f) (hname : HasName f)
    (hbytes : ∀ j, bytes (parsed r ch f) j → NameAbove f j) : Agree bytes (parsed r ch f) (parsed r' ch' g) := by
  constructor
  · intro j hj
    rw [ssid_parsed, ssid_parsed, h.latest_eq fun q hq => setsByte_of_ne fun h₀ => not_rsn_or_wpa h₀ hq]
    exact getD_eq_getD (fun hnone => latest_setsByte_eq_none_iff.mp hnone (hbytes j hj)) _ _
  · rw [length_parsed, length_parsed, h.latest_eq fun q hq => setsLength_of_ne fun h₀ => not_rsn_or_wpa h₀ hq]
    exact getD_eq_getD (fun hnone => latest_setsLength_eq_none_iff.mp hnone hname) _ _
  · rw [bssid_parsed, bssid_parsed, h.bssid]
  · rw [authMode_parsed, authMode_parsed, h.latest_setsMode hkind]
    refine getD_eq_getD (fun hnone => ?_) _ _
    obtain ⟨hr, hw⟩ := latest_setsMode_eq_none_iff.mp hnone
    exact hr (hkind.mpr hw)

theorem determined_of {bytes : ScanResult → Fin 32 → Prop} (hkind : OneKind f) (hname : HasName f)
    (hbytes : ∀ r ch j, bytes (parsed r ch f) j → NameAbove f j) : Determined bytes f := by
  intro g es es' s s' rx rx' t t' ch ch' i hg _ _ hi hi' hscan hscan'
  rw [scanResults_scan hscan hi, scanResults_scan hscan' hi']
  refine ⟨hg.agree hkind hname (hbytes _ _), fun hrsn => ?_⟩
  rw [authMode_parsed, latest_setsMode_of_rsn hrsn (hkind.mp hrsn)]
  rfl

/-! ## Frames that leave something as it was -/

/-- A frame with the given elements behind its fixed fields. -/
def built (header : List U8) (qs : List (U8 × List U8)) (h : (header ++ qs.flatMap record).length ≤ 1500) : Frame :=
  ⟨header ++ qs.flatMap record, h⟩

theorem elements_built {header : List U8} {qs : List (U8 × List U8)} (hheader : header.length = 36)
    (hqs : ∀ q ∈ qs, q.2.length < 256) (h : (header ++ qs.flatMap record).length ≤ 1500) :
    elements (built header qs h) = qs := by
  have hdrop : (built header qs h).bytes.drop 36 = qs.flatMap record := List.drop_left' hheader
  unfold elements
  rw [hdrop, records_flatMap hqs]

/-- The fixed fields of a probe response. -/
def fixedFields : List U8 := 0x50 :: List.replicate 35 0

/-- A probe response of another network, with a name of 32 bytes and RSN. -/
def neighbour : Frame := built fixedFields [(0, List.replicate 32 0x41), (48, [])] (by decide)

theorem elements_neighbour : elements neighbour = [(0, List.replicate 32 0x41), (48, [])] :=
  elements_built rfl (by decide) _

theorem probeResponse_neighbour : ProbeResponse neighbour := ⟨by decide, rfl⟩

/-- The elements with those of WPA behind all others. -/
def wpaLast (l : List (U8 × List U8)) : List (U8 × List U8) :=
  (l.filter fun q => !decide (IsWpa q)) ++ l.filter fun q => decide (IsWpa q)

theorem wpaLast_perm (l : List (U8 × List U8)) : (wpaLast l).Perm l :=
  List.perm_append_comm.trans (List.filter_append_perm _ l)

theorem latest_setsMode_wpaLast {l : List (U8 × List U8)} (h : ∃ q ∈ l, IsWpa q) :
    latest setsMode (wpaLast l) = some 1 := by
  obtain ⟨q, hq, hw⟩ := h
  have hlast : latest setsMode (l.filter fun q => decide (IsWpa q)) = some 1 := by
    refine latest_setsMode_of_wpa ⟨q, List.mem_filter.mpr ⟨hq, decide_eq_true hw⟩, hw⟩ fun q hq hr => ?_
    have hw := of_decide_eq_true (List.mem_filter.mp hq).2
    exact absurd (hw.1.symm.trans hr) (by decide)
  unfold wpaLast
  rw [latest_append, hlast]
  rfl

theorem length_wpaLast_le (f : Frame) :
    (f.bytes.take 36 ++ (wpaLast (elements f)).flatMap record).length ≤ 1500 := by
  have hrecords := length_flatMap_records_le (f.bytes.drop 36)
  have hperm : ((wpaLast (elements f)).flatMap record).length = ((elements f).flatMap record).length :=
    ((wpaLast_perm _).flatMap_right record).length_eq
  have hle := f.le
  unfold elements at hperm
  rw [List.length_drop] at hrecords
  rw [List.length_append, List.length_take]
  unfold elements
  omega

/-- The frame with the WPA elements behind all others. -/
def withWpaLast (f : Frame) : Frame := built (f.bytes.take 36) (wpaLast (elements f)) (length_wpaLast_le f)

theorem elements_withWpaLast (hf : ProbeResponse f) : elements (withWpaLast f) = wpaLast (elements f) :=
  elements_built ((List.length_take).trans (Nat.min_eq_left hf.1))
    (fun _ hq => length_value_lt ((wpaLast_perm _).mem_iff.mp hq)) _

theorem reordered_withWpaLast (hf : ProbeResponse f) : Reordered f (withWpaLast f) := by
  have hlen : (f.bytes.take 36).length = 36 := (List.length_take).trans (Nat.min_eq_left hf.1)
  have helements := elements_withWpaLast hf
  refine ⟨List.take_left' hlen, by rw [helements]; exact wpaLast_perm _, ?_⟩
  rw [helements]
  unfold wpaLast
  rw [List.filter_append, List.filter_filter, List.filter_filter]
  have hfirst (q : U8 × List U8) : (decide (¬(IsRsn q ∨ IsWpa q)) && !decide (IsWpa q)) =
      decide (¬(IsRsn q ∨ IsWpa q)) := by
    by_cases hw : IsWpa q
    · simp [hw]
    · simp [hw]
  have hsecond (q : U8 × List U8) : (decide (¬(IsRsn q ∨ IsWpa q)) && decide (IsWpa q)) = false := by
    by_cases hw : IsWpa q
    · simp [hw]
    · simp [hw]
  simp only [hfirst, hsecond, List.filter_false, List.append_nil]

section Forced

variable {bytes : ScanResult → Fin 32 → Prop}

/-- The first slot after one scan, and after two of which the first one heard the neighbour. -/
theorem Determined.firstSlot (h : Determined bytes f) (hf : ProbeResponse f) (hg : Reordered f g) :
    Agree bytes (parsed (boot.scanResults 0) 1 f) (parsed (parsed (boot.scanResults 0) 1 neighbour) 1 g) ∧
      (HasRsn f → (parsed (boot.scanResults 0) 1 f).authMode = 2) := by
  have hstored {e : Frame} (he : ProbeResponse e) : (stored (near e))[((0 : Fin 16) : ℕ)]? = some (1, e) := by
    rw [stored_near he]
    rfl
  have hg' := hg.probeResponse hf
  have hruns := h g [] [(near neighbour, ())] boot _ (near f) (near g) _ _ 1 1 0 hg (.nil _)
    (.cons (step_near _) (.nil _)) (hstored hf) (hstored hg') (wifiScanStart_eq _ _) (wifiScanStart_eq _ _)
  rw [scanResults_scan (wifiScanStart_eq boot _) (hstored hf), scanResults_scan (wifiScanStart_eq _ _) (hstored hg'),
    scanResults_scan (wifiScanStart_eq boot _) (hstored probeResponse_neighbour)] at hruns
  exact hruns

theorem Determined.oneKind (h : Determined bytes f) (hf : ProbeResponse f) : OneKind f := by
  constructor
  · intro hrsn hwpa
    have hwpa₂ := h.firstSlot hf (reordered_withWpaLast hf)
    have hmode := (hwpa₂.2 hrsn).symm.trans hwpa₂.1.authMode
    rw [authMode_parsed, elements_withWpaLast hf, latest_setsMode_wpaLast hwpa] at hmode
    exact absurd hmode (by decide)
  · intro hwpa
    by_contra hrsn
    have hmode := (h.firstSlot hf (.refl f)).1.authMode
    rw [authMode_parsed, authMode_parsed, latest_setsMode_eq_none_iff.mpr ⟨hrsn, hwpa⟩, authMode_parsed,
      elements_neighbour] at hmode
    exact absurd hmode (by decide)

theorem Determined.hasName (h : Determined bytes f) (hf : ProbeResponse f) : HasName f := by
  by_contra hname
  have hlen := (h.firstSlot hf (.refl f)).1.ssidLen
  rw [length_parsed, length_parsed, latest_setsLength_eq_none_iff.mpr hname, length_parsed, elements_neighbour] at hlen
  exact absurd hlen (by decide)

theorem Determined.nameAbove (h : Determined allBytes f) (hf : ProbeResponse f) : NameAbove f 31 := by
  by_contra hname
  have hbyte := (h.firstSlot hf (.refl f)).1.ssid 31 trivial
  rw [ssid_parsed, ssid_parsed, latest_setsByte_eq_none_iff.mpr hname, ssid_parsed, elements_neighbour] at hbyte
  exact absurd hbyte (by decide)

end Forced

/-! ## The result -/

/-- **When a scan result is a function of its frame.** All of `ssid[32]` depends only on the frame when a name fills
it; the name up to `ssid_len`, when there is any. The mode does when there are RSN elements or WPA elements, and not
both. -/
theorem scan_determined_iff (hf : ProbeResponse f) :
    (Determined allBytes f ↔ NameAbove f 31 ∧ OneKind f) ∧ (Determined nameBytes f ↔ HasName f ∧ OneKind f) := by
  refine ⟨⟨fun h => ⟨h.nameAbove hf, h.oneKind hf⟩, ?_⟩, ⟨fun h => ⟨h.hasName hf, h.oneKind hf⟩, ?_⟩⟩
  · rintro ⟨⟨q, hq, h₀, hlt⟩, hkind⟩
    exact determined_of hkind ⟨q, hq, h₀⟩ fun _ _ j _ => ⟨q, hq, h₀, (Nat.le_of_lt_succ j.isLt).trans_lt hlt⟩
  · rintro ⟨hname, hkind⟩
    exact determined_of hkind hname fun _ _ _ hj => nameAbove_of_nameBytes hname hj

/-- The neighbour, with RSN and a name that fills `ssid[32]`. -/
theorem determined_neighbour : Determined allBytes neighbour := by
  refine (scan_determined_iff probeResponse_neighbour).1.mpr ?_
  unfold NameAbove OneKind HasRsn HasWpa
  rw [elements_neighbour]
  decide

/-- A network without RSN and WPA. -/
def openNetwork : Frame := built fixedFields [(0, [0x68, 0x6F, 0x6D, 0x65])] (by decide)

theorem elements_openNetwork : elements openNetwork = [(0, [0x68, 0x6F, 0x6D, 0x65])] :=
  elements_built rfl (by decide) _

/-- What is reported of an open network depends on the network that had the slot before. -/
theorem not_determined_openNetwork : ¬Determined nameBytes openNetwork := by
  intro h
  have hkind := h.oneKind ⟨by decide, rfl⟩
  unfold OneKind HasRsn HasWpa at hkind
  rw [elements_openNetwork] at hkind
  exact absurd hkind (by decide)

end BloodKernel.WifiSta
