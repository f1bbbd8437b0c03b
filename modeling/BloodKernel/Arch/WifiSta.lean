import BloodKernel.Kernel.Types
import BloodKernel.Lib.Latest
import BloodKernel.Lib.Records
import BloodKernel.Lib.Run

set_option autoImplicit false

/-!
# The station

`arch/esp32s3/wifi_sta.c` scans the channels for access points and connects to one of them. A scan stores what the
probe responses say, of which the length of the network name is stored as it is, while of its bytes no more than 32
are copied.

* `walk`: the loop over the information elements; a read outside of the frame fails. `wifiScanStart`, `wifiConnect`.
* **`walk_eq`**: the loop ends, reads only inside the frame, and stores what the elements say.
* **`scans_sound_iff`**: the stored results are fit for `wifi_connect` exactly when no stored frame ends up with a
  name of more than 32 bytes.
-/

namespace BloodKernel.WifiSta

open Lib

/-- What `wifi_rx_raw` returns: at most as many bytes as the buffer has. -/
structure Frame where
  bytes : List U8
  le : bytes.length ≤ 1500

structure ScanResult where
  ssid : Fin 32 → U8
  ssidLen : U8
  bssid : Fin 6 → U8
  channel : U8
  rssi : U8
  authMode : U8

/-- `sta_state` is 0 when idle, 1 when scanning, 2 when connecting, 3 when connected. -/
structure Sta where
  scanResults : Fin 16 → ScanResult
  scanCount : U8
  staState : U8

/-! ## Scanning -/

/-- Reading `n` bytes of a frame from `k` on, all inside of the frame. -/
def readBytes (f : Frame) (k n : ℕ) : Option (List U8) :=
  if k + n ≤ f.bytes.length then some ((f.bytes.drop k).take n) else none

/-- The first bytes of the name are copied. -/
def copySsid (r : ScanResult) (bs : List U8) : Fin 32 → U8 := fun i => bs.getD i (r.ssid i)

/-- One information element: the name, RSN, or the vendor element of WPA. Of the three bytes of the vendor no more
are read than agree. -/
def element (f : Frame) (k : ℕ) (id len : U8) (r : ScanResult) : Option ScanResult :=
  if id = 0 then
    (readBytes f k (min len.toNat 32)).map fun bs => { r with ssidLen := len, ssid := copySsid r bs }
  else if id = 48 then some { r with authMode := 2 }
  else if id = 221 ∧ 4 ≤ len.toNat then
    (readBytes f k 3).map fun bs => if bs = [0x00, 0x50, 0xF2] then { r with authMode := 1 } else r
  else some r

/-- The loop over the elements, from `pos` on. The elements begin at byte 36 of the frame. -/
def walk (f : Frame) : ℕ → U16 → ScanResult → Option ScanResult
  | 0, _, _ => none
  | fuel + 1, pos, r =>
      let ieLen := f.bytes.length - 36
      if pos.toNat + 1 < ieLen then
        f.bytes[36 + pos.toNat]?.bind fun id =>
          f.bytes[36 + (pos.toNat + 1)]?.bind fun len =>
            if ieLen < pos.toNat + 2 + len.toNat then some r
            else (element f (36 + (pos.toNat + 2)) id len r).bind fun r =>
              walk f fuel (pos + BitVec.ofNat 16 (2 + len.toNat)) r
      else some r

/-- The result is filled in place. -50 is stored as the signal strength. -/
def addResult (s : Sta) (ch : U8) (f : Frame) (i : Fin 16) : Option Sta :=
  (readBytes f 16 6).bind fun bssid =>
    (walk f 1500 0 { s.scanResults i with bssid := fun j => bssid.getD j 0, channel := ch, rssi := -50 }).map fun r =>
      { s with scanResults := Function.update s.scanResults i r, scanCount := s.scanCount + 1 }

/-- A frame that is stored while there is room: a probe response with all fixed fields. -/
def ProbeResponse (f : Frame) : Prop := 36 ≤ f.bytes.length ∧ f.bytes.head? = some 0x50

instance decidableProbeResponse : DecidablePred ProbeResponse := fun _ => inferInstanceAs (Decidable (_ ∧ _))

/-- The frames received on a channel. The loop ends with the first empty one, or when the results are full. -/
def scanChannel (ch : U8) : List Frame → Sta → Option Sta
  | [], s => some s
  | f :: fs, s =>
      if f.bytes.length = 0 then some s
      else if ¬ProbeResponse f then scanChannel ch fs s
      else if h : s.scanCount.toNat < 16 then (addResult s ch f ⟨s.scanCount.toNat, h⟩).bind (scanChannel ch fs)
      else some s

/-- `rx ch` are the frames received while the station listens to channel `ch`. -/
def scanChannels (rx : U8 → List Frame) : List U8 → Sta → Option Sta
  | [], s => some s
  | ch :: chs, s => (scanChannel ch (rx ch) s).bind (scanChannels rx chs)

def channels : List U8 := [1, 2, 3, 4, 5, 6, 7, 8, 9, 10, 11, 12, 13, 14]

def wifiScanStart (s : Sta) (rx : U8 → List Frame) : Option Sta :=
  (scanChannels rx channels { s with staState := 1, scanCount := 0 }).map fun s => { s with staState := 0 }

/-! ## Connecting -/

/-- `scan_results[i].ssid[j]`: from 32 on the bytes that come behind in the memory. -/
def ssidByte (past : Fin 16 → ℕ → U8) (s : Sta) (i : Fin 16) (j : ℕ) : U8 :=
  if h : j < 32 then (s.scanResults i).ssid ⟨j, h⟩ else past i j

/-- The comparison with a name of length `len`: whether it matches, and how many bytes of `ssid[]` it reads. -/
def compareSsid (past : Fin 16 → ℕ → U8) (s : Sta) (i : Fin 16) (ssid : ℕ → U8) (len : U8) : Bool × ℕ :=
  match (List.range len.toNat).find? fun j => decide (ssidByte past s i j ≠ ssid j) with
  | some j => (false, j + 1)
  | none => (true, len.toNat)

/-- The first of the given results that matches, with the bytes of `ssid[]` read of each result compared. -/
def findTarget (past : Fin 16 → ℕ → U8) (s : Sta) (ssid : ℕ → U8) (len : U8) :
    List (Fin 16) → Option (Fin 16) × List ℕ
  | [] => (none, [])
  | i :: is =>
      if (s.scanResults i).ssidLen = len then
        let c := compareSsid past s i ssid len
        if c.1 then (some i, [c.2])
        else
          let r := findTarget past s ssid len is
          (r.1, c.2 :: r.2)
      else findTarget past s ssid len is

def myMac : List U8 := [0x24, 0x6F, 0x28, 0x00, 0x00, 0x01]

/-- What is stored in `assoc_req`, in order. -/
def assocReq (bssid : Fin 6 → U8) (ssid : ℕ → U8) (len : U8) : List U8 :=
  [0x00, 0x00, 0x00, 0x00] ++ List.ofFn bssid ++ myMac ++ List.ofFn bssid ++ [0x00, 0x00] ++ [0x01, 0x00] ++
    [0x0A, 0x00] ++ [0x00, len] ++ (List.range len.toNat).map ssid ++
    [0x01, 0x08, 0x82, 0x84, 0x8B, 0x96, 0x0C, 0x12, 0x18, 0x24]

/-- What a call reads and writes: the result it connects to, the bytes of `ssid[]` read of each result compared, and
the bytes it stores in `assoc_req`. -/
structure Attempt where
  target : Option (Fin 16)
  reads : List ℕ
  request : List U8

/-- The results below `scan_count`. -/
def scanned (s : Sta) : List (Fin 16) := (List.finRange 16).take s.scanCount.toNat

def wifiConnect (past : Fin 16 → ℕ → U8) (s : Sta) (ssid : ℕ → U8) (len : U8) : Attempt × Sta :=
  let r := findTarget past s ssid len (scanned s)
  match r.1 with
  | none => (⟨none, r.2, []⟩, s)
  | some i => (⟨some i, r.2, assocReq (s.scanResults i).bssid ssid len⟩, { s with staState := 3 })

/-! ## What a scan stores -/

/-- What an element does to the result. -/
def apply (r : ScanResult) (q : U8 × List U8) : ScanResult :=
  if q.1 = 0 then { r with ssidLen := BitVec.ofNat 8 q.2.length, ssid := copySsid r (q.2.take 32) }
  else if q.1 = 48 then { r with authMode := 2 }
  else if q.1 = 221 ∧ 4 ≤ q.2.length then if q.2.take 3 = [0x00, 0x50, 0xF2] then { r with authMode := 1 } else r
  else r

/-- The information elements of a frame. -/
def elements (f : Frame) : List (U8 × List U8) := records (f.bytes.drop 36)

/-- The result filled in for a probe response. -/
def parsed (r : ScanResult) (ch : U8) (f : Frame) : ScanResult :=
  (elements f).foldl apply
    { r with bssid := fun j => ((f.bytes.drop 16).take 6).getD j 0, channel := ch, rssi := -50 }

def lastName (f : Frame) : Option (List U8) := ((elements f).filter fun q => decide (q.1 = 0)).getLast?.map Prod.snd

/-- A frame leaves a name of at most 32 bytes, or none. -/
def ShortName (f : Frame) : Prop := ∀ name, lastName f = some name → name.length ≤ 32

variable {f : Frame} {r : ScanResult} {s t : Sta} {i : Fin 16}

theorem readBytes_eq {k n : ℕ} (h : k + n ≤ f.bytes.length) : readBytes f k n = some ((f.bytes.drop k).take n) :=
  if_pos h

theorem element_eq {k : ℕ} (id len : U8) (h : k + len.toNat ≤ f.bytes.length) (r : ScanResult) :
    element f k id len r = some (apply r (id, (f.bytes.drop k).take len.toNat)) := by
  have hlen : ((f.bytes.drop k).take len.toNat).length = len.toNat := by
    rw [List.length_take, List.length_drop]
    omega
  unfold element apply
  dsimp only
  rw [hlen, List.take_take, List.take_take]
  split_ifs with h₀ h₁ h₂ h₃
  · rw [readBytes_eq (by omega), BitVec.ofNat_toNat, BitVec.setWidth_eq, Nat.min_comm]
    rfl
  · rfl
  · rw [readBytes_eq (by omega), Option.map_some, Nat.min_eq_left (by omega) (a := 3)] at *
    rw [if_pos h₃]
  · rw [readBytes_eq (by omega), Option.map_some, Nat.min_eq_left (by omega) (a := 3)] at *
    rw [if_neg h₃]
  · rfl

/-! ## The walk over the elements -/

/-- **The walk.** It ends, reads only inside of the frame, and does what the elements from `pos` on say. -/
theorem walk_eq (hf : 36 ≤ f.bytes.length) : ∀ (fuel : ℕ) (pos : U16) (r : ScanResult),
    pos.toNat ≤ f.bytes.length - 36 → f.bytes.length - 36 < fuel + pos.toNat →
    walk f fuel pos r = some ((records ((f.bytes.drop 36).drop pos.toNat)).foldl apply r) := by
  have hlen : (f.bytes.drop 36).length = f.bytes.length - 36 := List.length_drop
  have hle : f.bytes.length ≤ 1500 := f.le
  intro fuel
  induction fuel with
  | zero => exact fun pos r h₁ h₂ => by omega
  | succ fuel ih =>
      intro pos r h₁ h₂
      unfold walk
      dsimp only
      by_cases hpos : pos.toNat + 1 < f.bytes.length - 36
      · have hpos₀ : pos.toNat < (f.bytes.drop 36).length := by omega
        have hpos₁ : pos.toNat + 1 < (f.bytes.drop 36).length := by omega
        have hid : f.bytes[36 + pos.toNat]? = some (f.bytes.drop 36)[pos.toNat] := by
          rw [List.getElem_drop]
          exact List.getElem?_eq_getElem _
        have hl : f.bytes[36 + (pos.toNat + 1)]? = some (f.bytes.drop 36)[pos.toNat + 1] := by
          rw [List.getElem_drop]
          exact List.getElem?_eq_getElem _
        rw [if_pos hpos, hid, Option.bind_some, hl, Option.bind_some, records_drop hpos₁]
        generalize (f.bytes.drop 36)[pos.toNat] = id
        generalize (f.bytes.drop 36)[pos.toNat + 1] = n
        rw [hlen]
        by_cases hend : f.bytes.length - 36 < pos.toNat + 2 + n.toNat
        · rw [if_pos hend, if_neg (Nat.not_le.mpr hend)]
          rfl
        · have hnext : (pos + BitVec.ofNat 16 (2 + n.toNat)).toNat = pos.toNat + 2 + n.toNat := by
            rw [BitVec.toNat_add, BitVec.toNat_ofNat]
            omega
          rw [if_neg hend, if_pos (Nat.not_lt.mp hend), element_eq _ _ (by omega), Option.bind_some,
            ih _ _ (by omega) (by omega), hnext, List.foldl_cons]
          simp only [List.drop_drop]
      · rw [if_neg hpos, records_drop_of_end (by omega)]
        rfl

/-! ## The length of the name -/

/-- The length that an element stores. -/
def setsLength (q : U8 × List U8) : Option U8 := if q.1 = 0 then some (BitVec.ofNat 8 q.2.length) else none

theorem ssidLen_apply (r : ScanResult) (q : U8 × List U8) : (apply r q).ssidLen = (setsLength q).getD r.ssidLen := by
  unfold apply setsLength
  split_ifs <;> rfl

/-- The last name decides, and without any the length stays as it was. -/
theorem ssidLen_parsed (r : ScanResult) (ch : U8) (f : Frame) :
    (parsed r ch f).ssidLen = ((lastName f).map fun name => BitVec.ofNat 8 name.length).getD r.ssidLen := by
  have hlatest : latest setsLength (elements f) = (lastName f).map fun name => BitVec.ofNat 8 name.length := by
    unfold lastName
    rw [Option.map_map]
    exact latest_ite (fun q : U8 × List U8 => q.1 = 0) _ _
  rw [← hlatest]
  exact get_foldl ScanResult.ssidLen ssidLen_apply _ _

theorem length_lastName_lt {name : List U8} (h : lastName f = some name) : name.length < 256 := by
  obtain ⟨q, hq, rfl⟩ := Option.map_eq_some_iff.mp h
  exact length_value_lt (List.mem_filter.mp (List.mem_of_getLast? hq)).1

/-- **The name that is left.** Over a slot with a name that fits, the length is that of a name that fits exactly
when the name in the frame does. -/
theorem ssidLen_parsed_le_iff {ch : U8} (hr : r.ssidLen.toNat ≤ 32) :
    (parsed r ch f).ssidLen.toNat ≤ 32 ↔ ShortName f := by
  rw [ssidLen_parsed]
  unfold ShortName
  cases h : lastName f with
  | none => exact iff_of_true hr fun name hn => by cases hn
  | some name =>
      have hlt := length_lastName_lt h
      rw [Option.map_some, Option.getD_some, BitVec.toNat_ofNat, Nat.mod_eq_of_lt hlt]
      exact ⟨fun hle name' hn => by cases hn; exact hle, fun hn => hn name rfl⟩

/-! ## What a scan leaves -/

/-- A probe response takes the next slot, while there is one. -/
def store (s : Sta) (p : U8 × Frame) : Sta :=
  if h : s.scanCount.toNat < 16 then
    { s with scanResults := Function.update s.scanResults ⟨s.scanCount.toNat, h⟩
               (parsed (s.scanResults ⟨s.scanCount.toNat, h⟩) p.1 p.2), scanCount := s.scanCount + 1 }
  else s

/-- The probe responses among the frames of one channel. -/
def heard (fs : List Frame) : List Frame :=
  (fs.takeWhile fun f => decide (f.bytes.length ≠ 0)).filter fun f => decide (ProbeResponse f)

/-- The probe responses heard on the given channels. -/
def responses (rx : U8 → List Frame) (chs : List U8) : List (U8 × Frame) :=
  chs.flatMap fun ch => (heard (rx ch)).map (Prod.mk ch)

/-- The probe responses a scan has room for. -/
def stored (rx : U8 → List Frame) : List (U8 × Frame) := (responses rx channels).take 16

theorem store_of_full (h : 16 ≤ s.scanCount.toNat) (p : U8 × Frame) : store s p = s :=
  dif_neg (Nat.not_lt.mpr h)

theorem foldl_store_of_full (h : 16 ≤ s.scanCount.toNat) (l : List (U8 × Frame)) : l.foldl store s = s := by
  induction l with
  | nil => rfl
  | cons p l ih => rw [List.foldl_cons, store_of_full h, ih]

theorem addResult_eq (ch : U8) (hf : ProbeResponse f) (h : s.scanCount.toNat < 16) :
    addResult s ch f ⟨s.scanCount.toNat, h⟩ = some (store s (ch, f)) := by
  have hlen : 36 ≤ f.bytes.length := hf.1
  have hle : f.bytes.length ≤ 1500 := f.le
  unfold addResult store
  rw [readBytes_eq (by omega), Option.bind_some, walk_eq hlen _ _ _ (Nat.zero_le _)
    (lt_of_lt_of_le (by omega) (Nat.le_add_right 1500 _)), dif_pos h]
  rfl

theorem heard_cons_of_ne (h : f.bytes.length ≠ 0) (fs : List Frame) :
    heard (f :: fs) = if ProbeResponse f then f :: heard fs else heard fs := by
  unfold heard
  rw [List.takeWhile_cons_of_pos (by simpa using h), List.filter_cons]
  exact if_congr decide_eq_true_iff rfl rfl

/-- **One channel.** -/
theorem scanChannel_eq (ch : U8) : ∀ (fs : List Frame) (s : Sta),
    scanChannel ch fs s = some (((heard fs).map (Prod.mk ch)).foldl store s) := by
  intro fs
  induction fs with
  | nil => exact fun s => rfl
  | cons f fs ih =>
      intro s
      unfold scanChannel
      by_cases h₀ : f.bytes.length = 0
      · rw [if_pos h₀]
        unfold heard
        rw [List.takeWhile_cons_of_neg (by simpa using h₀)]
        rfl
      · rw [if_neg h₀, heard_cons_of_ne h₀]
        by_cases hp : ProbeResponse f
        · rw [if_neg (not_not.mpr hp), if_pos hp]
          by_cases h : s.scanCount.toNat < 16
          · rw [dif_pos h, addResult_eq ch hp h, Option.bind_some, ih]
            rfl
          · rw [dif_neg h, foldl_store_of_full (Nat.not_lt.mp h)]
        · rw [if_pos hp, if_neg hp, ih]

theorem scanChannels_eq (rx : U8 → List Frame) : ∀ (chs : List U8) (s : Sta),
    scanChannels rx chs s = some ((responses rx chs).foldl store s) := by
  intro chs
  induction chs with
  | nil => exact fun s => rfl
  | cons ch chs ih =>
      intro s
      unfold scanChannels responses
      rw [scanChannel_eq, Option.bind_some, ih, List.flatMap_cons, List.foldl_append]
      rfl

/-- The state in which a scan begins. -/
def scanning (s : Sta) : Sta := { s with staState := 1, scanCount := 0 }

/-- The state in which a scan ends. -/
def idle (s : Sta) : Sta := { s with staState := 0 }

/-- **A scan.** -/
theorem wifiScanStart_eq (s : Sta) (rx : U8 → List Frame) :
    wifiScanStart s rx = some (idle ((responses rx channels).foldl store (scanning s))) := by
  unfold wifiScanStart
  rw [scanChannels_eq]
  rfl

/-! ## The names that are stored -/

/-- The names of the slots from the count on fit. -/
def Spare (s : Sta) : Prop := ∀ i : Fin 16, s.scanCount.toNat ≤ i → (s.scanResults i).ssidLen.toNat ≤ 32

/-- The names of the results fit. -/
def Sound (s : Sta) : Prop := ∀ i : Fin 16, (i : ℕ) < s.scanCount.toNat → (s.scanResults i).ssidLen.toNat ≤ 32

section Store

variable {p : U8 × Frame}

theorem scanCount_store (h : s.scanCount.toNat < 16) : (store s p).scanCount.toNat = s.scanCount.toNat + 1 := by
  unfold store
  rw [dif_pos h]
  change (s.scanCount + 1#8).toNat = _
  rw [BitVec.toNat_add, BitVec.toNat_ofNat]
  omega

theorem scanResults_store_self (h : s.scanCount.toNat < 16) : (store s p).scanResults ⟨s.scanCount.toNat, h⟩ =
    parsed (s.scanResults ⟨s.scanCount.toNat, h⟩) p.1 p.2 := by
  unfold store
  rw [dif_pos h]
  exact Function.update_self _ _ _

theorem scanResults_store_of_ne (hi : (i : ℕ) ≠ s.scanCount.toNat) :
    (store s p).scanResults i = s.scanResults i := by
  unfold store
  split_ifs with h
  · exact Function.update_of_ne (fun he => hi (congrArg Fin.val he)) _ _
  · rfl

theorem sound_store_iff (h : s.scanCount.toNat < 16) (hspare : Spare s) :
    Sound (store s p) ↔ Sound s ∧ ShortName p.2 := by
  have hnew : (parsed (s.scanResults ⟨s.scanCount.toNat, h⟩) p.1 p.2).ssidLen.toNat ≤ 32 ↔ ShortName p.2 :=
    ssidLen_parsed_le_iff (hspare _ le_rfl)
  constructor
  · intro hs
    constructor
    · intro i hi
      rw [← scanResults_store_of_ne (p := p) hi.ne]
      exact hs i (by rw [scanCount_store h]; omega)
    · rw [← hnew, ← scanResults_store_self h]
      exact hs _ (by rw [scanCount_store h]; exact Nat.lt_succ_self _)
  · rintro ⟨hs, hp⟩ i hi
    by_cases hne : (i : ℕ) = s.scanCount.toNat
    · obtain rfl : i = ⟨s.scanCount.toNat, h⟩ := Fin.ext hne
      rw [scanResults_store_self h]
      exact hnew.mpr hp
    · rw [scanCount_store h] at hi
      rw [scanResults_store_of_ne hne]
      exact hs i (by omega)

theorem Spare.store (hspare : Spare s) : Spare (store s p) := by
  by_cases h : s.scanCount.toNat < 16
  · intro i hi
    rw [scanCount_store h] at hi
    rw [scanResults_store_of_ne (by omega)]
    exact hspare i (by omega)
  · rwa [store_of_full (Nat.not_lt.mp h)]

end Store

/-- The results after a list of probe responses: those of the first ones that there is room for. -/
theorem sound_foldl_iff : ∀ (l : List (U8 × Frame)) (s : Sta), s.scanCount.toNat ≤ 16 → Spare s →
    (Sound (l.foldl store s) ↔ Sound s ∧ ∀ p ∈ l.take (16 - s.scanCount.toNat), ShortName p.2) := by
  intro l
  induction l with
  | nil =>
      intro s _ _
      rw [List.take_nil]
      exact ⟨fun h => ⟨h, fun p hp => by cases hp⟩, And.left⟩
  | cons p l ih =>
      intro s hcount hspare
      by_cases h : s.scanCount.toNat < 16
      · have hroom : 16 - s.scanCount.toNat = 16 - (store s p).scanCount.toNat + 1 := by
          rw [scanCount_store h]
          omega
        rw [List.foldl_cons, ih _ (by rw [scanCount_store h]; exact h) hspare.store, sound_store_iff h hspare, hroom,
          List.take_succ_cons, List.forall_mem_cons, and_assoc]
      · have hfull : 16 - s.scanCount.toNat = 0 := by omega
        rw [foldl_store_of_full (Nat.not_lt.mp h), hfull, List.take_zero]
        exact ⟨fun h => ⟨h, fun p hp => by cases hp⟩, And.left⟩

theorem scanCount_foldl_le (l : List (U8 × Frame)) (h : s.scanCount.toNat ≤ 16) :
    (l.foldl store s).scanCount.toNat ≤ 16 := by
  induction l generalizing s with
  | nil => exact h
  | cons p l ih =>
      refine ih ?_
      by_cases hlt : s.scanCount.toNat < 16
      · rw [scanCount_store hlt]
        exact hlt
      · rwa [store_of_full (Nat.not_lt.mp hlt)]

theorem Spare.foldl (hspare : Spare s) (l : List (U8 × Frame)) : Spare (l.foldl WifiSta.store s) := by
  induction l generalizing s with
  | nil => exact hspare
  | cons p l ih => exact ih hspare.store

/-! ## What a call of `wifi_connect` reads and writes -/

section Connect

variable {past : Fin 16 → ℕ → U8} {ssid : ℕ → U8} {len : U8}

theorem compareSsid_le : (compareSsid past s i ssid len).2 ≤ len.toNat := by
  unfold compareSsid
  split
  · next j hj => exact List.mem_range.mp (List.mem_of_find?_eq_some hj)
  · exact le_rfl

/-- Only results with a name of the same length are compared. -/
theorem le_of_mem_reads {is : List (Fin 16)} {n : ℕ} (h : n ∈ (findTarget past s ssid len is).2) :
    n ≤ len.toNat ∧ ∃ i ∈ is, (s.scanResults i).ssidLen = len := by
  induction is with
  | nil => cases h
  | cons i is ih =>
      unfold findTarget at h
      dsimp only at h
      split_ifs at h with hlen hc
      · obtain rfl := List.mem_singleton.mp h
        exact ⟨compareSsid_le, i, List.mem_cons_self, hlen⟩
      · rcases List.mem_cons.mp h with rfl | h
        · exact ⟨compareSsid_le, i, List.mem_cons_self, hlen⟩
        · obtain ⟨hle, j, hj, hj'⟩ := ih h
          exact ⟨hle, j, List.mem_cons_of_mem _ hj, hj'⟩
      · obtain ⟨hle, j, hj, hj'⟩ := ih h
        exact ⟨hle, j, List.mem_cons_of_mem _ hj, hj'⟩

theorem ssidLen_of_target {is : List (Fin 16)} (h : (findTarget past s ssid len is).1 = some i) :
    i ∈ is ∧ (s.scanResults i).ssidLen = len := by
  induction is with
  | nil => cases h
  | cons j is ih =>
      unfold findTarget at h
      dsimp only at h
      split_ifs at h with hlen hc
      · cases h
        exact ⟨List.mem_cons_self, hlen⟩
      · exact ⟨List.mem_cons_of_mem _ (ih h).1, (ih h).2⟩
      · exact ⟨List.mem_cons_of_mem _ (ih h).1, (ih h).2⟩

theorem lt_of_mem_scanned (h : i ∈ scanned s) : (i : ℕ) < s.scanCount.toNat := by
  obtain ⟨k, hk, rfl⟩ := List.mem_take_iff_getElem.mp h
  rw [List.getElem_finRange]
  exact (Nat.lt_min.mp hk).1

theorem length_assocReq (bssid : Fin 6 → U8) : (assocReq bssid ssid len).length = 40 + len.toNat := by
  simp [assocReq, myMac]
  omega

/-- Where all names fit, a call stays inside `ssid[]` and inside `assoc_req[128]`. -/
theorem Sound.wifiConnect (h : Sound s) :
    (∀ n ∈ (wifiConnect past s ssid len).1.reads, n ≤ 32) ∧
      (wifiConnect past s ssid len).1.request.length ≤ 72 := by
  have hlen {j : Fin 16} (hj : j ∈ scanned s) (hlen : (s.scanResults j).ssidLen = len) : len.toNat ≤ 32 :=
    hlen ▸ h j (lt_of_mem_scanned hj)
  have hreads : ∀ n ∈ (findTarget past s ssid len (scanned s)).2, n ≤ 32 := by
    intro n hn
    obtain ⟨hle, j, hj, hj'⟩ := le_of_mem_reads hn
    exact hle.trans (hlen hj hj')
  unfold WifiSta.wifiConnect
  dsimp only
  split
  · exact ⟨hreads, Nat.zero_le _⟩
  · next j hj =>
      obtain ⟨hmem, hj'⟩ := ssidLen_of_target hj
      exact ⟨hreads, by rw [length_assocReq]; exact Nat.add_le_add_left (hlen hmem hj') 40⟩

end Connect

/-! ## Runs -/

/-- What the stored results are for: there are at most 16, with names of at most 32 bytes, a call of `wifi_connect`
compares no more than 32 bytes of `ssid[]` and stores `assoc_req[len++]` only inside of the 128 bytes, `len` being a
`u8`, and the next scan ends without a read outside of a frame. -/
structure Fit (s : Sta) : Prop where
  count : s.scanCount.toNat ≤ 16
  names : ∀ i : Fin 16, (i : ℕ) < s.scanCount.toNat → (s.scanResults i).ssidLen.toNat ≤ 32
  connect : ∀ past ssid len, (∀ n ∈ (wifiConnect past s ssid len).1.reads, n ≤ 32) ∧
    ∀ k < (wifiConnect past s ssid len).1.request.length, k % 256 < 128
  scan : ∀ rx, (wifiScanStart s rx).isSome

theorem fit_iff_sound (hcount : s.scanCount.toNat ≤ 16) : Fit s ↔ Sound s := by
  refine ⟨Fit.names, fun h => ⟨hcount, h, fun past ssid len => ⟨h.wifiConnect.1, fun k hk => ?_⟩, fun rx => ?_⟩⟩
  · have hlen : (wifiConnect past s ssid len).1.request.length ≤ 72 := h.wifiConnect.2
    omega
  · rw [wifiScanStart_eq]
    rfl

def step (s : Sta) (rx : U8 → List Frame) : Option (Unit × Sta) := (wifiScanStart s rx).map fun t => ((), t)

def boot : Sta := ⟨fun _ => ⟨fun _ => 0, 0, fun _ => 0, 0, 0, 0⟩, 0, 0⟩

/-- All probe responses that the scan stores leave a name that fits. -/
def ShortNames (_ : Sta) (e : (U8 → List Frame) × Unit) : Prop := ∀ p ∈ stored e.1, ShortName p.2

theorem step_eq_some {rx : U8 → List Frame} {u : Unit} (h : step s rx = some (u, t)) :
    t = idle ((responses rx channels).foldl store (scanning s)) := by
  unfold step at h
  rw [wifiScanStart_eq] at h
  cases h
  rfl

/-- **One scan.** -/
theorem fit_step_iff (hs : ∀ i, (s.scanResults i).ssidLen.toNat ≤ 32) {rx : U8 → List Frame} {u : Unit}
    (h : step s rx = some (u, t)) : Fit t ↔ ShortNames s (rx, u) := by
  obtain rfl := step_eq_some h
  have hcount : (scanning s).scanCount.toNat ≤ 16 := Nat.zero_le _
  have hfold := sound_foldl_iff (responses rx channels) (scanning s) hcount fun i _ => hs i
  have hfit : Fit (idle ((responses rx channels).foldl store (scanning s))) ↔
      Sound ((responses rx channels).foldl store (scanning s)) :=
    fit_iff_sound (scanCount_foldl_le (responses rx channels) hcount)
  exact hfit.trans (hfold.trans (and_iff_right fun i hi => absurd hi (Nat.not_lt_zero _)))

theorem names_step (hs : ∀ i, (s.scanResults i).ssidLen.toNat ≤ 32) {rx : U8 → List Frame} {u : Unit}
    (h : step s rx = some (u, t)) (ht : Fit t) : ∀ i, (t.scanResults i).ssidLen.toNat ≤ 32 := by
  intro i
  by_cases hi : (i : ℕ) < t.scanCount.toNat
  · exact ht.names i hi
  · obtain rfl := step_eq_some h
    have hspare : Spare (scanning s) := fun j _ => hs j
    exact hspare.foldl (responses rx channels) i (Nat.not_lt.mp hi)

theorem fit_boot : Fit boot :=
  (fit_iff_sound (Nat.zero_le _)).mpr fun _ hi => absurd hi (Nat.not_lt_zero _)

/-- **The stored names.** Over all scans the results are fit for `wifi_connect` exactly when every probe response
that is stored leaves a name of at most 32 bytes. -/
theorem scans_sound_iff {es : List ((U8 → List Frame) × Unit)} (h : Run step boot es t) :
    Throughout step Fit boot es ↔ Along step ShortNames boot es :=
  h.throughout_iff_along_while (I := fun s => ∀ i, (s.scanResults i).ssidLen.toNat ≤ 32) (Q := Fit) (P := ShortNames)
    (fun _ _ _ _ hs _ ht hstep => names_step hs hstep ht)
    (fun _ _ _ _ hs _ hstep => fit_step_iff hs hstep) (fun _ => Nat.zero_le _) fit_boot

/-- A probe response with one element, a name. -/
def response (name : List U8) (h : name.length < 256) : Frame :=
  ⟨(0x50 :: List.replicate 35 0) ++ 0 :: BitVec.ofNat 8 name.length :: name, by simp; omega⟩

/-- One frame, on channel 1. -/
def near (f : Frame) (ch : U8) : List Frame := if ch = 1 then [f] else []

theorem lastName_response {name : List U8} (h : name.length < 256) : lastName (response name h) = some name := by
  have hval : (BitVec.ofNat 8 name.length).toNat = name.length := Nat.mod_eq_of_lt h
  have hdrop : (response name h).bytes.drop 36 = 0 :: BitVec.ofNat 8 name.length :: name := rfl
  have helements : elements (response name h) = [(0, name)] := by
    unfold elements
    rw [hdrop, records_cons_cons, hval, if_pos le_rfl, List.take_length, List.drop_length,
      records_nil]
  unfold lastName
  rw [helements]
  rfl

theorem probeResponse_response {name : List U8} (h : name.length < 256) : ProbeResponse (response name h) := by
  refine ⟨?_, rfl⟩
  show 36 ≤ ((0x50 :: List.replicate 35 0) ++ 0 :: BitVec.ofNat 8 name.length :: name).length
  simp

theorem stored_near (hf : ProbeResponse f) : stored (near f) = [(1, f)] := by
  have hne : f.bytes.length ≠ 0 := fun h => absurd hf.1 (by rw [h]; decide)
  have hheard : heard [f] = [f] := by
    rw [heard_cons_of_ne hne, if_pos hf]
    rfl
  have hchannels : responses (near f) channels = (heard [f]).map (Prod.mk 1) ++ [] := rfl
  unfold stored
  rw [hchannels, hheard]
  rfl

theorem step_near (f : Frame) :
    step boot (near f) = some ((), idle ((responses (near f) channels).foldl store (scanning boot))) := by
  unfold step
  rw [wifiScanStart_eq]
  rfl

/-- A scan that hears a name of four bytes. -/
theorem scan_sound_first : Throughout step Fit boot [(near (response [0x68, 0x6F, 0x6D, 0x65] (by decide)), ())] := by
  refine (scans_sound_iff (.cons (step_near _) (.nil _))).mpr ((along_cons (step_near _)).mpr ⟨?_, along_nil _ _⟩)
  intro p hp name hname
  rw [stored_near (probeResponse_response _)] at hp
  obtain rfl := List.mem_singleton.mp hp
  rw [lastName_response] at hname
  cases hname
  decide

/-- A scan that hears a name of 100 bytes. -/
theorem not_fit_long_name : ∃ t,
    Run step boot [(near (response (List.replicate 100 0x41) (by decide)), ())] t ∧ ¬Fit t := by
  refine ⟨_, .cons (step_near _) (.nil _), fun h => ?_⟩
  have hshort := (fit_step_iff (fun _ => Nat.zero_le _) (step_near _)).mp h
  have hmem : (1, response (List.replicate 100 0x41) (by decide)) ∈
      stored (near (response (List.replicate 100 0x41) (by decide))) := by
    rw [stored_near (probeResponse_response _)]
    exact List.mem_singleton_self _
  exact absurd (hshort _ hmem _ (lastName_response (by decide))) (by decide)

end BloodKernel.WifiSta
