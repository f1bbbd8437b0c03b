import BloodKernel.Arch.WifiApHistory
import BloodKernel.Arch.WifiSta

set_option autoImplicit false

/-!
# Stations and their access point

Any number of stations run `arch/esp32s3/wifi_sta.c` near an access point that runs `arch/esp32s3/wifi_ap.c`. What a
station has sent may be received late, in any order, many times or never. `my_mac` is a constant of the source, so
that all stations have the same address, and the access point takes them for one.

* `Net`, `Act`, `step`: the stations, the frames they have sent and the access point. A call of `wifi_connect` sends
  two frames, and anything may happen in between.
* **`one_station_of_run`**: in every run the access point has at most one station and answers at most one
  association request.
-/

namespace BloodKernel.WifiJoin

open Lib WifiSta
open WifiAp (Ap AuthRequest AssocRequest Joined admitted associations associated received srcMac macIn
  wifiApProcessFrame wifiApGetStationCount)

/-- The bytes of a frame in the air. -/
abbrev Sent := WifiAp.Frame

/-! ## What a station sends -/

def rates : List U8 := [0x01, 0x08, 0x82, 0x84, 0x8B, 0x96, 0x0C, 0x12, 0x18, 0x24]

/-- What is stored in `probe_req`, in order. -/
def probeReq : Sent :=
  [0x40, 0x00, 0x00, 0x00] ++ List.replicate 6 0xFF ++ myMac ++ List.replicate 6 0xFF ++ [0x00, 0x00] ++ [0x00, 0x00] ++
    rates

/-- `auth_frame`. -/
def authReq (bssid : Fin 6 → U8) : Sent :=
  [0xB0, 0x00, 0x00, 0x00] ++ List.ofFn bssid ++ myMac ++ List.ofFn bssid ++ [0x00, 0x00] ++ [0x00, 0x00] ++
    [0x01, 0x00] ++ [0x00, 0x00]

/-- `deauth`, whose addresses are not filled in. -/
def deauthReq : Sent := [0xC0, 0x00, 0x00, 0x00] ++ List.replicate 18 0x00 ++ [0x03, 0x00]

/-! ## The system -/

/-- A station. Between the two frames of `wifi_connect`, `joining` is the second one. -/
structure Station where
  sta : Sta
  joining : Option Sent

structure Net (ι : Type) where
  stations : ι → Station
  air : List Sent
  ap : Ap

/-- `scan i rx` and `disconnect i` are calls of `wifi_scan_start` and `wifi_disconnect`, `authenticate i past ssid len`
and `associate i` the parts of `wifi_connect` before and after its first delay. `receive f`: the access point
receives a frame that has been sent. -/
inductive Act (ι : Type) where
  | scan (i : ι) (rx : U8 → List WifiSta.Frame)
  | authenticate (i : ι) (past : Fin 16 → ℕ → U8) (ssid : ℕ → U8) (len : U8)
  | associate (i : ι)
  | disconnect (i : ι)
  | receive (f : Sent)

/-- The end of a call, with what `wifi_connect` returns, a call that goes on, or the answer to a frame. -/
inductive Ret where
  | done
  | connected (r : Bool)
  | waiting
  | answer (r : Option Sent)

section Step

variable {ι : Type} [DecidableEq ι]

/-- A station is now `x`, and has sent `fs`. -/
def Net.act (n : Net ι) (i : ι) (x : Station) (fs : List Sent) : Net ι :=
  { n with stations := Function.update n.stations i x, air := n.air ++ fs }

/-- `wifi_connect` up to its first delay. The request has to fit in `assoc_req[128]`. -/
def authenticate (n : Net ι) (i : ι) (c : Attempt × Sta) : Option (Ret × Net ι) :=
  match c.1.target with
  | none => some (.connected false, n)
  | some j =>
      if c.1.request.length ≤ 128 then
        some (.waiting, n.act i ⟨{ (n.stations i).sta with staState := 2 }, some c.1.request⟩
          [authReq ((n.stations i).sta.scanResults j).bssid])
      else none

/-- A station in the middle of `wifi_connect` is in no other call. -/
def step (bssid : WifiAp.Mac) (n : Net ι) : Act ι → Option (Ret × Net ι)
  | .scan i rx =>
      if (n.stations i).joining.isSome then none
      else (wifiScanStart (n.stations i).sta rx).map fun s => (.done, n.act i ⟨s, none⟩ (List.replicate 14 probeReq))
  | .authenticate i past ssid len =>
      if (n.stations i).joining.isSome then none
      else authenticate n i (wifiConnect past (n.stations i).sta ssid len)
  | .associate i =>
      (n.stations i).joining.map fun req =>
        (.connected true, n.act i ⟨{ (n.stations i).sta with staState := 3 }, none⟩ [req])
  | .disconnect i =>
      if (n.stations i).joining.isSome then none
      else some (.done, n.act i ⟨{ (n.stations i).sta with staState := 0 }, none⟩ [deauthReq])
  | .receive f =>
      if f ∈ n.air then
        some (.answer (wifiApProcessFrame bssid n.ap f).1, { n with ap := (wifiApProcessFrame bssid n.ap f).2 })
      else none

end Step

/-- The stations at their start, and the access point after its own. -/
def start {ι : Type} (sta : ι → Sta) (s : Ap) : Net ι := ⟨fun i => ⟨sta i, none⟩, [], WifiAp.wifiApInit s⟩

/-- A frame that is received, with its answer. -/
def exchange {ι : Type} : Act ι × Ret → Option (Sent × Option Sent)
  | (.receive f, .answer r) => some (f, r)
  | _ => none

/-- What the access point has received and answered in a run. -/
def exchanges {ι : Type} (es : List (Act ι × Ret)) : List (Sent × Option Sent) := es.filterMap exchange

/-- `my_mac`. -/
def ownMac : WifiAp.Mac := fun j => myMac.getD j 0

/-- The access point has the one station that has asked for authentication, in the first slot, and has answered one
association request at most. -/
structure OneStation (fs : List (Sent × Option Sent)) (ap : Ap) : Prop where
  table : ∀ i mac, macIn ap i = some mac ↔ i = 0 ∧ mac = ownMac ∧ ∃ f ∈ received fs, AuthRequest f
  count : (wifiApGetStationCount ap).toNat ≤ 1
  associations : (associations fs).length ≤ 1

variable {ι : Type} [DecidableEq ι] {bssid : WifiAp.Mac} {n n' : Net ι} {a : Act ι} {r : Ret} {f : Sent}

/-! ## The frames of the stations -/

/-- What the access point acts on has the address of all stations. -/
def Own (f : Sent) : Prop := AuthRequest f ∨ AssocRequest f → srcMac f = ownMac

theorem own_authReq (b : Fin 6 → U8) : Own (authReq b) := by
  intro _
  funext j
  match j with
  | 0 | 1 | 2 | 3 | 4 | 5 => rfl

theorem own_assocReq (b : Fin 6 → U8) (ssid : ℕ → U8) (len : U8) : Own (assocReq b ssid len) := by
  intro _
  funext j
  match j with
  | 0 | 1 | 2 | 3 | 4 | 5 => rfl

theorem own_of_type (hauth : WifiAp.frameType f ≠ 0xB0) (hassoc : WifiAp.frameType f ≠ 0x00) : Own f := by
  rintro (hf | hf)
  · exact absurd hf.type hauth
  · exact absurd hf.type hassoc

theorem own_probeReq : Own probeReq := own_of_type (by decide) (by decide)

theorem own_deauthReq : Own deauthReq := own_of_type (by decide) (by decide)

/-! ## Runs -/

/-- Only such frames are in the air, or on their way to it. -/
structure Inv (n : Net ι) : Prop where
  air : ∀ f ∈ n.air, Own f
  joining : ∀ i f, (n.stations i).joining = some f → Own f

omit [DecidableEq ι] in
theorem inv_start (sta : ι → Sta) (s : Ap) : Inv (start sta s) where
  air _ hf := absurd hf List.not_mem_nil
  joining _ _ hf := by cases hf

theorem Inv.act {i : ι} {x : Station} {fs : List Sent} (h : Inv n) (hx : ∀ f, x.joining = some f → Own f)
    (hfs : ∀ f ∈ fs, Own f) : Inv (n.act i x fs) where
  air f hf := (List.mem_append.mp hf).elim (h.air f) (hfs f)
  joining := (Function.forall_update_iff n.stations fun _ y => ∀ f, y.joining = some f → Own f).mpr
    ⟨hx, fun j _ => h.joining j⟩

theorem own_request (past : Fin 16 → ℕ → U8) (s : Sta) (ssid : ℕ → U8) (len : U8) {j : Fin 16}
    (h : (wifiConnect past s ssid len).1.target = some j) : Own (wifiConnect past s ssid len).1.request := by
  unfold wifiConnect at h ⊢
  dsimp only at h ⊢
  split at h
  · cases h
  · exact own_assocReq _ _ _

/-- **One step**: a frame is received, or nothing happens, or a station sends frames of its own or the one that it has
kept. -/
theorem step_cases (hstep : step bssid n a = some (r, n')) :
    (∃ f ∈ n.air, a = .receive f ∧ r = .answer (wifiApProcessFrame bssid n.ap f).1 ∧
        n' = { n with ap := (wifiApProcessFrame bssid n.ap f).2 }) ∨
      exchange (a, r) = none ∧ n' = n ∨
      exchange (a, r) = none ∧ ∃ i x fs, n' = n.act i x fs ∧ (∀ f, x.joining = some f → Own f) ∧
        ∀ f ∈ fs, Own f ∨ (n.stations i).joining = some f := by
  have hown {g : Sent} (hg : Own g) : ∀ f ∈ [g], Own f := fun f hf => List.mem_singleton.mp hf ▸ hg
  cases a with
  | scan i rx =>
      simp only [WifiJoin.step] at hstep
      split_ifs at hstep
      obtain ⟨s, -, heq⟩ := Option.map_eq_some_iff.mp hstep
      cases heq
      refine .inr (.inr ⟨rfl, i, _, _, rfl, fun f hf => (by cases hf), fun f hf => .inl ?_⟩)
      exact List.eq_of_mem_replicate hf ▸ own_probeReq
  | authenticate i past ssid len =>
      simp only [WifiJoin.step] at hstep
      split_ifs at hstep
      unfold authenticate at hstep
      split at hstep
      · cases hstep
        exact .inr (.inl ⟨rfl, rfl⟩)
      · next j hj =>
          split_ifs at hstep
          cases hstep
          refine .inr (.inr ⟨rfl, i, _, _, rfl, fun f hf => ?_, fun f hf => .inl (hown (own_authReq _) f hf)⟩)
          cases hf
          exact own_request past _ ssid len hj
  | associate i =>
      obtain ⟨req, hreq, heq⟩ := Option.map_eq_some_iff.mp hstep
      cases heq
      refine .inr (.inr ⟨rfl, i, _, _, rfl, fun f hf => (by cases hf), fun f hf => .inr ?_⟩)
      rw [List.mem_singleton.mp hf]
      exact hreq
  | disconnect i =>
      simp only [WifiJoin.step] at hstep
      split_ifs at hstep
      cases hstep
      exact .inr (.inr ⟨rfl, i, _, _, rfl, fun f hf => (by cases hf), fun f hf => .inl (hown own_deauthReq f hf)⟩)
  | receive f =>
      simp only [WifiJoin.step] at hstep
      split_ifs at hstep with hf
      cases hstep
      exact .inl ⟨f, hf, rfl, rfl, rfl⟩

theorem Inv.step (h : Inv n) (hstep : step bssid n a = some (r, n')) : Inv n' := by
  rcases step_cases hstep with ⟨f, -, -, -, rfl⟩ | ⟨-, rfl⟩ | ⟨-, i, x, fs, rfl, hx, hfs⟩
  · exact ⟨h.air, h.joining⟩
  · exact h
  · exact h.act hx fun f hf => (hfs f hf).elim id (h.joining i f)

theorem inv_of_run {sta : ι → Sta} {s : Ap} {es : List (Act ι × Ret)} (h : Run (step bssid) (start sta s) es n) :
    Inv n :=
  h.invariant Inv (fun _ _ _ _ hn hstep => hn.step hstep) (inv_start sta s)

theorem ap_run {sta : ι → Sta} {s : Ap} {es : List (Act ι × Ret)} (h : Run (step bssid) (start sta s) es n) :
    Run (total (wifiApProcessFrame bssid)) (WifiAp.wifiApInit s) (exchanges es) n.ap := by
  refine Run.project Net.ap exchange (fun n a r n' hstep he => ?_) (fun n a r n' f resp hstep he => ?_) h
  · rcases step_cases hstep with ⟨f, -, rfl, rfl, rfl⟩ | ⟨-, rfl⟩ | ⟨-, i, x, fs, rfl, -, -⟩
    · cases he
    · rfl
    · rfl
  · rcases step_cases hstep with ⟨g, -, rfl, rfl, rfl⟩ | ⟨hnone, -⟩ | ⟨hnone, -⟩
    · cases he
      rfl
    · rw [hnone] at he
      cases he
    · rw [hnone] at he
      cases he

theorem own_of_received {sta : ι → Sta} {s : Ap} {es : List (Act ι × Ret)}
    (h : Run (step bssid) (start sta s) es n) : ∀ f ∈ received (exchanges es), Own f := by
  refine h.history (fun es _ => ∀ f ∈ received (exchanges es), Own f) (fun f hf => absurd hf List.not_mem_nil) ?_
  intro es n a r n' hrun hes hstep f hf
  rw [received, exchanges, List.filterMap_append, List.map_append, List.mem_append] at hf
  refine hf.elim (hes f) fun hf => ?_
  rcases step_cases hstep with ⟨g, hg, rfl, rfl, -⟩ | ⟨hnone, -⟩ | ⟨hnone, -⟩
  · obtain rfl : f = g := List.mem_singleton.mp hf
    exact (inv_of_run hrun).air f hg
  · rw [List.filterMap_cons_none hnone] at hf
    cases hf
  · rw [List.filterMap_cons_none hnone] at hf
    cases hf

theorem admitted_of_own {fs : List Sent} (h : ∀ f ∈ fs, Own f) :
    admitted fs = if ∃ f ∈ fs, AuthRequest f then [ownMac] else [] := by
  have hall : ∀ mac ∈ (fs.filter fun f => decide (AuthRequest f)).map srcMac, mac = ownMac := by
    intro mac hmac
    obtain ⟨f, hf, rfl⟩ := List.mem_map.mp hmac
    rw [List.mem_filter, decide_eq_true_iff] at hf
    exact h f hf.1 (.inl hf.2)
  have hnil : (fs.filter fun f => decide (AuthRequest f)).map srcMac = [] ↔ ¬∃ f ∈ fs, AuthRequest f := by
    rw [List.map_eq_nil_iff, List.filter_eq_nil_iff]
    simp only [decide_eq_true_iff, not_exists, not_and]
  unfold admitted
  rw [firsts_of_forall_eq hall]
  by_cases hauth : ∃ f ∈ fs, AuthRequest f
  · rw [if_pos hauth, if_neg fun hc => hnil.mp hc hauth]
  · rw [if_neg hauth, if_pos (hnil.mpr hauth)]

/-- **All stations are one.** Whatever they do and whatever is received, the access point has at most one station and
associates it once at most. -/
theorem one_station_of_run {sta : ι → Sta} {s : Ap} {es : List (Act ι × Ret)}
    (h : Run (step bssid) (start sta s) es n) : OneStation (exchanges es) n.ap := by
  have hown := own_of_received h
  have hap := ap_run h
  have hfollows := WifiAp.follows_of_run hap
  have hone := admitted_of_own hown
  have hlen : (admitted (received (exchanges es))).length ≤ 1 := by
    rw [hone]
    split_ifs
    · exact le_rfl
    · exact Nat.zero_le 1
  refine ⟨fun i mac => ?_, ?_, ?_⟩
  · rw [hfollows.seated i, hone]
    split_ifs with hauth
    · rw [and_iff_left hauth, List.getElem?_singleton]
      split_ifs with hi
      · rw [Option.some_inj, eq_comm]
        exact (and_iff_right (Fin.ext hi)).symm
      · exact iff_of_false (fun hc => by cases hc) fun hc => hi (congrArg Fin.val hc.1)
    · exact iff_of_false (fun hc => by cases hc) fun hc => hauth hc.2.2
  · rw [hfollows.count (WifiAp.inv_of_run hap)]
    exact hlen
  · obtain ⟨hnodup, hmem⟩ := WifiAp.associated_of_run hap
    have hall : ∀ mac ∈ associated (exchanges es), mac = ownMac := by
      intro mac hmac
      have hadmitted := ((hmem mac).mp hmac).mem_admitted
      rw [hone] at hadmitted
      split_ifs at hadmitted
      · exact List.mem_singleton.mp hadmitted
      · cases hadmitted
    have hcard : (associated (exchanges es)).length ≤ 1 := by
      rw [List.eq_replicate_of_mem hall, List.nodup_replicate] at hnodup
      exact hnodup
    rwa [associated, List.length_map] at hcard

/-! ## Two stations -/

/-- A station that has heard one network, without a name. -/
def heard : Sta := ⟨fun _ => ⟨fun _ => 0, 0, fun _ => 1, 1, -50, 0⟩, 1, 0⟩

/-- A call of `wifi_connect` for that network. -/
def join (i : Bool) : Act Bool := .authenticate i (fun _ _ => 0) (fun _ => 0) 0

def request : Sent := assocReq (fun _ => 1) (fun _ => 0) 0

/-- Both stations take themselves for connected, but the second one gets no association response. -/
theorem one_station_of_two : ∃ (n : Net Bool) (es : List (Act Bool × Ret)),
    Run (step fun _ => 1) (start (fun _ => heard) ⟨fun _ => ⟨fun _ => 0, 0, 0⟩, 0⟩) es n ∧
      OneStation (exchanges es) n.ap ∧ ∀ i, (n.stations i).sta.staState = 3 := by
  have hrun : Run (step fun _ => 1) (start (fun _ => heard) ⟨fun _ => ⟨fun _ => 0, 0, 0⟩, 0⟩)
      [(join true, .waiting), (.receive (authReq fun _ => 1), _), (.associate true, .connected true),
        (.receive request, _), (join false, .waiting), (.receive (authReq fun _ => 1), _),
        (.associate false, .connected true), (.receive request, .answer none)] _ :=
    .cons rfl (.cons rfl (.cons rfl (.cons rfl (.cons rfl (.cons rfl (.cons rfl (.cons rfl (.nil _))))))))
  exact ⟨_, _, hrun, one_station_of_run hrun, fun i => by cases i <;> rfl⟩

end BloodKernel.WifiJoin
