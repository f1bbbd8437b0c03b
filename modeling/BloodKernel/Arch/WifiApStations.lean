import BloodKernel.Arch.WifiAp

set_option autoImplicit false

/-!
# Stations that come and go

What `arch/esp32s3/wifi_ap.c` does for one station over the frames of all of them. An authentication request of
an associated station is answered but leaves it associated, and its next association request is not answered; a
deauthentication changes nothing.

* `Readmits`, `Completes`, `Releases`: what a station may expect in a state.
* **`stations_served_iff`**: after any frames a station is served exactly when it is not associated, and its slot is
  released exactly when it has none.
-/

namespace BloodKernel.WifiAp

open Lib

/-- A frame that a station has sent. -/
def From (mac : Mac) (f : Frame) : Prop := 24 ≤ f.length ∧ srcMac f = mac

structure Deauth (f : Frame) : Prop where
  long : 26 ≤ f.length
  type : frameType f = 0xC0

/-- The authentication requests of a station that has a slot are answered. -/
def Readmits (bssid : Mac) (s : Ap) (mac : Mac) : Prop :=
  ∀ f, AuthRequest f → srcMac f = mac → (∃ i, macIn s i = some mac) →
    (wifiApProcessFrame bssid s f).1 = some (authResp bssid mac)

/-- When the access point answers an authentication of the station, and the next frame of this station is an
association request, it answers with the association id. -/
def Completes (bssid : Mac) (s : Ap) (mac : Mac) : Prop :=
  ∀ f es t g, (wifiApProcessFrame bssid s f).1 = some (authResp bssid mac) →
    Run (total (wifiApProcessFrame bssid)) (wifiApProcessFrame bssid s f).2 es t → (∀ e ∈ es, ¬From mac e.1) →
      AssocRequest g → srcMac g = mac →
        ∃ i, macIn t i = some mac ∧
          (wifiApProcessFrame bssid t g).1 = some (assocResp bssid mac (t.stations i).aid)

/-- A deauthentication of the station frees its slot. -/
def Releases (bssid : Mac) (s : Ap) (mac : Mac) : Prop :=
  ∀ d, Deauth d → srcMac d = mac → ∀ i, macIn s i = some mac → macIn (wifiApProcessFrame bssid s d).2 i = none

def Associated (s : Ap) (mac : Mac) : Prop := ∃ i, macIn s i = some mac ∧ (s.stations i).state = 2

/-- The station waits for its association in slot `i`. -/
structure Waiting (s : Ap) (mac : Mac) (i : Fin 8) : Prop where
  mac : macIn s i = some mac
  state : (s.stations i).state = 1

variable {bssid : Mac} {s t : Ap} {f : Frame} {mac mac' : Mac} {i : Fin 8}

theorem authResp_injective (h : authResp bssid mac = authResp bssid mac') : mac = mac' := by
  have hheader := (List.append_inj' h rfl).1
  have hsource := (List.append_inj' hheader rfl).1
  have hdest := (List.append_inj' (List.append_inj' hsource (by simp)).1 (by simp)).1
  exact List.ofFn_injective (List.append_inj hdest rfl).2

theorem assocResp_ne_authResp (aid : U8) : assocResp bssid mac aid ≠ authResp bssid mac' := by
  intro h
  have hhead : some (0x10 : U8) = some 0xB0 := congrArg List.head? h
  exact absurd hhead (by decide)

/-! ## Authentication, then association -/

theorem readmits (h : Inv s) (mac : Mac) : Readmits bssid s mac := by
  rintro f hf rfl ⟨i, hi⟩
  rw [process_of_auth hf]
  rcases handleAuth_cases bssid h.macs hf with ⟨j, -, heq⟩ | ⟨j, hnew, -, -⟩ | ⟨hnew, -, -⟩
  · rw [heq]
  · exact absurd hi (hnew i)
  · exact absurd hi (hnew i)

/-- After an answered authentication, a station that was not associated waits for its association. -/
theorem waiting_of_answered (h : Inv s) (hnot : ¬Associated s mac)
    (hresp : (wifiApProcessFrame bssid s f).1 = some (authResp bssid mac)) :
    ∃ i, Waiting (wifiApProcessFrame bssid s f).2 mac i := by
  by_cases ha : AuthRequest f
  · rw [process_of_auth ha] at hresp ⊢
    rcases handleAuth_cases bssid h.macs ha with ⟨i, hi, heq⟩ | ⟨i, -, -, heq⟩ | ⟨-, -, heq⟩
    · rw [heq] at hresp ⊢
      have hmac : srcMac f = mac := authResp_injective (Option.some_inj.mp hresp)
      rw [hmac] at hi
      refine ⟨i, hi, ?_⟩
      have hused := (macIn_eq_some.mp hi).1
      have htwo : (s.stations i).state ≠ 2 := fun hs => hnot ⟨i, hi, hs⟩
      have hle := h.state i
      bv_omega
    · rw [heq] at hresp ⊢
      have hmac : srcMac f = mac := authResp_injective (Option.some_inj.mp hresp)
      refine ⟨i, ?_, ?_⟩
      · rw [macIn_fill, Function.update_self, hmac]
      · simp only [fill, Function.update_self]
    · rw [heq] at hresp
      cases hresp
  · by_cases hb : AssocRequest f
    · rw [process_of_assoc hb] at hresp
      rcases handleAssoc_cases bssid h.macs hb with ⟨i, -, -, heq⟩ | ⟨-, heq⟩
      · rw [heq] at hresp
        exact absurd (Option.some_inj.mp hresp) (assocResp_ne_authResp _)
      · rw [heq] at hresp
        cases hresp
    · rw [process_of_neither ha hb] at hresp
      cases hresp

/-- The frames of others do not disturb a station that waits. -/
theorem Waiting.process (hw : Waiting s mac i) (h : Inv s) (hf : ¬From mac f) :
    Waiting (wifiApProcessFrame bssid s f).2 mac i := by
  rcases process_cases bssid h.macs f with heq | ⟨j, -, hfree, heq⟩ | ⟨j, hb, hj, -, heq⟩
  · rw [heq]
    exact hw
  · rw [heq]
    have hij : i ≠ j := by
      rintro rfl
      rw [hw.mac] at hfree
      cases hfree
    refine ⟨?_, ?_⟩
    · rw [macIn_fill, Function.update_of_ne hij]
      exact hw.mac
    · simp only [fill, Function.update_of_ne hij]
      exact hw.state
  · rw [heq]
    have hij : i ≠ j := by
      rintro rfl
      rw [hw.mac] at hj
      exact hf ⟨by have := hb.long; omega, (Option.some_inj.mp hj).symm⟩
    refine ⟨?_, ?_⟩
    · rw [macIn_associate (macIn_eq_some.mp hj).1]
      exact hw.mac
    · simp only [associate, Function.update_of_ne hij]
      exact hw.state

theorem Waiting.run {es : List (Frame × Option Frame)} (hrun : Run (total (wifiApProcessFrame bssid)) s es t)
    (h : Inv s) (hw : Waiting s mac i) (hes : ∀ e ∈ es, ¬From mac e.1) : Inv t ∧ Waiting t mac i := by
  induction hrun with
  | nil => exact ⟨h, hw⟩
  | @cons s s' t f r es hstep _ ih =>
      have hnext : (wifiApProcessFrame bssid s f).2 = s' := congrArg Prod.snd (total_eq_some.mp hstep)
      rw [← hnext] at ih
      exact ih (h.process bssid f) (hw.process h (hes _ List.mem_cons_self))
        fun e he => hes e (List.mem_cons_of_mem _ he)

/-- **Association** completes unless the station is associated already. -/
theorem completes_iff (h : Inv s) (mac : Mac) : Completes bssid s mac ↔ ¬Associated s mac := by
  constructor
  · rintro hc ⟨i, hi, hstate⟩
    have hauth : wifiApProcessFrame bssid s (authFrame mac) = (some (authResp bssid mac), s) := by
      have hf := authRequest_authFrame mac
      have hsrc : srcMac (authFrame mac) = mac := srcMac_frameFrom _ _ _
      have hcases := handleAuth_cases bssid h.macs hf
      rw [hsrc, ← process_of_auth hf] at hcases
      rcases hcases with ⟨j, -, heq⟩ | ⟨j, hnew, -, -⟩ | ⟨hnew, -, -⟩
      · exact heq
      · exact absurd hi (hnew i)
      · exact absurd hi (hnew i)
    have hg := assocRequest_assocFrame mac
    have hsrc : srcMac (assocFrame mac) = mac := srcMac_frameFrom _ _ _
    obtain ⟨j, -, hresp⟩ := hc (authFrame mac) [] s (assocFrame mac) (by rw [hauth])
      (by rw [hauth]; exact .nil s) (fun e he => absurd he List.not_mem_nil) hg hsrc
    have hcases := handleAssoc_cases bssid h.macs hg
    rw [hsrc, ← process_of_assoc hg] at hcases
    rcases hcases with ⟨k, hk, hone, -⟩ | ⟨-, heq⟩
    · rw [h.macs i k mac hi hk, hone] at hstate
      exact absurd hstate (by decide)
    · rw [heq] at hresp
      cases hresp
  · rintro hnot f es t g hresp hrun hes hg rfl
    obtain ⟨i, hw⟩ := waiting_of_answered h hnot hresp
    obtain ⟨ht, hw⟩ := hw.run hrun (h.process bssid f) hes
    refine ⟨i, hw.mac, ?_⟩
    rw [process_of_assoc hg]
    rcases handleAssoc_cases bssid ht.macs hg with ⟨j, hj, -, heq⟩ | ⟨hno, -⟩
    · rw [heq, ht.macs i j _ hw.mac hj]
    · exact absurd hw.state (hno i hw.mac)

/-! ## Deauthentication -/

def deauthFrame (mac : Mac) : Frame := frameFrom 0xC0 mac [0x03, 0x00]

theorem deauth_deauthFrame (mac : Mac) : Deauth (deauthFrame mac) where
  long := le_refl 26
  type := by
    show (0xC0 : U8) &&& 0xFC = 0xC0
    decide

theorem process_of_deauth (hd : Deauth f) : wifiApProcessFrame bssid s f = (none, s) := by
  refine process_of_neither (fun ha => ?_) fun hb => ?_
  · have htype := ha.type
    rw [hd.type] at htype
    exact absurd htype (by decide)
  · have htype := hb.type
    rw [hd.type] at htype
    exact absurd htype (by decide)

theorem releases_iff (s : Ap) (mac : Mac) : Releases bssid s mac ↔ ∀ i, macIn s i ≠ some mac := by
  constructor
  · intro hr i hi
    have hfree := hr (deauthFrame mac) (deauth_deauthFrame mac) (srcMac_frameFrom _ _ _) i hi
    rw [process_of_deauth (deauth_deauthFrame mac), hi] at hfree
    cases hfree
  · exact fun hnone d _ _ i hi => absurd hi (hnone i)

/-! ## Any frames -/

/-- **Stations after any frames.** -/
theorem stations_served_iff {es : List (Frame × Option Frame)} {a : Ap}
    (h : Run (total (wifiApProcessFrame bssid)) (wifiApInit a) es s) (mac : Mac) :
    (Readmits bssid s mac ∧ Completes bssid s mac ↔ ¬Associated s mac) ∧
      (Releases bssid s mac ↔ ∀ i, macIn s i ≠ some mac) := by
  have hinv := inv_of_run h
  exact ⟨by rw [and_iff_right (readmits hinv mac), completes_iff hinv mac], releases_iff s mac⟩

/-- The access point after its start. -/
def started : Ap := wifiApInit ⟨fun _ => ⟨fun _ => 0, 0, 0⟩, 0⟩

def bssidOne : Mac := fun _ => 1

def macTwo : Mac := fun _ => 2

def macThree : Mac := fun _ => 3

/-- Beside a station that is associated, one that has authenticated is served, and one that has not is released. -/
theorem served_beside : ∃ s, Run (total (wifiApProcessFrame bssidOne)) started
      [(authFrame macThree, some (authResp bssidOne macThree)),
        (assocFrame macThree, some (assocResp bssidOne macThree 1)),
        (authFrame macTwo, some (authResp bssidOne macTwo))] s ∧
    Readmits bssidOne s macTwo ∧ Completes bssidOne s macTwo ∧ Releases bssidOne s bssidOne := by
  have hrun : Run (total (wifiApProcessFrame bssidOne)) started
      [(authFrame macThree, some (authResp bssidOne macThree)),
        (assocFrame macThree, some (assocResp bssidOne macThree 1)),
        (authFrame macTwo, some (authResp bssidOne macTwo))] _ := .cons rfl (.cons rfl (.cons rfl (.nil _)))
  have hserved := (stations_served_iff hrun macTwo).1.mpr (by
    rintro ⟨i, hmac, hstate⟩
    revert i
    decide)
  have hreleased := (stations_served_iff hrun bssidOne).2.mpr (by decide)
  exact ⟨_, hrun, hserved.1, hserved.2, hreleased⟩

/-- A station that authenticates a second time gets no answer to its second association request, and its
deauthentication leaves it in its slot. -/
theorem not_served_again :
    ∃ s, Run (total (wifiApProcessFrame bssidOne)) started
        [(authFrame macTwo, some (authResp bssidOne macTwo)), (assocFrame macTwo, some (assocResp bssidOne macTwo 1)),
          (authFrame macTwo, some (authResp bssidOne macTwo)), (assocFrame macTwo, none),
          (deauthFrame macTwo, none)] s ∧
      ¬Completes bssidOne s macTwo ∧ ¬Releases bssidOne s macTwo ∧ macIn s 0 = some macTwo := by
  have hauth := authRequest_authFrame macTwo
  have hassoc := assocRequest_assocFrame macTwo
  have hfirst : wifiApProcessFrame bssidOne started (authFrame macTwo) =
      (some (authResp bssidOne macTwo), fill started 0 macTwo) := by
    have hsrc : srcMac (authFrame macTwo) = macTwo := srcMac_frameFrom _ _ _
    have hfill : wifiApProcessFrame bssidOne started (authFrame macTwo) =
        (some (authResp bssidOne (srcMac (authFrame macTwo))), fill started 0 (srcMac (authFrame macTwo))) := rfl
    rw [hfill, hsrc]
  have hsecond : wifiApProcessFrame bssidOne (fill started 0 macTwo) (assocFrame macTwo) =
      (some (assocResp bssidOne macTwo 1), associate (fill started 0 macTwo) 0) := rfl
  have hthird : wifiApProcessFrame bssidOne (associate (fill started 0 macTwo) 0) (authFrame macTwo) =
      (some (authResp bssidOne macTwo), associate (fill started 0 macTwo) 0) := rfl
  have hfourth : wifiApProcessFrame bssidOne (associate (fill started 0 macTwo) 0) (assocFrame macTwo) =
      (none, associate (fill started 0 macTwo) 0) := rfl
  have hrun := Run.cons (total_eq_some.mpr hfirst) (.cons (total_eq_some.mpr hsecond) (.cons (total_eq_some.mpr hthird)
    (.cons (total_eq_some.mpr hfourth) (.cons (total_eq_some.mpr (process_of_deauth (deauth_deauthFrame macTwo)))
      (.nil _)))))
  have hin : macIn (associate (fill started 0 macTwo) 0) 0 = some macTwo := rfl
  have hinv := inv_of_run hrun
  refine ⟨_, hrun, fun hc => ?_, fun hr => (releases_iff _ macTwo).mp hr 0 hin, hin⟩
  exact (completes_iff hinv macTwo).mp hc ⟨0, hin, rfl⟩

end BloodKernel.WifiAp
