import BloodKernel.Arch.WifiAp
import BloodKernel.Lib.Arrivals

set_option autoImplicit false

/-!
# The access point and its history

What `arch/esp32s3/wifi_ap.c` makes of the frames it has received, said without its table. It admits the first eight
different addresses that ask for authentication, and for good. An admitted station is associated by the first
association request after that, and that request alone is answered.

* `admitted`, `Joined`, `Answer`: the stations and the answers as the frames received determine them.
* **`ap_of_history`**: after any frames the table and every answer are those, and no station has had two association
  responses.
-/

namespace BloodKernel.WifiAp

open Lib

instance decidableAuthRequest : DecidablePred AuthRequest := fun f =>
  decidable_of_iff (30 ≤ f.length ∧ frameType f = 0xB0 ∧ half f 24 = 0 ∧ half f 26 = 1)
    ⟨fun h => ⟨h.1, h.2.1, h.2.2.1, h.2.2.2⟩, fun h => ⟨h.long, h.type, h.algorithm, h.sequence⟩⟩

instance decidableAssocRequest : DecidablePred AssocRequest := fun f =>
  decidable_of_iff (28 ≤ f.length ∧ frameType f = 0x00) ⟨fun h => ⟨h.1, h.2⟩, fun h => ⟨h.long, h.type⟩⟩

/-! ## What the frames determine -/

/-- The stations with a slot, in the order of the slots: the first eight to ask for authentication. -/
def admitted (fs : List Frame) : List Mac := firsts 8 ((fs.filter fun f => decide (AuthRequest f)).map srcMac)

/-- A station has sent an association request when it was admitted. -/
def Joined (fs : List Frame) (mac : Mac) : Prop :=
  ∃ pre f post, fs = pre ++ f :: post ∧ AssocRequest f ∧ srcMac f = mac ∧ mac ∈ admitted pre

/-- The answer to the frame `f` that follows on `fs`. -/
structure Answer (bssid : Mac) (fs : List Frame) (f : Frame) (r : Option Frame) : Prop where
  auth : AuthRequest f → r = if srcMac f ∈ admitted (fs ++ [f]) then some (authResp bssid (srcMac f)) else none
  assoc : AssocRequest f → ∀ resp, r = some resp ↔ ∃ i : ℕ, (admitted fs)[i]? = some (srcMac f) ∧
    ¬Joined fs (srcMac f) ∧ resp = assocResp bssid (srcMac f) (BitVec.ofNat 8 (i + 1))
  other : ¬AuthRequest f → ¬AssocRequest f → r = none

/-- The table after the frames `fs`. -/
structure Follows (fs : List Frame) (s : Ap) : Prop where
  seated : Seated (macIn s) (admitted fs)
  state : ∀ i mac, macIn s i = some mac → ((s.stations i).state = 2 ↔ Joined fs mac)

variable {bssid : Mac} {fs : List Frame} {f : Frame} {s t : Ap} {mac : Mac} {i : Fin 8}

theorem not_assocRequest (h : AuthRequest f) : ¬AssocRequest f := by
  intro hf
  have htype := h.type
  rw [hf.type] at htype
  exact absurd htype (by decide)

theorem admitted_concat (hf : AuthRequest f) : admitted (fs ++ [f]) =
    if srcMac f ∈ admitted fs ∨ 8 ≤ (admitted fs).length then admitted fs else admitted fs ++ [srcMac f] := by
  unfold admitted
  rw [List.filter_append, List.filter_singleton, decide_eq_true hf, List.map_append]
  exact firsts_concat _ _ _

theorem admitted_concat_of_not (hf : ¬AuthRequest f) : admitted (fs ++ [f]) = admitted fs := by
  unfold admitted
  rw [List.filter_append, List.filter_singleton, decide_eq_false hf]
  exact congrArg (firsts 8 <| ·.map srcMac) (List.append_nil _)

theorem mem_admitted_append (h : mac ∈ admitted fs) (gs : List Frame) : mac ∈ admitted (fs ++ gs) := by
  unfold admitted
  rw [List.filter_append, List.map_append]
  exact mem_firsts_append h _

theorem Joined.mem_admitted (h : Joined fs mac) : mac ∈ admitted fs := by
  obtain ⟨pre, f, post, rfl, -, -, hmem⟩ := h
  exact mem_admitted_append hmem _

theorem joined_concat :
    Joined (fs ++ [f]) mac ↔ Joined fs mac ∨ AssocRequest f ∧ srcMac f = mac ∧ mac ∈ admitted fs := by
  constructor
  · rintro ⟨pre, g, post, heq, hg, hmac, hmem⟩
    rcases List.eq_nil_or_concat post with rfl | ⟨post, x, rfl⟩
    · obtain ⟨rfl, hfg⟩ := List.append_inj' heq rfl
      cases hfg
      exact .inr ⟨hg, hmac, hmem⟩
    · rw [List.concat_eq_append, ← List.cons_append, ← List.append_assoc] at heq
      exact .inl ⟨pre, g, post, (List.append_inj' heq rfl).1, hg, hmac, hmem⟩
  · rintro (⟨pre, g, post, rfl, hg, hmac, hmem⟩ | ⟨hf, hmac, hmem⟩)
    · exact ⟨pre, g, post ++ [f], by rw [List.append_assoc, List.cons_append], hg, hmac, hmem⟩
    · exact ⟨fs, f, [], rfl, hf, hmac, hmem⟩

theorem joined_concat_of_not (hf : ¬AssocRequest f) : Joined (fs ++ [f]) mac ↔ Joined fs mac := by
  rw [joined_concat]
  exact or_iff_left fun h => hf h.1

/-! ## One frame -/

variable (bssid) in
/-- The cases of `handleAuth_cases`, where the free slot is the first one. -/
theorem handleAuth_first (hd : Distinct (macIn s)) (hf : AuthRequest f) :
    (∃ i, macIn s i = some (srcMac f) ∧ wifiApHandleAuth bssid s f = (some (authResp bssid (srcMac f)), s)) ∨
      (∃ i, (∀ j, macIn s j ≠ some (srcMac f)) ∧ macIn s i = none ∧ (∀ j < i, macIn s j ≠ none) ∧
        wifiApHandleAuth bssid s f = (some (authResp bssid (srcMac f)), fill s i (srcMac f))) ∨
      ((∀ j, macIn s j ≠ some (srcMac f)) ∧ (∀ i, macIn s i ≠ none) ∧ wifiApHandleAuth bssid s f = (none, s)) := by
  rcases handleAuth_cases bssid hd hf with hold | ⟨i, hnew, hfree, heq⟩ | hfull
  · exact .inl hold
  · refine .inr (.inl ?_)
    have hfind : findStation s (srcMac f) = none := findStation_eq_none.mpr hnew
    obtain ⟨k, hk⟩ : ∃ k, (first fun i => decide ((s.stations i).state = 0)) = some k := by
      rw [← Option.isSome_iff_exists, Option.isSome_iff_ne_none, ne_eq, first_eq_none_iff]
      exact fun hall => of_decide_eq_false (hall i) (macIn_eq_none.mp hfree)
    obtain ⟨hzero, hlow⟩ := first_eq_some_iff.mp hk
    refine ⟨k, hnew, macIn_eq_none.mpr (of_decide_eq_true hzero), fun j hj => ?_, ?_⟩
    · rw [ne_eq, macIn_eq_none]
      exact of_decide_eq_false (hlow j hj)
    · have hlong : ¬f.length < 30 := Nat.not_lt.mpr hf.long
      have hfields : ¬(half f 24 ≠ 0 ∨ half f 26 ≠ 1) := by
        rw [not_or, not_not, not_not]
        exact ⟨hf.algorithm, hf.sequence⟩
      unfold wifiApHandleAuth
      rw [if_neg hlong, if_neg hfields]
      simp only [hfind, addStation, hk]
  · exact .inr (.inr hfull)

theorem Follows.mem_admitted (h : Follows fs s) : mac ∈ admitted fs ↔ ∃ i, macIn s i = some mac := by
  rw [List.mem_iff_getElem?]
  constructor
  · rintro ⟨k, hk⟩
    have hlt : k < 8 := ((List.getElem?_eq_some_iff.mp hk).1).trans_le (length_firsts_le _ _)
    exact ⟨⟨k, hlt⟩, (h.seated ⟨k, hlt⟩).trans hk⟩
  · rintro ⟨i, hi⟩
    exact ⟨i, (h.seated i).symm.trans hi⟩

theorem Follows.of_same (h : Follows fs s) (hadmitted : admitted (fs ++ [f]) = admitted fs)
    (hjoined : ∀ mac, Joined (fs ++ [f]) mac ↔ Joined fs mac) : Follows (fs ++ [f]) s := by
  refine ⟨?_, fun i mac hi => ?_⟩
  · rw [hadmitted]
    exact h.seated
  · rw [h.state i mac hi, hjoined mac]

theorem Follows.auth (h : Follows fs s) (hd : Distinct (macIn s)) (hf : AuthRequest f) :
    Follows (fs ++ [f]) (wifiApHandleAuth bssid s f).2 ∧ Answer bssid fs f (wifiApHandleAuth bssid s f).1 := by
  have hjoined (mac : Mac) : Joined (fs ++ [f]) mac ↔ Joined fs mac := joined_concat_of_not (not_assocRequest hf)
  have hanswer (r : Option Frame)
      (hr : r = if srcMac f ∈ admitted (fs ++ [f]) then some (authResp bssid (srcMac f)) else none) :
      Answer bssid fs f r :=
    ⟨fun _ => hr, fun hb => absurd hb (not_assocRequest hf), fun ha => absurd hf ha⟩
  rcases handleAuth_first bssid hd hf with ⟨i, hi, heq⟩ | ⟨i, hnew, hfree, hfirst, heq⟩ | ⟨hnew, hfull, heq⟩
  · have hmem := h.mem_admitted.mpr ⟨i, hi⟩
    have hsame : admitted (fs ++ [f]) = admitted fs := by rw [admitted_concat hf, if_pos (.inl hmem)]
    rw [heq]
    exact ⟨h.of_same hsame hjoined, hanswer _ (by rw [hsame, if_pos hmem])⟩
  · have hnot : srcMac f ∉ admitted fs := fun hmem => by
      obtain ⟨j, hj⟩ := h.mem_admitted.mp hmem
      exact hnew j hj
    have hlen : (i : ℕ) = (admitted fs).length := h.seated.eq_length hfree hfirst
    have hnext : admitted (fs ++ [f]) = admitted fs ++ [srcMac f] := by
      rw [admitted_concat hf, if_neg (not_or.mpr ⟨hnot, by omega⟩)]
    rw [heq]
    refine ⟨⟨?_, fun j mac hj => ?_⟩, hanswer _ ?_⟩
    · rw [macIn_fill, hnext]
      exact h.seated.take hlen _
    · rw [macIn_fill] at hj
      by_cases hji : j = i
      · -- the newcomer has not joined before it was admitted
        rw [hji, Function.update_self] at hj
        cases hj
        rw [hji, hjoined]
        refine iff_of_false ?_ fun hjoin => hnot hjoin.mem_admitted
        simp only [fill, Function.update_self]
        decide
      · rw [Function.update_of_ne hji] at hj
        simp only [fill, Function.update_of_ne hji]
        rw [h.state j mac hj, hjoined mac]
    · rw [hnext, if_pos (List.mem_append_right _ (List.mem_singleton_self _))]
  · have hnot : srcMac f ∉ admitted fs := fun hmem => by
      obtain ⟨j, hj⟩ := h.mem_admitted.mp hmem
      exact hnew j hj
    have hlen : 8 ≤ (admitted fs).length := by
      by_contra hlt
      exact hfull ⟨(admitted fs).length, Nat.not_le.mp hlt⟩ (h.seated.eq_none.mpr le_rfl)
    have hsame : admitted (fs ++ [f]) = admitted fs := by rw [admitted_concat hf, if_pos (.inr hlen)]
    rw [heq]
    exact ⟨h.of_same hsame hjoined, hanswer _ (by rw [hsame, if_neg hnot])⟩

theorem Follows.assoc (h : Follows fs s) (hinv : Inv s) (hf : AssocRequest f) :
    Follows (fs ++ [f]) (wifiApHandleAssoc bssid s f).2 ∧ Answer bssid fs f (wifiApHandleAssoc bssid s f).1 := by
  have hauth : ¬AuthRequest f := fun ha => not_assocRequest ha hf
  have hsame : admitted (fs ++ [f]) = admitted fs := admitted_concat_of_not hauth
  -- a station that has not joined is the one that waits in its slot
  have hstate (i : Fin 8) (hi : macIn s i = some (srcMac f)) :
      (s.stations i).state = 1 ↔ ¬Joined fs (srcMac f) := by
    rw [← h.state i _ hi]
    have hused := (macIn_eq_some.mp hi).1
    have hle := hinv.state i
    constructor
    · intro hone htwo
      rw [hone] at htwo
      exact absurd htwo (by decide)
    · intro hne
      bv_omega
  have hanswer (r : Option Frame) (hr : ∀ resp, r = some resp ↔ ∃ i : ℕ, (admitted fs)[i]? = some (srcMac f) ∧
      ¬Joined fs (srcMac f) ∧ resp = assocResp bssid (srcMac f) (BitVec.ofNat 8 (i + 1))) : Answer bssid fs f r :=
    ⟨fun ha => absurd ha hauth, fun _ => hr, fun _ hb => absurd hf hb⟩
  rcases handleAssoc_cases bssid hinv.macs hf with ⟨i, hi, hone, heq⟩ | ⟨hnone, heq⟩
  · have hused := (macIn_eq_some.mp hi).1
    rw [heq]
    refine ⟨⟨?_, fun j mac hj => ?_⟩, hanswer _ fun resp => ?_⟩
    · rw [macIn_associate hused, hsame]
      exact h.seated
    · rw [macIn_associate hused] at hj
      by_cases hji : j = i
      · rw [hji, hi] at hj
        cases hj
        have hjoin : Joined (fs ++ [f]) (srcMac f) := joined_concat.mpr (.inr ⟨hf, rfl, h.mem_admitted.mpr ⟨i, hi⟩⟩)
        rw [hji]
        simp only [associate, Function.update_self]
        exact iff_of_true trivial hjoin
      · have hne : srcMac f ≠ mac := by
          rintro rfl
          exact hji (hinv.macs j i _ hj hi)
        have hiff : Joined (fs ++ [f]) mac ↔ Joined fs mac := by
          rw [joined_concat]
          exact or_iff_left fun hc => hne hc.2.1
        simp only [associate, Function.update_of_ne hji]
        rw [h.state j mac hj, hiff]
    · rw [hinv.aid i hused, Option.some_inj]
      constructor
      · rintro rfl
        exact ⟨i, (h.seated i).symm.trans hi, (hstate i hi).mp hone, rfl⟩
      · rintro ⟨k, hk, -, rfl⟩
        have hlt : k < 8 := ((List.getElem?_eq_some_iff.mp hk).1).trans_le (length_firsts_le _ _)
        have hki : (⟨k, hlt⟩ : Fin 8) = i := hinv.macs _ _ _ ((h.seated ⟨k, hlt⟩).trans hk) hi
        rw [← hki]
  · rw [heq]
    refine ⟨⟨?_, fun j mac hj => ?_⟩, hanswer _ fun resp => ?_⟩
    · rw [hsame]
      exact h.seated
    · rw [h.state j mac hj, joined_concat]
      refine (or_iff_left_of_imp ?_).symm
      rintro ⟨-, rfl, -⟩
      by_contra hnot
      exact hnone j hj ((hstate j hj).mpr hnot)
    · refine iff_of_false (fun hc => by cases hc) ?_
      rintro ⟨k, hk, hnot, -⟩
      obtain ⟨j, hj⟩ := h.mem_admitted.mp (List.mem_of_getElem? hk)
      exact hnone j hj ((hstate j hj).mpr hnot)

variable (bssid f) in
/-- **One frame.** -/
theorem Follows.process (h : Follows fs s) (hinv : Inv s) :
    Follows (fs ++ [f]) (wifiApProcessFrame bssid s f).2 ∧ Answer bssid fs f (wifiApProcessFrame bssid s f).1 := by
  by_cases ha : AuthRequest f
  · rw [process_of_auth ha]
    exact h.auth hinv.macs ha
  · by_cases hb : AssocRequest f
    · rw [process_of_assoc hb]
      exact h.assoc hinv hb
    · rw [process_of_neither ha hb]
      exact ⟨h.of_same (admitted_concat_of_not ha) fun mac => joined_concat_of_not hb,
        fun hc => absurd hc ha, fun hc => absurd hc hb, fun _ _ => rfl⟩

/-! ## Any frames -/

/-- The frames a run has received. -/
abbrev received (es : List (Frame × Option Frame)) : List Frame := es.map Prod.fst

theorem follows_init (s : Ap) : Follows [] (wifiApInit s) := by
  refine ⟨fun i => rfl, fun i mac hi => ?_⟩
  rw [macIn_init] at hi
  cases hi

theorem follows_of_run {es : List (Frame × Option Frame)}
    (h : Run (total (wifiApProcessFrame bssid)) (wifiApInit s) es t) : Follows (received es) t := by
  refine h.history (fun es t => Follows (received es) t) (follows_init s) fun es t f r u hrun ht hstep => ?_
  have hnext : (wifiApProcessFrame bssid t f).2 = u := congrArg Prod.snd (total_eq_some.mp hstep)
  rw [received, List.map_append, ← hnext]
  exact (ht.process bssid f (inv_of_run hrun)).1

theorem answer_of_run {pre post : List (Frame × Option Frame)} {r : Option Frame}
    (h : Run (total (wifiApProcessFrame bssid)) (wifiApInit s) (pre ++ (f, r) :: post) t) :
    Answer bssid (received pre) f r := by
  obtain ⟨u, hpre, hpost⟩ := run_append.mp h
  obtain ⟨v, hstep, -⟩ := run_cons.mp hpost
  have hanswer : (wifiApProcessFrame bssid u f).1 = r := congrArg Prod.fst (total_eq_some.mp hstep)
  rw [← hanswer]
  exact ((follows_of_run hpre).process bssid f (inv_of_run hpre)).2

/-- The association requests that are answered. -/
def associations (es : List (Frame × Option Frame)) : List (Frame × Option Frame) :=
  es.filter fun e => decide (AssocRequest e.1) && e.2.isSome

/-- The stations that have an association response. -/
def associated (es : List (Frame × Option Frame)) : List Mac := (associations es).map fun e => srcMac e.1

theorem associated_concat (es : List (Frame × Option Frame)) (f : Frame) (r : Option Frame) :
    associated (es ++ [(f, r)]) = if AssocRequest f ∧ r.isSome then associated es ++ [srcMac f] else associated es := by
  unfold associated associations
  rw [List.filter_append, List.map_append, List.filter_singleton]
  by_cases hf : AssocRequest f ∧ r.isSome
  · rw [if_pos hf, decide_eq_true hf.1, hf.2]
    rfl
  · have hfalse : (decide (AssocRequest f) && r.isSome) = false := by
      rw [Bool.eq_false_iff, ne_eq, Bool.and_eq_true, decide_eq_true_iff]
      exact hf
    rw [if_neg hf, hfalse]
    exact List.append_nil _

/-- **One response each.** A station gets an association response when it has joined, and no second one. -/
theorem associated_of_run {es : List (Frame × Option Frame)}
    (h : Run (total (wifiApProcessFrame bssid)) (wifiApInit s) es t) :
    (associated es).Nodup ∧ ∀ mac, mac ∈ associated es ↔ Joined (received es) mac := by
  refine h.history (fun es _ => (associated es).Nodup ∧ ∀ mac, mac ∈ associated es ↔ Joined (received es) mac) ?_ ?_
  · refine ⟨List.nodup_nil, fun mac => iff_of_false List.not_mem_nil ?_⟩
    rintro ⟨pre, f, post, heq, -⟩
    exact absurd heq.symm (List.append_ne_nil_of_right_ne_nil _ (List.cons_ne_nil _ _))
  · rintro es t f r u hrun ⟨hnodup, hmem⟩ hstep
    have hanswer : Answer bssid (received es) f r := answer_of_run (hrun.append (.cons hstep (.nil u)))
    rw [associated_concat, received, List.map_append]
    by_cases hf : AssocRequest f ∧ r.isSome
    · obtain ⟨resp, hresp⟩ := Option.isSome_iff_exists.mp hf.2
      obtain ⟨i, hi, hnot, -⟩ := (hanswer.assoc hf.1 resp).mp hresp
      rw [if_pos hf]
      refine ⟨?_, fun mac => ?_⟩
      · rw [List.nodup_append]
        refine ⟨hnodup, List.nodup_singleton _, fun a ha b hb hab => hnot ?_⟩
        rw [List.mem_singleton.mp hb] at hab
        exact hab ▸ (hmem a).mp ha
      · rw [List.mem_append, List.mem_singleton, hmem]
        refine Iff.trans (or_congr_right ?_) joined_concat.symm
        constructor
        · rintro rfl
          exact ⟨hf.1, rfl, List.mem_of_getElem? hi⟩
        · rintro ⟨-, hmac, -⟩
          exact hmac.symm
    · rw [if_neg hf]
      refine ⟨hnodup, fun mac => ?_⟩
      rw [hmem]
      refine Iff.trans (or_iff_left_of_imp ?_).symm joined_concat.symm
      rintro ⟨hassoc, rfl, hadmitted⟩
      by_contra hnot
      obtain ⟨i, hi⟩ := List.mem_iff_getElem?.mp hadmitted
      have hresp := (hanswer.assoc hassoc _).mpr ⟨i, hi, hnot, rfl⟩
      exact hf ⟨hassoc, by rw [hresp]; rfl⟩

theorem Follows.count (h : Follows fs s) (hinv : Inv s) :
    (wifiApGetStationCount s).toNat = (admitted fs).length := by
  have hcount : (wifiApGetStationCount s).toNat = numKeys (macIn s) := hinv.count
  rw [hcount, h.seated.numKeys (length_firsts_le _ _)]

/-- **The table and the answers** after any frames. -/
theorem ap_of_history {es : List (Frame × Option Frame)}
    (h : Run (total (wifiApProcessFrame bssid)) (wifiApInit s) es t) :
    Follows (received es) t ∧ (wifiApGetStationCount t).toNat = (admitted (received es)).length ∧
      (∀ pre f r post, es = pre ++ (f, r) :: post → Answer bssid (received pre) f r) ∧ (associated es).Nodup := by
  refine ⟨follows_of_run h, (follows_of_run h).count (inv_of_run h), ?_, (associated_of_run h).1⟩
  rintro pre f r post rfl
  exact answer_of_run h

variable (bssid) in
theorem run_two (s : Ap) (f g : Frame) : Run (total (wifiApProcessFrame bssid)) s
    [(f, (wifiApProcessFrame bssid s f).1), (g, (wifiApProcessFrame bssid (wifiApProcessFrame bssid s f).2 g).1)]
    (wifiApProcessFrame bssid (wifiApProcessFrame bssid s f).2 g).2 :=
  .cons rfl (.cons rfl (.nil _))

/-- A station that authenticates and associates. -/
theorem ap_of_history_first : ∃ t : Ap, Follows [authFrame fun _ => 2, assocFrame fun _ => 2] t ∧
    (wifiApGetStationCount t).toNat = (admitted [authFrame fun _ => 2, assocFrame fun _ => 2]).length := by
  have hhistory := ap_of_history
    (run_two (fun _ => 1) (wifiApInit ⟨fun _ => ⟨fun _ => 0, 0, 0⟩, 0⟩) (authFrame fun _ => 2) (assocFrame fun _ => 2))
  exact ⟨_, hhistory.1, hhistory.2.1⟩

end BloodKernel.WifiAp
