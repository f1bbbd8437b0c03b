import BloodKernel.Drivers.IoApic

set_option autoImplicit false

/-!
# The routes of the interrupts

`drivers/ioapic.c` as one table of interrupts: the numbers of the interrupts are those of the pins of the controllers
that were detected, the first that covers a number.

* `Routes`, `routeStep`: what the driver is for, one entry for each interrupt;
* `Config`: what the calls leave alone; `find_inj`: a pin belongs to one interrupt;
* `Holds`: the devices and the copies hold the entries; `holds_init`, `holds_step`;
* **`ioapic_refines`**: the driver does what is asked of the one table, whatever the devices report in between.
-/

namespace BloodKernel.IoApic

open Lib

/-! ### What it is for -/

/-- One entry for each interrupt that there is. -/
abbrev Routes := U32 → Option Entry

/-- The low word without the status bits. -/
def clean (low : U32) : U32 := low &&& ~~~statusBits

def Entry.clean (e : Entry) : Entry := { e with low := IoApic.clean e.low }

def Routes.change (a : Routes) (gsi : U32) (f : Entry → Entry) : Routes :=
  Function.update a gsi ((a gsi).map fun e => (f e).clean)

def routeStep (a : Routes) : Op → U8 × Routes
  | .setIrq gsi e => (0, a.change gsi fun _ => e.entry)
  | .maskIrq gsi => (0, a.change gsi fun e => { e with low := masked e.low })
  | .unmaskIrq gsi => (0, a.change gsi fun e => { e with low := unmasked e.low })
  | .setDeliveryMode gsi mode => (0, a.change gsi fun e => { e with low := withDeliveryMode mode e.low })
  | .setDestinationMode gsi logical => (0, a.change gsi fun e => { e with low := withDestinationMode logical e.low })
  | .isIrqMasked gsi => ((a gsi).elim 1 fun e => if e.low &&& ioapicMask ≠ 0 then 1 else 0, a)
  | .getVector gsi => ((a gsi).elim 0 fun e => (e.low &&& 0xFF).setWidth 8, a)
  | .getDestination gsi => ((a gsi).elim 0 fun e => ((e.high >>> 24) &&& 0xFF).setWidth 8, a)
  | .status _ _ => (0, a)


/-! ### The status bits -/

theorem clean_written (old v : U32) : clean (written statusBits old v) = clean v := by
  unfold clean written
  ext i hi
  simp
  cases old[i] <;> cases statusBits[i] <;> simp

theorem clean_report (old v : U32) : clean (written (~~~statusBits) old v) = clean old := by
  unfold clean written
  ext i hi
  simp
  cases v[i] <;> cases statusBits[i] <;> simp

/-- A change of the low word that does not depend on the status bits. -/
def Regular (f : U32 → U32) : Prop := ∀ v, clean (f (clean v)) = clean (f v)

theorem regular_or (c : U32) : Regular fun v => v ||| c := by
  intro v
  unfold clean
  ext i hi
  simp
  cases v[i] <;> cases statusBits[i] <;> simp

theorem regular_and (c : U32) : Regular fun v => v &&& c := by
  intro v
  unfold clean
  ext i hi
  simp
  cases v[i] <;> cases statusBits[i] <;> simp

theorem Regular.comp {f g : U32 → U32} (hf : Regular f) (hg : Regular g) : Regular fun v => f (g v) := by
  intro v
  rw [← hf (g (clean v)), hg v, hf (g v)]

theorem regular_withDeliveryMode (mode : U8) : Regular (withDeliveryMode mode) :=
  (regular_or (mode.setWidth 32 <<< 8)).comp (regular_and (~~~(0x700 : U32)))

theorem regular_withDestinationMode (logical : U8) : Regular (withDestinationMode logical) := by
  by_cases h : logical ≠ 0
  · have heq : withDestinationMode logical = fun v => v ||| 0x800 := by
      funext v
      exact if_pos h
    rw [heq]
    exact regular_or _
  · have heq : withDestinationMode logical = fun v => v &&& ~~~(0x800 : U32) := by
      funext v
      exact if_neg h
    rw [heq]
    exact regular_and _

theorem clean_and {c : U32} (hc : statusBits &&& c = 0) (v : U32) : clean v &&& c = v &&& c := by
  unfold clean
  ext i hi
  have hbit := congrArg (fun x : U32 => x.getLsbD i) hc
  simp [hi] at hbit
  simp
  cases v[i] <;> cases hs : statusBits[i] <;> simp_all

/-! ### The controllers -/

variable {s s' : State} {bus : Bus} {gsi g : U32} {pin q : U8} {i j : Fin 8} {entry : Entry} {a : Routes}
  {found : List Found}

/-- What the calls leave alone of a controller. -/
def Controller.fixed (c : Controller) : U32 × U8 × U8 × U32 :=
  (c.baseAddress, c.maxRedirectionEntries, c.enabled, c.gsiBase)

/-- There are tables of up to 24 entries, at addresses of their own. -/
structure Config (s : State) : Prop where
  le_eight : s.numIoapics.toNat ≤ 8
  max : ∀ i : Fin 8, i.val < s.numIoapics.toNat →
    1 ≤ (s.ioapics i).maxRedirectionEntries.toNat ∧ (s.ioapics i).maxRedirectionEntries.toNat ≤ 24
  base_inj : ∀ i j : Fin 8, i.val < s.numIoapics.toNat → j.val < s.numIoapics.toNat →
    (s.ioapics i).baseAddress = (s.ioapics j).baseAddress → i = j
  initialized : s.initialized ≠ 0
  outside : s.outside = []

/-- The interrupts of a controller are consecutive, and do not wrap. -/
theorem covers_iff {c : Controller} (h : 1 ≤ c.maxRedirectionEntries.toNat ∧ c.maxRedirectionEntries.toNat ≤ 24) :
    c.covers gsi = true →
      c.gsiBase.toNat ≤ gsi.toNat ∧ gsi.toNat < c.gsiBase.toNat + c.maxRedirectionEntries.toNat := by
  unfold Controller.covers
  rw [Bool.and_eq_true, decide_eq_true_iff, decide_eq_true_iff]
  rintro ⟨hlo, hhi⟩
  have hmax : (c.maxRedirectionEntries.setWidth 32).toNat = c.maxRedirectionEntries.toNat := by
    rw [BitVec.toNat_setWidth, Nat.mod_eq_of_lt (by omega)]
  bv_omega

/-- A number that is found. -/
structure Located (s : State) (gsi : U32) (i : Fin 8) (pin : U8) : Prop where
  lt : i.val < s.numIoapics.toNat
  pin_lt : pin.toNat < (s.ioapics i).maxRedirectionEntries.toNat
  gsi_eq : gsi.toNat = (s.ioapics i).gsiBase.toNat + pin.toNat

theorem located (hc : Config s) (h : ioapicFindControllerForGsi s gsi = some (i, pin)) : Located s gsi i pin := by
  obtain ⟨k, hk, heq⟩ := Option.map_eq_some_iff.mp h
  cases heq
  obtain ⟨hp, -⟩ := first_eq_some_iff.mp hk
  rw [Bool.and_eq_true, decide_eq_true_iff] at hp
  obtain ⟨hlo, hhi⟩ := covers_iff (hc.max i hp.1) hp.2
  have hmax := (hc.max i hp.1).2
  have hpin : ((gsi - (s.ioapics i).gsiBase).setWidth 8 : U8).toNat = gsi.toNat - (s.ioapics i).gsiBase.toNat := by
    rw [BitVec.toNat_setWidth, BitVec.toNat_sub]
    have := gsi.isLt
    omega
  exact ⟨hp.1, by omega, by omega⟩

/-- **A pin belongs to one interrupt.** -/
theorem find_inj (hc : Config s) (h : ioapicFindControllerForGsi s gsi = some (i, pin))
    (h' : ioapicFindControllerForGsi s g = some (i, pin)) : gsi = g :=
  BitVec.eq_of_toNat_eq ((located hc h).gsi_eq.trans (located hc h').gsi_eq.symm)

structure Same (s s' : State) : Prop where
  numIoapics : s'.numIoapics = s.numIoapics
  fixed : ∀ i, (s'.ioapics i).fixed = (s.ioapics i).fixed
  initialized : s'.initialized = s.initialized
  outside : s'.outside = s.outside

theorem Same.refl (s : State) : Same s s := ⟨rfl, fun _ => rfl, rfl, rfl⟩

theorem Same.base (h : Same s s') (i : Fin 8) : (s'.ioapics i).baseAddress = (s.ioapics i).baseAddress :=
  congrArg Prod.fst (h.fixed i)

theorem Same.max (h : Same s s') (i : Fin 8) :
    (s'.ioapics i).maxRedirectionEntries = (s.ioapics i).maxRedirectionEntries :=
  congrArg (fun x => x.2.1) (h.fixed i)

theorem Same.gsiBase (h : Same s s') (i : Fin 8) : (s'.ioapics i).gsiBase = (s.ioapics i).gsiBase :=
  congrArg (fun x => x.2.2.2) (h.fixed i)

theorem Same.config (h : Same s s') (hc : Config s) : Config s' := by
  refine ⟨?_, fun i hi => ?_, fun i j hi hj hb => ?_, h.initialized ▸ hc.initialized, h.outside.trans hc.outside⟩
  · rw [h.numIoapics]
    exact hc.le_eight
  · rw [h.max]
    exact hc.max i (h.numIoapics ▸ hi)
  · rw [h.base, h.base] at hb
    exact hc.base_inj i j (h.numIoapics ▸ hi) (h.numIoapics ▸ hj) hb

theorem Same.find (h : Same s s') (gsi : U32) :
    ioapicFindControllerForGsi s' gsi = ioapicFindControllerForGsi s gsi := by
  have hcovers : ∀ i, (s'.ioapics i).covers gsi = (s.ioapics i).covers gsi := fun i => by
    simp only [Controller.covers, h.gsiBase, h.max]
  simp only [ioapicFindControllerForGsi, hcovers, h.numIoapics, h.gsiBase]

/-! ### Storing an entry -/

/-- The entry of a pin in the device. -/
def State.hwEntry (s : State) (i : Fin 8) (pin : U8) : Entry := busEntry s.bus (s.ioapics i).baseAddress pin

theorem setCopy_eq (s : State) (i : Fin 8) (h : pin.toNat < 24) (entry : Entry) : s.setCopy i pin entry =
    { s with ioapics := Function.update s.ioapics i { s.ioapics i with
        redirectionTable := Function.update (s.ioapics i).redirectionTable ⟨pin.toNat, h⟩ entry } } := dif_pos h

theorem same_store (s : State) (i : Fin 8) (h : pin.toNat < 24) (entry : Entry) : Same s (s.store i pin entry) := by
  rw [State.store, setCopy_eq _ _ h]
  refine ⟨rfl, fun j => ?_, rfl, rfl⟩
  by_cases hj : j = i
  · subst hj
    simp [Controller.fixed]
  · simp [hj]

theorem copy_store (s : State) (i j : Fin 8) (h : pin.toNat < 24) (hq : q.toNat < 24) (entry : Entry) :
    (s.store i pin entry).copy j q = if j = i ∧ q = pin then entry else s.copy j q := by
  rw [State.store, setCopy_eq _ _ h, State.copy, dif_pos hq, State.copy, dif_pos hq]
  by_cases hj : j = i
  · subst hj
    by_cases hqp : q = pin
    · subst hqp
      simp
    · have hne : (⟨q.toNat, hq⟩ : Fin 24) ≠ ⟨pin.toNat, h⟩ := fun heq =>
        hqp (BitVec.eq_of_toNat_eq (Fin.mk.inj heq))
      simp [hqp, Function.update_of_ne hne]
  · simp [hj]

theorem hwEntry_store (s : State) (i j : Fin 8) (h : pin.toNat < 24) (hq : q.toNat < 24) (entry : Entry) :
    (s.store i pin entry).hwEntry j q =
      if (s.ioapics j).baseAddress = (s.ioapics i).baseAddress ∧ q = pin then
        ⟨written statusBits (busEntry s.bus (s.ioapics i).baseAddress pin).low entry.low, entry.high⟩
      else s.hwEntry j q := by
  rw [State.hwEntry, (same_store s i h entry).base j, State.store, setCopy_eq _ _ h]
  exact entry_writeEntry h hq

/-! ### The table in the devices -/

/-- A pin holds an entry, in the device and in the copy. -/
structure PinHolds (s : State) (i : Fin 8) (pin : U8) (e : Entry) : Prop where
  hw : (s.hwEntry i pin).clean = e
  copy : (s.copy i pin).clean = e

/-- The pins hold the table. -/
def Holds (s : State) (a : Routes) : Prop := ∀ gsi, match ioapicFindControllerForGsi s gsi with
  | none => a gsi = none
  | some (i, pin) => ∃ e, a gsi = some e ∧ PinHolds s i pin e

theorem Holds.eq_none (h : Holds s a) (hf : ioapicFindControllerForGsi s gsi = none) : a gsi = none := by
  have hg := h gsi
  rwa [hf] at hg

theorem Holds.exists_entry (h : Holds s a) (hf : ioapicFindControllerForGsi s gsi = some (i, pin)) :
    ∃ e, a gsi = some e ∧ PinHolds s i pin e := by
  have hg := h gsi
  rwa [hf] at hg

theorem Holds.of_clean (h : Holds s a) (bus : Bus) (hc : Config s)
    (hclean : ∀ b (q : U8), q.toNat < 24 → (busEntry bus b q).clean = (busEntry s.bus b q).clean) :
    Holds { s with bus := bus } a := by
  intro gsi
  have hfind : ioapicFindControllerForGsi { s with bus := bus } gsi = ioapicFindControllerForGsi s gsi := rfl
  rw [hfind]
  cases hf : ioapicFindControllerForGsi s gsi with
  | none => exact h.eq_none hf
  | some ip =>
      obtain ⟨i, pin⟩ := ip
      obtain ⟨e, ha, hp⟩ := h.exists_entry hf
      have hl := located hc hf
      have hpin : pin.toNat < 24 := Nat.lt_of_lt_of_le hl.pin_lt (hc.max i hl.lt).2
      exact ⟨e, ha, (hclean _ _ hpin).trans hp.hw, hp.copy⟩

/-- **Storing an entry changes one route.** -/
theorem Holds.store (h : Holds s a) (hc : Config s) (hf : ioapicFindControllerForGsi s gsi = some (i, pin))
    (entry : Entry) : Holds (s.store i pin entry) (Function.update a gsi (some entry.clean)) := by
  have hl := located hc hf
  have hpin : pin.toNat < 24 := Nat.lt_of_lt_of_le hl.pin_lt (hc.max i hl.lt).2
  intro g
  rw [(same_store s i hpin entry).find g]
  cases hg : ioapicFindControllerForGsi s g with
  | none =>
      have hne : g ≠ gsi := by
        rintro rfl
        rw [hf] at hg
        cases hg
      show Function.update a gsi (some entry.clean) g = none
      rw [Function.update_of_ne hne]
      exact h.eq_none hg
  | some jq =>
      obtain ⟨j, q⟩ := jq
      have hlj := located hc hg
      have hq : q.toNat < 24 := Nat.lt_of_lt_of_le hlj.pin_lt (hc.max j hlj.lt).2
      by_cases heq : g = gsi
      · subst heq
        cases hf.symm.trans hg
        refine ⟨entry.clean, Function.update_self _ _ _, ?_, ?_⟩
        · rw [hwEntry_store s i i hpin hpin, if_pos ⟨rfl, rfl⟩]
          simp only [Entry.clean, clean_written]
        · rw [copy_store s i i hpin hpin, if_pos ⟨rfl, rfl⟩]
      · have hother : ¬(j = i ∧ q = pin) := by
          rintro ⟨rfl, rfl⟩
          exact heq (find_inj hc hg hf)
        have hbase : ¬((s.ioapics j).baseAddress = (s.ioapics i).baseAddress ∧ q = pin) := fun hb =>
          hother ⟨hc.base_inj j i hlj.lt hl.lt hb.1, hb.2⟩
        obtain ⟨e, ha, hp⟩ := h.exists_entry hg
        refine ⟨e, (Function.update_of_ne heq _ _).trans ha, ?_, ?_⟩
        · rw [hwEntry_store s i j hpin hq, if_neg hbase]
          exact hp.hw
        · rw [copy_store s i j hpin hq, if_neg hother]
          exact hp.copy

/-! ### The calls -/

/-- The state and the table, with the same controllers. -/
structure Refines (s : State) (a : Routes) : Prop where
  config : Config s
  holds : Holds s a

/-- Nothing changes in a table without the interrupt. -/
theorem change_of_none {f : Entry → Entry} (h : a gsi = none) : a.change gsi f = a := by
  rw [Routes.change, h, Option.map_none, ← h, Function.update_eq_self]

theorem change_of_some {f : Entry → Entry} (h : a gsi = some entry) :
    a.change gsi f = Function.update a gsi (some (f entry).clean) := by
  rw [Routes.change, h, Option.map_some]

theorem Refines.store (h : Refines s a) (hf : ioapicFindControllerForGsi s gsi = some (i, pin)) (e : Entry) :
    Refines (s.store i pin e) (Function.update a gsi (some e.clean)) := by
  have hl := located h.config hf
  have hpin : pin.toNat < 24 := Nat.lt_of_lt_of_le hl.pin_lt (h.config.max i hl.lt).2
  exact ⟨(same_store s i hpin e).config h.config, h.holds.store h.config hf e⟩

theorem Refines.read (h : Refines s a) (base : U32) (pin : U8) :
    Refines { s with bus := (ioapicReadRedirectionEntry s.bus base pin).2 } a := by
  refine ⟨⟨h.config.le_eight, h.config.max, h.config.base_inj, h.config.initialized, h.config.outside⟩,
    h.holds.of_clean _ h.config fun b q _ => ?_⟩
  simp only [busEntry, (readEntry_eq s.bus base pin).2]

/-- **An entry is read, changed and written back.** -/
theorem refines_change (h : Refines s a) (gsi : U32) {f : U32 → U32} (hf : Regular f) :
    Refines (change f s gsi) (a.change gsi fun e => { e with low := f e.low }) := by
  unfold change
  rw [if_neg h.config.initialized]
  cases hfind : ioapicFindControllerForGsi s gsi with
  | none =>
      rw [change_of_none (h.holds.eq_none hfind)]
      exact h
  | some ip =>
      obtain ⟨i, pin⟩ := ip
      obtain ⟨e, ha, hp⟩ := h.holds.exists_entry hfind
      have hread := h.read (s.ioapics i).baseAddress pin
      have hstore := hread.store hfind { busEntry s.bus (s.ioapics i).baseAddress pin with
        low := f (busEntry s.bus (s.ioapics i).baseAddress pin).low }
      have hclean : ({ e with low := f e.low } : Entry).clean = ({ busEntry s.bus (s.ioapics i).baseAddress pin with
          low := f (busEntry s.bus (s.ioapics i).baseAddress pin).low } : Entry).clean := by
        rw [← hp.hw]
        exact congrArg (fun low => Entry.mk low _) (hf _)
      simp only [(readEntry_eq s.bus (s.ioapics i).baseAddress pin).1]
      rw [change_of_some ha, hclean]
      exact hstore

theorem refines_setIrq (h : Refines s a) (gsi : U32) (e : Setup) :
    Refines (ioapicSetIrq s gsi e) (a.change gsi fun _ => e.entry) := by
  unfold ioapicSetIrq
  rw [if_neg h.config.initialized]
  cases hfind : ioapicFindControllerForGsi s gsi with
  | none =>
      rw [change_of_none (h.holds.eq_none hfind)]
      exact h
  | some ip =>
      obtain ⟨i, pin⟩ := ip
      obtain ⟨old, ha, -⟩ := h.holds.exists_entry hfind
      rw [change_of_some ha]
      exact h.store hfind e.entry

theorem isIrqMasked_eq (h : Refines s a) (gsi : U32) :
    (ioapicIsIrqMasked s gsi).1 = (routeStep a (.isIrqMasked gsi)).1 ∧ Refines (ioapicIsIrqMasked s gsi).2 a := by
  unfold ioapicIsIrqMasked
  rw [if_neg h.config.initialized, routeStep]
  cases hfind : ioapicFindControllerForGsi s gsi with
  | none =>
      rw [h.holds.eq_none hfind]
      exact ⟨rfl, h⟩
  | some ip =>
      obtain ⟨i, pin⟩ := ip
      obtain ⟨e, ha, hp⟩ := h.holds.exists_entry hfind
      refine ⟨?_, h.read _ _⟩
      have hlow : e.low &&& ioapicMask = (busEntry s.bus (s.ioapics i).baseAddress pin).low &&& ioapicMask := by
        rw [← hp.hw]
        exact clean_and (by decide) _
      simp only [ha, Option.elim_some, hlow, (readEntry_eq s.bus (s.ioapics i).baseAddress pin).1]

theorem getVector_eq (h : Refines s a) (gsi : U32) : ioapicGetVector s gsi = (routeStep a (.getVector gsi)).1 := by
  unfold ioapicGetVector
  rw [if_neg h.config.initialized, routeStep]
  cases hfind : ioapicFindControllerForGsi s gsi with
  | none =>
      rw [h.holds.eq_none hfind]
      rfl
  | some ip =>
      obtain ⟨i, pin⟩ := ip
      obtain ⟨e, ha, hp⟩ := h.holds.exists_entry hfind
      have hlow : e.low &&& 0xFF = (s.copy i pin).low &&& 0xFF := by
        rw [← hp.copy]
        exact clean_and (by decide) _
      simp only [ha, Option.elim_some, hlow]

theorem getDestination_eq (h : Refines s a) (gsi : U32) :
    ioapicGetDestination s gsi = (routeStep a (.getDestination gsi)).1 := by
  unfold ioapicGetDestination
  rw [if_neg h.config.initialized, routeStep]
  cases hfind : ioapicFindControllerForGsi s gsi with
  | none =>
      rw [h.holds.eq_none hfind]
      rfl
  | some ip =>
      obtain ⟨i, pin⟩ := ip
      obtain ⟨e, ha, hp⟩ := h.holds.exists_entry hfind
      have hhigh : e.high = (s.copy i pin).high := by rw [← hp.copy]; rfl
      simp only [ha, Option.elim_some, hhigh]

theorem refines_status (h : Refines s a) (base : U32) (bits : U8 → U32) :
    Refines { s with bus := Function.update s.bus base ((s.bus base).report bits) } a := by
  refine ⟨⟨h.config.le_eight, h.config.max, h.config.base_inj, h.config.initialized, h.config.outside⟩,
    h.holds.of_clean _ h.config fun b q hq => ?_⟩
  by_cases hb : b = base
  · subst hb
    simp only [busEntry, Function.update_self, Chip.report, if_pos (even_lowReg hq), if_neg (odd_highReg hq),
      Entry.clean, clean_report]
  · simp only [busEntry, Function.update_of_ne hb]

/-- **One step.** -/
theorem refines_step (h : Refines s a) (op : Op) :
    (step s op).1 = (routeStep a op).1 ∧ Refines (step s op).2 (routeStep a op).2 := by
  cases op with
  | setIrq gsi e => exact ⟨rfl, refines_setIrq h gsi e⟩
  | maskIrq gsi => exact ⟨rfl, refines_change h gsi (regular_or _)⟩
  | unmaskIrq gsi => exact ⟨rfl, refines_change h gsi (regular_and _)⟩
  | setDeliveryMode gsi mode => exact ⟨rfl, refines_change h gsi (regular_withDeliveryMode mode)⟩
  | setDestinationMode gsi logical => exact ⟨rfl, refines_change h gsi (regular_withDestinationMode logical)⟩
  | isIrqMasked gsi => exact isIrqMasked_eq h gsi
  | getVector gsi => exact ⟨getVector_eq h gsi, h⟩
  | getDestination gsi => exact ⟨getDestination_eq h gsi, h⟩
  | status base bits => exact ⟨rfl, refines_status h base bits⟩

/-! ### The initialization -/

/-- A pin has the entry of the initialization. -/
def Initial (s : State) (i : Fin 8) (pin : U8) : Prop := PinHolds s i pin (maskedEntry pin).clean

theorem Initial.store (h : Initial s j q) (hq : q.toNat < 24) (i : Fin 8) (hpin : pin.toNat < 24) :
    Initial (s.store i pin (maskedEntry pin)) j q := by
  constructor
  · rw [hwEntry_store s i j hpin hq]
    split_ifs with heq
    · obtain ⟨-, rfl⟩ := heq
      simp only [Entry.clean, clean_written]
    · exact h.hw
  · rw [copy_store s i j hpin hq]
    split_ifs with heq
    · rw [heq.2]
    · exact h.copy

theorem initial_store (s : State) (i : Fin 8) (hpin : pin.toNat < 24) :
    Initial (s.store i pin (maskedEntry pin)) i pin := by
  constructor
  · rw [hwEntry_store s i i hpin hpin, if_pos ⟨rfl, rfl⟩]
    simp only [Entry.clean, clean_written]
  · rw [copy_store s i i hpin hpin, if_pos ⟨rfl, rfl⟩]

/-- The version register of a device, which no write changes. -/
def State.versionReg (s : State) (base : U32) : U32 := (s.bus base).regs 0x01

theorem versionReg_store (s : State) (i : Fin 8) (hpin : pin.toNat < 24) (entry : Entry) (b : U32) :
    (s.store i pin entry).versionReg b = s.versionReg b := by
  have hlow : (0x01 : U8) ≠ lowReg pin := (ne_of_le (even_lowReg hpin).1 (by decide)).symm
  have hhigh : (0x01 : U8) ≠ highReg pin := by
    refine (ne_of_le ?_ (by decide)).symm
    rw [toNat_highReg hpin]
    omega
  rw [State.store, setCopy_eq _ _ hpin]
  simp only [State.versionReg, ioapicWriteRedirectionEntry, regs_writeReg]
  split_ifs with hb
  · rw [Function.update_of_ne hhigh, Function.update_of_ne hlow, hb]
  · rfl

/-- The loop over the pins. -/
def fill (s : State) (i : Fin 8) (n : ℕ) : State :=
  (List.range n).foldl (fun s k => s.store i (BitVec.ofNat 8 k) (maskedEntry (BitVec.ofNat 8 k))) s

theorem fill_succ (s : State) (i : Fin 8) (n : ℕ) : fill s i (n + 1) =
    (fill s i n).store i (BitVec.ofNat 8 n) (maskedEntry (BitVec.ofNat 8 n)) := by
  rw [fill, List.range_succ, List.foldl_append]
  rfl

/-- What the loop leaves alone, and what it does. -/
structure Filled (s : State) (i : Fin 8) (n : ℕ) (s' : State) : Prop where
  same : Same s s'
  versionReg : ∀ b, s'.versionReg b = s.versionReg b
  initial : ∀ q : U8, q.toNat < n → Initial s' i q
  keeps : ∀ j (q : U8), q.toNat < 24 → Initial s j q → Initial s' j q

theorem filled (s : State) (i : Fin 8) {n : ℕ} (hn : n ≤ 24) : Filled s i n (fill s i n) := by
  induction n with
  | zero => exact ⟨Same.refl s, fun _ => rfl, fun q hq => absurd hq (Nat.not_lt_zero _), fun _ _ _ h => h⟩
  | succ n ih =>
      have h := ih (Nat.le_of_succ_le hn)
      have hnat : (BitVec.ofNat 8 n).toNat = n := by
        rw [BitVec.toNat_ofNat]
        omega
      have hpin : (BitVec.ofNat 8 n).toNat < 24 := hnat.symm ▸ hn
      have hstore := same_store (fill s i n) i hpin (maskedEntry (BitVec.ofNat 8 n))
      rw [fill_succ]
      refine ⟨⟨hstore.numIoapics.trans h.same.numIoapics, fun j => (hstore.fixed j).trans (h.same.fixed j),
        hstore.initialized.trans h.same.initialized, hstore.outside.trans h.same.outside⟩, fun b => ?_, fun q hq => ?_,
        fun j q hq hj => (h.keeps j q hq hj).store hq i hpin⟩
      · rw [versionReg_store _ _ hpin, h.versionReg]
      · rcases Nat.lt_succ_iff_lt_or_eq.mp hq with hlt | heq
        · exact (h.initial q hlt).store (hlt.trans (Nat.lt_of_succ_le hn)) i hpin
        · obtain rfl : q = BitVec.ofNat 8 n := BitVec.eq_of_toNat_eq (heq.trans hnat.symm)
          exact initial_store _ i hpin

/-- A controller that is enabled and has a table of up to 24 entries. -/
def Fits (s₀ : State) (j : Fin 8) : Prop :=
  (s₀.ioapics j).enabled ≠ 0 ∧ (maxEntries (s₀.versionReg (s₀.ioapics j).baseAddress)).toNat ≤ 24

/-- Some controllers have been initialized. -/
structure Progress (s₀ s : State) (done : Fin 8 → Prop) : Prop where
  numIoapics : s.numIoapics = s₀.numIoapics
  outside : s.outside = s₀.outside
  base : ∀ j, (s.ioapics j).baseAddress = (s₀.ioapics j).baseAddress
  enabled : ∀ j, (s.ioapics j).enabled = (s₀.ioapics j).enabled
  versionReg : ∀ b, s.versionReg b = s₀.versionReg b
  fits : ∀ j, done j → Fits s₀ j
  max : ∀ j, done j → (s.ioapics j).maxRedirectionEntries = maxEntries (s₀.versionReg (s₀.ioapics j).baseAddress)
  initial : ∀ j, done j → ∀ q : U8, q.toNat < (s.ioapics j).maxRedirectionEntries.toNat → Initial s j q

/-- The version has been read. -/
def opened (s : State) (i : Fin 8) : State :=
  { s with
    bus := select s.bus (s.ioapics i).baseAddress 0x01
    ioapics := Function.update s.ioapics i { s.ioapics i with
      version := (s.versionReg (s.ioapics i).baseAddress &&& 0xFF).setWidth 8
      maxRedirectionEntries := maxEntries (s.versionReg (s.ioapics i).baseAddress) } }

theorem initialize_eq (h : (s.ioapics i).enabled ≠ 0) : ioapicInitializeController s i =
    fill (opened s i) i (maxEntries (s.versionReg (s.ioapics i).baseAddress)).toNat := by
  rw [ioapicInitializeController, if_neg h]
  simp only [readReg_eq]
  rfl

theorem opened_ioapics (s : State) (i j : Fin 8) :
    ((opened s i).ioapics j).baseAddress = (s.ioapics j).baseAddress ∧
      ((opened s i).ioapics j).enabled = (s.ioapics j).enabled ∧
      ((opened s i).ioapics j).redirectionTable = (s.ioapics j).redirectionTable ∧
      ((opened s i).ioapics j).maxRedirectionEntries = if j = i then
        maxEntries (s.versionReg (s.ioapics i).baseAddress) else (s.ioapics j).maxRedirectionEntries := by
  by_cases hj : j = i
  · subst hj
    simp [opened]
  · simp [opened, hj]

theorem Initial.opened (h : Initial s j q) (i : Fin 8) : Initial (opened s i) j q := by
  obtain ⟨hbase, -, htable, -⟩ := opened_ioapics s i j
  constructor
  · rw [← h.hw]
    simp only [State.hwEntry, hbase, busEntry]
    simp only [IoApic.opened, regs_select]
  · rw [← h.copy]
    simp only [State.copy, htable]

theorem Progress.step {s₀ : State} {done : Fin 8 → Prop} (h : Progress s₀ s done) (hfit : Fits s₀ i) :
    Progress s₀ (ioapicInitializeController s i) fun j => done j ∨ j = i := by
  have hversion : s.versionReg (s.ioapics i).baseAddress = s₀.versionReg (s₀.ioapics i).baseAddress := by
    rw [h.base, h.versionReg]
  rw [initialize_eq (h.enabled i ▸ hfit.1)]
  have hf := filled (opened s i) i (hversion.symm ▸ hfit.2)
  have hmax : ∀ j, done j ∨ j = i →
      ((opened s i).ioapics j).maxRedirectionEntries = maxEntries (s₀.versionReg (s₀.ioapics j).baseAddress) := by
    intro j hj
    rw [(opened_ioapics s i j).2.2.2]
    split_ifs with heq
    · rw [heq, hversion]
    · exact h.max j (hj.resolve_right heq)
  refine ⟨hf.same.numIoapics.trans h.numIoapics, hf.same.outside.trans h.outside, fun j => ?_, fun j => ?_, fun b => ?_,
    fun j hj => hj.elim (h.fits j) fun heq => heq ▸ hfit, fun j hj => (hf.same.max j).trans (hmax j hj),
    fun j hj q hq => ?_⟩
  · rw [hf.same.base, (opened_ioapics s i j).1, h.base]
  · have henabled := congrArg (fun x => x.2.2.1) (hf.same.fixed j)
    exact henabled.trans ((opened_ioapics s i j).2.1.trans (h.enabled j))
  · rw [hf.versionReg, ← h.versionReg]
    simp only [State.versionReg, opened, regs_select]
  · rw [hf.same.max, hmax j hj] at hq
    rcases hj with hj | rfl
    · have hq' : q.toNat < (s.ioapics j).maxRedirectionEntries.toNat := by rwa [h.max j hj]
      exact hf.keeps j q (hq.trans_le (h.fits j hj).2) ((h.initial j hj q hq').opened i)
    · rw [← hversion] at hq
      exact hf.initial q hq

theorem Progress.foldl {s₀ : State} {l : List (Fin 8)} (hfit : ∀ i ∈ l, Fits s₀ i) {done : Fin 8 → Prop}
    (h : Progress s₀ s done) : Progress s₀ (l.foldl ioapicInitializeController s) fun j => done j ∨ j ∈ l := by
  induction l generalizing s done with
  | nil => simpa using h
  | cons i l ih =>
      have hstep := ih (fun k hk => hfit k (List.mem_cons_of_mem i hk)) (h.step (hfit i List.mem_cons_self))
      simpa [or_assoc] using hstep

/-- All interrupts are masked, with the vectors from 0x20 on. -/
def initialRoutes (s : State) : Routes := fun gsi =>
  (ioapicFindControllerForGsi s gsi).map fun ip => (maskedEntry ip.2).clean

/-- What the detection must have found: up to eight controllers, each at an address of its own, with tables of up to
24 entries. -/
structure Usable (bus : Bus) (found : List Found) : Prop where
  length_le : found.length ≤ 8
  base : (found.map Found.base).Nodup
  entries : ∀ f ∈ found, ((bus f.base).regs 0x01 >>> 16 &&& 0xFF).toNat < 24

theorem toNat_maxEntries {v : U32} (h : (v >>> 16 &&& 0xFF).toNat < 24) :
    1 ≤ (maxEntries v).toNat ∧ (maxEntries v).toNat ≤ 24 := by
  unfold maxEntries
  rw [BitVec.toNat_add, BitVec.toNat_setWidth]
  have hone : (1 : U8).toNat = 1 := rfl
  omega

theorem detected_ioapics {i : Fin 8} (hi : i.val < found.length) :
    ((detected bus found).ioapics i).baseAddress = found[i.val].base ∧
      ((detected bus found).ioapics i).enabled = 1 := by
  simp [detected, hi]

/-- **After `ioapic_init`** the pins hold the masked entries. -/
theorem refines_init (h : Usable bus found) :
    Refines (ioapicInit bus found) (initialRoutes (ioapicInit bus found)) := by
  have hnum : (detected bus found).numIoapics.toNat = found.length := by
    have hle := h.length_le
    show (BitVec.ofNat 8 found.length).toNat = _
    rw [BitVec.toNat_ofNat]
    omega
  have hentries : ∀ i : Fin 8, (hi : i.val < found.length) →
      (((detected bus found).versionReg ((detected bus found).ioapics i).baseAddress) >>> 16 &&& 0xFF).toNat < 24 := by
    intro i hi
    rw [(detected_ioapics hi).1]
    exact h.entries _ (List.getElem_mem hi)
  have hfit : ∀ i ∈ (List.finRange 8).filter fun i => decide (i.val < found.length), Fits (detected bus found) i := by
    intro i hi
    have hlt : i.val < found.length := of_decide_eq_true (List.mem_filter.mp hi).2
    refine ⟨?_, (toNat_maxEntries (hentries i hlt)).2⟩
    rw [(detected_ioapics hlt).2]
    decide
  have hstart : Progress (detected bus found) (detected bus found) fun _ => False :=
    ⟨rfl, rfl, fun _ => rfl, fun _ => rfl, fun _ => rfl, fun _ hf => hf.elim, fun _ hf => hf.elim, fun _ hf => hf.elim⟩
  have hp := hstart.foldl hfit
  have hdone : ∀ i : Fin 8, i.val < found.length →
      i ∈ (List.finRange 8).filter fun i => decide (i.val < found.length) :=
    fun i hi => List.mem_filter.mpr ⟨List.mem_finRange i, decide_eq_true hi⟩
  have hlt : ∀ i : Fin 8, i.val < (ioapicInit bus found).numIoapics.toNat → i.val < found.length := by
    intro i hi
    rwa [← hnum, ← hp.numIoapics]
  have hconfig : Config (ioapicInit bus found) := by
    refine ⟨?_, fun i hi => ?_, fun i j hi hj hb => ?_, (fun h0 : (1 : U8) = 0 => nomatch h0), hp.outside⟩
    · exact (congrArg BitVec.toNat hp.numIoapics).trans_le (hnum.trans_le h.length_le)
    · have hmax := hp.max i (Or.inr (hdone i (hlt i hi)))
      have hbounds := toNat_maxEntries (hentries i (hlt i hi))
      rwa [← hmax] at hbounds
    · have hbases := (hp.base i).symm.trans (hb.trans (hp.base j))
      rw [(detected_ioapics (hlt i hi)).1, (detected_ioapics (hlt j hj)).1] at hbases
      have hi' : i.val < (found.map Found.base).length := by simpa using hlt i hi
      have hj' : j.val < (found.map Found.base).length := by simpa using hlt j hj
      have hget : (found.map Found.base)[i.val] = (found.map Found.base)[j.val] := by
        rw [List.getElem_map, List.getElem_map, hbases]
      exact Fin.ext ((h.base.getElem_inj_iff).mp hget)
  refine ⟨hconfig, fun gsi => ?_⟩
  unfold initialRoutes
  cases hf : ioapicFindControllerForGsi (ioapicInit bus found) gsi with
  | none => rfl
  | some ip =>
      obtain ⟨i, pin⟩ := ip
      have hl := located hconfig hf
      have hinitial := hp.initial i (Or.inr (hdone i (hlt i hl.lt))) pin hl.pin_lt
      exact ⟨(maskedEntry pin).clean, rfl, hinitial.hw, hinitial.copy⟩

/-- **The driver is one table.** In every run of calls after `ioapic_init`, with the devices reporting what they like
in between, each call returns what it would return of the table of routes, and changes one route, if any; the
entries of the devices and the copies of the driver are at all times the routes, but for the status bits, and no copy
is written beyond its table. -/
theorem ioapic_refines {t : State} {es : List (Op × U8)} (h : Usable bus found)
    (hrun : Run (total step) (ioapicInit bus found) es t) :
    ∃ b, Run (total routeStep) (initialRoutes (ioapicInit bus found)) es b ∧ Holds t b ∧ t.outside = [] := by
  have hsim : ∀ s a op r s', Refines s a → total step s op = some (r, s') →
      ∃ a', total routeStep a op = some (r, a') ∧ Refines s' a' := by
    intro s a op r s' hs hstep
    obtain ⟨hret, hs'⟩ := refines_step hs op
    rw [total_eq_some.mp hstep] at hret hs'
    exact ⟨_, congrArg some (Prod.ext hret.symm rfl), hs'⟩
  obtain ⟨b, hb, hrefines⟩ := hrun.simulate Refines id hsim (refines_init h)
  rw [List.map_id] at hb
  exact ⟨b, hb, hrefines.holds, hrefines.config.outside⟩

/-- Two controllers with 24 entries each. -/
def twoFound : List Found := [⟨0xFEC00000, 8, 0⟩, ⟨0xFEC01000, 9, 24⟩]

def twoChips : Bus := fun _ => ⟨0, fun reg => if reg = 1 then 0x00170011 else 0⟩

theorem exists_twoRun : ∃ es t, es.map Prod.fst = [Op.setIrq 24 ⟨0x30, 0, 1, 1⟩,
    .status 0xFEC01000 fun _ => 0xFFFFFFFF, .maskIrq 24, .getVector 24] ∧
    Run (total step) (ioapicInit twoChips twoFound) es t ∧ True :=
  exists_run (fun _ => True) (fun _ _ _ => ⟨_, _, rfl, trivial⟩) trivial _

/-- The first interrupt of the second one is set up, and reported as pending by its device. -/
theorem ioapic_refines_two : ∃ es t, Run (total step) (ioapicInit twoChips twoFound) es t ∧ es ≠ [] ∧
    ∃ b, Run (total routeStep) (initialRoutes (ioapicInit twoChips twoFound)) es b ∧ Holds t b ∧ t.outside = [] := by
  have hentries : ((0x00170011 : U32) >>> 16 &&& 0xFF).toNat < 24 := by decide
  have husable : Usable twoChips twoFound := ⟨by decide, by decide, fun _ _ => hentries⟩
  obtain ⟨es, t, hops, h, -⟩ := exists_twoRun
  refine ⟨es, t, h, ?_, ioapic_refines husable h⟩
  rintro rfl
  cases hops

end BloodKernel.IoApic
