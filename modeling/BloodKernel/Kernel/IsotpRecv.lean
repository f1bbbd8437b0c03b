import BloodKernel.Kernel.Isotp

set_option autoImplicit false

/-!
# Which frames `isotp_recv` accepts

The length of a single frame stands in its first byte, and the number of bytes that the frame carried in
its `len`. `isotp_recv` reads the first one only.

* `declared`, `Genuine`: the length in the frame, and an accepted frame that carried what it declares;
* `isotpRecv_of_canRecv`: what `isotp_recv` does with a frame;
* **`accepts_genuine_iff`**: it accepts only genuine frames exactly when the first byte is at least 8 or
  less than the number of bytes carried.
-/

namespace BloodKernel

open Lib

/-- The length that a single frame declares. -/
def declared (f : CanFrame) : ℕ := (f.data 0 &&& 0x0F).toNat

/-- `f` is a single frame of at most 7 bytes that carried the bytes it declares, and all bytes handed to
the caller in `got` are bytes that it carried. -/
structure Genuine (f : CanFrame) (got : IsotpMsg) : Prop where
  single : f.data 0 >>> 4 = 0
  short : declared f ≤ 7
  covered : declared f + 1 ≤ f.len.toNat
  carried : ∀ i : Fin isotpMaxPayload, i.val < got.len.toNat → ∃ k : Fin 8, k.val = i + 1 ∧ k.val < f.len.toNat ∧
    got.data i = f.data k

/-- Every message that `isotp_recv` returns 0 with, out of a queue whose next frame is `f`, is genuine. -/
def AcceptsGenuine (rx : CanRx) (out : IsotpMsg) (f : CanFrame) : Prop :=
  ∀ got rx', isotpRecv rx out = some (0, got, rx') → Genuine f got

/-- The message of an accepted frame. -/
def acceptedMsg (out : IsotpMsg) (f : CanFrame) : IsotpMsg where
  id := f.id
  data := memcpy out.data 0 f.data 1 (f.data 0).toNat
  len := (f.data 0).setWidth 16

variable {rx rx' : CanRx} {out : IsotpMsg} {f : CanFrame}

theorem pci_checks (n : U8) : (n >>> 4 = 0 ∧ (n &&& 0x0F).toNat ≤ 7) ↔ n.toNat < 8 := by
  constructor
  · rintro ⟨htype, hlen⟩
    have hdiv : n.toNat / 16 = 0 := by
      have := congrArg BitVec.toNat htype
      rwa [BitVec.toNat_ushiftRight, Nat.shiftRight_eq_div_pow] at this
    have hmod : (n &&& 0x0F).toNat = n.toNat % 16 := by
      rw [BitVec.toNat_and]
      exact Nat.and_two_pow_sub_one_eq_mod n.toNat 4
    omega
  · intro h
    obtain ⟨htype, hmask⟩ := pci_fields (n := n) (by omega)
    exact ⟨htype, by rw [hmask]; omega⟩

theorem declared_of_lt (h : (f.data 0).toNat < 8) : declared f = (f.data 0).toNat := by
  rw [declared, (pci_fields (n := f.data 0) (by omega)).2]

/-- **One frame**: it is accepted if its first byte is at most 7. -/
theorem isotpRecv_of_canRecv (out : IsotpMsg) (h : canRecv rx noFrame = some (.ok, f, rx')) :
    isotpRecv rx out = if (f.data 0).toNat < 8 then some (0, acceptedMsg out f, rx')
      else some (1, out, rx') := by
  have hchecks := pci_checks (f.data 0)
  unfold isotpRecv
  rw [h]
  simp only [Option.bind_eq_bind, Option.bind_some]
  rw [if_neg (by decide)]
  by_cases h8 : (f.data 0).toNat < 8
  · obtain ⟨htype, hmask⟩ := pci_fields (n := f.data 0) (by omega)
    rw [if_pos htype, hmask, if_neg (by omega), if_pos h8]
    rfl
  · rw [if_neg h8]
    split_ifs with htype hlen
    · rfl
    · exact absurd (hchecks.mp ⟨htype, by omega⟩) h8
    · rfl

theorem canRecv_of_holds (rx : CanRx) {pad : Fin 3 → U8} {l : List Msg} (h : Holds rx.rxq (toMsg pad f :: l)) :
    ∃ rx', canRecv rx noFrame = some (.ok, f, rx') := by
  obtain ⟨q', hq, -⟩ := canRecv_cons h
  rw [ofMsg_toMsg] at hq
  exact ⟨_, hq⟩

theorem acceptedMsg_carried (h : (f.data 0).toNat < 8) (hlen : (f.data 0).toNat < f.len.toNat)
    (i : Fin isotpMaxPayload) (hi : i.val < (acceptedMsg out f).len.toNat) :
    ∃ k : Fin 8, k.val = i + 1 ∧ k.val < f.len.toNat ∧ (acceptedMsg out f).data i = f.data k := by
  have hi : i.val < (f.data 0).toNat := by
    rwa [acceptedMsg, BitVec.toNat_setWidth, Nat.mod_eq_of_lt (by omega)] at hi
  have hk : i.val + 1 < 8 := by omega
  refine ⟨⟨i + 1, hk⟩, rfl, by show i.val + 1 < _; omega, ?_⟩
  refine memcpy_of_lt ⟨i + 1, hk⟩ (Nat.zero_le _) (by omega) ?_
  show i.val + 1 = 1 + (i.val - 0)
  omega

/-- **When only genuine frames are accepted.** Let the next frame of the queue be one that was read from
the mailbox `m` of the bus. `isotp_recv` returns 0 only if it is a single frame that declares at most 7
bytes and at most those it carried after the first one, if and only if its first byte is at least 8 or
less than the number of bytes it carried. -/
theorem accepts_genuine_iff (rx : CanRx) (m : RxMailbox) (pad : Fin 3 → U8) (out : IsotpMsg) {l : List Msg}
    (h : Holds rx.rxq (toMsg pad (readFrame m) :: l)) : AcceptsGenuine rx out (readFrame m) ↔
      8 ≤ ((readFrame m).data 0).toNat ∨
        ((readFrame m).data 0).toNat < (readFrame m).len.toNat := by
  obtain ⟨rx', hrecv⟩ := canRecv_of_holds rx h
  have hout := isotpRecv_of_canRecv out hrecv
  by_cases h8 : ((readFrame m).data 0).toNat < 8
  · rw [if_pos h8] at hout
    have hdecl := declared_of_lt h8
    rw [or_iff_right (Nat.not_le.mpr h8)]
    constructor
    · intro hacc
      have := (hacc _ _ hout).covered
      omega
    · intro hlt got rx' hgot
      rw [hout] at hgot
      cases hgot
      exact ⟨((pci_checks _).mpr h8).1, by omega, by omega, acceptedMsg_carried h8 hlt⟩
  · rw [if_neg h8] at hout
    refine iff_of_true (fun got rx' hgot => ?_) (.inl (Nat.not_lt.mp h8))
    rw [hout] at hgot
    cases hgot

/-- A frame that carried its first byte only, which declares five more. -/
def bareMailbox : RxMailbox := ⟨0x7E0 <<< 21, 1, 5, 0⟩

theorem exists_holds_bare : ∃ q, Holds q [toMsg (fun _ => 0) (readFrame bareMailbox)] := by
  obtain ⟨q, -, hq⟩ := msgSend_room (m := toMsg (fun _ => 0) (readFrame bareMailbox))
    (holds_msgInit ⟨fun _ => ⟨fun _ => 0⟩, 0, 0, 0, 0⟩) (by decide)
  exact ⟨q, hq⟩

theorem accepts_genuine_iff_bare : ∃ q, Holds q [toMsg (fun _ => 0) (readFrame bareMailbox)] ∧
    (AcceptsGenuine ⟨q, .empty⟩ shortMsg (readFrame bareMailbox) ↔
      8 ≤ ((readFrame bareMailbox).data 0).toNat ∨
        ((readFrame bareMailbox).data 0).toNat < (readFrame bareMailbox).len.toNat) := by
  obtain ⟨q, hq⟩ := exists_holds_bare
  exact ⟨q, hq, accepts_genuine_iff ⟨q, .empty⟩ bareMailbox (fun _ => 0) shortMsg hq⟩

/-- The frame is accepted with five bytes. -/
theorem accepts_not_genuine : ¬ ∀ (rx : CanRx) (m : RxMailbox) (pad : Fin 3 → U8) (out : IsotpMsg)
    (l : List Msg), Holds rx.rxq (toMsg pad (readFrame m) :: l) →
    AcceptsGenuine rx out (readFrame m) := by
  intro hall
  obtain ⟨q, hq⟩ := exists_holds_bare
  obtain ⟨rx', hrecv⟩ := canRecv_of_holds ⟨q, .empty⟩ hq
  have hout := isotpRecv_of_canRecv shortMsg hrecv
  rw [if_pos (by decide)] at hout
  exact absurd (hall ⟨q, .empty⟩ _ _ shortMsg _ hq _ _ hout).covered (by decide)

end BloodKernel
