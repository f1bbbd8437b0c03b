import BloodKernel.Drivers.DmaBases

set_option autoImplicit false

/-!
# Initializing the AC97 controller

`ac97_init` of `drivers/ac97.c`. The mixer and the bus master have registers of their own, at offsets from
`nambar` and `nabmbar`. The waits for the codec are left out.

* `Controller`: the static data, with the descriptors at `bdl_out`; `Regs`: the registers;
* `ac97Init`; **`init_virtual`**: it gives the bus master the addresses of its buffers as they are;
* **`audio_contiguous_iff`**: when the four pages of the audio buffer are contiguous.
-/

namespace BloodKernel.Ac97

open Paging

/-- `ac97_buffer_desc_t`. -/
structure Desc where
  bufferPtr : U32
  length : U16
  flags : U16

/-- `ac97_controller_t`, and the descriptors at `bdl_out`. -/
structure Controller where
  nambar : U16
  nabmbar : U16
  irq : U8
  bdlOut : U32
  bdlIn : U32
  audioBuffer : U32
  bufferSize : U16
  initialized : Bool
  descs : ℕ → Desc

/-- The values last written to the mixer and to the bus master. -/
structure Regs where
  mixer : U16 → U16
  master : U16 → U32

/-- What the codec answers: `AC97_VENDOR_ID1` and `AC97_EXTENDED_AUDIO_ID`. -/
structure Codec where
  vendorId : U16
  extAudio : U16

/-- `ICH_PCM_OUT_BDBAR` -/
def bdbar : U16 := 0x10

def ac97CodecWrite (r : Regs) (reg value : U16) : Regs :=
  { r with mixer := Function.update r.mixer reg value }

def Regs.outl (r : Regs) (reg : U16) (value : U32) : Regs :=
  { r with master := Function.update r.master reg value }

def ac97ResetController (r : Regs) : Regs := (r.outl 0x2C 0x02).outl 0x2C 0x00

/-- The descriptors of the audio buffer, with `BDL_IOC`. -/
def Controller.setDescs (c : Controller) : Controller :=
  { c with
    bufferSize := 16384
    descs := fun i => if i < 32 then ⟨c.audioBuffer + BitVec.ofNat 32 (i * 512), 256, 0x8000⟩ else c.descs i }

/-- The volumes, the power and the sample rate. -/
def configure (r : Regs) (codec : Codec) : Regs :=
  let r := ac97CodecWrite (ac97CodecWrite (ac97CodecWrite r 0x02 0x0000) 0x18 0x0808) 0x26 0x0000
  if codec.extAudio &&& 0x01 ≠ 0 then ac97CodecWrite (ac97CodecWrite r 0x2A 0x01) 0x2C 44100 else r

def ac97Init (s : Paging.State) (c : Controller) (r : Regs) (codec : Codec) (nambar nabmbar : U16)
    (irq : U8) : Bool × Controller × Regs × Paging.State :=
  let c := { c with nambar := nambar, nabmbar := nabmbar, irq := irq }
  let r := ac97CodecWrite (ac97ResetController r) 0x00 0
  if codec.vendorId = 0x0000 ∨ codec.vendorId = 0xFFFF then (false, c, r, s)
  else
    let out := pagingAllocPages s 1
    let inp := pagingAllocPages out.2 1
    let audio := pagingAllocPages inp.2 4
    let c := { c with bdlOut := out.1, bdlIn := inp.1, audioBuffer := audio.1 }
    if out.1 = 0 ∨ inp.1 = 0 ∨ audio.1 = 0 then (false, c, r, audio.2)
    else
      let c := c.setDescs
      let r := configure (r.outl bdbar c.bdlOut) codec
      (true, { c with initialized := true }, r, audio.2)

/-- The base of the descriptors, and the pointers in them. -/
def Controller.bases (c : Controller) (r : Regs) : List Base :=
  ⟨c.bdlOut, (r.master bdbar).setWidth 64⟩ :: (List.range 32).map fun i =>
    ⟨c.audioBuffer + BitVec.ofNat 32 (i * 512), (c.descs i).bufferPtr.setWidth 64⟩

/-- What is programmed. The audio buffer has four pages. -/
def Controller.programmed (c : Controller) (r : Regs) (s : Paging.State) : Programmed :=
  ⟨s, c.bases r, [(c.audioBuffer, 4)]⟩

variable {s s' : Paging.State} {c c' : Controller} {r r' : Regs} {codec : Codec} {nambar nabmbar : U16}
  {irq : U8}

theorem outl_master (r : Regs) (reg : U16) (value : U32) : (r.outl reg value).master reg = value := by
  simp [Regs.outl]

theorem configure_master (r : Regs) (codec : Codec) : (configure r codec).master = r.master := by
  unfold configure ac97CodecWrite
  split_ifs <;> rfl

theorem init_cases (hok : ac97Init s c r codec nambar nabmbar irq = (true, c', r', s')) :
    ∃ out t inp u audio, pagingAllocPages s 1 = (out, t) ∧ out ≠ 0 ∧ pagingAllocPages t 1 = (inp, u) ∧
      inp ≠ 0 ∧ pagingAllocPages u 4 = (audio, s') ∧ audio ≠ 0 ∧ c'.bdlOut = out ∧ c'.audioBuffer = audio ∧
      (∀ i < 32, (c'.descs i).bufferPtr = audio + BitVec.ofNat 32 (i * 512)) ∧ r'.master bdbar = out := by
  unfold ac97Init at hok
  generalize ha : pagingAllocPages s 1 = a at hok
  obtain ⟨out, t⟩ := a
  simp only at hok
  generalize hb : pagingAllocPages t 1 = b at hok
  obtain ⟨inp, u⟩ := b
  simp only at hok
  generalize hd : pagingAllocPages u 4 = d at hok
  obtain ⟨audio, w⟩ := d
  simp only at hok
  split_ifs at hok with hvendor hnull
  · cases congrArg Prod.fst hok
  · cases congrArg Prod.fst hok
  · push Not at hnull
    obtain ⟨-, hrest⟩ := Prod.mk.inj hok
    obtain ⟨rfl, hlast⟩ := Prod.mk.inj hrest
    obtain ⟨rfl, rfl⟩ := Prod.mk.inj hlast
    refine ⟨out, t, inp, u, audio, rfl, hnull.1, hb, hnull.2.1, hd, hnull.2.2, rfl, rfl, fun i hi => ?_, ?_⟩
    · show (if i < 32 then _ else _ : Desc).bufferPtr = _
      rw [if_pos hi]
    · rw [configure_master]
      exact outl_master _ _ _

/-- **The bus master gets the driver's addresses.** -/
theorem init_virtual (h : Wf s) (hok : ac97Init s c r codec nambar nabmbar irq = (true, c', r', s')) :
    Grown s s' ∧ ∀ b ∈ c'.bases r', b.Virtual s' := by
  obtain ⟨out, t, inp, u, audio, ha, hout, hb, hinp, hd, haudio, hbdl, hbuf, hdescs, hbase⟩ := init_cases hok
  have hgrown₁ : Grown s t := (h.grown_alloc (by decide) ha hout).1
  have hgrown₂ : Grown t u := (hgrown₁.wf.grown_alloc (by decide) hb hinp).1
  obtain ⟨hgrown₃, hremote⟩ := hgrown₂.wf.grown_alloc (by decide) hd haudio
  have hout' : Remote s' out := (h.remote_alloc (by decide) ha hout).grown (hgrown₂.trans hgrown₃)
  refine ⟨(hgrown₁.trans hgrown₂).trans hgrown₃, fun b hb => ?_⟩
  rcases List.mem_cons.mp hb with rfl | hb
  · rw [hbase, hbdl]
    exact .self hout'
  · obtain ⟨i, hi, rfl⟩ := List.mem_map.mp hb
    have hi := List.mem_range.mp hi
    rw [hdescs i hi, hbuf]
    have hlt : i * 512 < (4 : U32).toNat * 4096 := by
      have hfour : (4 : U32).toNat = 4 := rfl
      omega
    exact .self (hremote _ hlt)

/-- **The audio buffer** is allocated after the two pages for descriptors. -/
theorem audio_contiguous_iff (h : Wf s) (hok : ac97Init s c r codec nambar nabmbar irq = (true, c', r', s')) :
    Contiguous s' c'.audioBuffer 4 ↔ Consecutive (pagingAllocPages (pagingAllocPages s 1).2 1).2 4 := by
  obtain ⟨out, t, inp, u, audio, ha, hout, hb, hinp, hd, haudio, -, hbuf, -, -⟩ := init_cases hok
  have hgrown₁ : Grown s t := (h.grown_alloc (by decide) ha hout).1
  have hgrown₂ : Grown t u := (hgrown₁.wf.grown_alloc (by decide) hb hinp).1
  rw [ha, hb, hbuf]
  exact hgrown₂.wf.contiguous_iff (by decide) hd haudio

end BloodKernel.Ac97
