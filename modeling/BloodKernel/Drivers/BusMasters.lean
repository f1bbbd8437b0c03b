import BloodKernel.Drivers.Ac97
import BloodKernel.Drivers.Iommu
import BloodKernel.Drivers.Rtl8139Init
import BloodKernel.Drivers.Uhci

set_option autoImplicit false

/-!
# The addresses given to bus masters

The drivers of the RTL8139, the UHCI and the AC97 controllers and of the VT-d units write the addresses
that `paging_alloc_pages` returns to registers and descriptors, where the devices take them for physical
addresses.

* `Programs`: what the calls of the drivers program when their allocations succeed;
* `Programs.virtual`: the numbers are addresses of the heap;
* **`bases_never_physical`**: none of them is the physical address of its buffer, and the buffers of several
  pages are contiguous exactly when their frames were consecutive.
-/

namespace BloodKernel

open Lib Paging

/-- A call in state `s` has allocated all its buffers, and has programmed `p`. -/
inductive Programs (s : Paging.State) : Programmed → Prop
  | rtl8139Init {c chip ioBase irq c' s'} (hok : Rtl8139.rtl8139Init s c chip ioBase irq = (true, c', s')) :
      Programs s (c'.programmed s')
  | uhciInit {d ioBase irq d' s'} (hok : Uhci.uhciInit s d ioBase irq = (true, d', s'))
      (hlist : (d'.controllers d.count).frameList ≠ 0) (hqh : (d'.controllers d.count).controlQh ≠ 0) :
      Programs s ⟨s', (d'.controllers d.count).bases d'.ports, []⟩
  /-- A transfer on the controller of this call, which is `c` but for its pool. -/
  | uhciControlTransfer {d ioBase irq d' s' q h c'} {c : Uhci.Controller}
      (hok : Uhci.uhciInit s d ioBase irq = (true, d', s'))
      (hlist : (d'.controllers d.count).frameList ≠ 0) (hqh : (d'.controllers d.count).controlQh ≠ 0)
      (htransfer : Uhci.queueTransfer { c with tdPool := (d'.controllers d.count).tdPool } q = (some h, c')) :
      Programs s ⟨s', c'.links h, []⟩
  | ac97Init {c r codec nambar nabmbar irq c' r' s'}
      (hok : Ac97.ac97Init s c r codec nambar nabmbar irq = (true, c', r', s')) :
      Programs s (c'.programmed r' s')
  /-- A call without units programs nothing. -/
  | iommuInit {d gcmd d' s'} (hunits : 0 < d'.unitCount) (hok : Iommu.iommuInit s d gcmd = (d', s'))
      (htables : ∀ i < d'.unitCount, (d'.units i).rootTable ≠ 0) : Programs s ⟨s', d'.bases, []⟩
  | iommuCreateDomain {d domainId bus device function d' s' i}
      (hok : Iommu.iommuCreateDomain s d domainId bus device function = (true, d', s'))
      (hunit : d.findUnit bus = some i) :
      Programs s ⟨s', d'.tables i bus (Iommu.devfn device function) (!(d.rootEntry i bus).present), []⟩

variable {s : Paging.State} {p : Programmed}

/-- **The numbers are addresses of the heap.** -/
theorem Programs.virtual (h : Wf s) (hp : Programs s p) :
    Grown s p.paging ∧ p.bases ≠ [] ∧ ∀ b ∈ p.bases, b.Virtual p.paging := by
  cases hp with
  | rtl8139Init hok =>
      obtain ⟨hgrown, hbases⟩ := Rtl8139.init_virtual h hok
      exact ⟨hgrown, List.cons_ne_nil _ _, hbases⟩
  | uhciInit hok hlist hqh =>
      obtain ⟨hgrown, hbases, -⟩ := Uhci.init_virtual h hok hlist hqh
      exact ⟨hgrown, List.cons_ne_nil _ _, hbases⟩
  | uhciControlTransfer hok hlist hqh htransfer =>
      obtain ⟨hgrown, -, hpool⟩ := Uhci.init_virtual h hok hlist hqh
      exact ⟨hgrown, List.cons_ne_nil _ _, Uhci.transfer_virtual htransfer hpool⟩
  | ac97Init hok =>
      obtain ⟨hgrown, hbases⟩ := Ac97.init_virtual h hok
      exact ⟨hgrown, List.cons_ne_nil _ _, hbases⟩
  | @iommuInit _ _ d' _ hunits hok htables =>
      obtain ⟨hgrown, hbases⟩ := Iommu.init_virtual h hok htables
      refine ⟨hgrown, fun hnil => ?_, hbases⟩
      rw [Iommu.Driver.bases, List.map_eq_nil_iff, List.range_eq_nil] at hnil
      omega
  | iommuCreateDomain hok hunit =>
      obtain ⟨j, hj, hgrown, hbases⟩ := Iommu.domain_virtual h hok
      obtain rfl := Option.some_inj.mp (hunit.symm.trans hj)
      exact ⟨hgrown, List.append_ne_nil_of_right_ne_nil _ (List.cons_ne_nil _ _), hbases⟩

/-- **Never.** In the states reached while the bitmap fits into its frame and no frame of the structures is
freed, no number that a driver programs is the physical address of its buffer, and this stays so while
the buffer keeps its page. The receive ring and the audio buffer are contiguous exactly when the first
free frames are consecutive and no page table is allocated between them. -/
theorem bases_never_physical {mem : Words} {memorySize : U32} (hfit : memorySize.toNat / 4096 ≤ 32768)
    {es : List Event} {t : Paging.State} (h : Run (total step) (start mem memorySize) es t)
    (ha : Along (total step) (Permits Spares fun _ _ => True) (start mem memorySize) es) :
    (∀ p, Programs t p → ¬ p.Physical ∧ ∀ b ∈ p.bases, ∀ t' : Paging.State,
      entryOf t' b.buffer = entryOf p.paging b.buffer → ¬ b.Right t') ∧
    (∀ c chip ioBase irq c' s', Rtl8139.rtl8139Init t c chip ioBase irq = (true, c', s') →
      (Contiguous s' c'.dev.rxBuffer 2 ↔ Consecutive t 2)) ∧
    ∀ c r codec nambar nabmbar irq c' r' s', Ac97.ac97Init t c r codec nambar nabmbar irq = (true, c', r', s') →
      (Contiguous s' c'.audioBuffer 4 ↔ Consecutive (pagingAllocPages (pagingAllocPages t 1).2 1).2 4) := by
  have hwf := wf_run hfit h ha
  refine ⟨fun p hp => ?_, fun _ _ _ _ _ _ hok => Rtl8139.ring_contiguous_iff hwf hok,
    fun _ _ _ _ _ _ _ _ _ hok => Ac97.audio_contiguous_iff hwf hok⟩
  obtain ⟨-, hnil, hbases⟩ := hp.virtual hwf
  exact ⟨p.not_physical hnil hbases, fun b hb t' he => ((hbases b hb).of_entry he).not_right⟩

/-- The receive ring after `paging_init` with 8 MB of memory. -/
theorem ring_not_physical : ∃ c' s',
    Rtl8139.rtl8139Init (start (fun _ => 0) 0x800000) .boot ⟨0, fun _ => 0⟩ 0xC000 11 = (true, c', s') ∧
      ¬ (c'.programmed s').Physical ∧
      (Contiguous s' c'.dev.rxBuffer 2 ↔ Consecutive (start (fun _ => 0) 0x800000) 2) := by
  have hroom : Room (start (fun _ => 0) 0x800000) 0 1021 := room_start (by decide)
  obtain ⟨c', s', hok⟩ : ∃ c' s', Rtl8139.rtl8139Init (start (fun _ => 0) 0x800000) .boot ⟨0, fun _ => 0⟩
      0xC000 11 = (true, c', s') := Rtl8139.init_of_room rfl hroom (by decide) (by decide)
  obtain ⟨hbases, hring, -⟩ := bases_never_physical (by decide) (.nil (start (fun _ => 0) 0x800000))
    (along_nil _ _)
  exact ⟨c', s', hok, (hbases _ (.rtl8139Init hok)).1, hring _ _ _ _ _ _ hok⟩

/-- The ring starts at 0xD0000000, which is what the controller gets, and the page tables map its first page
to 0x403000. The page table of the heap takes the next frame, so the second page is not behind the first. -/
theorem ring_at_frame : ∃ c' s',
    Rtl8139.rtl8139Init (start (fun _ => 0) 0x800000) .boot ⟨0, fun _ => 0⟩ 0xC000 11 = (true, c', s') ∧
      c'.ports (c'.dev.ioBase + Rtl8139.rbstart) = 0xD0000000 ∧ c'.dev.rxBuffer = 0xD0000000 ∧
      pagingGetPhysicalAddr s' 0xD0000000 = 0x403000 ∧ ¬ Contiguous s' 0xD0000000 2 ∧
      ¬ (c'.programmed s').Physical := by
  have hfit : (bitmapWords 0x800000).toNat ≤ 1024 := by decide
  have hroom : Room (start (fun _ => 0) 0x800000) 0 1021 := room_start hfit
  obtain ⟨c', s', hok⟩ : ∃ c' s', Rtl8139.rtl8139Init (start (fun _ => 0) 0x800000) .boot ⟨0, fun _ => 0⟩
      0xC000 11 = (true, c', s') := Rtl8139.init_of_room rfl hroom (by decide) (by decide)
  have hfirst : FirstRange (start (fun _ => 0) 0x800000) 2 0 := firstRange_start hfit (by decide)
  obtain ⟨t, ha, hne, hfree, hgrown, hport⟩ := Rtl8139.init_ring hroom.wf hok
  have hrx : c'.dev.rxBuffer = 0xD0000000 := by
    obtain ⟨i, hi, hv, -⟩ := hroom.wf.alloc_looped (show (2 : U32).toNat = 1 + 1 by decide) ha hne
    rw [hv, ← hfirst.unique hi]
    decide
  have hring := Rtl8139.ring_contiguous_iff hroom.wf hok
  obtain ⟨-, hbases⟩ := Rtl8139.init_virtual hroom.wf hok
  rw [hrx] at ha hne hport hring
  refine ⟨c', s', hok, hport, hrx, ?_, fun hcont => ?_, Programmed.not_physical (List.cons_ne_nil _ _) hbases⟩
  · rw [hroom.wf.get_first (by decide) ha hne hfree hgrown ((free_start hfit).mpr ⟨by decide, le_rfl⟩)
      fun q hq hf => Nat.not_le.mpr hq ((free_start hfit).mp hf).2]
    decide
  · have htables := (hfirst.forall_iff _).mp (hring.mp hcont)
    exact no_table_start hfit (by decide) (by decide) (htables.1 0 (by decide))

end BloodKernel
