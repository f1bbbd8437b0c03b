import BloodKernel.Kernel.Elf
import Mathlib.Data.List.GetD

set_option autoImplicit false

/-!
# The scan for modules

`loader_add_module` and `loader_scan` of `src/kernel/main.c` over the byte memory of the ELF loader.

* `loaderAddModule`, `loaderScan`: the functions; `registered`: the modules in the table;
* `Holds`, `registered_loaderScan`: the scan registers the first modules whose word is `0x7F454C46`;
* **`registers_images_iff`**: these are the first images that `elf_load` accepts by their magic exactly when the area
  holds neither the bytes of the magic nor these bytes in reverse at the start of a page.
-/

namespace BloodKernel.Loader

open Lib Elf

/-- `MAX_MODULES` -/
def maxModules : ℕ := 8

/-- `module_t` -/
structure Module where
  addr : U32
  size : U32
  name : Fin 32 → U8

/-- The static data: the table and its count. -/
structure State where
  modules : Fin maxModules → Module
  moduleCount : U32

/-- A slot that has not been written. -/
def noModule : Module := ⟨0, 0, fun _ => 0⟩

def boot : State := ⟨fun _ => noModule, 0⟩

/-- Copy at most `n` bytes of a string, and fill up with zeros. -/
def strncpy (dst : Fin 32 → U8) (src : List U8) (n : ℕ) : Fin 32 → U8 := fun k =>
  if (k : ℕ) < n then src.getD k 0 else dst k

def loaderAddModule (s : State) (addr size : U32) (name : List U8) : State :=
  if h : s.moduleCount.toNat < maxModules then
    let slot : Fin maxModules := ⟨s.moduleCount.toNat, h⟩
    { modules := Function.update s.modules slot ⟨addr, size, strncpy (s.modules slot).name name 31⟩
      moduleCount := s.moduleCount + 1 }
  else s

/-- `"user_task"` -/
def userTask : List U8 := "user_task".toList.map fun c => BitVec.ofNat 8 c.toNat

/-- The addresses of the loop, in its order. -/
def scanned : List U32 := (List.range 128).map fun k => 0x08080000 + 0x1000 * BitVec.ofNat 32 k

/-- The body of the loop. -/
def scanOne (m : Mem) (s : State) (addr : U32) : State :=
  if load32 m addr = 0x7F454C46 then loaderAddModule s addr 0x2000 userTask else s

def loaderScan (m : Mem) (s : State) : State := scanned.foldl (scanOne m) s

/-- The modules in the table, in order. -/
def registered (s : State) : List Module := (List.ofFn s.modules).take s.moduleCount.toNat

/-- The magic check of `elf_load`. -/
def IsElf (m : Mem) (a : U32) : Prop := memcmp m a magic = false

/-- The check of the scan. -/
def IsWord (m : Mem) (a : U32) : Prop := load32 m a = 0x7F454C46

instance decidableIsElf (m : Mem) (a : U32) : Decidable (IsElf m a) :=
  inferInstanceAs (Decidable (_ = _))

instance decidableIsWord (m : Mem) (a : U32) : Decidable (IsWord m a) :=
  inferInstanceAs (Decidable (_ = _))

/-- The bytes of the magic in reverse. -/
def IsReversed (m : Mem) (a : U32) : Prop := memcmp m a magic.reverse = false

/-- What the scan should register: the first addresses that pass the magic check of `elf_load`. -/
def expected (m : Mem) : List U32 := (scanned.filter (IsElf m ·)).take maxModules

/-- The module that the scan registers at an address. -/
def moduleAt (addr : U32) : Module := ⟨addr, 0x2000, strncpy noModule.name userTask 31⟩

theorem toNat_page {k : ℕ} (hk : k < 128) :
    (0x08080000 + 0x1000 * BitVec.ofNat 32 k : U32).toNat = 0x08080000 + 0x1000 * k := by
  have hbase : (0x08080000 : U32).toNat = 0x08080000 := rfl
  have hstep : (0x1000 : U32).toNat = 0x1000 := rfl
  rw [BitVec.toNat_add, BitVec.toNat_mul, BitVec.toNat_ofNat, hbase, hstep]
  omega

/-- The addresses of the loop are those at the start of a page of the area. -/
theorem mem_scanned {a : U32} : a ∈ scanned ↔
    0x08080000 ≤ a.toNat ∧ a.toNat < 0x08100000 ∧ a.toNat % 0x1000 = 0 := by
  unfold scanned
  rw [List.mem_map]
  constructor
  · rintro ⟨k, hk, rfl⟩
    have hk' := List.mem_range.mp hk
    rw [toNat_page hk']
    omega
  · rintro ⟨hlo, hhi, hal⟩
    refine ⟨(a.toNat - 0x08080000) / 0x1000, List.mem_range.mpr (by omega), ?_⟩
    apply BitVec.eq_of_toNat_eq
    rw [toNat_page (by omega)]
    omega

theorem scanned_increasing : scanned.Pairwise (· < ·) := by
  unfold scanned
  rw [List.pairwise_map]
  refine List.pairwise_lt_range.imp_of_mem fun {i j} hi hj hlt => ?_
  rw [BitVec.lt_def, toNat_page (List.mem_range.mp hi), toNat_page (List.mem_range.mp hj)]
  omega

/-! ### The table -/

/-- The table holds the modules `l`, and its other slots are empty. -/
structure Holds (s : State) (l : List Module) : Prop where
  count : s.moduleCount.toNat = l.length
  le : l.length ≤ maxModules
  slot : ∀ i : Fin maxModules, s.modules i = l.getD i noModule

variable {s : State} {l : List Module} {m : Mem}

theorem holds_boot : Holds boot [] where
  count := rfl
  le := Nat.zero_le _
  slot _ := rfl

theorem Holds.registered_eq (h : Holds s l) : registered s = l := by
  have hle := h.le
  unfold registered
  rw [h.count]
  apply List.ext_getElem
  · rw [List.length_take, List.length_ofFn]
    omega
  · intro i hi hi'
    rw [List.getElem_take, List.getElem_ofFn, h.slot]
    exact List.getD_eq_getElem l noModule hi'

theorem Holds.add (h : Holds s l) (hroom : l.length < maxModules) (a : U32) :
    Holds (loaderAddModule s a 0x2000 userTask) (l ++ [moduleAt a]) := by
  have hcount := h.count
  have hlen : (l ++ [moduleAt a]).length = l.length + 1 := List.length_append
  have hlt : s.moduleCount.toNat < maxModules := hcount ▸ hroom
  have hfree : s.modules ⟨s.moduleCount.toNat, hlt⟩ = noModule := by
    rw [h.slot, List.getD_eq_default]
    exact hcount.ge
  unfold loaderAddModule
  rw [dif_pos hlt]
  constructor
  · have := s.moduleCount.isLt
    show (s.moduleCount + 1).toNat = _
    have hone : (1 : U32).toNat = 1 := rfl
    have hmax : maxModules = 8 := rfl
    rw [BitVec.toNat_add, hlen, hone]
    omega
  · exact hlen ▸ hroom
  · intro i
    show Function.update s.modules _ _ i = _
    by_cases hi : i = ⟨s.moduleCount.toNat, hlt⟩
    · rw [hi, Function.update_self, hfree]
      show _ = (l ++ [moduleAt a]).getD s.moduleCount.toNat noModule
      rw [hcount, List.getD_append_right _ _ _ _ le_rfl, Nat.sub_self]
      rfl
    · have hne : (i : ℕ) ≠ l.length := fun he => hi (Fin.ext (he.trans hcount.symm))
      rw [Function.update_of_ne hi, h.slot]
      rcases Nat.lt_or_ge i l.length with hlt | hge
      · exact (List.getD_append _ _ _ _ hlt).symm
      · rw [List.getD_eq_default _ _ hge, List.getD_eq_default _ _ (by omega)]

theorem Holds.full (h : Holds s l) (hfull : l.length = maxModules) (a : U32) :
    loaderAddModule s a 0x2000 userTask = s :=
  dif_neg (by rw [h.count, hfull]; exact Nat.lt_irrefl _)

theorem Holds.scan (h : Holds s l) (as : List U32) : Holds (as.foldl (scanOne m) s)
    (l ++ ((as.filter (IsWord m ·)).take (maxModules - l.length)).map moduleAt) := by
  induction as generalizing s l with
  | nil => simpa using h
  | cons a as ih =>
      rw [List.foldl_cons, scanOne]
      by_cases hw : IsWord m a
      · have hw' : load32 m a = 0x7F454C46 := hw
        rw [if_pos hw', List.filter_cons_of_pos (by simpa using hw)]
        rcases Nat.lt_or_eq_of_le h.le with hroom | hfull
        · have hlen : (l ++ [moduleAt a]).length = l.length + 1 := List.length_append
          have hleft : maxModules - l.length = maxModules - (l.length + 1) + 1 := by omega
          have hrest := ih (h.add hroom a)
          rw [hlen, List.append_assoc] at hrest
          rw [hleft, List.take_succ_cons, List.map_cons]
          exact hrest
        · have hrest := ih h
          rw [hfull, Nat.sub_self, List.take_zero] at hrest ⊢
          rwa [h.full hfull a]
      · have hw' : ¬ load32 m a = 0x7F454C46 := hw
        rw [if_neg hw', List.filter_cons_of_neg (by simpa using hw)]
        exact ih h

/-- **The scan** registers the first addresses whose word is `0x7F454C46`. -/
theorem registered_loaderScan (m : Mem) : registered (loaderScan m boot) =
    ((scanned.filter (IsWord m ·)).take maxModules).map moduleAt :=
  (holds_boot.scan scanned).registered_eq

/-! ### The two checks -/

theorem isWord_iff {a : U32} : IsWord m a ↔ IsReversed m a := by
  have hfour : ∀ k : ℕ, k < 4 ↔ k = 0 ∨ k = 1 ∨ k = 2 ∨ k = 3 := by omega
  have hrev : magic.reverse = [leByte 0x7F454C46 0, leByte 0x7F454C46 1, leByte 0x7F454C46 2,
    leByte 0x7F454C46 3] := rfl
  unfold IsWord IsReversed load32
  rw [hrev, memcmp_four, leWord_eq_iff]
  simp [hfour]

theorem IsElf.not_isReversed {a : U32} (h : IsElf m a) : ¬ IsReversed m a := by
  intro h'
  have hfirst : (0x7F : U8) = 0x46 := (memcmp_four.mp h).1.symm.trans (memcmp_four.mp h').1
  exact absurd hfirst (by decide)

/-- Two disjoint lists have a common beginning only if both are empty. -/
theorem nil_of_take_eq {α : Type} {n : ℕ} (hn : 0 < n) {as bs : List α}
    (h : as.take n = bs.take n) (hd : ∀ a ∈ as, a ∉ bs) : as = [] ∧ bs = [] := by
  obtain ⟨n, rfl⟩ : ∃ k, n = k + 1 := ⟨n - 1, by omega⟩
  cases as with
  | nil =>
      cases bs with
      | nil => exact ⟨rfl, rfl⟩
      | cons b bs => simp at h
  | cons a as =>
      cases bs with
      | nil => simp at h
      | cons b bs =>
          rw [List.take_succ_cons, List.take_succ_cons, List.cons.injEq] at h
          exact absurd (h.1 ▸ List.mem_cons_self) (hd a List.mem_cons_self)

theorem addr_registered (m : Mem) : (registered (loaderScan m boot)).map Module.addr =
    (scanned.filter (IsWord m ·)).take maxModules := by
  rw [registered_loaderScan, List.map_map]
  exact List.map_id _

/-- The scan registers the images only if it registers nothing and there are none. -/
theorem none_of_expected (h : (registered (loaderScan m boot)).map Module.addr = expected m) :
    ∀ a ∈ scanned, ¬ IsElf m a ∧ ¬ IsReversed m a := by
  rw [addr_registered] at h
  obtain ⟨hw, he⟩ := nil_of_take_eq (by decide) h fun a ha ha' => by
    have hword : IsWord m a := by simpa using (List.mem_filter.mp ha).2
    have hel : IsElf m a := by simpa using (List.mem_filter.mp ha').2
    exact hel.not_isReversed (isWord_iff.mp hword)
  intro a ha
  rw [List.filter_eq_nil_iff] at hw he
  exact ⟨by simpa using he a ha, by simpa [isWord_iff] using hw a ha⟩

/-- **When the scan finds the images.** Whatever the area contains, the addresses registered are the first
ones that pass the magic check of `elf_load`, in order, if and only if no page of the area starts
with the bytes of the magic, nor with these bytes in reverse. -/
theorem registers_images_iff (m : Mem) : (registered (loaderScan m boot)).map Module.addr = expected m ↔
    ∀ a ∈ scanned, ¬ IsElf m a ∧ ¬ IsReversed m a := by
  refine ⟨none_of_expected, fun h => ?_⟩
  have hw : scanned.filter (IsWord m ·) = [] :=
    List.filter_eq_nil_iff.mpr fun a ha => by simpa [isWord_iff] using (h a ha).2
  have he : scanned.filter (IsElf m ·) = [] :=
    List.filter_eq_nil_iff.mpr fun a ha => by simpa using (h a ha).1
  rw [addr_registered, expected, hw, he]

/-- A memory with an image at the start of the area. -/
def oneImage : Mem := fun x => magic.getD (x - 0x08080000).toNat 0

theorem image_not_registered : ¬ ∀ m : Mem,
    (registered (loaderScan m boot)).map Module.addr = expected m := by
  intro h
  have hmem : (0x08080000 : U32) ∈ scanned := mem_scanned.mpr (by decide)
  exact (none_of_expected (h oneImage) _ hmem).1 (by decide)

end BloodKernel.Loader
