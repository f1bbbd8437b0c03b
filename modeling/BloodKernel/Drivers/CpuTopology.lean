import BloodKernel.Kernel.Types

set_option autoImplicit false

/-!
# The topology of the processors

`drivers/cpu_topology.c` takes an APIC id apart, level by level, and compares packages and cores by the parts. The
levels come from leaf 0xB of CPUID, and the parts are stored in records on the stack.

* `cpuTopologyDetectLevels`, `cpuTopologyParseApicId`, `cpuTopologyIsSamePackage`, `cpuTopologyIsSameCore`: the
  functions.
* `Documented`: leaf 0xB, with an SMT level and a core level.
* `packageId_parse`: without a level of packages, the package stays what the record held.
* `shift_eq_iff`: two ids of one package, and with the same part of `core_id`, belong to the same core.
* **`same_core_and_package_iff`**: the comparisons are right when what the records held is.
-/

namespace BloodKernel.CpuTopology

/-! ## The driver -/

/-- The types of levels that the functions know. -/
def levelInvalid : U8 := 0
def levelSmt : U8 := 1
def levelCore : U8 := 2
def levelModule : U8 := 3
def levelTile : U8 := 4
def levelDie : U8 := 5
def levelPackage : U8 := 6

/-- The ids of a `cpu_info_t`. -/
structure CpuInfo where
  apicId : U32
  packageId : U32
  dieId : U32
  tileId : U32
  moduleId : U32
  coreId : U32
  threadId : U32

structure TopologyLevel where
  levelType : U8
  levelShift : U8
  numUnits : U32
  nextLevelApicId : U32

/-- The fields of `cpu_topology_info` that these functions use. -/
structure Info where
  threadsPerCore : U32
  levels : U8 → TopologyLevel
  numLevels : U8

/-- What CPUID leaves in the registers. -/
structure Registers where
  eax : U32
  ebx : U32
  ecx : U32
  edx : U32

def Registers.levelType (r : Registers) : U8 := ((r.ecx >>> 8) &&& 0xFF).setWidth 8

def Registers.levelShift (r : Registers) : U8 := (r.eax &&& 0x1F).setWidth 8

/-- The level that a subleaf reports. -/
def Registers.level (r : Registers) : TopologyLevel := ⟨r.levelType, r.levelShift, r.ebx &&& 0xFFFF, r.edx⟩

def Info.setLevel (s : Info) (level : U8) (l : TopologyLevel) : Info :=
  { s with levels := Function.update s.levels level l }

/-- The loop over the subleaves, which one without a type ends. -/
def detectFrom (cpuid : U32 → U8 → Registers) : List U8 → U8 → Info → U8 × Info
  | [], level, s => (level, s)
  | i :: is, level, s =>
      let r := cpuid 0xB i
      if r.levelType = levelInvalid then (level, s)
      else detectFrom cpuid is (level + 1) (s.setLevel level r.level)

/-- The levels of a processor without leaf 0xB. They keep their old `next_level_apic_id`. -/
def legacyLevels (cpuid : U32 → U8 → Registers) (s : Info) : Info :=
  let r := cpuid 1 0
  let logicalProcessors := (r.ebx >>> 16) &&& 0xFF
  let s := { s with threadsPerCore := if r.edx &&& bit 28 ≠ 0 then logicalProcessors else 1 }
  let s := s.setLevel 0 { s.levels 0 with levelType := levelSmt, levelShift := 1, numUnits := s.threadsPerCore }
  let s := s.setLevel 1 { s.levels 1 with levelType := levelPackage, levelShift := 8, numUnits := 1 }
  { s with numLevels := 2 }

/-- `cpuid` takes a leaf and a subleaf; leaf 1 has none. -/
def cpuTopologyDetectLevels (cpuid : U32 → U8 → Registers) (s : Info) : Info :=
  let r := detectFrom cpuid [0, 1, 2, 3, 4, 5, 6, 7] 0 s
  let s := { r.2 with numLevels := r.1 }
  if r.1 = 0 then legacyLevels cpuid s else s

/-- The `switch` over the type of a level. -/
def CpuInfo.store (cpu : CpuInfo) (levelType : U8) (idAtLevel : U32) : CpuInfo :=
  if levelType = levelSmt then { cpu with threadId := idAtLevel }
  else if levelType = levelCore then { cpu with coreId := idAtLevel }
  else if levelType = levelModule then { cpu with moduleId := idAtLevel }
  else if levelType = levelTile then { cpu with tileId := idAtLevel }
  else if levelType = levelDie then { cpu with dieId := idAtLevel }
  else if levelType = levelPackage then { cpu with packageId := idAtLevel }
  else cpu

/-- One level: its id is masked out of the remaining id, which is shifted. -/
def parseLevel (s : Info) (p : U32 × CpuInfo) (i : U8) : U32 × CpuInfo :=
  let level := s.levels i
  let mask := ((1 : U32) <<< level.levelShift.toNat) - 1
  (p.1 >>> level.levelShift.toNat, p.2.store level.levelType (p.1 &&& mask))

/-- The values of a loop counter below `num_levels`. -/
def Info.levelIds (s : Info) : List U8 := (List.range s.numLevels.toNat).map (BitVec.ofNat 8)

def cpuTopologyParseApicId (s : Info) (apicId : U32) (cpu : CpuInfo) : CpuInfo :=
  (s.levelIds.foldl (parseLevel s) (apicId, { cpu with apicId := apicId })).2

/-- `cpu1` and `cpu2` are local variables without initial values: they start with what the stack holds. -/
def cpuTopologyIsSamePackage (s : Info) (cpu1 cpu2 : CpuInfo) (apicId1 apicId2 : U32) : Bool :=
  (cpuTopologyParseApicId s apicId1 cpu1).packageId = (cpuTopologyParseApicId s apicId2 cpu2).packageId

def cpuTopologyIsSameCore (s : Info) (cpu1 cpu2 : CpuInfo) (apicId1 apicId2 : U32) : Bool :=
  let cpu1 := cpuTopologyParseApicId s apicId1 cpu1
  let cpu2 := cpuTopologyParseApicId s apicId2 cpu2
  cpu1.packageId = cpu2.packageId ∧ cpu1.coreId = cpu2.coreId

/-! ## The table -/

/-- Leaf 0xB: an SMT level and a core level, each with the shift of the whole id to the next level. -/
structure Documented (cpuid : U32 → U8 → Registers) (smtShift coreShift : ℕ) : Prop where
  smtType : (cpuid 0xB 0).levelType = levelSmt
  smtBits : (cpuid 0xB 0).levelShift.toNat = smtShift
  coreType : (cpuid 0xB 1).levelType = levelCore
  coreBits : (cpuid 0xB 1).levelShift.toNat = coreShift
  last : (cpuid 0xB 2).levelType = levelInvalid
  cumulative : smtShift ≤ coreShift

/-- The comparisons say what the ids say. -/
structure Right (s : Info) (cpu1 cpu2 : CpuInfo) (smtShift coreShift : ℕ) (a b : U32) : Prop where
  core : cpuTopologyIsSameCore s cpu1 cpu2 a b = true ↔ a >>> smtShift = b >>> smtShift
  package : cpuTopologyIsSamePackage s cpu1 cpu2 a b = true ↔ a >>> coreShift = b >>> coreShift

variable {cpuid : U32 → U8 → Registers} {s : Info} {cpu cpu1 cpu2 : CpuInfo} {smtShift coreShift i k : ℕ}
  {a b apicId v : U32}

/-- The levels that the driver has found. -/
structure TwoLevels (s : Info) (smtShift coreShift : ℕ) : Prop where
  number : s.levelIds = [0, 1]
  smtType : (s.levels 0).levelType = levelSmt
  smtBits : (s.levels 0).levelShift.toNat = smtShift
  coreType : (s.levels 1).levelType = levelCore
  coreBits : (s.levels 1).levelShift.toNat = coreShift

/-- **Detection**: two levels. -/
theorem Documented.detect (h : Documented cpuid smtShift coreShift) (s : Info) :
    TwoLevels (cpuTopologyDetectLevels cpuid s) smtShift coreShift := by
  have hsmt : (cpuid 0xB 0).levelType ≠ levelInvalid := by
    rw [h.smtType]
    decide
  have hcore : (cpuid 0xB 1).levelType ≠ levelInvalid := by
    rw [h.coreType]
    decide
  have hloop : detectFrom cpuid [0, 1, 2, 3, 4, 5, 6, 7] 0 s =
      (2, (s.setLevel 0 (cpuid 0xB 0).level).setLevel 1 (cpuid 0xB 1).level) := by
    rw [detectFrom, if_neg hsmt, detectFrom, if_neg hcore, detectFrom, if_pos h.last]
    rfl
  unfold cpuTopologyDetectLevels
  rw [hloop]
  exact ⟨rfl, h.smtType, h.smtBits, h.coreType, h.coreBits⟩

theorem Registers.levelShift_lt (r : Registers) : r.levelShift.toNat < 32 := by
  unfold Registers.levelShift
  rw [BitVec.toNat_setWidth, BitVec.toNat_and]
  exact (Nat.mod_le _ _).trans_lt (Nat.and_lt_two_pow _ (by decide : _ < 2 ^ 5))

/-! ## The loop -/

theorem packageId_store (t : U8) (h : t ≠ levelPackage) : (cpu.store t v).packageId = cpu.packageId := by
  unfold CpuInfo.store
  rw [if_neg h]
  split_ifs <;> rfl

theorem packageId_foldl (is : List U8) (h : ∀ i ∈ is, (s.levels i).levelType ≠ levelPackage) :
    ∀ p : U32 × CpuInfo, (is.foldl (parseLevel s) p).2.packageId = p.2.packageId := by
  induction is with
  | nil => exact fun p => rfl
  | cons i is ih =>
      intro p
      rw [List.foldl_cons, ih fun j hj => h j (List.mem_cons_of_mem i hj)]
      exact packageId_store _ (h i List.mem_cons_self)

/-- **A table without a level of packages**: the record keeps its package. -/
theorem packageId_parse (h : ∀ i ∈ s.levelIds, (s.levels i).levelType ≠ levelPackage) :
    (cpuTopologyParseApicId s apicId cpu).packageId = cpu.packageId :=
  packageId_foldl s.levelIds h _

theorem shift_and_levelMask (v : U32) (i : ℕ) (hk : k < 32) :
    (v >>> i) &&& (((1 : U32) <<< k) - 1) = (v.extractLsb' i k).setWidth 32 := by
  have hpow : ((1 : U32) <<< k).toNat = 2 ^ k := by
    change ((1#32) <<< k).toNat = 2 ^ k
    rw [← BitVec.twoPow_eq, BitVec.toNat_twoPow_of_lt hk]
  have hlt : 2 ^ k - 1 < 2 ^ 32 := (Nat.sub_le _ _).trans_lt (Nat.pow_lt_pow_right (by decide) hk)
  have hmask : ((1 : U32) <<< k) - 1 = BitVec.ofNat 32 (2 ^ k - 1) := by
    refine BitVec.eq_of_toNat_eq ?_
    rw [toNat_sub_one hpow, BitVec.toNat_ofNat, Nat.mod_eq_of_lt hlt]
  rw [hmask, shift_and_mask v i hk.le]

/-- **The core of a record**: as many bits behind the SMT level as the shift of the core level says. -/
theorem coreId_parse (h : TwoLevels s smtShift coreShift) (hcore : coreShift < 32) :
    (cpuTopologyParseApicId s apicId cpu).coreId = (apicId.extractLsb' smtShift coreShift).setWidth 32 := by
  rw [← shift_and_levelMask apicId smtShift hcore, ← h.coreBits, ← h.smtBits]
  unfold cpuTopologyParseApicId
  rw [h.number, List.foldl_cons, List.foldl_cons, List.foldl_nil]
  unfold parseLevel
  dsimp only
  rw [h.coreType]
  rfl

/-! ## Ids -/

theorem shift_eq_iff_bits : a >>> i = b >>> i ↔ ∀ j, i ≤ j → a.getLsbD j = b.getLsbD j := by
  constructor
  · intro h j hj
    have hbit := congrArg (fun x : U32 => x.getLsbD (j - i)) h
    simpa only [BitVec.getLsbD_ushiftRight, Nat.add_sub_cancel' hj] using hbit
  · intro h
    refine BitVec.eq_of_getLsbD_eq fun j _ => ?_
    rw [BitVec.getLsbD_ushiftRight, BitVec.getLsbD_ushiftRight]
    exact h _ (Nat.le_add_right i j)

theorem extract_eq_iff_bits : a.extractLsb' i k = b.extractLsb' i k ↔
    ∀ j, i ≤ j → j < i + k → a.getLsbD j = b.getLsbD j := by
  constructor
  · intro h j hj hlt
    have hbit := congrArg (fun x : BitVec k => x.getLsbD (j - i)) h
    simpa [BitVec.getLsbD_extractLsb', Nat.add_sub_cancel' hj, Nat.sub_lt_left_of_lt_add hj hlt] using hbit
  · intro h
    refine BitVec.eq_of_getLsbD_eq fun j hj => ?_
    rw [BitVec.getLsbD_extractLsb', BitVec.getLsbD_extractLsb', h _ (Nat.le_add_right i j) (by omega)]

/-- **Ids of one core.** The bits that `core_id` has too many are those of the package. -/
theorem shift_eq_iff (h : smtShift ≤ coreShift) : a >>> smtShift = b >>> smtShift ↔
    a >>> coreShift = b >>> coreShift ∧ a.extractLsb' smtShift coreShift = b.extractLsb' smtShift coreShift := by
  rw [shift_eq_iff_bits, shift_eq_iff_bits, extract_eq_iff_bits]
  constructor
  · exact fun hbits => ⟨fun j hj => hbits j (h.trans hj), fun j hj _ => hbits j hj⟩
  · rintro ⟨hpackage, hcore⟩ j hj
    by_cases hlt : j < smtShift + coreShift
    · exact hcore j hj hlt
    · exact hpackage j ((Nat.le_add_left _ _).trans (Nat.le_of_not_lt hlt))

/-! ## The comparisons -/

theorem setWidth_eq_iff {x y : BitVec k} (hk : k ≤ 32) : x.setWidth 32 = y.setWidth 32 ↔ x = y := by
  refine ⟨fun h => BitVec.eq_of_toNat_eq ?_, congrArg _⟩
  have hvalue := congrArg BitVec.toNat h
  rwa [BitVec.toNat_setWidth_of_le hk, BitVec.toNat_setWidth_of_le hk] at hvalue

theorem packageId_of_twoLevels (h : TwoLevels s smtShift coreShift) :
    (cpuTopologyParseApicId s apicId cpu).packageId = cpu.packageId := by
  refine packageId_parse ?_
  rw [h.number]
  simp only [List.forall_mem_cons, h.smtType, h.coreType]
  exact ⟨by decide, by decide, List.forall_mem_nil _⟩

theorem samePackage_iff (h : TwoLevels s smtShift coreShift) :
    cpuTopologyIsSamePackage s cpu1 cpu2 a b = true ↔ cpu1.packageId = cpu2.packageId := by
  unfold cpuTopologyIsSamePackage
  rw [decide_eq_true_iff, packageId_of_twoLevels h, packageId_of_twoLevels h]

theorem sameCore_iff (h : TwoLevels s smtShift coreShift) (hcore : coreShift < 32) :
    cpuTopologyIsSameCore s cpu1 cpu2 a b = true ↔ cpu1.packageId = cpu2.packageId ∧
      a.extractLsb' smtShift coreShift = b.extractLsb' smtShift coreShift := by
  unfold cpuTopologyIsSameCore
  rw [decide_eq_true_iff, packageId_of_twoLevels h, packageId_of_twoLevels h, coreId_parse h hcore,
    coreId_parse h hcore, setWidth_eq_iff hcore.le]

theorem right_iff (h : TwoLevels s smtShift coreShift) (hcore : coreShift < 32) (hle : smtShift ≤ coreShift) :
    Right s cpu1 cpu2 smtShift coreShift a b ↔
      (cpu1.packageId = cpu2.packageId ↔ a >>> coreShift = b >>> coreShift) := by
  constructor
  · exact fun hright => (samePackage_iff h).symm.trans hright.package
  · refine fun hpackage => ⟨?_, (samePackage_iff h).trans hpackage⟩
    rw [sameCore_iff h hcore, shift_eq_iff hle, hpackage]

/-- A record that holds zeros, but for its package. -/
def leftOver (packageId : U32) : CpuInfo := ⟨0, packageId, 0, 0, 0, 0, 0⟩

/-- **When the comparisons are right**: the records happen to hold equal packages for ids of one package, and
different packages for others. No ids are compared rightly whatever the records hold. -/
theorem same_core_and_package_iff (cpuid : U32 → U8 → Registers) (s : Info) (smtShift coreShift : ℕ)
    (h : Documented cpuid smtShift coreShift) (a b : U32) :
    (∀ cpu1 cpu2 : CpuInfo, Right (cpuTopologyDetectLevels cpuid s) cpu1 cpu2 smtShift coreShift a b ↔
      (cpu1.packageId = cpu2.packageId ↔ a >>> coreShift = b >>> coreShift)) ∧
    ¬∀ cpu1 cpu2 : CpuInfo, Right (cpuTopologyDetectLevels cpuid s) cpu1 cpu2 smtShift coreShift a b := by
  have hcore : coreShift < 32 := h.coreBits ▸ Registers.levelShift_lt _
  have hiff (cpu1 cpu2 : CpuInfo) : Right (cpuTopologyDetectLevels cpuid s) cpu1 cpu2 smtShift coreShift a b ↔
      (cpu1.packageId = cpu2.packageId ↔ a >>> coreShift = b >>> coreShift) :=
    right_iff (h.detect s) hcore h.cumulative
  refine ⟨hiff, fun hall => ?_⟩
  have hsame := (hiff (leftOver 0) (leftOver 0)).mp (hall _ _)
  have hother := (hiff (leftOver 0) (leftOver 1)).mp (hall _ _)
  exact absurd (hother.mpr (hsame.mp rfl)) (by decide)

/-- A processor with 2 threads in a core and 8 cores in a package. -/
def sampleCpuid (_ : U32) (subleaf : U8) : Registers :=
  if subleaf = 0 then ⟨1, 2, 0x100, 0⟩ else if subleaf = 1 then ⟨4, 16, 0x201, 0⟩ else ⟨0, 0, 2, 0⟩

def sampleInfo : Info := ⟨1, fun _ => ⟨0, 0, 0, 0⟩, 0⟩

theorem documented_sample : Documented sampleCpuid 1 4 :=
  ⟨by decide, by decide, by decide, by decide, by decide, by decide⟩

theorem same_core_and_package_iff_sample : ¬∀ cpu1 cpu2 : CpuInfo,
    Right (cpuTopologyDetectLevels sampleCpuid sampleInfo) cpu1 cpu2 1 4 0 32 :=
  (same_core_and_package_iff sampleCpuid sampleInfo 1 4 documented_sample 0 32).2

/-- With records of zeros, the ids 0 and 32 are taken for threads of one core. They belong to different packages. -/
theorem not_same_core_and_package :
    ¬(cpuTopologyIsSameCore (cpuTopologyDetectLevels sampleCpuid sampleInfo) (leftOver 0) (leftOver 0) 0 32 = true ↔
      (0 : U32) >>> 1 = 32 >>> 1) ∧
    ¬(cpuTopologyIsSamePackage (cpuTopologyDetectLevels sampleCpuid sampleInfo) (leftOver 0) (leftOver 0) 0 32 = true ↔
      (0 : U32) >>> 4 = 32 >>> 4) := by decide

end BloodKernel.CpuTopology
