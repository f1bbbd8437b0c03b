import BloodKernel.Drivers.PagingAlloc
import BloodKernel.Lib.Account

set_option autoImplicit false

/-!
# Memory of the nodes

`drivers/numa.c` keeps the free memory of every node. An allocation is charged to a node; its pages come from
`paging_alloc_pages`.

* `NumaInfo`: the static data, and the pages; `numaAllocOnNode`, `numaAllocPreferred`,
  `numaAllocInterleaved`, `numaFree`: the functions.
* `Ledger`: the data beside the live allocations, with the nodes they are charged to.
* **`balanced_throughout_iff`**: what is free at a node is its memory without its live allocations, throughout a
  run, exactly when every allocation fits its node when rounded, and none is freed with several nodes.
-/

namespace BloodKernel.Numa

open Lib Paging

/-! ## The driver -/

/-- The two fields of a `numa_node_info_t` that count memory. -/
structure NodeInfo where
  totalMemory : BitVec 64
  freeMemory : BitVec 64

/-- The fields of `numa_info` that the allocations use, the static variable of `numa_alloc_interleaved`, and
the pages. -/
structure NumaInfo where
  numNodes : U8
  nodes : U8 → NodeInfo
  distanceMatrix : U8 → U8 → U8
  interleaveMask : U8
  nextNode : U8
  paging : Paging.State

/-- The number of pages, `(size + 4095) / 4096`. The sum wraps. -/
def pagesOf (size : U32) : U32 := (size + 4095) / 4096

/-- The size of these pages, as it is added to and subtracted from `free_memory`. -/
def bytesOf (size : U32) : BitVec 64 := (pagesOf size * 4096).setWidth 64

/-- Replace the free memory of a node. -/
def NumaInfo.setFree (s : NumaInfo) (node : U8) (v : BitVec 64) : NumaInfo :=
  { s with nodes := Function.update s.nodes node { s.nodes node with freeMemory := v } }

def numaAllocOnNode (s : NumaInfo) (size : U32) (node : U8) : U32 × NumaInfo :=
  if s.numNodes ≤ node then (0, s)
  else if (s.nodes node).freeMemory < size.setWidth 64 then (0, s)
  else
    let r := pagingAllocPages s.paging (pagesOf size)
    let s := { s with paging := r.2 }
    (r.1, if r.1 ≠ 0 then s.setFree node ((s.nodes node).freeMemory - bytesOf size) else s)

/-- The loops over the nodes: the first one that serves the allocation, with the pointer. -/
def allocFirst (s : NumaInfo) (size : U32) : List U8 → Option (U32 × U8) × NumaInfo
  | [] => (none, s)
  | node :: nodes =>
      let r := numaAllocOnNode s size node
      if r.1 ≠ 0 then (some (r.1, node), r.2) else allocFirst r.2 size nodes

/-- The values of a loop counter below `num_nodes`. -/
def NumaInfo.nodeIds (s : NumaInfo) : List U8 := (List.range s.numNodes.toNat).map (BitVec.ofNat 8)

/-- The nodes that `numa_alloc_preferred` tries: from `NUMA_LOCAL_DISTANCE + 1` to `NUMA_UNREACHABLE - 1`, all
at that distance. -/
def NumaInfo.byDistance (s : NumaInfo) (preferred : U8) : List U8 :=
  preferred :: (List.range' 11 244).flatMap fun distance =>
    s.nodeIds.filter fun i => s.distanceMatrix preferred i = BitVec.ofNat 8 distance

def numaAllocPreferred (s : NumaInfo) (size : U32) (preferred : U8) : Option (U32 × U8) × NumaInfo :=
  allocFirst s size (s.byDistance preferred)

/-- The nodes that `numa_alloc_interleaved` tries. The processor shifts by the node modulo 32. -/
def NumaInfo.inTurn (s : NumaInfo) : List U8 :=
  (s.nodeIds.map fun i => BitVec.ofNat 8 ((s.nextNode.toNat + i.toNat) % s.numNodes.toNat)).filter fun node =>
    s.interleaveMask.setWidth 32 &&& bit (node.toNat % 32) ≠ 0

def numaAllocInterleaved (s : NumaInfo) (size : U32) : Option (U32 × U8) × NumaInfo :=
  let r := allocFirst s size s.inTurn
  match r.1 with
  | some (_, node) =>
      (r.1, { r.2 with nextNode := BitVec.ofNat 8 ((node.toNat + 1) % s.numNodes.toNat) })
  | none => r

/-- The pages are added to every node. -/
def numaFree (s : NumaInfo) (ptr size : U32) : NumaInfo :=
  if ptr = 0 then s
  else
    { s with
      paging := pagingFreePages s.paging ptr (pagesOf size)
      nodes := fun i => if i < s.numNodes then
        { s.nodes i with freeMemory := (s.nodes i).freeMemory + bytesOf size } else s.nodes i }

/-! ## The calls -/

/-- An allocation that has not been freed. -/
structure Allocation where
  ptr : U32
  size : U32
  node : U8
  deriving DecidableEq

/-- The size in whole pages. -/
def rounded (size : U32) : ℕ := (size.toNat + 4095) / 4096 * 4096

/-- The sizes of the live allocations that are charged to a node. -/
def chargedTo (live : List Allocation) (node : U8) : ℕ :=
  charged Allocation.node (fun a => rounded a.size) live node

structure Ledger where
  numa : NumaInfo
  live : List Allocation

/-- The three ways to allocate. -/
inductive Request
  | onNode (size : U32) (node : U8)
  | preferred (size : U32) (node : U8)
  | interleaved (size : U32)

def Request.size : Request → U32
  | .onNode size _ | .preferred size _ | .interleaved size => size

inductive Op
  | alloc (q : Request)
  | free (a : Allocation)

/-- The nodes that a request is tried at. -/
def Request.candidates (s : NumaInfo) : Request → List U8
  | .onNode _ node => [node]
  | .preferred _ node => s.byDistance node
  | .interleaved _ => s.inTurn

/-- A request: the pointer, with the node that is charged, which the functions do not return. -/
def serve (s : NumaInfo) : Request → Option (U32 × U8) × NumaInfo
  | .onNode size node =>
      let r := numaAllocOnNode s size node
      (if r.1 ≠ 0 then some (r.1, node) else none, r.2)
  | .preferred size node => numaAllocPreferred s size node
  | .interleaved size => numaAllocInterleaved s size

/-- One call, with the pointer it returns. Only live allocations are freed. -/
def step (s : Ledger) : Op → Option (U32 × Ledger)
  | .alloc q =>
      let r := serve s.numa q
      match r.1 with
      | some (ptr, node) => some (ptr, ⟨r.2, ⟨ptr, q.size, node⟩ :: s.live⟩)
      | none => some (0, { s with numa := r.2 })
  | .free a =>
      if a ∈ s.live then some (0, ⟨numaFree s.numa a.ptr a.size, s.live.erase a⟩) else none

/-- **The accounts are right**: what is free at a node and what is charged to it make its memory. -/
def Ledger.Balanced (s : Ledger) : Prop := ∀ node,
  (s.numa.nodes node).freeMemory.toNat + chargedTo s.live node = (s.numa.nodes node).totalMemory.toNat

/-- A node serves an allocation. -/
def serves (s : NumaInfo) (size : U32) (node : U8) : Prop :=
  node < s.numNodes ∧ size.setWidth 64 ≤ (s.nodes node).freeMemory ∧
    (pagingAllocPages s.paging (pagesOf size)).1 ≠ 0

instance decidableServes (s : NumaInfo) (size : U32) (node : U8) : Decidable (serves s size node) :=
  inferInstanceAs (Decidable (_ ∧ _))

/-- The first of some nodes that serves an allocation. -/
def server (s : NumaInfo) (size : U32) : List U8 → Option U8
  | [] => none
  | node :: nodes =>
      if serves s size node then some node else server (numaAllocOnNode s size node).2 size nodes

/-- The size does not wrap when it is rounded, and the rounded size is free at the node. -/
def Room (s : NumaInfo) (size : U32) (node : U8) : Prop :=
  size ≤ 0xFFFFF000 ∧ rounded size ≤ (s.nodes node).freeMemory.toNat

/-- A call keeps the accounts right: an allocation has room at the node that serves it; nothing is freed but
empty allocations, or there is one node. -/
def Ledger.Fits (s : Ledger) : Op × U32 → Prop
  | (.alloc q, _) => ∀ node, server s.numa q.size (q.candidates s.numa) = some node → Room s.numa q.size node
  | (.free a, _) => a.size = 0 ∨ s.numa.numNodes = 1

/-! ## What a call does -/

variable {s s' : NumaInfo} {size ptr : U32} {node : U8} {nodes : List U8} {l l' t : Ledger} {a : Allocation}
  {q : Request} {o : Op} {r : U32}

/-- From `s` to `s'` nothing is charged. -/
structure Unchanged (s s' : NumaInfo) : Prop where
  numNodes : s'.numNodes = s.numNodes
  nodes : s'.nodes = s.nodes

/-- From `s` to `s'` an allocation is charged to a node. -/
structure Charges (s s' : NumaInfo) (size : U32) (node : U8) : Prop where
  numNodes : s'.numNodes = s.numNodes
  nodes : s'.nodes = (s.setFree node ((s.nodes node).freeMemory - bytesOf size)).nodes
  lt : node < s.numNodes

theorem allocOnNode_of_serves (h : serves s size node) :
    (numaAllocOnNode s size node).1 ≠ 0 ∧ Charges s (numaAllocOnNode s size node).2 size node := by
  obtain ⟨hnode, hfree, hptr⟩ := h
  -- the pages as a variable, which the kernel does not evaluate
  obtain ⟨r, hr⟩ : ∃ r, pagingAllocPages s.paging (pagesOf size) = r := ⟨_, rfl⟩
  rw [numaAllocOnNode, hr]
  rw [hr] at hptr
  rw [if_neg (BitVec.not_le.mpr hnode), if_neg (BitVec.not_lt.mpr hfree)]
  dsimp only
  refine ⟨hptr, ?_⟩
  rw [if_pos hptr]
  exact ⟨rfl, rfl, hnode⟩

theorem allocOnNode_of_not_serves (h : ¬ serves s size node) :
    (numaAllocOnNode s size node).1 = 0 ∧ Unchanged s (numaAllocOnNode s size node).2 := by
  obtain ⟨r, hr⟩ : ∃ r, pagingAllocPages s.paging (pagesOf size) = r := ⟨_, rfl⟩
  rw [serves, hr] at h
  rw [numaAllocOnNode, hr]
  by_cases hnode : s.numNodes ≤ node
  · rw [if_pos hnode]
    exact ⟨rfl, rfl, rfl⟩
  by_cases hfree : (s.nodes node).freeMemory < size.setWidth 64
  · rw [if_neg hnode, if_pos hfree]
    exact ⟨rfl, rfl, rfl⟩
  · rw [if_neg hnode, if_neg hfree]
    have hptr : r.1 = 0 := by
      by_contra hne
      exact h ⟨BitVec.not_le.mp hnode, BitVec.not_lt.mp hfree, hne⟩
    dsimp only
    refine ⟨hptr, ?_⟩
    rw [if_neg (not_not.mpr hptr)]
    exact ⟨rfl, rfl⟩

/-- What a request does: no node serves it, or the first one that does is charged. -/
structure Outcome (s : NumaInfo) (size : U32) (first : Option U8) (r : Option (U32 × U8) × NumaInfo) : Prop where
  none : first = none → r.1 = none ∧ Unchanged s r.2
  some : ∀ node, first = some node → ∃ ptr, r.1 = some (ptr, node) ∧ ptr ≠ 0 ∧ Charges s r.2 size node

theorem outcome_of_not_serves {r : Option (U32 × U8) × NumaInfo} {first : Option U8} (h : Unchanged s s')
    (hr : Outcome s' size first r) : Outcome s size first r := by
  refine ⟨fun hf => ?_, fun node hf => ?_⟩
  · obtain ⟨hnone, hnum, hnodes⟩ := hr.none hf
    exact ⟨hnone, hnum.trans h.numNodes, hnodes.trans h.nodes⟩
  · obtain ⟨ptr, hptr, hne, hnum, hnodes, hlt⟩ := hr.some node hf
    refine ⟨ptr, hptr, hne, hnum.trans h.numNodes, hnodes.trans ?_, by rwa [← h.numNodes]⟩
    unfold NumaInfo.setFree
    rw [h.nodes]

/-- **The loops** charge the first node that serves the allocation. -/
theorem allocFirst_outcome (s : NumaInfo) (size : U32) (nodes : List U8) :
    Outcome s size (server s size nodes) (allocFirst s size nodes) := by
  induction nodes generalizing s with
  | nil => exact ⟨fun _ => ⟨rfl, rfl, rfl⟩, fun node h => by cases h⟩
  | cons node nodes ih =>
      unfold server allocFirst
      by_cases h : serves s size node
      · obtain ⟨hptr, hcharges⟩ := allocOnNode_of_serves h
        show Outcome s size _ (if (numaAllocOnNode s size node).1 ≠ 0 then _ else _)
        rw [if_pos h, if_pos hptr]
        refine ⟨fun hf => absurd hf (Option.some_ne_none node), fun node' hf => ?_⟩
        cases hf
        exact ⟨_, rfl, hptr, hcharges⟩
      · obtain ⟨hptr, hunchanged⟩ := allocOnNode_of_not_serves h
        show Outcome s size _ (if (numaAllocOnNode s size node).1 ≠ 0 then _ else _)
        rw [if_neg h, if_neg (not_not.mpr hptr)]
        exact outcome_of_not_serves hunchanged (ih _)

/-- A request for one node is tried at this node only. -/
theorem allocFirst_singleton (s : NumaInfo) (size : U32) (node : U8) :
    allocFirst s size [node] = serve s (.onNode size node) := by
  show (if (numaAllocOnNode s size node).1 ≠ 0 then _ else _) =
    (if (numaAllocOnNode s size node).1 ≠ 0 then _ else _, (numaAllocOnNode s size node).2)
  split_ifs with hptr
  · rfl
  · rfl

theorem serve_outcome (s : NumaInfo) (q : Request) :
    Outcome s q.size (server s q.size (q.candidates s)) (serve s q) := by
  cases q with
  | onNode size node =>
      rw [← allocFirst_singleton]
      exact allocFirst_outcome s size [node]
  | preferred size node => exact allocFirst_outcome s size _
  | interleaved size =>
      have h := allocFirst_outcome s size s.inTurn
      show Outcome s size (server s size s.inTurn) (numaAllocInterleaved s size)
      unfold numaAllocInterleaved
      generalize allocFirst s size s.inTurn = r at h ⊢
      obtain ⟨first, s'⟩ := r
      cases first with
      | none => exact h
      | some p =>
          refine ⟨fun hf => absurd (h.none hf).1 (Option.some_ne_none p), fun node hf => ?_⟩
          obtain ⟨ptr, hptr, hne, hnum, hnodes, hlt⟩ := h.some node hf
          exact ⟨ptr, hptr, hne, hnum, hnodes, hlt⟩

/-! ## The accounts -/

theorem rounded_le (size : U32) : rounded size ≤ 2 ^ 32 := by
  have := size.isLt
  unfold rounded
  omega

theorem rounded_eq_zero : rounded size = 0 ↔ size = 0 := by
  have hzero : (0 : U32).toNat = 0 := rfl
  rw [← BitVec.toNat_inj, hzero]
  unfold rounded
  omega

theorem toNat_pagesOf (size : U32) : (pagesOf size).toNat = (size.toNat + 4095) % 2 ^ 32 / 4096 := by
  rw [pagesOf, BitVec.toNat_udiv, BitVec.toNat_add]
  rfl

theorem toNat_bytesOf (size : U32) : (bytesOf size).toNat = (size.toNat + 4095) % 2 ^ 32 / 4096 * 4096 := by
  have h4096 : (4096 : U32).toNat = 4096 := rfl
  rw [bytesOf, BitVec.toNat_setWidth, BitVec.toNat_mul, toNat_pagesOf, h4096]
  omega

theorem toNat_bytesOf_of_le (h : size ≤ 0xFFFFF000) : (bytesOf size).toNat = rounded size := by
  have hmax : (0xFFFFF000 : U32).toNat = 4294963200 := rfl
  rw [BitVec.le_def, hmax] at h
  rw [toNat_bytesOf, rounded, Nat.mod_eq_of_lt (by omega)]

/-- A size in the last page wraps to no pages at all. -/
theorem toNat_bytesOf_of_wrap (h : ¬ size ≤ 0xFFFFF000) : (bytesOf size).toNat = 0 := by
  have hmax : (0xFFFFF000 : U32).toNat = 4294963200 := rfl
  have hlt := size.isLt
  rw [BitVec.le_def, hmax] at h
  rw [toNat_bytesOf]
  omega

theorem chargedTo_cons (ptr size : U32) (node : U8) (live : List Allocation) (k : U8) :
    chargedTo (⟨ptr, size, node⟩ :: live) k = (if node = k then rounded size else 0) + chargedTo live k :=
  charged_cons _ _ _ _ _

theorem chargedTo_erase {live : List Allocation} (h : a ∈ live) (k : U8) :
    (if a.node = k then rounded a.size else 0) + chargedTo (live.erase a) k = chargedTo live k :=
  charged_erase Allocation.node (fun a => rounded a.size) h k

/-- What an allocation takes from a node is its size exactly when there is room for it. -/
theorem sub_bytesOf_iff (s : NumaInfo) (size : U32) (node : U8) :
    ((s.nodes node).freeMemory - bytesOf size).toNat + rounded size = (s.nodes node).freeMemory.toNat ↔
      Room s size node := by
  have hlt := (s.nodes node).freeMemory.isLt
  have hrounded := rounded_le size
  unfold Room
  rw [BitVec.toNat_sub]
  by_cases hsize : size ≤ 0xFFFFF000
  · rw [toNat_bytesOf_of_le hsize, and_iff_right hsize]
    omega
  · have hpos : rounded size ≠ 0 := fun he => hsize (by rw [rounded_eq_zero.mp he]; decide)
    rw [toNat_bytesOf_of_wrap hsize]
    exact iff_of_false (by omega) fun hroom => hsize hroom.1

/-- **An allocation** keeps the accounts right exactly when there is room for it. -/
theorem balanced_charge {live : List Allocation} (h : Ledger.Balanced ⟨s, live⟩) (hc : Charges s s' size node)
    (ptr : U32) :
    Ledger.Balanced ⟨s', ⟨ptr, size, node⟩ :: live⟩ ↔ Room s size node := by
  have hself : (s.nodes node).freeMemory.toNat + chargedTo live node = (s.nodes node).totalMemory.toNat := h node
  have hother : ∀ k, k ≠ node → s'.nodes k = s.nodes k := fun k hk => by
    rw [hc.nodes]
    exact Function.update_of_ne hk _ _
  have hnode : s'.nodes node =
      { s.nodes node with freeMemory := (s.nodes node).freeMemory - bytesOf size } := by
    rw [hc.nodes]
    exact Function.update_self node _ _
  have hfree : (s'.nodes node).freeMemory = (s.nodes node).freeMemory - bytesOf size := by rw [hnode]
  have htotal : (s'.nodes node).totalMemory = (s.nodes node).totalMemory := by rw [hnode]
  rw [← sub_bytesOf_iff]
  constructor
  · intro hall
    have hk := hall node
    rw [chargedTo_cons, if_pos rfl] at hk
    change (s'.nodes node).freeMemory.toNat + _ = (s'.nodes node).totalMemory.toNat at hk
    rw [hfree, htotal] at hk
    omega
  · intro hroom k
    show (s'.nodes k).freeMemory.toNat + _ = (s'.nodes k).totalMemory.toNat
    by_cases hk : k = node
    · rw [hk, hfree, htotal, chargedTo_cons, if_pos rfl]
      omega
    · rw [hother k hk, chargedTo_cons, if_neg (Ne.symm hk), Nat.zero_add]
      exact h k

theorem nodes_numaFree (s : NumaInfo) (size : U32) (hptr : ptr ≠ 0) (k : U8) :
    ((numaFree s ptr size).nodes k).freeMemory =
        (s.nodes k).freeMemory + (if k < s.numNodes then bytesOf size else 0) ∧
      ((numaFree s ptr size).nodes k).totalMemory = (s.nodes k).totalMemory := by
  unfold numaFree
  rw [if_neg hptr]
  show (if k < s.numNodes then _ else s.nodes k : NodeInfo).freeMemory = _ ∧
    (if k < s.numNodes then _ else s.nodes k : NodeInfo).totalMemory = _
  split_ifs with hk
  · exact ⟨rfl, rfl⟩
  · exact ⟨(BitVec.add_zero _).symm, rfl⟩

/-- What every node gets is what its own node lacks, for nothing, or with one node. -/
theorem evenly_iff {numNodes : U8} (hnode : node < numNodes) :
    (∀ k, (if k < numNodes then rounded size else 0) = if node = k then rounded size else 0) ↔
      size = 0 ∨ numNodes = 1 := by
  constructor
  · intro hall
    by_contra hne
    obtain ⟨hzero, hone⟩ := not_or.mp hne
    have hpos : rounded size ≠ 0 := fun he => hzero (rounded_eq_zero.mp he)
    have hlt : node.toNat < numNodes.toNat := hnode
    have htwo : ¬ numNodes.toNat = 1 := fun he => hone (BitVec.eq_of_toNat_eq he)
    have hcharges : ∀ k : U8, k.toNat ≤ 1 → node = k := by
      intro k hk
      have hmem : k < numNodes := BitVec.lt_def.mpr (by omega)
      by_contra hk'
      have heq := hall k
      rw [if_pos hmem, if_neg hk'] at heq
      exact hpos heq
    have h01 : (0 : U8) = 1 := (hcharges 0 (by decide)).symm.trans (hcharges 1 (by decide))
    exact absurd h01 (by decide)
  · rintro (hzero | hone) k
    · rw [rounded_eq_zero.mpr hzero, ite_self, ite_self]
    · refine if_congr ?_ rfl rfl
      have h1 : (1 : U8).toNat = 1 := rfl
      rw [hone, BitVec.lt_def, h1] at hnode ⊢
      rw [← BitVec.toNat_inj]
      omega

/-- **A free** keeps the accounts right exactly when nothing is given back, or there is one node. -/
theorem balanced_free {live : List Allocation} (h : Ledger.Balanced ⟨s, live⟩) (ha : a ∈ live)
    (hptr : a.ptr ≠ 0) (hnode : a.node < s.numNodes) (hsize : a.size ≤ 0xFFFFF000) :
    Ledger.Balanced ⟨numaFree s a.ptr a.size, live.erase a⟩ ↔ a.size = 0 ∨ s.numNodes = 1 := by
  have hbytes := toNat_bytesOf_of_le hsize
  have hrounded := rounded_le a.size
  rw [← evenly_iff hnode]
  refine forall_congr' fun k => ?_
  have hk : (s.nodes k).freeMemory.toNat + chargedTo live k = (s.nodes k).totalMemory.toNat := h k
  have hlt := (s.nodes k).totalMemory.isLt
  have hc := chargedTo_erase ha k
  obtain ⟨hfree, htotal⟩ := nodes_numaFree s a.size hptr k
  show ((numaFree s a.ptr a.size).nodes k).freeMemory.toNat + chargedTo (live.erase a) k =
    ((numaFree s a.ptr a.size).nodes k).totalMemory.toNat ↔ _
  rw [hfree, htotal, BitVec.toNat_add]
  by_cases hnum : k < s.numNodes
  · rw [if_pos hnum, if_pos hnum, hbytes]
    split_ifs at hc ⊢
    · omega
    · omega
  · rw [if_neg hnum, if_neg hnum, BitVec.ofNat_eq_ofNat, BitVec.toNat_ofNat]
    split_ifs at hc ⊢
    · omega
    · omega

/-! ## Runs -/

/-- The live allocations have pages of a node. -/
def Ledger.Wf (l : Ledger) : Prop :=
  ∀ a ∈ l.live, a.ptr ≠ 0 ∧ a.node < l.numa.numNodes ∧ a.size ≤ 0xFFFFF000

/-- **One call** keeps the accounts right exactly when it fits; the live allocations still have pages of a
node. -/
theorem balanced_step (hw : l.Wf) (h : l.Balanced) (hs : step l o = some (r, l')) :
    (l'.Balanced ↔ l.Fits (o, r)) ∧ (l'.Balanced → l'.Wf) := by
  obtain ⟨s, live⟩ := l
  cases o with
  | alloc q =>
      have hout := serve_outcome s q
      cases hserver : server s q.size (q.candidates s) with
      | none =>
          obtain ⟨hnone, hnum, hnodes⟩ := hout.none hserver
          obtain rfl : l' = ⟨(serve s q).2, live⟩ := by
            unfold step at hs
            simp only [hnone] at hs
            exact (Prod.mk.inj (Option.some.inj hs)).2.symm
          refine ⟨iff_of_true (fun k => ?_) fun node hnode => ?_, fun _ a ha => ?_⟩
          · show ((serve s q).2.nodes k).freeMemory.toNat + _ = ((serve s q).2.nodes k).totalMemory.toNat
            rw [hnodes]
            exact h k
          · rw [hserver] at hnode
            cases hnode
          · show a.ptr ≠ 0 ∧ a.node < (serve s q).2.numNodes ∧ _
            rw [hnum]
            exact hw a ha
      | some node =>
          obtain ⟨ptr, hptr, hne, hcharges⟩ := hout.some node hserver
          obtain rfl : l' = ⟨(serve s q).2, ⟨ptr, q.size, node⟩ :: live⟩ := by
            unfold step at hs
            simp only [hptr] at hs
            exact (Prod.mk.inj (Option.some.inj hs)).2.symm
          have hroom := balanced_charge h hcharges ptr
          refine ⟨hroom.trans ⟨fun hr node' hnode => ?_, fun hf => hf node hserver⟩, fun hb a ha => ?_⟩
          · obtain rfl := Option.some.inj (hserver.symm.trans hnode)
            exact hr
          · show a.ptr ≠ 0 ∧ a.node < (serve s q).2.numNodes ∧ _
            rw [hcharges.numNodes]
            rcases List.mem_cons.mp ha with rfl | ha
            · exact ⟨hne, hcharges.lt, (hroom.mp hb).1⟩
            · exact hw a ha
  | free a =>
      have hmem : a ∈ live := by
        by_contra hmem
        rw [step, if_neg hmem] at hs
        cases hs
      rw [step, if_pos hmem] at hs
      obtain rfl := (Prod.mk.inj (Option.some.inj hs)).2
      obtain ⟨hptr, hnode, hsize⟩ := hw a hmem
      refine ⟨balanced_free h hmem hptr hnode hsize, fun _ b hb => ?_⟩
      have hnum : (numaFree s a.ptr a.size).numNodes = s.numNodes := by
        rw [numaFree, if_neg hptr]
      show b.ptr ≠ 0 ∧ b.node < (numaFree s a.ptr a.size).numNodes ∧ _
      rw [hnum]
      exact hw b (List.mem_of_mem_erase hb)

/-- Nothing is allocated, and all memory is free. -/
structure Ledger.Fresh (l : Ledger) : Prop where
  live : l.live = []
  free : ∀ node, (l.numa.nodes node).freeMemory = (l.numa.nodes node).totalMemory

/-- **Exactness.** From any memories of the nodes, what is free at a node is its memory without the rounded
sizes of its live allocations, throughout a run, exactly when every call fits. -/
theorem balanced_throughout_iff {es : List (Op × U32)} (hl : l.Fresh) (h : Run step l es t) :
    Throughout step Ledger.Balanced l es ↔ Along step Ledger.Fits l es := by
  refine h.throughout_iff_along_while (I := Ledger.Wf)
    (fun _ _ _ _ hw hb hb' hs => (balanced_step hw hb hs).2 hb')
    (fun _ _ _ _ hw hb hs => (balanced_step hw hb hs).1) (fun a ha => ?_) fun node => ?_
  · rw [hl.live] at ha
    cases ha
  · rw [hl.free, hl.live]
    rfl

/-! ## One page -/

/-- Nodes of 16 MB each, with the pages of 8 MB after `paging_init`. -/
def machine (numNodes : U8) : NumaInfo where
  numNodes := numNodes
  nodes _ := ⟨0x1000000, 0x1000000⟩
  distanceMatrix i j := if i = j then 10 else 20
  interleaveMask := 0x1
  nextNode := 0
  paging := start (fun _ => 0) 0x800000

theorem alloc_page_ne_zero : (pagingAllocPages (start (fun _ => 0) 0x800000) 1).1 ≠ 0 := by
  have hfit : (bitmapWords 0x800000).toNat ≤ 1024 := by decide
  have hzero : ¬ Free (start (fun _ => 0) 0x800000) 0 := fun hf =>
    absurd ((free_start hfit).mp hf).2 (by decide)
  have hcount : freeCount (start (fun _ => 0) 0x800000) = 1021 := (freeCount_start hfit).trans (by decide)
  have hfirst : FirstRange (start (fun _ => 0) 0x800000) 1 0 := firstRange_start hfit (by decide)
  have htables := tables_le (start (fun _ => 0) 0x800000) (pageAddr heapStart 0) 0
  have hone : (1 : U32).toNat = 0 + 1 := rfl
  obtain ⟨s', hmap, -⟩ := mapPages_of_frames (n := 0) (wf_start hfit)
    (inHeap_pageAddr (show 0 < 0x10000 by decide)) hzero (by omega)
  rcases alloc_cases (start (fun _ => 0) 0x800000) 1 with ⟨i, hi, he⟩ | ⟨hnone, -⟩
  · obtain rfl := hi.unique hfirst
    rw [he, hone, hmap]
    show pageAddr heapStart 0 ≠ 0
    decide
  · exact absurd hfirst (hnone 0)

theorem server_machine {n : U8} (hn : 0 < n) : server (machine n) 4096 [0] = some 0 := by
  have hpages : pagesOf 4096 = 1 := by decide
  have hpaging : (machine n).paging = start (fun _ => 0) 0x800000 := by rw [machine]
  have hfree : (4096 : U32).setWidth 64 ≤ (0x1000000 : BitVec 64) := by decide
  have hserves : serves (machine n) 4096 0 := by
    refine ⟨hn, hfree, ?_⟩
    rw [hpages, hpaging]
    exact alloc_page_ne_zero
  rw [server, if_pos hserves]

theorem alloc_machine {n : U8} (hn : 0 < n) : ∃ ptr s', ptr ≠ 0 ∧
    step ⟨machine n, []⟩ (.alloc (.onNode 4096 0)) = some (ptr, ⟨s', [⟨ptr, 4096, 0⟩]⟩) ∧
      Charges (machine n) s' 4096 0 := by
  obtain ⟨ptr, hptr, hne, hcharges⟩ :=
    (serve_outcome (machine n) (.onNode 4096 0)).some 0 (server_machine hn)
  refine ⟨ptr, _, hne, ?_, hcharges⟩
  unfold step
  simp only [hptr]
  rfl

/-- On one node, a page is allocated and freed. -/
theorem balanced_page : ∃ ptr, Throughout step Ledger.Balanced ⟨machine 1, []⟩
    [(.alloc (.onNode 4096 0), ptr), (.free ⟨ptr, 4096, 0⟩, 0)] := by
  obtain ⟨ptr, s', hne, hstep, hcharges⟩ := alloc_machine (n := 1) (by decide)
  have hfree : step ⟨s', [⟨ptr, 4096, 0⟩]⟩ (.free ⟨ptr, 4096, 0⟩) = some (0, ⟨numaFree s' ptr 4096, _⟩) :=
    if_pos List.mem_cons_self
  refine ⟨ptr, (balanced_throughout_iff ⟨rfl, fun _ => rfl⟩ (.cons hstep (.cons hfree (.nil _)))).mpr ?_⟩
  refine (along_cons hstep).mpr ⟨fun node hnode => ?_, (along_cons hfree).mpr ⟨.inr ?_, along_nil _ _⟩⟩
  · obtain rfl := Option.some.inj ((server_machine (by decide)).symm.trans hnode)
    exact ⟨by decide, by decide⟩
  · exact hcharges.numNodes

/-- With two nodes, the other one then has a page more than its memory. -/
theorem not_balanced_twoNodes : ∃ ptr t, Run step ⟨machine 2, []⟩
    [(.alloc (.onNode 4096 0), ptr), (.free ⟨ptr, 4096, 0⟩, 0)] t ∧ ¬ t.Balanced := by
  obtain ⟨ptr, s', hne, hstep, hcharges⟩ := alloc_machine (n := 2) (by decide)
  have hmem : (⟨ptr, 4096, 0⟩ : Allocation) ∈ [⟨ptr, 4096, 0⟩] := List.mem_cons_self
  have hbefore : Ledger.Balanced ⟨s', [⟨ptr, 4096, 0⟩]⟩ :=
    (balanced_charge (fun _ => rfl) hcharges ptr).mpr ⟨by decide, by decide⟩
  have hnode : (0 : U8) < s'.numNodes := by
    rw [hcharges.numNodes]
    decide
  refine ⟨ptr, _, .cons hstep (.cons (if_pos hmem) (.nil _)), fun hb => ?_⟩
  have hsize : (4096 : U32) ≤ 0xFFFFF000 ∧ (4096 : U32) ≠ 0 := by decide
  rcases (balanced_free hbefore hmem hne hnode hsize.1).mp hb with hzero | hone
  · exact hsize.2 hzero
  · rw [hcharges.numNodes] at hone
    exact absurd hone (by decide)

end BloodKernel.Numa
