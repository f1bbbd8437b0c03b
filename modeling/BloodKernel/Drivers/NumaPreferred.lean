import BloodKernel.Drivers.Numa
import BloodKernel.Lib.Counter
import BloodKernel.Lib.Sweep

set_option autoImplicit false

/-!
# The node nearest to the preferred one

`numa_alloc_preferred` of `drivers/numa.c`: after the preferred node, the nodes are tried at one distance after
the other.

* `HasFree`, `rank`: the nodes with enough memory, and their order.
* `byDistance_eq`: the nodes in the order of the two loops; `server_eq_find`: the one that is charged.
* `ChargesRounded`, `ServedNearest`: what a call is for; **`preferred_nearest_iff`**: it charges the preferred
  node, or else the nearest one with enough memory, exactly when the size does not wrap as it is rounded.
-/

namespace BloodKernel.Numa

open Lib

/-- A node has `size` bytes free. -/
def HasFree (s : NumaInfo) (size : U32) (node : U8) : Prop :=
  node < s.numNodes ∧ size.setWidth 64 ≤ (s.nodes node).freeMemory

instance decidableHasFree (s : NumaInfo) (size : U32) (node : U8) : Decidable (HasFree s size node) :=
  inferInstanceAs (Decidable (_ ∧ _))

/-- The order of the nodes as seen from one of them: by the distance, then by the index. -/
def NumaInfo.rank (s : NumaInfo) (preferred node : U8) : ℕ ×ₗ ℕ :=
  toLex ((s.distanceMatrix preferred node).toNat, node.toNat)

/-- The distances of different nodes are those that the outer loop passes through. -/
def NumaInfo.Reachable (s : NumaInfo) : Prop :=
  ∀ i < s.numNodes, ∀ j < s.numNodes, i ≠ j →
    11 ≤ (s.distanceMatrix i j).toNat ∧ (s.distanceMatrix i j).toNat ≤ 254

/-- The node of an allocation that prefers a node: this one if it has enough memory, or else the first one in
the order that has. -/
def Chosen (s : NumaInfo) (size : U32) (preferred node : U8) : Prop :=
  HasFree s size node ∧
    if HasFree s size preferred then node = preferred
    else ∀ k, HasFree s size k → s.rank preferred node ≤ s.rank preferred k

variable {s : NumaInfo} {size : U32} {preferred node : U8}

theorem nodeIds_eq (s : NumaInfo) : s.nodeIds = counter 8 0 s.numNodes.toNat :=
  congrArg (List.map (BitVec.ofNat 8)) List.range_eq_range'

theorem mem_nodeIds : node ∈ s.nodeIds ↔ node < s.numNodes := by
  have hmax := s.numNodes.isLt
  rw [nodeIds_eq, mem_counter (by omega), Nat.zero_add, BitVec.lt_def]
  exact and_iff_right (Nat.zero_le _)

theorem pairwise_nodeIds (s : NumaInfo) : s.nodeIds.Pairwise fun i j => i.toNat < j.toNat := by
  have hmax := s.numNodes.isLt
  rw [nodeIds_eq]
  exact pairwise_counter (by omega)

/-- **The nodes in the order of the loops**: after the preferred one, a sweep over the distances. -/
theorem byDistance_eq (s : NumaInfo) (preferred : U8) : s.byDistance preferred =
    preferred :: sweep (List.range' 11 244) s.nodeIds fun i => (s.distanceMatrix preferred i).toNat := by
  refine congrArg (preferred :: ·) (List.flatMap_congr fun distance hd => List.filter_congr fun i _ => ?_)
  obtain ⟨hge, hlt⟩ := List.mem_range'_1.mp hd
  refine decide_eq_decide.mpr ?_
  rw [← BitVec.toNat_inj, BitVec.toNat_ofNat, Nat.mod_eq_of_lt (by omega)]

/-- With pages at hand, the node that is charged is the first one with enough memory. -/
theorem server_eq_find (hpages : (Paging.pagingAllocPages s.paging (pagesOf size)).1 ≠ 0) (nodes : List U8) :
    server s size nodes = nodes.find? fun node => HasFree s size node := by
  have hserves (node : U8) : serves s size node ↔ HasFree s size node :=
    ⟨fun h => ⟨h.1, h.2.1⟩, fun h => ⟨h.1, h.2, hpages⟩⟩
  induction nodes with
  | nil => rfl
  | cons node nodes ih =>
      rw [server, List.find?_cons]
      by_cases hfree : HasFree s size node
      · rw [if_pos ((hserves node).mpr hfree), decide_eq_true hfree]
      · -- a node without the memory changes nothing
        have hsame : (numaAllocOnNode s size node).2 = s := by
          unfold numaAllocOnNode
          by_cases hnode : s.numNodes ≤ node
          · rw [if_pos hnode]
          · have hless : (s.nodes node).freeMemory < size.setWidth 64 :=
              BitVec.not_le.mp fun hle => hfree ⟨BitVec.not_le.mp hnode, hle⟩
            rw [if_neg hnode, if_pos hless]
        rw [if_neg fun h => hfree ((hserves node).mp h), decide_eq_false hfree, hsame]
        exact ih

theorem find_byDistance (size : U32) (hdist : s.Reachable) (hp : preferred < s.numNodes) :
    match (s.byDistance preferred).find? fun node => HasFree s size node with
    | some node => Chosen s size preferred node
    | none => ∀ k, ¬HasFree s size k := by
  rw [byDistance_eq, List.find?_cons]
  by_cases hfree : HasFree s size preferred
  · rw [decide_eq_true hfree]
    exact ⟨hfree, (if_pos hfree).symm ▸ rfl⟩
  · rw [decide_eq_false hfree]
    -- another node is visited at its distance
    have hvisit : ∀ k, HasFree s size k → k ∈ s.nodeIds ∧
        (s.distanceMatrix preferred k).toNat ∈ List.range' 11 244 := fun k hk => by
      have hne : preferred ≠ k := fun h => hfree (h ▸ hk)
      have hrange := hdist preferred hp k hk.1 hne
      exact ⟨mem_nodeIds.mpr hk.1, List.mem_range'_1.mpr (by omega)⟩
    simp only
    split
    · next node hfind =>
        obtain ⟨⟨hnode, -⟩, hleast⟩ := find_sweep List.pairwise_lt_range' (pairwise_nodeIds s) hfind
        refine ⟨of_decide_eq_true hnode, ?_⟩
        rw [if_neg hfree]
        exact fun k hk => hleast k (hvisit k hk).1 (hvisit k hk).2 (decide_eq_true hk)
    · next hfind =>
        exact fun k hk => of_decide_eq_false (find_sweep_eq_none.mp hfind k (hvisit k hk).1 (hvisit k hk).2) hk

/-- From `s` to `s'` the size in whole pages, as a number, is taken from what is free at a node. -/
structure ChargesRounded (s s' : NumaInfo) (size : U32) (node : U8) : Prop where
  numNodes : s'.numNodes = s.numNodes
  nodes : s'.nodes = (s.setFree node ((s.nodes node).freeMemory - BitVec.ofNat 64 (rounded size))).nodes
  lt : node < s.numNodes

/-- What an allocation that prefers a node does: the chosen node is charged, or no node has the memory. -/
structure ServedNearest (s : NumaInfo) (size : U32) (preferred : U8) (r : Option (U32 × U8) × NumaInfo) : Prop where
  some : ∀ ptr node, r.1 = some (ptr, node) →
    ptr ≠ 0 ∧ ChargesRounded s r.2 size node ∧ Chosen s size preferred node
  none : r.1 = none → ∀ k, ¬HasFree s size k

theorem bytesOf_eq_iff : bytesOf size = BitVec.ofNat 64 (rounded size) ↔ size ≤ 0xFFFFF000 := by
  have hle := rounded_le size
  rw [← BitVec.toNat_inj, BitVec.toNat_ofNat, Nat.mod_eq_of_lt (by omega)]
  by_cases hsize : size ≤ 0xFFFFF000
  · exact iff_of_true (toNat_bytesOf_of_le hsize) hsize
  · have hpos : rounded size ≠ 0 := fun he => hsize (by rw [rounded_eq_zero.mp he]; decide)
    rw [toNat_bytesOf_of_wrap hsize]
    exact iff_of_false hpos.symm hsize

/-- What the driver takes from a node is the size in whole pages unless the rounding wraps. -/
theorem Charges.rounded_iff {s' : NumaInfo} (h : Charges s s' size node) :
    ChargesRounded s s' size node ↔ size ≤ 0xFFFFF000 := by
  rw [← bytesOf_eq_iff]
  refine ⟨fun hr => ?_, fun hsize => ⟨h.numNodes, hsize ▸ h.nodes, h.lt⟩⟩
  have hfree := congrArg (fun nodes => (nodes node).freeMemory) (h.nodes.symm.trans hr.nodes)
  simp only [NumaInfo.setFree, Function.update_self] at hfree
  exact sub_right_inj.mp hfree

/-- With pages at hand, the allocation fails if no node has the memory; or else the driver charges the preferred
node if it has, or the nearest one that has. -/
theorem preferred_cases (hdist : s.Reachable) (hp : preferred < s.numNodes)
    (hpages : (Paging.pagingAllocPages s.paging (pagesOf size)).1 ≠ 0) :
    ((numaAllocPreferred s size preferred).1 = none ∧ ∀ k, ¬HasFree s size k) ∨
    ∃ ptr node, (numaAllocPreferred s size preferred).1 = some (ptr, node) ∧ ptr ≠ 0 ∧
      Charges s (numaAllocPreferred s size preferred).2 size node ∧ Chosen s size preferred node := by
  have hout : Outcome s size (server s size (s.byDistance preferred)) (numaAllocPreferred s size preferred) :=
    serve_outcome s (.preferred size preferred)
  have hfind := find_byDistance size hdist hp
  rw [← server_eq_find hpages] at hfind
  cases hserver : server s size (s.byDistance preferred) with
  | none =>
      rw [hserver] at hfind
      exact .inl ⟨(hout.none hserver).1, hfind⟩
  | some node =>
      rw [hserver] at hfind
      obtain ⟨ptr, hptr, hne, hcharges⟩ := hout.some node hserver
      exact .inr ⟨ptr, node, hptr, hne, hcharges, hfind⟩

/-- **The nearest node**. With pages at hand, the allocation is charged to the preferred node if it has the
memory, or else to the nearest one that has, the first of these, and fails only if no node has, exactly when the
size does not wrap as it is rounded, or no node has the memory. -/
theorem preferred_nearest_iff (s : NumaInfo) (size : U32) (preferred : U8) (hdist : s.Reachable)
    (hp : preferred < s.numNodes) (hpages : (Paging.pagingAllocPages s.paging (pagesOf size)).1 ≠ 0) :
    ServedNearest s size preferred (numaAllocPreferred s size preferred) ↔
      size ≤ 0xFFFFF000 ∨ ∀ k, ¬HasFree s size k := by
  rcases preferred_cases hdist hp hpages with ⟨hnone, hfree⟩ | ⟨ptr, node, hptr, hne, hcharges, hchosen⟩
  · refine iff_of_true ⟨fun ptr node h => ?_, fun _ => hfree⟩ (.inr hfree)
    rw [hnone] at h
    cases h
  · rw [or_iff_left fun hfree => hfree node hchosen.1, ← hcharges.rounded_iff]
    refine ⟨fun h => (h.some ptr node hptr).2.1, fun hr => ⟨fun ptr' node' h => ?_, fun h => ?_⟩⟩
    · rw [hptr] at h
      obtain ⟨rfl, rfl⟩ := Prod.mk.inj (Option.some_inj.mp h)
      exact ⟨hne, hr, hchosen⟩
    · rw [hptr] at h
      cases h

/-- Three nodes: nothing is free at the first one, and the last one is nearer to it than the second. -/
def crowded : NumaInfo :=
  { machine 3 with
    nodes := fun i => ⟨0x1000000, if i = 0 then 0 else 0x1000000⟩
    distanceMatrix := fun i j => if i = j then 10 else if i = 1 ∨ j = 1 then 30 else 20 }

theorem reachable_crowded : crowded.Reachable := by
  intro i _ j _ hne
  show 11 ≤ (if i = j then (10 : U8) else if i = 1 ∨ j = 1 then 30 else 20).toNat ∧
    (if i = j then (10 : U8) else if i = 1 ∨ j = 1 then 30 else 20).toNat ≤ 254
  rw [if_neg hne]
  split_ifs
  · decide
  · decide

/-- A page that prefers the first node is charged to the last one. -/
theorem preferred_nearest_crowded : ∃ ptr s', numaAllocPreferred crowded 4096 0 = (some (ptr, 2), s') ∧
    ChargesRounded crowded s' 4096 2 := by
  have hpages : (Paging.pagingAllocPages crowded.paging (pagesOf 4096)).1 ≠ 0 := by
    have hone : pagesOf 4096 = 1 := by decide
    have hpaging : crowded.paging = Paging.start (fun _ => 0) 0x800000 := by rw [crowded, machine]
    rw [hone, hpaging]
    exact alloc_page_ne_zero
  have hp : (0 : U8) < crowded.numNodes := (by decide : (0 : U8) < 3)
  have h := (preferred_nearest_iff crowded 4096 0 reachable_crowded hp hpages).mpr (.inl (by decide))
  have hless : ¬(4096 : U32).setWidth 64 ≤ (0 : BitVec 64) := by decide
  have hlast : HasFree crowded 4096 2 :=
    ⟨by decide, (by decide : (4096 : U32).setWidth 64 ≤ (0x1000000 : BitVec 64))⟩
  obtain ⟨r, hr⟩ : ∃ r, numaAllocPreferred crowded 4096 0 = r := ⟨_, rfl⟩
  rw [hr] at h ⊢
  obtain ⟨_ | ⟨ptr, node⟩, s'⟩ := r
  · exact absurd hlast (h.none rfl 2)
  · obtain ⟨-, hcharges, ⟨hlt, hfree⟩, hchosen⟩ := h.some ptr node rfl
    rw [if_neg fun hk => hless hk.2] at hchosen
    have hrank := hchosen 2 hlast
    have hnode : node = 2 := by
      have hcases : node = 0 ∨ node = 1 ∨ node = 2 := by
        have hlt : node.toNat < 3 := hlt
        simp only [← BitVec.toNat_inj]
        show node.toNat = 0 ∨ node.toNat = 1 ∨ node.toNat = 2
        omega
      rcases hcases with rfl | rfl | rfl
      · exact absurd hfree hless
      · exact absurd hrank (by decide)
      · rfl
    exact ⟨ptr, s', hnode ▸ rfl, hnode ▸ hcharges⟩

/-- The one node of a system without NUMA, after `numa_init`. -/
def singleNode : NumaInfo :=
  { machine 1 with nodes := fun _ => ⟨0x100000000, 0x100000000⟩ }

theorem alloc_none_ne_zero (s : Paging.State) : (Paging.pagingAllocPages s 0).1 ≠ 0 := by
  have hfirst : Paging.FirstRange s 0 0 :=
    ⟨by decide, fun j hj => absurd hj (Nat.not_lt_zero j), fun k hk => absurd hk (Nat.not_lt_zero k)⟩
  rcases Paging.alloc_cases s 0 with ⟨i, hi, he⟩ | ⟨hnone, -⟩
  · obtain rfl := hi.unique hfirst
    rw [he]
    show Paging.pageAddr Paging.heapStart 0 ≠ 0
    decide
  · exact absurd hfirst (hnone 0)

/-- Nearly 4 GB round to no page: the allocation succeeds, and the node is not charged. -/
theorem preferred_not_charged : ¬ ∀ (s : NumaInfo) (size : U32) (preferred : U8), s.Reachable →
    preferred < s.numNodes → (Paging.pagingAllocPages s.paging (pagesOf size)).1 ≠ 0 →
      ServedNearest s size preferred (numaAllocPreferred s size preferred) := by
  intro hall
  have hdist : singleNode.Reachable := by
    intro i hi j hj hne
    have hi : i.toNat < 1 := hi
    have hj : j.toNat < 1 := hj
    exact absurd (BitVec.eq_of_toNat_eq (show i.toNat = j.toNat by omega)) hne
  have hp : (0 : U8) < singleNode.numNodes := (by decide : (0 : U8) < 1)
  have hpages : (Paging.pagingAllocPages singleNode.paging (pagesOf 0xFFFFF001)).1 ≠ 0 := by
    have hnone : pagesOf 0xFFFFF001 = 0 := by decide
    rw [hnone]
    exact alloc_none_ne_zero _
  have hfree : HasFree singleNode 0xFFFFF001 0 :=
    ⟨hp, (by decide : (0xFFFFF001 : U32).setWidth 64 ≤ (0x100000000 : BitVec 64))⟩
  have h := hall singleNode 0xFFFFF001 0 hdist hp hpages
  rcases preferred_cases hdist hp hpages with ⟨-, hnone⟩ | ⟨ptr, node, hptr, -, hcharges, -⟩
  · exact hnone 0 hfree
  · exact absurd (hcharges.rounded_iff.mp (h.some ptr node hptr).2.1) (by decide)

end BloodKernel.Numa
