import ScrapOS.Buddy.Partition
import ScrapOS.Memory.DirectMap

/-! The memory of `buddy.c` encodes the list allocator. While the free blocks and
the blocks in hand tile their frames, no two nodes overlap, so every link write
changes one link of one node, and each primitive of the source follows the
primitive of the list allocator. -/

set_option autoImplicit false

namespace ScrapOS.Buddy

/-- Memory and globals encode the lists: each list is doubly linked through its
nodes and counted. -/
structure Holds (m : Memory) (g : Globals) (lists : Lists) : Prop where
  linked : ∀ o, o ≤ buddyMaxOrder →
    DoublyLinked (next m) (prev m) (g.freeList o) ((lists o).map g.nodeAt)
  counted : ∀ o, o ≤ buddyMaxOrder → g.freeCount o = BitVec.ofNat 64 (lists o).length

/-- The bytes that hold the links of the free blocks. -/
def linkBytes (hhdm : Word) (lists : Lists) : Set Word :=
  {address | ∃ o, o ≤ buddyMaxOrder ∧ ∃ phys ∈ lists o, address ∈ span (phys + hhdm) 16}

/-! ## Links of page-aligned nodes -/

/-- A node that sits at the start of a frame. -/
def IsNode (hhdm n : Word) : Prop := (n - hhdm).toNat % 4096 = 0

section Links

variable {hhdm n target : Word}

theorem next_setNext (m : Memory) (value : Word) (node : IsNode hhdm n)
    (targetNode : IsNode hhdm target) :
    next (setNext m target value) n = if n = target then value else next m n := by
  split
  · next same =>
    subst same
    exact Memory.load64_store64 m n value
  · next different =>
    unfold IsNode at node targetNode
    exact Memory.load64_store64_of_apart m (by bv_omega) (by bv_omega)

theorem prev_setPrev (m : Memory) (value : Word) (node : IsNode hhdm n)
    (targetNode : IsNode hhdm target) :
    prev (setPrev m target value) n = if n = target then value else prev m n := by
  split
  · next same =>
    subst same
    exact Memory.load64_store64 m (n + 8) value
  · next different =>
    unfold IsNode at node targetNode
    exact Memory.load64_store64_of_apart m (by bv_omega) (by bv_omega)

theorem next_setPrev (m : Memory) (value : Word) (node : IsNode hhdm n)
    (targetNode : IsNode hhdm target) : next (setPrev m target value) n = next m n := by
  unfold IsNode at node targetNode
  exact Memory.load64_store64_of_apart m (by bv_omega) (by bv_omega)

theorem prev_setNext (m : Memory) (value : Word) (node : IsNode hhdm n)
    (targetNode : IsNode hhdm target) : prev (setNext m target value) n = prev m n := by
  unfold IsNode at node targetNode
  exact Memory.load64_store64_of_apart m (by bv_omega) (by bv_omega)

end Links

theorem setNext_frame (m : Memory) (n value : Word) :
    Set.EqOn (setNext m n value) m (span n 16)ᶜ :=
  eqOn_compl_mono (Memory.store64_eqOn_compl m n value) (span_mono (by decide))

theorem setPrev_frame (m : Memory) (n value : Word) :
    Set.EqOn (setPrev m n value) m (span n 16)ᶜ :=
  eqOn_compl_mono (Memory.store64_eqOn_compl m (n + 8) value) (span_subset (by bv_omega))

theorem isNode_nodeAt {g : Globals} {o : Nat} {phys : Word} (aligned : AlignedTo o phys) :
    IsNode g.gHhdm (g.nodeAt phys) := by
  obtain ⟨index, position⟩ := aligned.mono (Nat.zero_le o)
  unfold IsNode Globals.nodeAt
  bv_omega

theorem nodeAt_inj {g : Globals} {left right : Word} :
    g.nodeAt left = g.nodeAt right ↔ left = right := by
  unfold Globals.nodeAt
  constructor
  · intro same
    bv_omega
  · intro same
    rw [same]

@[simp] theorem physOf_nodeAt (g : Globals) (phys : Word) : g.physOf (g.nodeAt phys) = phys := by
  unfold Globals.physOf Globals.nodeAt
  bv_omega

/-! ## Links after the two list primitives -/

section Primitives

variable {m : Memory} {g : Globals} {order : Nat} {phys n other : Word}

theorem listPush_next (node : IsNode g.gHhdm (g.nodeAt phys))
    (headNode : g.freeList order ≠ 0 → IsNode g.gHhdm (g.freeList order))
    (otherNode : IsNode g.gHhdm other) :
    next (listPush m g order phys).1 other =
      if other = g.nodeAt phys then g.freeList order else next m other := by
  have inner : next (setNext (setPrev m (g.nodeAt phys) 0) (g.nodeAt phys) (g.freeList order))
      other = if other = g.nodeAt phys then g.freeList order else next m other := by
    rw [next_setNext _ _ otherNode node, next_setPrev _ _ otherNode node]
  simp only [listPush]
  split
  · next nonempty => rw [next_setPrev _ _ otherNode (headNode nonempty), inner]
  · exact inner

theorem listPush_prev (node : IsNode g.gHhdm (g.nodeAt phys))
    (headNode : g.freeList order ≠ 0 → IsNode g.gHhdm (g.freeList order))
    (otherNode : IsNode g.gHhdm other) :
    prev (listPush m g order phys).1 other =
      if g.freeList order ≠ 0 ∧ other = g.freeList order then g.nodeAt phys
      else if other = g.nodeAt phys then 0 else prev m other := by
  have inner : prev (setNext (setPrev m (g.nodeAt phys) 0) (g.nodeAt phys) (g.freeList order))
      other = if other = g.nodeAt phys then 0 else prev m other := by
    rw [prev_setNext _ _ otherNode node, prev_setPrev _ _ otherNode node]
  simp only [listPush]
  split
  · next nonempty =>
    rw [prev_setPrev _ _ otherNode (headNode nonempty), inner]
    simp only [nonempty, ne_eq, not_false_eq_true, true_and]
  · next empty =>
    have notHead : ¬ (g.freeList order ≠ 0 ∧ other = g.freeList order) := fun both => empty both.1
    rw [inner, if_neg notHead]

theorem listRemove_next (order : Nat) (node : IsNode g.gHhdm n)
    (prevNode : prev m n ≠ 0 → IsNode g.gHhdm (prev m n) ∧ prev m n ≠ n)
    (nextNode : next m n ≠ 0 → IsNode g.gHhdm (next m n))
    (otherNode : IsNode g.gHhdm other) :
    next (listRemove m g order n).1 other =
      if prev m n ≠ 0 ∧ other = prev m n then next m n else next m other := by
  unfold listRemove
  by_cases first : prev m n = 0
  · simp only [first, ne_eq, not_true_eq_false, if_false, false_and]
    split
    · next more => exact next_setPrev _ _ otherNode (nextNode more)
    · rfl
  · obtain ⟨prevIsNode, apart⟩ := prevNode first
    have kept : next (setNext m (prev m n) (next m n)) n = next m n := by
      rw [next_setNext _ _ node prevIsNode, if_neg fun same => apart same.symm]
    simp only [first, ne_eq, not_false_eq_true, if_true, true_and, kept]
    split
    · next more =>
      rw [next_setPrev _ _ otherNode (nextNode more), next_setNext _ _ otherNode prevIsNode]
    · exact next_setNext _ _ otherNode prevIsNode

theorem listRemove_prev (order : Nat) (node : IsNode g.gHhdm n)
    (prevNode : prev m n ≠ 0 → IsNode g.gHhdm (prev m n) ∧ prev m n ≠ n)
    (nextNode : next m n ≠ 0 → IsNode g.gHhdm (next m n))
    (otherNode : IsNode g.gHhdm other) :
    prev (listRemove m g order n).1 other =
      if next m n ≠ 0 ∧ other = next m n then prev m n else prev m other := by
  unfold listRemove
  by_cases first : prev m n = 0
  · simp only [first, ne_eq, not_true_eq_false, if_false]
    split
    · next more =>
      rw [prev_setPrev _ _ otherNode (nextNode more)]
      simp only [more, not_false_eq_true, true_and]
    · next last => rw [if_neg fun both => last both.1]
  · obtain ⟨prevIsNode, apart⟩ := prevNode first
    have kept : next (setNext m (prev m n) (next m n)) n = next m n := by
      rw [next_setNext _ _ node prevIsNode, if_neg fun same => apart same.symm]
    have kept' : ∀ {k}, IsNode g.gHhdm k →
        prev (setNext m (prev m n) (next m n)) k = prev m k :=
      fun isNode => prev_setNext _ _ isNode prevIsNode
    simp only [first, ne_eq, not_false_eq_true, if_true, kept]
    split
    · next more =>
      rw [prev_setPrev _ _ otherNode (nextNode more), kept' node, kept' otherNode]
      simp only [more, not_false_eq_true, true_and]
    · next last => rw [if_neg fun both => last both.1, kept' otherNode]

theorem listRemove_globals (m : Memory) (g : Globals) (order : Nat) (n : Word) :
    (listRemove m g order n).2 =
      { g with
        freeList := if prev m n ≠ 0 then g.freeList
          else Function.update g.freeList order (next m n)
        freeCount := Function.update g.freeCount order (g.freeCount order - 1) } := by
  unfold listRemove
  by_cases first : prev m n = 0
  · simp only [first, ne_eq, not_true_eq_false, if_false]
  · simp only [first, ne_eq, not_false_eq_true, if_true]

@[simp] theorem listRemove_gHhdm (m : Memory) (g : Globals) (order : Nat) (n : Word) :
    (listRemove m g order n).2.gHhdm = g.gHhdm := by
  rw [listRemove_globals]

@[simp] theorem listPush_gHhdm (phys : Word) : (listPush m g order phys).2.gHhdm = g.gHhdm := rfl

end Primitives

private theorem ofNat_pred {n : Nat} (positive : 0 < n) :
    BitVec.ofNat 64 n - 1 = BitVec.ofNat 64 (n - 1) := by
  bv_omega

/-! ## Nodes of a tiling -/

section Nodes

variable {managed : Set Nat} {lists : Lists} {held : List Handle} {g : Globals} {o : Nat}
  {phys : Word}

theorem nodeAt_ne_zero (usable : Usable g.gHhdm managed) (tiled : Partition managed lists held)
    {block : DyadicBlocks.Block} (present : block ∈ lists.blocks ++ held.map Handle.block)
    (aligned : AlignedTo o phys) (isBlock : blockOf o phys = block) : g.nodeAt phys ≠ 0 := by
  have inManaged := tiled.frame_mem_managed present block.first_mem_points
  have nonnull := usable.nonnull _ inManaged
  rw [← isBlock, blockOf_first aligned, BitVec.ofNat_toNat, BitVec.setWidth_eq] at nonnull
  exact nonnull

theorem nodeAt_ne_zero_of_mem (usable : Usable g.gHhdm managed)
    (tiled : Partition managed lists held) (bounded : o ≤ buddyMaxOrder)
    (member : phys ∈ lists o) : g.nodeAt phys ≠ 0 :=
  nodeAt_ne_zero usable tiled (Partition.mem_blocks_of_mem bounded member)
    (tiled.aligned o bounded phys member) rfl

theorem nodeAt_ne_zero_of_held (usable : Usable g.gHhdm managed)
    (tiled : Partition managed lists held) (member : (phys, o) ∈ held) : g.nodeAt phys ≠ 0 :=
  nodeAt_ne_zero usable tiled (Partition.mem_blocks_of_held member)
    (tiled.heldAligned _ member).2 rfl

end Nodes

namespace Holds

variable {m : Memory} {g : Globals} {lists : Lists} {managed : Set Nat} {held : List Handle}
  {order : Nat} {phys : Word}

theorem freeList_eq_zero_iff (holds : Holds m g lists) {o : Nat} (bounded : o ≤ buddyMaxOrder) :
    g.freeList o = 0 ↔ lists o = [] := by
  rw [(holds.linked o bounded).head_eq_zero_iff, List.map_eq_nil_iff]

theorem freeList_eq (holds : Holds m g lists) {o : Nat} (bounded : o ≤ buddyMaxOrder)
    {rest : List Word} (shape : lists o = phys :: rest) : g.freeList o = g.nodeAt phys := by
  have first := (holds.linked o bounded).forward.first_eq
  rw [shape] at first
  exact first

theorem nodup (holds : Holds m g lists) {o : Nat} (bounded : o ≤ buddyMaxOrder) :
    (lists o).Nodup :=
  (holds.linked o bounded).nodup.of_map

/-- Memory that agrees on the link bytes encodes the same lists. -/
theorem congr {m' : Memory} (holds : Holds m g lists)
    (agree : Set.EqOn m' m (linkBytes g.gHhdm lists)) : Holds m' g lists where
  linked := by
    intro o bounded
    refine (holds.linked o bounded).congr ?_ ?_
    · intro node member
      obtain ⟨phys, present, rfl⟩ := List.mem_map.mp member
      refine Memory.load64_congr (agree.mono fun address inSpan => ?_)
      exact ⟨o, bounded, phys, present, span_mono (by decide) inSpan⟩
    · intro node member
      obtain ⟨phys, present, rfl⟩ := List.mem_map.mp member
      refine Memory.load64_congr (agree.mono fun address inSpan => ?_)
      have inNode : span (g.nodeAt phys + 8) 8 ⊆ span (g.nodeAt phys) 16 :=
        span_subset (by bv_omega)
      exact ⟨o, bounded, phys, present, inNode inSpan⟩
  counted := holds.counted

theorem freeList_isNode (holds : Holds m g lists) (tiled : Partition managed lists held) {o : Nat}
    (bounded : o ≤ buddyMaxOrder) (nonempty : g.freeList o ≠ 0) :
    IsNode g.gHhdm (g.freeList o) := by
  cases shape : lists o with
  | nil => exact absurd ((holds.freeList_eq_zero_iff bounded).mpr shape) nonempty
  | cons first rest =>
      rw [holds.freeList_eq bounded shape]
      exact isNode_nodeAt (tiled.aligned o bounded first (by simp [shape]))

/-- A node is on the list its block is on and on no other. -/
theorem ne_freeList_of_ne (holds : Holds m g lists) (tiled : Partition managed lists held)
    {o other : Nat} (different : o ≠ other) (bounded : o ≤ buddyMaxOrder) (member : phys ∈ lists o)
    (bounded' : other ≤ buddyMaxOrder) (nonempty : g.freeList other ≠ 0) :
    g.nodeAt phys ≠ g.freeList other := by
  intro same
  cases shape : lists other with
  | nil => exact nonempty ((holds.freeList_eq_zero_iff bounded').mpr shape)
  | cons first rest =>
      rw [holds.freeList_eq bounded' shape, nodeAt_inj] at same
      have onHead : phys ∈ lists other := by simp [shape, same]
      exact different (tiled.order_unique bounded member bounded' onHead)

/-! ## `list_push` -/

theorem pushed_fresh (g : Globals) (tiled : Partition managed lists ((phys, order) :: held)) {o : Nat}
    (bound : o ≤ buddyMaxOrder) :
    ∀ q ∈ lists o, IsNode g.gHhdm (g.nodeAt q) ∧ g.nodeAt q ≠ g.nodeAt phys := by
  intro q present
  refine ⟨isNode_nodeAt (tiled.aligned o bound q present), fun same => ?_⟩
  rw [nodeAt_inj.mp same] at present
  exact tiled.held_not_mem List.mem_cons_self bound present

section Push

variable (holds : Holds m g lists) (usable : Usable g.gHhdm managed)
  (tiled : Partition managed lists ((phys, order) :: held))

include holds tiled

theorem push_other {o : Nat} (bound : o ≤ buddyMaxOrder) (different : o ≠ order) :
    DoublyLinked (next (listPush m g order phys).1) (prev (listPush m g order phys).1)
      ((listPush m g order phys).2.freeList o)
      ((lists.push order phys o).map (listPush m g order phys).2.nodeAt) := by
  obtain ⟨bounded, aligned⟩ : order ≤ buddyMaxOrder ∧ AlignedTo order phys :=
    tiled.heldAligned (phys, order) List.mem_cons_self
  have node : IsNode g.gHhdm (g.nodeAt phys) := isNode_nodeAt aligned
  have headNode := holds.freeList_isNode tiled bounded
  have fresh := pushed_fresh g tiled bound
  have head : (listPush m g order phys).2.freeList o = g.freeList o := by
    simp only [listPush, Function.update_of_ne different]
  have nodes : (lists.push order phys o).map (listPush m g order phys).2.nodeAt =
      (lists o).map g.nodeAt := by
    rw [Lists.push, Function.update_of_ne different]
    rfl
  rw [head, nodes]
  refine (holds.linked o bound).congr ?_ ?_
  · intro other member
    obtain ⟨q, present, rfl⟩ := List.mem_map.mp member
    obtain ⟨otherNode, apart⟩ := fresh q present
    rw [listPush_next node headNode otherNode, if_neg apart]
  · intro other member
    obtain ⟨q, present, rfl⟩ := List.mem_map.mp member
    obtain ⟨otherNode, apart⟩ := fresh q present
    rw [listPush_prev node headNode otherNode, if_neg, if_neg apart]
    rintro ⟨nonempty, equal⟩
    exact holds.ne_freeList_of_ne tiled different bound present bounded nonempty equal

include usable

theorem push_own :
    DoublyLinked (next (listPush m g order phys).1) (prev (listPush m g order phys).1)
      ((listPush m g order phys).2.freeList order)
      ((lists.push order phys order).map (listPush m g order phys).2.nodeAt) := by
  obtain ⟨bounded, aligned⟩ : order ≤ buddyMaxOrder ∧ AlignedTo order phys :=
    tiled.heldAligned (phys, order) List.mem_cons_self
  have node : IsNode g.gHhdm (g.nodeAt phys) := isNode_nodeAt aligned
  have nonnull : g.nodeAt phys ≠ 0 := nodeAt_ne_zero_of_held usable tiled List.mem_cons_self
  have headNode := holds.freeList_isNode tiled bounded
  have fresh := pushed_fresh g tiled bounded
  have head : (listPush m g order phys).2.freeList order = g.nodeAt phys := by
    simp only [listPush, Function.update_self]
  have nodes : (lists.push order phys order).map (listPush m g order phys).2.nodeAt =
      g.nodeAt phys :: (lists order).map g.nodeAt := by
    rw [Lists.push, Function.update_self]
    rfl
  have isNode : ∀ other ∈ g.nodeAt phys :: (lists order).map g.nodeAt,
      IsNode g.gHhdm other := by
    intro other member
    cases List.mem_cons.mp member with
    | inl here => exact here ▸ node
    | inr older =>
        obtain ⟨q, present, rfl⟩ := List.mem_map.mp older
        exact (fresh q present).1
  rw [head, nodes]
  refine (holds.linked order bounded).push nonnull ?_ ?_ ?_
  · intro member
    obtain ⟨q, present, same⟩ := List.mem_map.mp member
    exact (fresh q present).2 same
  · intro other member
    exact listPush_next node headNode (isNode other member)
  · intro other member
    exact listPush_prev node headNode (isNode other member)

theorem push : Holds (listPush m g order phys).1 (listPush m g order phys).2
    (lists.push order phys) where
  linked := by
    intro o bound
    by_cases same : o = order
    · subst same
      exact holds.push_own usable tiled
    · exact holds.push_other tiled bound same
  counted := by
    intro o bound
    have counted := holds.counted o bound
    by_cases same : o = order
    · subst same
      simp only [listPush, Lists.push, Function.update_self, counted, List.length_cons,
        BitVec.ofNat_add]
      rfl
    · simp only [listPush, Lists.push, Function.update_of_ne same, counted]

end Push

/-- The push writes only links of blocks that are free afterwards. -/
theorem push_frame (holds : Holds m g lists) (phys : Word) (bounded : order ≤ buddyMaxOrder) :
    Set.EqOn (listPush m g order phys).1 m (linkBytes g.gHhdm (lists.push order phys))ᶜ := by
  have own : span (g.nodeAt phys) 16 ⊆ linkBytes g.gHhdm (lists.push order phys) :=
    fun address inSpan => ⟨order, bounded, phys, by simp [Lists.push], inSpan⟩
  have inner : Set.EqOn (setNext (setPrev m (g.nodeAt phys) 0) (g.nodeAt phys) (g.freeList order)) m
      (linkBytes g.gHhdm (lists.push order phys))ᶜ :=
    eqOn_compl_mono (eqOn_compl_trans (setPrev_frame _ _ _) (setNext_frame _ _ _))
      (Set.union_subset own own)
  simp only [listPush]
  split
  · next nonempty =>
    cases shape : lists order with
    | nil => exact absurd ((holds.freeList_eq_zero_iff bounded).mpr shape) nonempty
    | cons first rest =>
        have head : span (g.freeList order) 16 ⊆ linkBytes g.gHhdm (lists.push order phys) := by
          rw [holds.freeList_eq bounded shape]
          exact fun address inSpan => ⟨order, bounded, first, by simp [Lists.push, shape], inSpan⟩
        exact eqOn_compl_mono (eqOn_compl_trans inner (setPrev_frame _ _ _))
          (Set.union_subset (le_refl _) head)
  · exact inner

/-! ## `list_remove` -/

section Remove

variable (holds : Holds m g lists) (tiled : Partition managed lists held)
  (bounded : order ≤ buddyMaxOrder) (member : phys ∈ lists order)

include holds tiled bounded member

theorem neighbours : IsNode g.gHhdm (g.nodeAt phys) ∧
    (prev m (g.nodeAt phys) ≠ 0 →
      ∃ q ∈ lists order, prev m (g.nodeAt phys) = g.nodeAt q ∧ q ≠ phys) ∧
    (next m (g.nodeAt phys) ≠ 0 →
      ∃ q ∈ lists order, next m (g.nodeAt phys) = g.nodeAt q ∧ q ≠ phys) := by
  refine ⟨isNode_nodeAt (tiled.aligned order bounded phys member), ?_, ?_⟩
  · intro nonempty
    obtain ⟨before, behind, shape⟩ := List.append_of_mem member
    have linked := holds.linked order bounded
    have unique := holds.nodup bounded
    rw [shape, List.map_append, List.map_cons] at linked
    have prevNode := linked.prev_eq
    rcases List.eq_nil_or_concat' before with rfl | ⟨earlier, last, rfl⟩
    · exact absurd prevNode nonempty
    · refine ⟨last, by rw [shape]; simp, by rw [prevNode]; simp, ?_⟩
      rintro rfl
      rw [shape] at unique
      exact (List.nodup_append.mp unique).2.2 last (by simp) last (by simp) rfl
  · intro nonempty
    obtain ⟨before, behind, shape⟩ := List.append_of_mem member
    have linked := holds.linked order bounded
    have unique := holds.nodup bounded
    rw [shape, List.map_append, List.map_cons] at linked
    have nextNode := linked.next_eq
    cases behind with
    | nil => exact absurd nextNode nonempty
    | cons front later =>
        refine ⟨front, by rw [shape]; simp, by rw [nextNode]; rfl, ?_⟩
        rintro rfl
        rw [shape] at unique
        exact (List.nodup_cons.mp (List.nodup_append.mp unique).2.1).1 List.mem_cons_self

theorem prev_isNode (nonempty : prev m (g.nodeAt phys) ≠ 0) :
    IsNode g.gHhdm (prev m (g.nodeAt phys)) ∧ prev m (g.nodeAt phys) ≠ g.nodeAt phys := by
  obtain ⟨q, present, same, different⟩ := (holds.neighbours tiled bounded member).2.1 nonempty
  rw [same]
  exact ⟨isNode_nodeAt (tiled.aligned order bounded q present), fun equal =>
    different (nodeAt_inj.mp equal)⟩

theorem next_isNode (nonempty : next m (g.nodeAt phys) ≠ 0) :
    IsNode g.gHhdm (next m (g.nodeAt phys)) := by
  obtain ⟨q, present, same, -⟩ := (holds.neighbours tiled bounded member).2.2 nonempty
  rw [same]
  exact isNode_nodeAt (tiled.aligned order bounded q present)

theorem remove_own :
    DoublyLinked (next (listRemove m g order (g.nodeAt phys)).1)
      (prev (listRemove m g order (g.nodeAt phys)).1)
      (if prev m (g.nodeAt phys) ≠ 0 then g.freeList order else next m (g.nodeAt phys))
      ((lists.remove order phys order).map g.nodeAt) := by
  have node := (holds.neighbours tiled bounded member).1
  have prevNode := holds.prev_isNode tiled bounded member
  have nextNode := holds.next_isNode tiled bounded member
  obtain ⟨before, behind, -, shape, erased⟩ := List.exists_erase_eq member
  have linked := holds.linked order bounded
  have isNode : ∀ other ∈ before.map g.nodeAt ++ behind.map g.nodeAt, IsNode g.gHhdm other := by
    intro other present
    rw [← List.map_append, List.mem_map] at present
    obtain ⟨q, present, rfl⟩ := present
    refine isNode_nodeAt (tiled.aligned order bounded q ?_)
    rw [shape]
    cases List.mem_append.mp present with
    | inl inBefore => exact List.mem_append_left _ inBefore
    | inr inBehind => exact List.mem_append_right _ (List.mem_cons_of_mem _ inBehind)
  rw [shape, List.map_append, List.map_cons] at linked
  have unlinked := linked.unlink
    (fun other present => listRemove_next order node prevNode nextNode (isNode other present))
    (fun other present => listRemove_prev order node prevNode nextNode (isNode other present))
  rw [← List.map_append, ← erased] at unlinked
  rw [Lists.remove, Function.update_self]
  exact unlinked

theorem remove_other {o : Nat} (bound : o ≤ buddyMaxOrder) (different : o ≠ order) :
    DoublyLinked (next (listRemove m g order (g.nodeAt phys)).1)
      (prev (listRemove m g order (g.nodeAt phys)).1) (g.freeList o)
      ((lists.remove order phys o).map g.nodeAt) := by
  obtain ⟨node, prevKnown, nextKnown⟩ := holds.neighbours tiled bounded member
  have prevNode := holds.prev_isNode tiled bounded member
  have nextNode := holds.next_isNode tiled bounded member
  have elsewhere : ∀ q ∈ lists order, ∀ q' ∈ lists o, g.nodeAt q' ≠ g.nodeAt q := by
    intro q present q' present' equal
    rw [nodeAt_inj] at equal
    exact different (tiled.order_unique bound present' bounded (equal ▸ present))
  rw [Lists.remove, Function.update_of_ne different]
  refine (holds.linked o bound).congr ?_ ?_
  · intro other present
    obtain ⟨q', present', rfl⟩ := List.mem_map.mp present
    have otherNode := isNode_nodeAt (g := g) (tiled.aligned o bound q' present')
    rw [listRemove_next order node prevNode nextNode otherNode, if_neg]
    rintro ⟨nonempty, equal⟩
    obtain ⟨q, onList, isPrev, -⟩ := prevKnown nonempty
    exact elsewhere q onList q' present' (equal.trans isPrev)
  · intro other present
    obtain ⟨q', present', rfl⟩ := List.mem_map.mp present
    have otherNode := isNode_nodeAt (g := g) (tiled.aligned o bound q' present')
    rw [listRemove_prev order node prevNode nextNode otherNode, if_neg]
    rintro ⟨nonempty, equal⟩
    obtain ⟨q, onList, isNext, -⟩ := nextKnown nonempty
    exact elsewhere q onList q' present' (equal.trans isNext)

theorem remove :
    Holds (listRemove m g order (g.nodeAt phys)).1 (listRemove m g order (g.nodeAt phys)).2
      (lists.remove order phys) where
  linked := by
    intro o bound
    have nodes : ∀ l : List Word, l.map (listRemove m g order (g.nodeAt phys)).2.nodeAt =
        l.map g.nodeAt := by
      intro l
      refine List.map_congr_left fun q _ => ?_
      rw [Globals.nodeAt, listRemove_gHhdm, Globals.nodeAt]
    rw [nodes, listRemove_globals]
    dsimp only
    by_cases same : o = order
    · subst same
      have head : (if prev m (g.nodeAt phys) ≠ 0 then g.freeList
          else Function.update g.freeList o (next m (g.nodeAt phys))) o =
            if prev m (g.nodeAt phys) ≠ 0 then g.freeList o else next m (g.nodeAt phys) := by
        split
        · rfl
        · exact Function.update_self ..
      rw [head]
      exact holds.remove_own tiled bounded member
    · have head : (if prev m (g.nodeAt phys) ≠ 0 then g.freeList
          else Function.update g.freeList order (next m (g.nodeAt phys))) o = g.freeList o := by
        split
        · rfl
        · exact Function.update_of_ne same ..
      rw [head]
      exact holds.remove_other tiled bounded member bound same
  counted := by
    intro o bound
    have counted := holds.counted o bound
    rw [listRemove_globals]
    dsimp only
    by_cases same : o = order
    · subst same
      have shorter := List.length_erase_of_mem member
      have nonempty := List.length_pos_of_mem member
      rw [Function.update_self, counted, Lists.remove, Function.update_self, shorter,
        ofNat_pred nonempty]
    · rw [Function.update_of_ne same, Lists.remove, Function.update_of_ne same, counted]

/-- The removal writes only links of blocks that are free beforehand. -/
theorem remove_frame :
    Set.EqOn (listRemove m g order (g.nodeAt phys)).1 m (linkBytes g.gHhdm lists)ᶜ := by
  obtain ⟨node, prevKnown, nextKnown⟩ := holds.neighbours tiled bounded member
  have onList : ∀ q ∈ lists order, span (g.nodeAt q) 16 ⊆ linkBytes g.gHhdm lists :=
    fun q present address inSpan => ⟨order, bounded, q, present, inSpan⟩
  have nextFrame : ∀ value, next m (g.nodeAt phys) ≠ 0 → ∀ m₁ : Memory,
      Set.EqOn m₁ m (linkBytes g.gHhdm lists)ᶜ →
      Set.EqOn (setPrev m₁ (next m (g.nodeAt phys)) value) m (linkBytes g.gHhdm lists)ᶜ := by
    intro value nonempty m₁ frame
    obtain ⟨q, present, same, -⟩ := nextKnown nonempty
    rw [same]
    exact eqOn_compl_mono (eqOn_compl_trans frame (setPrev_frame _ _ _))
      (Set.union_subset (le_refl _) (onList q present))
  unfold listRemove
  by_cases first : prev m (g.nodeAt phys) = 0
  · simp only [first, ne_eq, not_true_eq_false, if_false]
    split
    · next more => exact nextFrame _ more m fun _ _ => rfl
    · exact fun _ _ => rfl
  · obtain ⟨q, present, same, different⟩ := prevKnown first
    have prevNode := isNode_nodeAt (g := g) (tiled.aligned order bounded q present)
    have kept : next (setNext m (prev m (g.nodeAt phys)) (next m (g.nodeAt phys)))
        (g.nodeAt phys) = next m (g.nodeAt phys) := by
      rw [same, next_setNext _ _ node prevNode, if_neg fun equal => different
        (nodeAt_inj.mp equal).symm]
    have written : Set.EqOn (setNext m (prev m (g.nodeAt phys)) (next m (g.nodeAt phys))) m
        (linkBytes g.gHhdm lists)ᶜ := by
      rw [same]
      exact eqOn_compl_mono (setNext_frame _ _ _) (onList q present)
    simp only [first, ne_eq, not_false_eq_true, if_true, kept]
    split
    · next more => exact nextFrame _ more _ written
    · exact written

end Remove

/-! ## `list_find` -/

theorem listFind_eq (holds : Holds m g lists) (bounded : order ≤ buddyMaxOrder) (phys : Word) :
    listFind m g order phys = some (if phys ∈ lists order then g.nodeAt phys else 0) := by
  have linked := holds.linked order bounded
  have running : ∀ q ∈ lists order, q ≠ phys →
      (g.nodeAt q == 0 || g.physOf (g.nodeAt q) == phys) = false := by
    intro q present different
    have nonnull := linked.nonnull _ (List.mem_map_of_mem present)
    rw [physOf_nodeAt, Bool.or_eq_false_iff]
    exact ⟨beq_eq_false_iff_ne.mpr nonnull, beq_eq_false_iff_ne.mpr different⟩
  unfold listFind
  split
  · next member =>
    obtain ⟨before, behind, absent, shape, -⟩ := List.exists_erase_eq member
    have forward := linked.forward
    rw [shape, List.map_append, List.map_cons] at forward
    refine forward.walk_eq_some ?_ ?_
    · intro other present
      obtain ⟨q, inBefore, rfl⟩ := List.mem_map.mp present
      exact running q (by rw [shape]; exact List.mem_append_left _ inBefore)
        fun same => absent (same ▸ inBefore)
    · simp
  · next absent =>
    rw [linked.forward.walk_eq, walk_of_stop]
    · rfl
    · intro other present
      obtain ⟨q, inList, rfl⟩ := List.mem_map.mp present
      exact running q inList fun same => absent (same ▸ inList)

end Holds

/-! ## The operations -/

/-- What a call leaves behind: memory and globals that encode the new lists, the
same direct map, and no change outside the links of blocks free before or after. -/
structure Follows (m : Memory) (g : Globals) (lists : Lists) (m' : Memory) (g' : Globals)
    (lists' : Lists) : Prop where
  holds : Holds m' g' lists'
  gHhdm : g'.gHhdm = g.gHhdm
  frame : Set.EqOn m' m (linkBytes g.gHhdm lists ∪ linkBytes g.gHhdm lists')ᶜ

section Operations

variable {m : Memory} {g : Globals} {lists : Lists} {managed : Set Nat} {held : List Handle}
  {order : Nat} {phys : Word}

theorem linkBytes_push_of_mem {hhdm : Word} {o : Nat} {address : Word}
    (inside : address ∈ linkBytes hhdm lists) :
    address ∈ linkBytes hhdm (lists.push o phys) := by
  obtain ⟨o', bounded, q, present, inSpan⟩ := inside
  refine ⟨o', bounded, q, ?_, inSpan⟩
  by_cases same : o' = o
  · subst same
    simp [Lists.push, present]
  · rwa [Lists.push, Function.update_of_ne same]

theorem linkBytes_remove_subset {hhdm : Word} {o : Nat} :
    linkBytes hhdm (lists.remove o phys) ⊆ linkBytes hhdm lists := by
  rintro address ⟨o', bounded, q, present, inSpan⟩
  refine ⟨o', bounded, q, ?_, inSpan⟩
  by_cases same : o' = o
  · subst same
    rw [Lists.remove, Function.update_self] at present
    exact List.mem_of_mem_erase present
  · rwa [Lists.remove, Function.update_of_ne same] at present

theorem linkBytes_splitDown_of_mem {hhdm : Word} {o : Nat} {address : Word}
    (inside : address ∈ linkBytes hhdm lists) :
    address ∈ linkBytes hhdm (lists.splitDown phys order o) := by
  induction o generalizing lists with
  | zero => exact inside
  | succ o ih =>
      rw [Lists.splitDown]
      split
      · exact ih (linkBytes_push_of_mem inside)
      · exact inside

/-- The split loop only pushes, so its writes stay within the links of its last lists. -/
theorem splitDown_follows (order : Nat) {o : Nat} (holds : Holds m g lists) (usable : Usable g.gHhdm managed)
    (tiled : Partition managed lists ((phys, o) :: held)) :
    Holds (splitDown m g phys order o).1 (splitDown m g phys order o).2
        (lists.splitDown phys order o) ∧
      (splitDown m g phys order o).2.gHhdm = g.gHhdm ∧
      Set.EqOn (splitDown m g phys order o).1 m
        (linkBytes g.gHhdm (lists.splitDown phys order o))ᶜ := by
  induction o generalizing m g lists with
  | zero => exact ⟨holds, rfl, fun _ _ => rfl⟩
  | succ o ih =>
      rw [splitDown, Lists.splitDown]
      split
      · have halved := tiled.halve
        have bounded : o ≤ buddyMaxOrder := (halved.heldAligned _ List.mem_cons_self).1
        have pushed := holds.push usable halved
        have frame := holds.push_frame (phys + blockBytes o) bounded
        obtain ⟨holds', gHhdm', frame'⟩ := ih pushed usable halved.give
        rw [listPush_gHhdm] at frame'
        refine ⟨holds', gHhdm', fun address outside => ?_⟩
        refine (frame' outside).trans (frame fun inside => outside ?_)
        exact linkBytes_splitDown_of_mem inside
      · exact ⟨holds, rfl, fun _ _ => rfl⟩

theorem searchOrder_eq (holds : Holds m g lists) {steps o : Nat} :
    searchOrder g steps o = lists.searchOrder steps o := by
  induction steps generalizing o with
  | zero => rfl
  | succ steps ih =>
      rw [searchOrder, Lists.searchOrder]
      by_cases bounded : o ≤ buddyMaxOrder
      · have empty := holds.freeList_eq_zero_iff bounded
        simp only [bounded, true_and, empty, ih]
      · simp only [bounded, false_and, if_false]

theorem buddyAlloc_follows (holds : Holds m g lists) (usable : Usable g.gHhdm managed)
    (tiled : Partition managed lists held) (order : Nat) :
    (buddyAlloc m g order).1 = (lists.alloc order).1 ∧
      Follows m g lists (buddyAlloc m g order).2.1 (buddyAlloc m g order).2.2
        (lists.alloc order).2 := by
  have unchanged : Follows m g lists m g lists := ⟨holds, rfl, fun _ _ => rfl⟩
  unfold buddyAlloc Lists.alloc
  split
  · exact ⟨rfl, unchanged⟩
  · next accepted =>
    obtain ⟨-, -, found⟩ := Lists.searchOrder_spec lists
      (show buddyMaxOrder < order + (buddyMaxOrder + 1) by omega)
    simp only [searchOrder_eq holds]
    split
    · exact ⟨rfl, unchanged⟩
    · next available =>
      have bounded : lists.searchOrder (buddyMaxOrder + 1) order ≤ buddyMaxOrder := by omega
      obtain ⟨phys, rest, shape⟩ := List.exists_cons_of_ne_nil (found bounded)
      have member : phys ∈ lists (lists.searchOrder (buddyMaxOrder + 1) order) :=
        shape ▸ List.mem_cons_self
      have removed := holds.remove tiled bounded member
      have removedFrame := holds.remove_frame tiled bounded member
      have taken := tiled.take bounded member
      have split := splitDown_follows order removed
        (by rw [listRemove_gHhdm]; exact usable) taken
      rw [listRemove_gHhdm] at split
      have popped : (listRemove m g (lists.searchOrder (buddyMaxOrder + 1) order)
          (g.nodeAt phys)).2.physOf (g.nodeAt phys) = phys := by
        rw [Globals.physOf, listRemove_gHhdm]
        exact physOf_nodeAt g phys
      simp only [holds.freeList_eq bounded shape, shape, List.headD_cons, popped]
      refine ⟨trivial, split.1, split.2.1, fun address outside => ?_⟩
      rw [Set.compl_union] at outside
      exact (split.2.2 outside.2).trans (removedFrame outside.1)

/-- An allocation is refused when all lists it may take from are empty, and then changes
nothing. -/
theorem buddyAlloc_refused_iff (holds : Holds m g lists) (usable : Usable g.gHhdm managed)
    (tiled : Partition managed lists held) (order : Nat) :
    ((buddyAlloc m g order).1 = 0 ↔ ∀ o, order ≤ o → o ≤ buddyMaxOrder → lists o = []) ∧
      ((buddyAlloc m g order).1 = 0 → buddyAlloc m g order = (0, m, g)) := by
  have refused : (buddyAlloc m g order).1 = 0 ↔
      ∀ o, order ≤ o → o ≤ buddyMaxOrder → lists o = [] := by
    rw [(buddyAlloc_follows holds usable tiled order).1]
    rcases Lists.alloc_cases lists order with ⟨failed, empty⟩ | ⟨o, phys, rest, low, bounded, shape, -, taken⟩
    · rw [failed]
      exact ⟨fun _ => empty, fun _ => rfl⟩
    · rw [taken]
      have nonzero := tiled.ne_zero_of_mem usable.zero bounded (shape ▸ List.mem_cons_self)
      constructor
      · exact fun null => absurd null nonzero
      · intro empty
        rw [empty o low bounded] at shape
        cases shape
  refine ⟨refused, fun null => ?_⟩
  have empty := refused.mp null
  rw [buddyAlloc]
  by_cases outside : order > buddyMaxOrder
  · rw [if_pos outside]
  · obtain ⟨low, -, found⟩ := Lists.searchOrder_spec lists
      (show buddyMaxOrder < order + (buddyMaxOrder + 1) by omega)
    have past : lists.searchOrder (buddyMaxOrder + 1) order > buddyMaxOrder := by
      by_contra bounded
      exact found (Nat.not_lt.mp bounded) (empty _ low (Nat.not_lt.mp bounded))
    rw [if_neg outside, searchOrder_eq holds]
    exact if_pos past

theorem push_follows (holds : Holds m g lists) (usable : Usable g.gHhdm managed)
    (tiled : Partition managed lists ((phys, order) :: held)) :
    Follows m g lists (listPush m g order phys).1 (listPush m g order phys).2
      (lists.push order phys) where
  holds := holds.push usable tiled
  gHhdm := rfl
  frame := eqOn_compl_mono (holds.push_frame phys (tiled.heldAligned _ List.mem_cons_self).1)
    Set.subset_union_right

theorem Follows.of_remove {o : Nat} {n : Word} {lists' : Lists} {m' : Memory} {g' : Globals}
    (frame : Set.EqOn (listRemove m g o n).1 m (linkBytes g.gHhdm lists)ᶜ)
    (follows : Follows (listRemove m g o n).1 (listRemove m g o n).2 (lists.remove o phys)
      m' g' lists') : Follows m g lists m' g' lists' := by
  have later := follows.frame
  rw [listRemove_gHhdm] at later
  have earlier : linkBytes g.gHhdm (lists.remove o phys) ⊆ linkBytes g.gHhdm lists :=
    linkBytes_remove_subset
  refine ⟨follows.holds, ?_, ?_⟩
  · rw [follows.gHhdm, listRemove_gHhdm]
  · exact eqOn_compl_mono (eqOn_compl_trans frame later)
      (Set.union_subset Set.subset_union_left (Set.union_subset_union_left _ earlier))

/-- The merge loop removes before its one push, so its writes stay within the links
of its first and last lists. -/
theorem mergeUp_follows {steps : Nat} (holds : Holds m g lists) (usable : Usable g.gHhdm managed)
    (tiled : Partition managed lists ((phys, order) :: held)) :
    ∃ m' g', mergeUp steps m g phys order = some (m', g') ∧
      Follows m g lists m' g' (Lists.mergeUp steps lists phys order) := by
  induction steps generalizing m g lists phys order with
  | zero => exact ⟨_, _, rfl, push_follows holds usable tiled⟩
  | succ steps ih =>
      have bounded : order ≤ buddyMaxOrder := (tiled.heldAligned _ List.mem_cons_self).1
      rw [mergeUp, Lists.mergeUp]
      split
      · next below =>
        dsimp only
        rw [holds.listFind_eq bounded]
        by_cases present : phys ^^^ blockBytes order ∈ lists order
        · have nonnull := nodeAt_ne_zero_of_mem usable tiled bounded present
          have usable' : Usable (listRemove m g order
              (g.nodeAt (phys ^^^ blockBytes order))).2.gHhdm managed := by
            rw [listRemove_gHhdm]
            exact usable
          obtain ⟨m', g', result, follows⟩ := ih (holds.remove tiled bounded present) usable'
            ((tiled.take bounded present).join below)
          simp only [present, if_true, if_neg nonnull]
          exact ⟨m', g', result,
            Follows.of_remove (holds.remove_frame tiled bounded present) follows⟩
        · simp only [present, if_false, if_true]
          exact ⟨_, _, rfl, push_follows holds usable tiled⟩
      · exact ⟨_, _, rfl, push_follows holds usable tiled⟩

theorem buddyFree_follows (holds : Holds m g lists) (usable : Usable g.gHhdm managed)
    (tiled : Partition managed lists ((phys, order) :: held)) :
    ∃ m' g', buddyFree m g phys order = some (m', g') ∧
      Follows m g lists m' g' (lists.free phys order) := by
  have bounded : order ≤ buddyMaxOrder := (tiled.heldAligned _ List.mem_cons_self).1
  rw [buddyFree, Lists.free, if_neg (Nat.not_lt.mpr bounded), if_neg (Nat.not_lt.mpr bounded)]
  exact mergeUp_follows holds usable tiled

end Operations

end ScrapOS.Buddy
