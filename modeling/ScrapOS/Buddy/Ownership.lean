import ScrapOS.Buddy.Runs

/-! Exact ownership: in every reachable state the free and the live blocks tile
the managed frames, and the counters of the allocator agree with that tiling. -/

set_option autoImplicit false

namespace ScrapOS.Buddy

open DyadicBlocks

/-- The free lists and the live blocks of a state account for every managed frame. -/
structure ExactPartition (managed : Set Nat) (c : Config) (lists : Lists) : Prop where
  holds : Holds c.mem c.globals lists
  disjoint : (lists.blocks ++ c.live.map Handle.block).Pairwise
    fun left right => Disjoint left.points right.points
  covers : ∀ frame, frame ∈ managed ↔
    ∃ block ∈ lists.blocks ++ c.live.map Handle.block, frame ∈ block.points
  freeAligned : ∀ o, o ≤ buddyMaxOrder → ∀ phys ∈ lists o, AlignedTo o phys
  liveAligned : ∀ handle ∈ c.live, handle.2 ≤ buddyMaxOrder ∧ AlignedTo handle.2 handle.1
  counted : ∀ o, o ≤ buddyMaxOrder → (c.globals.freeCount o).toNat = (lists o).length
  total : (totalFreeBytes c.globals).toNat + (c.live.map fun handle => 4096 * 2 ^ handle.2).sum =
    4096 * managed.ncard

/-- The bytes of a block as the direct map shows them. -/
def Handle.bytes (hhdm : Word) (handle : Handle) : Set Word :=
  span (handle.1 + hhdm) (4096 * 2 ^ handle.2)

namespace Partition

variable {managed : Set Nat} {lists : Lists} {held : List Handle}

theorem block_end_le (tiled : Partition managed lists held) {block : Block}
    (member : block ∈ lists.blocks ++ held.map Handle.block) :
    block.first + 2 ^ block.order ≤ 2 ^ 52 := by
  have fromAddress : ∀ o phys, o ≤ buddyMaxOrder → AlignedTo o phys →
      (blockOf o phys).first + 2 ^ o ≤ 2 ^ 52 := by
    intro o phys bounded aligned
    have fits := aligned.add_le bounded
    have start := blockOf_first aligned
    have size : 2 ^ (12 + o) = 4096 * 2 ^ o := Nat.pow_add 2 12 o
    omega
  rcases List.mem_append.mp member with free | live
  · obtain ⟨o, bounded, phys, present, rfl⟩ := Lists.mem_blocks.mp free
    exact fromAddress o phys bounded (tiled.aligned o bounded phys present)
  · obtain ⟨handle, present, rfl⟩ := List.mem_map.mp live
    obtain ⟨bounded, aligned⟩ := tiled.heldAligned handle present
    exact fromAddress handle.2 handle.1 bounded aligned

theorem managed_lt (tiled : Partition managed lists held) {frame : Nat}
    (member : frame ∈ managed) : frame < 2 ^ 52 := by
  obtain ⟨block, present, inBlock⟩ := tiled.mem_managed_iff.mp member
  have last := tiled.block_end_le present
  have below := (Block.mem_points_iff_range.mp inBlock).2
  omega

/-- The sizes of all blocks add up to the number of managed frames. -/
theorem sum_sizes (tiled : Partition managed lists held) :
    (lists.blocks.map fun block => 2 ^ block.order).sum +
      (held.map fun handle => 2 ^ handle.2).sum = managed.ncard := by
  classical
  have sizes : ((lists.blocks ++ held.map Handle.block).map fun block => 2 ^ block.order).sum =
      (lists.blocks.map fun block => 2 ^ block.order).sum +
        (held.map fun handle => 2 ^ handle.2).sum := by
    rw [List.map_append, List.sum_append, List.map_map]
    rfl
  have asFinset : managed = ((Finset.range (2 ^ 52)).filter (· ∈ managed) : Finset Nat) := by
    ext frame
    rw [Finset.coe_filter, Set.mem_ofPred_eq, Finset.mem_range]
    exact ⟨fun member => ⟨tiled.managed_lt member, member⟩, fun both => both.2⟩
  calc (lists.blocks.map fun block => 2 ^ block.order).sum +
        (held.map fun handle => 2 ^ handle.2).sum
      = ∑ frame ∈ Finset.range (2 ^ 52),
          coverage (lists.blocks ++ held.map Handle.block) frame := by
        rw [sum_coverage fun block member => tiled.block_end_le member, sizes]
    _ = ∑ frame ∈ Finset.range (2 ^ 52), if frame ∈ managed then 1 else 0 := by
        refine Finset.sum_congr rfl fun frame _ => ?_
        rw [tiled.exact, Set.indicator_apply]
    _ = ((Finset.range (2 ^ 52)).filter (· ∈ managed)).card := by
        rw [Finset.card_filter]
    _ = managed.ncard := by
        conv_rhs => rw [asFinset]
        rw [Set.ncard_coe_finset]

theorem ncard_lt (tiled : Partition managed lists held) (zero : 0 ∉ managed) :
    managed.ncard < 2 ^ 52 := by
  have inside : managed ⊆ (Finset.Ico 1 (2 ^ 52) : Finset Nat) := by
    intro frame member
    rw [Finset.coe_Ico, Set.mem_Ico]
    exact ⟨Nat.pos_of_ne_zero fun null => zero (null ▸ member), tiled.managed_lt member⟩
  have bound := Set.ncard_le_ncard inside (Finset.finite_toSet _)
  rw [Set.ncard_coe_finset, Nat.card_Ico] at bound
  omega

theorem length_le (tiled : Partition managed lists held) {o : Nat} (bounded : o ≤ buddyMaxOrder) :
    (lists o).length ≤ managed.ncard := by
  have member : o ∈ List.range (buddyMaxOrder + 1) := List.mem_range.mpr (Nat.lt_succ_of_le bounded)
  have onList : (lists o).length ≤ lists.blocks.length := by
    rw [Lists.blocks, List.length_flatMap]
    have single := List.single_le_sum (l := (List.range (buddyMaxOrder + 1)).map fun o =>
      ((lists o).map (blockOf o)).length) (by simp) _ (List.mem_map_of_mem member)
    simpa using single
  have sizes : lists.blocks.length ≤ (lists.blocks.map fun block => 2 ^ block.order).sum := by
    have counted := List.length_le_sum_of_one_le (lists.blocks.map fun block => 2 ^ block.order)
      (by intro size member
          obtain ⟨block, -, rfl⟩ := List.mem_map.mp member
          exact Nat.one_le_two_pow)
    rwa [List.length_map] at counted
  have total := tiled.sum_sizes
  omega

/-! ## Blocks in hand are apart -/

theorem held_disjoint (tiled : Partition managed lists held) {handle other : Handle}
    (member : handle ∈ held) (otherMember : other ∈ held) (different : handle ≠ other) :
    Disjoint handle.block.points other.block.points := by
  have pairs := (List.pairwise_append.mp tiled.pairwise_disjoint).2.1
  rw [List.pairwise_map] at pairs
  have symmetric : Std.Symm fun left right : Handle =>
      Disjoint left.block.points right.block.points := ⟨fun _ _ apart => apart.symm⟩
  exact pairs.forall member otherMember different

theorem held_nodup (tiled : Partition managed lists held) : held.Nodup := by
  have pairs := (List.pairwise_append.mp tiled.pairwise_disjoint).2.1
  rw [List.pairwise_map] at pairs
  refine pairs.imp fun {handle other} apart same => ?_
  subst same
  exact Set.disjoint_left.mp apart (Block.first_mem_points _) (Block.first_mem_points _)

theorem held_free_disjoint (tiled : Partition managed lists held) {handle : Handle}
    (member : handle ∈ held) {block : Block} (free : block ∈ lists.blocks) :
    Disjoint handle.block.points block.points :=
  ((List.pairwise_append.mp tiled.pairwise_disjoint).2.2 block free handle.block
    (List.mem_map_of_mem member)).symm

theorem held_frame (tiled : Partition managed lists held) {handle : Handle} {hhdm address : Word}
    (member : handle ∈ held) (inside : address ∈ handle.bytes hhdm) :
    frameOf hhdm address ∈ handle.block.points := by
  obtain ⟨bounded, aligned⟩ := tiled.heldAligned handle member
  exact frameOf_mem_points bounded aligned inside

theorem held_managed (tiled : Partition managed lists held) {handle : Handle} {hhdm : Word}
    (member : handle ∈ held) : handle.bytes hhdm ⊆ frameBytes hhdm managed := by
  intro address inside
  have inHand : handle.block ∈ lists.blocks ++ held.map Handle.block :=
    List.mem_append_right _ (List.mem_map_of_mem member)
  exact tiled.mem_managed_iff.mpr ⟨_, inHand, tiled.held_frame member inside⟩

theorem links_managed (tiled : Partition managed lists held) {hhdm : Word} :
    linkBytes hhdm lists ⊆ frameBytes hhdm managed := by
  intro address inside
  obtain ⟨block, present, inBlock⟩ := linkBytes_frame tiled inside
  exact tiled.mem_managed_iff.mpr ⟨block, List.mem_append_left _ present, inBlock⟩

theorem held_bytes_disjoint (tiled : Partition managed lists held) {handle other : Handle}
    {hhdm : Word} (member : handle ∈ held) (otherMember : other ∈ held)
    (different : handle ≠ other) : Disjoint (handle.bytes hhdm) (other.bytes hhdm) := by
  have apart := tiled.held_disjoint member otherMember different
  exact Set.disjoint_left.mpr fun _ inside inOther =>
    Set.disjoint_left.mp apart (tiled.held_frame member inside)
      (tiled.held_frame otherMember inOther)

theorem held_free_bytes_disjoint (tiled : Partition managed lists held) {handle : Handle}
    {hhdm phys : Word} {o : Nat} (member : handle ∈ held) (bounded : o ≤ buddyMaxOrder)
    (free : phys ∈ lists o) :
    Disjoint (handle.bytes hhdm) (Handle.bytes hhdm (phys, o)) := by
  have apart := tiled.held_free_disjoint member
    (Lists.mem_blocks.mpr ⟨o, bounded, phys, free, rfl⟩)
  exact Set.disjoint_left.mpr fun _ inside inFree =>
    Set.disjoint_left.mp apart (tiled.held_frame member inside)
      (frameOf_mem_points bounded (tiled.aligned o bounded phys free) inFree)

theorem held_links_disjoint (tiled : Partition managed lists held) {handle : Handle}
    {hhdm : Word} (member : handle ∈ held) :
    Disjoint (handle.bytes hhdm) (linkBytes hhdm lists) := by
  refine Set.disjoint_left.mpr fun address inside inLinks => ?_
  obtain ⟨block, free, inBlock⟩ := linkBytes_frame tiled inLinks
  exact Set.disjoint_left.mp (tiled.held_free_disjoint member free)
    (tiled.held_frame member inside) inBlock

end Partition

theorem Valid.exactPartition {managed : Set Nat} {c : Config} {lists : Lists}
    (valid : Valid managed c lists) : ExactPartition managed c lists where
  holds := valid.holds
  disjoint := valid.tiled.pairwise_disjoint
  covers := fun _ => valid.tiled.mem_managed_iff
  freeAligned := valid.tiled.aligned
  liveAligned := valid.tiled.heldAligned
  counted := by
    intro o bounded
    have short := valid.tiled.length_le bounded
    have small := valid.tiled.ncard_lt valid.usable.zero
    rw [valid.holds.counted o bounded, BitVec.toNat_ofNat, Nat.mod_eq_of_lt (by omega)]
  total := by
    have sizes := valid.tiled.sum_sizes
    have small := valid.tiled.ncard_lt valid.usable.zero
    have liveBytes : (c.live.map fun handle => 4096 * 2 ^ handle.2).sum =
        4096 * (c.live.map fun handle => 2 ^ handle.2).sum := by
      induction c.live with
      | nil => rfl
      | cons handle rest ih => rw [List.map_cons, List.sum_cons, ih, List.map_cons, List.sum_cons, Nat.mul_add]
    rw [totalFreeBytes_eq valid.holds, BitVec.toNat_ofNat, Nat.mod_eq_of_lt (by omega), liveBytes]
    omega

theorem Valid.alloc_fresh {managed : Set Nat} {c : Config} {lists : Lists}
    (valid : Valid managed c lists) {order : Nat}
    (succeeded : (buddyAlloc c.mem c.globals order).1 ≠ 0) :
    order ≤ buddyMaxOrder ∧ AlignedTo order (buddyAlloc c.mem c.globals order).1 ∧
      (∀ handle ∈ c.live, Disjoint (blockOf order (buddyAlloc c.mem c.globals order).1).points
        handle.block.points) ∧
      (blockOf order (buddyAlloc c.mem c.globals order).1).points ⊆ lists.frames := by
  have after := (valid.alloc order).tiled
  rw [Config.alloc, if_neg succeeded] at after
  obtain ⟨bounded, aligned⟩ := after.heldAligned _ List.mem_cons_self
  have disjointLive : ∀ handle ∈ c.live,
      Disjoint (blockOf order (buddyAlloc c.mem c.globals order).1).points handle.block.points := by
    intro handle member
    have pairs := (List.pairwise_append.mp after.pairwise_disjoint).2.1
    rw [List.map_cons, List.pairwise_cons] at pairs
    exact pairs.1 _ (List.mem_map_of_mem member)
  refine ⟨bounded, aligned, disjointLive, fun frame inBlock => ?_⟩
  have managedFrame := after.frame_mem_managed
    (Partition.mem_blocks_of_held List.mem_cons_self) inBlock
  obtain ⟨block, present, inside⟩ := valid.tiled.mem_managed_iff.mp managedFrame
  rcases List.mem_append.mp present with free | live
  · exact ⟨block, free, inside⟩
  · obtain ⟨handle, member, rfl⟩ := List.mem_map.mp live
    exact absurd inside (Set.disjoint_left.mp (disjointLive handle member) inBlock)

/-- A call of the allocator writes only the links of blocks that are free before or after it. -/
structure WritesLinks (c : Config) (lists : Lists) : Prop where
  holds : Holds c.mem c.globals lists
  alloc : ∀ order, ∃ after, Holds (c.alloc order).mem (c.alloc order).globals after ∧
    Set.EqOn (c.alloc order).mem c.mem
      (linkBytes c.globals.gHhdm lists ∪ linkBytes c.globals.gHhdm after)ᶜ
  free : ∀ handle ∈ c.live, ∃ m' g' after,
    buddyFree c.mem c.globals handle.1 handle.2 = some (m', g') ∧ Holds m' g' after ∧
      Set.EqOn m' c.mem (linkBytes c.globals.gHhdm lists ∪ linkBytes c.globals.gHhdm after)ᶜ

theorem Valid.writesLinks {managed : Set Nat} {c : Config} {lists : Lists}
    (valid : Valid managed c lists) : WritesLinks c lists where
  holds := valid.holds
  alloc := by
    intro order
    obtain ⟨-, follows⟩ := buddyAlloc_follows valid.holds valid.usable valid.tiled order
    exact ⟨_, follows.holds, follows.frame⟩
  free := by
    intro handle member
    obtain ⟨m', g', returned, follows, -⟩ := valid.free member
    exact ⟨m', g', _, returned, follows.holds, follows.frame⟩

theorem buddy_ownership_exact {start c : Config} {lists : Lists} (initial : Initial start lists)
    (ran : Run start c) :
    ∃ lists', ExactPartition lists.frames c lists' ∧
      (∀ order, (buddyAlloc c.mem c.globals order).1 ≠ 0 →
        order ≤ buddyMaxOrder ∧ AlignedTo order (buddyAlloc c.mem c.globals order).1 ∧
          (∀ handle ∈ c.live,
            Disjoint (blockOf order (buddyAlloc c.mem c.globals order).1).points
              handle.block.points) ∧
          (blockOf order (buddyAlloc c.mem c.globals order).1).points ⊆ lists'.frames) ∧
      ∀ handle ∈ c.live, (buddyFree c.mem c.globals handle.1 handle.2).isSome := by
  obtain ⟨lists', -, valid⟩ := initial.valid.run ran
  refine ⟨lists', valid.exactPartition, fun order succeeded => valid.alloc_fresh succeeded, ?_⟩
  intro handle member
  obtain ⟨m', g', returned, -⟩ := valid.free member
  rw [returned]
  rfl

theorem buddy_ownership_exact_oneBlock :
    ∃ c lists', Run oneBlock c ∧ c.live = [(0x400000, 3)] ∧
      ExactPartition oneBlockLists.frames c lists' := by
  have ran : Run oneBlock _ := .single (.alloc 3)
  obtain ⟨lists', exact, -⟩ := buddy_ownership_exact oneBlock_initial ran
  exact ⟨_, lists', ran, by decide +kernel, exact⟩

end ScrapOS.Buddy
