import ScrapOS.Buddy.Lists

/-! The free blocks and the blocks handed out tile a fixed set of frames. Each
primitive of the list allocator moves, halves or joins blocks without changing
which frames they hold, so the tiling survives both loops. -/

set_option autoImplicit false

namespace ScrapOS.Buddy

open DyadicBlocks

/-- The free blocks together with the blocks in `held` hold exactly the frames of
`managed`, each of them once. -/
structure Partition (managed : Set Nat) (lists : Lists) (held : List Handle) : Prop where
  aligned : ∀ o, o ≤ buddyMaxOrder → ∀ phys ∈ lists o, AlignedTo o phys
  heldAligned : ∀ handle ∈ held, handle.2 ≤ buddyMaxOrder ∧ AlignedTo handle.2 handle.1
  exact : ∀ frame, coverage (lists.blocks ++ held.map Handle.block) frame =
    managed.indicator (fun _ => 1) frame

namespace Partition

variable {managed : Set Nat} {lists : Lists} {held : List Handle} {order : Nat} {phys : Word}

/-- Empty lists tile nothing. -/
theorem nothing : Partition ∅ (fun _ => []) [] where
  aligned := fun _ _ _ member => by cases member
  heldAligned := fun _ member => by cases member
  exact := by
    intro frame
    rw [Lists.blocks_nil, Set.indicator_empty]
    rfl

/-! ## Consequences of the tiling -/

theorem coverage_le_one (tiled : Partition managed lists held) (frame : Nat) :
    coverage (lists.blocks ++ held.map Handle.block) frame ≤ 1 := by
  rw [tiled.exact]
  by_cases member : frame ∈ managed
  · rw [Set.indicator_of_mem member]
  · rw [Set.indicator_of_notMem member]
    exact Nat.zero_le 1

theorem pairwise_disjoint (tiled : Partition managed lists held) :
    (lists.blocks ++ held.map Handle.block).Pairwise
      fun left right => Disjoint left.points right.points :=
  pairwise_disjoint_of_coverage_le_one tiled.coverage_le_one

theorem mem_managed_iff (tiled : Partition managed lists held) {frame : Nat} :
    frame ∈ managed ↔ ∃ block ∈ lists.blocks ++ held.map Handle.block, frame ∈ block.points := by
  rw [← coverage_ne_zero_iff, tiled.exact]
  by_cases member : frame ∈ managed
  · simp [member]
  · simp [member]

theorem mem_blocks_of_mem (bounded : order ≤ buddyMaxOrder) (member : phys ∈ lists order) :
    blockOf order phys ∈ lists.blocks ++ held.map Handle.block :=
  List.mem_append_left _ (Lists.mem_blocks.mpr ⟨order, bounded, phys, member, rfl⟩)

theorem mem_blocks_of_held {handle : Handle} (member : handle ∈ held) :
    handle.block ∈ lists.blocks ++ held.map Handle.block :=
  List.mem_append_right _ (List.mem_map_of_mem member)

theorem frame_mem_managed (tiled : Partition managed lists held) {block : Block}
    (member : block ∈ lists.blocks ++ held.map Handle.block) {frame : Nat}
    (inBlock : frame ∈ block.points) : frame ∈ managed :=
  tiled.mem_managed_iff.mpr ⟨block, member, inBlock⟩

theorem order_unique (tiled : Partition managed lists held) {other : Nat}
    (bounded : order ≤ buddyMaxOrder) (member : phys ∈ lists order)
    (bounded' : other ≤ buddyMaxOrder) (member' : phys ∈ lists other) : order = other := by
  have start := blockOf_first (tiled.aligned order bounded phys member)
  have start' := blockOf_first (tiled.aligned other bounded' phys member')
  have sameFirst : (blockOf order phys).first = (blockOf other phys).first := by omega
  have same := eq_of_meet_of_coverage_le_one tiled.coverage_le_one
    (mem_blocks_of_mem bounded member) (mem_blocks_of_mem bounded' member')
    (Block.first_mem_points _) (sameFirst ▸ Block.first_mem_points _)
  exact congrArg Block.order same

theorem held_not_mem (tiled : Partition managed lists held) {handle : Handle}
    (inHand : handle ∈ held) (bounded : order ≤ buddyMaxOrder) : handle.1 ∉ lists order := by
  intro member
  have start := blockOf_first (tiled.aligned order bounded _ member)
  have start' := blockOf_first (tiled.heldAligned handle inHand).2
  have sameFirst : (blockOf order handle.1).first = (blockOf handle.2 handle.1).first := by omega
  have free := Block.cover_eq_one_iff.mpr (Block.first_mem_points (blockOf order handle.1))
  have taken : handle.block.cover (blockOf order handle.1).first = 1 :=
    Block.cover_eq_one_iff.mpr (sameFirst ▸ Block.first_mem_points _)
  have counted := tiled.coverage_le_one (blockOf order handle.1).first
  have freeCounted := cover_le_coverage
    (Lists.mem_blocks.mpr ⟨order, bounded, handle.1, member, rfl⟩) (blockOf order handle.1).first
  have inBlocks : handle.block ∈ held.map Handle.block := List.mem_map_of_mem inHand
  have takenCounted := cover_le_coverage inBlocks (blockOf order handle.1).first
  rw [coverage_append] at counted
  omega

theorem frame_zero (tiled : Partition managed lists held) {block : Block}
    (member : block ∈ lists.blocks ++ held.map Handle.block) (zero : 0 ∉ managed) :
    block.first ≠ 0 :=
  fun first => zero (first ▸ tiled.frame_mem_managed member block.first_mem_points)

theorem ne_zero_of_mem (tiled : Partition managed lists held) (zero : 0 ∉ managed)
    (bounded : order ≤ buddyMaxOrder) (member : phys ∈ lists order) : phys ≠ 0 := by
  intro null
  have first := tiled.frame_zero (mem_blocks_of_mem bounded member) zero
  have start := blockOf_first (tiled.aligned order bounded phys member)
  subst null
  exact first (by simpa using start)

/-! ## What each primitive does to the tiling -/

theorem perm {other : List Handle} (tiled : Partition managed lists held)
    (reordered : held.Perm other) : Partition managed lists other where
  aligned := tiled.aligned
  heldAligned := fun handle member => tiled.heldAligned handle (reordered.mem_iff.mpr member)
  exact := fun frame => by
    rw [← tiled.exact frame]
    exact coverage_perm ((reordered.symm.map _).append_left _) frame

theorem take (tiled : Partition managed lists held) (bounded : order ≤ buddyMaxOrder)
    (member : phys ∈ lists order) :
    Partition managed (lists.remove order phys) ((phys, order) :: held) where
  aligned := by
    intro o bound other present
    by_cases same : o = order
    · subst same
      rw [Lists.remove, Function.update_self] at present
      exact tiled.aligned o bound other (List.mem_of_mem_erase present)
    · rw [Lists.remove, Function.update_of_ne same] at present
      exact tiled.aligned o bound other present
  heldAligned := by
    intro handle present
    rcases List.mem_cons.mp present with rfl | present
    · exact ⟨bounded, tiled.aligned order bounded phys member⟩
    · exact tiled.heldAligned handle present
  exact := fun frame => by
    have moved := coverage_perm (Lists.blocks_remove bounded member) frame
    rw [coverage_cons] at moved
    rw [← tiled.exact frame, coverage_append, coverage_append, moved, List.map_cons, coverage_cons,
      Handle.block_mk]
    omega

theorem give (tiled : Partition managed lists ((phys, order) :: held)) :
    Partition managed (lists.push order phys) held where
  aligned := by
    intro o bound other present
    by_cases same : o = order
    · subst same
      rw [Lists.push, Function.update_self] at present
      rcases List.mem_cons.mp present with rfl | present
      · exact (tiled.heldAligned _ List.mem_cons_self).2
      · exact tiled.aligned o bound other present
    · rw [Lists.push, Function.update_of_ne same] at present
      exact tiled.aligned o bound other present
  heldAligned := fun handle present =>
    tiled.heldAligned handle (List.mem_cons_of_mem _ present)
  exact := fun frame => by
    have bounded : order ≤ buddyMaxOrder := (tiled.heldAligned _ List.mem_cons_self).1
    have moved := coverage_perm (Lists.blocks_push lists bounded phys) frame
    rw [coverage_cons] at moved
    rw [← tiled.exact frame, coverage_append, coverage_append, moved, List.map_cons, coverage_cons,
      Handle.block_mk]
    omega

theorem halve (tiled : Partition managed lists ((phys, order + 1) :: held)) :
    Partition managed lists ((phys + blockBytes order, order) :: (phys, order) :: held) := by
  obtain ⟨bounded, aligned⟩ := tiled.heldAligned _ List.mem_cons_self
  dsimp only at bounded aligned
  obtain ⟨upperAligned, lowerBlock, upperBlock⟩ := upper_half bounded aligned
  refine ⟨tiled.aligned, ?_, ?_⟩
  · intro handle present
    rcases List.mem_cons.mp present with rfl | present
    · exact ⟨Nat.le_of_succ_le bounded, upperAligned⟩
    · rcases List.mem_cons.mp present with rfl | present
      · exact ⟨Nat.le_of_succ_le bounded, aligned.mono (Nat.le_succ _)⟩
      · exact tiled.heldAligned handle (List.mem_cons_of_mem _ present)
  · intro frame
    have halves := Block.cover_halves order (blockOf (order + 1) phys).index frame
    rw [← lowerBlock, ← upperBlock] at halves
    rw [← tiled.exact frame]
    simp only [List.map_cons, coverage_append, coverage_cons, Handle.block_mk]
    have whole : (blockOf (order + 1) phys).cover frame =
        (⟨order + 1, (blockOf (order + 1) phys).index⟩ : Block).cover frame := rfl
    omega

theorem join (tiled : Partition managed lists
    ((phys ^^^ blockBytes order, order) :: (phys, order) :: held))
    (below : order < buddyMaxOrder) :
    Partition managed lists
      ((if phys ^^^ blockBytes order < phys then phys ^^^ blockBytes order else phys, order + 1) ::
        held) := by
  have aligned : AlignedTo order phys := (tiled.heldAligned (phys, order) (by simp)).2
  obtain ⟨lowerAligned, parentBlock⟩ := lower_of_pair (Nat.le_of_lt below) aligned
  have buddyBlock := (xor_blockBytes (Nat.le_of_lt below) aligned).2
  refine ⟨tiled.aligned, ?_, ?_⟩
  · intro handle present
    rcases List.mem_cons.mp present with rfl | present
    · exact ⟨below, lowerAligned⟩
    · exact tiled.heldAligned handle (by simp [present])
  · intro frame
    have sum := Block.cover_add_cover_buddy (blockOf order phys) frame
    rw [← parentBlock, ← buddyBlock] at sum
    rw [← tiled.exact frame]
    simp only [List.map_cons, coverage_append, coverage_cons, Handle.block_mk]
    omega

/-! ## The two operations -/

/-- Each round of the split loop halves the block in hand and frees the upper half. -/
theorem splitDown {o : Nat} (tiled : Partition managed lists ((phys, o) :: held))
    (le : order ≤ o) : Partition managed (lists.splitDown phys order o) ((phys, order) :: held) := by
  induction o generalizing lists with
  | zero =>
      cases Nat.le_zero.mp le
      exact tiled
  | succ o ih =>
      rw [Lists.splitDown]
      split
      · next more => exact ih tiled.halve.give (Nat.le_of_lt_succ more)
      · next done =>
        have same : order = o + 1 := by omega
        subst same
        exact tiled

/-- Each round of the merge loop takes the buddy off its list and joins it to the
block in hand. -/
theorem mergeUp {steps : Nat} (tiled : Partition managed lists ((phys, order) :: held)) :
    Partition managed (Lists.mergeUp steps lists phys order) held := by
  induction steps generalizing lists phys order with
  | zero => exact tiled.give
  | succ steps ih =>
      rw [Lists.mergeUp]
      split
      · next below =>
        dsimp only
        split
        · next present =>
          have bounded : order ≤ buddyMaxOrder := Nat.le_of_lt below
          exact ih ((tiled.take bounded present).join below)
        · exact tiled.give
      · exact tiled.give

theorem free (tiled : Partition managed lists ((phys, order) :: held)) :
    Partition managed (lists.free phys order) held := by
  have bounded := (tiled.heldAligned _ List.mem_cons_self).1
  rw [Lists.free, if_neg (Nat.not_lt.mpr bounded)]
  exact tiled.mergeUp

end Partition

/-! ## The search loop -/

namespace Lists

variable {lists : Lists} {order : Nat}

theorem searchOrder_spec (lists : Lists) {steps o : Nat} (enough : buddyMaxOrder < o + steps) :
    o ≤ lists.searchOrder steps o ∧
      (∀ between, o ≤ between → between < lists.searchOrder steps o → lists between = []) ∧
      (lists.searchOrder steps o ≤ buddyMaxOrder → lists (lists.searchOrder steps o) ≠ []) := by
  induction steps generalizing o with
  | zero =>
      refine ⟨Nat.le_refl _, fun between low high => absurd (Nat.lt_of_le_of_lt low high)
        (Nat.lt_irrefl _), fun bounded => ?_⟩
      rw [searchOrder] at bounded
      omega
  | succ steps ih =>
      rw [searchOrder]
      split
      · next skipped =>
        obtain ⟨low, empty, found⟩ := ih (o := o + 1) (by omega)
        refine ⟨Nat.le_of_succ_le low, ?_, found⟩
        intro between atLeast below
        rcases Nat.eq_or_lt_of_le atLeast with rfl | later
        · exact skipped.2
        · exact empty between later below
      · next stopped =>
        refine ⟨Nat.le_refl _, fun between low high => absurd (Nat.lt_of_le_of_lt low high)
          (Nat.lt_irrefl _), fun bounded empty => stopped ⟨bounded, empty⟩⟩

/-- Everything `alloc` can do: refuse an order out of range, find every list from
`order` on empty, or split the head of the first list that is not. -/
theorem alloc_cases (lists : Lists) (order : Nat) :
    (lists.alloc order = (0, lists) ∧ ∀ o, order ≤ o → o ≤ buddyMaxOrder → lists o = []) ∨
    ∃ o phys rest, order ≤ o ∧ o ≤ buddyMaxOrder ∧ lists o = phys :: rest ∧
      (∀ between, order ≤ between → between < o → lists between = []) ∧
      lists.alloc order = (phys, (lists.remove o phys).splitDown phys order o) := by
  by_cases refused : order > buddyMaxOrder
  · refine .inl ⟨by rw [alloc, if_pos refused], fun o low high => ?_⟩
    omega
  · obtain ⟨low, empty, found⟩ := searchOrder_spec lists
      (show buddyMaxOrder < order + (buddyMaxOrder + 1) by omega)
    by_cases none : lists.searchOrder (buddyMaxOrder + 1) order > buddyMaxOrder
    · refine .inl ⟨by rw [alloc, if_neg refused]; simp only [if_pos none], fun o atLeast bound => ?_⟩
      exact empty o atLeast (by omega)
    · have bounded : lists.searchOrder (buddyMaxOrder + 1) order ≤ buddyMaxOrder := by omega
      obtain ⟨phys, rest, shape⟩ := List.exists_cons_of_ne_nil (found bounded)
      refine .inr ⟨_, phys, rest, low, bounded, shape, empty, ?_⟩
      rw [alloc, if_neg refused]
      simp only [if_neg none, shape, List.headD_cons]

end Lists

theorem Partition.alloc {managed : Set Nat} {lists : Lists} {held : List Handle}
    (tiled : Partition managed lists held) (order : Nat) (zero : 0 ∉ managed) :
    ((lists.alloc order).1 = 0 → (lists.alloc order).2 = lists) ∧
    ((lists.alloc order).1 ≠ 0 →
      Partition managed (lists.alloc order).2 (((lists.alloc order).1, order) :: held)) := by
  rcases Lists.alloc_cases lists order with ⟨failed, -⟩ | ⟨o, phys, rest, low, bounded, shape, -, taken⟩
  · rw [failed]
    exact ⟨fun _ => rfl, fun nonzero => absurd rfl nonzero⟩
  · have member : phys ∈ lists o := shape ▸ List.mem_cons_self
    rw [taken]
    exact ⟨fun null => absurd null (tiled.ne_zero_of_mem zero bounded member),
      fun _ => (tiled.take bounded member).splitDown low⟩

end ScrapOS.Buddy
