import Mathlib

/-! Dyadic blocks of natural numbers. A block of order `k` holds `2 ^ k`
consecutive points and starts at a multiple of its size, so a block is named by
its order and its index among the blocks of that order; an unaligned block
cannot be written down. -/

set_option autoImplicit false

namespace ScrapOS.DyadicBlocks

structure Block where
  order : Nat
  index : Nat
deriving DecidableEq, Repr

namespace Block

def first (block : Block) : Nat := block.index * 2 ^ block.order

def points (block : Block) : Set Nat := {point | point / 2 ^ block.order = block.index}

def buddy (block : Block) : Block := ⟨block.order, block.index ^^^ 1⟩

def parent (block : Block) : Block := ⟨block.order + 1, block.index / 2⟩

def cover (block : Block) (point : Nat) : Nat :=
  if point / 2 ^ block.order = block.index then 1 else 0

theorem mem_points {block : Block} {point : Nat} :
    point ∈ block.points ↔ point / 2 ^ block.order = block.index := Iff.rfl

theorem mem_points_iff_range {block : Block} {point : Nat} :
    point ∈ block.points ↔ block.first ≤ point ∧ point < block.first + 2 ^ block.order := by
  have positive := Nat.two_pow_pos block.order
  rw [mem_points, first, Nat.div_eq_iff positive]
  omega

theorem first_mem_points (block : Block) : block.first ∈ block.points := by
  rw [mem_points_iff_range]
  exact ⟨Nat.le_refl _, Nat.lt_add_of_pos_right (Nat.two_pow_pos _)⟩

theorem cover_eq_one_iff {block : Block} {point : Nat} :
    block.cover point = 1 ↔ point ∈ block.points := by
  simp [cover, mem_points]

theorem cover_eq_zero_iff {block : Block} {point : Nat} :
    block.cover point = 0 ↔ point ∉ block.points := by
  simp [cover, mem_points]

theorem eq_of_meet {left right : Block} {point : Nat} (sameOrder : left.order = right.order)
    (inLeft : point ∈ left.points) (inRight : point ∈ right.points) : left = right := by
  cases left
  cases right
  simp only [mem_points] at inLeft inRight sameOrder
  subst sameOrder
  rw [← inLeft, ← inRight]

theorem points_subset_of_meet {small large : Block} {point : Nat}
    (le : small.order ≤ large.order) (inSmall : point ∈ small.points)
    (inLarge : point ∈ large.points) : small.points ⊆ large.points := by
  intro other member
  simp only [mem_points] at inSmall inLarge member ⊢
  have split : 2 ^ large.order = 2 ^ small.order * 2 ^ (large.order - small.order) := by
    rw [← Nat.pow_add, Nat.add_sub_cancel' le]
  rw [split, ← Nat.div_div_eq_div_mul] at inLarge ⊢
  rw [member, ← inSmall, inLarge]

theorem order_le_of_subset {small large : Block} (subset : small.points ⊆ large.points) :
    small.order ≤ large.order := by
  by_contra longer
  have lastSmall : small.first + (2 ^ small.order - 1) ∈ small.points := by
    rw [mem_points_iff_range]
    have positive := Nat.two_pow_pos small.order
    omega
  have firstIn := mem_points_iff_range.mp (subset small.first_mem_points)
  have lastIn := mem_points_iff_range.mp (subset lastSmall)
  have grows : 2 ^ large.order < 2 ^ small.order :=
    Nat.pow_lt_pow_right (by decide) (Nat.lt_of_not_le longer)
  omega

/-! ## Halves, buddies and parents -/

theorem xor_one_div_two (index : Nat) : (index ^^^ 1) / 2 = index / 2 := by
  simp [Nat.xor_div_two]

theorem xor_one_mod_two (index : Nat) : (index ^^^ 1) % 2 = (index + 1) % 2 :=
  Nat.xor_mod_two_eq

@[simp] theorem buddy_order (block : Block) : block.buddy.order = block.order := rfl

@[simp] theorem buddy_buddy (block : Block) : block.buddy.buddy = block := by
  simp [buddy]

theorem parent_buddy (block : Block) : block.buddy.parent = block.parent := by
  simp only [parent, buddy, xor_one_div_two]

theorem min_index_buddy (block : Block) :
    min block.index (block.index ^^^ 1) = 2 * (block.index / 2) := by
  have quotient := xor_one_div_two block.index
  have parity := xor_one_mod_two block.index
  omega

theorem cover_halves (order index point : Nat) :
    cover ⟨order + 1, index⟩ point =
      cover ⟨order, 2 * index⟩ point + cover ⟨order, 2 * index + 1⟩ point := by
  simp only [cover, Nat.pow_succ, ← Nat.div_div_eq_div_mul]
  split_ifs <;> omega

theorem cover_add_cover_buddy (block : Block) (point : Nat) :
    block.cover point + block.buddy.cover point = block.parent.cover point := by
  have quotient := xor_one_div_two block.index
  have parity := xor_one_mod_two block.index
  simp only [cover, buddy, parent, Nat.pow_succ, ← Nat.div_div_eq_div_mul]
  grind

theorem points_parent (block : Block) :
    block.parent.points = block.points ∪ block.buddy.points := by
  ext point
  have quotient := xor_one_div_two block.index
  have parity := xor_one_mod_two block.index
  simp only [Set.mem_union, mem_points, buddy, parent, Nat.pow_succ, ← Nat.div_div_eq_div_mul]
  omega

end Block

/-! ## Families of blocks -/

def coverage (blocks : List Block) (point : Nat) : Nat :=
  (blocks.map (·.cover point)).sum

@[simp] theorem coverage_nil (point : Nat) : coverage [] point = 0 := rfl

@[simp] theorem coverage_cons (block : Block) (blocks : List Block) (point : Nat) :
    coverage (block :: blocks) point = block.cover point + coverage blocks point := by
  simp [coverage]

@[simp] theorem coverage_append (left right : List Block) (point : Nat) :
    coverage (left ++ right) point = coverage left point + coverage right point := by
  simp [coverage]

theorem coverage_perm {left right : List Block} (perm : left.Perm right) (point : Nat) :
    coverage left point = coverage right point :=
  (perm.map _).sum_eq

theorem coverage_erase {blocks : List Block} {block : Block} (member : block ∈ blocks)
    (point : Nat) :
    block.cover point + coverage (blocks.erase block) point = coverage blocks point := by
  rw [coverage_perm (List.perm_cons_erase member), coverage_cons]

theorem coverage_eq_zero_iff {blocks : List Block} {point : Nat} :
    coverage blocks point = 0 ↔ ∀ block ∈ blocks, point ∉ block.points := by
  simp [coverage, List.sum_eq_zero_iff, Block.cover_eq_zero_iff]

theorem coverage_ne_zero_iff {blocks : List Block} {point : Nat} :
    coverage blocks point ≠ 0 ↔ ∃ block ∈ blocks, point ∈ block.points := by
  rw [Ne, coverage_eq_zero_iff]
  push Not
  rfl

theorem cover_le_coverage {blocks : List Block} {block : Block} (member : block ∈ blocks)
    (point : Nat) : block.cover point ≤ coverage blocks point := by
  rw [← coverage_erase member]
  exact Nat.le_add_right _ _

theorem pairwise_disjoint_of_coverage_le_one {blocks : List Block}
    (once : ∀ point, coverage blocks point ≤ 1) :
    blocks.Pairwise fun left right => Disjoint left.points right.points := by
  induction blocks with
  | nil => exact .nil
  | cons block rest ih =>
      refine .cons ?_ (ih fun point => ?_)
      · intro other member
        rw [Set.disjoint_left]
        intro point inBlock inOther
        have first := Block.cover_eq_one_iff.mpr inBlock
        have second := Block.cover_eq_one_iff.mpr inOther
        have counted := cover_le_coverage member point
        have bound := once point
        rw [coverage_cons] at bound
        omega
      · have bound := once point
        rw [coverage_cons] at bound
        omega

theorem coverage_le_one_of_pairwise_disjoint {blocks : List Block}
    (disjoint : blocks.Pairwise fun left right => Disjoint left.points right.points)
    (point : Nat) : coverage blocks point ≤ 1 := by
  induction disjoint with
  | nil => exact Nat.zero_le 1
  | @cons block rest apart _ ih =>
      rw [coverage_cons]
      by_cases inBlock : point ∈ block.points
      · have elsewhere : coverage rest point = 0 :=
          coverage_eq_zero_iff.mpr fun other member inOther =>
            Set.disjoint_left.mp (apart other member) inBlock inOther
        rw [Block.cover_eq_one_iff.mpr inBlock, elsewhere]
      · rw [Block.cover_eq_zero_iff.mpr inBlock, Nat.zero_add]
        exact ih

theorem Block.sum_cover (block : Block) {limit : Nat}
    (inside : block.first + 2 ^ block.order ≤ limit) :
    ∑ point ∈ Finset.range limit, block.cover point = 2 ^ block.order := by
  have range : (Finset.range limit).filter (fun point => point / 2 ^ block.order = block.index) =
      Finset.Ico block.first (block.first + 2 ^ block.order) := by
    ext point
    have points : point / 2 ^ block.order = block.index ↔
        block.first ≤ point ∧ point < block.first + 2 ^ block.order := Block.mem_points_iff_range
    rw [Finset.mem_filter, Finset.mem_range, Finset.mem_Ico, points]
    omega
  simp only [Block.cover]
  rw [← Finset.card_filter, range, Nat.card_Ico, Nat.add_sub_cancel_left]

/-- The number of points a family holds, with multiplicity, is the sum of its block sizes. -/
theorem sum_coverage {blocks : List Block} {limit : Nat}
    (inside : ∀ block ∈ blocks, block.first + 2 ^ block.order ≤ limit) :
    ∑ point ∈ Finset.range limit, coverage blocks point =
      (blocks.map fun block => 2 ^ block.order).sum := by
  induction blocks with
  | nil => simp
  | cons block rest ih =>
      have tail := ih fun other member => inside other (List.mem_cons_of_mem _ member)
      simp only [coverage_cons, Finset.sum_add_distrib, List.map_cons, List.sum_cons, tail,
        block.sum_cover (inside block List.mem_cons_self)]

theorem eq_of_meet_of_coverage_le_one {blocks : List Block}
    (once : ∀ point, coverage blocks point ≤ 1) {left right : Block}
    (leftMember : left ∈ blocks) (rightMember : right ∈ blocks) {point : Nat}
    (inLeft : point ∈ left.points) (inRight : point ∈ right.points) : left = right := by
  by_contra different
  have rest : right ∈ blocks.erase left :=
    (List.mem_erase_of_ne fun same => different same.symm).mpr rightMember
  have first := Block.cover_eq_one_iff.mpr inLeft
  have second := Block.cover_eq_one_iff.mpr inRight
  have counted := cover_le_coverage rest point
  have total := coverage_erase leftMember point
  have bound := once point
  omega

/-! ## Coalesced families -/

/-- A family of disjoint blocks of bounded order in which no two buddies below
the bound are both present. -/
structure Coalesced (limit : Nat) (family : Set Block) : Prop where
  bounded : ∀ block ∈ family, block.order ≤ limit
  disjoint : ∀ left ∈ family, ∀ right ∈ family, ∀ point,
    point ∈ left.points → point ∈ right.points → left = right
  merged : ∀ block ∈ family, block.order < limit → block.buddy ∉ family

namespace Coalesced

variable {limit : Nat} {family other : Set Block}

/-- A block all of whose points are held by a coalesced family lies inside a
single member: its two halves cannot lie in two different ones, which would be
unmerged buddies. -/
theorem exists_superset (coalesced : Coalesced limit family) {block : Block}
    (bounded : block.order ≤ limit)
    (held : ∀ point ∈ block.points, ∃ member ∈ family, point ∈ member.points) :
    ∃ member ∈ family, block.points ⊆ member.points := by
  obtain ⟨order, index⟩ := block
  induction order generalizing index with
  | zero =>
      obtain ⟨member, present, inMember⟩ := held _ (Block.first_mem_points _)
      exact ⟨member, present, Block.points_subset_of_meet (Nat.zero_le _)
        (Block.first_mem_points _) inMember⟩
  | succ order ih =>
      have halves : (⟨order + 1, index⟩ : Block).points =
          (⟨order, 2 * index⟩ : Block).points ∪ (⟨order, 2 * index⟩ : Block).buddy.points := by
        rw [← Block.points_parent, Block.parent]
        simp
      obtain ⟨lower, lowerPresent, lowerSubset⟩ := ih (2 * index)
        (Nat.le_of_succ_le bounded) fun point member =>
          held point (halves ▸ Set.mem_union_left _ member)
      obtain ⟨upper, upperPresent, upperSubset⟩ := ih (2 * index ^^^ 1)
        (Nat.le_of_succ_le bounded) fun point member =>
          held point (halves ▸ Set.mem_union_right _ member)
      have lowerOrder := Block.order_le_of_subset lowerSubset
      have upperOrder := Block.order_le_of_subset upperSubset
      have lowerFirst := lowerSubset (Block.first_mem_points _)
      have upperFirst := upperSubset (Block.first_mem_points _)
      rcases Nat.lt_or_ge order lower.order with larger | lowerSame
      · exact ⟨lower, lowerPresent, Block.points_subset_of_meet larger
          (halves ▸ Set.mem_union_left _ (Block.first_mem_points _)) lowerFirst⟩
      · rcases Nat.lt_or_ge order upper.order with larger | upperSame
        · exact ⟨upper, upperPresent, Block.points_subset_of_meet larger
            (halves ▸ Set.mem_union_right _ (Block.first_mem_points _)) upperFirst⟩
        · -- Both halves are members themselves: buddies that were never merged.
          have lowerEq : (⟨order, 2 * index⟩ : Block) = lower :=
            Block.eq_of_meet (Nat.le_antisymm lowerOrder lowerSame)
              (Block.first_mem_points _) lowerFirst
          have upperEq : (⟨order, 2 * index ^^^ 1⟩ : Block) = upper :=
            Block.eq_of_meet (Nat.le_antisymm upperOrder upperSame)
              (Block.first_mem_points _) upperFirst
          subst lowerEq upperEq
          exact absurd upperPresent (coalesced.merged _ lowerPresent bounded)

private theorem subset_of_same_points (left : Coalesced limit family)
    (right : Coalesced limit other)
    (same : ∀ point, (∃ block ∈ family, point ∈ block.points) ↔
      ∃ block ∈ other, point ∈ block.points) : family ⊆ other := by
  intro block member
  obtain ⟨outer, outerMember, inside⟩ := right.exists_superset (left.bounded block member)
    fun point inBlock => (same point).mp ⟨block, member, inBlock⟩
  obtain ⟨again, againMember, outside⟩ := left.exists_superset (right.bounded outer outerMember)
    fun point inOuter => (same point).mpr ⟨outer, outerMember, inOuter⟩
  have inAgain := outside (inside block.first_mem_points)
  have equal := left.disjoint block member again againMember _ block.first_mem_points inAgain
  subst equal
  have sameOrder := Nat.le_antisymm (Block.order_le_of_subset inside)
    (Block.order_le_of_subset outside)
  rw [Block.eq_of_meet sameOrder block.first_mem_points (inside block.first_mem_points)]
  exact outerMember

/-- A set of points has at most one coalesced decomposition. -/
theorem unique (left : Coalesced limit family) (right : Coalesced limit other)
    (same : ∀ point, (∃ block ∈ family, point ∈ block.points) ↔
      ∃ block ∈ other, point ∈ block.points) : family = other :=
  Set.Subset.antisymm (subset_of_same_points left right same)
    (subset_of_same_points right left fun point => (same point).symm)

end Coalesced

end ScrapOS.DyadicBlocks
