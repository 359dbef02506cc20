import ScrapOS.DyadicBlocks.Basic

/-! Chopping an interval into dyadic blocks from its start, each as large as its
alignment, the rest of the interval and a limit allow. The pieces are the largest
blocks inside the interval: every block inside it lies in one of them. -/

set_option autoImplicit false

namespace ScrapOS.DyadicBlocks

/-- The largest order up to a limit at which an aligned block fits between two points. -/
def fittingOrder (first stop : Nat) : Nat → Nat
  | 0 => 0
  | order + 1 =>
      if 2 ^ (order + 1) ∣ first ∧ first + 2 ^ (order + 1) ≤ stop then order + 1
      else fittingOrder first stop order

/-- The pieces of an interval. The step count only bounds the recursion. -/
def chop (limit stop : Nat) : Nat → Nat → List Block
  | 0, _ => []
  | steps + 1, first =>
      if first < stop then
        ⟨fittingOrder first stop limit, first / 2 ^ fittingOrder first stop limit⟩ ::
          chop limit stop steps (first + 2 ^ fittingOrder first stop limit)
      else []

variable {first stop limit order steps : Nat} {block piece : Block}

theorem fittingOrder_le : fittingOrder first stop limit ≤ limit := by
  induction limit with
  | zero => exact Nat.le_refl 0
  | succ limit ih =>
      rw [fittingOrder]
      split <;> omega

theorem fittingOrder_fits (limit : Nat) (nonempty : first < stop) :
    2 ^ fittingOrder first stop limit ∣ first ∧
      first + 2 ^ fittingOrder first stop limit ≤ stop := by
  induction limit with
  | zero => simpa [fittingOrder] using nonempty
  | succ limit ih =>
      rw [fittingOrder]
      split
      · next fits => exact fits
      · exact ih

theorem le_fittingOrder (bounded : order ≤ limit) (aligned : 2 ^ order ∣ first)
    (fits : first + 2 ^ order ≤ stop) : order ≤ fittingOrder first stop limit := by
  induction limit with
  | zero => simpa [fittingOrder] using bounded
  | succ limit ih =>
      rw [fittingOrder]
      cases Nat.lt_or_eq_of_le bounded with
      | inl below =>
          split
          · exact bounded
          · exact ih (Nat.le_of_lt_succ below)
      | inr top =>
          subst top
          rw [if_pos ⟨aligned, fits⟩]

/-! ## Intervals as blocks -/

theorem Block.order_dvd_first (block : Block) : 2 ^ block.order ∣ block.first :=
  ⟨block.index, Nat.mul_comm _ _⟩

theorem Block.subset_Ico_iff : block.points ⊆ Set.Ico first stop ↔
    first ≤ block.first ∧ block.first + 2 ^ block.order ≤ stop := by
  have positive := Nat.two_pow_pos block.order
  constructor
  · intro inside
    have low := inside block.first_mem_points
    have last : block.first + (2 ^ block.order - 1) ∈ block.points := by
      rw [mem_points_iff_range]
      omega
    have high := inside last
    exact ⟨low.1, by have below := high.2; omega⟩
  · intro range point member
    rw [mem_points_iff_range] at member
    exact ⟨by omega, by omega⟩

/-- A smaller block that holds the first point of a block starts with it. -/
theorem Block.first_eq_of_subset (le : piece.order ≤ block.order)
    (inPiece : block.first ∈ piece.points) : piece.first = block.first := by
  have inside := points_subset_of_meet le inPiece block.first_mem_points
  have low := (mem_points_iff_range.mp (inside piece.first_mem_points)).1
  have high := (mem_points_iff_range.mp inPiece).1
  omega

private theorem head_first (limit : Nat) (nonempty : first < stop) :
    (⟨fittingOrder first stop limit, first / 2 ^ fittingOrder first stop limit⟩ : Block).first =
      first :=
  Nat.div_mul_cancel (fittingOrder_fits limit nonempty).1

/-! ## The pieces -/

/-- The pieces hold the interval, each point once. -/
theorem coverage_chop (enough : stop ≤ first + steps) (point : Nat) :
    coverage (chop limit stop steps first) point =
      if first ≤ point ∧ point < stop then 1 else 0 := by
  induction steps generalizing first with
  | zero =>
      rw [chop, coverage_nil, if_neg (by omega)]
  | succ steps ih =>
      rw [chop]
      split
      · next nonempty =>
        have fits := (fittingOrder_fits limit nonempty).2
        have positive := Nat.two_pow_pos (fittingOrder first stop limit)
        rw [coverage_cons, ih (by omega)]
        by_cases inHead : first ≤ point ∧ point < first + 2 ^ fittingOrder first stop limit
        · have member : point ∈ (⟨fittingOrder first stop limit,
              first / 2 ^ fittingOrder first stop limit⟩ : Block).points := by
            rw [Block.mem_points_iff_range, head_first limit nonempty]
            exact inHead
          rw [Block.cover_eq_one_iff.mpr member, if_neg (by omega), if_pos (by omega)]
        · have outside : point ∉ (⟨fittingOrder first stop limit,
              first / 2 ^ fittingOrder first stop limit⟩ : Block).points := by
            rw [Block.mem_points_iff_range, head_first limit nonempty]
            exact inHead
          rw [Block.cover_eq_zero_iff.mpr outside, Nat.zero_add]
          congr 1
          apply propext
          omega
      · next empty => rw [coverage_nil, if_neg (by omega)]

/-- Each piece is as large as it could be where it starts. -/
theorem chop_greedy (member : block ∈ chop limit stop steps first) :
    block.order = fittingOrder block.first stop limit ∧
      block.points ⊆ Set.Ico first stop := by
  induction steps generalizing first with
  | zero => cases member
  | succ steps ih =>
      rw [chop] at member
      split at member
      · next nonempty =>
        have fits := (fittingOrder_fits limit nonempty).2
        cases List.mem_cons.mp member with
        | inl here =>
            have start := head_first limit nonempty
            rw [← here] at start
            rw [Block.subset_Ico_iff, start, here]
            exact ⟨rfl, Nat.le_refl _, fits⟩
        | inr later =>
            obtain ⟨greedy, inside⟩ := ih later
            refine ⟨greedy, inside.trans (Set.Ico_subset_Ico_left ?_)⟩
            exact Nat.le_add_right _ _
      · cases member

theorem chop_coverage_le_one (enough : stop ≤ first + steps) (point : Nat) :
    coverage (chop limit stop steps first) point ≤ 1 := by
  rw [coverage_chop enough]
  split <;> decide

theorem exists_piece (limit : Nat) (enough : stop ≤ first + steps) {point : Nat} (inside : point ∈ Set.Ico first stop) :
    ∃ piece ∈ chop limit stop steps first, point ∈ piece.points := by
  rw [← coverage_ne_zero_iff, coverage_chop enough, if_pos (Set.mem_Ico.mp inside)]
  decide

theorem chop_absorbs (enough : stop ≤ first + steps) (bounded : block.order ≤ limit)
    (inside : block.points ⊆ Set.Ico first stop) :
    ∃ piece ∈ chop limit stop steps first, block.points ⊆ piece.points := by
  obtain ⟨piece, member, inPiece⟩ := exists_piece limit enough (inside block.first_mem_points)
  refine ⟨piece, member, ?_⟩
  cases Nat.lt_or_ge piece.order block.order with
  | inl smaller =>
      have start := Block.first_eq_of_subset (Nat.le_of_lt smaller) inPiece
      have greedy := (chop_greedy member).1
      have fitting := le_fittingOrder bounded block.order_dvd_first (Block.subset_Ico_iff.mp inside).2
      rw [start] at greedy
      omega
  | inr larger => exact Block.points_subset_of_meet larger block.first_mem_points inPiece

/-- The pieces are the blocks inside the interval that cannot grow there. -/
theorem mem_chop_iff (enough : stop ≤ first + steps) :
    block ∈ chop limit stop steps first ↔
      block.order ≤ limit ∧ block.points ⊆ Set.Ico first stop ∧
        (block.order < limit → ¬ block.parent.points ⊆ Set.Ico first stop) := by
  constructor
  · intro member
    obtain ⟨greedy, inside⟩ := chop_greedy member
    have bounded : block.order ≤ limit := greedy ▸ fittingOrder_le
    refine ⟨bounded, inside, fun below parentInside => ?_⟩
    have parentBounded : block.parent.order ≤ limit := below
    obtain ⟨piece, present, grown⟩ := chop_absorbs enough parentBounded parentInside
    have shared : block.first ∈ piece.points := by
      apply grown
      rw [Block.points_parent]
      exact .inl block.first_mem_points
    have same := eq_of_meet_of_coverage_le_one (chop_coverage_le_one enough) present member shared
      block.first_mem_points
    have larger := Block.order_le_of_subset grown
    rw [same] at larger
    exact absurd larger (Nat.not_succ_le_self _)
  · intro conditions
    obtain ⟨bounded, inside, maximal⟩ := conditions
    obtain ⟨piece, present, within⟩ := chop_absorbs enough bounded inside
    obtain ⟨greedy, pieceInside⟩ := chop_greedy present
    have pieceBounded : piece.order ≤ limit := greedy ▸ fittingOrder_le
    have larger := Block.order_le_of_subset within
    cases Nat.lt_or_eq_of_le larger with
    | inl grown =>
        have parentOrder : block.parent.order ≤ piece.order := grown
        have meets : block.first ∈ block.parent.points := by
          rw [Block.points_parent]
          exact .inl block.first_mem_points
        have parentInside : block.parent.points ⊆ piece.points :=
          Block.points_subset_of_meet parentOrder meets (within block.first_mem_points)
        exact absurd (parentInside.trans pieceInside) (maximal (by omega))
    | inr same =>
        rw [Block.eq_of_meet same block.first_mem_points (within block.first_mem_points)]
        exact present

/-- A piece and its buddy are never both pieces: they would have been cut as one. -/
theorem buddy_notMem_chop (enough : stop ≤ first + steps) (below : block.order < limit)
    (member : block ∈ chop limit stop steps first) : block.buddy ∉ chop limit stop steps first := by
  intro buddyMember
  obtain ⟨-, inside, maximal⟩ := (mem_chop_iff enough).mp member
  have buddyInside := (chop_greedy buddyMember).2
  have parentInside : block.parent.points ⊆ Set.Ico first stop := by
    rw [Block.points_parent, Set.union_subset_iff]
    exact ⟨inside, buddyInside⟩
  exact maximal below parentInside

/-! ## Blocks laid end to end -/

/-- The blocks cover the interval one after the other, each from where the last one ends. -/
def EndToEnd (stop : Nat) : Nat → List Block → Prop
  | first, [] => first = stop
  | first, block :: rest => block.first = first ∧ EndToEnd stop (first + 2 ^ block.order) rest

theorem chop_endToEnd (ordered : first ≤ stop) (enough : stop ≤ first + steps) :
    EndToEnd stop first (chop limit stop steps first) := by
  induction steps generalizing first with
  | zero =>
      rw [chop]
      exact Nat.le_antisymm ordered enough
  | succ steps ih =>
      rw [chop]
      split
      · next nonempty =>
        have fits := (fittingOrder_fits limit nonempty).2
        have positive := Nat.two_pow_pos (fittingOrder first stop limit)
        have rest := ih fits (by omega)
        exact ⟨head_first limit nonempty, rest⟩
      · next empty => exact Nat.le_antisymm ordered (Nat.not_lt.mp empty)

namespace EndToEnd

variable {blocks : List Block}

theorem le_first (laid : EndToEnd stop first blocks) (member : block ∈ blocks) :
    first ≤ block.first := by
  induction blocks generalizing first with
  | nil => cases member
  | cons head rest ih =>
      obtain ⟨start, laid⟩ := laid
      cases List.mem_cons.mp member with
      | inl here => exact here ▸ Nat.le_of_eq start.symm
      | inr later => exact Nat.le_trans (Nat.le_add_right _ _) (ih laid later)

/-- Every block ends where a later one starts, or before. -/
theorem pairwise (laid : EndToEnd stop first blocks) :
    blocks.Pairwise fun lower upper => lower.first + 2 ^ lower.order ≤ upper.first := by
  induction blocks generalizing first with
  | nil => exact .nil
  | cons head rest ih =>
      obtain ⟨start, laid⟩ := laid
      refine List.pairwise_cons.mpr ⟨fun upper member => ?_, ih laid⟩
      rw [start]
      exact laid.le_first member

theorem first_add_length_le (laid : EndToEnd stop first blocks) : first + blocks.length ≤ stop := by
  induction blocks generalizing first with
  | nil => exact Nat.le_of_eq laid
  | cons head rest ih =>
      have tail := ih laid.2
      have positive := Nat.two_pow_pos head.order
      rw [List.length_cons]
      omega

end EndToEnd

end ScrapOS.DyadicBlocks
