import ScrapOS.Buddy.Handover

/-! Coalescing at the start. `seed_run` leaves no buddies behind inside one entry, but the
runs of two entries are seeded apart: when the halves of a claimed block lie in two
entries that touch, both halves become free blocks. -/

set_option autoImplicit false

namespace ScrapOS.Buddy

open DyadicBlocks

/-- A block and its buddy are claimed and lie in two different usable entries. -/
def Straddles (memmap : List MemmapEntry) (claimed : Set Nat) (block : Block) : Prop :=
  block.parent.points ⊆ claimed ∧
    ∃ e ∈ memmap, ∃ e' ∈ memmap, e.type = limineMemmapUsable ∧ e'.type = limineMemmapUsable ∧
      block.points ⊆ e.frames ∧ block.buddy.points ⊆ e'.frames ∧ Disjoint e.frames e'.frames

/-- Coalescing in terms of blocks. -/
theorem Partition.coalesced_iff {managed : Set Nat} {lists : Lists} {held : List Handle}
    (tiled : Partition managed lists held) :
    lists.Coalesced ↔
      ∀ block ∈ lists.blocks, block.order < buddyMaxOrder → block.buddy ∉ lists.blocks := by
  constructor
  · exact fun merged => (tiled.coalesced merged).merged
  · intro apart o below phys member buddyMember
    have bounded := Nat.le_of_lt below
    have onLists := Lists.mem_blocks.mpr ⟨o, bounded, phys, member, rfl⟩
    have buddyOnLists := Lists.mem_blocks.mpr ⟨o, bounded, _, buddyMember, rfl⟩
    rw [(xor_blockBytes bounded (tiled.aligned o bounded phys member)).2] at buddyOnLists
    exact apart _ onLists below buddyOnLists

section Runs

variable {memmap : List MemmapEntry} {runs : List FrameRun} {block : Block} {e : MemmapEntry}

/-- A claimed interval of one entry lies in the run its first frame lies in. -/
theorem subset_run (enclosed : ∀ run ∈ runs, Enclosed memmap (heldFrames runs) run)
    (memmapValid : MemmapValid memmap) (member : e ∈ memmap) (usable : e.type = limineMemmapUsable)
    (inEntry : block.points ⊆ e.frames) (claimed : block.points ⊆ heldFrames runs) {run : FrameRun}
    (present : run ∈ runs) (first : block.first ∈ run.frames) :
    block.points ⊆ run.frames ∧ run.frames ⊆ e.frames := by
  obtain ⟨-, e', member', usable', inside, behind⟩ := enclosed run present
  have sameEntry : e' = e := by
    refine (memmapValid.entry_eq member' member usable' usable).resolve_right fun apart => ?_
    exact Set.disjoint_left.mp apart (inside first) (inEntry block.first_mem_points)
  subst sameEntry
  have walk : ∀ offset, offset < 2 ^ block.order → block.first + offset ∈ run.frames := by
    intro offset
    induction offset with
    | zero => exact fun _ => first
    | succ offset ih =>
        intro within
        have before := ih (Nat.lt_of_succ_lt within)
        have here : block.first + (offset + 1) ∈ block.points := by
          rw [Block.mem_points_iff_range]
          omega
        have notEnd : block.first + (offset + 1) ≠ run.2 := by
          intro atEnd
          rw [atEnd] at here
          exact behind (inEntry here) (claimed here)
        have low := before.1
        have high := before.2
        exact ⟨by omega, by omega⟩
  refine ⟨fun frame inBlock => ?_, inside⟩
  rw [Block.mem_points_iff_range] at inBlock
  have reached := walk (frame - block.first) (by omega)
  rwa [Nat.add_sub_cancel' inBlock.1] at reached

theorem FrameRun.mem_pieces_iff {run : FrameRun} : block ∈ run.pieces ↔
    block.order ≤ buddyMaxOrder ∧ block.points ⊆ run.frames ∧
      (block.order < buddyMaxOrder → ¬ block.parent.points ⊆ run.frames) :=
  mem_chop_iff (by omega)

/-- A half of a straddling block is as large as its run allows. -/
theorem Straddles.mem_pieces (enclosed : ∀ run ∈ runs, Enclosed memmap (heldFrames runs) run)
    (memmapValid : MemmapValid memmap) (below : block.order < buddyMaxOrder)
    (straddles : Straddles memmap (heldFrames runs) block) : ∃ run ∈ runs, block ∈ run.pieces := by
  obtain ⟨claimed, e, member, e', member', usable, usable', inEntry, buddyInEntry, apart⟩ := straddles
  rw [Block.points_parent, Set.union_subset_iff] at claimed
  obtain ⟨run, present, first⟩ := claimed.1 block.first_mem_points
  obtain ⟨inRun, runInEntry⟩ :=
    subset_run enclosed memmapValid member usable inEntry claimed.1 present first
  refine ⟨run, present, FrameRun.mem_pieces_iff.mpr ⟨Nat.le_of_lt below, inRun, fun _ grown => ?_⟩⟩
  rw [Block.points_parent, Set.union_subset_iff] at grown
  have buddyFirst := block.buddy.first_mem_points
  exact Set.disjoint_left.mp apart (runInEntry (grown.2 buddyFirst)) (buddyInEntry buddyFirst)

theorem Straddles.buddy {claimed : Set Nat} (straddles : Straddles memmap claimed block) :
    Straddles memmap claimed block.buddy := by
  obtain ⟨inClaimed, e, member, e', member', usable, usable', inEntry, buddyInEntry, apart⟩ := straddles
  refine ⟨?_, e', member', e, member, usable', usable, buddyInEntry, ?_, apart.symm⟩
  · rw [Block.parent_buddy]
    exact inClaimed
  · rw [Block.buddy_buddy]
    exact inEntry

/-- Two buddies are pieces only when they straddle two entries. -/
theorem straddles_of_pieces (enclosed : ∀ run ∈ runs, Enclosed memmap (heldFrames runs) run)
    (memmapValid : MemmapValid memmap) (below : block.order < buddyMaxOrder) {run run' : FrameRun}
    (present : run ∈ runs) (present' : run' ∈ runs) (piece : block ∈ run.pieces)
    (buddyPiece : block.buddy ∈ run'.pieces) : Straddles memmap (heldFrames runs) block := by
  obtain ⟨-, inRun, maximal⟩ := FrameRun.mem_pieces_iff.mp piece
  obtain ⟨-, buddyInRun, buddyMaximal⟩ := FrameRun.mem_pieces_iff.mp buddyPiece
  obtain ⟨-, e, member, usable, runInEntry, -⟩ := enclosed run present
  obtain ⟨-, e', member', usable', runInEntry', -⟩ := enclosed run' present'
  have claimed : block.parent.points ⊆ heldFrames runs := by
    rw [Block.points_parent, Set.union_subset_iff]
    exact ⟨fun frame inBlock => ⟨run, present, inRun inBlock⟩,
      fun frame inBuddy => ⟨run', present', buddyInRun inBuddy⟩⟩
  refine ⟨claimed, e, member, e', member', usable, usable', inRun.trans runInEntry,
    buddyInRun.trans runInEntry', ?_⟩
  refine (memmapValid.entry_eq member member' usable usable').resolve_left fun sameEntry => ?_
  subst sameEntry
  -- Both halves in one entry: the run of the lower half holds the upper half, too.
  have parentInEntry : block.parent.points ⊆ e.frames := by
    rw [Block.points_parent, Set.union_subset_iff]
    exact ⟨inRun.trans runInEntry, buddyInRun.trans runInEntry'⟩
  have parentFirst := block.parent.first_mem_points
  rw [Block.points_parent] at parentFirst
  cases parentFirst with
  | inl inLower =>
      exact maximal below (subset_run enclosed memmapValid member usable parentInEntry claimed present
        (inRun inLower)).1
  | inr inUpper =>
      have grown := (subset_run enclosed memmapValid member usable parentInEntry claimed present'
        (buddyInRun inUpper)).1
      rw [← Block.parent_buddy] at grown
      exact buddyMaximal below grown

end Runs

namespace HandedOver

variable {hhdm : Word} {bitmapFrames free : Set Nat} {memmap : List MemmapEntry} {m : Memory}
  {reserveFrames : Word} {runs : List FrameRun} {lists : Lists}
  {result : Memory × Pmm.Globals × Globals}

theorem mem_blocks (handed : HandedOver hhdm bitmapFrames free memmap m reserveFrames runs lists result)
    {block : Block} : block ∈ lists.blocks ↔ ∃ run ∈ runs, block ∈ run.pieces := by
  rw [handed.blocks.mem_iff, List.mem_flatMap]

theorem frames_eq (handed : HandedOver hhdm bitmapFrames free memmap m reserveFrames runs lists result) :
    lists.frames = heldFrames runs := by
  ext frame
  rw [handed.tiled.mem_frames_iff]
  simp

theorem coalesced_iff
    (handed : HandedOver hhdm bitmapFrames free memmap m reserveFrames runs lists result)
    (memmapValid : MemmapValid memmap) :
    lists.Coalesced ↔ ∀ block : Block, block.order < buddyMaxOrder →
      ¬ Straddles memmap lists.frames block := by
  rw [handed.tiled.coalesced_iff, handed.frames_eq]
  constructor
  · intro merged block below straddles
    have onLists := handed.mem_blocks.mpr (straddles.mem_pieces handed.enclosed memmapValid below)
    have buddyBelow : block.buddy.order < buddyMaxOrder := below
    exact merged block onLists below
      (handed.mem_blocks.mpr (straddles.buddy.mem_pieces handed.enclosed memmapValid buddyBelow))
  · intro none block onLists below buddyOnLists
    obtain ⟨run, present, piece⟩ := handed.mem_blocks.mp onLists
    obtain ⟨run', present', buddyPiece⟩ := handed.mem_blocks.mp buddyOnLists
    exact none block below
      (straddles_of_pieces handed.enclosed memmapValid below present present' piece buddyPiece)

theorem alloc_succeeds
    (handed : HandedOver hhdm bitmapFrames free memmap m reserveFrames runs lists result)
    (usable : Usable hhdm free) (coalesced : lists.Coalesced) {k f : Nat} (bounded : k ≤ buddyMaxOrder)
    (aligned : 2 ^ k ∣ f) (claimed : Set.Ico f (f + 2 ^ k) ⊆ lists.frames) :
    (buddyAlloc result.1 result.2.2 k).1 ≠ 0 := by
  have valid : Valid (heldFrames runs) ⟨result.1, result.2.2, []⟩ lists := by
    refine ⟨handed.holds, ?_, handed.tiled⟩
    rw [handed.gHhdm]
    exact usable.mono handed.inFree
  intro failed
  exact (valid.alloc_complete coalesced bounded).mp failed
    ⟨f, aligned, fun frame low high => claimed ⟨low, high⟩⟩

end HandedOver

/-- `buddy_init` starts coalesced unless the halves of a claimed block lie in two
entries; then every aligned claimed run can be allocated at once. -/
theorem buddy_init_coalesced {memmap : List MemmapEntry} {free : Set Nat} {c : Pmm.Config}
    (memmapValid : MemmapValid memmap) (valid : Pmm.Valid (usableFrames memmap) free c)
    (reachable : ∀ frame ∈ usableFrames memmap, frameAddress frame + c.hhdmOffset ≠ 0)
    (reserveFrames : Word) :
    ∃ lists, InitExact memmap c reserveFrames
        (buddyInit c.mem c.globals memmap c.hhdmOffset reserveFrames).1
        (buddyInit c.mem c.globals memmap c.hhdmOffset reserveFrames).2.1
        (buddyInit c.mem c.globals memmap c.hhdmOffset reserveFrames).2.2 lists ∧
      (lists.Coalesced ↔ ∀ block : Block, block.order < buddyMaxOrder →
        ¬ Straddles memmap lists.frames block) ∧
      (lists.Coalesced → ∀ k, k ≤ buddyMaxOrder → ∀ f, 2 ^ k ∣ f →
        Set.Ico f (f + 2 ^ k) ⊆ lists.frames →
        (buddyAlloc (buddyInit c.mem c.globals memmap c.hhdmOffset reserveFrames).1
          (buddyInit c.mem c.globals memmap c.hhdmOffset reserveFrames).2.2 k).1 ≠ 0) := by
  have usable : Usable c.hhdmOffset free :=
    ⟨fun member => valid.zero (valid.freeManaged member),
      fun frame member => reachable frame (valid.freeManaged member)⟩
  obtain ⟨runs, lists, handed⟩ := buddyInit_handedOver memmapValid valid.tracks valid.freeManaged usable
    reserveFrames
  exact ⟨lists, handed.initExact valid, handed.coalesced_iff memmapValid,
    fun coalesced k bounded f aligned claimed =>
      handed.alloc_succeeds usable coalesced bounded aligned claimed⟩

theorem buddy_init_coalesced_smallMap :
    ∃ c lists, c = Pmm.start Pmm.smallHhdm Pmm.smallBoot.1 Pmm.smallBoot.2 ∧
      InitExact Pmm.smallMap c 0 (buddyInit c.mem c.globals Pmm.smallMap c.hhdmOffset 0).1
        (buddyInit c.mem c.globals Pmm.smallMap c.hhdmOffset 0).2.1
        (buddyInit c.mem c.globals Pmm.smallMap c.hhdmOffset 0).2.2 lists ∧
      (lists.Coalesced ↔ ∀ block : Block, block.order < buddyMaxOrder →
        ¬ Straddles Pmm.smallMap lists.frames block) := by
  have valid := (Pmm.pmmInit_booted Pmm.smallMap_valid Pmm.smallBoot_done).valid Pmm.smallMap_valid
  obtain ⟨lists, exact, coalesced, -⟩ :=
    buddy_init_coalesced Pmm.smallMap_valid valid smallMap_reachable 0
  exact ⟨_, lists, rfl, exact, coalesced⟩

/-! ## Two entries that touch -/

/-- The frame of the bitmap, and frames 4 and 5 in entries of their own. -/
def touchingMap : List MemmapEntry :=
  [⟨0x1000, 0x1000, limineMemmapUsable⟩, ⟨0x4000, 0x1000, limineMemmapUsable⟩,
    ⟨0x5000, 0x1000, limineMemmapUsable⟩]

theorem touchingMap_frames : usableFrames touchingMap = {1, 4, 5} := by
  have single : ∀ first : Nat, Set.Ico first (first + 1) = {first} := by
    intro first
    ext frame
    simp only [Set.mem_Ico, Set.mem_singleton_iff]
    omega
  rw [touchingMap, usableFrames_cons, usableFrames_cons, usableFrames_cons, if_pos rfl, if_pos rfl,
    if_pos rfl, usableFrames_nil, Set.union_empty]
  change Set.Ico 1 (1 + 1) ∪ (Set.Ico 4 (4 + 1) ∪ Set.Ico 5 (5 + 1)) = _
  rw [single, single, single]
  rfl

theorem Ico_disjoint_of_le {a b c d : Nat} (le : b ≤ c) : Disjoint (Set.Ico a b) (Set.Ico c d) :=
  Set.disjoint_left.mpr fun _ low high => Nat.not_lt.mpr (le.trans high.1) low.2

theorem touchingMap_valid : MemmapValid touchingMap := by
  refine ⟨by decide, by decide, ?_, ?_⟩
  · simp [touchingMap, MemmapEntry.frames, limineMemmapUsable]
  · rw [touchingMap_frames]
    simp

/-- All frames are claimed, but frames 4 and 5 stay two free blocks of order 0. -/
theorem touching_entries_not_coalesced :
    ∃ m pmm, Pmm.pmmInit (fun _ => 0) touchingMap Pmm.smallHhdm = some (m, pmm) ∧
      MemmapValid touchingMap ∧ touchingMap.Pairwise (fun left right => left.base < right.base) ∧
      ∃ lists, Holds (buddyInit m pmm touchingMap Pmm.smallHhdm 0).1
          (buddyInit m pmm touchingMap Pmm.smallHhdm 0).2.2 lists ∧ ¬ lists.Coalesced := by
  have succeeds : (Pmm.pmmInit (fun _ => 0) touchingMap Pmm.smallHhdm).isSome := by decide +kernel
  obtain ⟨boot, done⟩ := Option.isSome_iff_exists.mp succeeds
  have globals : (Pmm.pmmInit (fun _ => 0) touchingMap Pmm.smallHhdm).map (fun boot =>
      (boot.2.bitmap, boot.2.bitmapBytes)) = some (0xffff800000001000, 1) := by decide +kernel
  rw [done, Option.map_some, Option.some.injEq, Prod.mk.injEq] at globals
  have booted := Pmm.pmmInit_booted touchingMap_valid done
  have bitmap : boot.2.bitmapFrames Pmm.smallHhdm ⊆ {1} := by
    rintro frame ⟨i, inside, rfl⟩
    rw [globals.2] at inside
    rw [globals.1, Set.mem_singleton_iff, frameOf, Pmm.smallHhdm]
    have zero : i = 0 := by bv_omega
    rw [zero]
    decide
  have usable : Usable Pmm.smallHhdm (usableFrames touchingMap) := by
    rw [touchingMap_frames]
    refine ⟨by simp, ?_⟩
    rintro frame (rfl | rfl | rfl) <;> decide
  obtain ⟨runs, lists, handed⟩ := buddyInit_handedOver touchingMap_valid booted.tracks
    Set.sdiff_subset (usable.mono Set.sdiff_subset) 0
  have everything : heldFrames runs = usableFrames touchingMap \ boot.2.bitmapFrames Pmm.smallHhdm := by
    apply Set.eq_of_subset_of_ncard_le handed.inFree _ booted.tracks.finite
    rw [handed.counted]
    exact Nat.le_refl _
  refine ⟨boot.1, boot.2, done, touchingMap_valid, by decide, lists, handed.holds, ?_⟩
  rw [handed.coalesced_iff touchingMap_valid, handed.frames_eq, everything, touchingMap_frames]
  intro none
  have claimed : ∀ frame, frame = 4 ∨ frame = 5 →
      frame ∈ ({1, 4, 5} : Set Nat) \ boot.2.bitmapFrames Pmm.smallHhdm := by
    rintro frame (rfl | rfl)
    · exact ⟨by simp, fun member => absurd (bitmap member) (by simp)⟩
    · exact ⟨by simp, fun member => absurd (bitmap member) (by simp)⟩
  apply none ⟨0, 4⟩ (by decide)
  refine ⟨?_, ⟨0x4000, 0x1000, limineMemmapUsable⟩, by decide, ⟨0x5000, 0x1000, limineMemmapUsable⟩,
    by decide, rfl, rfl, ?_, ?_, ?_⟩
  · intro frame member
    rw [Block.mem_points_iff_range] at member
    have range : 4 ≤ frame ∧ frame < 6 := member
    exact claimed frame (by omega)
  · intro frame member
    rw [Block.mem_points_iff_range] at member
    exact member
  · intro frame member
    rw [Block.mem_points_iff_range] at member
    exact member
  · exact Ico_disjoint_of_le (Nat.le_refl 5)

end ScrapOS.Buddy
