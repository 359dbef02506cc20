import ScrapOS.Buddy.Ownership

/-! Coalescing. Neither loop ever leaves a block free next to its free buddy, so
the free blocks of a reachable state are the one coalesced decomposition of the
free frames. Completeness of allocation and independence of the history both
follow from that decomposition. -/

set_option autoImplicit false

namespace ScrapOS.Buddy

open DyadicBlocks

/-- No block below the top order is free together with its buddy. -/
def Lists.Coalesced (lists : Lists) : Prop :=
  ∀ o, o < buddyMaxOrder → ∀ phys ∈ lists o, phys ^^^ blockBytes o ∉ lists o

/-! ## The loops keep lists coalesced -/

theorem xor_blockBytes_ne {o : Nat} (bounded : o ≤ buddyMaxOrder) (phys : Word) :
    phys ^^^ blockBytes o ≠ phys := by
  intro same
  have size := blockBytes_toNat bounded
  have positive := Nat.two_pow_pos (12 + o)
  have zero : blockBytes o = 0 := by
    calc blockBytes o = phys ^^^ (phys ^^^ blockBytes o) := by
          rw [← BitVec.xor_assoc, BitVec.xor_self, BitVec.zero_xor]
      _ = 0 := by rw [same, BitVec.xor_self]; rfl
  rw [zero] at size
  exact absurd size (Nat.ne_of_lt positive)

theorem xor_blockBytes_xor (o : Nat) (phys : Word) : phys ^^^ blockBytes o ^^^ blockBytes o = phys := by
  rw [BitVec.xor_assoc, BitVec.xor_self, BitVec.xor_zero]

namespace Lists

variable {lists : Lists} {order : Nat} {phys : Word}

/-- The split loop leaves one new upper half on each list it passes. -/
theorem splitDown_apply (lists : Lists) (phys : Word) (order o o' : Nat) :
    lists.splitDown phys order o o' =
      if order ≤ o' ∧ o' < o then (phys + blockBytes o') :: lists o' else lists o' := by
  induction o generalizing lists with
  | zero => rw [splitDown, if_neg fun both => Nat.not_lt_zero _ both.2]
  | succ o ih =>
      rw [splitDown]
      split
      · next more =>
        rw [ih]
        by_cases last : o' = o
        · subst last
          have reached : order ≤ o' ∧ o' < o' + 1 := ⟨Nat.le_of_lt_succ more, Nat.lt_succ_self _⟩
          rw [if_neg fun both => Nat.lt_irrefl _ both.2, if_pos reached, push, Function.update_self]
        · rw [push, Function.update_of_ne last]
          have sameRange : (order ≤ o' ∧ o' < o) ↔ (order ≤ o' ∧ o' < o + 1) := by omega
          simp only [sameRange]
      · next done =>
        have outside : ¬ (order ≤ o' ∧ o' < o + 1) := by omega
        rw [if_neg outside]

theorem mem_of_mem_remove {o : Nat} {other : Word} (member : other ∈ lists.remove order phys o) :
    other ∈ lists o := by
  by_cases same : o = order
  · subst same
    rw [remove, Function.update_self] at member
    exact List.mem_of_mem_erase member
  · rwa [remove, Function.update_of_ne same] at member

theorem Coalesced.remove (coalesced : lists.Coalesced) :
    (lists.remove order phys).Coalesced :=
  fun o below other member buddy =>
    coalesced o below other (mem_of_mem_remove member) (mem_of_mem_remove buddy)

theorem Coalesced.push (coalesced : lists.Coalesced)
    (busy : order < buddyMaxOrder → phys ^^^ blockBytes order ∉ lists order) :
    (lists.push order phys).Coalesced := by
  intro o below other member buddy
  by_cases same : o = order
  · subst same
    rw [Lists.push, Function.update_self] at member buddy
    have bounded := Nat.le_of_lt below
    cases List.mem_cons.mp member with
    | inl isNew =>
      subst isNew
      cases List.mem_cons.mp buddy with
      | inl itself => exact xor_blockBytes_ne bounded other itself
      | inr present => exact busy below present
    | inr old =>
      cases List.mem_cons.mp buddy with
      | inl isNew =>
        rw [← isNew, xor_blockBytes_xor] at busy
        exact busy below old
      | inr present => exact coalesced o below other old present
  · rw [Lists.push, Function.update_of_ne same] at member buddy
    exact coalesced o below other member buddy

/-- Each list the split loop passes was empty, so the half it leaves there is alone. -/
theorem Coalesced.alloc (coalesced : lists.Coalesced) (order : Nat) :
    (lists.alloc order).2.Coalesced := by
  cases alloc_cases lists order with
  | inl failed =>
    rw [failed.1]
    exact coalesced
  | inr succeeded =>
    obtain ⟨top, phys, rest, low, bounded, shape, empty, taken⟩ := succeeded
    rw [taken]
    intro o below other member buddy
    dsimp only at member buddy
    rw [splitDown_apply] at member buddy
    split at member
    · next passed =>
      have wasEmpty : lists.remove top phys o = [] := by
        rw [Lists.remove, Function.update_of_ne (Nat.ne_of_lt passed.2)]
        exact empty o passed.1 passed.2
      rw [if_pos passed, wasEmpty] at buddy
      rw [wasEmpty] at member
      have isHalf := List.mem_singleton.mp member
      have buddyIsHalf := List.mem_singleton.mp buddy
      exact xor_blockBytes_ne (Nat.le_of_lt below) other (buddyIsHalf.trans isHalf.symm)
    · next notPassed =>
      rw [if_neg notPassed] at buddy
      exact coalesced.remove o below other member buddy

/-- The merge loop stops only at a busy buddy or at the top order. -/
theorem Coalesced.mergeUp {steps : Nat} (coalesced : lists.Coalesced)
    (enough : buddyMaxOrder ≤ order + steps) :
    (Lists.mergeUp steps lists phys order).Coalesced := by
  induction steps generalizing lists phys order with
  | zero => exact coalesced.push fun below => absurd below (Nat.not_lt.mpr enough)
  | succ steps ih =>
      rw [Lists.mergeUp]
      split
      · dsimp only
        split
        · exact ih coalesced.remove (by omega)
        · next busy => exact coalesced.push fun _ => busy
      · next top => exact coalesced.push fun below => absurd below top

theorem Coalesced.free (coalesced : lists.Coalesced) (phys : Word) (order : Nat) :
    (lists.free phys order).Coalesced := by
  rw [Lists.free]
  split
  · exact coalesced
  · exact coalesced.mergeUp (Nat.le_add_left _ _)

end Lists

theorem Valid.ListStep.coalesced {lists lists' : Lists} (coalesced : lists.Coalesced)
    (stepped : Relation.ReflTransGen Valid.ListStep lists lists') : lists'.Coalesced := by
  induction stepped with
  | refl => exact coalesced
  | tail _ last ih =>
      cases last with
      | alloc order => exact ih.alloc order
      | free handle => exact ih.free handle.1 handle.2
      | same => exact ih

/-! ## The free blocks as a coalesced family -/

namespace Partition

variable {managed : Set Nat} {lists : Lists} {held : List Handle}

theorem coalesced (tiled : Partition managed lists held) (coalesced : lists.Coalesced) :
    DyadicBlocks.Coalesced buddyMaxOrder {block | block ∈ lists.blocks} where
  bounded := by
    intro block member
    obtain ⟨o, bounded, phys, -, rfl⟩ := Lists.mem_blocks.mp member
    exact bounded
  disjoint := by
    intro left leftMember right rightMember point inLeft inRight
    exact eq_of_meet_of_coverage_le_one tiled.coverage_le_one
      (List.mem_append_left _ leftMember) (List.mem_append_left _ rightMember) inLeft inRight
  merged := by
    intro block member below buddyMember
    obtain ⟨o, bounded, phys, present, rfl⟩ := Lists.mem_blocks.mp member
    obtain ⟨o', bounded', other, present', same⟩ := Lists.mem_blocks.mp buddyMember
    have aligned := tiled.aligned o bounded phys present
    obtain ⟨flippedAligned, flipped⟩ := xor_blockBytes bounded aligned
    have sameOrder : o' = o := by
      have orders := congrArg Block.order same
      rwa [Block.buddy_order] at orders
    subst sameOrder
    have isBuddy := eq_of_blockOf_eq (tiled.aligned o' bounded' other present') flippedAligned
      (same.trans flipped.symm)
    exact coalesced o' below phys present (isBuddy ▸ present')

theorem mem_frames_iff (tiled : Partition managed lists held) {frame : Nat} :
    frame ∈ lists.frames ↔ frame ∈ managed ∧ ∀ handle ∈ held, frame ∉ handle.block.points := by
  constructor
  · rintro ⟨block, present, inBlock⟩
    refine ⟨tiled.frame_mem_managed (List.mem_append_left _ present) inBlock, ?_⟩
    intro handle member inHandle
    have pairs := (List.pairwise_append.mp tiled.pairwise_disjoint).2.2
    exact Set.disjoint_left.mp (pairs block present _ (List.mem_map_of_mem member)) inBlock inHandle
  · rintro ⟨member, notLive⟩
    obtain ⟨block, present, inBlock⟩ := tiled.mem_managed_iff.mp member
    cases List.mem_append.mp present with
    | inl free => exact ⟨block, free, inBlock⟩
    | inr live =>
      obtain ⟨handle, inHand, rfl⟩ := List.mem_map.mp live
      exact absurd inBlock (notLive handle inHand)

theorem frames_eq (tiled : Partition managed lists held) :
    lists.frames = managed \ {frame | ∃ handle ∈ held, frame ∈ handle.block.points} := by
  ext frame
  rw [tiled.mem_frames_iff]
  simp

theorem same_lists {other : Lists} {otherHeld : List Handle} (tiled : Partition managed lists held)
    (tiled' : Partition managed other otherHeld) (merged : lists.Coalesced)
    (merged' : other.Coalesced) (sameFree : lists.frames = other.frames) {o : Nat}
    (bounded : o ≤ buddyMaxOrder) (phys : Word) : phys ∈ lists o ↔ phys ∈ other o := by
  have sameBlocks := (tiled.coalesced merged).unique (tiled'.coalesced merged')
    fun frame => Set.ext_iff.mp sameFree frame
  have oneWay : ∀ {source target : Lists} {sourceHeld targetHeld : List Handle},
      Partition managed source sourceHeld → Partition managed target targetHeld →
      {block | block ∈ source.blocks} = {block | block ∈ target.blocks} → phys ∈ source o →
      phys ∈ target o := by
    intro source target sourceHeld targetHeld sourceTiled targetTiled same present
    have inSource : blockOf o phys ∈ {block | block ∈ source.blocks} :=
      Lists.mem_blocks.mpr ⟨o, bounded, phys, present, rfl⟩
    rw [same] at inSource
    obtain ⟨o', bounded', found, present', sameBlock⟩ := Lists.mem_blocks.mp inSource
    have sameOrder : o' = o := congrArg Block.order sameBlock
    subst sameOrder
    rw [← eq_of_blockOf_eq (targetTiled.aligned o' bounded found present')
      (sourceTiled.aligned o' bounded phys present) sameBlock]
    exact present'
  exact ⟨oneWay tiled tiled' sameBlocks, oneWay tiled' tiled sameBlocks.symm⟩

end Partition

/-! ## Completeness -/

theorem Valid.alloc_eq_zero_iff {managed : Set Nat} {c : Config} {lists : Lists}
    (valid : Valid managed c lists) (order : Nat) :
    (buddyAlloc c.mem c.globals order).1 = 0 ↔
      ∀ o, order ≤ o → o ≤ buddyMaxOrder → lists o = [] := by
  rw [(buddyAlloc_follows valid.holds valid.usable valid.tiled order).1]
  cases Lists.alloc_cases lists order with
  | inl failed =>
    rw [failed.1]
    exact ⟨fun _ => failed.2, fun _ => rfl⟩
  | inr succeeded =>
    obtain ⟨o, phys, rest, low, bounded, shape, -, taken⟩ := succeeded
    rw [taken]
    constructor
    · intro null
      have member : phys ∈ lists o := shape ▸ List.mem_cons_self
      exact absurd null (valid.tiled.ne_zero_of_mem valid.usable.zero bounded member)
    · intro empty
      rw [empty o low bounded] at shape
      cases shape

/-- A free run of the requested size and alignment lies in one listed block. -/
theorem Valid.alloc_complete {managed : Set Nat} {c : Config} {lists : Lists}
    (valid : Valid managed c lists) (coalesced : lists.Coalesced) {k : Nat}
    (bounded : k ≤ buddyMaxOrder) :
    (buddyAlloc c.mem c.globals k).1 = 0 ↔
      ¬ ∃ f, 2 ^ k ∣ f ∧ ∀ frame, f ≤ frame → frame < f + 2 ^ k → frame ∈ lists.frames := by
  constructor
  · intro failed freeRun
    obtain ⟨f, ⟨index, position⟩, free⟩ := freeRun
    have held : ∀ frame ∈ (⟨k, index⟩ : Block).points,
        ∃ member ∈ {block | block ∈ lists.blocks}, frame ∈ member.points := by
      intro frame inBlock
      obtain ⟨atLeast, below⟩ := Block.mem_points_iff_range.mp inBlock
      have first : (⟨k, index⟩ : Block).first = f := by
        rw [Block.first, position, Nat.mul_comm]
      rw [first] at atLeast below
      exact free frame atLeast below
    obtain ⟨outer, present, inside⟩ :=
      (valid.tiled.coalesced coalesced).exists_superset
        (show (⟨k, index⟩ : Block).order ≤ buddyMaxOrder from bounded) held
    obtain ⟨o, bound, phys, member, rfl⟩ := Lists.mem_blocks.mp present
    have larger : k ≤ o := Block.order_le_of_subset inside
    rw [(valid.alloc_eq_zero_iff k).mp failed o larger bound] at member
    cases member
  · intro noRun
    by_contra succeeded
    obtain ⟨-, aligned, -, free⟩ := valid.alloc_fresh succeeded
    refine noRun ⟨(blockOf k (buddyAlloc c.mem c.globals k).1).first, ⟨_, Nat.mul_comm _ _⟩, ?_⟩
    intro frame atLeast below
    exact free (Block.mem_points_iff_range.mpr ⟨atLeast, below⟩)

/-- The free frames are the managed ones outside the live blocks. After any run a request fails only
when no aligned run of that many frames is free. -/
theorem buddy_alloc_complete {managed : Set Nat} {start c : Config} {lists : Lists}
    (valid : Valid managed start lists) (coalesced : lists.Coalesced) (ran : Run start c) :
    ∃ lists', Holds c.mem c.globals lists' ∧ lists'.Coalesced ∧
      lists'.frames = managed \ c.liveFrames ∧
      ∀ k, k ≤ buddyMaxOrder →
        ((buddyAlloc c.mem c.globals k).1 = 0 ↔
          ¬ ∃ f, 2 ^ k ∣ f ∧ ∀ frame, f ≤ frame → frame < f + 2 ^ k → frame ∈ lists'.frames) := by
  obtain ⟨lists', stepped, valid'⟩ := valid.run ran
  have coalesced' := Valid.ListStep.coalesced coalesced stepped
  exact ⟨lists', valid'.holds, coalesced', valid'.tiled.frames_eq, fun k bounded =>
    valid'.alloc_complete coalesced' bounded⟩

theorem oneBlock_coalesced : oneBlockLists.Coalesced := by
  intro o below phys member
  rw [oneBlockLists, if_neg (Nat.ne_of_lt below)] at member
  cases member

theorem oneBlock_frames {frame : Nat} :
    frame ∈ oneBlockLists.frames ↔ 1024 ≤ frame ∧ frame < 2048 := by
  have blocks : oneBlockLists.blocks = [⟨10, 1⟩] := by decide
  simp [Lists.frames, blocks, Block.mem_points_iff_range, Block.first]

theorem oneBlock_alloc_live : (oneBlock.alloc 3).live = [(0x400000, 3)] := by decide +kernel

theorem oneBlock_alloc_liveFrames {frame : Nat} :
    frame ∈ (oneBlock.alloc 3).liveFrames ↔ 1024 ≤ frame ∧ frame < 1032 := by
  have place : (blockOf 3 4194304#64).index = 128 := by decide
  simp [Config.liveFrames, oneBlock_alloc_live, Block.mem_points_iff_range, Block.first, place]

/-- While eight frames are live, the whole block is refused, and the half that they are not in is
served. -/
theorem buddy_alloc_complete_oneBlock :
    ∃ c, Run oneBlock c ∧ c.live = [(0x400000, 3)] ∧ (buddyAlloc c.mem c.globals 10).1 = 0 ∧
      (buddyAlloc c.mem c.globals 9).1 ≠ 0 := by
  have ran : Run oneBlock (oneBlock.alloc 3) := .single (.alloc 3)
  obtain ⟨lists', -, -, free, complete⟩ :=
    buddy_alloc_complete oneBlock_initial.valid oneBlock_coalesced ran
  have isFree : ∀ frame, frame ∈ lists'.frames ↔ 1032 ≤ frame ∧ frame < 2048 := by
    intro frame
    rw [free, Set.mem_sdiff, oneBlock_frames, oneBlock_alloc_liveFrames]
    omega
  refine ⟨_, ran, oneBlock_alloc_live, (complete 10 (by decide)).mpr ?_, fun refused => ?_⟩
  · rintro ⟨_, ⟨index, rfl⟩, all⟩
    have first := (isFree _).mp (all _ (Nat.le_refl _) (by omega))
    have last := (isFree (2 ^ 10 * index + 1023)).mp (all _ (by omega) (by omega))
    omega
  · refine (complete 9 (by decide)).mp refused ⟨1536, ⟨3, rfl⟩, fun frame atLeast below => ?_⟩
    exact (isFree frame).mpr (by omega)

/-! ## Independence of the history -/

theorem Valid.same_lists {managed : Set Nat} {left right : Config} {leftLists rightLists : Lists}
    (leftValid : Valid managed left leftLists) (rightValid : Valid managed right rightLists)
    (leftCoalesced : leftLists.Coalesced) (rightCoalesced : rightLists.Coalesced)
    (sameLive : left.liveFrames = right.liveFrames) {o : Nat} (bounded : o ≤ buddyMaxOrder)
    (phys : Word) : phys ∈ leftLists o ↔ phys ∈ rightLists o := by
  refine leftValid.tiled.same_lists rightValid.tiled leftCoalesced rightCoalesced ?_ bounded phys
  ext frame
  have live : (∃ handle ∈ left.live, frame ∈ handle.block.points) ↔
      ∃ handle ∈ right.live, frame ∈ handle.block.points := Set.ext_iff.mp sameLive frame
  rw [leftValid.tiled.mem_frames_iff, rightValid.tiled.mem_frames_iff]
  have notLive := not_congr live
  push Not at notLive
  rw [notLive]

theorem buddy_history_independent {managed : Set Nat} {start : Config} {lists : Lists}
    (valid : Valid managed start lists) (coalesced : lists.Coalesced) :
    (∀ left right, Run start left → Run start right → left.liveFrames = right.liveFrames →
      ∃ leftLists rightLists, Holds left.mem left.globals leftLists ∧
        Holds right.mem right.globals rightLists ∧
        ∀ o, o ≤ buddyMaxOrder → ∀ phys, phys ∈ leftLists o ↔ phys ∈ rightLists o) ∧
    ∀ c, Run start c → c.liveFrames = start.liveFrames →
      ∃ lists', Holds c.mem c.globals lists' ∧
        ∀ o, o ≤ buddyMaxOrder → ∀ phys, phys ∈ lists' o ↔ phys ∈ lists o := by
  have reached : ∀ c, Run start c → ∃ lists', lists'.Coalesced ∧ Valid managed c lists' := by
    intro c ran
    obtain ⟨lists', stepped, valid'⟩ := valid.run ran
    exact ⟨lists', Valid.ListStep.coalesced coalesced stepped, valid'⟩
  constructor
  · intro left right ranLeft ranRight sameLive
    obtain ⟨leftLists, leftCoalesced, leftValid⟩ := reached left ranLeft
    obtain ⟨rightLists, rightCoalesced, rightValid⟩ := reached right ranRight
    exact ⟨leftLists, rightLists, leftValid.holds, rightValid.holds, fun o bounded phys =>
      leftValid.same_lists rightValid leftCoalesced rightCoalesced sameLive bounded phys⟩
  · intro c ran sameLive
    obtain ⟨lists', coalesced', valid'⟩ := reached c ran
    exact ⟨lists', valid'.holds, fun o bounded phys =>
      valid'.same_lists valid coalesced' coalesced sameLive bounded phys⟩

theorem buddy_history_independent_oneBlock :
    ∃ middle c lists', Step oneBlock middle ∧ Step middle c ∧ middle.live = [(0x400000, 3)] ∧
      Holds c.mem c.globals lists' ∧
      ∀ o, o ≤ buddyMaxOrder → ∀ phys, phys ∈ lists' o ↔ phys ∈ oneBlockLists o := by
  have allocated : Step oneBlock (oneBlock.alloc 3) := .alloc 3
  have live := oneBlock_alloc_live
  have member : ((0x400000, 3) : Handle) ∈ (oneBlock.alloc 3).live := by
    rw [live]
    exact List.mem_singleton_self _
  obtain ⟨m', g', returned, -, -⟩ := (oneBlock_initial.valid.alloc 3).free member
  have freed := Step.free member returned
  have nothingLive : (oneBlock.alloc 3).live.erase (0x400000, 3) = [] := by
    rw [live]
    rfl
  obtain ⟨lists', holds, same⟩ :=
    (buddy_history_independent oneBlock_initial.valid oneBlock_coalesced).2 _
      (.tail (.single allocated) freed) (Config.liveFrames_congr nothingLive)
  exact ⟨_, _, lists', allocated, freed, live, holds, same⟩

end ScrapOS.Buddy
