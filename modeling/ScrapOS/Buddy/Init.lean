import ScrapOS.Buddy.Runs
import ScrapOS.DyadicBlocks.Chop
import ScrapOS.Pmm.Runs

/-! `buddy_init`: it claims free frames out of the frame allocator up to its budget and
seeds each run of claimed frames as the largest aligned blocks the run can hold. -/

set_option autoImplicit false

namespace ScrapOS.Buddy

open DyadicBlocks

/-! ## The source -/

/-- The inner loop of `seed_run`: shrink the order until the block is aligned and fits. -/
def seedOrder (f stop : Word) : Nat → Nat
  | 0 => 0
  | order + 1 =>
      if f &&& (1#64 <<< (order + 1) - 1) ≠ 0 ∨ f + 1#64 <<< (order + 1) > stop then
        seedOrder f stop order
      else order + 1

/-- The outer loop of `seed_run`. Each turn moves `f` on, so the step count only bounds
the recursion. -/
def seedRun : Nat → Memory → Globals → Word → Word → Memory × Globals
  | 0, m, g, _, _ => (m, g)
  | steps + 1, m, g, f, stop =>
      if f < stop then
        let order := seedOrder f stop buddyMaxOrder
        let (m, g) := listPush m g order (f * pmmFrameSize)
        seedRun steps m g (f + 1#64 <<< order) stop
      else (m, g)

/-- What the loops of `buddy_init` carry along. -/
structure Seeding where
  mem : Memory
  pmm : Pmm.Globals
  buddy : Globals
  claimed : Word

/-- The loop that extends a claimed run from `f`; it ends at the frame it returns. -/
def extendRun (budget stop : Word) : Nat → Seeding → Word → Seeding × Word
  | 0, s, f => (s, f)
  | steps + 1, s, f =>
      if f < stop ∧ s.claimed < budget then
        match Pmm.pmmClaimFrame s.mem s.pmm (f * pmmFrameSize) with
        | (true, mem, pmm) =>
            extendRun budget stop steps { s with mem, pmm, claimed := s.claimed + 1 } (f + 1)
        | (false, mem, pmm) => ({ s with mem, pmm }, f)
      else (s, f)

/-- The loop over the frames of one entry. -/
def seedEntry (budget stop : Word) : Nat → Seeding → Word → Seeding
  | 0, s, _ => s
  | steps + 1, s, f =>
      if f < stop ∧ s.claimed < budget then
        match Pmm.pmmClaimFrame s.mem s.pmm (f * pmmFrameSize) with
        | (false, mem, pmm) => seedEntry budget stop steps { s with mem, pmm } (f + 1)
        | (true, mem, pmm) =>
            let (s, f') := extendRun budget stop steps { s with mem, pmm, claimed := s.claimed + 1 } (f + 1)
            let (mem, buddy) := seedRun (f'.toNat - f.toNat) s.mem s.buddy f f'
            seedEntry budget stop steps { s with mem, buddy } f'
      else s

/-- The loop over the memory map. -/
def seedEntries (budget : Word) : List MemmapEntry → Seeding → Seeding
  | [], s => s
  | e :: rest, s =>
      if s.claimed < budget then
        if e.type ≠ limineMemmapUsable then seedEntries budget rest s
        else
          let first := e.base / pmmFrameSize
          let stop := first + e.length / pmmFrameSize
          seedEntries budget rest (seedEntry budget stop (stop.toNat - first.toNat) s first)
      else s

/-- How many frames to take from the frame allocator. -/
def budgetOf (pmmFree reserveFrames : Word) : Word :=
  if pmmFree > reserveFrames then pmmFree - reserveFrames else 0

def buddyInit (m : Memory) (pmm : Pmm.Globals) (memmap : List MemmapEntry)
    (hhdmOffset reserveFrames : Word) : Memory × Pmm.Globals × Globals :=
  let buddy := { freeList := fun _ => 0, freeCount := fun _ => 0, gHhdm := hhdmOffset }
  let budget := budgetOf (Pmm.pmmGetStats pmm).free reserveFrames
  let s := seedEntries budget memmap { mem := m, pmm, buddy, claimed := 0 }
  (s.mem, s.pmm, s.buddy)

/-! ## `seed_run` -/

theorem shift_toNat {order : Nat} (bounded : order ≤ buddyMaxOrder) :
    (1#64 <<< order).toNat = 2 ^ order := by
  have small : 2 ^ order < 2 ^ 64 :=
    Nat.pow_lt_pow_right (by decide) (by unfold buddyMaxOrder at bounded; omega)
  rw [BitVec.toNat_shiftLeft, Nat.shiftLeft_eq, BitVec.toNat_ofNat, Nat.one_mod, Nat.one_mul,
    Nat.mod_eq_of_lt small]

theorem shift_le {order : Nat} (bounded : order ≤ buddyMaxOrder) : 2 ^ order ≤ 1024 :=
  Nat.pow_le_pow_right (by decide) bounded

theorem aligned_iff {order : Nat} (bounded : order ≤ buddyMaxOrder) (f : Word) :
    f &&& (1#64 <<< order - 1) = 0 ↔ 2 ^ order ∣ f.toNat := by
  have size := shift_toNat bounded
  have small := shift_le bounded
  have positive := Nat.two_pow_pos order
  have mask : (1#64 <<< order - 1).toNat = 2 ^ order - 1 := by
    rw [← size]
    generalize 1#64 <<< order = one at size
    bv_omega
  have remainder : (f &&& (1#64 <<< order - 1)).toNat = f.toNat % 2 ^ order := by
    rw [BitVec.toNat_and, mask, Nat.and_two_pow_sub_one_eq_mod]
  rw [Nat.dvd_iff_mod_eq_zero, ← remainder, ← BitVec.toNat_inj]
  rfl

theorem seedOrder_eq {f stop : Word} (physical : stop.toNat ≤ 2 ^ 52) (below : f < stop) {limit : Nat}
    (bounded : limit ≤ buddyMaxOrder) : seedOrder f stop limit = fittingOrder f.toNat stop.toNat limit := by
  induction limit with
  | zero => rfl
  | succ limit ih =>
      have size := shift_toNat bounded
      have small := shift_le bounded
      have fits : f + 1#64 <<< (limit + 1) > stop ↔ ¬ f.toNat + 2 ^ (limit + 1) ≤ stop.toNat := by
        generalize 1#64 <<< (limit + 1) = one at size
        rw [← size]
        rw [← size] at small
        bv_omega
      have shrinks : (f &&& (1#64 <<< (limit + 1) - 1) ≠ 0 ∨ f + 1#64 <<< (limit + 1) > stop) ↔
          ¬ (2 ^ (limit + 1) ∣ f.toNat ∧ f.toNat + 2 ^ (limit + 1) ≤ stop.toNat) := by
        rw [ne_eq, aligned_iff bounded, fits, not_and_or]
      rw [seedOrder, fittingOrder, ih (Nat.le_of_succ_le bounded)]
      by_cases keep : 2 ^ (limit + 1) ∣ f.toNat ∧ f.toNat + 2 ^ (limit + 1) ≤ stop.toNat
      · rw [if_pos keep, if_neg (fun shrink => shrinks.mp shrink keep)]
      · rw [if_neg keep, if_pos (shrinks.mpr keep)]

theorem blockOf_frame {f : Word} (physical : f.toNat < 2 ^ 52) (order : Nat) :
    blockOf order (f * pmmFrameSize) = ⟨order, f.toNat / 2 ^ order⟩ := by
  have address : (f * pmmFrameSize).toNat = 2 ^ 12 * f.toNat := by bv_omega
  rw [blockOf, address, Nat.pow_add, Nat.mul_div_mul_left _ _ (by decide)]

theorem alignedTo_frame {f : Word} (physical : f.toNat < 2 ^ 52) {order : Nat}
    (aligned : 2 ^ order ∣ f.toNat) : AlignedTo order (f * pmmFrameSize) := by
  have address : (f * pmmFrameSize).toNat = 2 ^ 12 * f.toNat := by bv_omega
  rw [AlignedTo, address, Nat.pow_add]
  exact Nat.mul_dvd_mul_left _ aligned

/-- One turn of `seed_run` takes the next piece of the interval and moves on to its end. -/
structure SeedTurn (f stop : Word) (order : Nat) : Prop where
  bounded : order ≤ buddyMaxOrder
  aligned : AlignedTo order (f * pmmFrameSize)
  first : (blockOf order (f * pmmFrameSize)).first = f.toNat
  fits : f.toNat + 2 ^ order ≤ stop.toNat
  after : (f + 1#64 <<< order).toNat = f.toNat + 2 ^ order
  piece : ∀ steps, chop buddyMaxOrder stop.toNat (steps + 1) f.toNat =
    blockOf order (f * pmmFrameSize) :: chop buddyMaxOrder stop.toNat steps (f + 1#64 <<< order).toNat

theorem seedOrder_turn {f stop : Word} (physical : stop.toNat ≤ 2 ^ 52) (below : f < stop) :
    SeedTurn f stop (seedOrder f stop buddyMaxOrder) := by
  have nonempty : f.toNat < stop.toNat := below
  have small : f.toNat < 2 ^ 52 := by omega
  have cut : ∀ steps, chop buddyMaxOrder stop.toNat (steps + 1) f.toNat =
      ⟨seedOrder f stop buddyMaxOrder, f.toNat / 2 ^ seedOrder f stop buddyMaxOrder⟩ ::
        chop buddyMaxOrder stop.toNat steps (f.toNat + 2 ^ seedOrder f stop buddyMaxOrder) := by
    intro steps
    rw [chop, if_pos nonempty, seedOrder_eq physical below (Nat.le_refl _)]
  have bounded : seedOrder f stop buddyMaxOrder ≤ buddyMaxOrder := by
    rw [seedOrder_eq physical below (Nat.le_refl _)]
    exact fittingOrder_le
  have fitting := fittingOrder_fits buddyMaxOrder nonempty
  rw [← seedOrder_eq physical below (Nat.le_refl _)] at fitting
  obtain ⟨aligned, fits⟩ := fitting
  generalize seedOrder f stop buddyMaxOrder = order at cut bounded aligned fits
  have size := shift_toNat bounded
  have smallSize := shift_le bounded
  have block := blockOf_frame small order
  have after : (f + 1#64 <<< order).toNat = f.toNat + 2 ^ order := by
    generalize 1#64 <<< order = one at size
    rw [← size]
    rw [← size] at smallSize
    bv_omega
  refine ⟨bounded, alignedTo_frame small aligned, ?_, fits, after, fun steps => ?_⟩
  · rw [block, Block.first, Nat.div_mul_cancel aligned]
  · rw [cut, block, after]

theorem SeedTurn.points {f stop : Word} {order : Nat} (turn : SeedTurn f stop order) :
    (blockOf order (f * pmmFrameSize)).points = Set.Ico f.toNat (f + 1#64 <<< order).toNat := by
  ext frame
  rw [Block.mem_points_iff_range, turn.first, turn.after]
  rfl

section SeedRun

variable {managed : Set Nat} {lists : Lists} {held : List Handle} {m : Memory} {g : Globals}
  {order steps : Nat} {phys f stop : Word}

theorem Partition.admit (tiled : Partition managed lists held) (bounded : order ≤ buddyMaxOrder)
    (aligned : AlignedTo order phys) (apart : Disjoint managed (blockOf order phys).points) :
    Partition (managed ∪ (blockOf order phys).points) lists ((phys, order) :: held) where
  aligned := tiled.aligned
  heldAligned := by
    intro handle member
    cases List.mem_cons.mp member with
    | inl here => exact here ▸ ⟨bounded, aligned⟩
    | inr before => exact tiled.heldAligned handle before
  exact := by
    intro frame
    have before := tiled.exact frame
    rw [coverage_append] at before
    rw [List.map_cons, coverage_append, coverage_cons, Handle.block_mk, Nat.add_left_comm, before]
    by_cases inBlock : frame ∈ (blockOf order phys).points
    · have notManaged := Set.disjoint_right.mp apart inBlock
      rw [Block.cover_eq_one_iff.mpr inBlock, Set.indicator_of_notMem notManaged,
        Set.indicator_of_mem (Set.mem_union_right _ inBlock), Nat.add_zero]
    · rw [Block.cover_eq_zero_iff.mpr inBlock, Nat.zero_add]
      by_cases inManaged : frame ∈ managed
      · rw [Set.indicator_of_mem inManaged, Set.indicator_of_mem (Set.mem_union_left _ inManaged)]
      · have outside : frame ∉ managed ∪ (blockOf order phys).points :=
          fun member => member.elim inManaged inBlock
        rw [Set.indicator_of_notMem inManaged, Set.indicator_of_notMem outside]

theorem linkBytes_subset (tiled : Partition managed lists held) (hhdm : Word) :
    linkBytes hhdm lists ⊆ frameBytes hhdm managed := by
  intro address inside
  obtain ⟨block, present, inBlock⟩ := linkBytes_frame tiled inside
  exact tiled.frame_mem_managed (List.mem_append_left _ present) inBlock

/-- What `seed_run` of an interval leaves behind: its pieces are on the lists. -/
structure RunSeeded (managed : Set Nat) (lists : Lists) (m : Memory) (g : Globals)
    (first stop steps : Nat) (result : Memory × Globals) (lists' : Lists) : Prop where
  holds : Holds result.1 result.2 lists'
  gHhdm : result.2.gHhdm = g.gHhdm
  tiled : Partition (managed ∪ Set.Ico first stop) lists' []
  blocks : lists'.blocks.Perm (chop buddyMaxOrder stop steps first ++ lists.blocks)
  frame : Set.EqOn result.1 m (frameBytes g.gHhdm (managed ∪ Set.Ico first stop))ᶜ

theorem RunSeeded.nothing {first last : Nat} (holds : Holds m g lists)
    (tiled : Partition managed lists []) (past : last ≤ first) :
    RunSeeded managed lists m g first last steps (m, g) lists := by
  have empty : Set.Ico first last = ∅ := Set.Ico_eq_empty (Nat.not_lt.mpr past)
  have noPieces : chop buddyMaxOrder last steps first = [] := by
    cases steps with
    | zero => rfl
    | succ steps => rw [chop, if_neg (Nat.not_lt.mpr past)]
  refine ⟨holds, rfl, ?_, ?_, Set.eqOn_refl _ _⟩
  · rwa [empty, Set.union_empty]
  · rw [noPieces]
    exact .refl _

theorem seedRun_seeded (physical : stop.toNat ≤ 2 ^ 52) (enough : stop.toNat ≤ f.toNat + steps)
    (holds : Holds m g lists) (usable : Usable g.gHhdm (managed ∪ Set.Ico f.toNat stop.toNat))
    (tiled : Partition managed lists []) (apart : Disjoint managed (Set.Ico f.toNat stop.toNat)) :
    ∃ lists', RunSeeded managed lists m g f.toNat stop.toNat steps (seedRun steps m g f stop) lists' := by
  induction steps generalizing m g lists managed f with
  | zero => exact ⟨lists, .nothing holds tiled (by omega)⟩
  | succ steps ih =>
      rw [seedRun]
      split
      · next below =>
        dsimp only
        have turn := seedOrder_turn physical below
        generalize seedOrder f stop buddyMaxOrder = order at turn
        have fits : (f + 1#64 <<< order).toNat ≤ stop.toNat := turn.after ▸ turn.fits
        have moved : f.toNat < (f + 1#64 <<< order).toNat := by
          rw [turn.after]
          exact Nat.lt_add_of_pos_right (Nat.two_pow_pos order)
        have divided : Set.Ico f.toNat stop.toNat = Set.Ico f.toNat (f + 1#64 <<< order).toNat ∪
            Set.Ico (f + 1#64 <<< order).toNat stop.toNat :=
          (Set.Ico_union_Ico_eq_Ico (Nat.le_of_lt moved) fits).symm
        rw [divided, Set.disjoint_union_right] at apart
        rw [divided, ← Set.union_assoc] at usable
        have admitted := tiled.admit turn.bounded turn.aligned (turn.points ▸ apart.1)
        rw [turn.points] at admitted
        have pushed := holds.push (usable.mono Set.subset_union_left) admitted
        have pushedFrame := eqOn_compl_mono (holds.push_frame (f * pmmFrameSize) turn.bounded)
          (linkBytes_subset admitted.give g.gHhdm)
        have apartRest : Disjoint (managed ∪ Set.Ico f.toNat (f + 1#64 <<< order).toNat)
            (Set.Ico (f + 1#64 <<< order).toNat stop.toNat) := by
          rw [Set.disjoint_union_left]
          exact ⟨apart.2, Set.disjoint_left.mpr fun frame low high => Nat.not_lt.mpr high.1 low.2⟩
        obtain ⟨lists', rest⟩ := ih (f := f + 1#64 <<< order) (by omega) pushed usable admitted.give apartRest
        refine ⟨lists', rest.holds, rest.gHhdm, ?_, ?_, ?_⟩
        · rw [divided, ← Set.union_assoc]
          exact rest.tiled
        · have onList := (lists.blocks_push turn.bounded (f * pmmFrameSize)).append_left
            (chop buddyMaxOrder stop.toNat steps (f + 1#64 <<< order).toNat)
          rw [turn.piece]
          exact (rest.blocks.trans onList).trans List.perm_middle
        · rw [divided, ← Set.union_assoc]
          apply rest.frame.trans (pushedFrame.mono ?_)
          exact Set.compl_subset_compl.mpr (frameBytes_mono Set.subset_union_left)
      · next empty =>
        exact ⟨lists, .nothing holds tiled (Nat.not_lt.mp empty)⟩

end SeedRun

end ScrapOS.Buddy
