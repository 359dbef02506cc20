import ScrapOS.Buddy.Coalescing
import ScrapOS.Buddy.Seeding

/-! What `buddy_init` takes out of the frame allocator: exactly its budget, tiled exactly
by the blocks on the free lists. -/

set_option autoImplicit false

namespace ScrapOS.Buddy

open DyadicBlocks

section Handover

variable {hhdm : Word} {bitmapFrames free : Set Nat} {memmap : List MemmapEntry} {m : Memory}
  {pmm : Pmm.Globals}

/-- The frames of `runs` changed hands: they left the frame allocator and their pieces
are the free blocks. -/
structure HandedOver (hhdm : Word) (bitmapFrames free : Set Nat) (memmap : List MemmapEntry)
    (m : Memory) (reserveFrames : Word) (runs : List FrameRun) (lists : Lists)
    (result : Memory × Pmm.Globals × Globals) : Prop where
  inFree : heldFrames runs ⊆ free
  counted : (heldFrames runs).ncard = free.ncard - reserveFrames.toNat
  tracks : Pmm.Tracks hhdm bitmapFrames (free \ heldFrames runs) result.1 result.2.1
  holds : Holds result.1 result.2.2 lists
  gHhdm : result.2.2.gHhdm = hhdm
  tiled : Partition (heldFrames runs) lists []
  blocks : lists.blocks.Perm (runs.flatMap FrameRun.pieces)
  enclosed : ∀ run ∈ runs, Enclosed memmap (heldFrames runs) run
  frame : Set.EqOn result.1 m (frameBytes hhdm (bitmapFrames ∪ free))ᶜ

theorem buddyInit_handedOver (memmapValid : MemmapValid memmap)
    (tracks : Pmm.Tracks hhdm bitmapFrames free m pmm) (inUsable : free ⊆ usableFrames memmap)
    (usable : Usable hhdm free) (reserveFrames : Word) :
    ∃ runs lists, HandedOver hhdm bitmapFrames free memmap m reserveFrames runs lists
      (buddyInit m pmm memmap hhdm reserveFrames) := by
  have none : heldFrames [] = ∅ := by simp [heldFrames]
  have seeded : Seeded hhdm bitmapFrames free [] (fun _ => [])
      ⟨m, pmm, { freeList := fun _ => 0, freeCount := fun _ => 0, gHhdm := hhdm }, 0⟩ := by
    refine ⟨?_, ?_, tracks.apart, usable, tracks.finite, ⟨?_, ?_⟩, rfl, ?_, ?_, ?_⟩
    · rw [none]
      exact Set.empty_subset _
    · rw [none, Set.sdiff_empty]
      exact tracks
    · exact fun _ _ => DoublyLinked.nil
    · exact fun _ _ => rfl
    · rw [none]
      exact .nothing
    · rw [Lists.blocks_nil]
      exact .refl _
    · rw [none, Set.ncard_empty]
      rfl
  have apart : Disjoint (heldFrames []) (usableFrames memmap) := by
    rw [none]
    exact Set.empty_disjoint _
  obtain ⟨runs, lists, mapped⟩ := seedEntries_seeded
    seeded memmapValid.aligned memmapValid.addressed memmapValid.disjoint apart
    (show (0 : Word).toNat ≤ (budgetOf (Pmm.pmmGetStats pmm).free reserveFrames).toNat from Nat.zero_le _)
  have budget : (budgetOf (Pmm.pmmGetStats pmm).free reserveFrames).toNat =
      free.ncard - reserveFrames.toNat := by
    rw [← tracks.counted, Pmm.pmmGetStats, budgetOf]
    dsimp only
    split
    · bv_omega
    · next enough =>
      have few : pmm.freeFrames.toNat ≤ reserveFrames.toNat := Nat.not_lt.mp enough
      rw [Nat.sub_eq_zero_of_le few]
      rfl
  have held := mapped.seeded
  rw [List.nil_append] at held
  have counted : (heldFrames runs).ncard = free.ncard - reserveFrames.toNat := by
    rw [← budget, ← held.claimed]
    cases mapped.exhausted with
    | inl spent => rw [spent]
    | inr all =>
        have everything : heldFrames runs = free := by
          apply Set.Subset.antisymm held.inFree
          intro frame member
          exact all frame (inUsable member) member
        have budgeted := mapped.budgeted
        have claimed := held.claimed
        rw [everything] at claimed
        omega
  exact ⟨runs, lists, held.inFree, counted, held.tracks, held.holds, held.gHhdm, held.tiled, held.blocks,
    mapped.enclosed, mapped.frame⟩

end Handover

/-- Budget, figures and blocks after `buddy_init` on a state of the frame allocator. -/
structure InitExact (memmap : List MemmapEntry) (c : Pmm.Config) (reserveFrames : Word) (m' : Memory)
    (pmm' : Pmm.Globals) (g' : Globals) (lists : Lists) : Prop where
  remaining : pmm'.freeFrames.toNat = min c.globals.freeFrames.toNat reserveFrames.toNat
  clear : (Pmm.clearFrames m' pmm').ncard = min c.globals.freeFrames.toNat reserveFrames.toNat
  fewer : Pmm.clearFrames m' pmm' ⊆ c.clearFrames
  claimed : (c.clearFrames \ Pmm.clearFrames m' pmm').ncard =
    c.globals.freeFrames.toNat - reserveFrames.toNat
  holds : Holds m' g' lists
  aligned : ∀ o, o ≤ buddyMaxOrder → ∀ phys ∈ lists o, AlignedTo o phys
  disjoint : lists.blocks.Pairwise fun left right => Disjoint left.points right.points
  cover : lists.frames = c.clearFrames \ Pmm.clearFrames m' pmm'
  counted : ∀ o, o ≤ buddyMaxOrder → (g'.freeCount o).toNat = (lists o).length
  fresh : ∀ frame ∈ lists.frames, frame ∈ usableFrames memmap ∧ frame ∉ c.used ∧
    frame ∉ c.globals.bitmapFrames c.hhdmOffset

theorem HandedOver.initExact {memmap : List MemmapEntry} {free : Set Nat} {c : Pmm.Config}
    {reserveFrames : Word} {runs : List FrameRun} {lists : Lists}
    {result : Memory × Pmm.Globals × Globals} (valid : Pmm.Valid (usableFrames memmap) free c)
    (handed : HandedOver c.hhdmOffset (c.globals.bitmapFrames c.hhdmOffset) free memmap c.mem
      reserveFrames runs lists result) :
    InitExact memmap c reserveFrames result.1 result.2.1 result.2.2 lists := by
  have before := valid.clearFrames_eq
  have after := handed.tracks.toMarks.clearFrames_eq
  have total := valid.tracks.counted
  have finite := valid.tracks.finite
  have taken : free \ (free \ heldFrames runs) = heldFrames runs := by
    rw [Set.sdiff_sdiff_right_self]
    exact Set.inter_eq_right.mpr handed.inFree
  have rest := Set.ncard_sdiff_add_ncard_of_subset handed.inFree finite
  have left : (free \ heldFrames runs).ncard = min c.globals.freeFrames.toNat reserveFrames.toNat := by
    have counted := handed.counted
    omega
  have frames : lists.frames = heldFrames runs := by
    ext frame
    rw [handed.tiled.mem_frames_iff]
    simp
  constructor
  case remaining => rw [handed.tracks.counted, left]
  case clear => rw [after, left]
  case fewer =>
    rw [before, after]
    exact Set.sdiff_subset
  case claimed => rw [before, after, taken, handed.counted, total]
  case holds => exact handed.holds
  case aligned => exact handed.tiled.aligned
  case disjoint =>
    have pairs := handed.tiled.pairwise_disjoint
    rwa [List.map_nil, List.append_nil] at pairs
  case cover => rw [before, after, taken, frames]
  case counted =>
    intro o bounded
    have zero : 0 ∉ heldFrames runs := fun member => valid.zero (valid.freeManaged (handed.inFree member))
    have short := handed.tiled.length_le bounded
    have small := handed.tiled.ncard_lt zero
    rw [handed.holds.counted o bounded, BitVec.toNat_ofNat, Nat.mod_eq_of_lt (by omega)]
  case fresh =>
    intro frame member
    rw [frames] at member
    have inFree := handed.inFree member
    refine ⟨valid.freeManaged inFree, ?_, Set.disjoint_left.mp valid.tracks.apart inFree⟩
    exact fun used => ((valid.mem_used frame).mp used).2.1 inFree

/-- After `pmm_init` and any run of the frame allocator `buddy_init` claims exactly its
budget and tiles it exactly. -/
theorem buddy_init_exact {hhdm : Word} {memmap : List MemmapEntry} {m m' : Memory}
    {pmm : Pmm.Globals} {c : Pmm.Config} (memmapValid : MemmapValid memmap)
    (reachable : ∀ frame ∈ usableFrames memmap, frameAddress frame + hhdm ≠ 0)
    (done : Pmm.pmmInit m memmap hhdm = some (m', pmm)) (ran : Pmm.Run (Pmm.start hhdm m' pmm) c)
    (reserveFrames : Word) :
    ∃ lists, InitExact memmap c reserveFrames
      (buddyInit c.mem c.globals memmap c.hhdmOffset reserveFrames).1
      (buddyInit c.mem c.globals memmap c.hhdmOffset reserveFrames).2.1
      (buddyInit c.mem c.globals memmap c.hhdmOffset reserveFrames).2.2 lists := by
  obtain ⟨free, valid⟩ := ((Pmm.pmmInit_booted memmapValid done).valid memmapValid).run ran
  have usable : Usable c.hhdmOffset free := by
    rw [Pmm.run_hhdmOffset ran]
    exact ⟨fun member => valid.zero (valid.freeManaged member),
      fun frame member => reachable frame (valid.freeManaged member)⟩
  obtain ⟨runs, lists, handed⟩ := buddyInit_handedOver memmapValid valid.tracks
    valid.freeManaged usable reserveFrames
  exact ⟨lists, handed.initExact valid⟩

theorem smallMap_reachable :
    ∀ frame ∈ usableFrames Pmm.smallMap, frameAddress frame + Pmm.smallHhdm ≠ 0 := by
  rw [Pmm.smallMap_frames]
  intro frame member
  have range : 1 ≤ frame ∧ frame < 17 := member
  unfold frameAddress Pmm.smallHhdm
  bv_omega

theorem buddy_init_exact_smallMap :
    ∃ c lists, c = (Pmm.start Pmm.smallHhdm Pmm.smallBoot.1 Pmm.smallBoot.2).alloc ∧
      InitExact Pmm.smallMap c 4 (buddyInit c.mem c.globals Pmm.smallMap c.hhdmOffset 4).1
        (buddyInit c.mem c.globals Pmm.smallMap c.hhdmOffset 4).2.1
        (buddyInit c.mem c.globals Pmm.smallMap c.hhdmOffset 4).2.2 lists := by
  obtain ⟨lists, exact⟩ := buddy_init_exact Pmm.smallMap_valid smallMap_reachable Pmm.smallBoot_done
    (.single .alloc) 4
  exact ⟨_, lists, rfl, exact⟩

end ScrapOS.Buddy
