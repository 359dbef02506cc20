import ScrapOS.Simulation.Basic
import ScrapOS.Buddy.Handover
import ScrapOS.Mm.Machine
import ScrapOS.Ownership.Basic
import ScrapOS.Paging.Runs
import ScrapOS.Vmm.AddressSpace

/-! Every usable frame has exactly one owner: the bitmap, the frame allocator, one of its
callers, the page tables, a free list of the buddy allocator, or a live block. As in the machine
below, nobody remaps the direct map. -/

set_option autoImplicit false

namespace ScrapOS.Mm

open Ownership Paging

/-- Who can own a frame. -/
inductive Owner where
  | bitmap
  | free
  | handed
  | table
  | freeBlock
  | liveBlock
deriving DecidableEq, Repr

/-- The frames each owner holds. -/
def holdings (bitmap free handed table freeBlock liveBlock : Set Nat) : Owner → Set Nat
  | .bitmap => bitmap
  | .free => free
  | .handed => handed
  | .table => table
  | .freeBlock => freeBlock
  | .liveBlock => liveBlock

/-- The frames of some blocks that were handed out. -/
def handleFrames (handles : List Buddy.Handle) : Set Nat :=
  {frame | ∃ handle ∈ handles, frame ∈ handle.block.points}

theorem blocks_managed {managed : Set Nat} {lists : Buddy.Lists} {live : List Buddy.Handle}
    (tiled : Buddy.Partition managed lists live) : managed = lists.frames ∪ handleFrames live := by
  ext frame
  rw [tiled.mem_managed_iff]
  simp only [List.mem_append, List.mem_map, Buddy.Lists.frames, handleFrames, Set.mem_union,
    Set.mem_ofPred_eq, or_and_right, exists_or, exists_exists_and_eq_and]

namespace Config

/-- The frames that callers of `pmm_alloc_frame` hold. -/
def handedFrames (c : Config) : Set Nat := {frame | frame ∈ c.handed.map Pmm.frameNumber}

/-- The frames of the live blocks. -/
def liveFrames (c : Config) : Set Nat := handleFrames c.live

/-- The owners of the frames in a state with its PML4 in `root` and the free blocks of `lists`. -/
def owners (c : Config) (bitmapFrames free : Set Nat) (root : Nat) (lists : Buddy.Lists) :
    Owner → Set Nat :=
  holdings bitmapFrames free c.handedFrames (tables c.vmm.hhdmOffset root c.vmm.mem) lists.frames
    c.liveFrames

/-- The owners, with the bitmap and the free frames read off the state. -/
def held (c : Config) (root : Nat) (lists : Buddy.Lists) : Owner → Set Nat :=
  c.owners (c.vmm.pmm.bitmapFrames c.vmm.hhdmOffset) (Pmm.clearFrames c.vmm.mem c.vmm.pmm) root lists

end Config

/-- The invariant of a run: `free` are the free frames and `managed` those of the buddy. -/
structure Valid (usable bitmapFrames free managed : Set Nat) (root : Nat) (lists : Buddy.Lists)
    (c : Config) : Prop where
  pml4 : c.vmm.kernelPml4 = frameAddress root
  bitmap : c.vmm.pmm.bitmapFrames c.vmm.hhdmOffset = bitmapFrames
  spanned : ∀ frame ∈ usable, frame < c.vmm.pmm.totalFrames.toNat
  suitable : Suitable c.vmm.hhdmOffset usable
  space : Space c.vmm.hhdmOffset root bitmapFrames free c.vmm.mem c.vmm.pmm
  holds : Buddy.Holds c.vmm.mem c.buddy lists
  gHhdm : c.buddy.gHhdm = c.vmm.hhdmOffset
  tiled : Buddy.Partition managed lists c.live
  aligned : ∀ phys ∈ c.handed, frameAddress (Pmm.frameNumber phys) = phys
  once : (c.handed.map Pmm.frameNumber).Nodup
  owned : OwnedOnce usable (c.owners bitmapFrames free root lists)

namespace Valid

variable {usable bitmapFrames free managed : Set Nat} {root : Nat} {lists : Buddy.Lists} {c c' : Config}

/-! ## The frames of the buddy -/

theorem managed_eq (valid : Valid usable bitmapFrames free managed root lists c) :
    managed = lists.frames ∪ c.liveFrames := blocks_managed valid.tiled

theorem managed_usable (valid : Valid usable bitmapFrames free managed root lists c) :
    managed ⊆ usable := by
  rw [valid.managed_eq]
  exact Set.union_subset (valid.owned.inside .freeBlock) (valid.owned.inside .liveBlock)

theorem managed_apart (valid : Valid usable bitmapFrames free managed root lists c) {owner : Owner}
    (notFree : owner ≠ .freeBlock) (notLive : owner ≠ .liveBlock) :
    Disjoint managed (c.owners bitmapFrames free root lists owner) := by
  have freeApart := valid.owned.disjoint notFree.symm
  have liveApart := valid.owned.disjoint notLive.symm
  rw [valid.managed_eq, Set.disjoint_union_left]
  exact ⟨freeApart, liveApart⟩

theorem managed_bitmap (valid : Valid usable bitmapFrames free managed root lists c) :
    Disjoint managed bitmapFrames := by
  have apart := valid.managed_apart (nofun : Owner.bitmap ≠ .freeBlock) nofun
  exact apart

theorem managed_tables (valid : Valid usable bitmapFrames free managed root lists c) :
    Disjoint managed (tables c.vmm.hhdmOffset root c.vmm.mem) := by
  have apart := valid.managed_apart (nofun : Owner.table ≠ .freeBlock) nofun
  exact apart

theorem managed_free (valid : Valid usable bitmapFrames free managed root lists c) :
    Disjoint managed free := by
  have apart := valid.managed_apart (nofun : Owner.free ≠ .freeBlock) nofun
  exact apart

theorem linkBytes_managed (valid : Valid usable bitmapFrames free managed root lists c)
    {lists' : Buddy.Lists} {live' : List Buddy.Handle} (tiled : Buddy.Partition managed lists' live') :
    Buddy.linkBytes c.buddy.gHhdm lists' ⊆ frameBytes c.vmm.hhdmOffset managed := by
  intro address inside
  obtain ⟨block, present, inBlock⟩ := Buddy.linkBytes_frame tiled inside
  rw [mem_frameBytes, ← valid.gHhdm]
  exact tiled.mem_managed_iff.mpr ⟨block, List.mem_append_left _ present, inBlock⟩

theorem holds_kept (valid : Valid usable bitmapFrames free managed root lists c) {frames : Set Nat}
    {m' : Memory} (changed : Set.EqOn m' c.vmm.mem (frameBytes c.vmm.hhdmOffset frames)ᶜ)
    (apart : Disjoint managed frames) : Buddy.Holds m' c.buddy lists := by
  apply valid.holds.congr
  apply changed.mono
  exact (valid.linkBytes_managed valid.tiled).trans (frameBytes_disjoint apart).subset_compl_right

/-! ## Steps keep the invariant -/

theorem pmmAlloc (valid : Valid usable bitmapFrames free managed root lists c) :
    ∃ free', Valid usable bitmapFrames free' managed root lists c.pmmAlloc := by
  have outcome := valid.space.tracks.allocFrame
  have span := Pmm.pmmAllocFrame_span c.vmm.mem c.vmm.pmm
  rw [Config.pmmAlloc]
  generalize Pmm.pmmAllocFrame c.vmm.mem c.vmm.pmm = result at outcome span
  cases outcome with
  | refused none => exact ⟨free, valid⟩
  | @served frame m' pmm' available tracks changed total =>
      have bounded := valid.space.supply.physical frame available
      have small : frame < 2 ^ 52 := Nat.lt_trans bounded (by decide)
      have nonzero : frame ≠ 0 := fun zero => valid.space.tracks.zero (zero ▸ available)
      have sameTables := valid.space.tables_congr changed valid.space.notBitmap
      have number : Pmm.frameNumber (frameAddress frame) = frame := frameAddress_div small
      have unhanded : frame ∉ c.handedFrames :=
        Set.disjoint_left.mp (valid.owned.disjoint (nofun : Owner.free ≠ .handed)) available
      dsimp only
      rw [if_neg (frameAddress_ne_zero small nonzero)]
      refine ⟨free \ {frame}, valid.pml4, (span.bitmapFrames _).trans valid.bitmap, ?_, valid.suitable,
        valid.space.congr tracks changed valid.space.notBitmap Set.sdiff_subset,
        valid.holds_kept changed valid.managed_bitmap, valid.gHhdm, valid.tiled, ?_, ?_, ?_⟩
      · dsimp only
        rw [total]
        exact valid.spanned
      · intro phys member
        cases List.mem_cons.mp member with
        | inl here => rw [here, number]
        | inr before => exact valid.aligned phys before
      · rw [List.map_cons, List.nodup_cons, number]
        exact ⟨unhanded, valid.once⟩
      · apply valid.owned.move (nofun : Owner.free ≠ .handed) (Set.singleton_subset_iff.mpr available) rfl
        · ext other
          simp only [Config.owners, holdings, Config.handedFrames, Set.mem_ofPred_eq, List.map_cons,
            number, List.mem_cons, Set.mem_union, Set.mem_singleton_iff]
          exact or_comm
        · intro owner notFree notHanded
          cases owner with
          | free => exact absurd rfl notFree
          | handed => exact absurd rfl notHanded
          | table => exact sameTables
          | bitmap | freeBlock | liveBlock => rfl

theorem pmmFree (valid : Valid usable bitmapFrames free managed root lists c) {phys : Word}
    (member : phys ∈ c.handed) :
    ∃ free', Valid usable bitmapFrames free' managed root lists (c.pmmFree phys) := by
  have inHanded : Pmm.frameNumber phys ∈ c.handedFrames := List.mem_map_of_mem member
  have isUsable : Pmm.frameNumber phys ∈ usable := valid.owned.inside .handed inHanded
  have elsewhere : ∀ owner, owner ≠ .handed →
      Pmm.frameNumber phys ∉ c.owners bitmapFrames free root lists owner :=
    fun owner other inOwner => other (valid.owned.unique inOwner (inHanded : _ ∈ c.owners bitmapFrames
      free root lists .handed))
  have nonzero : Pmm.frameNumber phys ≠ 0 := fun zero => valid.suitable.zero (zero ▸ isUsable)
  have notTable : Pmm.frameNumber phys ∉ tables c.vmm.hhdmOffset root c.vmm.mem := elsewhere .table nofun
  obtain ⟨tracks, changed, total⟩ := valid.space.tracks.freeFrame (valid.spanned _ isUsable) nonzero
    (elsewhere .free nofun) (elsewhere .bitmap nofun)
  have span := Pmm.pmmFreeFrame_span c.vmm.mem c.vmm.pmm phys
  rw [valid.aligned phys member] at tracks changed total
  have sameTables := valid.space.tables_congr changed valid.space.notBitmap
  have reordered := (List.perm_cons_erase member).map Pmm.frameNumber
  have once := List.nodup_cons.mp (reordered.nodup_iff.mp valid.once)
  have notFree : Disjoint (tables c.vmm.hhdmOffset root c.vmm.mem)
      (insert (Pmm.frameNumber phys) free) :=
    Set.disjoint_insert_right.mpr ⟨notTable, valid.space.notFree⟩
  have supply : Suitable c.vmm.hhdmOffset (insert (Pmm.frameNumber phys) free) :=
    valid.suitable.mono (Set.insert_subset isUsable (valid.owned.inside .free))
  refine ⟨insert (Pmm.frameNumber phys) free, valid.pml4, (span.bitmapFrames _).trans valid.bitmap, ?_,
    valid.suitable, valid.space.moved tracks changed valid.space.notBitmap supply notFree,
    valid.holds_kept changed valid.managed_bitmap, valid.gHhdm, valid.tiled, ?_, once.2, ?_⟩
  · intro frame inUsable
    exact Nat.lt_of_lt_of_eq (valid.spanned frame inUsable) (congrArg BitVec.toNat total.symm)
  · exact fun other present => valid.aligned other (List.mem_of_mem_erase present)
  · apply valid.owned.move (nofun : Owner.handed ≠ .free) (Set.singleton_subset_iff.mpr inHanded)
    · ext other
      have before := reordered.mem_iff (a := other)
      rw [List.map_cons, List.mem_cons] at before
      simp only [Config.owners, holdings, Config.handedFrames, Config.pmmFree, Set.mem_ofPred_eq,
        Set.mem_sdiff, Set.mem_singleton_iff]
      rw [before]
      by_cases same : other = Pmm.frameNumber phys
      · rw [same]
        simp [once.1]
      · simp [same]
    · exact Set.insert_eq _ _ |>.trans (Set.union_comm _ _)
    · intro owner notHanded notFree
      cases owner with
      | free => exact absurd rfl notFree
      | handed => exact absurd rfl notHanded
      | table => exact sameTables
      | bitmap | freeBlock | liveBlock => rfl

theorem vmmMap (valid : Valid usable bitmapFrames free managed root lists c) (virt phys flags : Word) :
    ∃ free', Valid usable bitmapFrames free' managed root lists (c.vmmMap virt phys flags) := by
  have span := vmmMap_span c.vmm virt phys flags
  rw [Config.vmmMap]
  rw [Vmm.vmmMap, valid.pml4] at span ⊢
  generalize outcome : pagingMap c.vmm.mem c.vmm.pmm c.vmm.hhdmOffset (frameAddress root) virt phys flags =
    result at span
  obtain ⟨done, m', pmm'⟩ := result
  obtain ⟨free', space, consumed, grown, changed⟩ := valid.space.pagingMap_ledger virt phys flags outcome
  have apart : Disjoint managed
      (bitmapFrames ∪ tables c.vmm.hhdmOffset root c.vmm.mem ∪ (free \ free')) := by
    rw [Set.disjoint_union_right, Set.disjoint_union_right]
    exact ⟨⟨valid.managed_bitmap, valid.managed_tables⟩, valid.managed_free.mono_right Set.sdiff_subset⟩
  have left : free' = free \ (free \ free') := by
    rw [Set.sdiff_sdiff_right_self]
    exact (Set.inter_eq_right.mpr consumed).symm
  refine ⟨free', rfl, (span.bitmapFrames _).trans valid.bitmap, ?_, valid.suitable, space,
    valid.holds_kept changed apart, valid.gHhdm, valid.tiled, valid.aligned, valid.once, ?_⟩
  · dsimp only at span ⊢
    rw [span.2.2.1]
    exact valid.spanned
  · apply valid.owned.move (by decide : Owner.free ≠ .table) (Set.sdiff_subset : free \ free' ⊆ free) left grown
    intro owner notFree notTable
    cases owner with
    | free => exact absurd rfl notFree
    | table => exact absurd rfl notTable
    | bitmap | handed | freeBlock | liveBlock => rfl

/-- A change that moves no frame and keeps to frames outside the buddy. -/
theorem unmoved (valid : Valid usable bitmapFrames free managed root lists c) {m' : Memory}
    (space : Space c.vmm.hhdmOffset root bitmapFrames free m' c.vmm.pmm)
    (sameTables : tables c.vmm.hhdmOffset root m' = tables c.vmm.hhdmOffset root c.vmm.mem)
    (holds : Buddy.Holds m' c.buddy lists) :
    Valid usable bitmapFrames free managed root lists { c with vmm := { c.vmm with mem := m' } } := by
  refine ⟨valid.pml4, valid.bitmap, valid.spanned, valid.suitable, space, holds, valid.gHhdm, valid.tiled,
    valid.aligned, valid.once, ?_⟩
  have same : ({ c with vmm := { c.vmm with mem := m' } } : Config).owners bitmapFrames free root lists =
      c.owners bitmapFrames free root lists := by
    rw [Config.owners, Config.owners]
    dsimp only
    rw [sameTables]
    rfl
  rw [same]
  exact valid.owned

theorem vmmUnmap (valid : Valid usable bitmapFrames free managed root lists c) (virt : Word) :
    Valid usable bitmapFrames free managed root lists (c.vmmUnmap virt) := by
  have outcome := valid.space.pagingUnmap_unmapped virt
  rw [Config.vmmUnmap, Vmm.vmmUnmap, valid.pml4]
  generalize pagingUnmap c.vmm.mem c.vmm.pmm c.vmm.hhdmOffset (frameAddress root) virt = result at outcome
  cases outcome with
  | absent none =>
      rw [← valid.pml4]
      exact valid
  | cleared present space sameTables updated changed =>
      rw [← valid.pml4]
      exact valid.unmoved space sameTables (valid.holds_kept changed valid.managed_tables)

/-- The buddy writes links in its own frames and divides them anew. -/
theorem divided (valid : Valid usable bitmapFrames free managed root lists c) {m' : Memory}
    {buddy' : Buddy.Globals} {lists' : Buddy.Lists} {live' : List Buddy.Handle}
    (follows : Buddy.Follows c.vmm.mem c.buddy lists m' buddy' lists')
    (tiled : Buddy.Partition managed lists' live') :
    Valid usable bitmapFrames free managed root lists'
      { c with vmm := { c.vmm with mem := m' }, buddy := buddy', live := live' } := by
  have changed : Set.EqOn m' c.vmm.mem (frameBytes c.vmm.hhdmOffset managed)ᶜ :=
    eqOn_compl_mono follows.frame
      (Set.union_subset (valid.linkBytes_managed valid.tiled) (valid.linkBytes_managed tiled))
  have apart := valid.managed_tables.symm
  have tracks := valid.space.tracks.congr
    (changed.mono (frameBytes_disjoint valid.managed_bitmap.symm).subset_compl_right)
  have sameTables := valid.space.tables_congr changed apart
  refine ⟨valid.pml4, valid.bitmap, valid.spanned, valid.suitable,
    valid.space.congr tracks changed apart Set.Subset.rfl, follows.holds,
    follows.gHhdm.trans valid.gHhdm, tiled, valid.aligned, valid.once, ?_⟩
  apply valid.owned.divide .freeBlock .liveBlock
  · exact (blocks_managed tiled).symm.trans valid.managed_eq
  · change Disjoint lists'.frames (handleFrames live')
    rw [Set.disjoint_left]
    rintro frame ⟨block, isFree, inBlock⟩ ⟨handle, isLive, inHandle⟩
    have pairs := (List.pairwise_append.mp tiled.pairwise_disjoint).2.2
    exact Set.disjoint_left.mp (pairs block isFree _ (List.mem_map_of_mem isLive)) inBlock inHandle
  · intro owner notFree notLive
    cases owner with
    | freeBlock => exact absurd rfl notFree
    | liveBlock => exact absurd rfl notLive
    | table => exact sameTables
    | bitmap | free | handed => simp only [Config.owners, holdings, Config.handedFrames]

theorem buddyUsable (valid : Valid usable bitmapFrames free managed root lists c) :
    Usable c.buddy.gHhdm managed := by
  rw [valid.gHhdm]
  exact valid.suitable.toUsable.mono valid.managed_usable

theorem buddyAlloc (valid : Valid usable bitmapFrames free managed root lists c) (order : Nat) :
    Valid usable bitmapFrames free managed root (lists.alloc order).2 (c.buddyAlloc order) := by
  obtain ⟨result, follows⟩ := Buddy.buddyAlloc_follows valid.holds valid.buddyUsable valid.tiled order
  obtain ⟨failed, succeeded⟩ := valid.tiled.alloc order valid.buddyUsable.zero
  rw [Config.buddyAlloc]
  generalize Buddy.buddyAlloc c.vmm.mem c.buddy order = outcome at result follows
  obtain ⟨phys, mem, buddy⟩ := outcome
  dsimp only at result follows ⊢
  apply valid.divided follows
  rw [result]
  split
  · next null =>
    rw [failed null]
    exact valid.tiled
  · next nonnull => exact succeeded nonnull

theorem buddyFree (valid : Valid usable bitmapFrames free managed root lists c) {handle : Buddy.Handle}
    (member : handle ∈ c.live) : ∃ mem buddy,
      Buddy.buddyFree c.vmm.mem c.buddy handle.1 handle.2 = some (mem, buddy) ∧
      Valid usable bitmapFrames free managed root (lists.free handle.1 handle.2)
        { c with vmm := { c.vmm with mem }, buddy, live := c.live.erase handle } := by
  have inHand := valid.tiled.perm (List.perm_cons_erase member)
  obtain ⟨mem, buddy, returned, follows⟩ := Buddy.buddyFree_follows valid.holds valid.buddyUsable inHand
  exact ⟨mem, buddy, returned, valid.divided follows inHand.free⟩

theorem callerBytes_frames (valid : Valid usable bitmapFrames free managed root lists c) :
    c.callerBytes ⊆ frameBytes c.vmm.hhdmOffset (c.handedFrames ∪ c.liveFrames) := by
  rintro address (⟨phys, member, inside⟩ | ⟨handle, member, inside⟩)
  · have inHanded : Pmm.frameNumber phys ∈ c.handedFrames := List.mem_map_of_mem member
    have bounded := valid.suitable.physical _ (valid.owned.inside .handed inHanded)
    rw [← valid.aligned phys member, page_eq_frameBytes (by omega)] at inside
    exact .inl (inside ▸ inHanded)
  · obtain ⟨bounded, aligned⟩ := valid.tiled.heldAligned handle member
    rw [Buddy.Globals.nodeAt, valid.gHhdm] at inside
    exact .inr ⟨handle, member, Buddy.frameOf_mem_points bounded aligned inside⟩

/-- A change that keeps to frames which nobody but a caller owns. -/
theorem elsewhere (valid : Valid usable bitmapFrames free managed root lists c) {m' : Memory}
    {frames : Set Nat} (changed : Set.EqOn m' c.vmm.mem (frameBytes c.vmm.hhdmOffset frames)ᶜ)
    (others : ∀ owner, owner ≠ .handed → owner ≠ .liveBlock →
      Disjoint (c.owners bitmapFrames free root lists owner) frames) :
    Valid usable bitmapFrames free managed root lists { c with vmm := { c.vmm with mem := m' } } := by
  have apart : Disjoint (tables c.vmm.hhdmOffset root c.vmm.mem) frames := others .table nofun nofun
  have bitmapApart : Disjoint bitmapFrames frames := others .bitmap nofun nofun
  have tracks := valid.space.tracks.congr
    (changed.mono (frameBytes_disjoint bitmapApart).subset_compl_right)
  have holds : Buddy.Holds m' c.buddy lists := by
    apply valid.holds.congr
    apply changed.mono
    intro address isLink
    obtain ⟨block, present, inBlock⟩ := Buddy.linkBytes_frame valid.tiled isLink
    rw [valid.gHhdm] at inBlock
    have inFree : frameOf c.vmm.hhdmOffset address ∈ c.owners bitmapFrames free root lists .freeBlock :=
      ⟨block, present, inBlock⟩
    exact Set.disjoint_left.mp (others .freeBlock nofun nofun) inFree
  exact valid.unmoved (valid.space.congr tracks changed apart Set.Subset.rfl)
    (valid.space.tables_congr changed apart) holds

theorem write (valid : Valid usable bitmapFrames free managed root lists c) {m' : Memory}
    (inside : Set.EqOn m' c.vmm.mem c.callerBytesᶜ) :
    Valid usable bitmapFrames free managed root lists { c with vmm := { c.vmm with mem := m' } } := by
  refine valid.elsewhere (eqOn_compl_mono inside valid.callerBytes_frames) ?_
  intro owner notHanded notLive
  rw [Set.disjoint_union_right]
  exact ⟨valid.owned.disjoint notHanded, valid.owned.disjoint notLive⟩

theorem step (valid : Valid usable bitmapFrames free managed root lists c) (stepped : Step c c') :
    ∃ free' lists', Valid usable bitmapFrames free' managed root lists' c' := by
  cases stepped with
  | pmmAlloc =>
      obtain ⟨free', valid'⟩ := valid.pmmAlloc
      exact ⟨free', lists, valid'⟩
  | pmmFree member =>
      obtain ⟨free', valid'⟩ := valid.pmmFree member
      exact ⟨free', lists, valid'⟩
  | vmmMap virt phys flags =>
      obtain ⟨free', valid'⟩ := valid.vmmMap virt phys flags
      exact ⟨free', lists, valid'⟩
  | vmmUnmap virt => exact ⟨free, lists, valid.vmmUnmap virt⟩
  | buddyAlloc order => exact ⟨free, _, valid.buddyAlloc order⟩
  | @buddyFree handle mem buddy member returned =>
      obtain ⟨mem', buddy', result, valid'⟩ := valid.buddyFree member
      rw [returned, Option.some.injEq, Prod.mk.injEq] at result
      obtain ⟨rfl, rfl⟩ := result
      exact ⟨free, _, valid'⟩
  | write inside => exact ⟨free, lists, valid.write inside⟩

theorem run (valid : Valid usable bitmapFrames free managed root lists c) (ran : Run c c') :
    ∃ free' lists', Valid usable bitmapFrames free' managed root lists' c' := by
  have kept : ∀ (ghost : Set Nat × Buddy.Lists) (c c' : Config),
      Valid usable bitmapFrames ghost.1 managed root ghost.2 c → Step c c' →
        ∃ ghost' : Set Nat × Buddy.Lists,
          Valid usable bitmapFrames ghost'.1 managed root ghost'.2 c' := by
    intro ghost c c' before stepped
    obtain ⟨free', lists', after⟩ := before.step stepped
    exact ⟨(free', lists'), after⟩
  have start : Valid usable bitmapFrames (free, lists).1 managed root (free, lists).2 c := valid
  obtain ⟨ghost', after⟩ := Simulation.run_holds kept start ran
  exact ⟨ghost'.1, ghost'.2, after⟩

end Valid

/-! ## The invariant holds at the start -/

section Start

variable {hhdm : Word} {root : Nat} {bitmapFrames free : Set Nat}

/-- The address space `s` was built from the frames of `free`. -/
structure Reserved (hhdm : Word) (root : Nat) (bitmapFrames free : Set Nat) (pmm : Pmm.Globals)
    (s : Vmm.State) : Prop where
  pml4 : s.kernelPml4 = frameAddress root
  offset : s.hhdmOffset = hhdm
  span : pmm.SameSpan s.pmm
  space : ∃ free', Space hhdm root bitmapFrames free' s.mem s.pmm ∧ free' ⊆ free ∧
    tables hhdm root s.mem = free \ free'

theorem Reserved.vmmMap {pmm : Pmm.Globals} {s s' : Vmm.State} {virt phys flags : Word}
    (reserved : Reserved hhdm root bitmapFrames free pmm s)
    (done : Vmm.vmmMap s virt phys flags = (true, s')) :
    Reserved hhdm root bitmapFrames free pmm s' := by
  have span := vmmMap_span s virt phys flags
  obtain ⟨free', space, consumed, current⟩ := reserved.space
  rw [done] at span
  rw [Vmm.vmmMap, reserved.pml4, reserved.offset] at done
  generalize outcome : pagingMap s.mem s.pmm hhdm (frameAddress root) virt phys flags = result at done
  obtain ⟨flag, m', pmm'⟩ := result
  cases done
  obtain ⟨free'', space', consumed', grown, -⟩ := space.pagingMap_ledger virt phys flags outcome
  refine ⟨rfl, rfl, reserved.span.trans span, free'', space', consumed'.trans consumed, ?_⟩
  dsimp only
  rw [grown, current]
  ext frame
  have first : frame ∈ free'' → frame ∈ free' := fun member => consumed' member
  have second : frame ∈ free' → frame ∈ free := fun member => consumed member
  simp only [Set.mem_union, Set.mem_sdiff]
  tauto

/-- Whatever `vmm_init` is asked to map, its tables are frames that were free. -/
theorem vmmInit_reserved {m : Memory} {pmm : Pmm.Globals} {kernel : Vmm.KernelBounds}
    {kaddr : Vmm.ExecutableAddress} {memmap : List MemmapEntry} {rsp code : Word} {s : Vmm.State}
    (tracks : Pmm.Tracks hhdm bitmapFrames free m pmm) (supply : Suitable hhdm free)
    (done : Vmm.vmmInit m pmm kernel kaddr memmap hhdm rsp code = some s) :
    ∃ root, Reserved hhdm root bitmapFrames free pmm s := by
  have step : ∀ s s' virt phys flags, (∃ root, Reserved hhdm root bitmapFrames free pmm s) →
      Vmm.vmmMap s virt phys flags = (true, s') → ∃ root, Reserved hhdm root bitmapFrames free pmm s' := by
    rintro s s' virt phys flags ⟨root, reserved⟩ mapped
    exact ⟨root, reserved.vmmMap mapped⟩
  refine Vmm.vmmInit_keeps step ?_ done
  intro kernelPml4 mid pmm' allocated nonnull
  have outcome := tracks.allocFrame
  have span := Pmm.pmmAllocFrame_span m pmm
  rw [allocated] at outcome span
  cases outcome with
  | refused => exact absurd rfl nonnull
  | @served root _ _ available tracks' changed total =>
      have notBitmap := Set.disjoint_left.mp tracks.apart available
      have table : frameAddress root + hhdm = tableAt hhdm (frameAddress root) := rfl
      obtain ⟨space, onlyRoot, -⟩ := Space.blank available supply notBitmap tracks'
      rw [table]
      refine ⟨root, rfl, rfl, span, free \ {root}, space, Set.sdiff_subset, ?_⟩
      rw [Set.sdiff_sdiff_right_self, Set.inter_eq_right.mpr (Set.singleton_subset_iff.mpr available)]
      exact onlyRoot

theorem booted_owned {usable bitmapFrames : Set Nat} (inside : bitmapFrames ⊆ usable) :
    OwnedOnce usable (holdings bitmapFrames (usable \ bitmapFrames) ∅ ∅ ∅ ∅) := by
  apply OwnedOnce.of_unique
  · intro frame
    constructor
    · intro member
      by_cases inBitmap : frame ∈ bitmapFrames
      · exact ⟨.bitmap, inBitmap⟩
      · exact ⟨.free, member, inBitmap⟩
    · rintro ⟨owner, holds⟩
      cases owner with
      | bitmap => exact inside holds
      | free => exact holds.1
      | handed | table | freeBlock | liveBlock => exact absurd holds (Set.notMem_empty frame)
  · intro left right frame holdsLeft holdsRight
    cases left with
    | bitmap =>
        cases right with
        | bitmap => rfl
        | free => exact absurd holdsLeft holdsRight.2
        | handed | table | freeBlock | liveBlock => exact absurd holdsRight (Set.notMem_empty frame)
    | free =>
        cases right with
        | bitmap => exact absurd holdsRight holdsLeft.2
        | free => rfl
        | handed | table | freeBlock | liveBlock => exact absurd holdsRight (Set.notMem_empty frame)
    | handed | table | freeBlock | liveBlock => exact absurd holdsLeft (Set.notMem_empty frame)

/-- The tables and the blocks that `buddy_init` seeded were free before. -/
theorem seeded_owned {usable bitmapFrames remaining managed : Set Nat} (inside : bitmapFrames ⊆ usable)
    (consumed : remaining ⊆ usable \ bitmapFrames) (claimed : managed ⊆ remaining) :
    OwnedOnce usable
      (holdings bitmapFrames (remaining \ managed) ∅ ((usable \ bitmapFrames) \ remaining) managed ∅) := by
  have left : remaining = (usable \ bitmapFrames) \ ((usable \ bitmapFrames) \ remaining) := by
    rw [Set.sdiff_sdiff_right_self]
    exact (Set.inter_eq_right.mpr consumed).symm
  have tablesTaken : OwnedOnce usable
      (holdings bitmapFrames remaining ∅ ((usable \ bitmapFrames) \ remaining) ∅ ∅) := by
    apply (booted_owned inside).move (nofun : Owner.free ≠ .table) Set.sdiff_subset left
      (Set.empty_union _).symm
    intro owner notFree notTable
    cases owner with
    | free => exact absurd rfl notFree
    | table => exact absurd rfl notTable
    | bitmap | handed | freeBlock | liveBlock => rfl
  apply tablesTaken.move (nofun : Owner.free ≠ .freeBlock) claimed rfl (Set.empty_union _).symm
  intro owner notFree notBlock
  cases owner with
  | free => exact absurd rfl notFree
  | freeBlock => exact absurd rfl notBlock
  | bitmap | handed | table | liveBlock => rfl

/-- After the three inits every usable frame has its one owner. -/
theorem start_valid {memmap : List MemmapEntry} {m : Memory} {pmm : Pmm.Globals} {s : Vmm.State}
    (memmapValid : MemmapValid memmap) (suitable : Suitable hhdm (usableFrames memmap))
    {m₀ : Memory} (booted : Pmm.Booted hhdm memmap m₀ m pmm)
    (reserved : Reserved hhdm root (pmm.bitmapFrames hhdm)
      (usableFrames memmap \ pmm.bitmapFrames hhdm) pmm s) (reserveFrames : Word) :
    ∃ free managed lists, Valid (usableFrames memmap) (pmm.bitmapFrames hhdm) free managed root lists
      (start s memmap reserveFrames) := by
  obtain ⟨remaining, space, consumed, current⟩ := reserved.space
  have inUsable : remaining ⊆ usableFrames memmap := consumed.trans Set.sdiff_subset
  have span := seedEntries_span (Buddy.budgetOf (Pmm.pmmGetStats s.pmm).free reserveFrames) memmap
    { mem := s.mem, pmm := s.pmm, buddy := { freeList := fun _ => 0, freeCount := fun _ => 0, gHhdm := hhdm },
      claimed := 0 }
  have bitmapSpan := reserved.span.trans span
  obtain ⟨runs, lists, handed⟩ := Buddy.buddyInit_handedOver memmapValid space.tracks inUsable
    space.supply.toUsable reserveFrames
  have apart : Disjoint (tables hhdm root s.mem) (pmm.bitmapFrames hhdm ∪ remaining) :=
    Set.disjoint_union_right.mpr ⟨space.notBitmap, space.notFree⟩
  have sameTables := space.tables_congr handed.frame apart
  have lists_managed : Buddy.heldFrames runs = lists.frames := by
    have whole := blocks_managed handed.tiled
    have none : handleFrames [] = ∅ := by simp [handleFrames]
    rwa [none, Set.union_empty] at whole
  rw [start, reserved.offset]
  refine ⟨remaining \ Buddy.heldFrames runs, Buddy.heldFrames runs, lists, reserved.pml4, ?_, ?_, suitable,
    space.congr handed.tracks handed.frame apart Set.sdiff_subset, handed.holds, handed.gHhdm,
    handed.tiled, by simp, by simp, ?_⟩
  · exact bitmapSpan.bitmapFrames hhdm
  · intro frame usable
    have below := booted.spanned frame usable
    rw [← bitmapSpan.2.2.1] at below
    exact below
  · have owned := seeded_owned booted.inside consumed handed.inFree
    have noHanded : ({frame | frame ∈ ([] : List Word).map Pmm.frameNumber} : Set Nat) = ∅ := by simp
    have noLive : handleFrames [] = ∅ := by simp [handleFrames]
    rw [Config.owners, Config.handedFrames, Config.liveFrames]
    dsimp only
    rw [noHanded, noLive, sameTables, current, ← lists_managed]
    exact owned

/-- After the three inits the buddy allocator has every free frame but the reserved ones. -/
theorem start_total {memmap : List MemmapEntry} {pmm : Pmm.Globals} {s : Vmm.State}
    (memmapValid : MemmapValid memmap) (reserved : Reserved hhdm root (pmm.bitmapFrames hhdm)
      (usableFrames memmap \ pmm.bitmapFrames hhdm) pmm s) (reserveFrames : Word) :
    (Buddy.totalFreeBytes (start s memmap reserveFrames).buddy).toNat =
      4096 * (s.pmm.freeFrames.toNat - reserveFrames.toNat) := by
  obtain ⟨remaining, space, consumed, current⟩ := reserved.space
  have usable := space.supply.toUsable
  obtain ⟨runs, lists, handed⟩ := Buddy.buddyInit_handedOver memmapValid space.tracks
    (consumed.trans Set.sdiff_subset) usable reserveFrames
  rw [start, reserved.offset]
  generalize Buddy.buddyInit s.mem s.pmm memmap hhdm reserveFrames = result at handed
  have valid : Buddy.Valid (Buddy.heldFrames runs) ⟨result.1, result.2.2, []⟩ lists := by
    refine ⟨handed.holds, ?_, handed.tiled⟩
    rw [handed.gHhdm]
    exact usable.mono handed.inFree
  have total := valid.exactPartition.total
  rw [handed.counted, ← space.tracks.counted] at total
  simpa using total

end Start

/-! ## One owner for every frame -/

/-- Every usable frame has exactly one owner, and the operations hand over frames of the
owner they take them from. -/
structure FramesOwned (usable : Set Nat) (c : Config) (root : Nat) (lists : Buddy.Lists) : Prop where
  pml4 : c.vmm.kernelPml4 = frameAddress root
  holds : Buddy.Holds c.vmm.mem c.buddy lists
  owned : OwnedOnce usable (c.held root lists)
  once : (c.handed.map Pmm.frameNumber).Nodup
  blocks : (lists.blocks ++ c.live.map Buddy.Handle.block).Pairwise
    fun left right => Disjoint left.points right.points
  pmmServes : (Pmm.pmmAllocFrame c.vmm.mem c.vmm.pmm).1 ≠ 0 →
    Pmm.frameNumber (Pmm.pmmAllocFrame c.vmm.mem c.vmm.pmm).1 ∈ c.held root lists .free
  buddyServes : ∀ order, (Buddy.buddyAlloc c.vmm.mem c.buddy order).1 ≠ 0 →
    (Buddy.blockOf order (Buddy.buddyAlloc c.vmm.mem c.buddy order).1).points ⊆
      c.held root lists .freeBlock
  buddyFrees : ∀ handle ∈ c.live, (Buddy.buddyFree c.vmm.mem c.buddy handle.1 handle.2).isSome

theorem Valid.framesOwned {usable bitmapFrames free managed : Set Nat} {root : Nat}
    {lists : Buddy.Lists} {c : Config}
    (valid : Valid usable bitmapFrames free managed root lists c) : FramesOwned usable c root lists where
  pml4 := valid.pml4
  holds := valid.holds
  owned := by
    rw [Config.held, valid.bitmap, valid.space.tracks.toMarks.clearFrames_eq]
    exact valid.owned
  once := valid.once
  blocks := valid.tiled.pairwise_disjoint
  pmmServes := by
    intro nonnull
    rw [Config.held, valid.space.tracks.toMarks.clearFrames_eq]
    have outcome := valid.space.tracks.allocFrame
    generalize Pmm.pmmAllocFrame c.vmm.mem c.vmm.pmm = result at outcome nonnull
    cases outcome with
    | refused => exact absurd rfl nonnull
    | served available tracks =>
        have bounded := valid.space.supply.physical _ available
        rw [Pmm.frameNumber, frameAddress_div (by omega)]
        exact available
  buddyServes := by
    intro order nonnull
    have buddyValid : Buddy.Valid managed ⟨c.vmm.mem, c.buddy, c.live⟩ lists :=
      ⟨valid.holds, valid.buddyUsable, valid.tiled⟩
    exact (buddyValid.alloc_fresh nonnull).2.2.2
  buddyFrees := by
    intro handle member
    obtain ⟨mem, buddy, returned, -⟩ := valid.buddyFree member
    rw [returned]
    rfl

/-- After the three inits and any run of the three managers every usable frame has exactly
one owner. -/
theorem frames_owned_once {memmap : List MemmapEntry} {hhdm rsp code : Word} {m m' : Memory}
    {pmm : Pmm.Globals} {kernel : Vmm.KernelBounds} {kaddr : Vmm.ExecutableAddress} {s : Vmm.State}
    {c : Config} (memmapValid : MemmapValid memmap)
    (physical : ∀ frame ∈ usableFrames memmap, frame < 2 ^ 40)
    (reachable : ∀ frame ∈ usableFrames memmap, frameAddress frame + hhdm ≠ 0)
    (booted : Pmm.pmmInit m memmap hhdm = some (m', pmm))
    (done : Vmm.vmmInit m' pmm kernel kaddr memmap hhdm rsp code = some s) (reserveFrames : Word)
    (ran : Run (start s memmap reserveFrames) c) :
    ∃ root lists, FramesOwned (usableFrames memmap) c root lists := by
  have start := Pmm.pmmInit_booted memmapValid booted
  have suitable : Suitable hhdm (usableFrames memmap) :=
    ⟨⟨memmapValid.zero, reachable⟩, physical⟩
  obtain ⟨root, reserved⟩ := vmmInit_reserved start.tracks (suitable.mono Set.sdiff_subset) done
  obtain ⟨free, managed, lists, valid⟩ := start_valid memmapValid suitable start reserved reserveFrames
  obtain ⟨free', lists', valid'⟩ := valid.run ran
  exact ⟨root, lists', valid'.framesOwned⟩

theorem frames_owned_once_smallMap :
    ∃ s c root lists, Vmm.vmmInit Pmm.smallBoot.1 Pmm.smallBoot.2 Vmm.smallKernel Vmm.smallAddress
        Pmm.smallMap Pmm.smallHhdm 0xffff800000002ff8 0xffff800000100123 = some s ∧
      c = (((start s Pmm.smallMap 2).pmmAlloc.buddyAlloc 0).vmmMap 0x400000 0x9000 vmWrite) ∧
      FramesOwned (usableFrames Pmm.smallMap) c root lists := by
  obtain ⟨s, done⟩ := Vmm.smallBoot_reaches
  have physical : ∀ frame ∈ usableFrames Pmm.smallMap, frame < 2 ^ 40 := by
    rw [Pmm.smallMap_frames]
    intro frame member
    exact Nat.lt_trans member.2 (by decide)
  obtain ⟨root, lists, owned⟩ := frames_owned_once Pmm.smallMap_valid physical Buddy.smallMap_reachable
    Pmm.smallBoot_done done 2 (.tail (.tail (.single .pmmAlloc) (.buddyAlloc 0)) (.vmmMap _ _ _))
  exact ⟨s, _, root, lists, done, rfl, owned⟩

end ScrapOS.Mm
