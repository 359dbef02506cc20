import ScrapOS.Kernel.Memory
import ScrapOS.Paging.Exhaustion
import ScrapOS.Slab.Safety

/-! What the memory managers promise together: what one of their callers holds overlaps nothing
that anyone else holds, and nobody writes there but the holder. Holders write through the direct
map, which `vmm_map` and `vmm_unmap` are assumed to leave alone. -/

set_option autoImplicit false

namespace ScrapOS.Kernel

open Buddy (Handle)

/-! ## The owner of a region -/

/-- The owner of the frames that a region lies in. -/
def Region.owner : Region → Mm.Owner
  | .bitmap => .bitmap
  | .tables => .table
  | .frame _ => .handed
  | .block _ => .liveBlock
  | .object _ => .liveBlock

theorem pmm_mayWrite {region : Region} : Actor.pmm.MayWrite region ↔ region.owner = .bitmap := by
  cases region <;> simp [Actor.MayWrite, Region.owner]

theorem vmm_mayWrite {region : Region} :
    Actor.vmm.MayWrite region ↔ region.owner = .bitmap ∨ region.owner = .table := by
  cases region <;> simp [Actor.MayWrite, Region.owner]

namespace Valid

variable {usable bitmapFrames free managed : Set Nat} {root : Nat} {s : Slab.Shape}
  {c c' : Config} {region other : Region}

theorem root_eq (valid : Valid usable bitmapFrames free managed root s c) : c.root = root := by
  have isTable : root ∈ Paging.tables c.mm.vmm.hhdmOffset root c.mm.vmm.mem := RadixTree.root_mem_nodes
  have bounded := valid.mm.suitable.physical _ (valid.mm.owned.inside .table isTable)
  rw [Config.root, valid.mm.pml4]
  exact Pmm.Valid.frameNumber_frameAddress (Nat.lt_trans bounded (by decide))

theorem handle_owned (valid : Valid usable bitmapFrames free managed root s c) {handle : Handle}
    (inHand : handle ∈ c.mm.live) : handle.bytes c.hhdm ⊆
      frameBytes c.hhdm (c.mm.owners bitmapFrames free root s.lists .liveBlock) :=
  fun _ inside => ⟨handle, inHand, valid.slab.balanced.tiled.held_frame inHand inside⟩

theorem object_home (valid : Valid usable bitmapFrames free managed root s c)
    {object : Slab.Object} (member : object ∈ c.objects) :
    ∃ handle ∈ c.mm.live, handle ∉ c.blocks ∧ object.extent ⊆ handle.bytes c.hhdm := by
  have home := valid.slab.balanced.home member
  rwa [show c.heap.slab.gHhdm = c.hhdm from valid.heap_hhdm] at home

theorem bytes_owned (valid : Valid usable bitmapFrames free managed root s c)
    (held : c.Has region) : c.bytes region ⊆
      frameBytes c.hhdm (c.mm.owners bitmapFrames free root s.lists region.owner) := by
  cases region with
  | bitmap =>
      have bitmap : c.mm.vmm.pmm.bitmapFrames c.hhdm = bitmapFrames := valid.mm.bitmap
      rw [Config.bytes, bitmap]
      exact Set.Subset.rfl
  | tables =>
      rw [Config.bytes, valid.root_eq]
      exact Set.Subset.rfl
  | frame phys =>
      obtain ⟨whole, handed⟩ := valid.frame_owned held
      rw [whole]
      exact frameBytes_mono handed
  | block handle => exact valid.handle_owned (valid.slab.balanced.other_held held)
  | object object =>
      obtain ⟨handle, inHand, -, inside⟩ := valid.object_home held
      exact inside.trans (valid.handle_owned inHand)

/-! ## Regions do not meet -/

theorem disjoint_of_owner (valid : Valid usable bitmapFrames free managed root s c)
    (held : c.Has region) (otherHeld : c.Has other) (different : region.owner ≠ other.owner) :
    Disjoint (c.bytes region) (c.bytes other) :=
  (frameBytes_disjoint (valid.mm.owned.disjoint different)).mono (valid.bytes_owned held)
    (valid.bytes_owned otherHeld)

theorem frames_disjoint (valid : Valid usable bitmapFrames free managed root s c) {phys phys' : Word}
    (held : phys ∈ c.mm.handed) (otherHeld : phys' ∈ c.mm.handed) (different : phys ≠ phys') :
    Disjoint (c.bytes (.frame phys)) (c.bytes (.frame phys')) := by
  have numbers : Pmm.frameNumber phys ≠ Pmm.frameNumber phys' := fun same => different <| by
    rw [← valid.mm.aligned phys held, ← valid.mm.aligned phys' otherHeld, same]
  rw [(valid.frame_owned held).1, (valid.frame_owned otherHeld).1]
  exact frameBytes_disjoint (Set.disjoint_singleton.mpr numbers)

theorem block_object_disjoint (valid : Valid usable bitmapFrames free managed root s c)
    {handle : Handle} {object : Slab.Object} (held : handle ∈ c.blocks) (member : object ∈ c.objects) :
    Disjoint (c.bytes (.block handle)) (c.bytes (.object object)) := by
  have apart := valid.slab.balanced.other_extent held member
  rwa [show c.heap.slab.gHhdm = c.hhdm from valid.heap_hhdm] at apart

theorem objects_disjoint (valid : Valid usable bitmapFrames free managed root s c)
    {object object' : Slab.Object} (member : object ∈ c.objects) (otherMember : object' ∈ c.objects)
    (different : object ≠ object') :
    Disjoint (c.bytes (.object object)) (c.bytes (.object object')) := by
  have symmetric : Std.Symm fun left right : Slab.Object => Disjoint left.extent right.extent :=
    ⟨fun _ _ apart => apart.symm⟩
  exact valid.slab.balanced.extents_pairwise.forall member otherMember different

theorem disjoint (valid : Valid usable bitmapFrames free managed root s c) (held : c.Has region)
    (otherHeld : c.Has other) (different : region ≠ other) :
    Disjoint (c.bytes region) (c.bytes other) := by
  have elsewhere := valid.disjoint_of_owner held otherHeld
  cases region with
  | bitmap =>
      cases other with
      | bitmap => exact absurd rfl different
      | _ => exact elsewhere (by simp [Region.owner])
  | tables =>
      cases other with
      | tables => exact absurd rfl different
      | _ => exact elsewhere (by simp [Region.owner])
  | frame phys =>
      cases other with
      | frame phys' => exact valid.frames_disjoint held otherHeld fun same => different (same ▸ rfl)
      | _ => exact elsewhere (by simp [Region.owner])
  | block handle =>
      cases other with
      | block handle' =>
          exact valid.slab.balanced.tiled.held_bytes_disjoint (valid.slab.balanced.other_held held)
            (valid.slab.balanced.other_held otherHeld) fun same => different (same ▸ rfl)
      | object object => exact valid.block_object_disjoint held otherHeld
      | _ => exact elsewhere (by simp [Region.owner])
  | object object =>
      cases other with
      | block handle => exact (valid.block_object_disjoint otherHeld held).symm
      | object object' => exact valid.objects_disjoint held otherHeld fun same => different (same ▸ rfl)
      | _ => exact elsewhere (by simp [Region.owner])

/-! ## Nobody else writes -/

/-- A change that keeps to the frames of other owners. -/
theorem kept_of_owner (valid : Valid usable bitmapFrames free managed root s c) (held : c.Has region)
    {m' : Memory} {frames : Set Nat} (changed : Set.EqOn m' c.mem (frameBytes c.hhdm frames)ᶜ)
    (apart : Disjoint (c.mm.owners bitmapFrames free root s.lists region.owner) frames) :
    Set.EqOn m' c.mem (c.bytes region) :=
  (frameBytes_kept changed apart).mono (valid.bytes_owned held)

/-- The buddy allocator and the heap keep to the managed frames. -/
theorem kept_of_managed (valid : Valid usable bitmapFrames free managed root s c)
    (held : c.Has region) {m' : Memory}
    (changed : Set.EqOn m' c.mem (frameBytes c.heap.slab.gHhdm managed)ᶜ)
    (notLive : region.owner ≠ .liveBlock) : Set.EqOn m' c.mem (c.bytes region) := by
  have notFree : region.owner ≠ .freeBlock := by cases region <;> simp [Region.owner]
  rw [show c.heap.slab.gHhdm = c.hhdm from valid.heap_hhdm] at changed
  exact valid.kept_of_owner held changed (valid.mm.managed_apart notFree notLive).symm

theorem kept_by_heap (valid : Valid usable bitmapFrames free managed root s c) (held : c.Has region)
    {h' : Slab.Heap} (footprint : Slab.Footprint c.blocks c.heap h')
    (objects : ∀ object, region = .object object → Set.EqOn h'.mem c.mem object.extent) :
    Set.EqOn h'.mem c.mem (c.bytes region) := by
  have managedOnly := valid.slab.footprint_managed footprint
  cases region with
  | object object => exact objects object rfl
  | block handle =>
      have kept := valid.slab.footprint_others footprint held
      rwa [show c.heap.slab.gHhdm = c.hhdm from valid.heap_hhdm] at kept
  | _ => exact valid.kept_of_managed held managedOnly (by simp [Region.owner])

theorem kept_by_buddy (valid : Valid usable bitmapFrames free managed root s c) (held : c.Has region)
    {h' : Slab.Heap} {lists' : Buddy.Lists}
    (relinked : Slab.Relinked managed s.lists c.heap h' lists')
    (blocks : ∀ handle, region = .block handle → handle ∈ h'.held)
    (objects : ∀ object, region = .object object → Set.EqOn h'.mem c.mem object.extent) :
    Set.EqOn h'.mem c.mem (c.bytes region) := by
  have managedOnly := valid.slab.relinked_managed relinked
  cases region with
  | object object => exact objects object rfl
  | block handle =>
      have kept := valid.slab.relinked_held relinked (valid.slab.balanced.other_held held)
        (blocks handle rfl)
      rwa [show c.heap.slab.gHhdm = c.hhdm from valid.heap_hhdm] at kept
  | _ => exact valid.kept_of_managed held managedOnly (by simp [Region.owner])

theorem writable_subset (valid : Valid usable bitmapFrames free managed root s c)
    (held : c.Has region) : c.writable region ⊆ c.bytes region := by
  cases region with
  | bitmap => exact Set.empty_subset _
  | tables => exact Set.empty_subset _
  | frame phys => exact Set.Subset.rfl
  | block handle => exact Set.Subset.rfl
  | object object => exact valid.slab.balanced.bytes_subset_extent held

/-- A step changes no region that is held before and after it, except those of its actor. -/
theorem kept (valid : Valid usable bitmapFrames free managed root s c) {actor : Actor}
    (stepped : Step actor c c') (held : c.Has region) (still : c'.Has region)
    (foreign : ¬ actor.MayWrite region) : Set.EqOn c'.mem c.mem (c.bytes region) := by
  have notFree : region.owner ≠ .free := by cases region <;> simp [Region.owner]
  have bitmapApart (different : region.owner ≠ .bitmap) : Disjoint
      (c.mm.owners bitmapFrames free root s.lists region.owner) bitmapFrames :=
    valid.mm.owned.disjoint different
  have tablesApart (different : region.owner ≠ .table) : Disjoint
      (c.mm.owners bitmapFrames free root s.lists region.owner)
      (Paging.tables c.hhdm root c.mem) := valid.mm.owned.disjoint different
  have freeApart : Disjoint (c.mm.owners bitmapFrames free root s.lists region.owner) free :=
    valid.mm.owned.disjoint notFree
  cases stepped with
  | pmmAlloc =>
      rw [pmm_mayWrite] at foreign
      exact valid.kept_of_owner held valid.mm.pmmAlloc_frame (bitmapApart foreign)
  | pmmFree freed =>
      rw [pmm_mayWrite] at foreign
      exact valid.kept_of_owner held (valid.mm.pmmFree_frame freed) (bitmapApart foreign)
  | vmmMap virt phys flags =>
      rw [vmm_mayWrite, not_or] at foreign
      exact valid.kept_of_owner held (valid.mm.vmmMap_frame virt phys flags)
        (((bitmapApart foreign.1).union_right (tablesApart foreign.2)).union_right freeApart)
  | vmmUnmap virt =>
      rw [vmm_mayWrite, not_or] at foreign
      exact valid.kept_of_owner held (valid.mm.vmmUnmap_frame virt) (tablesApart foreign.2)
  | buddyAlloc order returned =>
      have relinked := valid.slab.buddyAlloc_relinked order
      have grown := Slab.buddyAlloc_held c.heap order
      have borrowed := valid.slab.borrow order
      rw [returned] at relinked grown borrowed
      refine valid.kept_by_buddy held relinked ?_ ?_
      · intro handle same
        subst same
        exact grown (valid.slab.balanced.other_held held)
      · intro object same
        subst same
        cases borrowed with
        | refused _ _ _ kept => exact kept object held
        | granted _ _ _ _ _ kept => exact kept object held
  | @buddyFree given _ _ givenHeld returned =>
      have inHand := valid.slab.balanced.other_held givenHeld
      obtain ⟨relinked, left⟩ := valid.slab.buddyFree_relinked inHand returned
      refine valid.kept_by_buddy held relinked ?_ ?_
      · intro handle same
        subst same
        have once : c.blocks.Nodup := List.Nodup.of_append_right valid.slab.balanced.nodup
        rw [left]
        exact (List.mem_erase_of_ne ((once.mem_erase_iff.mp still).1)).mpr
          (valid.slab.balanced.other_held held)
      · intro object same
        subst same
        obtain ⟨h'', result, -, -, kept⟩ :=
          (valid.slab.reorder (List.perm_cons_erase givenHeld)).giveBack
        rw [returned] at result
        cases result
        exact kept object held
  | kmalloc inRange returned =>
      refine valid.kept_by_heap held (valid.slab.kmalloc_footprint returned) ?_
      intro object same
      subst same
      have allocated := valid.slab.kmalloc inRange
      rw [returned] at allocated
      cases allocated with
      | returned _ kept => exact kept object held
  | kfree member returned =>
      refine valid.kept_by_heap held (valid.slab.kfree_footprint member returned) ?_
      intro object same
      subst same
      obtain ⟨h'', s', result, -, kept⟩ := Slab.Valid.kfree (c := ⟨c.heap, c.objects⟩) valid.slab member
      rw [returned] at result
      cases result
      exact kept object still
  | write region' held' inside =>
      have apart := valid.disjoint held held' fun same => foreign same.symm
      exact inside.mono (apart.mono_right (valid.writable_subset held')).subset_compl_right

/-! ## Addresses keep their meaning -/

theorem translate_eq (valid : Valid usable bitmapFrames free managed root s c) (virt : Word) :
    (Vmm.vmmTranslate c.mm.vmm virt).1 = Paging.resolve
      (Paging.entries c.hhdm root c.mem (Paging.pathOf virt)) virt := by
  unfold Vmm.vmmTranslate
  rw [valid.mm.pml4, valid.mm.space.pagingTranslate_eq virt]
  rfl

theorem translation_kept (valid : Valid usable bitmapFrames free managed root s c) {actor : Actor}
    (stepped : Step actor c c') (notTables : ¬ actor.MayWrite .tables) (virt : Word) :
    (Vmm.vmmTranslate c'.mm.vmm virt).1 = (Vmm.vmmTranslate c.mm.vmm virt).1 := by
  have hhdm : c'.hhdm = c.hhdm := by cases stepped <;> rfl
  obtain ⟨free', s', valid'⟩ := valid.step stepped
  have unchanged : Set.EqOn c'.mem c.mem (c.bytes .tables) :=
    valid.kept stepped trivial trivial notTables
  rw [Config.bytes, valid.root_eq] at unchanged
  have elsewhere : Set.EqOn c'.mem c.mem
      (frameBytes c.hhdm (Paging.tables c.hhdm root c.mem)ᶜ)ᶜ := by
    intro address inside
    exact unchanged (not_not.mp inside)
  have same := valid.mm.space.entries_congr elsewhere disjoint_compl_right
    (Paging.pathOf_length virt).le
  rw [valid.translate_eq, valid'.translate_eq, hhdm]
  exact congrArg (Paging.resolve · virt) same

end Valid

/-! ## After the inits -/

theorem start_valid {memmap : List MemmapEntry} {hhdm : Word} {root : Nat} {m : Memory}
    {pmm : Pmm.Globals} {state : Vmm.State} (memmapValid : MemmapValid memmap)
    (suitable : Paging.Suitable hhdm (usableFrames memmap)) (aligned : hhdm.toNat % 4096 = 0)
    {m₀ : Memory} (booted : Pmm.Booted hhdm memmap m₀ m pmm)
    (reserved : Mm.Reserved hhdm root (pmm.bitmapFrames hhdm)
      (usableFrames memmap \ pmm.bitmapFrames hhdm) pmm state) (reserveFrames : Word)
    (g : Slab.Globals) : ∃ free managed s, Valid (usableFrames memmap) (pmm.bitmapFrames hhdm) free
      managed root s (start state memmap reserveFrames g) := by
  obtain ⟨free, managed, lists, mm⟩ :=
    Mm.start_valid memmapValid suitable booted reserved reserveFrames
  have offset : (Mm.start state memmap reserveFrames).vmm.hhdmOffset = hhdm := reserved.offset
  have buddy : Buddy.Valid managed ⟨(Mm.start state memmap reserveFrames).vmm.mem,
      (Mm.start state memmap reserveFrames).buddy, []⟩ lists := ⟨mm.holds, mm.buddyUsable, mm.tiled⟩
  have sameOffset : state.hhdmOffset = (Mm.start state memmap reserveFrames).buddy.gHhdm :=
    mm.gHhdm.symm
  have onPage : (Mm.start state memmap reserveFrames).buddy.gHhdm.toNat % 4096 = 0 := by
    rw [mm.gHhdm, offset]
    exact aligned
  refine ⟨free, managed, { lists, slabs := fun _ => [], frees := fun _ => [] }, mm, ?_⟩
  rw [start, sameOffset]
  exact Slab.start_valid buddy onPage g

/-- The inits of `kmain`: the buddy allocator gets what `pmm_init` and `vmm_init` left free, less
the reserve. -/
theorem inits_valid {memmap : List MemmapEntry} {hhdm rsp code : Word} {m m' : Memory}
    {pmm : Pmm.Globals} {kernel : Vmm.KernelBounds} {kaddr : Vmm.ExecutableAddress}
    {state : Vmm.State} (memmapValid : MemmapValid memmap)
    (physical : ∀ frame ∈ usableFrames memmap, frame < 2 ^ 40)
    (reachable : ∀ frame ∈ usableFrames memmap, frameAddress frame + hhdm ≠ 0)
    (aligned : hhdm.toNat % 4096 = 0)
    (booted : Pmm.pmmInit m memmap hhdm = some (m', pmm))
    (done : Vmm.vmmInit m' pmm kernel kaddr memmap hhdm rsp code = some state)
    (reserveFrames : Word) (g : Slab.Globals) : ∃ free managed root s,
      Valid (usableFrames memmap) (pmm.bitmapFrames hhdm) free managed root s
        (start state memmap reserveFrames g) ∧
      (Buddy.totalFreeBytes (start state memmap reserveFrames g).mm.buddy).toNat =
        4096 * (state.pmm.freeFrames.toNat - reserveFrames.toNat) ∧
      (start state memmap reserveFrames g).hhdm = hhdm := by
  have placed := Pmm.pmmInit_booted memmapValid booted
  have suitable : Paging.Suitable hhdm (usableFrames memmap) :=
    ⟨⟨memmapValid.zero, reachable⟩, physical⟩
  obtain ⟨root, reserved⟩ := Mm.vmmInit_reserved placed.tracks (suitable.mono Set.sdiff_subset) done
  obtain ⟨free, managed, s, valid⟩ :=
    start_valid memmapValid suitable aligned placed reserved reserveFrames g
  exact ⟨free, managed, root, s, valid, Mm.start_total memmapValid reserved reserveFrames,
    reserved.offset⟩

theorem smallMap_physical : ∀ frame ∈ usableFrames Pmm.smallMap, frame < 2 ^ 40 := by
  rw [Pmm.smallMap_frames]
  intro frame member
  exact Nat.lt_trans member.2 (by decide)

/-- The inits on sixteen frames. -/
theorem smallMap_inits (reserveFrames : Word) : ∃ state free managed root s,
    Vmm.vmmInit Pmm.smallBoot.1 Pmm.smallBoot.2 Vmm.smallKernel Vmm.smallAddress Pmm.smallMap
      Pmm.smallHhdm 0xffff800000002ff8 0xffff800000100123 = some state ∧
    Valid (usableFrames Pmm.smallMap) (Pmm.smallBoot.2.bitmapFrames Pmm.smallHhdm) free managed root s
      (start state Pmm.smallMap reserveFrames Slab.bootGlobals) ∧
    (Buddy.totalFreeBytes (start state Pmm.smallMap reserveFrames Slab.bootGlobals).mm.buddy).toNat =
      4096 * (state.pmm.freeFrames.toNat - reserveFrames.toNat) ∧ 1 ≤ state.pmm.freeFrames.toNat := by
  obtain ⟨state, done, spare⟩ := Vmm.smallBoot_spares
  obtain ⟨free, managed, root, s, valid, total, -⟩ := inits_valid Pmm.smallMap_valid
    smallMap_physical Buddy.smallMap_reachable (by decide) Pmm.smallBoot_done done reserveFrames
    Slab.bootGlobals
  exact ⟨state, free, managed, root, s, done, valid, total, spare⟩

/-- What holds of the memory of the kernel in every state of a run. -/
structure Isolated (usable : Set Nat) (c : Config) : Prop where
  frames : ∃ lists, Mm.FramesOwned usable c.mm c.root lists
  heap : ∃ s, Slab.Encodes c.heap c.objects s ∧ Slab.Separated c.blocks ⟨c.heap, c.objects⟩ s
  disjoint : ∀ region other, c.Has region → c.Has other → region ≠ other →
    Disjoint (c.bytes region) (c.bytes other)
  kept : ∀ actor c', Step actor c c' → ∀ region, c.Has region → c'.Has region →
    ¬ actor.MayWrite region → Set.EqOn c'.mem c.mem (c.bytes region)
  translation : ∀ actor c', Step actor c c' → ¬ actor.MayWrite .tables → ∀ virt,
    (Vmm.vmmTranslate c'.mm.vmm virt).1 = (Vmm.vmmTranslate c.mm.vmm virt).1
  kmalloc : ∀ size : Word, size.toNat + 16 ≤ 2 ^ 63 → (Slab.kmalloc c.heap size).isSome
  kfree : ∀ object ∈ c.objects, (Slab.kfree c.heap object.ptr).isSome
  buddyFree : ∀ handle ∈ c.blocks, (c.heap.buddyFree handle.1 handle.2).isSome

theorem Valid.isolated {usable bitmapFrames free managed : Set Nat} {root : Nat} {s : Slab.Shape}
    {c : Config} (valid : Valid usable bitmapFrames free managed root s c) : Isolated usable c where
  frames := ⟨s.lists, valid.root_eq.symm ▸ valid.mm.framesOwned⟩
  heap := ⟨s, valid.slab.encodes, Slab.Valid.separated (c := ⟨c.heap, c.objects⟩) valid.slab⟩
  disjoint := fun _ _ held otherHeld different => valid.disjoint held otherHeld different
  kept := fun _ _ stepped _ held still foreign => valid.kept stepped held still foreign
  translation := fun _ _ stepped notTables virt => valid.translation_kept stepped notTables virt
  kmalloc := fun size inRange => by
    have allocated := valid.slab.kmalloc inRange
    cases returned : Slab.kmalloc c.heap size with
    | none =>
        rw [returned] at allocated
        cases allocated
    | some result => rfl
  kfree := fun object member => by
    obtain ⟨h', s', returned, -⟩ := Slab.Valid.kfree (c := ⟨c.heap, c.objects⟩) valid.slab member
    exact Option.isSome_iff_exists.mpr ⟨h', returned⟩
  buddyFree := fun handle member => by
    obtain ⟨h', returned, -⟩ := (valid.slab.reorder (List.perm_cons_erase member)).giveBack
    exact Option.isSome_iff_exists.mpr ⟨h', returned⟩

/-- From the inits on, whatever the callers of the memory managers do in whatever order: every
usable frame has one owner, what somebody holds overlaps nothing that anyone else holds, and it
changes only when its holder writes it. -/
theorem kernel_memory_isolated {memmap : List MemmapEntry} {hhdm rsp code : Word} {m m' : Memory}
    {pmm : Pmm.Globals} {kernel : Vmm.KernelBounds} {kaddr : Vmm.ExecutableAddress}
    {state : Vmm.State} {c : Config} (memmapValid : MemmapValid memmap)
    (physical : ∀ frame ∈ usableFrames memmap, frame < 2 ^ 40)
    (reachable : ∀ frame ∈ usableFrames memmap, frameAddress frame + hhdm ≠ 0)
    (aligned : hhdm.toNat % 4096 = 0)
    (booted : Pmm.pmmInit m memmap hhdm = some (m', pmm))
    (done : Vmm.vmmInit m' pmm kernel kaddr memmap hhdm rsp code = some state)
    (reserveFrames : Word) (g : Slab.Globals) (ran : Run (start state memmap reserveFrames g) c) :
    Isolated (usableFrames memmap) c := by
  obtain ⟨free, managed, root, s, valid, -⟩ :=
    inits_valid memmapValid physical reachable aligned booted done reserveFrames g
  obtain ⟨free', s', valid'⟩ := valid.run ran
  exact valid'.isolated

/-- A request to the heap and one to the buddy allocator, on sixteen frames. -/
theorem kernel_memory_isolated_smallMap : ∃ state c h' h'' ptr phys,
    Vmm.vmmInit Pmm.smallBoot.1 Pmm.smallBoot.2 Vmm.smallKernel Vmm.smallAddress Pmm.smallMap
      Pmm.smallHhdm 0xffff800000002ff8 0xffff800000100123 = some state ∧
    Slab.kmalloc (start state Pmm.smallMap 2 Slab.bootGlobals).heap 100 = some (ptr, h') ∧
    h'.buddyAlloc 0 = (phys, h'') ∧ c.heap = h'' ∧ Isolated (usableFrames Pmm.smallMap) c := by
  obtain ⟨state, free, managed, root, s, done, valid, -⟩ := smallMap_inits 2
  have isolated {c : Config} (ran : Run (start state Pmm.smallMap 2 Slab.bootGlobals) c) :
      Isolated (usableFrames Pmm.smallMap) c :=
    kernel_memory_isolated Pmm.smallMap_valid smallMap_physical Buddy.smallMap_reachable (by decide)
      Pmm.smallBoot_done done 2 Slab.bootGlobals ran
  obtain ⟨⟨ptr, h'⟩, served⟩ :=
    Option.isSome_iff_exists.mp ((isolated .refl).kmalloc 100 (by decide))
  have asked : Run (start state Pmm.smallMap 2 Slab.bootGlobals) _ :=
    .single ⟨.heap, .kmalloc (by decide) served⟩
  obtain ⟨⟨phys, h''⟩, took⟩ : ∃ result, h'.buddyAlloc 0 = result := ⟨_, rfl⟩
  have borrowed : Run (start state Pmm.smallMap 2 Slab.bootGlobals) _ :=
    asked.tail ⟨.buddy, .buddyAlloc 0 took⟩
  exact ⟨state, _, h', h'', ptr, phys, done, served, took, rfl, isolated borrowed⟩

end ScrapOS.Kernel
