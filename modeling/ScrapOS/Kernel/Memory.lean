import ScrapOS.Mm.Ownership
import ScrapOS.Slab.Footprint

/-! The memory of the running kernel: the frame allocator, the page tables, the buddy allocator
and the heap over it, in one machine. The heap is no longer a caller like any other: its calls
of the buddy allocator and its writes are steps of the three managers below it, on memory as
the direct map shows it. -/

set_option autoImplicit false

namespace ScrapOS

open Buddy (Handle Lists Partition)

/-! ## What the managers write -/

namespace Mm.Valid

open Paging Pmm

variable {usable bitmapFrames free managed : Set Nat} {root : Nat} {lists lists' : Lists}
  {c : Mm.Config}

theorem pmmAlloc_frame (valid : Valid usable bitmapFrames free managed root lists c) :
    Set.EqOn c.pmmAlloc.vmm.mem c.vmm.mem (frameBytes c.vmm.hhdmOffset bitmapFrames)ᶜ := by
  have outcome := valid.space.tracks.allocFrame
  rw [Config.pmmAlloc]
  generalize pmmAllocFrame c.vmm.mem c.vmm.pmm = result at outcome
  cases outcome with
  | refused none => exact Set.eqOn_refl _ _
  | served available tracks changed total => exact changed

theorem pmmFree_frame (valid : Valid usable bitmapFrames free managed root lists c) {phys : Word}
    (member : phys ∈ c.handed) :
    Set.EqOn (c.pmmFree phys).vmm.mem c.vmm.mem (frameBytes c.vmm.hhdmOffset bitmapFrames)ᶜ := by
  have inHanded : frameNumber phys ∈ c.handedFrames := List.mem_map_of_mem member
  have isUsable : frameNumber phys ∈ usable := valid.owned.inside .handed inHanded
  have elsewhere : ∀ owner, owner ≠ .handed →
      frameNumber phys ∉ c.owners bitmapFrames free root lists owner :=
    fun owner other inOwner => other (valid.owned.unique inOwner
      (inHanded : _ ∈ c.owners bitmapFrames free root lists .handed))
  have nonzero : frameNumber phys ≠ 0 := fun zero => valid.suitable.zero (zero ▸ isUsable)
  obtain ⟨-, changed, -⟩ := valid.space.tracks.freeFrame (valid.spanned _ isUsable) nonzero
    (elsewhere .free (by decide)) (elsewhere .bitmap (by decide))
  rw [valid.aligned phys member] at changed
  exact changed

theorem vmmMap_frame (valid : Valid usable bitmapFrames free managed root lists c)
    (virt phys flags : Word) :
    Set.EqOn (c.vmmMap virt phys flags).vmm.mem c.vmm.mem (frameBytes c.vmm.hhdmOffset
      (bitmapFrames ∪ tables c.vmm.hhdmOffset root c.vmm.mem ∪ free))ᶜ := by
  rw [Config.vmmMap, Vmm.vmmMap, valid.pml4]
  generalize outcome : pagingMap c.vmm.mem c.vmm.pmm c.vmm.hhdmOffset (frameAddress root) virt phys flags =
    result
  obtain ⟨done, m', pmm'⟩ := result
  obtain ⟨free', -, -, -, changed⟩ := valid.space.pagingMap_ledger virt phys flags outcome
  exact eqOn_compl_mono changed
    (frameBytes_mono (Set.union_subset_union_right _ Set.sdiff_subset))

theorem vmmUnmap_frame (valid : Valid usable bitmapFrames free managed root lists c) (virt : Word) :
    Set.EqOn (c.vmmUnmap virt).vmm.mem c.vmm.mem (frameBytes c.vmm.hhdmOffset
      (tables c.vmm.hhdmOffset root c.vmm.mem))ᶜ := by
  have outcome := valid.space.pagingUnmap_unmapped virt
  rw [Config.vmmUnmap, Vmm.vmmUnmap, valid.pml4]
  generalize pagingUnmap c.vmm.mem c.vmm.pmm c.vmm.hhdmOffset (frameAddress root) virt = result at outcome
  cases outcome with
  | absent none => exact Set.eqOn_refl _ _
  | cleared present space sameTables updated changed => exact changed

theorem free_frames (tiled : Partition managed lists c.live) :
    lists.frames = managed \ handleFrames c.live := tiled.frames_eq

/-- Other free lists do as well when memory holds them and they divide the same frames. -/
theorem relist (valid : Valid usable bitmapFrames free managed root lists c)
    (holds : Buddy.Holds c.vmm.mem c.buddy lists') (tiled : Partition managed lists' c.live) :
    Valid usable bitmapFrames free managed root lists' c := by
  have same : c.owners bitmapFrames free root lists' = c.owners bitmapFrames free root lists := by
    rw [Config.owners, Config.owners, free_frames tiled, free_frames valid.tiled]
  exact { valid with holds := holds, tiled := tiled, owned := same ▸ valid.owned }

end Mm.Valid

namespace Kernel

/-! ## The machine -/

/-- A state of a run: the three managers, `slab.c`, the blocks that were taken from the buddy
allocator by others than the heap, and the objects that `kmalloc` returned. -/
structure Config where
  mm : Mm.Config
  slab : Slab.Globals
  blocks : List Handle
  objects : List Slab.Object

namespace Config

/-- The state as the functions of `slab.c` see it. -/
def heap (c : Config) : Slab.Heap where
  mem := c.mm.vmm.mem
  buddy := c.mm.buddy
  slab := c.slab
  held := c.mm.live

def withHeap (c : Config) (h : Slab.Heap) : Config :=
  { c with
    mm := { c.mm with vmm := { c.mm.vmm with mem := h.mem }, buddy := h.buddy, live := h.held }
    slab := h.slab }

def mem (c : Config) : Memory := c.mm.vmm.mem

def hhdm (c : Config) : Word := c.mm.vmm.hhdmOffset

/-- The frame of the PML4. -/
def root (c : Config) : Nat := Pmm.frameNumber c.mm.vmm.kernelPml4

end Config

/-- The memory that somebody owns. -/
inductive Region where
  | bitmap
  | tables
  | frame (phys : Word)
  | block (handle : Handle)
  | object (object : Slab.Object)

namespace Config

def Has (c : Config) : Region → Prop
  | .bitmap => True
  | .tables => True
  | .frame phys => phys ∈ c.mm.handed
  | .block handle => handle ∈ c.blocks
  | .object object => object ∈ c.objects

/-- An object of a class extends to the end of its slot. -/
def bytes (c : Config) : Region → Set Word
  | .bitmap => frameBytes c.hhdm (c.mm.vmm.pmm.bitmapFrames c.hhdm)
  | .tables => frameBytes c.hhdm (Paging.tables c.hhdm c.root c.mem)
  | .frame phys => span (phys + c.hhdm) 4096
  | .block handle => handle.bytes c.hhdm
  | .object object => object.extent

/-- What the owner of a region may write. -/
def writable (c : Config) : Region → Set Word
  | .bitmap => ∅
  | .tables => ∅
  | .frame phys => c.bytes (.frame phys)
  | .block handle => c.bytes (.block handle)
  | .object object => object.bytes

end Config

inductive Actor where
  | pmm
  | vmm
  | buddy
  | heap
  | owner (region : Region)

/-- The page tables come from the frame allocator. -/
def Actor.MayWrite : Actor → Region → Prop
  | .pmm, .bitmap => True
  | .vmm, .bitmap => True
  | .vmm, .tables => True
  | .owner region, other => region = other
  | _, _ => False

inductive Step : Actor → Config → Config → Prop where
  | pmmAlloc {c : Config} : Step .pmm c { c with mm := c.mm.pmmAlloc }
  | pmmFree {c : Config} {phys : Word} : phys ∈ c.mm.handed →
      Step .pmm c { c with mm := c.mm.pmmFree phys }
  | vmmMap {c : Config} (virt phys flags : Word) :
      Step .vmm c { c with mm := c.mm.vmmMap virt phys flags }
  | vmmUnmap {c : Config} (virt : Word) : Step .vmm c { c with mm := c.mm.vmmUnmap virt }
  | buddyAlloc {c : Config} {phys : Word} {h' : Slab.Heap} (order : Nat) :
      c.heap.buddyAlloc order = (phys, h') →
      Step .buddy c
        { c.withHeap h' with blocks := if phys = 0 then c.blocks else (phys, order) :: c.blocks }
  | buddyFree {c : Config} {handle : Handle} {h' : Slab.Heap} : handle ∈ c.blocks →
      c.heap.buddyFree handle.1 handle.2 = some h' →
      Step .buddy c { c.withHeap h' with blocks := c.blocks.erase handle }
  | kmalloc {c : Config} {size ptr : Word} {h' : Slab.Heap} : size.toNat + 16 ≤ 2 ^ 63 →
      Slab.kmalloc c.heap size = some (ptr, h') →
      Step .heap c { c.withHeap h' with objects := c.heap.serve c.objects size ptr }
  | kfree {c : Config} {object : Slab.Object} {h' : Slab.Heap} : object ∈ c.objects →
      Slab.kfree c.heap object.ptr = some h' →
      Step .heap c { c.withHeap h' with objects := c.objects.erase object }
  | write {c : Config} {m' : Memory} (region : Region) : c.Has region →
      Set.EqOn m' c.mem (c.writable region)ᶜ →
      Step (.owner region) c (c.withHeap { c.heap with mem := m' })

def AnyStep (c c' : Config) : Prop := ∃ actor, Step actor c c'

abbrev Run : Config → Config → Prop := Relation.ReflTransGen AnyStep

/-- After `buddy_init` and `slab_init`. -/
def start (s : Vmm.State) (memmap : List MemmapEntry) (reserveFrames : Word) (g : Slab.Globals) :
    Config where
  mm := Mm.start s memmap reserveFrames
  slab := Slab.slabInit g s.hhdmOffset
  blocks := []
  objects := []

/-! ## The invariant -/

/-- Both invariants, over the same free lists. -/
structure Valid (usable bitmapFrames free managed : Set Nat) (root : Nat) (s : Slab.Shape)
    (c : Config) : Prop where
  mm : Mm.Valid usable bitmapFrames free managed root s.lists c.mm
  slab : Slab.Valid managed c.blocks c.heap c.objects s

namespace Valid

variable {usable bitmapFrames free free' managed : Set Nat} {root : Nat} {s s' : Slab.Shape}
  {c c' : Config} {h' : Slab.Heap}

theorem heap_hhdm (valid : Valid usable bitmapFrames free managed root s c) :
    c.slab.gHhdm = c.hhdm := valid.slab.encodes.hhdm.trans valid.mm.gHhdm

/-- What a manager below the buddy allocator does leaves the heap alone. -/
theorem spared (valid : Valid usable bitmapFrames free managed root s c) {mm' : Mm.Config}
    (mmValid : Mm.Valid usable bitmapFrames free' managed root s.lists mm')
    (buddy : mm'.buddy = c.mm.buddy) (live : mm'.live = c.mm.live)
    (unchanged : Set.EqOn mm'.vmm.mem c.mem (frameBytes c.hhdm managed)) :
    Valid usable bitmapFrames free' managed root s { c with mm := mm' } where
  mm := mmValid
  slab := by
    have hhdm := valid.heap_hhdm
    have same : ({ c with mm := mm' } : Config).heap = { c.heap with mem := mm'.vmm.mem } := by
      rw [Config.heap, Config.heap, buddy, live]
    rw [same]
    refine ⟨valid.slab.balanced, valid.slab.encodes.write ?_ ?_⟩
    · refine unchanged.mono fun address book => ?_
      obtain ⟨handle, inHand, -, inside⟩ := valid.slab.balanced.book_home book
      exact hhdm ▸ valid.slab.balanced.tiled.held_managed inHand inside
    · exact unchanged.mono (hhdm ▸ valid.slab.balanced.tiled.links_managed)

/-- The buddy allocator, and the heap above it, divide the managed frames anew. -/
theorem viaHeap (valid : Valid usable bitmapFrames free managed root s c)
    (ran : Mm.Run c.mm (c.withHeap h').mm) {blocks : List Handle} {objects : List Slab.Object}
    (slab : Slab.Valid managed blocks h' objects s') :
    ∃ free', Valid usable bitmapFrames free' managed root s'
      { c.withHeap h' with blocks := blocks, objects := objects } := by
  obtain ⟨free', lists', mm⟩ := valid.mm.run ran
  exact ⟨free', mm.relist slab.encodes.free slab.balanced.tiled, slab⟩

/-! ## Steps of the heap are runs of the managers below it -/

theorem buddyAlloc_mm (c : Config) (order : Nat) :
    (c.withHeap (c.heap.buddyAlloc order).2).mm = c.mm.buddyAlloc order := by
  unfold Config.withHeap Slab.Heap.buddyAlloc Mm.Config.buddyAlloc Config.heap
  generalize Buddy.buddyAlloc c.mm.vmm.mem c.mm.buddy order = result
  rfl

theorem buddyFree_step (c : Config) {handle : Handle} (member : handle ∈ c.mm.live)
    (returned : c.heap.buddyFree handle.1 handle.2 = some h') :
    Mm.Step c.mm (c.withHeap h').mm := by
  unfold Slab.Heap.buddyFree at returned
  cases outcome : Buddy.buddyFree c.heap.mem c.heap.buddy handle.1 handle.2 with
  | none =>
      rw [outcome] at returned
      cases returned
  | some result =>
      rw [outcome] at returned
      cases returned
      exact .buddyFree member outcome

theorem wrote_step (c : Config) (buddyHhdm : c.slab.gHhdm = c.mm.buddy.gHhdm)
    (wrote : Slab.Wrote c.blocks c.heap h') : Mm.Step c.mm (c.withHeap h').mm := by
  have same : (c.withHeap h').mm = { c.mm with vmm := { c.mm.vmm with mem := h'.mem } } := by
    simp only [Config.withHeap, wrote.buddy, wrote.held, Config.heap]
  rw [same]
  refine .write (eqOn_compl_mono wrote.frame fun address inside => ?_)
  obtain ⟨handle, inHand, -, inHandle⟩ := inside
  exact .inr ⟨handle, inHand, by rwa [Handle.bytes, Config.heap, buddyHhdm] at inHandle⟩

theorem footprint_run (valid : Valid usable bitmapFrames free managed root s c)
    (footprint : Slab.Footprint c.blocks c.heap h') : Mm.Run c.mm (c.withHeap h').mm := by
  cases footprint with
  | wrote wrote => exact .single (wrote_step c valid.slab.encodes.hhdm wrote)
  | gave inHand notOther returned => exact .single (buddyFree_step c inHand returned)
  | took order wrote =>
      have borrowed := valid.slab.borrow order
      have took := buddyAlloc_mm c order
      generalize c.heap.buddyAlloc order = result at borrowed took wrote
      have hhdm : result.2.slab.gHhdm = result.2.buddy.gHhdm := by
        cases borrowed with
        | refused valid' => exact valid'.encodes.hhdm
        | granted _ _ valid' => exact valid'.encodes.hhdm
      have first : Mm.Step c.mm (c.withHeap result.2).mm := took ▸ .buddyAlloc order
      exact .tail (.single first) (wrote_step (c.withHeap result.2) hhdm wrote)

/-! ## Steps keep the invariant -/

theorem kmalloc (valid : Valid usable bitmapFrames free managed root s c) {size ptr : Word}
    (inRange : size.toNat + 16 ≤ 2 ^ 63) (returned : Slab.kmalloc c.heap size = some (ptr, h')) :
    ∃ free' s', Valid usable bitmapFrames free' managed root s'
      { c.withHeap h' with objects := c.heap.serve c.objects size ptr } := by
  have allocated := valid.slab.kmalloc inRange
  have ran := valid.footprint_run (valid.slab.kmalloc_footprint returned)
  rw [returned] at allocated
  cases allocated with
  | returned slab kept =>
      obtain ⟨free', valid'⟩ := valid.viaHeap ran slab
      exact ⟨free', _, valid'⟩

theorem kfree (valid : Valid usable bitmapFrames free managed root s c) {object : Slab.Object}
    (member : object ∈ c.objects) (returned : Slab.kfree c.heap object.ptr = some h') :
    ∃ free' s', Valid usable bitmapFrames free' managed root s'
      { c.withHeap h' with objects := c.objects.erase object } := by
  have ran := valid.footprint_run (valid.slab.kfree_footprint member returned)
  obtain ⟨h'', s', result, slab, -⟩ := Slab.Valid.kfree (c := ⟨c.heap, c.objects⟩) valid.slab member
  rw [returned] at result
  cases result
  obtain ⟨free', valid'⟩ := valid.viaHeap ran slab
  exact ⟨free', s', valid'⟩

theorem buddyAlloc (valid : Valid usable bitmapFrames free managed root s c) (order : Nat)
    {phys : Word} (returned : c.heap.buddyAlloc order = (phys, h')) :
    ∃ free' s', Valid usable bitmapFrames free' managed root s'
      { c.withHeap h' with blocks := if phys = 0 then c.blocks else (phys, order) :: c.blocks } := by
  have borrowed := valid.slab.borrow order
  have took := buddyAlloc_mm c order
  rw [returned] at borrowed took
  have ran : Mm.Run c.mm (c.withHeap h').mm := .single (took ▸ .buddyAlloc order)
  cases borrowed with
  | refused slab =>
      obtain ⟨free', valid'⟩ := valid.viaHeap ran slab
      exact ⟨free', s, valid'⟩
  | granted nonzero _ slab =>
      obtain ⟨free', valid'⟩ := valid.viaHeap ran slab
      rw [if_neg nonzero]
      exact ⟨free', _, valid'⟩

theorem buddyFree (valid : Valid usable bitmapFrames free managed root s c) {handle : Handle}
    (member : handle ∈ c.blocks) (returned : c.heap.buddyFree handle.1 handle.2 = some h') :
    ∃ free' s', Valid usable bitmapFrames free' managed root s'
      { c.withHeap h' with blocks := c.blocks.erase handle } := by
  have inHand := valid.slab.balanced.other_held member
  have ran : Mm.Run c.mm (c.withHeap h').mm := .single (buddyFree_step c inHand returned)
  obtain ⟨h'', result, slab, -⟩ := (valid.slab.reorder (List.perm_cons_erase member)).giveBack
  rw [returned] at result
  cases result
  obtain ⟨free', valid'⟩ := valid.viaHeap ran slab
  exact ⟨free', _, valid'⟩

/-- The bytes that an owner may write lie in a frame or in a block that somebody holds. -/
theorem writable_caller (valid : Valid usable bitmapFrames free managed root s c) {region : Region}
    (held : c.Has region) : c.writable region ⊆ c.mm.callerBytes := by
  have hhdm : c.mm.buddy.gHhdm = c.hhdm := valid.mm.gHhdm
  have viaHandle {handle : Handle} (inHand : handle ∈ c.mm.live) :
      handle.bytes c.hhdm ⊆ c.mm.callerBytes := fun address inside =>
    .inr ⟨handle, inHand, by rwa [Buddy.Globals.nodeAt, hhdm]⟩
  cases region with
  | bitmap => exact Set.empty_subset _
  | tables => exact Set.empty_subset _
  | frame phys => exact fun address inside => .inl ⟨phys, held, inside⟩
  | block handle => exact viaHandle (valid.slab.balanced.other_held held)
  | object object =>
      obtain ⟨handle, inHand, -, inside⟩ := valid.slab.balanced.home held
      have slabHhdm : c.heap.slab.gHhdm = c.hhdm := valid.heap_hhdm
      rw [slabHhdm] at inside
      exact (valid.slab.balanced.bytes_subset_extent held).trans (inside.trans (viaHandle inHand))

theorem frame_owned (valid : Valid usable bitmapFrames free managed root s c) {phys : Word}
    (held : phys ∈ c.mm.handed) :
    c.bytes (.frame phys) = frameBytes c.hhdm {Pmm.frameNumber phys} ∧
      {Pmm.frameNumber phys} ⊆ c.mm.owners bitmapFrames free root s.lists .handed := by
  have inHanded : Pmm.frameNumber phys ∈ c.mm.handedFrames := List.mem_map_of_mem held
  have bounded := valid.mm.suitable.physical _ (valid.mm.owned.inside .handed inHanded)
  have whole : _ = frameBytes c.hhdm _ := page_eq_frameBytes (Nat.lt_trans bounded (by decide))
  rw [valid.mm.aligned phys held] at whole
  exact ⟨whole, Set.singleton_subset_iff.mpr inHanded⟩

theorem write (valid : Valid usable bitmapFrames free managed root s c) {region : Region}
    (held : c.Has region) {m' : Memory} (inside : Set.EqOn m' c.mem (c.writable region)ᶜ) :
    Valid usable bitmapFrames free managed root s (c.withHeap { c.heap with mem := m' }) := by
  have mm := valid.mm.write (eqOn_compl_mono inside (valid.writable_caller held))
  have slabHhdm : c.heap.slab.gHhdm = c.hhdm := valid.heap_hhdm
  cases region with
  | bitmap => exact valid.spared mm rfl rfl fun address _ => inside (Set.notMem_empty address)
  | tables => exact valid.spared mm rfl rfl fun address _ => inside (Set.notMem_empty address)
  | frame phys =>
      obtain ⟨whole, handed⟩ := valid.frame_owned held
      have apart := (valid.mm.managed_apart (by decide : Mm.Owner.handed ≠ .freeBlock)
        (by decide)).mono_right handed
      rw [Config.writable, whole] at inside
      exact valid.spared mm rfl rfl (frameBytes_kept inside apart)
  | block handle =>
      rw [Config.writable, Config.bytes, ← slabHhdm] at inside
      exact ⟨mm, valid.slab.balanced, (valid.slab.write_other held inside).1⟩
  | object object =>
      have live : Set.EqOn m' c.heap.mem (Slab.liveBytes c.objects)ᶜ :=
        eqOn_compl_mono inside fun address inObject => ⟨object, held, inObject⟩
      exact ⟨mm, Slab.Valid.write (c := ⟨c.heap, c.objects⟩) valid.slab live⟩

theorem live_caller (valid : Valid usable bitmapFrames free managed root s c) :
    Slab.liveBytes c.objects ⊆ c.mm.callerBytes := by
  intro address inLive
  obtain ⟨object, member, inObject⟩ := inLive
  have held : c.Has (.object object) := member
  exact valid.writable_caller held inObject

/-- Nobody owns what lies outside the usable frames: with the objects it may change freely. -/
theorem store (valid : Valid usable bitmapFrames free managed root s c) {m' : Memory}
    (inside : Set.EqOn m' c.mem (Slab.liveBytes c.objects ∪ (frameBytes c.hhdm usable)ᶜ)ᶜ) :
    Valid usable bitmapFrames free managed root s (c.withHeap { c.heap with mem := m' }) where
  mm := by
    have callers := valid.live_caller.trans valid.mm.callerBytes_frames
    have frames : Slab.liveBytes c.objects ∪ (frameBytes c.hhdm usable)ᶜ ⊆
        frameBytes c.hhdm ((c.mm.handedFrames ∪ c.mm.liveFrames) ∪ usableᶜ) :=
      Set.union_subset_union callers Set.Subset.rfl
    refine valid.mm.elsewhere (eqOn_compl_mono inside frames) fun owner notHanded notLive => ?_
    rw [Set.disjoint_union_right, Set.disjoint_union_right]
    exact ⟨⟨valid.mm.owned.disjoint notHanded, valid.mm.owned.disjoint notLive⟩,
      Set.disjoint_compl_right_iff_subset.mpr (valid.mm.owned.inside owner)⟩
  slab := by
    have balanced := valid.slab.balanced
    have hhdm : c.heap.slab.gHhdm = c.hhdm := valid.heap_hhdm
    have kept {addresses : Set Word} (managedOnly : addresses ⊆ frameBytes c.hhdm managed)
        (apart : ∀ object ∈ c.objects, Disjoint object.extent addresses) :
        Set.EqOn m' c.mem addresses := by
      refine inside.mono fun address member => ?_
      intro changed
      cases changed with
      | inl inLive =>
          obtain ⟨object, isLive, inObject⟩ := inLive
          exact Set.disjoint_left.mp (apart object isLive)
            (balanced.bytes_subset_extent isLive inObject) member
      | inr outside => exact outside (valid.mm.managed_usable (managedOnly member))
    refine ⟨balanced, valid.slab.encodes.write ?_ ?_⟩
    · refine kept (fun address book => ?_) fun object isLive => balanced.extent_books isLive
      obtain ⟨handle, inHand, -, inHandle⟩ := balanced.book_home book
      exact hhdm ▸ balanced.tiled.held_managed inHand inHandle
    · exact kept (hhdm ▸ balanced.tiled.links_managed) fun object isLive => balanced.extent_links isLive

theorem step (valid : Valid usable bitmapFrames free managed root s c) {actor : Actor}
    (stepped : Step actor c c') :
    ∃ free' s', Valid usable bitmapFrames free' managed root s' c' := by
  cases stepped with
  | pmmAlloc =>
      obtain ⟨free', mm⟩ := valid.mm.pmmAlloc
      exact ⟨free', s, valid.spared mm rfl rfl
        (frameBytes_kept valid.mm.pmmAlloc_frame valid.mm.managed_bitmap)⟩
  | pmmFree held =>
      obtain ⟨free', mm⟩ := valid.mm.pmmFree held
      exact ⟨free', s, valid.spared mm rfl rfl
        (frameBytes_kept (valid.mm.pmmFree_frame held) valid.mm.managed_bitmap)⟩
  | vmmMap virt phys flags =>
      obtain ⟨free', mm⟩ := valid.mm.vmmMap virt phys flags
      have apart := ((valid.mm.managed_bitmap.union_right valid.mm.managed_tables).union_right
        valid.mm.managed_free)
      exact ⟨free', s, valid.spared mm rfl rfl
        (frameBytes_kept (valid.mm.vmmMap_frame virt phys flags) apart)⟩
  | vmmUnmap virt =>
      exact ⟨free, s, valid.spared (valid.mm.vmmUnmap virt) rfl rfl
        (frameBytes_kept (valid.mm.vmmUnmap_frame virt) valid.mm.managed_tables)⟩
  | buddyAlloc order returned => exact valid.buddyAlloc order returned
  | buddyFree held returned => exact valid.buddyFree held returned
  | kmalloc inRange returned => exact valid.kmalloc inRange returned
  | kfree member returned => exact valid.kfree member returned
  | write region held inside => exact ⟨free, s, valid.write held inside⟩

theorem run (valid : Valid usable bitmapFrames free managed root s c) (ran : Run c c') :
    ∃ free' s', Valid usable bitmapFrames free' managed root s' c' := by
  induction ran with
  | refl => exact ⟨free, s, valid⟩
  | tail _ stepped ih =>
      obtain ⟨free', s', between⟩ := ih
      obtain ⟨actor, stepped⟩ := stepped
      exact between.step stepped

end Valid

end Kernel

end ScrapOS
