import ScrapOS.Slab.Runs

/-! What callers of the heap may rely on, over whole runs: live objects never overlap anything,
no call changes their contents, and `kfree` gives back what `kmalloc` took. -/

set_option autoImplicit false

namespace ScrapOS.Slab

open Buddy (Handle buddyMaxOrder linkBytes)

variable {managed : Set Nat} {others : List Handle} {c : Config} {s : Shape} {b : Buddy.Config}
  {lists : Buddy.Lists} {g : Globals}

/-! ## No overlap -/

/-- Where the live objects of a state lie: aligned, apart from each other, clear of every
header, free slot and free block, and each inside one block borrowed by the heap. -/
structure Separated (others : List Handle) (c : Config) (s : Shape) : Prop where
  aligned : ∀ object ∈ c.live, object.ptr.toNat % slabAlign.toNat = 0
  apart : c.live.Pairwise fun left right => Disjoint left.bytes right.bytes
  slabHeaders : ∀ object ∈ c.live, ∀ cls, cls < slabNumClasses → ∀ base ∈ s.slabs cls,
    Disjoint object.bytes (span base slabHeaderSize.toNat)
  freeSlots : ∀ object ∈ c.live, ∀ cls, cls < slabNumClasses → ∀ base ∈ s.slabs cls,
    ∀ slot ∈ s.frees base, Disjoint object.bytes (span slot (classSize cls).toNat)
  largeHeaders : ∀ object ∈ c.live, ∀ other ∈ c.live, ∀ block, other.origin = .large block →
    Disjoint object.bytes (span (block.1 + c.heap.slab.gHhdm) largeHeaderSize.toNat)
  freeBlocks : ∀ object ∈ c.live, ∀ o, o ≤ buddyMaxOrder → ∀ phys ∈ s.lists o,
    Disjoint object.bytes (span (phys + c.heap.slab.gHhdm) (4096 * 2 ^ o))
  inBlock : ∀ object ∈ c.live, ∃ handle ∈ c.heap.held, handle ∉ others ∧
    object.bytes ⊆ span (handle.1 + c.heap.slab.gHhdm) (4096 * 2 ^ handle.2)

theorem Valid.separated (valid : Valid managed others c.heap c.live s) : Separated others c s := by
  have balanced := valid.balanced
  have inside : ∀ {object}, object ∈ c.live → object.bytes ⊆ object.extent :=
    fun member => balanced.bytes_subset_extent member
  refine ⟨?_, ?_, ?_, ?_, ?_, ?_, ?_⟩
  · intro object member
    cases origin : object.origin with
    | slot cls =>
      have small := (balanced.class_small member origin).1
      obtain ⟨base, isSlab, inPage, -⟩ := balanced.slot_home member origin
      exact slot_aligned small (balanced.page_aligned small isSlab) inPage
    | large block =>
      have aligned := balanced.block_aligned member origin
      rw [(balanced.large_fits member origin).1, show slabAlign.toNat = 16 from rfl]
      bv_omega
  · refine balanced.extents_pairwise.imp_of_mem fun {left right} inLeft inRight apart => ?_
    exact apart.mono (inside inLeft) (inside inRight)
  · intro object member cls small base isSlab
    exact (balanced.extent_header member small isSlab).mono (inside member) (span_mono (by decide))
  · intro object member cls small base isSlab slot isFree
    exact (balanced.extent_free member small isSlab isFree).mono_left (inside member)
  · intro object member other otherMember block origin
    exact (balanced.extent_largeHeader member otherMember origin).mono_left (inside member)
  · intro object member o bounded phys onList
    exact (balanced.extent_freeBlock member bounded onList).mono_left (inside member)
  · intro object member
    obtain ⟨handle, inHand, notOther, within⟩ := balanced.home member
    exact ⟨handle, inHand, notOther, (inside member).trans within⟩

theorem kmalloc_never_overlaps (valid : Buddy.Valid managed b lists)
    (aligned : b.globals.gHhdm.toNat % 4096 = 0) (ran : Run (start b g) c) :
    ∃ s, Encodes c.heap c.live s ∧ Separated b.live c s := by
  obtain ⟨s, valid'⟩ := (start_valid valid aligned g).run ran
  exact ⟨s, valid'.encodes, valid'.separated⟩

theorem kmalloc_never_overlaps_smallHeap : ∃ c s, Run (start Buddy.oneBlock bootGlobals) c ∧
    c.live ≠ [] ∧ Encodes c.heap c.live s ∧ Separated [] c s := by
  obtain ⟨c, ran, objects⟩ := small_run
  obtain ⟨s, encodes, separated⟩ :=
    kmalloc_never_overlaps Buddy.oneBlock_initial.valid small_aligned ran
  refine ⟨c, s, ran, fun empty => ?_, encodes, separated⟩
  rw [empty] at objects
  cases objects

/-! ## Contents -/

theorem live_contents_kept (valid : Buddy.Valid managed b lists)
    (aligned : b.globals.gHhdm.toNat % 4096 = 0) (ran : Run (start b g) c) :
    (∀ size : Word, size.toNat + 16 ≤ 2 ^ 63 → ∃ ptr h', kmalloc c.heap size = some (ptr, h') ∧
      ∀ object ∈ c.live, Set.EqOn h'.mem c.heap.mem object.bytes) ∧
    (∀ object ∈ c.live, ∃ h', kfree c.heap object.ptr = some h' ∧
      ∀ other ∈ c.live.erase object, Set.EqOn h'.mem c.heap.mem other.bytes) ∧
    (∃ free, Buddy.WritesLinks ⟨c.heap.mem, c.heap.buddy, c.heap.held⟩ free) ∧
    ∀ b', Buddy.Run b b' → ∃ free, Buddy.WritesLinks b' free := by
  obtain ⟨s, valid'⟩ := (start_valid valid aligned g).run ran
  have inside : ∀ {object}, object ∈ c.live → object.bytes ⊆ object.extent :=
    fun member => valid'.balanced.bytes_subset_extent member
  refine ⟨?_, ?_, ⟨s.lists, valid'.buddy.writesLinks⟩, ?_⟩
  · intro size inRange
    have allocated := valid'.kmalloc inRange
    generalize kmalloc c.heap size = result at allocated
    cases allocated with
    | returned _ kept =>
      exact ⟨_, _, rfl, fun object member => (kept object member).mono (inside member)⟩
  · intro object member
    obtain ⟨h', s', returned, -, kept⟩ := valid'.kfree member
    exact ⟨h', returned, fun other present =>
      (kept other present).mono (inside (List.mem_of_mem_erase present))⟩
  · intro b' ran'
    obtain ⟨lists', -, valid''⟩ := valid.run ran'
    exact ⟨lists', valid''.writesLinks⟩

theorem live_contents_kept_smallHeap : ∃ c, Run (start Buddy.oneBlock bootGlobals) c ∧
    c.live ≠ [] ∧ ∀ object ∈ c.live, ∃ h', kfree c.heap object.ptr = some h' ∧
      ∀ other ∈ c.live.erase object, Set.EqOn h'.mem c.heap.mem other.bytes := by
  obtain ⟨c, ran, objects⟩ := small_run
  obtain ⟨-, kept, -⟩ := live_contents_kept Buddy.oneBlock_initial.valid small_aligned ran
  refine ⟨c, ran, fun empty => ?_, kept⟩
  rw [empty] at objects
  cases objects

/-! ## Giving back -/

/-- `kfree` of an object of a class puts its slot, once, on the free list of the slab it was
carved from, and changes nothing else in the books. -/
structure SlotReturned (c : Config) (s : Shape) (object : Object) (cls : Nat) : Prop where
  chosen : classFor object.size = some cls
  isSlab : pageBase object.ptr ∈ s.slabs cls
  carved : object.ptr ∈ slots cls (pageBase object.ptr)
  ofCache : cache c.heap.mem (pageBase object.ptr) = c.heap.slab.cacheAt cls
  once : (object.ptr :: s.frees (pageBase object.ptr)).Nodup
  returned : ∃ h', kfree c.heap object.ptr = some h' ∧ h'.buddy = c.heap.buddy ∧
    h'.held = c.heap.held ∧ Encodes h' (c.live.erase object) { s with
      frees := Function.update s.frees (pageBase object.ptr)
        (object.ptr :: s.frees (pageBase object.ptr)) }

/-- `kfree` of a large object calls `buddy_free` on the block that its `buddy_alloc` returned,
at the order it was called with. -/
structure BlockReturned (c : Config) (object : Object) (block : Handle) : Prop where
  tooLarge : classFor object.size = none
  ordered : orderForBytes (largeDataOff + object.size) = some block.2
  place : object.ptr = block.1 + c.heap.slab.gHhdm + largeDataOff
  inHand : block ∈ c.heap.held
  called : kfree c.heap object.ptr = c.heap.buddyFree block.1 block.2
  returned : ∃ h', c.heap.buddyFree block.1 block.2 = some h' ∧ h'.held = c.heap.held.erase block

/-- What `kfree` reads at the page base of a live object tells its origin. -/
structure Dispatched (c : Config) (s : Shape) (object : Object) : Prop where
  slabMark : magic c.heap.mem (pageBase object.ptr) = slabMagic ↔ ∃ cls, object.origin = .slot cls
  largeMark : magic c.heap.mem (pageBase object.ptr) = largeMagic ↔
    ∃ block, object.origin = .large block
  slot : ∀ cls, object.origin = .slot cls → SlotReturned c s object cls
  large : ∀ block, object.origin = .large block → BlockReturned c object block

theorem Valid.dispatched (valid : Valid managed others c.heap c.live s) {object : Object}
    (member : object ∈ c.live) : Dispatched c s object := by
  have served := valid.balanced.served object member
  cases origin : object.origin with
  | slot cls =>
    obtain ⟨base, result⟩ := valid.kfree_slot member origin
    have masked := result.masked
    subst masked
    have different : magic c.heap.mem (pageBase object.ptr) ≠ largeMagic := by
      rw [result.marked]
      decide
    have once := List.nodup_cons.mpr
      ⟨result.inUse, valid.balanced.frees_nodup result.small result.isSlab⟩
    rw [Object.Served, origin] at served
    refine ⟨?_, ?_, ?_, ?_⟩
    · simp [result.marked, origin]
    · simp [different, origin]
    · intro own isOwn
      rw [origin, Origin.slot.injEq] at isOwn
      subst isOwn
      exact ⟨served, result.isSlab, result.inPage, result.ofCache, once,
        _, result.result, rfl, rfl, result.valid.encodes⟩
    · intro block isLarge
      rw [origin] at isLarge
      cases isLarge
  | large block =>
    obtain ⟨h', result⟩ := valid.kfree_large member origin
    have different : magic c.heap.mem (pageBase object.ptr) ≠ slabMagic := by
      rw [result.marked]
      decide
    rw [Object.Served, origin] at served
    obtain ⟨tooLarge, -, ordered, place⟩ := served
    refine ⟨?_, ?_, ?_, ?_⟩
    · simp [different, origin]
    · simp [result.marked, origin]
    · intro cls isSlot
      rw [origin] at isSlot
      cases isSlot
    · intro other isOther
      rw [origin, Origin.large.injEq] at isOther
      subst isOther
      exact ⟨tooLarge, ordered, place, result.inHand, result.result, h', result.returned,
        result.held⟩

theorem kfree_returns_what_kmalloc_took (valid : Buddy.Valid managed b lists)
    (aligned : b.globals.gHhdm.toNat % 4096 = 0) (ran : Run (start b g) c) :
    ∃ s, Encodes c.heap c.live s ∧ ∀ object ∈ c.live, Dispatched c s object := by
  obtain ⟨s, valid'⟩ := (start_valid valid aligned g).run ran
  exact ⟨s, valid'.encodes, fun object member => valid'.dispatched member⟩

theorem kfree_returns_what_kmalloc_took_smallHeap :
    ∃ c s, Run (start Buddy.oneBlock bootGlobals) c ∧ c.live ≠ [] ∧
      ∀ object ∈ c.live, Dispatched c s object := by
  obtain ⟨c, ran, objects⟩ := small_run
  obtain ⟨s, -, dispatched⟩ :=
    kfree_returns_what_kmalloc_took Buddy.oneBlock_initial.valid small_aligned ran
  refine ⟨c, s, ran, fun empty => ?_, dispatched⟩
  rw [empty] at objects
  cases objects

end ScrapOS.Slab
