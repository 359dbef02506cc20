import ScrapOS.Slab.Ledger

/-! The regions of a heap with balanced books: every live object lies in one borrowed block,
clear of the other objects and of every byte that the allocator itself reads. -/

set_option autoImplicit false

namespace ScrapOS.Slab

open Buddy

/-- The bytes an object may take up: its whole slot, or its block after the header. -/
def Object.extent (object : Object) : Set Word :=
  match object.origin with
  | .slot cls => span object.ptr (classBytes cls)
  | .large block => span object.ptr (4096 * 2 ^ block.2 - 16)

/-- The bytes of the heap that `slab.c` keeps its books in. -/
inductive BookByte (hhdm : Word) (live : List Object) (s : Shape) (address : Word) : Prop where
  | header {cls : Nat} {base : Word} : cls < slabNumClasses → base ∈ s.slabs cls →
      address ∈ span base 40 → BookByte hhdm live s address
  | free {cls : Nat} {base slot : Word} : cls < slabNumClasses → base ∈ s.slabs cls →
      slot ∈ s.frees base → address ∈ span slot 8 → BookByte hhdm live s address
  | large {object : Object} {block : Handle} : object ∈ live → object.origin = .large block →
      address ∈ span (block.1 + hhdm) 16 → BookByte hhdm live s address

def bookBytes (hhdm : Word) (live : List Object) (s : Shape) : Set Word :=
  {address | BookByte hhdm live s address}

/-- The bytes that the callers own. -/
def liveBytes (live : List Object) : Set Word :=
  {address | ∃ object ∈ live, address ∈ object.bytes}

namespace Balanced

variable {managed : Set Nat} {hhdm : Word} {others held : List Handle} {live : List Object}
  {s : Shape} {cls : Nat} {base : Word} {object : Object}

theorem two_pow_order_pos (order : Nat) : 16 ≤ 4096 * 2 ^ order := by
  have positive := Nat.two_pow_pos order
  omega

theorem largeHeader_subset (hhdm : Word) (block : Handle) : span (block.1 + hhdm) 16 ⊆ block.bytes hhdm :=
  span_mono (two_pow_order_pos block.2)

section Facts

variable (balanced : Balanced managed hhdm others held live s)
include balanced

/-! ## Regions lie in their blocks -/

theorem bytes_subset_extent (member : object ∈ live) : object.bytes ⊆ object.extent := by
  rw [Object.bytes, Object.extent]
  cases origin : object.origin with
  | slot cls => exact span_mono (balanced.class_small member origin).2
  | large block =>
    have fits := (balanced.large_fits member origin).2
    exact span_mono (by omega)

theorem large_extent (member : object ∈ live) {block : Handle} (origin : object.origin = .large block) :
    object.extent ⊆ block.bytes hhdm ∧ Disjoint object.extent (span (block.1 + hhdm) 16) := by
  obtain ⟨place, fits⟩ := balanced.large_fits member origin
  have bounded := (balanced.tiled.heldAligned _ (balanced.block_held member origin)).1
  have size : 2 ^ block.2 ≤ 2 ^ buddyMaxOrder := Nat.pow_le_pow_right (by decide) bounded
  have small : 2 ^ buddyMaxOrder = 1024 := rfl
  rw [Object.extent, origin, place, Handle.bytes]
  dsimp only
  generalize 2 ^ block.2 = frames at *
  generalize block.1 + hhdm = header at *
  refine ⟨span_subset ?_, span_disjoint ?_ ?_⟩
  · bv_omega
  · bv_omega
  · bv_omega

theorem slot_extent (member : object ∈ live) (origin : object.origin = .slot cls) :
    ∃ base ∈ s.slabs cls, object.ptr ∈ slots cls base ∧ object.extent ⊆ span base 4096 := by
  obtain ⟨base, isSlab, inPage, -⟩ := balanced.slot_home member origin
  refine ⟨base, isSlab, inPage, ?_⟩
  rw [Object.extent, origin]
  exact slot_subset_page (balanced.class_small member origin).1 inPage

theorem home (member : object ∈ live) :
    ∃ handle ∈ held, handle ∉ others ∧ object.extent ⊆ handle.bytes hhdm := by
  cases origin : object.origin with
  | slot cls =>
    have small := (balanced.class_small member origin).1
    obtain ⟨base, isSlab, -, inside⟩ := balanced.slot_extent member origin
    refine ⟨_, balanced.page_held small isSlab, balanced.page_notMem_others small isSlab, ?_⟩
    rwa [pageHandle_bytes]
  | large block =>
    exact ⟨block, balanced.block_held member origin, balanced.block_notMem_others member origin,
      (balanced.large_extent member origin).1⟩

theorem free_slot (small : cls < slabNumClasses) (isSlab : base ∈ s.slabs cls) {slot : Word}
    (isFree : slot ∈ s.frees base) :
    slot ∈ slots cls base ∧ span slot (classBytes cls) ⊆ span base 4096 := by
  have inPage := balanced.threaded cls small base isSlab isFree
  exact ⟨inPage, slot_subset_page small inPage⟩

theorem apart_of_ne {handle other : Handle} {left right : Set Word} (inHand : handle ∈ held)
    (otherInHand : other ∈ held) (different : handle ≠ other) (inside : left ⊆ handle.bytes hhdm)
    (otherInside : right ⊆ other.bytes hhdm) : Disjoint left right :=
  (balanced.tiled.held_bytes_disjoint inHand otherInHand different).mono inside otherInside

theorem large_page (member : object ∈ live) {block : Handle} (origin : object.origin = .large block)
    (small : cls < slabNumClasses) (isSlab : base ∈ s.slabs cls) :
    Disjoint (block.bytes hhdm) (span base 4096) := by
  have apart : Disjoint (block.bytes hhdm) ((pageHandle hhdm base).bytes hhdm) :=
    balanced.tiled.held_bytes_disjoint (balanced.block_held member origin)
      (balanced.page_held small isSlab) (balanced.page_ne_block small isSlab member origin).symm
  rwa [pageHandle_bytes] at apart

/-! ## Objects are clear of the books -/

theorem extent_header (member : object ∈ live) (small : cls < slabNumClasses)
    (isSlab : base ∈ s.slabs cls) : Disjoint object.extent (span base 48) := by
  have inPage : span base 48 ⊆ span base 4096 := span_mono (by decide)
  cases origin : object.origin with
  | slot own =>
    have ownSmall := (balanced.class_small member origin).1
    obtain ⟨page, isPage, isSlot, inside⟩ := balanced.slot_extent member origin
    by_cases same : page = base
    · subst same
      rw [Object.extent, origin]
      exact slot_disjoint_header ownSmall isSlot
    · exact (balanced.pages_disjoint ownSmall isPage small isSlab same).mono inside inPage
  | large block =>
    exact (balanced.large_page member origin small isSlab).mono
      (balanced.large_extent member origin).1 inPage

theorem extent_free (member : object ∈ live) (small : cls < slabNumClasses)
    (isSlab : base ∈ s.slabs cls) {slot : Word} (isFree : slot ∈ s.frees base) :
    Disjoint object.extent (span slot (classBytes cls)) := by
  obtain ⟨slotInPage, slotInside⟩ := balanced.free_slot small isSlab isFree
  cases origin : object.origin with
  | slot own =>
    have ownSmall := (balanced.class_small member origin).1
    obtain ⟨page, isPage, isSlot, notFree⟩ := balanced.slot_home member origin
    by_cases same : page = base
    · subst same
      obtain rfl := balanced.class_unique ownSmall isPage small isSlab
      rw [Object.extent, origin]
      exact slot_disjoint_slot ownSmall isSlot slotInPage
        fun equal => notFree page isPage (equal ▸ isFree)
    · rw [Object.extent, origin]
      exact (balanced.pages_disjoint ownSmall isPage small isSlab same).mono
        (slot_subset_page ownSmall isSlot) slotInside
  | large block =>
    exact (balanced.large_page member origin small isSlab).mono
      (balanced.large_extent member origin).1 slotInside

theorem extent_largeHeader (member : object ∈ live) {other : Object} (otherMember : other ∈ live)
    {block : Handle} (isLarge : other.origin = .large block) :
    Disjoint object.extent (span (block.1 + hhdm) 16) := by
  cases origin : object.origin with
  | slot cls =>
    have small := (balanced.class_small member origin).1
    obtain ⟨base, isSlab, -, inside⟩ := balanced.slot_extent member origin
    exact (balanced.large_page otherMember isLarge small isSlab).symm.mono inside
      (largeHeader_subset hhdm block)
  | large own =>
    obtain ⟨inside, pastHeader⟩ := balanced.large_extent member origin
    by_cases same : own = block
    · subst same
      exact pastHeader
    · exact balanced.apart_of_ne (balanced.block_held member origin)
        (balanced.block_held otherMember isLarge) same inside (largeHeader_subset hhdm block)

theorem extent_freeBlock (member : object ∈ live) {o : Nat} {phys : Word}
    (bounded : o ≤ buddyMaxOrder) (onList : phys ∈ s.lists o) :
    Disjoint object.extent (Handle.bytes hhdm (phys, o)) := by
  obtain ⟨handle, inHand, -, inside⟩ := balanced.home member
  exact (balanced.tiled.held_free_bytes_disjoint inHand bounded onList).mono_left inside

theorem extent_links (member : object ∈ live) :
    Disjoint object.extent (linkBytes hhdm s.lists) := by
  obtain ⟨handle, inHand, -, inside⟩ := balanced.home member
  exact (balanced.tiled.held_links_disjoint inHand).mono_left inside

/-- No byte of a live object belongs to the allocator's books. -/
theorem extent_books (member : object ∈ live) :
    Disjoint object.extent (bookBytes hhdm live s) := by
  refine Set.disjoint_left.mpr fun address inside book => ?_
  cases book with
  | header small isSlab inHeader =>
    exact Set.disjoint_left.mp (balanced.extent_header member small isSlab) inside
      (span_mono (by decide) inHeader)
  | free small isSlab isFree inSlot =>
    have sizes := class_bounds small
    exact Set.disjoint_left.mp (balanced.extent_free member small isSlab isFree) inside
      (span_mono (by omega) inSlot)
  | large otherMember isLarge inHeader =>
    exact Set.disjoint_left.mp (balanced.extent_largeHeader member otherMember isLarge) inside
      inHeader

theorem page_links (small : cls < slabNumClasses) (isSlab : base ∈ s.slabs cls) :
    Disjoint (span base 4096) (linkBytes hhdm s.lists) := by
  have apart : Disjoint ((pageHandle hhdm base).bytes hhdm) (linkBytes hhdm s.lists) :=
    balanced.tiled.held_links_disjoint (balanced.page_held small isSlab)
  rwa [pageHandle_bytes] at apart

theorem book_home {address : Word} (book : address ∈ bookBytes hhdm live s) :
    ∃ handle ∈ held, handle ∉ others ∧ address ∈ handle.bytes hhdm := by
  have inSlab : ∀ {cls base}, cls < slabNumClasses → base ∈ s.slabs cls → address ∈ span base 4096 →
      ∃ handle ∈ held, handle ∉ others ∧ address ∈ handle.bytes hhdm := by
    intro cls base small isSlab inPage
    refine ⟨_, balanced.page_held small isSlab, balanced.page_notMem_others small isSlab, ?_⟩
    rwa [pageHandle_bytes]
  cases book with
  | header small isSlab inHeader => exact inSlab small isSlab (span_mono (by decide) inHeader)
  | free small isSlab isFree inSlot =>
    have sizes := class_bounds small
    exact inSlab small isSlab
      ((balanced.free_slot small isSlab isFree).2 (span_mono (by omega) inSlot))
  | @large object block inLive isLarge inHeader =>
    exact ⟨block, balanced.block_held inLive isLarge, balanced.block_notMem_others inLive isLarge,
      largeHeader_subset hhdm block inHeader⟩

theorem links_books : Disjoint (linkBytes hhdm s.lists) (bookBytes hhdm live s) := by
  refine Set.disjoint_left.mpr fun address inLinks book => ?_
  obtain ⟨handle, inHand, -, inside⟩ := balanced.book_home book
  exact Set.disjoint_left.mp (balanced.tiled.held_links_disjoint inHand) inside inLinks

/-! ## Objects are clear of each other -/

theorem extents_disjoint {other : Object} (member : object ∈ live) (otherMember : other ∈ live)
    (slotsApart : ∀ cls, object.origin = .slot cls → other.origin = .slot cls →
      object.ptr ≠ other.ptr)
    (blocksApart : ∀ block, object.origin = .large block → other.origin ≠ .large block) :
    Disjoint object.extent other.extent := by
  cases origin : object.origin with
  | slot cls =>
    have small := (balanced.class_small member origin).1
    obtain ⟨base, isSlab, isSlot, inside⟩ := balanced.slot_extent member origin
    cases otherOrigin : other.origin with
    | slot otherCls =>
      have otherSmall := (balanced.class_small otherMember otherOrigin).1
      obtain ⟨otherBase, otherIsSlab, otherIsSlot, otherInside⟩ :=
        balanced.slot_extent otherMember otherOrigin
      by_cases same : base = otherBase
      · subst same
        obtain rfl := balanced.class_unique small isSlab otherSmall otherIsSlab
        rw [Object.extent, origin, Object.extent, otherOrigin]
        exact slot_disjoint_slot small isSlot otherIsSlot (slotsApart cls origin otherOrigin)
      · exact (balanced.pages_disjoint small isSlab otherSmall otherIsSlab same).mono inside
          otherInside
    | large block =>
      exact (balanced.large_page otherMember otherOrigin small isSlab).symm.mono inside
        (balanced.large_extent otherMember otherOrigin).1
  | large block =>
    have inside := (balanced.large_extent member origin).1
    cases otherOrigin : other.origin with
    | slot otherCls =>
      have otherSmall := (balanced.class_small otherMember otherOrigin).1
      obtain ⟨otherBase, otherIsSlab, -, otherInside⟩ :=
        balanced.slot_extent otherMember otherOrigin
      exact (balanced.large_page member origin otherSmall otherIsSlab).mono inside otherInside
    | large otherBlock =>
      refine balanced.apart_of_ne (balanced.block_held member origin)
        (balanced.block_held otherMember otherOrigin) ?_ inside
        (balanced.large_extent otherMember otherOrigin).1
      exact fun same => blocksApart block origin (same ▸ otherOrigin)

theorem extents_pairwise :
    live.Pairwise fun left right => Disjoint left.extent right.extent := by
  refine List.pairwise_iff_forall_sublist.mpr fun {left right} pair => ?_
  have members := pair.subset
  refine balanced.extents_disjoint (members (by simp)) (members (by simp)) ?_ ?_
  · intro cls leftOrigin rightOrigin
    have once := List.Nodup.of_append_right
      (balanced.slots_once (balanced.class_small (members (by simp)) leftOrigin).1)
    have both := once.sublist (pair.filterMap (Object.slotOf cls))
    rw [List.filterMap_cons_some (Object.slotOf_eq_some.mpr ⟨leftOrigin, rfl⟩),
      List.filterMap_cons_some (Object.slotOf_eq_some.mpr ⟨rightOrigin, rfl⟩)] at both
    simpa using both
  · intro block leftOrigin rightOrigin
    have once := List.Nodup.of_append_right (List.Nodup.of_append_left balanced.nodup)
    have both := once.sublist (pair.filterMap Object.block)
    rw [List.filterMap_cons_some (Object.block_eq_some.mpr leftOrigin),
      List.filterMap_cons_some (Object.block_eq_some.mpr rightOrigin)] at both
    simp at both

/-- The other objects are clear of the whole extent of a live one. -/
theorem extent_erase {other : Object} (member : object ∈ live)
    (otherMember : other ∈ live.erase object) : Disjoint other.extent object.extent := by
  have symmetric : ∀ {left right : Object}, Disjoint left.extent right.extent →
      Disjoint right.extent left.extent := fun apart => apart.symm
  have pairs := (List.perm_cons_erase member).pairwise balanced.extents_pairwise symmetric
  exact ((List.pairwise_cons.mp pairs).1 other otherMember).symm

/-! ## Blocks of others -/

theorem other_books {handle : Handle} (member : handle ∈ others) :
    Disjoint (handle.bytes hhdm) (bookBytes hhdm live s) := by
  refine Set.disjoint_left.mpr fun address inside book => ?_
  obtain ⟨home, inHand, notOther, inHome⟩ := balanced.book_home book
  exact Set.disjoint_left.mp (balanced.tiled.held_bytes_disjoint (balanced.other_held member) inHand
    fun same => notOther (same ▸ member)) inside inHome

theorem other_extent {handle : Handle} (member : handle ∈ others) (inLive : object ∈ live) :
    Disjoint (handle.bytes hhdm) object.extent := by
  obtain ⟨home, inHand, notOther, inside⟩ := balanced.home inLive
  exact (balanced.tiled.held_bytes_disjoint (balanced.other_held member) inHand
    fun same => notOther (same ▸ member)).mono_right inside

end Facts

end Balanced

end ScrapOS.Slab
