import ScrapOS.Slab.Requests

/-! How much room a returned pointer has: the storage that a call of `kmalloc` reserves
against the bytes it was asked for, and against what `kmalloc_usable_size` answers. -/

set_option autoImplicit false

namespace ScrapOS.Slab

open Buddy (Handle buddyMaxOrder)

/-- The storage of an object: where it starts and how many bytes it has. -/
def Object.storage (hhdm : Word) (object : Object) : Word × Nat :=
  match object.origin with
  | .slot cls => (object.ptr, classBytes cls)
  | .large block => (block.1 + hhdm, 4096 * 2 ^ block.2)

/-- The storage of an object was reserved for it: a slot of a slab of the smallest class that
fits, which is on no free list, or a borrowed block that begins with its header. -/
def Object.Reserved (others : List Handle) (h : Heap) (s : Shape) (object : Object) : Prop :=
  match object.origin with
  | .slot cls => IsLeast {cls | cls < slabNumClasses ∧ object.size.toNat ≤ classBytes cls} cls ∧
      ∃ base ∈ s.slabs cls, object.ptr ∈ slots cls base ∧ object.ptr ∉ s.frees base
  | .large block => 2048 < object.size.toNat ∧ block ∈ h.held ∧ block ∉ others ∧
      object.ptr = block.1 + h.slab.gHhdm + largeDataOff

/-- The bytes of an object lie in its storage, and none of their addresses wraps. -/
structure Object.Inside (hhdm : Word) (object : Object) : Prop where
  first : (object.storage hhdm).1.toNat ≤ object.ptr.toNat
  last : object.ptr.toNat + object.size.toNat ≤
    (object.storage hhdm).1.toNat + (object.storage hhdm).2
  unwrapped : (object.storage hhdm).1.toNat + (object.storage hhdm).2 ≤ 2 ^ 64

section Sizes

variable {managed : Set Nat} {others : List Handle} {c : Config} {h : Heap} {live : List Object}
  {s : Shape} {b : Buddy.Config} {lists : Buddy.Lists} {g : Globals} {cls : Nat} {size : Word}
  {object : Object}

/-! ## Live objects -/

theorem Valid.reserved (valid : Valid managed others h live s) (member : object ∈ live) :
    object.Reserved others h s := by
  have served := valid.balanced.served object member
  cases origin : object.origin with
  | slot cls =>
    rw [Object.Served, origin] at served
    obtain ⟨base, isSlab, inPage, notFree⟩ := valid.balanced.slot_home member origin
    rw [Object.Reserved, origin]
    exact ⟨classFor_eq_some_iff.mp served, base, isSlab, inPage, notFree base isSlab⟩
  | large block =>
    rw [Object.Served, origin] at served
    obtain ⟨large, -, -, place⟩ := served
    rw [Object.Reserved, origin]
    exact ⟨classFor_eq_none_iff.mp large, valid.balanced.block_held member origin,
      valid.balanced.block_notMem_others member origin, place⟩

theorem Valid.inside (valid : Valid managed others h live s) (member : object ∈ live) :
    object.Inside h.slab.gHhdm := by
  cases origin : object.origin with
  | slot cls =>
    obtain ⟨small, fits⟩ := valid.balanced.class_small member origin
    obtain ⟨base, isSlab, inPage, -⟩ := valid.balanced.slot_home member origin
    have distance := slot_distance small inPage
    have ends := (valid.balanced.held_end_le (valid.balanced.page_held small isSlab)).2
    rw [pageHandle, BitVec.sub_add_cancel] at ends
    have storage : object.storage h.slab.gHhdm = (object.ptr, classBytes cls) := by
      rw [Object.storage, origin]
    refine ⟨?_, ?_, ?_⟩
    · rw [storage]
    · rw [storage]
      exact Nat.add_le_add_left fits _
    · rw [storage]
      dsimp only
      bv_omega
  | large block =>
    obtain ⟨place, fits⟩ := valid.balanced.large_fits member origin
    obtain ⟨-, ends⟩ := valid.balanced.held_end_le (valid.balanced.block_held member origin)
    have storage : object.storage h.slab.gHhdm = (block.1 + h.slab.gHhdm, 4096 * 2 ^ block.2) := by
      rw [Object.storage, origin]
    have first : object.ptr.toNat = (block.1 + h.slab.gHhdm).toNat + 16 := by
      rw [place]
      have room := Balanced.two_pow_order_pos block.2
      have positive := Nat.two_pow_pos block.2
      generalize block.1 + h.slab.gHhdm = base at *
      generalize 2 ^ block.2 = frames at *
      bv_omega
    refine ⟨?_, ?_, ?_⟩
    · rw [storage, first]
      exact Nat.le_add_right ..
    · rw [storage, first]
      dsimp only
      omega
    · rw [storage]
      exact ends

/-! ## Undersized blocks -/

/-- A call that returns a pointer other than `NULL` has reserved all the bytes it was asked for. -/
def NeverUndersized (others : List Handle) (c : Config) (size : Word) : Prop :=
  ∀ ptr h', kmalloc c.heap size = some (ptr, h') → ptr ≠ 0 →
    ∃ s, Encodes h' (c.heap.serve c.live (granted size) ptr) s ∧
      Object.Reserved others h' s ⟨ptr, size, c.heap.origin size⟩ ∧
      Object.Inside h'.slab.gHhdm ⟨ptr, size, c.heap.origin size⟩

theorem Valid.neverUndersized (valid : Valid managed others c.heap c.live s)
    (unwrapped : size.toNat + 16 < 2 ^ 64) : NeverUndersized others c size := by
  intro ptr h' returned nonzero
  have same : granted size = size := if_pos unwrapped
  have inRange := granted_le (size_le_of_kmalloc returned)
  rw [same] at inRange ⊢
  have allocated := valid.kmalloc inRange
  rw [returned] at allocated
  cases allocated with
  | returned valid' kept =>
    have member : (⟨ptr, size, c.heap.origin size⟩ : Object) ∈ c.heap.serve c.live size ptr := by
      rw [Heap.serve, if_neg nonzero]
      exact List.mem_cons_self
    exact ⟨_, valid'.encodes, valid'.reserved member, valid'.inside member⟩

/-- A request that is larger than every block cannot be satisfied. -/
theorem exhausted_huge {bytes : Nat} (huge : 4096 * 2 ^ buddyMaxOrder < bytes + 16) :
    Exhausted s bytes := by
  have top : 4096 * 2 ^ buddyMaxOrder = 4194304 := by decide
  refine .inr ⟨by omega, fun k least => .inl ?_⟩
  by_contra within
  have enough : bytes + 16 ≤ 4096 * 2 ^ k := least.1
  have bound : 4096 * 2 ^ k ≤ 4096 * 2 ^ buddyMaxOrder :=
    Nat.mul_le_mul_left _ (Nat.pow_le_pow_right (by decide) (Nat.not_lt.mp within))
  omega

/-- A request whose sum with the header wraps is served with one page, if there is one. -/
theorem Valid.kmalloc_wrapped (valid : Valid managed others h live s)
    (wraps : 2 ^ 64 ≤ size.toNat + 16) :
    (s.Drained 0 ∧ Slab.kmalloc h size = some (0, h)) ∨
      (¬ s.Drained 0 ∧ ∃ ptr h', Slab.kmalloc h size = some (ptr, h') ∧ ptr ≠ 0) := by
  have page : granted size = 4080 := if_neg (by omega)
  have least : IsLeast {k | (4080 : Word).toNat + 16 ≤ 4096 * 2 ^ k} 0 :=
    ⟨by decide, fun _ _ => Nat.zero_le _⟩
  rw [← kmalloc_granted, page, ← exhausted_large (by decide) least]
  exact valid.kmalloc_refuses (by decide) (by decide)

theorem origin_wrapped (wraps : 2 ^ 64 ≤ size.toNat + 16) :
    h.origin size = .large ((Buddy.buddyAlloc h.mem h.buddy 0).1, 0) := by
  have sum := largeBytes_toNat size
  have large : classFor size = none := classFor_eq_none_iff.mpr (by omega)
  have page : orderForBytes (largeDataOff + size) = some 0 := orderForBytes_page (by omega)
  rw [Heap.origin, large, page]
  rfl

theorem not_inside_wrapped {hhdm ptr : Word} (wraps : 2 ^ 64 ≤ size.toNat + 16) :
    ¬ Object.Inside hhdm ⟨ptr, size, h.origin size⟩ := by
  rw [origin_wrapped wraps]
  rintro ⟨first, last, -⟩
  simp only [Object.storage] at first last
  omega

theorem Valid.neverUndersized_iff (valid : Valid managed others c.heap c.live s) :
    NeverUndersized others c size ↔ size.toNat + 16 < 2 ^ 64 ∨ s.Drained 0 := by
  by_cases unwrapped : size.toNat + 16 < 2 ^ 64
  · exact ⟨fun _ => .inl unwrapped, fun _ => valid.neverUndersized unwrapped⟩
  · have wraps := Nat.not_lt.mp unwrapped
    rcases valid.kmalloc_wrapped wraps with ⟨empty, refused⟩ | ⟨room, ptr, h', served, nonzero⟩
    · refine ⟨fun _ => .inr empty, fun _ ptr h' returned nonzero => ?_⟩
      rw [refused] at returned
      cases returned
      exact absurd rfl nonzero
    · constructor
      · intro sized
        obtain ⟨s', -, -, inside⟩ := sized ptr h' served nonzero
        exact absurd inside (not_inside_wrapped wraps)
      · rintro (unwrapped' | empty)
        · exact absurd unwrapped' unwrapped
        · exact absurd empty room

/-- No block is undersized but where the sum of header and size wraps; and there, as where the
sum is more than half the address space, a request that cannot be satisfied gets no `NULL`. -/
theorem kmalloc_never_undersized_iff (valid : Buddy.Valid managed b lists)
    (aligned : b.globals.gHhdm.toNat % 4096 = 0) (called : Calls (start b g) c) :
    ∃ s, Encodes c.heap c.live s ∧ ∀ size : Word, 1 ≤ size.toNat →
      (NeverUndersized b.live c size ↔ size.toNat + 16 < 2 ^ 64 ∨ s.Drained 0) ∧
      (NeverUndersized b.live c size ∧
          (Exhausted s size.toNat → kmalloc c.heap size = some (0, c.heap)) ↔
        size.toNat + 16 ≤ 2 ^ 63 ∨ 2 ^ 64 ≤ size.toNat + 16 ∧ s.Drained 0) := by
  obtain ⟨s, valid'⟩ := (start_valid valid aligned g).run (calls_iff_run.mp called)
  refine ⟨s, valid'.encodes, fun size positive => ⟨valid'.neverUndersized_iff, ?_⟩⟩
  have nonzero : size ≠ 0 := by bv_omega
  rw [valid'.neverUndersized_iff]
  by_cases inRange : size.toNat + 16 ≤ 2 ^ 63
  · refine ⟨fun _ => .inl inRange, fun _ => ⟨.inl (by omega), fun exhausted => ?_⟩⟩
    rcases valid'.kmalloc_refuses nonzero inRange with ⟨-, refused⟩ | ⟨available, -⟩
    · exact refused
    · exact absurd exhausted available
  · have top : 4096 * 2 ^ buddyMaxOrder = 4194304 := by decide
    have exhausted : Exhausted s size.toNat := exhausted_huge (by omega)
    by_cases unwrapped : size.toNat + 16 < 2 ^ 64
    · constructor
      · rintro ⟨-, refuses⟩
        have stuck := kmalloc_stuck c.heap (Nat.not_le.mp inRange) unwrapped
        rw [refuses exhausted] at stuck
        cases stuck
      · rintro (low | ⟨high, -⟩)
        · exact absurd low inRange
        · omega
    · constructor
      · rintro ⟨low | empty, -⟩
        · exact absurd low unwrapped
        · exact .inr ⟨Nat.not_lt.mp unwrapped, empty⟩
      · rintro (low | ⟨wraps, empty⟩)
        · exact absurd low inRange
        · refine ⟨.inr empty, fun _ => ?_⟩
          rcases valid'.kmalloc_wrapped wraps with ⟨-, refused⟩ | ⟨room, -⟩
          · exact refused
          · exact absurd empty room

theorem kmalloc_never_undersized_iff_smallHeap :
    NeverUndersized [] (start Buddy.oneBlock bootGlobals) 5000 := by
  obtain ⟨s, -, sized⟩ := kmalloc_never_undersized_iff Buddy.oneBlock_initial.valid small_aligned
    (.refl : Calls (start Buddy.oneBlock bootGlobals) _)
  exact (sized 5000 (by decide)).1.mpr (.inl (by decide))

/-- The largest request gets one page of a heap of four megabytes. -/
theorem kmalloc_undersized_smallHeap :
    ¬ ∀ c, Calls (start Buddy.oneBlock bootGlobals) c → ∀ size : Word, 1 ≤ size.toNat →
      NeverUndersized [] c size := by
  intro sized
  have served : (kmalloc (start Buddy.oneBlock bootGlobals).heap 0xffffffffffffffff).map (·.1) =
      some 0xffff800000400010 := by decide +kernel
  obtain ⟨⟨ptr, h'⟩, returned, isPage⟩ := Option.map_eq_some_iff.mp served
  dsimp only at isPage
  subst isPage
  obtain ⟨s, -, -, inside⟩ := sized _ .refl 0xffffffffffffffff (by decide) _ _ returned (by decide)
  exact not_inside_wrapped (by decide) inside

/-! ## Usable sizes -/

theorem Valid.usable_slot (valid : Valid managed others h live s) (member : object ∈ live)
    (origin : object.origin = .slot cls) :
    (kmallocUsableSize h object.ptr).toNat = classBytes cls := by
  obtain ⟨base, returned⟩ := valid.kfree_slot member origin
  have aligned := valid.balanced.page_aligned returned.small returned.isSlab
  have nonzero := slot_ne_zero returned.small aligned returned.inPage
  rw [kmallocUsableSize, if_neg nonzero]
  dsimp only
  rw [returned.masked, if_pos returned.marked, returned.ofCache,
    cacheIndex_cacheAt h.slab returned.small, (valid.encodes.caches cls returned.small).objSize,
    classBytes]

theorem Valid.usable_large (valid : Valid managed others h live s) (member : object ∈ live)
    {block : Handle} (origin : object.origin = .large block) :
    (kmallocUsableSize h object.ptr).toNat = 4096 * 2 ^ block.2 := by
  obtain ⟨h', given⟩ := valid.kfree_large member origin
  have bounded := (valid.balanced.tiled.heldAligned _ given.inHand).1
  have nonzero : object.ptr ≠ 0 := by
    have first := (valid.inside member).first
    have nonnull := (valid.balanced.held_end_le given.inHand).1
    simp only [Object.storage, origin] at first
    bv_omega
  have notSlab : magic h.mem (pageBase object.ptr) ≠ slabMagic := by
    rw [given.marked]
    decide
  rw [kmallocUsableSize, if_neg nonzero]
  dsimp only
  rw [if_neg notSlab, if_pos given.marked, given.ordered]
  exact pageShift_toNat (Nat.lt_of_le_of_lt bounded (by decide))

/-- The first bytes of an object are clear of every other allocation, of all headers, of the
free slots and of the free blocks. -/
structure Clear (others : List Handle) (c : Config) (s : Shape) (object : Object) (bytes : Nat) :
    Prop where
  objects : ∀ other ∈ c.live.erase object, Disjoint (span object.ptr bytes) other.extent
  otherBlocks : ∀ handle ∈ others, Disjoint (span object.ptr bytes)
    (handle.bytes c.heap.slab.gHhdm)
  slabHeaders : ∀ cls, cls < slabNumClasses → ∀ base ∈ s.slabs cls,
    Disjoint (span object.ptr bytes) (span base slabHeaderSize.toNat)
  freeSlots : ∀ cls, cls < slabNumClasses → ∀ base ∈ s.slabs cls, ∀ slot ∈ s.frees base,
    Disjoint (span object.ptr bytes) (span slot (classBytes cls))
  largeHeaders : ∀ other ∈ c.live, ∀ block, other.origin = .large block →
    Disjoint (span object.ptr bytes) (span (block.1 + c.heap.slab.gHhdm) largeHeaderSize.toNat)
  freeBlocks : ∀ o, o ≤ buddyMaxOrder → ∀ phys ∈ s.lists o,
    Disjoint (span object.ptr bytes) (span (phys + c.heap.slab.gHhdm) (4096 * 2 ^ o))

theorem Valid.clear (valid : Valid managed others c.heap c.live s) (member : object ∈ c.live)
    {bytes : Nat} (within : span object.ptr bytes ⊆ object.extent) :
    Clear others c s object bytes := by
  have balanced := valid.balanced
  refine ⟨?_, ?_, ?_, ?_, ?_, ?_⟩
  · intro other otherMember
    exact (balanced.extent_erase member otherMember).symm.mono_left within
  · intro handle inOthers
    exact (balanced.other_extent inOthers member).symm.mono_left within
  · intro cls small base isSlab
    exact (balanced.extent_header member small isSlab).mono within (span_mono (by decide))
  · intro cls small base isSlab slot isFree
    exact (balanced.extent_free member small isSlab isFree).mono_left within
  · intro other otherMember block origin
    exact (balanced.extent_largeHeader member otherMember origin).mono_left within
  · intro o bounded phys onList
    exact (balanced.extent_freeBlock member bounded onList).mono_left within

/-- The usable size of a live object against its storage. A large object begins after the
header of its block, while its usable size is that of the whole block. -/
structure UsableSize (others : List Handle) (c : Config) (s : Shape) (object : Object) : Prop where
  enough : object.size.toNat ≤ (kmallocUsableSize c.heap object.ptr).toNat
  reserved : object.Reserved others c.heap s
  whole : (kmallocUsableSize c.heap object.ptr).toNat = (object.storage c.heap.slab.gHhdm).2
  slot : object.size.toNat ≤ 2048 → (object.storage c.heap.slab.gHhdm).1 = object.ptr ∧
    Clear others c s object (kmallocUsableSize c.heap object.ptr).toNat
  large : 2048 < object.size.toNat →
    (object.storage c.heap.slab.gHhdm).1 + largeHeaderSize = object.ptr ∧
      Clear others c s object
        ((kmallocUsableSize c.heap object.ptr).toNat - largeHeaderSize.toNat)
  inStorage : span object.ptr (kmallocUsableSize c.heap object.ptr).toNat ⊆
      span (object.storage c.heap.slab.gHhdm).1 (object.storage c.heap.slab.gHhdm).2 ↔
    object.size.toNat ≤ 2048

theorem Valid.usableSize (valid : Valid managed others c.heap c.live s) (member : object ∈ c.live) :
    UsableSize others c s object := by
  have reserved := valid.reserved member
  cases origin : object.origin with
  | slot cls =>
    obtain ⟨small, fits⟩ := valid.balanced.class_small member origin
    have usable := valid.usable_slot member origin
    have sizes := class_bounds small
    have storage : object.storage c.heap.slab.gHhdm = (object.ptr, classBytes cls) := by
      rw [Object.storage, origin]
    have extent : object.extent = span object.ptr (classBytes cls) := by
      rw [Object.extent, origin]
    refine ⟨usable.symm ▸ fits, reserved, ?_, ?_, ?_, ?_⟩
    · rw [usable, storage]
    · intro _
      rw [storage, usable]
      exact ⟨rfl, valid.clear member extent.ge⟩
    · intro large
      omega
    · rw [usable, storage]
      exact ⟨fun _ => by omega, fun _ => subset_rfl⟩
  | large block =>
    obtain ⟨place, fits⟩ := valid.balanced.large_fits member origin
    have bounded := (valid.balanced.tiled.heldAligned _ (valid.balanced.block_held member origin)).1
    have usable := valid.usable_large member origin
    have isLarge : 2048 < object.size.toNat := by
      rw [Object.Reserved, origin] at reserved
      exact reserved.1
    have storage : object.storage c.heap.slab.gHhdm =
        (block.1 + c.heap.slab.gHhdm, 4096 * 2 ^ block.2) := by
      rw [Object.storage, origin]
    have extent : object.extent = span object.ptr (4096 * 2 ^ block.2 - 16) := by
      rw [Object.extent, origin]
    refine ⟨by omega, reserved, ?_, ?_, ?_, ?_⟩
    · rw [usable, storage]
    · intro small
      omega
    · intro _
      rw [storage, usable]
      exact ⟨place.symm, valid.clear member extent.ge⟩
    · rw [usable, storage]
      refine ⟨fun inside => ?_, fun small => by omega⟩
      -- The last byte of the range is sixteen bytes past the end of the block.
      have small : 2 ^ block.2 ≤ 2 ^ buddyMaxOrder := Nat.pow_le_pow_right (by decide) bounded
      have positive := Nat.two_pow_pos block.2
      have top : 2 ^ buddyMaxOrder = 1024 := rfl
      generalize 2 ^ block.2 = frames at *
      have last := inside (show object.ptr + BitVec.ofNat 64 (4096 * frames - 1) ∈ _ from
        mem_span.mpr (by bv_omega))
      rw [mem_span, place] at last
      bv_omega

/-- The usable size covers the request. It is the size of the slot, or of the whole block of a
large object, whose header comes out of it. -/
theorem kmalloc_usable_size_spec (valid : Buddy.Valid managed b lists)
    (aligned : b.globals.gHhdm.toNat % 4096 = 0) (called : Calls (start b g) c) :
    ∃ s, Encodes c.heap c.live s ∧ ∀ object ∈ c.live, UsableSize b.live c s object := by
  obtain ⟨s, valid'⟩ := (start_valid valid aligned g).run (calls_iff_run.mp called)
  exact ⟨s, valid'.encodes, fun object member => valid'.usableSize member⟩

theorem kmalloc_usable_size_spec_smallHeap : ∃ c s, Calls (start Buddy.oneBlock bootGlobals) c ∧
    c.live ≠ [] ∧ ∀ object ∈ c.live, UsableSize [] c s object := by
  obtain ⟨c, ran, objects⟩ := small_run
  obtain ⟨s, -, usable⟩ := kmalloc_usable_size_spec Buddy.oneBlock_initial.valid small_aligned
    (calls_iff_run.mpr ran)
  refine ⟨c, s, calls_iff_run.mpr ran, fun empty => ?_, usable⟩
  rw [empty] at objects
  cases objects

/-- An object of 5000 bytes may use 8192, and these end sixteen bytes past its block. -/
theorem usable_size_outside_smallHeap :
    ¬ ∀ c, Calls (start Buddy.oneBlock bootGlobals) c → ∀ object ∈ c.live,
      object.size.toNat ≤ (kmallocUsableSize c.heap object.ptr).toNat ∧
      span object.ptr (kmallocUsableSize c.heap object.ptr).toNat ⊆
        span (object.storage c.heap.slab.gHhdm).1 (object.storage c.heap.slab.gHhdm).2 := by
  intro stays
  obtain ⟨c, ran, objects⟩ := small_run
  obtain ⟨s, valid⟩ := (start_valid Buddy.oneBlock_initial.valid small_aligned bootGlobals).run ran
  have present : (0xffff800000400010, 5000) ∈ c.live.map fun object => (object.ptr, object.size) := by
    rw [objects]
    simp
  obtain ⟨object, member, isObject⟩ := List.mem_map.mp present
  have isLarge : object.size = 5000 := congrArg Prod.snd isObject
  have small := (valid.usableSize member).inStorage.mp (stays c (calls_iff_run.mpr ran) object member).2
  rw [isLarge] at small
  exact absurd small (by decide)

end Sizes

end ScrapOS.Slab
