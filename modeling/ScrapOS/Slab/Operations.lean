import ScrapOS.Slab.Refinement

/-! The operations of `slab.c` on a heap whose books are balanced and encoded: each call
returns, transfers between the books what it should, and leaves the live objects alone. -/

set_option autoImplicit false

namespace ScrapOS.Slab

open Buddy

/-- The invariant of the heap. -/
structure Valid (managed : Set Nat) (others : List Handle) (h : Heap) (live : List Object)
    (s : Shape) : Prop where
  balanced : Balanced managed h.slab.gHhdm others h.held live s
  encodes : Encodes h live s

/-- No byte of these objects changed. -/
def Kept (m m' : Memory) (live : List Object) : Prop := ∀ object ∈ live, Set.EqOn m' m object.extent

theorem Kept.trans {m m' m'' : Memory} {live : List Object} (first : Kept m m' live)
    (second : Kept m' m'' live) : Kept m m'' live := fun object member =>
  (second object member).trans (first object member)

theorem bookBytes_lists {hhdm : Word} {live : List Object} {s : Shape} {lists : Lists} :
    bookBytes hhdm live { s with lists } = bookBytes hhdm live s := by
  ext address
  constructor
  · intro book
    cases book with
    | header small isSlab inHeader => exact .header small isSlab inHeader
    | free small isSlab isFree inSlot => exact .free small isSlab isFree inSlot
    | large member origin inHeader => exact .large member origin inHeader
  · intro book
    cases book with
    | header small isSlab inHeader => exact .header small isSlab inHeader
    | free small isSlab isFree inSlot => exact .free small isSlab isFree inSlot
    | large member origin inHeader => exact .large member origin inHeader

section Operations

variable {managed : Set Nat} {others : List Handle} {h : Heap} {live : List Object} {s : Shape}
  {cls : Nat} {base : Word}

/-! ## Calls of the buddy allocator -/

/-- What asking the buddy allocator for a block can lead to. -/
inductive Borrowed (managed : Set Nat) (others : List Handle) (h : Heap) (live : List Object)
    (s : Shape) (order : Nat) : Word × Heap → Prop where
  | refused {h' : Heap} : Valid managed others h' live s → h'.slab = h.slab → h'.held = h.held →
      Kept h.mem h'.mem live → Borrowed managed others h live s order (0, h')
  | granted {phys : Word} {h' : Heap} {lists : Lists} : phys ≠ 0 →
      phys = (Buddy.buddyAlloc h.mem h.buddy order).1 →
      Valid managed ((phys, order) :: others) h' live { s with lists } → h'.slab = h.slab →
      h'.held = (phys, order) :: h.held → Kept h.mem h'.mem live →
      Borrowed managed others h live s order (phys, h')

theorem Valid.follows_kept (valid : Valid managed others h live s) {others' held' : List Handle}
    {lists' : Lists} {m' : Memory} {buddy' : Buddy.Globals}
    (after : Balanced managed h.slab.gHhdm others' held' live { s with lists := lists' })
    (follows : Follows h.mem h.buddy s.lists m' buddy' lists') :
    Encodes { h with mem := m', buddy := buddy', held := held' } live { s with lists := lists' } ∧
      Kept h.mem m' live := by
  have frame := follows.frame
  rw [← valid.encodes.hhdm] at frame
  constructor
  · refine valid.encodes.congr follows.gHhdm follows.holds (frame.mono ?_)
    have before := valid.balanced.links_books
    have later := after.links_books
    rw [bookBytes_lists] at later
    exact (Set.disjoint_union_left.mpr ⟨before, later⟩).subset_compl_left
  · intro object member
    have before := valid.balanced.extent_links member
    have later := after.extent_links member
    exact frame.mono (Set.disjoint_union_right.mpr ⟨before, later⟩).subset_compl_right

theorem Valid.borrow (valid : Valid managed others h live s) (order : Nat) :
    Borrowed managed others h live s order (h.buddyAlloc order) := by
  have usable := valid.balanced.usable
  rw [valid.encodes.hhdm] at usable
  obtain ⟨result, follows⟩ := buddyAlloc_follows valid.encodes.free usable valid.balanced.tiled order
  have unchanged := (valid.balanced.tiled.alloc order usable.zero).1
  have borrowed := valid.balanced.borrow order
  unfold Heap.buddyAlloc
  rw [← result] at unchanged borrowed
  generalize returned : Buddy.buddyAlloc h.mem h.buddy order = outcome at *
  obtain ⟨phys, m', buddy'⟩ := outcome
  dsimp only at *
  by_cases null : phys = 0
  · rw [unchanged null] at follows
    obtain ⟨encodes, kept⟩ := valid.follows_kept valid.balanced follows
    subst null
    simp only [if_true]
    exact .refused ⟨valid.balanced, encodes⟩ rfl rfl kept
  · have balanced := borrowed null
    obtain ⟨encodes, kept⟩ := valid.follows_kept balanced follows
    simp only [if_neg null]
    exact .granted null (by rw [returned]) ⟨balanced, encodes⟩ rfl rfl kept

theorem Valid.giveBack {handle : Handle} (valid : Valid managed (handle :: others) h live s) :
    ∃ h', h.buddyFree handle.1 handle.2 = some h' ∧
      Valid managed others h' live { s with lists := s.lists.free handle.1 handle.2 } ∧
      h'.held = h.held.erase handle ∧ Kept h.mem h'.mem live := by
  have usable := valid.balanced.usable
  rw [valid.encodes.hhdm] at usable
  have inHand := valid.balanced.other_held List.mem_cons_self
  obtain ⟨m', buddy', returned, follows⟩ := buddyFree_follows valid.encodes.free usable
    (valid.balanced.tiled.perm (List.perm_cons_erase inHand))
  have balanced := valid.balanced.giveBack
  obtain ⟨encodes, kept⟩ := valid.follows_kept balanced follows
  unfold Heap.buddyFree
  rw [returned]
  exact ⟨_, rfl, ⟨balanced, encodes⟩, rfl, kept⟩

/-- Whoever holds a block writes to it as they like. -/
theorem Valid.write_other {handle : Handle} {m' : Memory} (valid : Valid managed others h live s)
    (member : handle ∈ others) (inside : Set.EqOn m' h.mem (handle.bytes h.slab.gHhdm)ᶜ) :
    Encodes { h with mem := m' } live s ∧ Kept h.mem m' live := by
  have inHand := valid.balanced.other_held member
  refine ⟨valid.encodes.write ?_ ?_, fun object inLive => ?_⟩
  · exact inside.mono (valid.balanced.other_books member).subset_compl_left
  · exact inside.mono (valid.balanced.tiled.held_links_disjoint inHand).subset_compl_left
  · exact inside.mono (valid.balanced.other_extent member inLive).subset_compl_left

/-! ## Growing a cache -/

/-- What `cache_grow` can lead to. -/
inductive Grown (managed : Set Nat) (others : List Handle) (h : Heap) (live : List Object)
    (s : Shape) (cls : Nat) : Word × Heap → Prop where
  | refused {h' : Heap} : Valid managed others h' live s → Kept h.mem h'.mem live →
      Grown managed others h live s cls (0, h')
  | grown {base : Word} {h' : Heap} {s' : Shape} : Valid managed others h' live s' →
      base ∈ s'.slabs cls → s'.frees base = (slots cls base).reverse → Kept h.mem h'.mem live →
      Grown managed others h live s cls (base, h')

theorem Valid.grow (valid : Valid managed others h live s) (small : cls < slabNumClasses) :
    Grown managed others h live s cls (cacheGrow h cls) := by
  have borrowed := valid.borrow 0
  have objSize := (valid.encodes.caches cls small).objSize
  unfold cacheGrow
  generalize h.buddyAlloc 0 = result at borrowed
  cases borrowed with
  | refused valid' sameSlab sameHeld kept =>
    dsimp only
    rw [if_pos rfl]
    exact .refused valid' kept
  | @granted phys h₁ lists nonzero isResult valid' sameSlab isHeld kept =>
    dsimp only
    rw [if_neg nonzero, objSize, slotCount_eq small, sameSlab]
    have isPage : pageHandle h.slab.gHhdm (phys + h.slab.gHhdm) = (phys, 0) := by
      rw [pageHandle, BitVec.add_sub_cancel]
    have balanced₁ := valid'.balanced
    rw [sameSlab, ← isPage] at balanced₁
    obtain ⟨slab, linked, frame⟩ := laySlab_spec h₁.mem (phys + h.slab.gHhdm) (h.slab.cacheAt cls)
      (h.slab.caches cls).slabs small
    generalize phys + h.slab.gHhdm = base at *
    generalize laySlab h₁.mem base (h.slab.cacheAt cls) (classSize cls) (h.slab.caches cls).slabs
      (BitVec.ofNat 32 (slotCount cls)) = m₂ at *
    rw [← isPage] at valid'
    have written : Set.EqOn m₂ h₁.mem ((pageHandle h.slab.gHhdm base).bytes h₁.slab.gHhdm)ᶜ := by
      rwa [sameSlab, Balanced.pageHandle_bytes]
    obtain ⟨encodes₂, kept₂⟩ := valid'.write_other List.mem_cons_self written
    have carved : (slots cls base).reverse.Perm (slots cls base) := List.reverse_perm _
    have fresh : ∀ other, other < slabNumClasses → base ∉ s.slabs other := fun other inRange member =>
      balanced₁.page_notMem_others inRange member List.mem_cons_self
    have adopted := encodes₂.adoptPage small fresh (by rw [sameSlab]; exact slab)
      (by rw [sameSlab]; exact linked) (by rw [List.length_reverse, slots_length])
    dsimp only at adopted
    rw [sameSlab, objSize] at adopted
    refine .grown ⟨balanced₁.adoptPage small carved, adopted⟩ ?_ ?_ (kept.trans kept₂)
    · simp
    · simp

/-! ## Popping a slot -/

theorem Valid.pop (valid : Valid managed others h live s) (small : cls < slabNumClasses)
    (isSlab : base ∈ s.slabs cls) {slot : Word} {free : List Word}
    (front : s.frees base = slot :: free) {size : Word} (chosen : classFor size = some cls) :
    (popSlot h cls base).1 = slot ∧
      Valid managed others (popSlot h cls base).2 (⟨slot, size, .slot cls⟩ :: live)
        { s with frees := Function.update s.frees base free } ∧
      Kept h.mem (popSlot h cls base).2.mem live := by
  have slab := valid.encodes.slabs cls small base isSlab
  have inPage := valid.balanced.threaded cls small base isSlab
  have cached := valid.encodes.caches cls small
  have counts := flatMap_update_length s.frees free isSlab (valid.balanced.slabs_nodup small)
  rw [front] at slab inPage counts
  obtain ⟨popped, frame⟩ := pop_page small slab inPage rfl
  refine ⟨slab.threaded.1, ⟨?_, ?_⟩, ?_⟩
  · exact valid.balanced.pop small isSlab front rfl chosen
  · refine valid.encodes.exchange valid.balanced small isSlab ?_ ?_ popped ?_ ?_
    · exact eqOn_compl_mono frame (span_subset (by bv_omega))
    · exact next_of_frame (eqOn_compl_mono frame Set.subset_union_left)
    · rw [List.length_cons] at counts
      rw [cached.freeSlots]
      bv_omega
    · intro object member block origin
      rcases List.mem_cons.mp member with rfl | member
      · cases origin
      · exact member
  · intro object member
    have header := valid.balanced.extent_header member small isSlab
    have within : span (base + 24) 12 ⊆ span base 48 := span_subset (by bv_omega)
    exact frame.mono (header.mono_right within).subset_compl_right

/-- The pages found on the way are full, the page found is not. -/
theorem Valid.findSlab (valid : Valid managed others h live s) (small : cls < slabNumClasses) :
    ((∀ base ∈ s.slabs cls, s.frees base = []) ∧ Slab.findSlab h cls = some 0) ∨
      ∃ base ∈ s.slabs cls, s.frees base ≠ [] ∧ Slab.findSlab h cls = some base := by
  have linked := (valid.encodes.caches cls small).linked
  have full : ∀ base ∈ s.slabs cls, (base == 0 || freeCount h.mem base != 0) =
      !(s.frees base).isEmpty := by
    intro base isSlab
    have nonzero := valid.balanced.page_ne_zero small isSlab
    have counted := (valid.encodes.slabs cls small base isSlab).counted
    have bound := valid.balanced.frees_length small isSlab
    have most := (slotCount_bounds small).2
    rw [beq_eq_false_iff_ne.mpr nonzero, Bool.false_or, counted]
    cases shape : s.frees base with
    | nil => rfl
    | cons slot free =>
      rw [shape] at bound
      have positive : BitVec.ofNat 32 (slot :: free).length ≠ 0 := by
        rw [List.length_cons] at bound ⊢
        bv_omega
      simpa using positive
  cases found : (s.slabs cls).find? fun base => !(s.frees base).isEmpty with
  | none =>
    refine .inl ⟨fun base isSlab => by simpa using List.find?_eq_none.mp found base isSlab, ?_⟩
    rw [Slab.findSlab, linked.walk_eq, walk_of_stop]
    · simp
    · intro base isSlab
      rw [full base isSlab]
      simpa using List.find?_eq_none.mp found base isSlab
  | some base =>
    obtain ⟨free, before, behind, shape, emptyBefore⟩ := List.find?_eq_some_iff_append.mp found
    have isSlab : base ∈ s.slabs cls := List.mem_of_find?_eq_some found
    refine .inr ⟨base, isSlab, by simpa using free, ?_⟩
    rw [shape] at linked
    refine linked.walk_eq_some ?_ ?_
    · intro other member
      rw [full other (by rw [shape]; exact List.mem_append_left _ member)]
      simpa using emptyBefore other member
    · rw [full base isSlab]
      exact free

/-! ## kmalloc -/

/-- What serves a request: a class, or the block that `buddy_alloc` returns for it. -/
def Heap.origin (h : Heap) (size : Word) : Origin :=
  match classFor size with
  | some cls => .slot cls
  | none =>
      let order := (orderForBytes (largeDataOff + size)).getD 0
      .large ((Buddy.buddyAlloc h.mem h.buddy order).1, order)

/-- The live objects after a call of `kmalloc` that returned `ptr`. -/
def Heap.serve (h : Heap) (live : List Object) (size ptr : Word) : List Object :=
  if ptr = 0 then live else ⟨ptr, size, h.origin size⟩ :: live

/-- What a call of `kmalloc` leads to. -/
inductive Allocated (managed : Set Nat) (others : List Handle) (h : Heap) (live : List Object)
    (size : Word) : Option (Word × Heap) → Prop where
  | returned {ptr : Word} {h' : Heap} {s' : Shape} :
      Valid managed others h' (h.serve live size ptr) s' → Kept h.mem h'.mem live →
      Allocated managed others h live size (some (ptr, h'))

theorem serve_zero (h : Heap) (live : List Object) (size : Word) : h.serve live size 0 = live := if_pos rfl

theorem Valid.serve_slot (valid : Valid managed others h live s) (small : cls < slabNumClasses)
    (isSlab : base ∈ s.slabs cls) (available : s.frees base ≠ []) {size : Word} {before : Heap}
    (chosen : classFor size = some cls) (kept : Kept before.mem h.mem live) :
    Allocated managed others before live size (some (popSlot h cls base)) := by
  obtain ⟨slot, free, front⟩ := List.exists_cons_of_ne_nil available
  obtain ⟨isSlot, popped, kept'⟩ := valid.pop small isSlab front chosen
  have inPage : slot ∈ slots cls base := valid.balanced.threaded cls small base isSlab
    (front ▸ List.mem_cons_self)
  have nonzero := slot_ne_zero small (valid.balanced.page_aligned small isSlab) inPage
  generalize popSlot h cls base = result at *
  obtain ⟨ptr, h'⟩ := result
  dsimp only at isSlot popped kept'
  subst isSlot
  have served : before.serve live size ptr = ⟨ptr, size, .slot cls⟩ :: live := by
    rw [Heap.serve, if_neg nonzero, Heap.origin, chosen]
  exact .returned (served ▸ popped) (kept.trans kept')

theorem Valid.largeAlloc (valid : Valid managed others h live s) {size : Word}
    (inRange : size.toNat + 16 ≤ 2 ^ 63) (chosen : classFor size = none) :
    Allocated managed others h live size (Slab.largeAlloc h size) := by
  have sum : (largeDataOff + size).toNat = 16 + size.toNat := by
    rw [largeDataOff_eq]
    bv_omega
  have enough : (largeDataOff + size).toNat ≤ 2 ^ 63 := by omega
  obtain ⟨order, found⟩ := Option.isSome_iff_exists.mp (orderForBytes_isSome_iff.mpr enough)
  have origin : h.origin size = .large ((Buddy.buddyAlloc h.mem h.buddy order).1, order) := by
    rw [Heap.origin, chosen, found, Option.getD_some]
  have borrowed := valid.borrow order
  rw [Slab.largeAlloc, found]
  dsimp only
  generalize h.buddyAlloc order = result at borrowed
  cases borrowed with
  | refused valid' sameSlab sameHeld kept =>
    dsimp only
    rw [if_pos rfl]
    exact .returned ((serve_zero h live size).symm ▸ valid') kept
  | @granted phys h₁ lists nonzero isResult valid' sameSlab isHeld kept =>
    dsimp only
    rw [if_neg nonzero, sameSlab]
    have frame : Set.EqOn (setOrder (setMagic h₁.mem (phys + h.slab.gHhdm) largeMagic)
        (phys + h.slab.gHhdm) (BitVec.ofNat 32 order)) h₁.mem (span (phys + h.slab.gHhdm) 16)ᶜ := by
      refine eqOn_compl_mono (eqOn_compl_trans (Memory.store64_eqOn_compl ..)
        (Memory.store32_eqOn_compl ..)) (Set.union_subset (span_mono (by decide)) ?_)
      exact span_subset (by bv_omega)
    have marked : LargeAt (setOrder (setMagic h₁.mem (phys + h.slab.gHhdm) largeMagic)
        (phys + h.slab.gHhdm) (BitVec.ofNat 32 order)) (phys + h.slab.gHhdm) order := by
      refine ⟨?_, Memory.load32_store32 ..⟩
      rw [magic, setOrder, Memory.load64_store32_of_apart _ (by bv_omega) (by bv_omega)]
      exact Memory.load64_store64 ..
    have written : Set.EqOn (setOrder (setMagic h₁.mem (phys + h.slab.gHhdm) largeMagic)
        (phys + h.slab.gHhdm) (BitVec.ofNat 32 order)) h₁.mem
          (Handle.bytes h₁.slab.gHhdm (phys, order))ᶜ := by
      rw [sameSlab]
      exact eqOn_compl_mono frame (Balanced.largeHeader_subset h.slab.gHhdm (phys, order))
    obtain ⟨encodes₂, kept₂⟩ := valid'.write_other List.mem_cons_self written
    have nonnull : phys + h.slab.gHhdm + largeDataOff ≠ 0 := by
      obtain ⟨-, whole⟩ := valid'.balanced.tiled.heldAligned (phys, order)
        (valid'.balanced.other_held List.mem_cons_self)
      obtain ⟨index, position⟩ := whole.mono (Nat.zero_le _)
      have aligned := valid.balanced.hhdmAligned
      rw [largeDataOff_eq]
      bv_omega
    generalize setOrder (setMagic h₁.mem (phys + h.slab.gHhdm) largeMagic) (phys + h.slab.gHhdm)
      (BitVec.ofNat 32 order) = m₂ at *
    have served : h.serve live size (phys + h.slab.gHhdm + largeDataOff) =
        ⟨phys + h.slab.gHhdm + largeDataOff, size, .large (phys, order)⟩ :: live := by
      rw [Heap.serve, if_neg nonnull, origin, isResult]
    have balanced₁ := valid'.balanced
    rw [sameSlab] at balanced₁
    have adopted : Valid managed others { h₁ with mem := m₂, slab := h.slab }
        (⟨phys + h.slab.gHhdm + largeDataOff, size, .large (phys, order)⟩ :: live)
        { s with lists } := by
      refine ⟨balanced₁.adoptLarge rfl ⟨chosen, inRange, found, rfl⟩, ?_⟩
      rw [sameSlab] at encodes₂
      refine ⟨encodes₂.hhdm, encodes₂.free, encodes₂.caches, encodes₂.slabs, ?_⟩
      intro object member block isLarge
      rcases List.mem_cons.mp member with rfl | member
      · cases isLarge
        exact marked
      · exact encodes₂.larges object member block isLarge
    exact .returned (served ▸ adopted) (kept.trans kept₂)

theorem Valid.kmalloc (valid : Valid managed others h live s) {size : Word}
    (inRange : size.toNat + 16 ≤ 2 ^ 63) :
    Allocated managed others h live size (Slab.kmalloc h size) := by
  have unserved := serve_zero h live size
  rw [Slab.kmalloc]
  split
  · exact .returned (unserved.symm ▸ valid) fun _ _ _ _ => rfl
  · cases chosen : classFor size with
    | none => exact valid.largeAlloc inRange chosen
    | some cls =>
      have small := (classFor_eq_some chosen).1
      dsimp only
      rcases valid.findSlab small with ⟨-, full⟩ | ⟨base, isSlab, available, found⟩
      · rw [full]
        dsimp only
        rw [if_pos rfl]
        have grown := valid.grow small
        generalize cacheGrow h cls = result at grown
        cases grown with
        | refused valid' kept =>
          dsimp only
          rw [if_pos rfl]
          exact .returned (unserved.symm ▸ valid') kept
        | @grown base h₁ s₁ valid' isSlab fresh kept =>
          have nonzero := valid'.balanced.page_ne_zero small isSlab
          have available : s₁.frees base ≠ [] := by
            rw [fresh]
            exact List.reverse_ne_nil_iff.mpr (slots_ne_nil small)
          dsimp only
          rw [if_neg nonzero]
          exact valid'.serve_slot small isSlab available chosen kept
      · have nonzero := valid.balanced.page_ne_zero small isSlab
        rw [found]
        dsimp only
        rw [if_neg nonzero]
        exact valid.serve_slot small isSlab available chosen fun _ _ _ _ => rfl

/-! ## kfree -/

theorem cacheIndex_cacheAt (g : Globals) (small : cls < slabNumClasses) :
    g.cacheIndex (g.cacheAt cls) = cls := by
  unfold Globals.cacheIndex Globals.cacheAt slabNumClasses at *
  have distance : (g.cachesAt + BitVec.ofNat 64 (40 * cls) - g.cachesAt).toNat = 40 * cls := by
    bv_omega
  rw [distance, Nat.mul_div_cancel_left _ (by decide)]

/-- What `kfree` finds behind a pointer into a slab, and what it does with it. -/
structure Returned (managed : Set Nat) (others : List Handle) (h : Heap) (live : List Object)
    (s : Shape) (object : Object) (cls : Nat) (base : Word) : Prop where
  small : cls < slabNumClasses
  isSlab : base ∈ s.slabs cls
  inPage : object.ptr ∈ slots cls base
  masked : pageBase object.ptr = base
  marked : magic h.mem base = slabMagic
  ofCache : cache h.mem base = h.slab.cacheAt cls
  inUse : object.ptr ∉ s.frees base
  result : Slab.kfree h object.ptr = some (pushSlot h base object.ptr)
  valid : Valid managed others (pushSlot h base object.ptr) (live.erase object)
    { s with frees := Function.update s.frees base (object.ptr :: s.frees base) }
  kept : Kept h.mem (pushSlot h base object.ptr).mem (live.erase object)

theorem Valid.kfree_slot (valid : Valid managed others h live s) {object : Object}
    (member : object ∈ live) (origin : object.origin = .slot cls) :
    ∃ base, Returned managed others h live s object cls base := by
  have small := (valid.balanced.class_small member origin).1
  obtain ⟨base, isSlab, inPage, notFree⟩ := valid.balanced.slot_home member origin
  have aligned := valid.balanced.page_aligned small isSlab
  have masked := pageBase_slot small aligned inPage
  have nonzero := slot_ne_zero small aligned inPage
  have slab := valid.encodes.slabs cls small base isSlab
  have freeInPage := valid.balanced.threaded cls small base isSlab
  have cached := valid.encodes.caches cls small
  have counts := flatMap_update_length s.frees (object.ptr :: s.frees base) isSlab
    (valid.balanced.slabs_nodup small)
  have index : h.slab.cacheIndex (cache h.mem base) = cls := by
    rw [slab.ofCache, cacheIndex_cacheAt h.slab small]
  obtain ⟨pushed, frame⟩ := push_page small slab inPage freeInPage (notFree base isSlab) rfl
  have far := slot_far small inPage
  have within : span object.ptr 8 ⊆ span (base + 48) 4048 := span_subset (by bv_omega)
  refine ⟨base, small, isSlab, inPage, masked, slab.marked, slab.ofCache, notFree base isSlab, ?_,
    ⟨?_, ?_⟩, ?_⟩
  · rw [Slab.kfree, if_neg nonzero]
    dsimp only
    rw [masked, if_pos slab.marked]
  · exact valid.balanced.push small isSlab member origin inPage
  · rw [pushSlot, index]
    refine valid.encodes.exchange valid.balanced small isSlab ?_ ?_ pushed ?_ ?_
    · refine eqOn_compl_mono frame (Set.union_subset (span_subset (by bv_omega)) ?_)
      exact within.trans (span_subset (by bv_omega))
    · exact next_of_frame (eqOn_compl_mono frame (Set.union_subset_union_right _ within))
    · rw [List.length_cons] at counts
      rw [cached.freeSlots]
      bv_omega
    · exact fun other present _ _ => List.mem_of_mem_erase present
  · intro other present
    have header := valid.balanced.extent_header (List.mem_of_mem_erase present) small isSlab
    have slotApart := valid.balanced.extent_erase member present
    have sizes := class_bounds small
    rw [Object.extent, Object.extent, origin] at slotApart
    have headerWithin : span (base + 24) 12 ⊆ span base 48 := span_subset (by bv_omega)
    refine frame.mono (Set.disjoint_union_right.mpr ⟨?_, ?_⟩).subset_compl_right
    · exact header.mono_right headerWithin
    · exact slotApart.mono_right (span_mono (by omega))

/-- What `kfree` finds behind a pointer into a large block, and what it does with it. -/
structure GivenBack (managed : Set Nat) (others : List Handle) (h : Heap) (live : List Object)
    (s : Shape) (object : Object) (block : Handle) (h' : Heap) : Prop where
  masked : pageBase object.ptr = block.1 + h.slab.gHhdm
  marked : magic h.mem (pageBase object.ptr) = largeMagic
  base : pageBase object.ptr - h.slab.gHhdm = block.1
  ordered : (order h.mem (pageBase object.ptr)).toNat = block.2
  inHand : block ∈ h.held
  result : Slab.kfree h object.ptr = h.buddyFree block.1 block.2
  returned : h.buddyFree block.1 block.2 = some h'
  held : h'.held = h.held.erase block
  valid : Valid managed others h' (live.erase object)
    { s with lists := s.lists.free block.1 block.2 }
  kept : Kept h.mem h'.mem (live.erase object)

theorem Valid.kfree_large (valid : Valid managed others h live s) {object : Object} {block : Handle}
    (member : object ∈ live) (origin : object.origin = .large block) :
    ∃ h', GivenBack managed others h live s object block h' := by
  have aligned := valid.balanced.block_aligned member origin
  obtain ⟨place, -⟩ := valid.balanced.large_fits member origin
  have inHand := valid.balanced.block_held member origin
  have bounded := (valid.balanced.tiled.heldAligned _ inHand).1
  have large := valid.encodes.larges object member block origin
  have masked : pageBase object.ptr = block.1 + h.slab.gHhdm :=
    pageBase_eq aligned (by rw [place]; bv_omega)
  have nonzero : object.ptr ≠ 0 := by
    rw [place]
    bv_omega
  have base : pageBase object.ptr - h.slab.gHhdm = block.1 := by
    rw [masked, BitVec.add_sub_cancel]
  have ordered : (order h.mem (pageBase object.ptr)).toNat = block.2 := by
    rw [masked, large.ordered, BitVec.toNat_ofNat, Nat.mod_eq_of_lt]
    exact Nat.lt_of_le_of_lt bounded (by decide)
  have marked : magic h.mem (pageBase object.ptr) = largeMagic := by
    rw [masked]
    exact large.marked
  have forgotten : Valid managed (block :: others) h (live.erase object) s :=
    ⟨valid.balanced.dropLarge member origin, valid.encodes.hhdm, valid.encodes.free,
      valid.encodes.caches, valid.encodes.slabs, fun other present =>
        valid.encodes.larges other (List.mem_of_mem_erase present)⟩
  obtain ⟨h', returned, valid', held, kept⟩ := forgotten.giveBack
  refine ⟨h', masked, marked, base, ordered, inHand, ?_, returned, held, valid', kept⟩
  have notSlab : magic h.mem (pageBase object.ptr) ≠ slabMagic := by
    rw [marked]
    decide
  rw [Slab.kfree, if_neg nonzero]
  dsimp only
  rw [if_neg notSlab, if_pos marked, base, ordered]

end Operations

end ScrapOS.Slab
