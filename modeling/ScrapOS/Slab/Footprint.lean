import ScrapOS.Slab.Runs

/-! Which bytes the heap writes. A call of `kmalloc` or `kfree` is at most one call of the buddy
allocator and then writes to blocks that the heap has in hand for itself. -/

set_option autoImplicit false

namespace ScrapOS.Slab

open Buddy (Handle Lists Partition linkBytes)

/-- The bytes of the blocks that the heap has in hand for itself. -/
def ownBytes (hhdm : Word) (others held : List Handle) : Set Word :=
  {address | ∃ handle ∈ held, handle ∉ others ∧ address ∈ handle.bytes hhdm}

/-- Besides the caches only the heap's own blocks change. -/
structure Wrote (others : List Handle) (h h' : Heap) : Prop where
  buddy : h'.buddy = h.buddy
  held : h'.held = h.held
  hhdm : h'.slab.gHhdm = h.slab.gHhdm
  frame : Set.EqOn h'.mem h.mem (ownBytes h.slab.gHhdm others h.held)ᶜ

/-- What a call does: it writes, after it took a block or without; or it gives a block back. -/
inductive Footprint (others : List Handle) (h : Heap) : Heap → Prop where
  | wrote {h' : Heap} : Wrote others h h' → Footprint others h h'
  | took {h' : Heap} (order : Nat) : Wrote others (h.buddyAlloc order).2 h' → Footprint others h h'
  | gave {handle : Handle} {h' : Heap} : handle ∈ h.held → handle ∉ others →
      h.buddyFree handle.1 handle.2 = some h' → Footprint others h h'

section Writes

variable {managed : Set Nat} {others : List Handle} {h h' h'' : Heap} {live : List Object} {s : Shape}
  {cls : Nat} {base : Word} {object : Object}

theorem Wrote.refl (others : List Handle) (h : Heap) : Wrote others h h where
  buddy := rfl
  held := rfl
  hhdm := rfl
  frame := Set.eqOn_refl _ _

theorem Wrote.trans (first : Wrote others h h') (second : Wrote others h' h'') :
    Wrote others h h'' where
  buddy := second.buddy.trans first.buddy
  held := second.held.trans first.held
  hhdm := second.hhdm.trans first.hhdm
  frame := by
    have frame := second.frame
    rw [first.hhdm, first.held] at frame
    exact frame.trans first.frame

theorem Valid.page_own (valid : Valid managed others h live s) (small : cls < slabNumClasses)
    (isSlab : base ∈ s.slabs cls) :
    span base 4096 ⊆ ownBytes h.slab.gHhdm others h.held := by
  intro address inPage
  refine ⟨_, valid.balanced.page_held small isSlab, valid.balanced.page_notMem_others small isSlab, ?_⟩
  rwa [Balanced.pageHandle_bytes]

theorem Valid.popSlot_wrote (valid : Valid managed others h live s) (small : cls < slabNumClasses)
    (isSlab : base ∈ s.slabs cls) : Wrote others h (popSlot h cls base).2 where
  buddy := rfl
  held := rfl
  hhdm := rfl
  frame := by
    have fields : span (base + 24) 12 ⊆ span base 4096 := span_subset (by bv_omega)
    have written := eqOn_compl_trans (setFree_frame h.mem base (h.mem.load64 (free h.mem base)))
      (setFreeCount_frame (setFree h.mem base (h.mem.load64 (free h.mem base))) base
        (freeCount (setFree h.mem base (h.mem.load64 (free h.mem base))) base - 1))
    rw [Set.union_self] at written
    exact eqOn_compl_mono written (fields.trans (valid.page_own small isSlab))

theorem Valid.pushSlot_wrote (valid : Valid managed others h live s) (small : cls < slabNumClasses)
    (isSlab : base ∈ s.slabs cls) {slot : Word} (inPage : slot ∈ slots cls base) :
    Wrote others h (pushSlot h base slot) where
  buddy := rfl
  held := rfl
  hhdm := rfl
  frame := by
    have fields : span (base + 24) 12 ⊆ span base 4096 := span_subset (by bv_omega)
    have link : span slot 8 ⊆ span base 4096 :=
      (span_mono (by have := class_bounds small; omega)).trans (slot_subset_page small inPage)
    have linked := Memory.store64_eqOn_compl h.mem slot (free h.mem base)
    have pushed := setFree_frame (h.mem.store64 slot (free h.mem base)) base slot
    have counted := setFreeCount_frame (setFree (h.mem.store64 slot (free h.mem base)) base slot) base
      (freeCount (setFree (h.mem.store64 slot (free h.mem base)) base slot) base + 1)
    refine eqOn_compl_mono (eqOn_compl_trans (eqOn_compl_trans linked pushed) counted) ?_
    exact (Set.union_subset (Set.union_subset link fields) fields).trans (valid.page_own small isSlab)

/-! ## kmalloc -/

/-- A block that was just taken belongs to the heap. -/
theorem Valid.taken_own {handle : Handle} (valid : Valid managed (handle :: others) h live s) :
    handle.bytes h.slab.gHhdm ⊆ ownBytes h.slab.gHhdm others h.held := by
  have once := List.nodup_cons.mp (List.Nodup.of_append_right valid.balanced.nodup)
  exact fun address inside =>
    ⟨handle, valid.balanced.other_held List.mem_cons_self, once.1, inside⟩

theorem Valid.cacheGrow_footprint (valid : Valid managed others h live s)
    (small : cls < slabNumClasses) : Wrote others (h.buddyAlloc 0).2 (cacheGrow h cls).2 := by
  have borrowed := valid.borrow 0
  have objSize := (valid.encodes.caches cls small).objSize
  unfold cacheGrow
  generalize h.buddyAlloc 0 = result at borrowed
  cases borrowed with
  | refused valid' sameSlab sameHeld kept => exact .refl others _
  | @granted phys h₁ lists nonzero isResult valid' sameSlab isHeld kept =>
      dsimp only
      rw [if_neg nonzero, objSize, slotCount_eq small]
      refine ⟨rfl, rfl, rfl, ?_⟩
      obtain ⟨-, -, frame⟩ := laySlab_spec h₁.mem (phys + h₁.slab.gHhdm) (h₁.slab.cacheAt cls)
        (h.slab.caches cls).slabs small
      exact eqOn_compl_mono frame valid'.taken_own

theorem Valid.largeAlloc_footprint (valid : Valid managed others h live s) {size ptr : Word}
    (returned : Slab.largeAlloc h size = some (ptr, h')) : Footprint others h h' := by
  unfold Slab.largeAlloc at returned
  cases found : orderForBytes (largeDataOff + size) with
  | none =>
      rw [found] at returned
      cases returned
  | some order =>
      rw [found] at returned
      have borrowed := valid.borrow order
      refine .took order ?_
      dsimp only at returned
      generalize h.buddyAlloc order = result at borrowed returned
      cases borrowed with
      | refused valid' sameSlab sameHeld kept =>
          dsimp only at returned
          rw [if_pos rfl] at returned
          cases returned
          exact .refl others _
      | @granted phys h₁ lists nonzero isResult valid' sameSlab isHeld kept =>
          dsimp only at returned
          rw [if_neg nonzero] at returned
          cases returned
          refine ⟨rfl, rfl, rfl, ?_⟩
          have marked := eqOn_compl_trans
            (Memory.store64_eqOn_compl h₁.mem (phys + h₁.slab.gHhdm) largeMagic)
            (Memory.store32_eqOn_compl (setMagic h₁.mem (phys + h₁.slab.gHhdm) largeMagic)
              (phys + h₁.slab.gHhdm + 8) (BitVec.ofNat 32 order))
          have header : span (phys + h₁.slab.gHhdm) 8 ∪ span (phys + h₁.slab.gHhdm + 8) 4 ⊆
              span (phys + h₁.slab.gHhdm) 16 :=
            Set.union_subset (span_mono (by decide)) (span_subset (by bv_omega))
          exact eqOn_compl_mono marked ((header.trans
            (Balanced.largeHeader_subset h₁.slab.gHhdm (phys, order))).trans valid'.taken_own)

theorem Valid.kmalloc_footprint (valid : Valid managed others h live s) {size ptr : Word}
    (returned : Slab.kmalloc h size = some (ptr, h')) : Footprint others h h' := by
  unfold Slab.kmalloc at returned
  split at returned
  · cases returned
    exact .wrote (.refl others h)
  · cases chosen : classFor size with
    | none =>
        rw [chosen] at returned
        exact valid.largeAlloc_footprint returned
    | some cls =>
        have small := (classFor_eq_some chosen).1
        rw [chosen] at returned
        dsimp only at returned
        rcases valid.findSlab small with ⟨-, full⟩ | ⟨base, isSlab, -, found⟩
        · rw [full] at returned
          dsimp only at returned
          rw [if_pos rfl] at returned
          have grown := valid.grow small
          have wrote := valid.cacheGrow_footprint small
          refine .took 0 ?_
          generalize cacheGrow h cls = result at grown wrote returned
          cases grown with
          | refused valid' kept =>
              dsimp only at returned
              rw [if_pos rfl] at returned
              cases returned
              exact wrote
          | @grown base h₁ s₁ valid' isSlab fresh kept =>
              dsimp only at returned
              rw [if_neg (valid'.balanced.page_ne_zero small isSlab), Option.some.injEq,
                Prod.mk.injEq] at returned
              exact returned.2 ▸ wrote.trans (valid'.popSlot_wrote small isSlab)
        · rw [found] at returned
          dsimp only at returned
          rw [if_neg (valid.balanced.page_ne_zero small isSlab), Option.some.injEq,
            Prod.mk.injEq] at returned
          exact returned.2 ▸ .wrote (valid.popSlot_wrote small isSlab)

/-! ## kfree -/

theorem Valid.kfree_footprint (valid : Valid managed others h live s) (member : object ∈ live)
    (returned : Slab.kfree h object.ptr = some h') : Footprint others h h' := by
  cases origin : object.origin with
  | slot cls =>
      obtain ⟨base, back⟩ := valid.kfree_slot member origin
      rw [back.result, Option.some.injEq] at returned
      exact returned ▸ .wrote (valid.pushSlot_wrote back.small back.isSlab back.inPage)
  | large block =>
      obtain ⟨h'', back⟩ := valid.kfree_large member origin
      rw [back.result] at returned
      exact .gave back.inHand (valid.balanced.block_notMem_others member origin) returned

/-! ## Calls of the buddy allocator -/

theorem Valid.reorder {others' : List Handle} (valid : Valid managed others h live s)
    (same : others.Perm others') : Valid managed others' h live s where
  balanced := { valid.balanced with owned := valid.balanced.owned.trans (same.append_left _) }
  encodes := valid.encodes

/-- A call of the buddy allocator changes links in blocks that are free before it or after it. -/
structure Relinked (managed : Set Nat) (lists : Lists) (h h' : Heap) (lists' : Lists) : Prop where
  tiled : Partition managed lists' h'.held
  slab : h'.slab = h.slab
  frame : Set.EqOn h'.mem h.mem
    (linkBytes h.slab.gHhdm lists ∪ linkBytes h.slab.gHhdm lists')ᶜ

theorem Valid.buddyAlloc_relinked (valid : Valid managed others h live s) (order : Nat) :
    Relinked managed s.lists h (h.buddyAlloc order).2 (s.lists.alloc order).2 := by
  have usable := valid.balanced.usable
  rw [valid.encodes.hhdm] at usable
  obtain ⟨result, follows⟩ := Buddy.buddyAlloc_follows valid.encodes.free usable
    valid.balanced.tiled order
  obtain ⟨failed, succeeded⟩ := valid.balanced.tiled.alloc order usable.zero
  have frame := follows.frame
  rw [← valid.encodes.hhdm] at frame
  unfold Heap.buddyAlloc
  rw [← result] at failed succeeded
  generalize Buddy.buddyAlloc h.mem h.buddy order = outcome at *
  refine ⟨?_, rfl, frame⟩
  dsimp only
  split
  · next null =>
    rw [failed null]
    exact valid.balanced.tiled
  · next nonnull => exact succeeded nonnull

theorem buddyAlloc_held (h : Heap) (order : Nat) : h.held ⊆ (h.buddyAlloc order).2.held := by
  unfold Heap.buddyAlloc
  generalize Buddy.buddyAlloc h.mem h.buddy order = outcome
  dsimp only
  split
  · exact List.Subset.refl _
  · exact List.subset_cons_self _ _

theorem Valid.buddyFree_relinked (valid : Valid managed others h live s) {handle : Handle}
    (inHand : handle ∈ h.held) (returned : h.buddyFree handle.1 handle.2 = some h') :
    Relinked managed s.lists h h' (s.lists.free handle.1 handle.2) ∧
      h'.held = h.held.erase handle := by
  have usable := valid.balanced.usable
  rw [valid.encodes.hhdm] at usable
  have tiled := valid.balanced.tiled.perm (List.perm_cons_erase inHand)
  obtain ⟨m', buddy', result, follows⟩ := Buddy.buddyFree_follows valid.encodes.free usable tiled
  have frame := follows.frame
  rw [← valid.encodes.hhdm] at frame
  unfold Heap.buddyFree at returned
  rw [result] at returned
  cases returned
  exact ⟨⟨tiled.free, rfl, frame⟩, rfl⟩

section Relinked

variable {lists' : Lists} {handle : Handle}

theorem Valid.relinked_managed (valid : Valid managed others h live s)
    (relinked : Relinked managed s.lists h h' lists') :
    Set.EqOn h'.mem h.mem (frameBytes h.slab.gHhdm managed)ᶜ :=
  eqOn_compl_mono relinked.frame
    (Set.union_subset valid.balanced.tiled.links_managed relinked.tiled.links_managed)

/-- A block that stays in hand keeps its bytes. -/
theorem Valid.relinked_held (valid : Valid managed others h live s)
    (relinked : Relinked managed s.lists h h' lists') (inHand : handle ∈ h.held)
    (still : handle ∈ h'.held) : Set.EqOn h'.mem h.mem (handle.bytes h.slab.gHhdm) := by
  have before : Disjoint (handle.bytes h.slab.gHhdm) (linkBytes h.slab.gHhdm s.lists) :=
    valid.balanced.tiled.held_links_disjoint inHand
  have after : Disjoint (handle.bytes h.slab.gHhdm) (linkBytes h.slab.gHhdm lists') :=
    relinked.tiled.held_links_disjoint still
  exact relinked.frame.mono (Set.disjoint_union_right.mpr ⟨before, after⟩).subset_compl_right

end Relinked

/-! ## What a call spares -/

theorem own_managed {lists : Lists} {held : List Handle} {hhdm : Word}
    (tiled : Partition managed lists held) : ownBytes hhdm others held ⊆ frameBytes hhdm managed := by
  rintro address ⟨handle, inHand, -, inside⟩
  exact tiled.held_managed inHand inside

theorem own_others {lists : Lists} {held : List Handle} {hhdm : Word} {handle : Handle}
    (tiled : Partition managed lists held) (member : handle ∈ others) (inHand : handle ∈ held) :
    Disjoint (handle.bytes hhdm) (ownBytes hhdm others held) := by
  refine Set.disjoint_left.mpr fun address inside own => ?_
  obtain ⟨home, inHand', notOther, inHome⟩ := own
  exact Set.disjoint_left.mp (tiled.held_bytes_disjoint inHand inHand'
    fun same => notOther (same ▸ member)) inside inHome

/-- The heap writes in managed frames only. -/
theorem Valid.footprint_managed (valid : Valid managed others h live s)
    (footprint : Footprint others h h') :
    Set.EqOn h'.mem h.mem (frameBytes h.slab.gHhdm managed)ᶜ := by
  cases footprint with
  | wrote wrote => exact eqOn_compl_mono wrote.frame (own_managed valid.balanced.tiled)
  | gave inHand notOther returned =>
      exact valid.relinked_managed (valid.buddyFree_relinked inHand returned).1
  | took order wrote =>
      have relinked := valid.buddyAlloc_relinked order
      have frame := eqOn_compl_mono wrote.frame (own_managed relinked.tiled)
      rw [relinked.slab] at frame
      exact frame.trans (valid.relinked_managed relinked)

/-- The blocks of others are spared, too. -/
theorem Valid.footprint_others (valid : Valid managed others h live s)
    (footprint : Footprint others h h') {handle : Handle} (member : handle ∈ others) :
    Set.EqOn h'.mem h.mem (handle.bytes h.slab.gHhdm) := by
  have inHand := valid.balanced.other_held member
  cases footprint with
  | wrote wrote =>
      exact wrote.frame.mono (own_others valid.balanced.tiled member inHand).subset_compl_right
  | @gave given _ givenHeld notOther returned =>
      obtain ⟨relinked, held⟩ := valid.buddyFree_relinked givenHeld returned
      have different : handle ≠ given := fun same => notOther (same ▸ member)
      have still : handle ∈ h'.held := by
        rw [held]
        exact (List.mem_erase_of_ne different).mpr inHand
      exact valid.relinked_held relinked inHand still
  | took order wrote =>
      have relinked := valid.buddyAlloc_relinked order
      have still := buddyAlloc_held h order inHand
      have frame := wrote.frame
      rw [relinked.slab] at frame
      have kept := frame.mono (own_others relinked.tiled member still).subset_compl_right
      exact kept.trans (valid.relinked_held relinked inHand still)

end Writes

end ScrapOS.Slab
