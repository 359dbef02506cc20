import ScrapOS.Slab.Slots
import ScrapOS.Buddy.Ownership

/-! The heap without its memory: which blocks were borrowed from the buddy allocator and
what for, which slabs a class has, and which slots of them are free or in use. Borrowing
and returning blocks, adopting a page or a block, and moving a slot between its free list
and the live objects keep these books balanced. -/

set_option autoImplicit false

namespace ScrapOS.Slab

open Buddy

/-- What serves an object: a slot of a class, or the block that the call of `buddy_alloc`
at the order of the block returned. -/
inductive Origin where
  | slot (cls : Nat)
  | large (block : Handle)
deriving DecidableEq

/-- A pointer that `kmalloc` returned for a request of `size` bytes. -/
structure Object where
  ptr : Word
  size : Word
  origin : Origin
deriving DecidableEq

namespace Object

/-- The bytes that the caller asked for. -/
def bytes (object : Object) : Set Word := span object.ptr object.size.toNat

def slotOf (cls : Nat) (object : Object) : Option Word :=
  match object.origin with
  | .slot own => if own = cls then some object.ptr else none
  | .large _ => none

def block (object : Object) : Option Handle :=
  match object.origin with
  | .slot _ => none
  | .large block => some block

/-- The origin of an object is the one its request asks for. -/
def Served (hhdm : Word) (object : Object) : Prop :=
  match object.origin with
  | .slot cls => classFor object.size = some cls
  | .large block =>
      classFor object.size = none ∧ object.size.toNat + 16 ≤ 2 ^ 63 ∧
        orderForBytes (largeDataOff + object.size) = some block.2 ∧
        object.ptr = block.1 + hhdm + largeDataOff

theorem slotOf_eq_some {object : Object} {cls : Nat} {slot : Word} :
    object.slotOf cls = some slot ↔ object.origin = .slot cls ∧ object.ptr = slot := by
  unfold slotOf
  cases object.origin with
  | slot own =>
    by_cases same : own = cls
    · simp [same]
    · simp [same]
  | large block => simp

theorem block_eq_some {object : Object} {handle : Handle} :
    object.block = some handle ↔ object.origin = .large handle := by
  unfold block
  cases object.origin with
  | slot own => simp
  | large block => simp

end Object

/-- The lists of the heap: the free blocks of the buddy allocator, the slabs of each class
and the free slots of each slab, all in the order of their links. -/
structure Shape where
  lists : Lists
  slabs : Nat → List Word
  frees : Word → List Word

/-- The block of order 0 that a slab at `base` was borrowed as. -/
def pageHandle (hhdm base : Word) : Handle := (base - hhdm, 0)

def Shape.pages (s : Shape) (hhdm : Word) : List Handle :=
  (List.range slabNumClasses).flatMap fun cls => (s.slabs cls).map (pageHandle hhdm)

/-- The books of the heap. The blocks in `others` were handed out by the buddy allocator to
someone else. -/
structure Balanced (managed : Set Nat) (hhdm : Word) (others held : List Handle)
    (live : List Object) (s : Shape) : Prop where
  usable : Usable hhdm managed
  hhdmAligned : hhdm.toNat % 4096 = 0
  tiled : Partition managed s.lists held
  owned : held.Perm (s.pages hhdm ++ live.filterMap Object.block ++ others)
  slotted : ∀ cls, cls < slabNumClasses →
    ((s.slabs cls).flatMap s.frees ++ live.filterMap (Object.slotOf cls)).Perm
      ((s.slabs cls).flatMap (slots cls))
  threaded : ∀ cls, cls < slabNumClasses → ∀ base ∈ s.slabs cls, s.frees base ⊆ slots cls base
  served : ∀ object ∈ live, object.Served hhdm

/-! ## Lists with one entry exchanged -/

section Exchange

variable {α β : Type*} [DecidableEq α] {keys : List α} {key : α} {lists : α → List β}
  {replaced : List β}

theorem flatMap_split (lists : α → List β) (member : key ∈ keys) :
    (keys.flatMap lists).Perm (lists key ++ (keys.erase key).flatMap lists) :=
  (List.perm_cons_erase member).flatMap_right lists

theorem flatMap_update_of_notMem (absent : key ∉ keys) :
    keys.flatMap (Function.update lists key replaced) = keys.flatMap lists := by
  refine List.flatMap_congr fun other member => ?_
  have different : other ≠ key := fun same => absent (same ▸ member)
  rw [Function.update_of_ne different]

theorem flatMap_update (member : key ∈ keys) (once : keys.Nodup) :
    (keys.flatMap (Function.update lists key replaced)).Perm
      (replaced ++ (keys.erase key).flatMap lists) := by
  have split := flatMap_split (Function.update lists key replaced) member
  rwa [Function.update_self, flatMap_update_of_notMem once.not_mem_erase] at split

theorem flatMap_update_length (lists : α → List β) (replaced : List β) (member : key ∈ keys)
    (once : keys.Nodup) :
    (keys.flatMap (Function.update lists key replaced)).length + (lists key).length =
      (keys.flatMap lists).length + replaced.length := by
  have before := (flatMap_split lists member).length_eq
  have after : (keys.flatMap (Function.update lists key replaced)).length = _ :=
    (flatMap_update member once).length_eq
  rw [List.length_append] at before after
  omega

end Exchange

namespace Balanced

variable {managed : Set Nat} {hhdm : Word} {others held : List Handle} {live : List Object}
  {s : Shape} {cls : Nat} {base : Word}

/-! ## Pages and blocks -/

@[simp] theorem pageHandle_bytes : (pageHandle hhdm base).bytes hhdm = span base 4096 := by
  rw [Handle.bytes, pageHandle, BitVec.sub_add_cancel, Nat.pow_zero, Nat.mul_one]

theorem pageHandle_inj {left right : Word} :
    pageHandle hhdm left = pageHandle hhdm right ↔ left = right := by
  simp [pageHandle]

theorem page_mem_pages (small : cls < slabNumClasses) (member : base ∈ s.slabs cls) :
    pageHandle hhdm base ∈ s.pages hhdm :=
  List.mem_flatMap.mpr ⟨cls, List.mem_range.mpr small, List.mem_map_of_mem member⟩

section Facts

variable (balanced : Balanced managed hhdm others held live s)
include balanced

theorem nodup : (s.pages hhdm ++ live.filterMap Object.block ++ others).Nodup :=
  balanced.owned.nodup_iff.mp balanced.tiled.held_nodup

theorem page_held (small : cls < slabNumClasses) (member : base ∈ s.slabs cls) :
    pageHandle hhdm base ∈ held := by
  rw [balanced.owned.mem_iff, List.mem_append, List.mem_append]
  exact .inl (.inl (page_mem_pages small member))

theorem block_held {object : Object} {block : Handle} (member : object ∈ live)
    (origin : object.origin = .large block) : block ∈ held := by
  rw [balanced.owned.mem_iff, List.mem_append, List.mem_append]
  exact .inl (.inr (List.mem_filterMap.mpr ⟨object, member, Object.block_eq_some.mpr origin⟩))

theorem other_held {handle : Handle} (member : handle ∈ others) : handle ∈ held := by
  rw [balanced.owned.mem_iff, List.mem_append]
  exact .inr member

theorem page_ne_block {object : Object} {block : Handle} (small : cls < slabNumClasses)
    (member : base ∈ s.slabs cls) (inLive : object ∈ live) (origin : object.origin = .large block) :
    pageHandle hhdm base ≠ block := by
  intro same
  have apart := List.disjoint_of_nodup_append (List.Nodup.of_append_left balanced.nodup)
  refine apart (page_mem_pages small member) ?_
  exact List.mem_filterMap.mpr ⟨object, inLive, same ▸ Object.block_eq_some.mpr origin⟩

theorem page_notMem_others (small : cls < slabNumClasses) (member : base ∈ s.slabs cls) :
    pageHandle hhdm base ∉ others :=
  fun inOthers => List.disjoint_of_nodup_append balanced.nodup
    (List.mem_append_left _ (page_mem_pages small member)) inOthers

theorem block_notMem_others {object : Object} {block : Handle} (inLive : object ∈ live)
    (origin : object.origin = .large block) : block ∉ others :=
  fun inOthers => List.disjoint_of_nodup_append balanced.nodup
    (List.mem_append_right _ (List.mem_filterMap.mpr
      ⟨object, inLive, Object.block_eq_some.mpr origin⟩)) inOthers

theorem pages_nodup : (s.pages hhdm).Nodup :=
  List.Nodup.of_append_left (List.Nodup.of_append_left balanced.nodup)

theorem slabs_nodup (small : cls < slabNumClasses) : (s.slabs cls).Nodup :=
  List.Nodup.of_map _ ((List.nodup_flatMap.mp balanced.pages_nodup).1 cls (List.mem_range.mpr small))

theorem class_unique {other : Nat} (small : cls < slabNumClasses) (member : base ∈ s.slabs cls)
    (otherSmall : other < slabNumClasses) (otherMember : base ∈ s.slabs other) : cls = other := by
  by_contra different
  have pairs := (List.nodup_flatMap.mp balanced.pages_nodup).2
  have symmetric : Std.Symm (Function.onFun List.Disjoint
      fun cls => (s.slabs cls).map (pageHandle hhdm)) := ⟨fun _ _ apart => apart.symm⟩
  exact pairs.forall (List.mem_range.mpr small) (List.mem_range.mpr otherSmall) different
    (List.mem_map_of_mem member) (List.mem_map_of_mem otherMember)

theorem page_aligned (small : cls < slabNumClasses) (member : base ∈ s.slabs cls) :
    base.toNat % 4096 = 0 := by
  obtain ⟨-, index, position⟩ := balanced.tiled.heldAligned _ (balanced.page_held small member)
  have aligned := balanced.hhdmAligned
  simp only [pageHandle] at position
  bv_omega

theorem null_notMem {handle : Handle} (inHand : handle ∈ held) : (0 : Word) ∉ handle.bytes hhdm := by
  intro inside
  have reachable := balanced.usable.nonnull _ (balanced.tiled.frame_mem_managed
    (Partition.mem_blocks_of_held inHand) (balanced.tiled.held_frame inHand inside))
  have aligned := balanced.hhdmAligned
  unfold frameOf at reachable
  bv_omega

theorem held_end_le {handle : Handle} (inHand : handle ∈ held) :
    handle.1 + hhdm ≠ 0 ∧ (handle.1 + hhdm).toNat + 4096 * 2 ^ handle.2 ≤ 2 ^ 64 := by
  have absent := balanced.null_notMem inHand
  have positive := Nat.two_pow_pos handle.2
  rw [Handle.bytes, mem_span] at absent
  generalize handle.1 + hhdm = base at *
  generalize 2 ^ handle.2 = frames at *
  constructor
  · bv_omega
  · bv_omega

theorem page_ne_zero (small : cls < slabNumClasses) (member : base ∈ s.slabs cls) : base ≠ 0 := by
  have inHand := balanced.page_held small member
  have nonzero := (balanced.held_end_le inHand).1
  rwa [pageHandle, BitVec.sub_add_cancel] at nonzero

theorem pages_disjoint {other : Word} {otherCls : Nat} (small : cls < slabNumClasses)
    (member : base ∈ s.slabs cls) (otherSmall : otherCls < slabNumClasses)
    (otherMember : other ∈ s.slabs otherCls) (different : base ≠ other) :
    Disjoint (span base 4096) (span other 4096) := by
  have apart : Disjoint ((pageHandle hhdm base).bytes hhdm) ((pageHandle hhdm other).bytes hhdm) :=
    balanced.tiled.held_bytes_disjoint (balanced.page_held small member)
      (balanced.page_held otherSmall otherMember) fun same => different (pageHandle_inj.mp same)
  rwa [pageHandle_bytes, pageHandle_bytes] at apart

/-! ## Slots -/

theorem flatMap_slots_nodup (small : cls < slabNumClasses) :
    ((s.slabs cls).flatMap (slots cls)).Nodup := by
  refine List.nodup_flatMap.mpr ⟨fun _ _ => slots_nodup small, ?_⟩
  refine (balanced.slabs_nodup small).imp_of_mem fun {base other} member otherMember different => ?_
  intro slot inPage inOther
  have found := pageBase_slot small (balanced.page_aligned small member) inPage
  have foundOther := pageBase_slot small (balanced.page_aligned small otherMember) inOther
  exact different (found.symm.trans foundOther)

theorem slots_once (small : cls < slabNumClasses) :
    ((s.slabs cls).flatMap s.frees ++ live.filterMap (Object.slotOf cls)).Nodup :=
  (balanced.slotted cls small).nodup_iff.mpr (balanced.flatMap_slots_nodup small)

theorem class_small {object : Object} (member : object ∈ live) (origin : object.origin = .slot cls) :
    cls < slabNumClasses ∧ object.size.toNat ≤ classBytes cls := by
  have served := balanced.served object member
  rw [Object.Served, origin] at served
  exact classFor_eq_some served

theorem slot_home {object : Object} (member : object ∈ live) (origin : object.origin = .slot cls) :
    ∃ base ∈ s.slabs cls, object.ptr ∈ slots cls base ∧
      ∀ other ∈ s.slabs cls, object.ptr ∉ s.frees other := by
  have small := (balanced.class_small member origin).1
  have listed : object.ptr ∈ live.filterMap (Object.slotOf cls) :=
    List.mem_filterMap.mpr ⟨object, member, Object.slotOf_eq_some.mpr ⟨origin, rfl⟩⟩
  have carved := (balanced.slotted cls small).mem_iff.mp (List.mem_append_right _ listed)
  obtain ⟨base, isSlab, inPage⟩ := List.mem_flatMap.mp carved
  refine ⟨base, isSlab, inPage, fun other isSlab' isFree => ?_⟩
  exact List.disjoint_of_nodup_append (balanced.slots_once small)
    (List.mem_flatMap.mpr ⟨other, isSlab', isFree⟩) listed

theorem frees_nodup (small : cls < slabNumClasses) (member : base ∈ s.slabs cls) :
    (s.frees base).Nodup := by
  have once := List.Nodup.of_append_left (balanced.slots_once small)
  exact (List.nodup_flatMap.mp once).1 base member

theorem frees_length (small : cls < slabNumClasses) (member : base ∈ s.slabs cls) :
    (s.frees base).length ≤ slotCount cls := by
  have carved := (balanced.frees_nodup small member).subperm (balanced.threaded cls small base member)
  have bound := carved.length_le
  rwa [slots_length] at bound

theorem large_fits {object : Object} {block : Handle} (member : object ∈ live)
    (origin : object.origin = .large block) :
    object.ptr = block.1 + hhdm + 16 ∧ object.size.toNat + 16 ≤ 4096 * 2 ^ block.2 := by
  have served := balanced.served object member
  rw [Object.Served, origin] at served
  obtain ⟨-, inRange, order, place⟩ := served
  have enough := (orderForBytes_eq_some order).2
  rw [largeDataOff_eq] at place enough
  have sum : ((16 : Word) + object.size).toNat = 16 + object.size.toNat := by bv_omega
  rw [sum] at enough
  exact ⟨place, by omega⟩

theorem block_aligned {object : Object} {block : Handle} (member : object ∈ live)
    (origin : object.origin = .large block) : (block.1 + hhdm).toNat % 4096 = 0 := by
  obtain ⟨-, whole⟩ := balanced.tiled.heldAligned _ (balanced.block_held member origin)
  obtain ⟨index, position⟩ := whole.mono (Nat.zero_le _)
  have aligned := balanced.hhdmAligned
  bv_omega

end Facts

/-! ## Transfers -/

/-- A block that `buddy_alloc` returned belongs to nobody in the heap yet. -/
theorem borrow (balanced : Balanced managed hhdm others held live s) (order : Nat)
    (succeeded : (s.lists.alloc order).1 ≠ 0) :
    Balanced managed hhdm (((s.lists.alloc order).1, order) :: others)
      (((s.lists.alloc order).1, order) :: held) live
      { s with lists := (s.lists.alloc order).2 } where
  usable := balanced.usable
  hhdmAligned := balanced.hhdmAligned
  tiled := (balanced.tiled.alloc order balanced.usable.zero).2 succeeded
  owned := (balanced.owned.cons _).trans List.perm_middle.symm
  slotted := balanced.slotted
  threaded := balanced.threaded
  served := balanced.served

theorem giveBack {handle : Handle}
    (balanced : Balanced managed hhdm (handle :: others) held live s) :
    Balanced managed hhdm others (held.erase handle) live
      { s with lists := s.lists.free handle.1 handle.2 } where
  usable := balanced.usable
  hhdmAligned := balanced.hhdmAligned
  tiled := (balanced.tiled.perm
    (List.perm_cons_erase (balanced.other_held List.mem_cons_self))).free
  owned := by
    have inHand := List.perm_cons_erase (balanced.other_held List.mem_cons_self)
    exact (inHand.symm.trans (balanced.owned.trans List.perm_middle)).cons_inv
  slotted := balanced.slotted
  threaded := balanced.threaded
  served := balanced.served

/-- A borrowed page becomes a slab whose slots are all free. -/
theorem adoptPage (balanced : Balanced managed hhdm (pageHandle hhdm base :: others) held live s)
    (small : cls < slabNumClasses) {free : List Word} (carved : free.Perm (slots cls base)) :
    Balanced managed hhdm others held live
      { s with
        slabs := Function.update s.slabs cls (base :: s.slabs cls)
        frees := Function.update s.frees base free } := by
  have fresh : ∀ other, other < slabNumClasses → base ∉ s.slabs other := fun other inRange member =>
    balanced.page_notMem_others inRange member List.mem_cons_self
  have slabFrees : ∀ other, other < slabNumClasses →
      (s.slabs other).flatMap (Function.update s.frees base free) = (s.slabs other).flatMap s.frees :=
    fun other inRange => flatMap_update_of_notMem (fresh other inRange)
  refine ⟨balanced.usable, balanced.hhdmAligned, balanced.tiled, ?_, ?_, ?_, balanced.served⟩
  · have pages : (Shape.pages { s with
        slabs := Function.update s.slabs cls (base :: s.slabs cls)
        frees := Function.update s.frees base free } hhdm).Perm
          (pageHandle hhdm base :: s.pages hhdm) := by
      have inRange : cls ∈ List.range slabNumClasses := List.mem_range.mpr small
      have mapped : (fun other => ((Function.update s.slabs cls (base :: s.slabs cls)) other).map
          (pageHandle hhdm)) = Function.update (fun other => (s.slabs other).map (pageHandle hhdm)) cls
            (pageHandle hhdm base :: (s.slabs cls).map (pageHandle hhdm)) := by
        funext other
        by_cases same : other = cls
        · subst same
          simp
        · simp [Function.update_of_ne same]
      rw [Shape.pages, mapped]
      refine (flatMap_update inRange List.nodup_range).trans ?_
      rw [List.cons_append]
      exact (flatMap_split (fun other => (s.slabs other).map (pageHandle hhdm)) inRange).symm.cons _
    refine balanced.owned.trans (List.perm_middle.trans ?_)
    exact ((pages.append_right _).append_right _).symm
  · intro other inRange
    by_cases same : other = cls
    · subst same
      dsimp only
      rw [Function.update_self, List.flatMap_cons, List.flatMap_cons, Function.update_self,
        slabFrees other inRange, List.append_assoc]
      exact carved.append (balanced.slotted other inRange)
    · dsimp only
      rw [Function.update_of_ne same, slabFrees other inRange]
      exact balanced.slotted other inRange
  · intro other inRange page member
    dsimp only at member ⊢
    by_cases isNew : page = base
    · subst isNew
      by_cases same : other = cls
      · subst same
        rw [Function.update_self]
        exact carved.subset
      · rw [Function.update_of_ne same] at member
        exact absurd member (fresh other inRange)
    · rw [Function.update_of_ne isNew]
      by_cases same : other = cls
      · subst same
        rw [Function.update_self] at member
        exact balanced.threaded other inRange page ((List.mem_cons.mp member).resolve_left isNew)
      · rw [Function.update_of_ne same] at member
        exact balanced.threaded other inRange page member

theorem slotOf_large {object : Object} {block : Handle} (origin : object.origin = .large block)
    (cls : Nat) : object.slotOf cls = none := by
  rw [Object.slotOf, origin]

theorem adoptLarge {object : Object} {block : Handle}
    (balanced : Balanced managed hhdm (block :: others) held live s)
    (origin : object.origin = .large block) (served : object.Served hhdm) :
    Balanced managed hhdm others held (object :: live) s where
  usable := balanced.usable
  hhdmAligned := balanced.hhdmAligned
  tiled := balanced.tiled
  owned := by
    rw [List.filterMap_cons_some (Object.block_eq_some.mpr origin), List.append_assoc]
    refine balanced.owned.trans (List.perm_middle.trans ?_)
    rw [List.append_assoc]
    exact List.perm_middle.symm
  slotted := by
    intro cls small
    rw [List.filterMap_cons_none (slotOf_large origin cls)]
    exact balanced.slotted cls small
  threaded := balanced.threaded
  served := by
    intro other member
    rcases List.mem_cons.mp member with rfl | member
    · exact served
    · exact balanced.served other member

theorem dropLarge {object : Object} {block : Handle}
    (balanced : Balanced managed hhdm others held live s) (member : object ∈ live)
    (origin : object.origin = .large block) :
    Balanced managed hhdm (block :: others) held (live.erase object) s where
  usable := balanced.usable
  hhdmAligned := balanced.hhdmAligned
  tiled := balanced.tiled
  owned := by
    have split := (List.perm_cons_erase member).filterMap Object.block
    rw [List.filterMap_cons_some (Object.block_eq_some.mpr origin)] at split
    refine balanced.owned.trans (((split.append_left _).append_right _).trans ?_)
    rw [List.append_assoc, List.append_assoc]
    exact List.Perm.append_left _ List.perm_middle.symm
  slotted := by
    intro cls small
    have split := (List.perm_cons_erase member).filterMap (Object.slotOf cls)
    rw [List.filterMap_cons_none (slotOf_large origin cls)] at split
    exact (split.symm.append_left _).trans (balanced.slotted cls small)
  threaded := balanced.threaded
  served := fun other present => balanced.served other (List.mem_of_mem_erase present)

theorem slotOf_other {object : Object} {other : Nat} (origin : object.origin = .slot cls)
    (different : other ≠ cls) : object.slotOf other = none := by
  rw [Object.slotOf, origin]
  exact if_neg fun same => different same.symm

theorem block_slot {object : Object} (origin : object.origin = .slot cls) : object.block = none := by
  rw [Object.block, origin]

/-- The head of a free list becomes a live object. -/
theorem pop (balanced : Balanced managed hhdm others held live s) {object : Object}
    {free : List Word} (small : cls < slabNumClasses) (member : base ∈ s.slabs cls)
    (front : s.frees base = object.ptr :: free) (origin : object.origin = .slot cls)
    (served : object.Served hhdm) :
    Balanced managed hhdm others held (object :: live)
      { s with frees := Function.update s.frees base free } where
  usable := balanced.usable
  hhdmAligned := balanced.hhdmAligned
  tiled := balanced.tiled
  owned := by
    rw [List.filterMap_cons_none (block_slot origin)]
    exact balanced.owned
  slotted := by
    intro other inRange
    dsimp only
    by_cases same : other = cls
    · subst same
      rw [List.filterMap_cons_some (Object.slotOf_eq_some.mpr ⟨origin, rfl⟩)]
      have before := flatMap_split s.frees member
      rw [front, List.cons_append] at before
      have after : ((s.slabs other).flatMap (Function.update s.frees base free)).Perm
          (free ++ ((s.slabs other).erase base).flatMap s.frees) :=
        flatMap_update member (balanced.slabs_nodup inRange)
      refine List.Perm.trans ?_ (balanced.slotted other inRange)
      exact List.perm_middle.trans (((after.cons _).trans before.symm).append_right _)
    · rw [List.filterMap_cons_none (slotOf_other origin same), flatMap_update_of_notMem]
      · exact balanced.slotted other inRange
      · exact fun present => same (balanced.class_unique inRange present small member)
  threaded := by
    intro other inRange page present
    dsimp only
    by_cases isBase : page = base
    · subst isBase
      rw [Function.update_self]
      refine fun slot inFree => balanced.threaded other inRange page present ?_
      rw [front]
      exact List.mem_cons_of_mem _ inFree
    · rw [Function.update_of_ne isBase]
      exact balanced.threaded other inRange page present
  served := by
    intro other present
    rcases List.mem_cons.mp present with rfl | present
    · exact served
    · exact balanced.served other present

/-- A live object goes back to the front of the free list of its slab. -/
theorem push (balanced : Balanced managed hhdm others held live s) {object : Object}
    (small : cls < slabNumClasses) (isSlab : base ∈ s.slabs cls) (member : object ∈ live)
    (origin : object.origin = .slot cls) (inPage : object.ptr ∈ slots cls base) :
    Balanced managed hhdm others held (live.erase object)
      { s with frees := Function.update s.frees base (object.ptr :: s.frees base) } where
  usable := balanced.usable
  hhdmAligned := balanced.hhdmAligned
  tiled := balanced.tiled
  owned := by
    have split := (List.perm_cons_erase member).filterMap Object.block
    rw [List.filterMap_cons_none (block_slot origin)] at split
    exact balanced.owned.trans ((split.append_left _).append_right _)
  slotted := by
    intro other inRange
    dsimp only
    have split := (List.perm_cons_erase member).filterMap (Object.slotOf other)
    by_cases same : other = cls
    · subst same
      rw [List.filterMap_cons_some (Object.slotOf_eq_some.mpr ⟨origin, rfl⟩)] at split
      have before := flatMap_split s.frees isSlab
      have after : ((s.slabs other).flatMap
          (Function.update s.frees base (object.ptr :: s.frees base))).Perm
            (object.ptr :: s.frees base ++ ((s.slabs other).erase base).flatMap s.frees) :=
        flatMap_update isSlab (balanced.slabs_nodup inRange)
      refine List.Perm.trans ?_ (balanced.slotted other inRange)
      refine List.Perm.trans ?_ (split.symm.append_left _)
      exact ((after.trans (before.symm.cons _)).append_right _).trans List.perm_middle.symm
    · rw [List.filterMap_cons_none (slotOf_other origin same)] at split
      rw [flatMap_update_of_notMem]
      · exact (split.symm.append_left _).trans (balanced.slotted other inRange)
      · exact fun present => same (balanced.class_unique inRange present small isSlab)
  threaded := by
    intro other inRange page present
    dsimp only
    by_cases isBase : page = base
    · subst isBase
      obtain rfl := balanced.class_unique inRange present small isSlab
      rw [Function.update_self]
      exact List.cons_subset.mpr ⟨inPage, balanced.threaded other inRange page present⟩
    · rw [Function.update_of_ne isBase]
      exact balanced.threaded other inRange page present
  served := fun other present => balanced.served other (List.mem_of_mem_erase present)

end Balanced

end ScrapOS.Slab
