import ScrapOS.Slab.Regions

/-! The memory and the globals of `slab.c` encode the books of the heap. Slots and headers
of a page are apart, so carving a page, popping a slot and pushing one change the header and
the free list of a single slab. -/

set_option autoImplicit false

namespace ScrapOS.Slab

open Buddy

/-- The fields of a slab header that never change. -/
structure HeaderAt (m : Memory) (cacheAt base : Word) (total : Nat) : Prop where
  marked : magic m base = slabMagic
  ofCache : cache m base = cacheAt
  carved : totalSlots m base = BitVec.ofNat 32 total

/-- The header at `base` describes a slab of the cache at `cacheAt` whose free list is `free`. -/
structure SlabAt (m : Memory) (cacheAt base : Word) (total : Nat) (free : List Word) : Prop
    extends HeaderAt m cacheAt base total where
  threaded : Chain m.load64 (Slab.free m base) free 0
  counted : freeCount m base = BitVec.ofNat 32 free.length

structure CacheHolds (m : Memory) (c : KmemCache) (cls : Nat) (slabs : List Word)
    (frees : Word → List Word) : Prop where
  objSize : c.objSize = classSize cls
  linked : Chain (next m) c.slabs slabs 0
  slabCount : c.slabCount = BitVec.ofNat 64 slabs.length
  totalSlots : c.totalSlots = BitVec.ofNat 64 (slabs.length * slotCount cls)
  freeSlots : c.freeSlots = BitVec.ofNat 64 (slabs.flatMap frees).length

structure LargeAt (m : Memory) (hdr : Word) (o : Nat) : Prop where
  marked : magic m hdr = largeMagic
  ordered : order m hdr = BitVec.ofNat 32 o

/-- Memory and globals encode the books. -/
structure Encodes (h : Heap) (live : List Object) (s : Shape) : Prop where
  hhdm : h.slab.gHhdm = h.buddy.gHhdm
  free : Holds h.mem h.buddy s.lists
  caches : ∀ cls, cls < slabNumClasses →
    CacheHolds h.mem (h.slab.caches cls) cls (s.slabs cls) s.frees
  slabs : ∀ cls, cls < slabNumClasses → ∀ base ∈ s.slabs cls,
    SlabAt h.mem (h.slab.cacheAt cls) base (slotCount cls) (s.frees base)
  larges : ∀ object ∈ live, ∀ block, object.origin = .large block →
    LargeAt h.mem (block.1 + h.slab.gHhdm) block.2

/-! ## Facts that depend on few bytes -/

section Congr

variable {m m' : Memory} {cacheAt base hdr : Word} {total o : Nat} {free : List Word}

theorem SlabAt.congr (slab : SlabAt m cacheAt base total free)
    (header : Set.EqOn m' m (span base 40))
    (links : ∀ slot ∈ free, Set.EqOn m' m (span slot 8)) : SlabAt m' cacheAt base total free := by
  have field64 : ∀ offset : Word, offset.toNat + 8 ≤ 40 →
      m'.load64 (base + offset) = m.load64 (base + offset) := fun offset fits =>
    Memory.load64_congr (header.mono (span_subset (by bv_omega)))
  have field32 : ∀ offset : Word, offset.toNat + 4 ≤ 40 →
      m'.load32 (base + offset) = m.load32 (base + offset) := fun offset fits =>
    Memory.load32_congr (header.mono (span_subset (by bv_omega)))
  have head : Slab.free m' base = Slab.free m base := field64 24 (by decide)
  refine ⟨⟨?_, ?_, ?_⟩, ?_, ?_⟩
  · rw [magic, Memory.load64_congr (header.mono (span_mono (by decide)))]
    exact slab.marked
  · rw [cache, field64 8 (by decide)]
    exact slab.ofCache
  · rw [totalSlots, field32 36 (by decide)]
    exact slab.carved
  · rw [head]
    exact slab.threaded.congr fun slot member => Memory.load64_congr (links slot member)
  · rw [freeCount, field32 32 (by decide)]
    exact slab.counted

theorem next_congr (header : Set.EqOn m' m (span base 40)) : next m' base = next m base :=
  Memory.load64_congr (header.mono (span_subset (by bv_omega)))

theorem LargeAt.congr (large : LargeAt m hdr o) (header : Set.EqOn m' m (span hdr 16)) :
    LargeAt m' hdr o where
  marked := by
    rw [magic, Memory.load64_congr (header.mono (span_mono (by decide)))]
    exact large.marked
  ordered := by
    rw [order, Memory.load32_congr (header.mono (span_subset (by bv_omega)))]
    exact large.ordered

end Congr

/-! ## Writes within one page -/

section Page

variable {m : Memory} {cls i : Nat} {cacheAt base slot : Word} {total : Nat} {free : List Word}

/-- The links of slots stay clear of the header. -/
theorem slot_far (small : cls < slabNumClasses) (member : slot ∈ slots cls base) :
    48 ≤ (slot - base).toNat ∧ (slot - base).toNat + 16 ≤ 4096 := by
  have distance := slot_distance small member
  have sizes := class_bounds small
  omega

theorem load64_store64_slot {other value : Word} (small : cls < slabNumClasses)
    (member : slot ∈ slots cls base) (otherMember : other ∈ slots cls base)
    (different : other ≠ slot) : (m.store64 slot value).load64 other = m.load64 other := by
  have sizes := class_bounds small
  refine Memory.load64_eq_of_eqOn_compl (Memory.store64_eqOn_compl m slot value) ?_
  exact (slot_disjoint_slot small otherMember member different).mono (span_mono (by omega))
    (span_mono (by omega))

theorem load64_setFree_slot {value : Word} (small : cls < slabNumClasses)
    (member : slot ∈ slots cls base) : (setFree m base value).load64 slot = m.load64 slot := by
  have far := slot_far small member
  exact Memory.load64_store64_of_apart m (by bv_omega) (by bv_omega)

theorem load64_setFreeCount_slot {value : BitVec 32} (small : cls < slabNumClasses)
    (member : slot ∈ slots cls base) : (setFreeCount m base value).load64 slot = m.load64 slot := by
  have far := slot_far small member
  exact Memory.load64_store32_of_apart m (by bv_omega) (by bv_omega)

theorem setFree_frame (m : Memory) (base value : Word) :
    Set.EqOn (setFree m base value) m (span (base + 24) 12)ᶜ :=
  eqOn_compl_mono (Memory.store64_eqOn_compl ..) (span_mono (by decide))

theorem setFreeCount_frame (m : Memory) (base : Word) (value : BitVec 32) :
    Set.EqOn (setFreeCount m base value) m (span (base + 24) 12)ᶜ :=
  eqOn_compl_mono (Memory.store32_eqOn_compl ..) (span_subset (by bv_omega))

/-- Writes to the links and the counts of a slab, or to its slots. -/
abbrev bodyBytes (base : Word) : Set Word := span (base + 16) 20 ∪ span (base + 48) 4048

theorem HeaderAt.keep {m' : Memory} (header : HeaderAt m cacheAt base total)
    (frame : Set.EqOn m' m (bodyBytes base)ᶜ) : HeaderAt m' cacheAt base total := by
  have clear : ∀ (offset : Word) (count : Nat),
      offset.toNat + count ≤ 16 ∨ 36 ≤ offset.toNat ∧ offset.toNat + count ≤ 48 →
        Disjoint (span (base + offset) count) (bodyBytes base) := by
    intro offset count place
    refine Set.disjoint_left.mpr fun address inField written => ?_
    simp only [Set.mem_union, mem_span] at inField written
    bv_omega
  have start := clear 0 8 (by decide)
  rw [show base + 0 = base from BitVec.add_zero base] at start
  refine ⟨?_, ?_, ?_⟩
  · rw [magic, Memory.load64_eq_of_eqOn_compl frame start]
    exact header.marked
  · rw [cache, Memory.load64_eq_of_eqOn_compl frame (clear 8 8 (by decide))]
    exact header.ofCache
  · rw [totalSlots, Memory.load32_eq_of_eqOn_compl frame (clear 36 4 (by decide))]
    exact header.carved

theorem listBytes_subset (base : Word) : span (base + 24) 12 ⊆ span (base + 16) 20 :=
  span_subset (by bv_omega)

theorem bodyBytes_subset (base : Word) : bodyBytes base ⊆ span base 4096 :=
  Set.union_subset (span_subset (by bv_omega)) (span_subset (by bv_omega))

theorem next_of_frame {m' : Memory}
    (frame : Set.EqOn m' m (span (base + 24) 12 ∪ span (base + 48) 4048)ᶜ) :
    next m' base = next m base := by
  refine Memory.load64_eq_of_eqOn_compl frame (Set.disjoint_left.mpr fun address inField written => ?_)
  simp only [Set.mem_union, mem_span] at inField written
  bv_omega

/-- Popping writes only the head and the count of the free list. -/
theorem pop_page (small : cls < slabNumClasses) (slab : SlabAt m cacheAt base total (slot :: free))
    (inPage : slot :: free ⊆ slots cls base) {m' : Memory}
    (popped : m' = setFreeCount (setFree m base (m.load64 (Slab.free m base))) base
      (freeCount (setFree m base (m.load64 (Slab.free m base))) base - 1)) :
    SlabAt m' cacheAt base total free ∧
      Set.EqOn m' m (span (base + 24) 12)ᶜ := by
  obtain ⟨isHead, rest⟩ := slab.threaded
  have frame : Set.EqOn m' m (span (base + 24) 12)ᶜ := by
    rw [popped]
    exact eqOn_compl_mono (eqOn_compl_trans (setFree_frame ..) (setFreeCount_frame ..))
      (Set.union_subset (le_refl _) (le_refl _))
  refine ⟨⟨slab.keep (eqOn_compl_mono frame
    ((listBytes_subset base).trans Set.subset_union_left)), ?_, ?_⟩, frame⟩
  · have head : Slab.free m' base = m.load64 slot := by
      rw [popped, isHead, Slab.free, setFreeCount,
        Memory.load64_store32_of_apart _ (by bv_omega) (by bv_omega)]
      exact Memory.load64_store64 ..
    rw [head]
    refine rest.congr fun other member => ?_
    have isSlot := inPage (List.mem_cons_of_mem _ member)
    rw [popped, load64_setFreeCount_slot small isSlot, load64_setFree_slot small isSlot]
  · have before : freeCount (setFree m base (m.load64 (Slab.free m base))) base = freeCount m base :=
      Memory.load32_store64_of_apart m (by bv_omega) (by bv_omega)
    have after : freeCount m' base = freeCount m base - 1 := by
      rw [popped, before]
      exact Memory.load32_store32 ..
    rw [after, slab.counted, List.length_cons]
    bv_omega

/-- Pushing writes the link of the slot besides. -/
theorem push_page (small : cls < slabNumClasses) (slab : SlabAt m cacheAt base total free)
    (inPage : slot ∈ slots cls base) (freeInPage : free ⊆ slots cls base) (inUse : slot ∉ free)
    {m' : Memory} (pushed : m' = setFreeCount
      (setFree (m.store64 slot (Slab.free m base)) base slot) base
      (freeCount (setFree (m.store64 slot (Slab.free m base)) base slot) base + 1)) :
    SlabAt m' cacheAt base total (slot :: free) ∧
      Set.EqOn m' m (span (base + 24) 12 ∪ span slot 8)ᶜ := by
  have far := slot_far small inPage
  have frame : Set.EqOn m' m (span (base + 24) 12 ∪ span slot 8)ᶜ := by
    rw [pushed]
    refine eqOn_compl_mono (eqOn_compl_trans (eqOn_compl_trans (Memory.store64_eqOn_compl m slot _)
      (setFree_frame ..)) (setFreeCount_frame ..)) ?_
    exact Set.union_subset (Set.union_subset Set.subset_union_right Set.subset_union_left)
      Set.subset_union_left
  have within : span slot 8 ⊆ span (base + 48) 4048 := span_subset (by bv_omega)
  refine ⟨⟨slab.keep (eqOn_compl_mono frame
    (Set.union_subset_union (listBytes_subset base) within)), ?_, ?_⟩, frame⟩
  · have head : Slab.free m' base = slot := by
      rw [pushed, Slab.free, setFreeCount,
        Memory.load64_store32_of_apart _ (by bv_omega) (by bv_omega)]
      exact Memory.load64_store64 ..
    have link : m'.load64 slot = Slab.free m base := by
      rw [pushed, load64_setFreeCount_slot small inPage, load64_setFree_slot small inPage]
      exact Memory.load64_store64 ..
    refine ⟨head, ?_⟩
    rw [link]
    refine slab.threaded.congr fun other member => ?_
    have isSlot := freeInPage member
    rw [pushed, load64_setFreeCount_slot small isSlot, load64_setFree_slot small isSlot,
      load64_store64_slot small inPage isSlot fun same => inUse (same ▸ member)]
  · have before : freeCount (setFree (m.store64 slot (Slab.free m base)) base slot) base =
        freeCount m base := by
      have unlinked : freeCount (m.store64 slot (Slab.free m base)) base = freeCount m base :=
        Memory.load32_store64_of_apart m (by bv_omega) (by bv_omega)
      rw [← unlinked]
      exact Memory.load32_store64_of_apart _ (by bv_omega) (by bv_omega)
    have after : freeCount m' base = freeCount m base + 1 := by
      rw [pushed, before]
      exact Memory.load32_store32 ..
    rw [after, slab.counted, List.length_cons]
    bv_omega

/-! ## Carving a page -/

def firstSlots (cls : Nat) (base : Word) (i : Nat) : List Word :=
  (List.range i).map (slotAt base (classSize cls))

theorem firstSlots_subset (bounded : i ≤ slotCount cls) : firstSlots cls base i ⊆ slots cls base := by
  intro slot member
  obtain ⟨j, earlier, rfl⟩ := List.mem_map.mp member
  exact mem_slots.mpr ⟨j, Nat.lt_of_lt_of_le (List.mem_range.mp earlier) bounded, rfl⟩

/-- Each round of the loop puts one more slot in front of the free list. -/
theorem threadSlots_spec (small : cls < slabNumClasses) (empty : Slab.free m base = 0)
    (bounded : i ≤ slotCount cls) :
    Chain (threadSlots m base (classSize cls) i).load64
        (Slab.free (threadSlots m base (classSize cls) i) base) (firstSlots cls base i).reverse 0 ∧
      Set.EqOn (threadSlots m base (classSize cls) i) m
        (span (base + 24) 8 ∪ span (base + 48) 4048)ᶜ := by
  induction i with
  | zero => exact ⟨empty, fun _ _ => rfl⟩
  | succ i ih =>
      obtain ⟨chain, frame⟩ := ih (Nat.le_of_succ_le bounded)
      have inPage : slotAt base (classSize cls) i ∈ slots cls base := mem_slots.mpr ⟨i, bounded, rfl⟩
      have far := slot_far small inPage
      have fresh : slotAt base (classSize cls) i ∉ firstSlots cls base i := by
        have once : (slots cls base).Nodup := slots_nodup small
        intro member
        obtain ⟨j, earlier, same⟩ := List.mem_map.mp member
        have inRange : j < i := List.mem_range.mp earlier
        have indices := List.inj_on_of_nodup_map once (List.mem_range.mpr (by omega))
          (List.mem_range.mpr bounded) same
        omega
      have shape : (firstSlots cls base (i + 1)).reverse =
          slotAt base (classSize cls) i :: (firstSlots cls base i).reverse := by
        simp [firstSlots, List.range_succ]
      rw [threadSlots, shape]
      generalize threadSlots m base (classSize cls) i = m₁ at *
      generalize slotAt base (classSize cls) i = slot at *
      refine ⟨⟨Memory.load64_store64 .., ?_⟩, ?_⟩
      · have link : (setFree (m₁.store64 slot (Slab.free m₁ base)) base slot).load64 slot =
            Slab.free m₁ base := by
          rw [load64_setFree_slot small inPage]
          exact Memory.load64_store64 ..
        rw [link]
        refine chain.congr fun other member => ?_
        rw [List.mem_reverse] at member
        have isSlot := firstSlots_subset (Nat.le_of_succ_le bounded) member
        rw [load64_setFree_slot small isSlot,
          load64_store64_slot small inPage isSlot fun same => fresh (same ▸ member)]
      · have within : span slot 8 ⊆ span (base + 48) 4048 := span_subset (by bv_omega)
        refine eqOn_compl_mono (eqOn_compl_trans (eqOn_compl_trans frame
          (Memory.store64_eqOn_compl m₁ slot _)) (Memory.store64_eqOn_compl _ (base + 24) slot)) ?_
        exact Set.union_subset (Set.union_subset (le_refl _)
          (within.trans Set.subset_union_right)) Set.subset_union_left

theorem laySlab_spec (m : Memory) (base cacheAt slabs : Word) (small : cls < slabNumClasses) :
    SlabAt (laySlab m base cacheAt (classSize cls) slabs (BitVec.ofNat 32 (slotCount cls))) cacheAt
        base (slotCount cls) (slots cls base).reverse ∧
      next (laySlab m base cacheAt (classSize cls) slabs (BitVec.ofNat 32 (slotCount cls))) base =
        slabs ∧
      Set.EqOn (laySlab m base cacheAt (classSize cls) slabs (BitVec.ofNat 32 (slotCount cls))) m
        (span base 4096)ᶜ := by
  have counts := slotCount_bounds small
  have rounds : (BitVec.ofNat 32 (slotCount cls)).toNat = slotCount cls := by
    rw [BitVec.toNat_ofNat, Nat.mod_eq_of_lt (by omega)]
  unfold laySlab
  dsimp only
  rw [rounds]
  generalize header : setFree (setFreeCount (setTotalSlots (setCacheField (setMagic m base slabMagic)
    base cacheAt) base (BitVec.ofNat 32 (slotCount cls))) base (BitVec.ofNat 32 (slotCount cls)))
      base 0 = m₁
  have headerFrame : Set.EqOn m₁ m (span base 4096)ᶜ := by
    subst header
    intro address outside
    rw [Set.mem_compl_iff, mem_span] at outside
    rw [setFree, Memory.store64_eqOn_compl, setFreeCount, Memory.store32_eqOn_compl, setTotalSlots,
      Memory.store32_eqOn_compl, setCacheField, Memory.store64_eqOn_compl, setMagic,
      Memory.store64_eqOn_compl]
    all_goals rw [Set.mem_compl_iff, mem_span]
    all_goals bv_omega
  have fields : HeaderAt m₁ cacheAt base (slotCount cls) ∧ Slab.free m₁ base = 0 ∧
      freeCount m₁ base = BitVec.ofNat 32 (slotCount cls) := by
    subst header
    simp only [setFree, setFreeCount, setTotalSlots, setCacheField, setMagic]
    refine ⟨⟨?_, ?_, ?_⟩, Memory.load64_store64 .., ?_⟩
    · rw [magic, Memory.load64_store64_of_apart, Memory.load64_store32_of_apart,
        Memory.load64_store32_of_apart, Memory.load64_store64_of_apart, Memory.load64_store64]
      all_goals bv_omega
    · rw [cache, Memory.load64_store64_of_apart, Memory.load64_store32_of_apart,
        Memory.load64_store32_of_apart, Memory.load64_store64]
      all_goals bv_omega
    · rw [totalSlots, Memory.load32_store64_of_apart, Memory.load32_store32_of_apart,
        Memory.load32_store32]
      all_goals bv_omega
    · rw [freeCount, Memory.load32_store64_of_apart, Memory.load32_store32]
      all_goals bv_omega
  obtain ⟨header, empty, counted⟩ := fields
  obtain ⟨chain, frame⟩ := threadSlots_spec small empty (Nat.le_refl (slotCount cls))
  generalize threadSlots m₁ base (classSize cls) (slotCount cls) = m₂ at chain frame ⊢
  have linkFrame : Set.EqOn (setNext m₂ base slabs) m₂ (span (base + 16) 8)ᶜ :=
    Memory.store64_eqOn_compl ..
  have frame₁ : Set.EqOn (setNext m₂ base slabs) m₁ (bodyBytes base)ᶜ := by
    refine eqOn_compl_mono (eqOn_compl_trans frame linkFrame) (Set.union_subset ?_ ?_)
    · exact Set.union_subset_union_left _ (span_subset (by bv_omega))
    · exact (span_mono (by decide)).trans Set.subset_union_left
  refine ⟨⟨header.keep frame₁, ?_, ?_⟩, Memory.load64_store64 .., ?_⟩
  · have head : Slab.free (setNext m₂ base slabs) base = Slab.free m₂ base :=
      Memory.load64_store64_of_apart m₂ (by bv_omega) (by bv_omega)
    rw [head]
    refine chain.congr fun slot member => ?_
    have far := slot_far small (firstSlots_subset (Nat.le_refl _) (List.mem_reverse.mp member))
    exact Memory.load64_store64_of_apart m₂ (by bv_omega) (by bv_omega)
  · have linked : freeCount (setNext m₂ base slabs) base = freeCount m₂ base :=
      Memory.load32_store64_of_apart m₂ (by bv_omega) (by bv_omega)
    have kept : freeCount m₂ base = freeCount m₁ base := by
      refine Memory.load32_eq_of_eqOn_compl frame (Set.disjoint_left.mpr fun address inField written => ?_)
      simp only [Set.mem_union, mem_span] at inField written
      bv_omega
    rw [linked, kept, counted, List.length_reverse, slots_length]
  · exact eqOn_compl_mono (eqOn_compl_trans headerFrame frame₁)
      (Set.union_subset (le_refl _) (bodyBytes_subset base))

end Page

section Encoding

variable {h : Heap} {live : List Object} {s : Shape} {cls : Nat} {base : Word} {m' : Memory}

/-- The books are kept when the buddy allocator has new lists and no book byte changed. -/
theorem Encodes.congr (encodes : Encodes h live s) {buddy : Buddy.Globals} {lists : Lists}
    {held : List Handle} (sameHhdm : buddy.gHhdm = h.buddy.gHhdm) (free : Holds m' buddy lists)
    (agree : Set.EqOn m' h.mem (bookBytes h.slab.gHhdm live s)) :
    Encodes { h with mem := m', buddy, held } live { s with lists } where
  hhdm := encodes.hhdm.trans sameHhdm.symm
  free := free
  caches := by
    intro cls small
    have cached := encodes.caches cls small
    refine ⟨cached.objSize, ?_, cached.slabCount, cached.totalSlots, cached.freeSlots⟩
    refine cached.linked.congr fun base isSlab => next_congr ?_
    exact agree.mono fun _ inHeader => .header small isSlab inHeader
  slabs := by
    intro cls small base isSlab
    refine (encodes.slabs cls small base isSlab).congr ?_ ?_
    · exact agree.mono fun _ inHeader => .header small isSlab inHeader
    · exact fun slot isFree => agree.mono fun _ inSlot => .free small isSlab isFree inSlot
  larges := by
    intro object member block origin
    refine (encodes.larges object member block origin).congr ?_
    exact agree.mono fun _ inHeader => .large member origin inHeader

/-- Writes that leave the books and the links of the free blocks alone. -/
theorem Encodes.write (encodes : Encodes h live s)
    (books : Set.EqOn m' h.mem (bookBytes h.slab.gHhdm live s))
    (links : Set.EqOn m' h.mem (linkBytes h.slab.gHhdm s.lists)) :
    Encodes { h with mem := m' } live s := by
  rw [encodes.hhdm] at links
  exact encodes.congr rfl (encodes.free.congr links) books

/-- The objects and the free lists change in the page of one slab only. -/
theorem Encodes.exchange {managed : Set Nat} {others : List Handle} {live' : List Object}
    {free : List Word} {freeSlots : Word} (encodes : Encodes h live s)
    (balanced : Balanced managed h.slab.gHhdm others h.held live s) (small : cls < slabNumClasses)
    (isSlab : base ∈ s.slabs cls) (inPage : Set.EqOn m' h.mem (span base 4096)ᶜ)
    (nextKept : next m' base = next h.mem base)
    (slab : SlabAt m' (h.slab.cacheAt cls) base (slotCount cls) free)
    (counted : freeSlots = BitVec.ofNat 64
      ((s.slabs cls).flatMap (Function.update s.frees base free)).length)
    (fewer : ∀ object ∈ live', ∀ block, object.origin = .large block → object ∈ live) :
    Encodes { h with
        mem := m'
        slab := h.slab.setCache cls { h.slab.caches cls with freeSlots } } live'
      { s with frees := Function.update s.frees base free } := by
  have apart : ∀ {other otherCls}, otherCls < slabNumClasses → other ∈ s.slabs otherCls →
      other ≠ base → Set.EqOn m' h.mem (span other 4096) := by
    intro other otherCls otherSmall otherIsSlab different
    exact inPage.mono (balanced.pages_disjoint otherSmall otherIsSlab small isSlab
      different).subset_compl_right
  have nextSame : ∀ otherCls, otherCls < slabNumClasses → ∀ other ∈ s.slabs otherCls,
      next m' other = next h.mem other := by
    intro otherCls otherSmall other otherIsSlab
    by_cases same : other = base
    · rw [same, nextKept]
    · exact next_congr ((apart otherSmall otherIsSlab same).mono (span_mono (by decide)))
  refine ⟨encodes.hhdm, ?_, ?_, ?_, ?_⟩
  · have links := balanced.page_links small isSlab
    rw [encodes.hhdm] at links
    exact encodes.free.congr (inPage.mono links.symm.subset_compl_right)
  · intro otherCls otherSmall
    have cached := encodes.caches otherCls otherSmall
    have linked := cached.linked.congr (nextSame otherCls otherSmall)
    by_cases same : otherCls = cls
    · subst same
      simp only [Globals.setCache, Function.update_self]
      exact ⟨cached.objSize, linked, cached.slabCount, cached.totalSlots, counted⟩
    · simp only [Globals.setCache, Function.update_of_ne same]
      refine ⟨cached.objSize, linked, cached.slabCount, cached.totalSlots, ?_⟩
      rw [flatMap_update_of_notMem]
      · exact cached.freeSlots
      · exact fun present => same (balanced.class_unique otherSmall present small isSlab)
  · intro otherCls otherSmall other otherIsSlab
    dsimp only
    by_cases same : other = base
    · subst same
      obtain rfl := balanced.class_unique otherSmall otherIsSlab small isSlab
      rw [Function.update_self]
      exact slab
    · rw [Function.update_of_ne same]
      have kept := apart otherSmall otherIsSlab same
      refine (encodes.slabs otherCls otherSmall other otherIsSlab).congr ?_ ?_
      · exact kept.mono (span_mono (by decide))
      · intro slot isFree
        have sizes := class_bounds otherSmall
        have inside := (balanced.free_slot otherSmall otherIsSlab isFree).2
        exact kept.mono ((span_mono (by omega)).trans inside)
  · intro object member block origin
    have inLive := fewer object member block origin
    refine (encodes.larges object inLive block origin).congr ?_
    have pageApart := balanced.large_page inLive origin small isSlab
    exact inPage.mono ((Balanced.largeHeader_subset h.slab.gHhdm block).trans pageApart.subset_compl_right)

theorem slots_setWidth (small : cls < slabNumClasses) :
    (BitVec.ofNat 32 (slotCount cls)).setWidth 64 = BitVec.ofNat 64 (slotCount cls) := by
  have counts := slotCount_bounds small
  apply BitVec.eq_of_toNat_eq
  rw [BitVec.toNat_setWidth, BitVec.toNat_ofNat, BitVec.toNat_ofNat,
    Nat.mod_eq_of_lt (show slotCount cls < 2 ^ 32 by omega)]

theorem Encodes.adoptPage {free : List Word} (encodes : Encodes h live s)
    (small : cls < slabNumClasses)
    (fresh : ∀ other, other < slabNumClasses → base ∉ s.slabs other)
    (slab : SlabAt h.mem (h.slab.cacheAt cls) base (slotCount cls) free)
    (linked : next h.mem base = (h.slab.caches cls).slabs) (whole : free.length = slotCount cls) :
    Encodes { h with
        slab := h.slab.setCache cls { h.slab.caches cls with
          slabs := base
          slabCount := (h.slab.caches cls).slabCount + 1
          totalSlots := (h.slab.caches cls).totalSlots +
            (BitVec.ofNat 32 (slotCount cls)).setWidth 64
          freeSlots := (h.slab.caches cls).freeSlots +
            (BitVec.ofNat 32 (slotCount cls)).setWidth 64 } } live
      { s with
        slabs := Function.update s.slabs cls (base :: s.slabs cls)
        frees := Function.update s.frees base free } := by
  refine ⟨encodes.hhdm, encodes.free, ?_, ?_, encodes.larges⟩
  · intro other inRange
    have cached := encodes.caches other inRange
    by_cases same : other = cls
    · subst same
      simp only [Globals.setCache, Function.update_self, slots_setWidth inRange]
      refine ⟨cached.objSize, ⟨rfl, linked ▸ cached.linked⟩, ?_, ?_, ?_⟩
      · rw [cached.slabCount, List.length_cons, BitVec.ofNat_add]
        rfl
      · rw [cached.totalSlots, List.length_cons, Nat.succ_mul, BitVec.ofNat_add]
      · rw [cached.freeSlots, List.flatMap_cons, Function.update_self,
          flatMap_update_of_notMem (fresh other inRange), List.length_append, whole, Nat.add_comm,
          BitVec.ofNat_add]
    · simp only [Globals.setCache, Function.update_of_ne same]
      refine ⟨cached.objSize, cached.linked, cached.slabCount, cached.totalSlots, ?_⟩
      rw [flatMap_update_of_notMem (fresh other inRange)]
      exact cached.freeSlots
  · intro other inRange page isSlab
    dsimp only at isSlab ⊢
    by_cases isNew : page = base
    · subst isNew
      by_cases same : other = cls
      · subst same
        rw [Function.update_self]
        exact slab
      · rw [Function.update_of_ne same] at isSlab
        exact absurd isSlab (fresh other inRange)
    · rw [Function.update_of_ne isNew]
      by_cases same : other = cls
      · subst same
        rw [Function.update_self] at isSlab
        exact encodes.slabs other inRange page ((List.mem_cons.mp isSlab).resolve_left isNew)
      · rw [Function.update_of_ne same] at isSlab
        exact encodes.slabs other inRange page isSlab

end Encoding

end ScrapOS.Slab
