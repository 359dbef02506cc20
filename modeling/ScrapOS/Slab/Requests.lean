import ScrapOS.Slab.Safety

/-! Requests of any size: which calls of `kmalloc` return, which of them are refused, and
which states calls of any size can reach. -/

set_option autoImplicit false

namespace ScrapOS.Slab

open Buddy (Handle buddyMaxOrder)

/-! ## Sizes at the top of the word -/

/-- The request that a call serves. At the top of the word the sum of the header and the
size wraps, and the call serves a request for the rest of one page. -/
def granted (size : Word) : Word := if size.toNat + 16 < 2 ^ 64 then size else 4080

theorem largeBytes_toNat (size : Word) : (largeDataOff + size).toNat = (16 + size.toNat) % 2 ^ 64 := by
  rw [largeDataOff_eq, BitVec.toNat_add]
  rfl

theorem orderForBytes_page {bytes : Word} (small : bytes.toNat ≤ 4096) : orderForBytes bytes = some 0 :=
  orderForBytes_eq_some_iff.mpr ⟨by decide, by simpa using small, fun _ _ => Nat.zero_le _⟩

theorem kmalloc_granted (h : Heap) (size : Word) : kmalloc h (granted size) = kmalloc h size := by
  rw [granted]
  split
  · rfl
  next wraps =>
    have sum := largeBytes_toNat size
    have large : classFor size = none := classFor_eq_none_iff.mpr (by omega)
    have nonzero : size ≠ 0 := by bv_omega
    have page : orderForBytes (largeDataOff + size) = some 0 := orderForBytes_page (by omega)
    have largeToo : classFor 4080 = none := by decide
    have pageToo : orderForBytes (largeDataOff + 4080) = some 0 := by decide
    rw [kmalloc, kmalloc, if_neg nonzero, if_neg (by decide), large, largeToo]
    dsimp only
    rw [largeAlloc, largeAlloc, page, pageToo]

/-- The requests whose sum with the header is more than half the address space. -/
theorem kmalloc_stuck (h : Heap) {size : Word} (above : 2 ^ 63 < size.toNat + 16)
    (below : size.toNat + 16 < 2 ^ 64) : kmalloc h size = none := by
  have sum := largeBytes_toNat size
  have large : classFor size = none := classFor_eq_none_iff.mpr (by omega)
  have nonzero : size ≠ 0 := by bv_omega
  have unordered : orderForBytes (largeDataOff + size) = none := by
    rw [← Option.not_isSome_iff_eq_none, orderForBytes_isSome_iff]
    omega
  rw [kmalloc, if_neg nonzero, large]
  dsimp only
  rw [largeAlloc, unordered]

theorem size_le_of_kmalloc {h : Heap} {size : Word} {result : Word × Heap}
    (returned : kmalloc h size = some result) :
    size.toNat + 16 ≤ 2 ^ 63 ∨ 2 ^ 64 ≤ size.toNat + 16 := by
  by_contra between
  rw [kmalloc_stuck h (by omega) (by omega)] at returned
  cases returned

theorem granted_le {size : Word} (inRange : size.toNat + 16 ≤ 2 ^ 63 ∨ 2 ^ 64 ≤ size.toNat + 16) :
    (granted size).toNat + 16 ≤ 2 ^ 63 := by
  rw [granted]
  split
  · omega
  · decide

/-! ## Calls of any size -/

/-- A call of the heap or a write of a caller. The caller who asks for `size` bytes writes to
no more than the block that was granted. -/
inductive Call : Config → Config → Prop where
  | kmalloc {c : Config} {size ptr : Word} {h' : Heap} : kmalloc c.heap size = some (ptr, h') →
      Call c { heap := h', live := c.heap.serve c.live (granted size) ptr }
  | kfree {c : Config} {object : Object} {h' : Heap} :
      object ∈ c.live → kfree c.heap object.ptr = some h' →
      Call c { heap := h', live := c.live.erase object }
  | write {c : Config} {m' : Memory} :
      Set.EqOn m' c.heap.mem (liveBytes c.live)ᶜ → Call c { c with heap := { c.heap with mem := m' } }

abbrev Calls : Config → Config → Prop := Relation.ReflTransGen Call

theorem Call.step {c c' : Config} (called : Call c c') : Step c c' := by
  cases called with
  | kmalloc returned =>
    have inRange := granted_le (size_le_of_kmalloc returned)
    exact .kmalloc inRange ((kmalloc_granted _ _).trans returned)
  | kfree member returned => exact .kfree member returned
  | write inside => exact .write inside

theorem Step.call {c c' : Config} (stepped : Step c c') : Call c c' := by
  cases stepped with
  | @kmalloc size ptr h' inRange returned =>
    have same : granted size = size := if_pos (by omega)
    have called := Call.kmalloc returned
    rwa [same] at called
  | kfree member returned => exact .kfree member returned
  | write inside => exact .write inside

/-- Calls of any size reach no other states than those whose sum with the header is small. -/
theorem calls_iff_run {c c' : Config} : Calls c c' ↔ Run c c' :=
  ⟨Relation.ReflTransGen.mono (fun _ _ => Call.step) _ _,
    Relation.ReflTransGen.mono (fun _ _ => Step.call) _ _⟩

section Requests

variable {managed : Set Nat} {others : List Handle} {c : Config} {h : Heap} {live : List Object}
  {s : Shape} {b : Buddy.Config} {lists : Buddy.Lists} {g : Globals} {cls : Nat} {size : Word}

/-! ## Refusals -/

/-- No block of these orders is free. -/
def Shape.Drained (s : Shape) (order : Nat) : Prop :=
  ∀ o, order ≤ o → o ≤ buddyMaxOrder → s.lists o = []

/-- There is nothing to serve a request of `bytes` bytes with: for a small one no free slot and
no page to make more of them, for a large one no block. -/
def Exhausted (s : Shape) (bytes : Nat) : Prop :=
  (bytes ≤ 2048 ∧ (∀ cls, IsLeast {cls | cls < slabNumClasses ∧ bytes ≤ classBytes cls} cls →
      ∀ base ∈ s.slabs cls, s.frees base = []) ∧ ∀ o, o ≤ buddyMaxOrder → s.lists o = []) ∨
    (2048 < bytes ∧ ∀ k, IsLeast {k | bytes + 16 ≤ 4096 * 2 ^ k} k →
      buddyMaxOrder < k ∨ ∀ o, k ≤ o → o ≤ buddyMaxOrder → s.lists o = [])

/-- The buddy allocator refuses when it has no block, and then nothing has changed. -/
theorem Valid.refuses (valid : Valid managed others h live s) (order : Nat) :
    (s.Drained order ∧ h.buddyAlloc order = (0, h)) ∨
      (¬ s.Drained order ∧ (h.buddyAlloc order).1 ≠ 0) := by
  have usable := valid.balanced.usable
  rw [valid.encodes.hhdm] at usable
  obtain ⟨refused, unchanged⟩ :=
    Buddy.buddyAlloc_refused_iff valid.encodes.free usable valid.balanced.tiled order
  by_cases empty : s.Drained order
  · refine .inl ⟨empty, ?_⟩
    rw [Heap.buddyAlloc, unchanged (refused.mpr empty)]
    dsimp only
    rw [if_pos rfl]
  · exact .inr ⟨empty, fun null => empty (refused.mp null)⟩

/-- A cache grows unless no page is left, and then nothing has changed. -/
theorem Valid.grow_refuses (valid : Valid managed others h live s) (cls : Nat) :
    (s.Drained 0 ∧ cacheGrow h cls = (0, h)) ∨ (¬ s.Drained 0 ∧ (cacheGrow h cls).1 ≠ 0) := by
  rcases valid.refuses 0 with ⟨empty, unchanged⟩ | ⟨available, nonzero⟩
  · refine .inl ⟨empty, ?_⟩
    rw [cacheGrow, unchanged]
    dsimp only
    rw [if_pos rfl]
  · refine .inr ⟨available, ?_⟩
    have borrowed := valid.borrow 0
    rw [cacheGrow]
    generalize h.buddyAlloc 0 = result at borrowed nonzero
    cases borrowed with
    | refused => exact absurd rfl nonzero
    | granted _ _ valid' sameSlab =>
      dsimp only
      rw [if_neg nonzero]
      exact (valid'.balanced.held_end_le (valid'.balanced.other_held List.mem_cons_self)).1

theorem exhausted_slot (chosen : classFor size = some cls) :
    Exhausted s size.toNat ↔ (∀ base ∈ s.slabs cls, s.frees base = []) ∧ s.Drained 0 := by
  have least := classFor_eq_some_iff.mp chosen
  have small : size.toNat ≤ 2048 := least.1.2.trans (class_bounds least.1.1).2.1
  constructor
  · rintro (⟨-, full, empty⟩ | ⟨large, -⟩)
    · exact ⟨full cls least, fun o _ => empty o⟩
    · omega
  · rintro ⟨full, empty⟩
    refine .inl ⟨small, fun other otherLeast => ?_, fun o => empty o (Nat.zero_le o)⟩
    rwa [otherLeast.unique least]

theorem exhausted_large {order : Nat} (chosen : classFor size = none)
    (least : IsLeast {k | size.toNat + 16 ≤ 4096 * 2 ^ k} order) :
    Exhausted s size.toNat ↔ s.Drained order := by
  have large := classFor_eq_none_iff.mp chosen
  constructor
  · rintro (⟨small, -⟩ | ⟨-, empty⟩)
    · omega
    · rcases empty order least with outside | empty
      · exact fun o low bounded => absurd (low.trans bounded) (Nat.not_le.mpr outside)
      · exact empty
  · intro empty
    refine .inr ⟨large, fun k otherLeast => .inr ?_⟩
    rwa [otherLeast.unique least]

theorem orderForBytes_large (inRange : size.toNat + 16 ≤ 2 ^ 63) :
    ∃ order, orderForBytes (largeDataOff + size) = some order ∧
      IsLeast {k | size.toNat + 16 ≤ 4096 * 2 ^ k} order := by
  have sum : (largeDataOff + size).toNat = size.toNat + 16 := by
    rw [largeBytes_toNat]
    omega
  obtain ⟨order, found⟩ := Option.isSome_iff_exists.mp
    (orderForBytes_isSome_iff.mpr (sum.trans_le inRange))
  have least := (orderForBytes_eq_some_iff.mp found).2
  rw [sum] at least
  exact ⟨order, found, least⟩

theorem Valid.largeAlloc_refuses (valid : Valid managed others h live s)
    (inRange : size.toNat + 16 ≤ 2 ^ 63) (chosen : classFor size = none) :
    (Exhausted s size.toNat ∧ Slab.largeAlloc h size = some (0, h)) ∨
      (¬ Exhausted s size.toNat ∧ ∃ ptr h', Slab.largeAlloc h size = some (ptr, h') ∧ ptr ≠ 0) := by
  obtain ⟨order, found, least⟩ := orderForBytes_large inRange
  rw [exhausted_large chosen least, Slab.largeAlloc, found]
  dsimp only
  rcases valid.refuses order with ⟨empty, unchanged⟩ | ⟨available, nonzero⟩
  · refine .inl ⟨empty, ?_⟩
    rw [unchanged]
    dsimp only
    rw [if_pos rfl]
  · refine .inr ⟨available, ?_⟩
    have borrowed := valid.borrow order
    generalize h.buddyAlloc order = result at borrowed nonzero
    cases borrowed with
    | refused => exact absurd rfl nonzero
    | granted _ _ valid' sameSlab =>
      dsimp only
      rw [if_neg nonzero]
      have inHand := valid'.balanced.other_held List.mem_cons_self
      obtain ⟨nonnull, ends⟩ := valid'.balanced.held_end_le inHand
      have room := Balanced.two_pow_order_pos order
      have moreRoom := Nat.two_pow_pos order
      refine ⟨_, _, rfl, ?_⟩
      dsimp only at nonnull ends
      rw [largeDataOff_eq]
      generalize 2 ^ order = frames at *
      bv_omega

theorem Valid.popSlot_ne_zero {base : Word} (valid : Valid managed others h live s)
    (chosen : classFor size = some cls) (isSlab : base ∈ s.slabs cls) (available : s.frees base ≠ []) :
    (popSlot h cls base).1 ≠ 0 := by
  have small := (classFor_eq_some chosen).1
  obtain ⟨slot, free, front⟩ := List.exists_cons_of_ne_nil available
  rw [(valid.pop small isSlab front chosen).1]
  exact slot_ne_zero small (valid.balanced.page_aligned small isSlab)
    (valid.balanced.threaded cls small base isSlab (front ▸ List.mem_cons_self))

/-- A request that can be served is served, and one that cannot be changes nothing. -/
theorem Valid.kmalloc_refuses (valid : Valid managed others h live s) (nonzero : size ≠ 0)
    (inRange : size.toNat + 16 ≤ 2 ^ 63) :
    (Exhausted s size.toNat ∧ Slab.kmalloc h size = some (0, h)) ∨
      (¬ Exhausted s size.toNat ∧ ∃ ptr h', Slab.kmalloc h size = some (ptr, h') ∧ ptr ≠ 0) := by
  rw [Slab.kmalloc, if_neg nonzero]
  cases chosen : classFor size with
  | none => exact valid.largeAlloc_refuses inRange chosen
  | some cls =>
    have small := (classFor_eq_some chosen).1
    rw [exhausted_slot chosen]
    dsimp only
    rcases valid.findSlab small with ⟨full, missing⟩ | ⟨base, isSlab, available, found⟩
    · rw [missing]
      dsimp only
      rw [if_pos rfl]
      have grown := valid.grow small
      rcases valid.grow_refuses cls with ⟨empty, unchanged⟩ | ⟨room, page⟩
      · rw [unchanged]
        exact .inl ⟨⟨full, empty⟩, rfl⟩
      · refine .inr ⟨fun exhausted => room exhausted.2, ?_⟩
        generalize cacheGrow h cls = result at grown page
        cases grown with
        | refused => exact absurd rfl page
        | @grown base h₁ s₁ valid' isSlab fresh =>
          have available : s₁.frees base ≠ [] := by
            rw [fresh]
            exact List.reverse_ne_nil_iff.mpr (slots_ne_nil small)
          dsimp only
          rw [if_neg page]
          exact ⟨_, _, rfl, valid'.popSlot_ne_zero chosen isSlab available⟩
    · rw [found]
      dsimp only
      rw [if_neg (valid.balanced.page_ne_zero small isSlab)]
      refine .inr ⟨fun exhausted => available (exhausted.1 base isSlab), ?_⟩
      exact ⟨_, _, rfl, valid.popSlot_ne_zero chosen isSlab available⟩

/-! ## Failure -/

/-- `kmalloc` fails only when it must, and then without side effects. -/
theorem kmalloc_fails_only_when_exhausted (valid : Buddy.Valid managed b lists)
    (aligned : b.globals.gHhdm.toNat % 4096 = 0) (called : Calls (start b g) c) :
    ∃ s, Encodes c.heap c.live s ∧ ∀ size : Word, 1 ≤ size.toNat → size.toNat + 16 ≤ 2 ^ 63 →
      ((∃ h', kmalloc c.heap size = some (0, h')) ↔ Exhausted s size.toNat) ∧
        ∀ h', kmalloc c.heap size = some (0, h') → h' = c.heap := by
  obtain ⟨s, valid'⟩ := (start_valid valid aligned g).run (calls_iff_run.mp called)
  refine ⟨s, valid'.encodes, fun size positive inRange => ?_⟩
  have nonzero : size ≠ 0 := by bv_omega
  rcases valid'.kmalloc_refuses nonzero inRange with
    ⟨exhausted, refused⟩ | ⟨available, ptr, h'', served, nonnull⟩
  · rw [refused]
    exact ⟨⟨fun _ => exhausted, fun _ => ⟨_, rfl⟩⟩, fun h' same => by cases same; rfl⟩
  · rw [served]
    have notNull : ∀ h', some (ptr, h'') ≠ some (0, h') := fun h' same => by
      cases same
      exact nonnull rfl
    refine ⟨⟨?_, fun exhausted => absurd exhausted available⟩, fun h' same => absurd same (notNull h')⟩
    rintro ⟨h', same⟩
    exact absurd same (notNull h')

theorem kmalloc_fails_only_when_exhausted_smallHeap :
    ∃ c s, Calls (start Buddy.oneBlock bootGlobals) c ∧ Encodes c.heap c.live s ∧
      ((∃ h', kmalloc c.heap 0x400000 = some (0, h')) ↔ Exhausted s 0x400000) := by
  obtain ⟨s, encodes, refuses⟩ := kmalloc_fails_only_when_exhausted Buddy.oneBlock_initial.valid
    small_aligned (.refl : Calls (start Buddy.oneBlock bootGlobals) _)
  exact ⟨_, s, .refl, encodes, (refuses 0x400000 (by decide) (by decide)).1⟩

/-! ## Termination -/

/-- Each loop that a call of `kmalloc` may enter ends, and the call returns. The shift count of
the first loop stays below 64. -/
structure Returns (c : Config) (size : Word) : Prop where
  ordered : classFor size = none → ∃ o, o < 64 ∧
    orderFrom (largeDataOff + size) 64 0 = some o ∧
    IsLeast {o | (largeDataOff + size).toNat ≤ 4096 * 2 ^ o} o ∧
    (buddyMaxOrder < o → kmalloc c.heap size = some (0, c.heap))
  searched : ∀ cls, cls < slabNumClasses → ∃ slabs base,
    Chain (next c.heap.mem) (c.heap.slab.caches cls).slabs slabs 0 ∧ slabs.Nodup ∧
      findSlab c.heap cls = some base
  returned : ∃ ptr h', kmalloc c.heap size = some (ptr, h')

theorem orderFrom_least_iff (bytes : Word) :
    (∃ o, o < 64 ∧ orderFrom bytes 64 0 = some o ∧ IsLeast {o | bytes.toNat ≤ 4096 * 2 ^ o} o) ↔
      bytes.toNat ≤ 2 ^ 63 := by
  have loop : orderFrom bytes 64 0 = orderForBytes bytes := orderFrom_past bytes 12
  rw [loop, ← orderForBytes_isSome_iff, Option.isSome_iff_exists]
  constructor
  · rintro ⟨o, -, found, -⟩
    exact ⟨o, found⟩
  · rintro ⟨o, found⟩
    obtain ⟨inRange, least⟩ := orderForBytes_eq_some_iff.mp found
    exact ⟨o, by omega, found, least⟩

/-- A block larger than any of the buddy allocator is refused. -/
theorem Valid.kmalloc_huge (valid : Valid managed others h live s) {order : Nat}
    (large : classFor size = none) (found : orderForBytes (largeDataOff + size) = some order)
    (outside : buddyMaxOrder < order) : Slab.kmalloc h size = some (0, h) := by
  have nonzero : size ≠ 0 := by
    rintro rfl
    exact absurd large (by decide)
  have empty : s.Drained order := fun o low bounded =>
    absurd (low.trans bounded) (Nat.not_le.mpr outside)
  rcases valid.refuses order with ⟨-, unchanged⟩ | ⟨available, -⟩
  · rw [Slab.kmalloc, if_neg nonzero, large]
    dsimp only
    rw [Slab.largeAlloc, found]
    dsimp only
    rw [unchanged]
    dsimp only
    rw [if_pos rfl]
  · exact absurd empty available

theorem Valid.kmalloc_total (valid : Valid managed others h live s)
    (inRange : size.toNat + 16 ≤ 2 ^ 63 ∨ 2 ^ 64 ≤ size.toNat + 16) :
    ∃ ptr h', Slab.kmalloc h size = some (ptr, h') := by
  have allocated := valid.kmalloc (granted_le inRange)
  rw [kmalloc_granted] at allocated
  generalize Slab.kmalloc h size = result at allocated
  cases allocated with
  | returned => exact ⟨_, _, rfl⟩

/-- Every call returns but those whose sum with the header is more than half the address
space: for these the shifted page size never catches up. -/
theorem kmalloc_returns_iff (valid : Buddy.Valid managed b lists)
    (aligned : b.globals.gHhdm.toNat % 4096 = 0) (called : Calls (start b g) c) :
    (∀ bytes : Word, (∃ o, o < 64 ∧ orderFrom bytes 64 0 = some o ∧
        IsLeast {o | bytes.toNat ≤ 4096 * 2 ^ o} o) ↔ bytes.toNat ≤ 2 ^ 63) ∧
      ∀ size : Word, Returns c size ↔ size.toNat + 16 ≤ 2 ^ 63 ∨ 2 ^ 64 ≤ size.toNat + 16 := by
  obtain ⟨s, valid'⟩ := (start_valid valid aligned g).run (calls_iff_run.mp called)
  refine ⟨orderFrom_least_iff, fun size => ?_⟩
  constructor
  · intro returns
    obtain ⟨ptr, h', returned⟩ := returns.returned
    exact size_le_of_kmalloc returned
  · intro inRange
    refine ⟨?_, ?_, valid'.kmalloc_total inRange⟩
    · intro large
      have sum := largeBytes_toNat size
      obtain ⟨o, small, found, least⟩ := (orderFrom_least_iff _).mpr
        (show (largeDataOff + size).toNat ≤ 2 ^ 63 by omega)
      refine ⟨o, small, found, least, fun outside => ?_⟩
      exact valid'.kmalloc_huge large ((orderFrom_past _ 12).symm.trans found) outside
    · intro cls small
      refine ⟨s.slabs cls, ?_⟩
      have linked := (valid'.encodes.caches cls small).linked
      rcases valid'.findSlab small with ⟨-, missing⟩ | ⟨base, -, -, found⟩
      · exact ⟨0, linked, valid'.balanced.slabs_nodup small, missing⟩
      · exact ⟨base, linked, valid'.balanced.slabs_nodup small, found⟩

theorem kmalloc_returns_iff_smallHeap :
    ¬ Returns (start Buddy.oneBlock bootGlobals) 0x8000000000000000 ∧
      Returns (start Buddy.oneBlock bootGlobals) 0x4000000000000000 := by
  obtain ⟨-, returns⟩ := kmalloc_returns_iff Buddy.oneBlock_initial.valid small_aligned
    (.refl : Calls (start Buddy.oneBlock bootGlobals) _)
  exact ⟨fun returned => absurd ((returns _).mp returned) (by decide), (returns _).mpr (by decide)⟩

/-- Half the address space is asked of a heap of four megabytes, and the call never returns. -/
theorem kmalloc_endless_smallHeap :
    ¬ ∀ (c : Config), Calls (start Buddy.oneBlock bootGlobals) c → ∀ size : Word,
      Returns c size := by
  intro returns
  obtain ⟨ptr, h', returned⟩ := (returns _ .refl 0x8000000000000000).returned
  rw [kmalloc_stuck _ (by decide) (by decide)] at returned
  cases returned

end Requests

end ScrapOS.Slab
