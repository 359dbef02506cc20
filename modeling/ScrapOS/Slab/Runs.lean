import ScrapOS.Simulation.Basic
import ScrapOS.Slab.Operations

/-! Runs of the heap: any interleaving of `kmalloc`, of `kfree` of live pointers and of
writes of the callers inside the bytes they asked for, from `slab_init` on over any valid
state of the buddy allocator. -/

set_option autoImplicit false

namespace ScrapOS.Slab

open Buddy (Handle buddyMaxOrder linkBytes)

/-- A state of a run: the heap, and the objects that `kmalloc` returned and that were not
given back. -/
structure Config where
  heap : Heap
  live : List Object

inductive Step : Config → Config → Prop where
  | kmalloc {c : Config} {size ptr : Word} {h' : Heap} :
      size.toNat + 16 ≤ 2 ^ 63 → kmalloc c.heap size = some (ptr, h') →
      Step c { heap := h', live := c.heap.serve c.live size ptr }
  | kfree {c : Config} {object : Object} {h' : Heap} :
      object ∈ c.live → kfree c.heap object.ptr = some h' →
      Step c { heap := h', live := c.live.erase object }
  | write {c : Config} {m' : Memory} :
      Set.EqOn m' c.heap.mem (liveBytes c.live)ᶜ → Step c { c with heap := { c.heap with mem := m' } }

abbrev Run : Config → Config → Prop := Relation.ReflTransGen Step

/-- The heap after `slab_init` with the direct map of the buddy allocator. -/
def start (b : Buddy.Config) (g : Globals) : Config where
  heap := { mem := b.mem, buddy := b.globals, slab := slabInit g b.globals.gHhdm, held := b.live }
  live := []

/-! ## The invariant -/

section Invariant

variable {managed : Set Nat} {others : List Handle} {c c' : Config} {s : Shape}

theorem start_valid {b : Buddy.Config} {lists : Buddy.Lists} (valid : Buddy.Valid managed b lists)
    (aligned : b.globals.gHhdm.toNat % 4096 = 0) (g : Globals) :
    Valid managed b.live (start b g).heap (start b g).live
      { lists, slabs := fun _ => [], frees := fun _ => [] } where
  balanced := by
    refine ⟨valid.usable, aligned, valid.tiled, ?_, ?_, ?_, ?_⟩
    · have nothing : (List.range slabNumClasses).flatMap (fun _ => ([] : List Handle)) = [] :=
        List.flatMap_eq_nil_iff.mpr fun _ _ => rfl
      simp [start, Shape.pages, nothing]
    · simp [start]
    · simp
    · simp [start]
  encodes := by
    refine ⟨rfl, valid.holds, ?_, ?_, ?_⟩
    · intro cls small
      simp only [start, slabInit, if_pos small]
      exact ⟨rfl, rfl, rfl, by simp, rfl⟩
    · simp
    · simp [start]

theorem Valid.write (valid : Valid managed others c.heap c.live s) {m' : Memory}
    (inside : Set.EqOn m' c.heap.mem (liveBytes c.live)ᶜ) :
    Valid managed others { c.heap with mem := m' } c.live s := by
  refine ⟨valid.balanced, valid.encodes.write ?_ ?_⟩
  · refine inside.mono fun address book => ?_
    rintro ⟨object, member, inObject⟩
    exact Set.disjoint_left.mp (valid.balanced.extent_books member)
      (valid.balanced.bytes_subset_extent member inObject) book
  · refine inside.mono fun address inLinks => ?_
    rintro ⟨object, member, inObject⟩
    exact Set.disjoint_left.mp (valid.balanced.extent_links member)
      (valid.balanced.bytes_subset_extent member inObject) inLinks

theorem Valid.kfree (valid : Valid managed others c.heap c.live s) {object : Object}
    (member : object ∈ c.live) :
    ∃ h' s', kfree c.heap object.ptr = some h' ∧ Valid managed others h' (c.live.erase object) s' ∧
      Kept c.heap.mem h'.mem (c.live.erase object) := by
  cases origin : object.origin with
  | slot cls =>
    obtain ⟨base, returned⟩ := valid.kfree_slot member origin
    exact ⟨_, _, returned.result, returned.valid, returned.kept⟩
  | large block =>
    obtain ⟨h', given⟩ := valid.kfree_large member origin
    exact ⟨h', _, given.result.trans given.returned, given.valid, given.kept⟩

theorem Valid.step (valid : Valid managed others c.heap c.live s) (stepped : Step c c') :
    ∃ s', Valid managed others c'.heap c'.live s' := by
  cases stepped with
  | kmalloc inRange returned =>
    have allocated := valid.kmalloc inRange
    rw [returned] at allocated
    cases allocated with
    | returned valid' kept => exact ⟨_, valid'⟩
  | kfree member returned =>
    obtain ⟨h'', s', result, valid', -⟩ := valid.kfree member
    rw [returned] at result
    cases result
    exact ⟨s', valid'⟩
  | write inside => exact ⟨s, valid.write inside⟩

theorem Valid.run (valid : Valid managed others c.heap c.live s) (ran : Run c c') :
    ∃ s', Valid managed others c'.heap c'.live s' := by
  have kept : ∀ (s : Shape) (c c' : Config), Valid managed others c.heap c.live s → Step c c' →
      ∃ s', Valid managed others c'.heap c'.live s' := fun _ _ _ before stepped => before.step stepped
  exact Simulation.run_holds kept valid ran

/-- Seen from below, a heap is a state of the buddy allocator whose blocks are in hand. -/
theorem Valid.buddy (valid : Valid managed others c.heap c.live s) :
    Buddy.Valid managed ⟨c.heap.mem, c.heap.buddy, c.heap.held⟩ s.lists where
  holds := valid.encodes.free
  usable := valid.encodes.hhdm ▸ valid.balanced.usable
  tiled := valid.balanced.tiled

end Invariant

/-! ## A small heap -/

/-- `slab.c` before `slab_init`. -/
def bootGlobals : Globals where
  caches := fun _ => { objSize := 0, slabs := 0, slabCount := 0, totalSlots := 0, freeSlots := 0 }
  cachesAt := 0xffffffff80100000
  gHhdm := 0

theorem small_aligned : Buddy.oneBlock.globals.gHhdm.toNat % 4096 = 0 := by decide

/-- A large and a small request on four megabytes. -/
theorem small_run : ∃ c, Run (start Buddy.oneBlock bootGlobals) c ∧
    c.live.map (fun object => (object.ptr, object.size)) =
      [(0xffff800000402030, 2000), (0xffff800000400010, 5000)] := by
  have first : (kmalloc (start Buddy.oneBlock bootGlobals).heap 5000).map (·.1) =
      some 0xffff800000400010 := by decide +kernel
  have second : ((kmalloc (start Buddy.oneBlock bootGlobals).heap 5000).bind
      fun result => kmalloc result.2 2000).map (·.1) = some 0xffff800000402030 := by decide +kernel
  obtain ⟨⟨large, h⟩, served, isLarge⟩ := Option.map_eq_some_iff.mp first
  rw [served, Option.bind_some] at second
  obtain ⟨⟨small, h'⟩, servedToo, isSmall⟩ := Option.map_eq_some_iff.mp second
  dsimp only at isLarge isSmall
  subst isLarge isSmall
  refine ⟨_, (Relation.ReflTransGen.single (.kmalloc (by decide) served)).tail
    (.kmalloc (by decide) servedToo), ?_⟩
  simp [Heap.serve, start]

end ScrapOS.Slab
