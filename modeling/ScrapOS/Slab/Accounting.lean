import ScrapOS.Slab.Runs

/-! Exact accounting: the counters of `slab.c` agree with the lists they count, and what the
buddy allocator lacks is exactly what the slabs and the live large objects take up. -/

set_option autoImplicit false

namespace ScrapOS.Slab

open Buddy

/-- The counters of a class agree with its slabs and their free lists. -/
structure ClassCounted (c : Config) (s : Shape) (cls : Nat) : Prop where
  objSize : (c.heap.slab.caches cls).objSize = classSize cls
  linked : Chain (next c.heap.mem) (c.heap.slab.caches cls).slabs (s.slabs cls) 0
  once : (s.slabs cls).Nodup
  slabCount : (c.heap.slab.caches cls).slabCount.toNat = (s.slabs cls).length
  totalSlots : (c.heap.slab.caches cls).totalSlots.toNat =
    ((s.slabs cls).map fun base => (totalSlots c.heap.mem base).toNat).sum
  freeSlots : (c.heap.slab.caches cls).freeSlots.toNat =
    ((s.slabs cls).map fun base => (freeCount c.heap.mem base).toNat).sum
  threaded : ∀ base ∈ s.slabs cls,
    Chain c.heap.mem.load64 (free c.heap.mem base) (s.frees base) 0 ∧
      (freeCount c.heap.mem base).toNat = (s.frees base).length ∧ (s.frees base).Nodup ∧
      s.frees base ⊆ slots cls base
  bytesInUse : (slabGetStats c.heap.slab cls).bytesInUse.toNat =
    (c.live.countP fun object => classFor object.size = some cls) * (classSize cls).toNat

/-- The bytes of all slabs and of all live large objects. -/
def borrowedBytes (c : Config) : Nat :=
  4096 * ((List.range slabNumClasses).map fun cls => (c.heap.slab.caches cls).slabCount.toNat).sum +
    ((c.live.filterMap Object.block).map fun block => 4096 * 2 ^ block.2).sum

namespace Balanced

variable {managed : Set Nat} {hhdm : Word} {others held : List Handle} {live : List Object}
  {s : Shape} {cls : Nat}

theorem sum_pages (s : Shape) (hhdm : Word) :
    ((s.pages hhdm).map fun block => 4096 * 2 ^ block.2).sum =
      4096 * ((List.range slabNumClasses).map fun cls => (s.slabs cls).length).sum := by
  rw [Shape.pages, List.map_flatMap, List.flatMap_def, List.sum_flatten, List.map_map,
    ← List.sum_map_mul_left]
  refine congrArg List.sum (List.map_congr_left fun cls _ => ?_)
  simp [pageHandle, Function.comp_def, Nat.mul_comm]

theorem slots_total (s : Shape) (cls : Nat) :
    ((s.slabs cls).flatMap (slots cls)).length = (s.slabs cls).length * slotCount cls := by
  simp [List.length_flatMap, slots_length]

section Facts

variable (balanced : Balanced managed hhdm others held live s)
include balanced

theorem slabs_length_lt (small : cls < slabNumClasses) : (s.slabs cls).length < 2 ^ 52 := by
  have frames := balanced.tiled.ncard_lt balanced.usable.zero
  have sizes := balanced.tiled.sum_sizes
  have bounded : held.length ≤ (held.map fun handle => 2 ^ handle.2).sum := by
    have counted := List.length_le_sum_of_one_le (held.map fun handle => 2 ^ handle.2) (by
      intro size member
      obtain ⟨handle, -, rfl⟩ := List.mem_map.mp member
      exact Nat.one_le_two_pow)
    rwa [List.length_map] at counted
  have total := balanced.owned.length_eq
  have pages : (s.slabs cls).length ≤ (s.pages hhdm).length := by
    have single := List.single_le_sum (l := (List.range slabNumClasses).map fun cls =>
      ((s.slabs cls).map (pageHandle hhdm)).length) (by simp) _
        (List.mem_map_of_mem (List.mem_range.mpr small))
    rw [Shape.pages, List.length_flatMap]
    simpa using single
  rw [List.length_append, List.length_append] at total
  omega

/-- The live objects of a class are the ones whose request it serves. -/
theorem slotOf_length : (live.filterMap (Object.slotOf cls)).length =
    live.countP fun object => classFor object.size = some cls := by
  rw [List.length_filterMap_eq_countP]
  refine List.countP_congr fun object member => ?_
  have served := balanced.served object member
  rw [Object.Served] at served
  cases origin : object.origin with
  | slot own =>
    rw [origin] at served
    by_cases same : own = cls
    · simp [Object.slotOf, origin, served, same]
    · simp [Object.slotOf, origin, served, same]
  | large block =>
    rw [origin] at served
    simp [Object.slotOf, origin, served.1]

end Facts

end Balanced

section Accounting

variable {managed : Set Nat} {others : List Handle} {c : Config} {s : Shape} {b : Buddy.Config}
  {lists : Lists} {g : Globals} {cls : Nat}

theorem Valid.classCounted (valid : Valid managed others c.heap c.live s)
    (small : cls < slabNumClasses) : ClassCounted c s cls := by
  have cached := valid.encodes.caches cls small
  have few := valid.balanced.slabs_length_lt small
  have most := slotCount_bounds small
  have whole : slotCount cls * classBytes cls ≤ 4048 := Nat.div_mul_le_self ..
  have slotted := (valid.balanced.slotted cls small).length_eq
  rw [List.length_append, Balanced.slots_total, valid.balanced.slotOf_length] at slotted
  have slabAt := valid.encodes.slabs cls small
  have total : (s.slabs cls).length * slotCount cls ≤ 2 ^ 52 * 253 :=
    Nat.mul_le_mul (Nat.le_of_lt few) most.2
  have carved : ∀ base ∈ s.slabs cls, (totalSlots c.heap.mem base).toNat = slotCount cls := by
    intro base isSlab
    rw [(slabAt base isSlab).carved, BitVec.toNat_ofNat, Nat.mod_eq_of_lt (by omega)]
  have counted : ∀ base ∈ s.slabs cls,
      (freeCount c.heap.mem base).toNat = (s.frees base).length := by
    intro base isSlab
    have bound := valid.balanced.frees_length small isSlab
    rw [(slabAt base isSlab).counted, BitVec.toNat_ofNat, Nat.mod_eq_of_lt (by omega)]
  have totalSlots : (c.heap.slab.caches cls).totalSlots.toNat = (s.slabs cls).length * slotCount cls := by
    rw [cached.totalSlots, BitVec.toNat_ofNat, Nat.mod_eq_of_lt (by omega)]
  have freeSlots : (c.heap.slab.caches cls).freeSlots.toNat = ((s.slabs cls).flatMap s.frees).length := by
    rw [cached.freeSlots, BitVec.toNat_ofNat, Nat.mod_eq_of_lt (by omega)]
  refine ⟨cached.objSize, cached.linked, valid.balanced.slabs_nodup small, ?_, ?_, ?_, ?_, ?_⟩
  · rw [cached.slabCount, BitVec.toNat_ofNat, Nat.mod_eq_of_lt (by omega)]
  · rw [totalSlots, List.map_congr_left carved]
    simp
  · rw [freeSlots, List.length_flatMap, List.map_congr_left counted]
  · exact fun base isSlab => ⟨(slabAt base isSlab).threaded, counted base isSlab,
      valid.balanced.frees_nodup small isSlab, valid.balanced.threaded cls small base isSlab⟩
  · generalize (c.live.countP fun object => classFor object.size = some cls) = inUse at slotted ⊢
    have used : ((c.heap.slab.caches cls).totalSlots - (c.heap.slab.caches cls).freeSlots).toNat =
        inUse := by
      rw [BitVec.toNat_sub_of_le (by rw [BitVec.le_def]; omega)]
      omega
    have room : inUse * classBytes cls ≤ 2 ^ 52 * 4048 := by
      calc inUse * classBytes cls
          ≤ ((s.slabs cls).length * slotCount cls) * classBytes cls :=
            Nat.mul_le_mul_right _ (by omega)
        _ = (s.slabs cls).length * (slotCount cls * classBytes cls) := Nat.mul_assoc ..
        _ ≤ 2 ^ 52 * 4048 := Nat.mul_le_mul (Nat.le_of_lt few) whole
    rw [slabGetStats]
    dsimp only
    rw [cached.objSize, BitVec.toNat_mul, used]
    exact Nat.mod_eq_of_lt (Nat.lt_of_le_of_lt room (by decide))

theorem Valid.conserved (valid : Valid managed others c.heap c.live s) :
    (totalFreeBytes c.heap.buddy).toNat + borrowedBytes c +
      (others.map fun block => 4096 * 2 ^ block.2).sum = 4096 * managed.ncard := by
  have total := valid.buddy.exactPartition.total
  have split := (valid.balanced.owned.map fun block => 4096 * 2 ^ block.2).sum_eq
  have pages := Balanced.sum_pages s c.heap.slab.gHhdm
  have counts : (List.range slabNumClasses).map (fun cls =>
      (c.heap.slab.caches cls).slabCount.toNat) =
        (List.range slabNumClasses).map fun cls => (s.slabs cls).length :=
    List.map_congr_left fun cls inRange =>
      (valid.classCounted (List.mem_range.mp inRange)).slabCount
  rw [List.map_append, List.map_append, List.sum_append, List.sum_append, pages] at split
  rw [borrowedBytes, counts]
  dsimp only at total
  omega

/-- Exact accounting over every run: nothing leaks. -/
theorem heap_accounting_exact (valid : Buddy.Valid managed b lists)
    (aligned : b.globals.gHhdm.toNat % 4096 = 0) (ran : Run (start b g) c) :
    (∃ s, ∀ cls, cls < slabNumClasses → ClassCounted c s cls) ∧
      (totalFreeBytes c.heap.buddy).toNat + borrowedBytes c = (totalFreeBytes b.globals).toNat := by
  have atStart := start_valid valid aligned g
  obtain ⟨s, valid'⟩ := atStart.run ran
  refine ⟨⟨s, fun cls small => valid'.classCounted small⟩, ?_⟩
  have now := valid'.conserved
  have before := valid.exactPartition.total
  omega

theorem heap_accounting_exact_smallHeap : ∃ c, Run (start Buddy.oneBlock bootGlobals) c ∧
    c.live ≠ [] ∧ (totalFreeBytes c.heap.buddy).toNat + borrowedBytes c = 4096 * 1024 := by
  obtain ⟨c, ran, objects⟩ := small_run
  obtain ⟨-, conserved⟩ := heap_accounting_exact Buddy.oneBlock_initial.valid small_aligned ran
  have whole : (totalFreeBytes Buddy.oneBlock.globals).toNat = 4096 * 1024 := by decide
  refine ⟨c, ran, fun empty => ?_, conserved.trans whole⟩
  rw [empty] at objects
  cases objects

end Accounting

end ScrapOS.Slab
