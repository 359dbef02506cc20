import ScrapOS.Buddy.Basic
import ScrapOS.Buddy.Lists

/-! The slab allocator of `core/mm/slab.c` over the buddy allocator. A slab is one
page with a header at its base; the free list of a slab runs through the free slots
themselves, whose first eight bytes point at the next free one. -/

set_option autoImplicit false

namespace ScrapOS.Slab

abbrev slabPageSize : Word := pmmFrameSize

/-- `SLAB_PAGE_MASK`. -/
def slabPageMask : Word := ~~~(slabPageSize - 1)

abbrev slabAlign : Word := 16

/-- `SLAB_MAGIC`. -/
def slabMagic : Word := 0x51AB51AB51AB51AB

/-- `LARGE_MAGIC`. -/
def largeMagic : Word := 0x1A86A110C1A86A11

abbrev slabNumClasses : Nat := 8

def classSizes : List Word := [16, 32, 64, 128, 256, 512, 1024, 2048]

def classSize (cls : Nat) : Word := classSizes.getD cls 0

structure KmemCache where
  objSize : Word
  slabs : Word
  slabCount : Word
  totalSlots : Word
  freeSlots : Word

/-- The file-scope state of `slab.c`; `cachesAt` is where the array `caches` itself
stands. Only its entries below `slabNumClasses` are ever read or written. -/
structure Globals where
  caches : Nat → KmemCache
  cachesAt : Word
  gHhdm : Word

namespace Globals

/-- `&caches[cls]`, for a `struct kmem_cache` of forty bytes. -/
def cacheAt (g : Globals) (cls : Nat) : Word := g.cachesAt + BitVec.ofNat 64 (40 * cls)

/-- The entry of `caches` a pointer is the address of. -/
def cacheIndex (g : Globals) (c : Word) : Nat := (c - g.cachesAt).toNat / 40

def setCache (g : Globals) (cls : Nat) (c : KmemCache) : Globals :=
  { g with caches := Function.update g.caches cls c }

end Globals

/-! ## The fields of `struct slab` and of `struct large_hdr` -/

def slabHeaderSize : Word := 40

def largeHeaderSize : Word := 16

def magic (m : Memory) (base : Word) : Word := m.load64 base

def cache (m : Memory) (s : Word) : Word := m.load64 (s + 8)

def next (m : Memory) (s : Word) : Word := m.load64 (s + 16)

def free (m : Memory) (s : Word) : Word := m.load64 (s + 24)

def freeCount (m : Memory) (s : Word) : BitVec 32 := m.load32 (s + 32)

def totalSlots (m : Memory) (s : Word) : BitVec 32 := m.load32 (s + 36)

def order (m : Memory) (h : Word) : BitVec 32 := m.load32 (h + 8)

def setMagic (m : Memory) (base value : Word) : Memory := m.store64 base value

def setCacheField (m : Memory) (s value : Word) : Memory := m.store64 (s + 8) value

def setNext (m : Memory) (s value : Word) : Memory := m.store64 (s + 16) value

def setFree (m : Memory) (s value : Word) : Memory := m.store64 (s + 24) value

def setFreeCount (m : Memory) (s : Word) (value : BitVec 32) : Memory := m.store32 (s + 32) value

def setTotalSlots (m : Memory) (s : Word) (value : BitVec 32) : Memory := m.store32 (s + 36) value

def setOrder (m : Memory) (h : Word) (value : BitVec 32) : Memory := m.store32 (h + 8) value

/-! ## Helpers -/

def alignUp (v a : Word) : Word := (v + (a - 1)) &&& ~~~(a - 1)

/-- The loop of `order_for_bytes` from order `o` on. A block of order 52 or more has
no 64-bit size, so a request that is not met before that is never met. -/
def orderFrom (bytes : Word) : Nat → Nat → Option Nat
  | 0, _ => none
  | steps + 1, o => if slabPageSize <<< o < bytes then orderFrom bytes steps (o + 1) else some o

def orderForBytes (bytes : Word) : Option Nat := orderFrom bytes 52 0

def slabDataOff : Word := alignUp slabHeaderSize slabAlign

def largeDataOff : Word := alignUp largeHeaderSize slabAlign

/-- The smallest class that fits, as the loop of `kmalloc` picks it. -/
def classFor (size : Word) : Option Nat :=
  (List.range slabNumClasses).find? fun cls => size ≤ classSize cls

/-! ## The heap -/

/-- Memory with the globals of `buddy.c` and of `slab.c`. `held` lists the blocks that
`buddy_alloc` returned and that were not given back; no function reads it. -/
structure Heap where
  mem : Memory
  buddy : Buddy.Globals
  slab : Globals
  held : List Buddy.Handle

namespace Heap

def buddyAlloc (h : Heap) (order : Nat) : Word × Heap :=
  match Buddy.buddyAlloc h.mem h.buddy order with
  | (phys, mem, buddy) =>
      (phys, { h with mem, buddy, held := if phys = 0 then h.held else (phys, order) :: h.held })

def buddyFree (h : Heap) (phys : Word) (order : Nat) : Option Heap :=
  match Buddy.buddyFree h.mem h.buddy phys order with
  | none => none
  | some (mem, buddy) => some { h with mem, buddy, held := h.held.erase (phys, order) }

end Heap

/-! ## Slab growth -/

def slotAt (base objSize : Word) (i : Nat) : Word :=
  base + slabDataOff + BitVec.ofNat 64 i * objSize

/-- The first rounds of the loop of `cache_grow` that pushes every slot. -/
def threadSlots (m : Memory) (s objSize : Word) : Nat → Memory
  | 0 => m
  | i + 1 =>
      let m := threadSlots m s objSize i
      let slot := slotAt s objSize i
      setFree (m.store64 slot (free m s)) s slot

/-- The lines of `cache_grow` that write the page: its header, its free list, its link. -/
def laySlab (m : Memory) (s c objSize slabs : Word) (slots : BitVec 32) : Memory :=
  let m := setMagic m s slabMagic
  let m := setCacheField m s c
  let m := setTotalSlots m s slots
  let m := setFreeCount m s slots
  let m := setFree m s 0
  let m := threadSlots m s objSize slots.toNat
  setNext m s slabs

def cacheGrow (h : Heap) (cls : Nat) : Word × Heap :=
  let c := h.slab.caches cls
  let (phys, h) := h.buddyAlloc 0
  if phys = 0 then (0, h)
  else
    let s := phys + h.slab.gHhdm
    let slots : BitVec 32 := ((slabPageSize - slabDataOff) / c.objSize).setWidth 32
    let m := laySlab h.mem s (h.slab.cacheAt cls) c.objSize c.slabs slots
    let c := { c with
      slabs := s
      slabCount := c.slabCount + 1
      totalSlots := c.totalSlots + slots.setWidth 64
      freeSlots := c.freeSlots + slots.setWidth 64 }
    (s, { h with mem := m, slab := h.slab.setCache cls c })

/-! ## kmalloc -/

def slabInit (g : Globals) (hhdmOffset : Word) : Globals :=
  { g with
    gHhdm := hhdmOffset
    caches := fun i =>
      if i < slabNumClasses then
        { objSize := classSize i, slabs := 0, slabCount := 0, totalSlots := 0, freeSlots := 0 }
      else g.caches i }

/-- `large_alloc`; `none` when the loop of `order_for_bytes` leaves the range of its shift. -/
def largeAlloc (h : Heap) (size : Word) : Option (Word × Heap) :=
  match orderForBytes (largeDataOff + size) with
  | none => none
  | some order =>
      let (phys, h) := h.buddyAlloc order
      if phys = 0 then some (0, h)
      else
        let hdr := phys + h.slab.gHhdm
        let m := setMagic h.mem hdr largeMagic
        let m := setOrder m hdr (BitVec.ofNat 32 order)
        some (hdr + largeDataOff, { h with mem := m })

/-- The last lines of `kmalloc`: pop the head of the free list of `s`. -/
def popSlot (h : Heap) (cls : Nat) (s : Word) : Word × Heap :=
  let slot := free h.mem s
  let m := setFree h.mem s (h.mem.load64 slot)
  let m := setFreeCount m s (freeCount m s - 1)
  let c := h.slab.caches cls
  (slot, { h with mem := m, slab := h.slab.setCache cls { c with freeSlots := c.freeSlots - 1 } })

/-- The search of `kmalloc` for a slab with a free slot, or `NULL`; `none` when it never ends. -/
def findSlab (h : Heap) (cls : Nat) : Option Word :=
  walk (next h.mem) (fun s => s == 0 || freeCount h.mem s != 0) (h.slab.caches cls).slabs

def kmalloc (h : Heap) (size : Word) : Option (Word × Heap) :=
  if size = 0 then some (0, h)
  else
    match classFor size with
    | none => largeAlloc h size
    | some cls =>
        match findSlab h cls with
        | none => none
        | some s =>
            if s = 0 then
              let (s, h) := cacheGrow h cls
              if s = 0 then some (0, h) else some (popSlot h cls s)
            else some (popSlot h cls s)

/-! ## kfree -/

def pageBase (ptr : Word) : Word := ptr &&& slabPageMask

/-- The lines of `kfree` that push a slot back onto the free list of its slab. -/
def pushSlot (h : Heap) (s ptr : Word) : Heap :=
  let cls := h.slab.cacheIndex (cache h.mem s)
  let m := h.mem.store64 ptr (free h.mem s)
  let m := setFree m s ptr
  let m := setFreeCount m s (freeCount m s + 1)
  let c := h.slab.caches cls
  { h with mem := m, slab := h.slab.setCache cls { c with freeSlots := c.freeSlots + 1 } }

/-- `kfree`; `none` when a list scan of `buddy_free` never ends. -/
def kfree (h : Heap) (ptr : Word) : Option Heap :=
  if ptr = 0 then some h
  else
    let base := pageBase ptr
    if magic h.mem base = slabMagic then some (pushSlot h base ptr)
    else if magic h.mem base = largeMagic then
      h.buddyFree (base - h.slab.gHhdm) (order h.mem base).toNat
    else some h

def kmallocUsableSize (h : Heap) (ptr : Word) : Word :=
  if ptr = 0 then 0
  else
    let base := pageBase ptr
    if magic h.mem base = slabMagic then
      (h.slab.caches (h.slab.cacheIndex (cache h.mem base))).objSize
    else if magic h.mem base = largeMagic then slabPageSize <<< (order h.mem base).toNat
    else 0

/-! ## Stats -/

structure ClassStats where
  objSize : Word
  slabCount : Word
  totalSlots : Word
  freeSlots : Word
  bytesInUse : Word

def slabGetStats (g : Globals) (i : Nat) : ClassStats :=
  let c := g.caches i
  { objSize := c.objSize
    slabCount := c.slabCount
    totalSlots := c.totalSlots
    freeSlots := c.freeSlots
    bytesInUse := (c.totalSlots - c.freeSlots) * c.objSize }

end ScrapOS.Slab
