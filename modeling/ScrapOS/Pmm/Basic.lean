import ScrapOS.Lib.String

/-! The physical frame allocator of `core/mm/pmm.c`: a bitmap, one bit a frame,
kept in the memory it describes and reached through the direct map. -/

set_option autoImplicit false

namespace ScrapOS

/-- `PMM_FRAME_SIZE`. -/
abbrev pmmFrameSize : Word := 4096

/-- `LIMINE_MEMMAP_USABLE`. -/
abbrev limineMemmapUsable : Word := 0

structure MemmapEntry where
  base : Word
  length : Word
  type : Word
deriving DecidableEq, Repr

namespace Pmm

/-- The file-scope state of `pmm.c`; `bitmap` is a pointer into memory. -/
structure Globals where
  bitmap : Word
  bitmapBytes : Word
  totalFrames : Word
  usableFrames : Word
  freeFrames : Word
  nextHint : Word
deriving DecidableEq, Repr

/-! ## Bit helpers -/

def bitSet (m : Memory) (g : Globals) (i : Word) : Memory :=
  m.store8 (g.bitmap + i / 8) (m (g.bitmap + i / 8) ||| 1#8 <<< (i % 8).toNat)

def bitClear (m : Memory) (g : Globals) (i : Word) : Memory :=
  m.store8 (g.bitmap + i / 8) (m (g.bitmap + i / 8) &&& ~~~(1#8 <<< (i % 8).toNat))

def bitTest (m : Memory) (g : Globals) (i : Word) : Bool :=
  (m (g.bitmap + i / 8) >>> (i % 8).toNat &&& 1) != 0

/-! ## Init -/

def highestAddr (memmap : List MemmapEntry) : Word :=
  memmap.foldl (fun highest e =>
    if e.type ≠ limineMemmapUsable then highest
    else if e.base + e.length > highest then e.base + e.length else highest) 0

def bitmapPhys (memmap : List MemmapEntry) (bitmapBytes : Word) : Word :=
  match memmap.find? (fun e => e.type == limineMemmapUsable && bitmapBytes ≤ e.length) with
  | some e => e.base
  | none => 0

def clearRun (m : Memory) (g : Globals) (start : Word) : Nat → Memory × Globals
  | 0 => (m, g)
  | f + 1 =>
      let (m, g) := clearRun m g start f
      (bitClear m g (start + BitVec.ofNat 64 f), { g with usableFrames := g.usableFrames + 1 })

def clearUsable (m : Memory) (g : Globals) (memmap : List MemmapEntry) : Memory × Globals :=
  memmap.foldl (fun (m, g) e =>
    if e.type ≠ limineMemmapUsable then (m, g)
    else clearRun m g (e.base / pmmFrameSize) (e.length / pmmFrameSize).toNat) (m, g)

def reserveRun (m : Memory) (g : Globals) (first : Word) : Nat → Memory × Globals
  | 0 => (m, g)
  | f + 1 =>
      let (m, g) := reserveRun m g first f
      (bitSet m g (first + BitVec.ofNat 64 f), { g with freeFrames := g.freeFrames - 1 })

/-- `pmm_init`; `none` when no usable entry can hold the bitmap and the CPU is halted. -/
def pmmInit (m : Memory) (memmap : List MemmapEntry) (hhdmOffset : Word) :
    Option (Memory × Globals) :=
  let totalFrames := highestAddr memmap / pmmFrameSize
  let bitmapBytes := (totalFrames + 7) / 8
  let bitmapPhys := bitmapPhys memmap bitmapBytes
  if bitmapPhys = 0 then none
  else
    let bitmap := bitmapPhys + hhdmOffset
    let m := memset m bitmap 0xFF bitmapBytes.toNat
    let (m, g) := clearUsable m
      { bitmap, bitmapBytes, totalFrames, usableFrames := 0, freeFrames := 0, nextHint := 0 } memmap
    let g := { g with freeFrames := g.usableFrames }
    let bitmapFirst := bitmapPhys / pmmFrameSize
    let bitmapCount := (bitmapBytes + pmmFrameSize - 1) / pmmFrameSize
    let (m, g) := reserveRun m g bitmapFirst bitmapCount.toNat
    some (m, { g with nextHint := 0 })

/-! ## Allocate and free -/

def scan (m : Memory) (g : Globals) (i : Word) : Nat → Option Word
  | 0 => none
  | count + 1 => if !bitTest m g i then some i else scan m g (i + 1) count

/-- Both passes of the scan: from the hint to the end, then from 0 to the hint. -/
def scanPasses (m : Memory) (g : Globals) : Option Word :=
  match scan m g g.nextHint (g.totalFrames.toNat - g.nextHint.toNat) with
  | some i => some i
  | none => scan m g 0 g.nextHint.toNat

def pmmAllocFrame (m : Memory) (g : Globals) : Word × Memory × Globals :=
  if g.freeFrames = 0 then (0, m, g)
  else
    match scanPasses m g with
    | some i =>
        (i * pmmFrameSize, bitSet m g i,
          { g with freeFrames := g.freeFrames - 1, nextHint := i + 1 })
    | none => (0, m, g)

def pmmFreeFrame (m : Memory) (g : Globals) (phys : Word) : Memory × Globals :=
  let i := phys / pmmFrameSize
  if !bitTest m g i then (m, g)
  else
    (bitClear m g i,
      { g with
        freeFrames := g.freeFrames + 1
        nextHint := if i < g.nextHint then i else g.nextHint })

def pmmClaimFrame (m : Memory) (g : Globals) (phys : Word) : Bool × Memory × Globals :=
  let i := phys / pmmFrameSize
  if i ≥ g.totalFrames ∨ bitTest m g i then (false, m, g)
  else (true, bitSet m g i, { g with freeFrames := g.freeFrames - 1 })

/-! ## Stats -/

structure Stats where
  total : Word
  used : Word
  free : Word
deriving DecidableEq, Repr

def pmmGetStats (g : Globals) : Stats where
  total := g.usableFrames
  used := g.usableFrames - g.freeFrames
  free := g.freeFrames

end Pmm

end ScrapOS
