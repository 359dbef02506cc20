import ScrapOS.Kernel.Isolation
import ScrapOS.Reports.Basic
import ScrapOS.Serial.Text
import ScrapOS.Slab.Accounting

/-! `kernel.c`: the statistics that it prints. Whatever state the allocators have reached, the
printed text reads back to the lengths of the free lists, to the slabs of each class and to what
the live objects take up. -/

set_option autoImplicit false

namespace ScrapOS.Kernel

open Buddy (buddyMaxOrder totalFreeBytes)
open Reports
open Slab (ClassStats classBytes classFor slabGetStats slabNumClasses slotCount)

/-! ## The source -/

/-- The local buffers of the calls of `put_dec`: their bytes are arbitrary at first. -/
abbrev Buffers := Nat → Vector Byte 20

/-- One turn of the loop of `print_buddy_stats`. -/
def printOrder (bufs : Buffers) (g : Buddy.Globals) (o : Nat) (out : Output) : Option Output := do
  let out := serialWrite out (text "    order ")
  let out ← putDec out (BitVec.ofNat 64 o) (bufs 0)
  let out := serialWrite out (text " (")
  -- `PMM_FRAME_SIZE` is an `unsigned`, and the shift is one of 32 bits
  let out ← putDec out (((4096 : BitVec 32) <<< o / 1024).setWidth 64) (bufs 1)
  let out := serialWrite out (text " KiB): ")
  let out ← putDec out (g.freeCount o) (bufs 2)
  return serialWrite out (text " free\n")

def printBuddyStats (bufs : Nat → Buffers) (label : List Byte) (g : Buddy.Globals) (out : Output) :
    Option Output := do
  let out := serialWrite out label
  let out := serialWrite out (text "\n")
  let out ← (List.range (buddyMaxOrder + 1)).foldlM (fun out o => printOrder (bufs o) g o out) out
  let out := serialWrite out (text "    total free: ")
  let out ← putDec out (totalFreeBytes g / (1024 * 1024)) (bufs (buddyMaxOrder + 1) 0)
  return serialWrite out (text " MiB\n")

/-- One turn of the loop of `print_slab_stats`. -/
def printClass (bufs : Buffers) (st : ClassStats) (out : Output) : Option Output := do
  let out := serialWrite out (text "    class ")
  let out ← putDec out st.objSize (bufs 0)
  let out := serialWrite out (text "B: slabs ")
  let out ← putDec out st.slabCount (bufs 1)
  let out := serialWrite out (text ", slots ")
  let out ← putDec out st.totalSlots (bufs 2)
  let out := serialWrite out (text " (")
  let out ← putDec out st.freeSlots (bufs 3)
  let out := serialWrite out (text " free), in use ")
  let out ← putDec out st.bytesInUse (bufs 4)
  return serialWrite out (text " B\n")

def printSlabStats (bufs : Nat → Buffers) (label : List Byte) (g : Slab.Globals) (out : Output) :
    Option Output := do
  let out := serialWrite out label
  let out := serialWrite out (text "\n")
  (List.range slabNumClasses).foldlM (fun out i => printClass (bufs i) (slabGetStats g i) out) out

/-! ## The texts as literals and numerals -/

def decItem (v : Word) : Item Byte :=
  .number decimal (decimal.numeral v.toNat) v.toNat Numerals.read_numeral

def orderItems (g : Buddy.Globals) (o : Nat) : List (Item Byte) :=
  [.literal (text "    order "), decItem (BitVec.ofNat 64 o), .literal (text " ("),
    decItem (((4096 : BitVec 32) <<< o / 1024).setWidth 64), .literal (text " KiB): "),
    decItem (g.freeCount o), .literal (text " free\n")]

def buddyItems (label : List Byte) (g : Buddy.Globals) : List (Item Byte) :=
  [.literal label, .literal (text "\n")] ++
    (List.range (buddyMaxOrder + 1)).flatMap (orderItems g) ++
    [.literal (text "    total free: "), decItem (totalFreeBytes g / (1024 * 1024)),
      .literal (text " MiB\n")]

def classItems (st : ClassStats) : List (Item Byte) :=
  [.literal (text "    class "), decItem st.objSize, .literal (text "B: slabs "), decItem st.slabCount,
    .literal (text ", slots "), decItem st.totalSlots, .literal (text " ("), decItem st.freeSlots,
    .literal (text " free), in use "), decItem st.bytesInUse, .literal (text " B\n")]

def slabItems (label : List Byte) (g : Slab.Globals) : List (Item Byte) :=
  [.literal label, .literal (text "\n")] ++
    (List.range slabNumClasses).flatMap fun i => classItems (slabGetStats g i)

section Printed

variable {bufs : Buffers}

/-- What prints a text, whatever was printed before it. -/
def Prints (print : Output → Option Output) (items : List (Item Byte)) : Prop :=
  ∀ out, print out = some (out ++ wire (render items))

theorem putDec_item (out : Output) (v : Word) (buf : Vector Byte 20) :
    putDec out v buf = some (out ++ wire (decItem v).word) := by
  rw [putDec, putDecBody_eq, decItem, Item.word, wire_numeral]

theorem Prints.forEach {α : Type} {print : α → Output → Option Output}
    {items : α → List (Item Byte)} (each : ∀ entry, Prints (print entry) (items entry))
    (entries : List α) :
    Prints (fun out => entries.foldlM (fun out entry => print entry out) out)
      (entries.flatMap items) := by
  induction entries with
  | nil => simp [Prints, wire]
  | cons entry entries ih =>
      intro out
      simp only [List.foldlM_cons, each entry out, Option.bind_eq_bind, Option.bind_some, ih _,
        List.flatMap_cons, render_append, wire_append, List.append_assoc]

theorem printOrder_prints (bufs : Buffers) (g : Buddy.Globals) (o : Nat) :
    Prints (printOrder bufs g o) (orderItems g o) := by
  intro out
  simp only [printOrder, orderItems, serialWrite_eq, putDec_item, Option.bind_eq_bind,
    Option.bind_some, render_cons, render_nil, Item.word, wire_append, List.append_assoc,
    List.append_nil]
  rfl

theorem printBuddyStats_prints (bufs : Nat → Buffers) (label : List Byte) (g : Buddy.Globals) :
    Prints (printBuddyStats bufs label g) (buddyItems label g) := by
  intro out
  have lines := Prints.forEach (fun o => printOrder_prints (bufs o) g o)
    (List.range (buddyMaxOrder + 1))
  simp only [printBuddyStats, buddyItems, serialWrite_eq, putDec_item, lines _, Option.bind_eq_bind,
    Option.bind_some, render_append, render_cons, render_nil, Item.word, wire_append,
    List.append_assoc, List.append_nil]
  rfl

theorem printClass_prints (bufs : Buffers) (st : ClassStats) :
    Prints (printClass bufs st) (classItems st) := by
  intro out
  simp only [printClass, classItems, serialWrite_eq, putDec_item, Option.bind_eq_bind,
    Option.bind_some, render_cons, render_nil, Item.word, wire_append, List.append_assoc,
    List.append_nil]
  rfl

theorem printSlabStats_prints (bufs : Nat → Buffers) (label : List Byte) (g : Slab.Globals) :
    Prints (printSlabStats bufs label g) (slabItems label g) := by
  intro out
  have lines := Prints.forEach (fun i => printClass_prints (bufs i) (slabGetStats g i))
    (List.range slabNumClasses)
  simp only [printSlabStats, slabItems, serialWrite_eq, lines _, render_append, render_cons,
    render_nil, Item.word, wire_append, List.append_assoc, List.append_nil]

end Printed

/-! ## Reading the texts -/

def orderPieces : List (Piece Byte) :=
  [.literal (text "    order "), .number decimal, .literal (text " ("), .number decimal,
    .literal (text " KiB): "), .number decimal, .literal (text " free\n")]

def buddyPieces (label : List Byte) : List (Piece Byte) :=
  [.literal label, .literal (text "\n")] ++
    (List.range (buddyMaxOrder + 1)).flatMap (fun _ => orderPieces) ++
    [.literal (text "    total free: "), .number decimal, .literal (text " MiB\n")]

def classPieces : List (Piece Byte) :=
  [.literal (text "    class "), .number decimal, .literal (text "B: slabs "), .number decimal,
    .literal (text ", slots "), .number decimal, .literal (text " ("), .number decimal,
    .literal (text " free), in use "), .number decimal, .literal (text " B\n")]

def slabPieces (label : List Byte) : List (Piece Byte) :=
  [.literal label, .literal (text "\n")] ++ (List.range slabNumClasses).flatMap fun _ => classPieces

/-- The bytes of the blocks on the free lists. -/
def freeBytes (lists : Buddy.Lists) : Nat :=
  4096 * (lists.blocks.map fun block => 2 ^ block.order).sum

/-- What the report of the buddy allocator should say: of each order the kilobytes of a block and
the length of the free list, and the megabytes of all blocks. -/
def buddyNumbers (lists : Buddy.Lists) : List Nat :=
  ((List.range (buddyMaxOrder + 1)).flatMap fun o => [o, 4 * 2 ^ o, (lists o).length]) ++
    [freeBytes lists / 2 ^ 20]

/-- What the report of the heap should say: of each class the size, the slabs, the slots, the ones
on the free lists, and the bytes of the live objects. -/
def slabNumbers (s : Slab.Shape) (objects : List Slab.Object) : List Nat :=
  (List.range slabNumClasses).flatMap fun cls =>
    [classBytes cls, (s.slabs cls).length, (s.slabs cls).length * slotCount cls,
      ((s.slabs cls).flatMap s.frees).length,
      (objects.countP fun object => classFor object.size = some cls) * classBytes cls]

section Reading

theorem separated_dec (v : Word) {c : Byte} {word : List Byte} {items : List (Item Byte)}
    (other : decimal.value c = none) (later : Separated items) :
    Separated (decItem v :: .literal (c :: word) :: items) :=
  .number other later

theorem orderItems_separated (g : Buddy.Globals) (o : Nat) : Separated (orderItems g o) := by
  have size : text " (" = ascii ' ' :: text "(" := by decide
  have unit : text " KiB): " = ascii ' ' :: text "KiB): " := by decide
  have free : text " free\n" = ascii ' ' :: text "free\n" := by decide
  unfold orderItems
  rw [size, unit, free]
  exact separated_dec (BitVec.ofNat 64 o) (by decide) (separated_dec _ (by decide)
    (separated_dec (g.freeCount o) (by decide) trivial))

theorem buddyItems_separated (label : List Byte) (g : Buddy.Globals) :
    Separated (buddyItems label g) := by
  have unit : text " MiB\n" = ascii ' ' :: text "MiB\n" := by decide
  have total : Separated [.literal (text "    total free: "),
      decItem (totalFreeBytes g / (1024 * 1024)), .literal (text " MiB\n")] := by
    rw [unit]
    exact separated_dec (totalFreeBytes g / (1024 * 1024)) (by decide) trivial
  have title : Separated [.literal label, .literal (text "\n")] := trivial
  exact (title.append (.flatMap fun o _ => orderItems_separated g o)).append total

theorem classItems_separated (st : ClassStats) : Separated (classItems st) := by
  have slabs : text "B: slabs " = ascii 'B' :: text ": slabs " := by decide
  have slots : text ", slots " = ascii ',' :: text " slots " := by decide
  have free : text " (" = ascii ' ' :: text "(" := by decide
  have inUse : text " free), in use " = ascii ' ' :: text "free), in use " := by decide
  have unit : text " B\n" = ascii ' ' :: text "B\n" := by decide
  unfold classItems
  rw [slabs, slots, free, inUse, unit]
  exact separated_dec st.objSize (by decide) (separated_dec st.slabCount (by decide)
    (separated_dec st.totalSlots (by decide) (separated_dec st.freeSlots (by decide)
      (separated_dec st.bytesInUse (by decide) trivial))))

theorem slabItems_separated (label : List Byte) (g : Slab.Globals) :
    Separated (slabItems label g) := by
  have title : Separated [.literal label, .literal (text "\n")] := trivial
  exact title.append (.flatMap fun i _ => classItems_separated (slabGetStats g i))

theorem buddyItems_pieces (label : List Byte) (g : Buddy.Globals) :
    (buddyItems label g).map Item.piece = buddyPieces label := rfl

theorem slabItems_pieces (label : List Byte) (g : Slab.Globals) :
    (slabItems label g).map Item.piece = slabPieces label := rfl

theorem orderItems_numbers {g : Buddy.Globals} {o length : Nat} (bounded : o ≤ buddyMaxOrder)
    (counted : (g.freeCount o).toNat = length) :
    numbers (orderItems g o) = [o, 4 * 2 ^ o, length] := by
  have sizes : ∀ o ≤ buddyMaxOrder, (BitVec.ofNat 64 o).toNat = o ∧
      (((4096 : BitVec 32) <<< o / 1024).setWidth 64).toNat = 4 * 2 ^ o := by decide
  have listed : numbers (orderItems g o) = [(BitVec.ofNat 64 o).toNat,
      (((4096 : BitVec 32) <<< o / 1024).setWidth 64).toNat, (g.freeCount o).toNat] := rfl
  rw [listed, (sizes o bounded).1, (sizes o bounded).2, counted]

end Reading

/-! ## The reports of the running kernel -/

namespace Valid

variable {usable bitmapFrames free managed : Set Nat} {root : Nat} {s : Slab.Shape} {c : Config}

theorem freeBytes_eq (valid : Valid usable bitmapFrames free managed root s c) :
    (totalFreeBytes c.mm.buddy).toNat = freeBytes s.lists := by
  have total := Buddy.totalFreeBytes_eq valid.mm.holds
  have sizes := valid.mm.tiled.sum_sizes
  have small := valid.mm.tiled.ncard_lt valid.mm.buddyUsable.zero
  rw [total, freeBytes, BitVec.toNat_ofNat, Nat.mod_eq_of_lt (by omega)]

theorem buddyItems_numbers (valid : Valid usable bitmapFrames free managed root s c)
    (label : List Byte) : numbers (buddyItems label c.mm.buddy) = buddyNumbers s.lists := by
  have counted := (Slab.Valid.buddy (c := ⟨c.heap, c.objects⟩) valid.slab).exactPartition.counted
  have orders : ∀ o ∈ List.range (buddyMaxOrder + 1),
      numbers (orderItems c.mm.buddy o) = [o, 4 * 2 ^ o, (s.lists o).length] := by
    intro o member
    have bounded : o ≤ buddyMaxOrder := Nat.le_of_lt_succ (List.mem_range.mp member)
    exact orderItems_numbers bounded (counted o bounded)
  have total : (totalFreeBytes c.mm.buddy / (1024 * 1024)).toNat = freeBytes s.lists / 2 ^ 20 := by
    rw [BitVec.toNat_udiv, valid.freeBytes_eq]
    rfl
  have last : numbers [.literal (text "    total free: "),
      decItem (totalFreeBytes c.mm.buddy / (1024 * 1024)), .literal (text " MiB\n")] =
        [(totalFreeBytes c.mm.buddy / (1024 * 1024)).toNat] := rfl
  have title : numbers [.literal label, .literal (text "\n")] = [] := rfl
  rw [buddyItems, numbers_append, numbers_append, numbers_flatMap, List.flatMap_congr orders, last,
    total, title, buddyNumbers, List.nil_append]

theorem classItems_numbers (valid : Valid usable bitmapFrames free managed root s c) {cls : Nat}
    (small : cls < slabNumClasses) : numbers (classItems (slabGetStats c.slab cls)) =
      [classBytes cls, (s.slabs cls).length, (s.slabs cls).length * slotCount cls,
        ((s.slabs cls).flatMap s.frees).length,
        (c.objects.countP fun object => classFor object.size = some cls) * classBytes cls] := by
  have counted := Slab.Valid.classCounted (c := ⟨c.heap, c.objects⟩) valid.slab small
  have most := Slab.slotCount_bounds small
  have carved : ∀ base ∈ s.slabs cls, (Slab.totalSlots c.heap.mem base).toNat = slotCount cls := by
    intro base isSlab
    have isCarved := (valid.slab.encodes.slabs cls small base isSlab).carved
    rw [isCarved, BitVec.toNat_ofNat, Nat.mod_eq_of_lt (by omega)]
  have slots : (c.slab.caches cls).totalSlots.toNat = (s.slabs cls).length * slotCount cls := by
    have sum : (c.slab.caches cls).totalSlots.toNat = _ := counted.totalSlots
    rw [List.map_congr_left carved] at sum
    simpa using sum
  have free : (c.slab.caches cls).freeSlots.toNat = ((s.slabs cls).flatMap s.frees).length := by
    have sum := counted.freeSlots
    rw [List.map_congr_left fun base isSlab => (counted.threaded base isSlab).2.1] at sum
    rw [List.length_flatMap]
    exact sum
  have listed : numbers (classItems (slabGetStats c.slab cls)) =
      [(c.slab.caches cls).objSize.toNat, (c.slab.caches cls).slabCount.toNat,
        (c.slab.caches cls).totalSlots.toNat, (c.slab.caches cls).freeSlots.toNat,
        (slabGetStats c.slab cls).bytesInUse.toNat] := rfl
  have size : (c.slab.caches cls).objSize = Slab.classSize cls := counted.objSize
  have slabs : (c.slab.caches cls).slabCount.toNat = (s.slabs cls).length := counted.slabCount
  have inUse : (slabGetStats c.slab cls).bytesInUse.toNat = _ := counted.bytesInUse
  rw [listed, size, slabs, slots, free, inUse]
  rfl

theorem slabItems_numbers (valid : Valid usable bitmapFrames free managed root s c)
    (label : List Byte) : numbers (slabItems label c.slab) = slabNumbers s c.objects := by
  have title : numbers [.literal label, .literal (text "\n")] = [] := rfl
  have classes : ∀ cls ∈ List.range slabNumClasses, numbers (classItems (slabGetStats c.slab cls)) = _ :=
    fun cls member => valid.classItems_numbers (List.mem_range.mp member)
  rw [slabItems, numbers_append, title, numbers_flatMap, List.flatMap_congr classes, slabNumbers,
    List.nil_append]

end Valid

/-- What the reports of a state say: they read back to the free lists and to the books of the heap,
and the two agree on `whole` bytes. -/
structure Reported (whole : Nat) (c : Config) (s : Slab.Shape) : Prop where
  lists : Buddy.Holds c.mem c.mm.buddy s.lists
  classes : ∀ cls, cls < slabNumClasses → Slab.ClassCounted ⟨c.heap, c.objects⟩ s cls
  buddy : ∀ bufs label out, ∃ line, printBuddyStats bufs label c.mm.buddy out = some (out ++ line) ∧
    read (buddyPieces label) (unwire line) = some (buddyNumbers s.lists, [])
  slab : ∀ bufs label out, ∃ line, printSlabStats bufs label c.slab out = some (out ++ line) ∧
    read (slabPieces label) (unwire line) = some (slabNumbers s c.objects, [])
  whole : freeBytes s.lists + Slab.borrowedBytes ⟨c.heap, c.objects⟩ +
    (c.blocks.map fun block => 4096 * 2 ^ block.2).sum = whole

theorem Valid.reported {usable bitmapFrames free managed : Set Nat} {root : Nat} {s : Slab.Shape}
    {c : Config} (valid : Valid usable bitmapFrames free managed root s c) :
    Reported (4096 * managed.ncard) c s where
  lists := valid.mm.holds
  classes := fun _ small => Slab.Valid.classCounted (c := ⟨c.heap, c.objects⟩) valid.slab small
  buddy := fun bufs label out => by
    refine ⟨_, printBuddyStats_prints bufs label c.mm.buddy out, ?_⟩
    have back := read_render (buddyItems_separated label c.mm.buddy) []
    rw [List.append_nil, buddyItems_pieces, valid.buddyItems_numbers] at back
    rw [unwire_wire, back]
  slab := fun bufs label out => by
    refine ⟨_, printSlabStats_prints bufs label c.slab out, ?_⟩
    have back := read_render (slabItems_separated label c.slab) []
    rw [List.append_nil, slabItems_pieces, valid.slabItems_numbers] at back
    rw [unwire_wire, back]
  whole := by
    have conserved := Slab.Valid.conserved (c := ⟨c.heap, c.objects⟩) valid.slab
    rw [← valid.freeBytes_eq]
    exact conserved

/-- Whatever state the memory managers have reached, the reports on the serial line read back to
the state: no number is wrong or lost, and the free bytes, the slabs, the large objects and the
blocks of the callers add up to what the inits left free. -/
theorem statistics_read_back {memmap : List MemmapEntry} {hhdm rsp code : Word} {m m' : Memory}
    {pmm : Pmm.Globals} {kernel : Vmm.KernelBounds} {kaddr : Vmm.ExecutableAddress}
    {state : Vmm.State} {c : Config} (memmapValid : MemmapValid memmap)
    (physical : ∀ frame ∈ usableFrames memmap, frame < 2 ^ 40)
    (reachable : ∀ frame ∈ usableFrames memmap, frameAddress frame + hhdm ≠ 0)
    (aligned : hhdm.toNat % 4096 = 0)
    (booted : Pmm.pmmInit m memmap hhdm = some (m', pmm))
    (done : Vmm.vmmInit m' pmm kernel kaddr memmap hhdm rsp code = some state)
    (reserveFrames : Word) (g : Slab.Globals) (ran : Run (start state memmap reserveFrames g) c) :
    ∃ s, Reported (4096 * (state.pmm.freeFrames.toNat - reserveFrames.toNat)) c s := by
  obtain ⟨free, managed, root, s, valid, total, -⟩ :=
    inits_valid memmapValid physical reachable aligned booted done reserveFrames g
  have whole : 4096 * managed.ncard = 4096 * (state.pmm.freeFrames.toNat - reserveFrames.toNat) := by
    have nothingLive : (start state memmap reserveFrames g).mm.live = [] := rfl
    have sizes := valid.mm.tiled.sum_sizes
    rw [nothingLive, List.map_nil, List.sum_nil, Nat.add_zero] at sizes
    rw [← total, ← sizes]
    exact valid.freeBytes_eq.symm
  obtain ⟨free', s', valid'⟩ := valid.run ran
  exact ⟨s', whole ▸ valid'.reported⟩

/-- The reports after a request to the heap, on sixteen frames. -/
theorem statistics_read_back_smallMap : ∃ state ptr h' c s,
    Vmm.vmmInit Pmm.smallBoot.1 Pmm.smallBoot.2 Vmm.smallKernel Vmm.smallAddress Pmm.smallMap
      Pmm.smallHhdm 0xffff800000002ff8 0xffff800000100123 = some state ∧
    Slab.kmalloc (start state Pmm.smallMap 2 Slab.bootGlobals).heap 100 = some (ptr, h') ∧
    c.heap = h' ∧ Reported (4096 * (state.pmm.freeFrames.toNat - 2)) c s := by
  obtain ⟨state, free, managed, root, s, done, valid, -⟩ := smallMap_inits 2
  obtain ⟨⟨ptr, h'⟩, served⟩ := Option.isSome_iff_exists.mp (valid.isolated.kmalloc 100 (by decide))
  have asked : Run (start state Pmm.smallMap 2 Slab.bootGlobals) _ :=
    .single ⟨.heap, .kmalloc (by decide) served⟩
  obtain ⟨s', reported⟩ := statistics_read_back Pmm.smallMap_valid smallMap_physical
    Buddy.smallMap_reachable (by decide) Pmm.smallBoot_done done 2 Slab.bootGlobals asked
  exact ⟨state, ptr, h', _, s', done, served, rfl, reported⟩

end ScrapOS.Kernel
