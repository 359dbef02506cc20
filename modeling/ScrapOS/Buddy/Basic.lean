import ScrapOS.Memory.Chain
import ScrapOS.Pmm.Basic

/-! The binary buddy allocator of `core/mm/buddy.c`. The free lists live in the
free blocks themselves: the first sixteen bytes of a free block, reached through
the direct map, are its `next` and `prev` links. -/

set_option autoImplicit false

namespace ScrapOS.Buddy

/-- `BUDDY_MAX_ORDER`. -/
abbrev buddyMaxOrder : Nat := 10

/-- The file-scope state of `buddy.c`. Only the entries up to `buddyMaxOrder` of
the two arrays are ever read or written. -/
structure Globals where
  freeList : Nat → Word
  freeCount : Nat → Word
  gHhdm : Word

namespace Globals

def nodeAt (g : Globals) (phys : Word) : Word := phys + g.gHhdm

def physOf (g : Globals) (n : Word) : Word := n - g.gHhdm

end Globals

def blockBytes (o : Nat) : Word := pmmFrameSize <<< o

/-! ## The fields of `struct buddy_node` -/

def next (m : Memory) (n : Word) : Word := m.load64 n

def prev (m : Memory) (n : Word) : Word := m.load64 (n + 8)

def setNext (m : Memory) (n value : Word) : Memory := m.store64 n value

def setPrev (m : Memory) (n value : Word) : Memory := m.store64 (n + 8) value

/-! ## Free-list primitives -/

def listPush (m : Memory) (g : Globals) (order : Nat) (phys : Word) : Memory × Globals :=
  let n := g.nodeAt phys
  let m := setPrev m n 0
  let m := setNext m n (g.freeList order)
  let m := if g.freeList order ≠ 0 then setPrev m (g.freeList order) n else m
  (m, { g with
        freeList := Function.update g.freeList order n
        freeCount := Function.update g.freeCount order (g.freeCount order + 1) })

def listRemove (m : Memory) (g : Globals) (order : Nat) (n : Word) : Memory × Globals :=
  let (m, g) :=
    if prev m n ≠ 0 then (setNext m (prev m n) (next m n), g)
    else (m, { g with freeList := Function.update g.freeList order (next m n) })
  let m := if next m n ≠ 0 then setPrev m (next m n) (prev m n) else m
  (m, { g with freeCount := Function.update g.freeCount order (g.freeCount order - 1) })

/-- `list_find`: the node of `phys`, or `NULL`; `none` when the scan never ends. -/
def listFind (m : Memory) (g : Globals) (order : Nat) (phys : Word) : Option Word :=
  walk (next m) (fun n => n == 0 || g.physOf n == phys) (g.freeList order)

/-! ## Allocate -/

/-- The search loop of `buddy_alloc`: step `o` up past empty lists. -/
def searchOrder (g : Globals) : Nat → Nat → Nat
  | 0, o => o
  | steps + 1, o =>
      if o ≤ buddyMaxOrder ∧ g.freeList o = 0 then searchOrder g steps (o + 1) else o

/-- The split loop of `buddy_alloc`: push the upper halves from order `o` down to `order`. -/
def splitDown (m : Memory) (g : Globals) (phys : Word) (order : Nat) : Nat → Memory × Globals
  | 0 => (m, g)
  | o + 1 =>
      if o + 1 > order then
        let (m, g) := listPush m g o (phys + blockBytes o)
        splitDown m g phys order o
      else (m, g)

def buddyAlloc (m : Memory) (g : Globals) (order : Nat) : Word × Memory × Globals :=
  if order > buddyMaxOrder then (0, m, g)
  else
    let o := searchOrder g (buddyMaxOrder + 1) order
    if o > buddyMaxOrder then (0, m, g)
    else
      let n := g.freeList o
      let (m, g) := listRemove m g o n
      let phys := g.physOf n
      let (m, g) := splitDown m g phys order o
      (phys, m, g)

/-! ## Free -/

/-- The merge loop of `buddy_free` and the push that ends it. The step count only
bounds the recursion: `order` has reached `buddyMaxOrder` before it runs out. -/
def mergeUp : Nat → Memory → Globals → Word → Nat → Option (Memory × Globals)
  | 0, m, g, phys, order => some (listPush m g order phys)
  | steps + 1, m, g, phys, order =>
      if order < buddyMaxOrder then
        let buddy := phys ^^^ blockBytes order
        match listFind m g order buddy with
        | none => none
        | some bn =>
            if bn = 0 then some (listPush m g order phys)
            else
              let (m, g) := listRemove m g order bn
              mergeUp steps m g (if buddy < phys then buddy else phys) (order + 1)
      else some (listPush m g order phys)

/-- `buddy_free`; `none` when a list scan never ends. -/
def buddyFree (m : Memory) (g : Globals) (phys : Word) (order : Nat) : Option (Memory × Globals) :=
  if order > buddyMaxOrder then some (m, g)
  else mergeUp buddyMaxOrder m g phys order

/-! ## Stats -/

/-- The `total_free_bytes` of `buddy_get_stats`; its `counts` are `freeCount` itself. -/
def totalFreeBytes (g : Globals) : Word :=
  (List.range (buddyMaxOrder + 1)).foldl (fun total o => total + g.freeCount o * blockBytes o) 0

end ScrapOS.Buddy
