import ScrapOS.Memory.Ring
import ScrapOS.Memory.Stack

/-! The cooperative scheduler of `core/sched/sched.c`. A `struct task` is read
from and written to memory at its C offsets. The heap is a parameter: every call
of `kmalloc` and `kfree` may do whatever an allocator is allowed to do. -/

set_option autoImplicit false

namespace ScrapOS.Sched

/-- `KERNEL_STACK_SIZE`. -/
def kernelStackSize : Word := 16384

/-- `sizeof(struct task)`. -/
def sizeofTask : Word := 32

inductive TaskState where
  | ready
  | running
  deriving DecidableEq

def TaskState.code : TaskState → BitVec 32
  | .ready => 0
  | .running => 1

/-! ## The fields of `struct task` -/

namespace Task

def rsp (m : Memory) (t : Word) : Word := m.load64 t

def stackBase (m : Memory) (t : Word) : Word := m.load64 (t + 8)

def id (m : Memory) (t : Word) : BitVec 32 := m.load32 (t + 16)

def state (m : Memory) (t : Word) : BitVec 32 := m.load32 (t + 20)

def next (m : Memory) (t : Word) : Word := m.load64 (t + 24)

def setRsp (m : Memory) (t value : Word) : Memory := m.store64 t value

def setStackBase (m : Memory) (t value : Word) : Memory := m.store64 (t + 8) value

def setId (m : Memory) (t : Word) (value : BitVec 32) : Memory := m.store32 (t + 16) value

def setState (m : Memory) (t : Word) (value : TaskState) : Memory :=
  m.store32 (t + 20) value.code

def setNext (m : Memory) (t value : Word) : Memory := m.store64 (t + 24) value

end Task

/-! ## The heap -/

/-- A live heap block: its address and its size in bytes. -/
abbrev Allocation := Word × Nat

def bytesOf (live : List Allocation) : Set Word :=
  {address | ∃ allocation ∈ live, address ∈ span allocation.1 allocation.2}

/-- What the scheduler may expect of `kmalloc` and `kfree`: a block that `kmalloc`
returns avoids the reserved memory and every live block, and neither call
changes a byte of those. The list of live blocks is no argument of the C
functions; it says which blocks a call has to respect. -/
structure Heap (reserved : Set Word) where
  kmalloc : Memory → List Allocation → Word → Word × Memory
  kfree : Memory → List Allocation → Word → Memory
  kmalloc_frame : ∀ m live size, Set.EqOn (kmalloc m live size).2 m (reserved ∪ bytesOf live)
  kmalloc_fresh : ∀ m live size, (kmalloc m live size).1 ≠ 0 →
    Disjoint (span (kmalloc m live size).1 size.toNat) (reserved ∪ bytesOf live)
  kfree_frame : ∀ m live p, Set.EqOn (kfree m live p) m (reserved ∪ bytesOf live)

/-- Memory, the two statics of `sched.c`, and the live heap blocks. -/
structure State where
  mem : Memory
  current : Word
  nextId : BitVec 32
  live : List Allocation

namespace State

variable {reserved : Set Word}

def kmalloc (s : State) (heap : Heap reserved) (size : Word) : Word × State :=
  let (p, m) := heap.kmalloc s.mem s.live size
  (p, { s with mem := m, live := if p = 0 then s.live else (p, size.toNat) :: s.live })

def kfree (s : State) (heap : Heap reserved) (p : Word) : State :=
  let live := s.live.eraseP fun allocation => allocation.1 == p
  { s with mem := heap.kfree s.mem live p, live := live }

end State

/-! ## The run queue -/

variable {reserved : Set Word}

/-- `sched_init`, with both statics still at their initial values. -/
def schedInit (heap : Heap reserved) (m : Memory) : State :=
  let (t, s) := State.kmalloc { mem := m, current := 0, nextId := 0, live := [] } heap sizeofTask
  let m := Task.setRsp s.mem t 0
  let m := Task.setStackBase m t 0
  let m := Task.setId m t s.nextId
  let m := Task.setState m t .running
  let m := Task.setNext m t t
  { s with mem := m, current := t, nextId := s.nextId + 1 }

/-- The words of a forged stack in the order in which they are pushed: the return
address of `entry`, the target of the first `ret`, and six zeros for the
callee-saved registers. -/
def forgedWords (trampoline entry : Word) : List Word :=
  [trampoline, entry, 0, 0, 0, 0, 0, 0]

/-- The address at which the forging starts: the end of the stack, rounded down. -/
def stackTop (stack : Word) : Word := (stack + kernelStackSize) &&& ~~~0xF

/-- `task_create`; `none` when the walk to the tail never ends. `trampoline` is
the address of `task_trampoline`. -/
def taskCreate (heap : Heap reserved) (trampoline entry : Word) (s : State) :
    Option (Word × State) :=
  let (t, s) := s.kmalloc heap sizeofTask
  if t = 0 then some (0, s)
  else
    let (stack, s) := s.kmalloc heap kernelStackSize
    if stack = 0 then some (0, s.kfree heap t)
    else
      let (sp, m) := pushWords (stackTop stack) s.mem (forgedWords trampoline entry)
      let m := Task.setRsp m t sp
      let m := Task.setStackBase m t stack
      let m := Task.setId m t s.nextId
      let m := Task.setState m t .ready
      match walk (Task.next m) (fun tail => Task.next m tail == s.current) s.current with
      | none => none
      | some tail =>
          let m := Task.setNext m tail t
          let m := Task.setNext m t s.current
          some (t, { s with mem := m, nextId := s.nextId + 1 })

/-- `sched_yield` up to its call of `context_switch`, and the two arguments of
that call when it is made. -/
def schedYield (s : State) : State × Option (Word × Word) :=
  let prev := s.current
  let next := Task.next s.mem prev
  if next = prev then (s, none)
  else
    let m := Task.setState s.mem prev .ready
    let m := Task.setState m next .running
    ({ s with mem := m, current := next }, some (prev, Task.rsp m next))

end ScrapOS.Sched
