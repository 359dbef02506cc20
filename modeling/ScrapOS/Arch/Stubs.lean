import ScrapOS.Arch.Context

/-! `isr_stubs.asm`: the entry stubs of the forty-eight vectors, their two shared tails and
the way back, as a program of a machine with registers, flags, selectors and a memory. -/

set_option autoImplicit false

namespace ScrapOS.Arch

/-! ## The machine -/

abbrev Selector := BitVec 16

structure Machine where
  regs : Reg → Word
  rip : Word
  cs : Selector
  rflags : Word
  ss : Selector
  memory : Memory

/-- The C functions that the stubs call. -/
inductive Callee where
  | isrHandler | irqDispatch
  deriving DecidableEq

inductive Label where
  | isrCommon | interruptReturn | irqCommon
  deriving DecidableEq

namespace Stub

inductive Instr where
  | push (src : Reg)
  | pushQword (value : Word)
  | pop (dst : Reg)
  | cld
  | mov (dst src : Reg)
  | and (dst : Reg) (value : Word)
  | add (dst : Reg) (value : Word)
  | call (callee : Callee)
  | jmp (target : Label)
  | iretq
  deriving DecidableEq

/-! ## The stubs -/

def isrNoErr (vector : Word) : List Instr := [.pushQword 0, .pushQword vector, .jmp .isrCommon]

def isrErr (vector : Word) : List Instr := [.pushQword vector, .jmp .isrCommon]

def irqStub (line : Word) : List Instr :=
  [.pushQword 0, .pushQword (32 + line), .jmp .irqCommon]

/-- `isr_stub_table` -/
def isrStubTable : List (List Instr) :=
  [isrNoErr 0, isrNoErr 1, isrNoErr 2, isrNoErr 3, isrNoErr 4, isrNoErr 5, isrNoErr 6, isrNoErr 7,
    isrErr 8, isrNoErr 9, isrErr 10, isrErr 11, isrErr 12, isrErr 13, isrErr 14, isrNoErr 15,
    isrNoErr 16, isrErr 17, isrNoErr 18, isrNoErr 19, isrNoErr 20, isrErr 21, isrNoErr 22,
    isrNoErr 23, isrNoErr 24, isrNoErr 25, isrNoErr 26, isrNoErr 27, isrNoErr 28, isrErr 29,
    isrErr 30, isrNoErr 31]

/-- `irq_stub_table` -/
def irqStubTable : List (List Instr) :=
  [irqStub 0, irqStub 1, irqStub 2, irqStub 3, irqStub 4, irqStub 5, irqStub 6, irqStub 7,
    irqStub 8, irqStub 9, irqStub 10, irqStub 11, irqStub 12, irqStub 13, irqStub 14, irqStub 15]

/-- The gates of the IDT as `isr_init` and `irq_init` set them. -/
def gate (vector : Nat) : List Instr := (isrStubTable ++ irqStubTable).getD vector []

/-- `interrupt_return` -/
def interruptReturn : List Instr :=
  [.mov .rsp .rbp, .pop .rax, .pop .rbx, .pop .rcx, .pop .rdx, .pop .rsi, .pop .rdi, .pop .rbp,
    .pop .r8, .pop .r9, .pop .r10, .pop .r11, .pop .r12, .pop .r13, .pop .r14, .pop .r15,
    .add .rsp 16, .iretq]

/-- `isr_common`, which falls through to `interrupt_return`. -/
def isrCommon : List Instr :=
  [.push .r15, .push .r14, .push .r13, .push .r12, .push .r11, .push .r10, .push .r9, .push .r8,
    .push .rbp, .push .rdi, .push .rsi, .push .rdx, .push .rcx, .push .rbx, .push .rax,
    .cld, .mov .rbp .rsp, .and .rsp (-16), .mov .rdi .rbp, .call .isrHandler] ++ interruptReturn

/-- `irq_common` -/
def irqCommon : List Instr :=
  [.push .r15, .push .r14, .push .r13, .push .r12, .push .r11, .push .r10, .push .r9, .push .r8,
    .push .rbp, .push .rdi, .push .rsi, .push .rdx, .push .rcx, .push .rbx, .push .rax,
    .cld, .mov .rbp .rsp, .and .rsp (-16), .mov .rdi .rbp, .call .irqDispatch,
    .jmp .interruptReturn]

/-- The code at a label. -/
def code : Label → List Instr
  | .isrCommon => isrCommon
  | .interruptReturn => interruptReturn
  | .irqCommon => irqCommon

end Stub

/-! ## Execution -/

namespace Machine

def set (machine : Machine) (dst : Reg) (value : Word) : Machine :=
  { machine with regs := Function.update machine.regs dst value }

def push (machine : Machine) (value : Word) : Machine :=
  { machine.set .rsp (machine.regs .rsp - 8) with
    memory := machine.memory.store64 (machine.regs .rsp - 8) value }

def pop (machine : Machine) (dst : Reg) : Machine :=
  (machine.set .rsp (machine.regs .rsp + 8)).set dst
    (machine.memory.load64 (machine.regs .rsp))

def pushAll (machine : Machine) (words : List Word) : Machine := words.foldl push machine

/-- `iretq` pops the five words that the CPU pushed first. -/
def iretq (machine : Machine) : Machine where
  regs := Function.update machine.regs .rsp (machine.memory.load64 (machine.regs .rsp + 24))
  rip := machine.memory.load64 (machine.regs .rsp)
  cs := (machine.memory.load64 (machine.regs .rsp + 8)).setWidth 16
  rflags := machine.memory.load64 (machine.regs .rsp + 16)
  ss := (machine.memory.load64 (machine.regs .rsp + 32)).setWidth 16
  memory := machine.memory

section Registers

variable {machine : Machine} {reg dst : Reg} {value : Word}

@[simp] theorem set_regs_self : (machine.set dst value).regs dst = value := Function.update_self ..

theorem set_regs_of_ne (apart : reg ≠ dst) : (machine.set dst value).regs reg = machine.regs reg :=
  Function.update_of_ne apart _ _

@[simp] theorem push_rsp : (machine.push value).regs .rsp = machine.regs .rsp - 8 := by
  simp only [push, set_regs_self]

theorem push_regs_of_ne (apart : reg ≠ .rsp) : (machine.push value).regs reg = machine.regs reg := by
  simp only [push, set_regs_of_ne apart]

@[simp] theorem pop_regs_self :
    (machine.pop dst).regs dst = machine.memory.load64 (machine.regs .rsp) := set_regs_self

theorem pop_rsp (apart : .rsp ≠ dst) : (machine.pop dst).regs .rsp = machine.regs .rsp + 8 := by
  rw [pop, set_regs_of_ne apart, set_regs_self]

theorem pop_regs_of_ne (notTop : reg ≠ .rsp) (apart : reg ≠ dst) :
    (machine.pop dst).regs reg = machine.regs reg := by
  rw [pop, set_regs_of_ne apart, set_regs_of_ne notTop]

@[simp] theorem iretq_rsp :
    machine.iretq.regs .rsp = machine.memory.load64 (machine.regs .rsp + 24) := by
  simp only [iretq, Function.update_self]

theorem iretq_regs_of_ne (apart : reg ≠ .rsp) : machine.iretq.regs reg = machine.regs reg := by
  simp only [iretq, ne_eq, apart, not_false_eq_true, Function.update_of_ne]

end Registers

end Machine

/-- The direction flag. -/
def directionFlag : Word := 0x400

/-- CF, PF, AF, ZF, SF and OF. -/
def statusFlags : Word := 0x8D5

/-- What the stubs run among: the C functions, the address that a call returns to, and the
status flags that arithmetic leaves. -/
structure Surroundings where
  callee : Callee → Machine → Machine
  returnAddress : Callee → Word
  status : Machine → Stub.Instr → Word

namespace Stub

def withStatus (env : Surroundings) (instr : Instr) (before after : Machine) : Machine :=
  { after with
    rflags := (after.rflags &&& ~~~statusFlags) ||| (env.status before instr &&& statusFlags) }

def exec (env : Surroundings) (machine : Machine) : Instr → Machine
  | .push src => machine.push (machine.regs src)
  | .pushQword value => machine.push value
  | .pop dst => machine.pop dst
  | .cld => { machine with rflags := machine.rflags &&& ~~~directionFlag }
  | .mov dst src => machine.set dst (machine.regs src)
  | .and dst value =>
      withStatus env (.and dst value) machine (machine.set dst (machine.regs dst &&& value))
  | .add dst value =>
      withStatus env (.add dst value) machine (machine.set dst (machine.regs dst + value))
  | .call callee => env.callee callee (machine.push (env.returnAddress callee))
  | .jmp _ => machine
  | .iretq => machine.iretq

/-- A machine and the instructions ahead of it. -/
structure State where
  machine : Machine
  control : List Instr

/-- The instructions ahead after one that `rest` follows in the text. -/
def ahead (rest : List Instr) : Instr → List Instr
  | .jmp target => code target
  | .iretq => []
  | _ => rest

/-- One instruction; nothing is ahead once the interrupted code is resumed. -/
def step (env : Surroundings) (state : State) : Option State :=
  match state.control with
  | [] => none
  | instr :: rest => some ⟨exec env state.machine instr, ahead rest instr⟩

def Reaches (env : Surroundings) : State → State → Prop :=
  Relation.ReflTransGen fun state state' => step env state = some state'

end Stub

/-! ## Delivery -/

/-- The vectors for which the CPU pushes an error code. -/
def errorCodeVectors : List Nat := [8, 10, 11, 12, 13, 14, 17, 21, 29, 30]

/-- What the CPU chooses when it takes an interrupt: where it begins to push, the error code,
and the flags and selectors that the gate loads. -/
structure Delivery where
  top : Word
  errorCode : Word
  rip : Word
  cs : Selector
  rflags : Word
  ss : Selector

/-- The words that the CPU pushes, the first one first. -/
def deliveredWords (interrupted : Machine) (vector : Nat) (delivery : Delivery) : List Word :=
  [interrupted.ss.setWidth 64, interrupted.regs .rsp, interrupted.rflags,
    interrupted.cs.setWidth 64, interrupted.rip] ++
  if vector ∈ errorCodeVectors then [delivery.errorCode] else []

/-- The machine that the CPU makes of the interrupted one, before it pushes. -/
def Machine.taken (interrupted : Machine) (delivery : Delivery) : Machine :=
  { interrupted.set .rsp delivery.top with
    rip := delivery.rip
    cs := delivery.cs
    rflags := delivery.rflags
    ss := delivery.ss }

@[simp] theorem Machine.taken_rsp (interrupted : Machine) (delivery : Delivery) :
    (interrupted.taken delivery).regs .rsp = delivery.top := by
  simp only [taken, set_regs_self]

theorem Machine.taken_regs_of_ne (interrupted : Machine) (delivery : Delivery) {reg : Reg}
    (apart : reg ≠ .rsp) : (interrupted.taken delivery).regs reg = interrupted.regs reg := by
  simp only [taken, set_regs_of_ne apart]

/-- The interrupt is taken and the stub of its vector is ahead. -/
def deliver (interrupted : Machine) (vector : Nat) (delivery : Delivery) : Stub.State where
  machine := (interrupted.taken delivery).pushAll (deliveredWords interrupted vector delivery)
  control := Stub.gate vector

/-- What a function may rely on when it is called: the stack was aligned before the return
address was pushed, and the direction flag is clear. -/
def Callable (machine : Machine) : Prop :=
  (machine.regs .rsp + 8).toNat % 16 = 0 ∧ machine.rflags &&& directionFlag = 0

/-- A call in which the function keeps the calling convention: it gives `rbp` back and leaves the
frame that it is pointed to as it was. -/
structure SysV (callee : Machine → Machine) (machine : Machine) : Prop where
  rbp : Callable machine → (callee machine).regs .rbp = machine.regs .rbp
  frame : Callable machine →
    Set.EqOn (callee machine).memory machine.memory (span (machine.regs .rdi) 176)

/-! ## The frame -/

/-- `struct interrupt_frame` -/
structure InterruptFrame where
  rax : Word
  rbx : Word
  rcx : Word
  rdx : Word
  rsi : Word
  rdi : Word
  rbp : Word
  r8 : Word
  r9 : Word
  r10 : Word
  r11 : Word
  r12 : Word
  r13 : Word
  r14 : Word
  r15 : Word
  vector : Word
  errorCode : Word
  rip : Word
  cs : Word
  rflags : Word
  rsp : Word
  ss : Word
deriving DecidableEq

/-- The packed struct at an address. -/
def InterruptFrame.read (m : Memory) (frame : Word) : InterruptFrame where
  rax := m.load64 frame
  rbx := m.load64 (frame + 8)
  rcx := m.load64 (frame + 16)
  rdx := m.load64 (frame + 24)
  rsi := m.load64 (frame + 32)
  rdi := m.load64 (frame + 40)
  rbp := m.load64 (frame + 48)
  r8 := m.load64 (frame + 56)
  r9 := m.load64 (frame + 64)
  r10 := m.load64 (frame + 72)
  r11 := m.load64 (frame + 80)
  r12 := m.load64 (frame + 88)
  r13 := m.load64 (frame + 96)
  r14 := m.load64 (frame + 104)
  r15 := m.load64 (frame + 112)
  vector := m.load64 (frame + 120)
  errorCode := m.load64 (frame + 128)
  rip := m.load64 (frame + 136)
  cs := m.load64 (frame + 144)
  rflags := m.load64 (frame + 152)
  rsp := m.load64 (frame + 160)
  ss := m.load64 (frame + 168)

end ScrapOS.Arch
