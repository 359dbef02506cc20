import ScrapOS.Arch.Interrupt

/-! `gdt.c`, `idt.c`, `isr_init` and `irq_init`: the descriptor tables as the kernel fills them,
and what the CPU reads from them when it takes a vector. -/

set_option autoImplicit false

namespace ScrapOS.Arch

/-! ## Segments -/

def gdtKernelCodeSelector : Selector := 0x08

def gdtKernelDataSelector : Selector := 0x10

def gdtDescriptor (access flags : Byte) : Word :=
  let desc : Word := 0
  let desc := desc ||| 0xFFFF
  let desc := desc ||| (access.setWidth 64 <<< 40)
  let desc := desc ||| ((0xF : Word) <<< 48)
  desc ||| ((flags &&& 0xF).setWidth 64 <<< 52)

/-- What `gdt_init` writes to the table: null, kernel code and kernel data. -/
def gdtInit : Vector Word 3 := #v[0, gdtDescriptor 0x9A 0xA, gdtDescriptor 0x92 0xA]

/-- What the CPU reads from a descriptor of code or data. -/
structure Segment where
  present : Bool
  dpl : BitVec 2
  codeOrData : Bool
  executable : Bool
  writable : Bool
  long : Bool
  big : Bool
deriving DecidableEq

def Segment.decode (desc : Word) : Segment where
  present := desc.getLsbD 47
  dpl := desc.extractLsb' 45 2
  codeOrData := desc.getLsbD 44
  executable := desc.getLsbD 43
  writable := desc.getLsbD 41
  long := desc.getLsbD 53
  big := desc.getLsbD 54

/-- The descriptor that a selector names. Selector bit 2 means another table, and the first
descriptor is never used. -/
def segment {size : Nat} (gdt : Vector Word size) (selector : Selector) : Option Segment :=
  if selector.getLsbD 2 ∨ selector >>> 3 = 0 then none
  else gdt[(selector >>> 3).toNat]?.map Segment.decode

/-- The access byte and the flags nibble land where the CPU looks for them. -/
theorem gdtDescriptor_decode (access flags : Byte) : Segment.decode (gdtDescriptor access flags) =
    { present := access.getLsbD 7
      dpl := access.extractLsb' 5 2
      codeOrData := access.getLsbD 4
      executable := access.getLsbD 3
      writable := access.getLsbD 1
      long := flags.getLsbD 1
      big := flags.getLsbD 2 } := by
  unfold Segment.decode gdtDescriptor
  simp only [Segment.mk.injEq]
  refine ⟨?_, ?_, ?_, ?_, ?_, ?_, ?_⟩
  · simp
  · ext i inside
    interval_cases i <;> simp
  · simp
  · simp
  · simp
  · simp
  · simp

/-! ## Gates -/

def idtGateInterrupt : Byte := 0x8E

/-- `struct idt_entry` -/
structure IdtEntry where
  offsetLow : BitVec 16
  selector : BitVec 16
  ist : BitVec 8
  typeAttr : BitVec 8
  offsetMid : BitVec 16
  offsetHigh : BitVec 32
  zero : BitVec 32

/-- The packed struct, as the two words that the CPU reads. -/
def IdtEntry.low (e : IdtEntry) : Word :=
  e.offsetMid ++ e.typeAttr ++ e.ist ++ e.selector ++ e.offsetLow

def IdtEntry.high (e : IdtEntry) : Word := e.zero ++ e.offsetHigh

/-- The table in `.bss`. -/
def emptyIdt : Vector IdtEntry 256 :=
  Vector.replicate 256
    { offsetLow := 0, selector := 0, ist := 0, typeAttr := 0, offsetMid := 0, offsetHigh := 0
      zero := 0 }

/-- The entry that `idt_set_gate` writes. -/
def idtEntry (addr : Word) (flags : Byte) : IdtEntry where
  offsetLow := (addr &&& 0xFFFF).setWidth 16
  selector := gdtKernelCodeSelector
  ist := 0
  typeAttr := flags
  offsetMid := ((addr >>> 16) &&& 0xFFFF).setWidth 16
  offsetHigh := (addr >>> 32).setWidth 32
  zero := 0

def idtSetGate (vector : Byte) (handler : Word) (flags : Byte) (idt : Vector IdtEntry 256) :
    Vector IdtEntry 256 := idt.set vector.toNat (idtEntry handler flags) vector.isLt

/-- The loop that both of the next two functions are. -/
def setGates (base count : Nat) (stubTable : Nat → Word) (idt : Vector IdtEntry 256) :
    Vector IdtEntry 256 :=
  (List.range count).foldl
    (fun idt i => idtSetGate (BitVec.ofNat 8 (base + i)) (stubTable i) idtGateInterrupt idt) idt

def isrInit (isrStubTable : Nat → Word) (idt : Vector IdtEntry 256) : Vector IdtEntry 256 :=
  setGates 0 32 isrStubTable idt

def irqInit (irqStubTable : Nat → Word) (idt : Vector IdtEntry 256) : Vector IdtEntry 256 :=
  setGates 32 16 irqStubTable idt

/-- The limit that `idt_init` loads: the size of the table less one. -/
def idtLimit : BitVec 16 := BitVec.ofNat 16 (16 * 256 - 1)

/-- What the CPU reads from the two words of a gate. -/
structure Gate where
  offset : Word
  selector : Selector
  ist : BitVec 3
  kind : BitVec 4
  dpl : BitVec 2
  present : Bool

def Gate.decode (low high : Word) : Gate where
  offset := high.extractLsb' 0 32 ++ low.extractLsb' 48 16 ++ low.extractLsb' 0 16
  selector := low.extractLsb' 16 16
  ist := low.extractLsb' 32 3
  kind := low.extractLsb' 40 4
  dpl := low.extractLsb' 45 2
  present := low.getLsbD 47

section Fields

variable (e : IdtEntry)

theorem low_fields : e.low.extractLsb' 0 16 = e.offsetLow ∧ e.low.extractLsb' 16 16 = e.selector ∧
    e.low.extractLsb' 32 3 = e.ist.extractLsb' 0 3 ∧
    e.low.extractLsb' 40 4 = e.typeAttr.extractLsb' 0 4 ∧
    e.low.extractLsb' 45 2 = e.typeAttr.extractLsb' 5 2 ∧
    e.low.extractLsb' 48 16 = e.offsetMid := by
  unfold IdtEntry.low
  refine ⟨?_, ?_, ?_, ?_, ?_, ?_⟩ <;>
  · apply BitVec.eq_of_getLsbD_eq
    intro i inside
    simp only [BitVec.getLsbD_extractLsb', BitVec.getLsbD_append, inside, decide_true, Bool.true_and]
    repeat' split
    all_goals first
      | omega
      | exact congrArg _ (by omega)

theorem low_present : e.low.getLsbD 47 = e.typeAttr.getLsbD 7 := by
  unfold IdtEntry.low
  simp only [BitVec.getLsbD_append]
  rfl

theorem decode_entry : Gate.decode e.low e.high =
    { offset := e.offsetHigh ++ e.offsetMid ++ e.offsetLow
      selector := e.selector
      ist := e.ist.extractLsb' 0 3
      kind := e.typeAttr.extractLsb' 0 4
      dpl := e.typeAttr.extractLsb' 5 2
      present := e.typeAttr.getLsbD 7 } := by
  obtain ⟨low, selector, ist, kind, dpl, mid⟩ := low_fields e
  have high : e.high.extractLsb' 0 32 = e.offsetHigh := BitVec.extractLsb'_append_eq_right
  simp only [Gate.decode, low, selector, ist, kind, dpl, mid, high, low_present]

end Fields

/-- The three parts of an address put together again. -/
theorem offset_parts (addr : Word) :
    (addr >>> 32).setWidth 32 ++ ((addr >>> 16) &&& 0xFFFF).setWidth 16 ++
      (addr &&& 0xFFFF).setWidth 16 = addr := by
  have mask : ∀ word : Word, (word &&& 0xFFFF).setWidth 16 = word.extractLsb' 0 16 := by
    intro word
    ext i inside
    interval_cases i <;> simp
  have middle : (addr >>> 16).extractLsb' 0 16 = addr.extractLsb' 16 16 := by
    ext i inside
    simp
  have high : (addr >>> 32).setWidth 32 = addr.extractLsb' 32 32 := by
    ext i inside
    simp
  rw [mask, mask, middle, high,
    BitVec.extractLsb'_append_extractLsb'_eq_extractLsb' (by decide : 32 = 16 + 16)]
  exact @BitVec.extractLsb'_append_extractLsb' 48 16 addr

theorem idtEntry_decode (addr : Word) (flags : Byte) :
    Gate.decode (idtEntry addr flags).low (idtEntry addr flags).high =
      { offset := addr
        selector := gdtKernelCodeSelector
        ist := 0
        kind := flags.extractLsb' 0 4
        dpl := flags.extractLsb' 5 2
        present := flags.getLsbD 7 } := by
  rw [decode_entry]
  simp only [idtEntry, offset_parts]
  rfl

/-! ## Taking a vector -/

/-- Where the CPU goes on. -/
structure Entry where
  rip : Word
  cs : Selector
  masked : Bool
deriving DecidableEq

/-- The CPU takes a vector: the gate must be present and an interrupt or trap gate, and its
selector must name a present 64-bit code segment. Only an interrupt gate masks interrupts. -/
def enter {size : Nat} (gdt : Vector Word size) (idt : Vector IdtEntry 256) (limit : BitVec 16)
    (vector : Byte) : Option Entry :=
  let entry := idt.get vector.toFin
  let gate := Gate.decode entry.low entry.high
  if 16 * vector.toNat + 15 ≤ limit.toNat ∧ gate.present ∧ (gate.kind = 0xE ∨ gate.kind = 0xF) then
    (segment gdt gate.selector).bind fun target =>
      if target.present ∧ target.codeOrData ∧ target.executable ∧ target.long ∧ ¬ target.big then
        some { rip := gate.offset, cs := gate.selector, masked := gate.kind = 0xE }
      else none
  else none

section Install

variable {idt : Vector IdtEntry 256} {isrStubTable irqStubTable : Nat → Word} {vector : Byte}

theorem idtSetGate_get (idt : Vector IdtEntry 256) (target vector : Byte) (handler : Word)
    (flags : Byte) : (idtSetGate target handler flags idt).get vector.toFin =
      if vector = target then idtEntry handler flags else idt.get vector.toFin := by
  have place : target.toNat = vector.toFin.val ↔ vector = target := by
    rw [BitVec.val_toFin, BitVec.toNat_inj, eq_comm]
  simp only [idtSetGate, Vector.get_eq_getElem, Vector.getElem_set, place]

theorem setGates_get {base count : Nat} (fits : base + count ≤ 256) (stubTable : Nat → Word)
    (idt : Vector IdtEntry 256) (vector : Byte) :
    (setGates base count stubTable idt).get vector.toFin =
      if base ≤ vector.toNat ∧ vector.toNat < base + count then
        idtEntry (stubTable (vector.toNat - base)) idtGateInterrupt
      else idt.get vector.toFin := by
  induction count with
  | zero =>
      have none : ¬ (base ≤ vector.toNat ∧ vector.toNat < base + 0) := by omega
      rw [if_neg none]
      rfl
  | succ count ih =>
      have split : setGates base (count + 1) stubTable idt =
          idtSetGate (BitVec.ofNat 8 (base + count)) (stubTable count) idtGateInterrupt
            (setGates base count stubTable idt) := by
        simp [setGates, List.range_succ]
      have place : vector = BitVec.ofNat 8 (base + count) ↔ vector.toNat = base + count := by
        rw [← BitVec.toNat_inj, BitVec.toNat_ofNat, Nat.mod_eq_of_lt (by omega)]
      simp only [split, idtSetGate_get, ih (by omega), place]
      by_cases last : vector.toNat = base + count
      · simp [last]
      · have rest : vector.toNat < base + (count + 1) ↔ vector.toNat < base + count := by omega
        simp [last, rest]

theorem kernelCode_segment : segment gdtInit gdtKernelCodeSelector =
    some { present := true, dpl := 0, codeOrData := true, executable := true, writable := true
           long := true, big := false } := by decide

theorem kernelData_segment : segment gdtInit gdtKernelDataSelector =
    some { present := true, dpl := 0, codeOrData := true, executable := false, writable := true
           long := true, big := false } := by decide

/-- The CPU enters the handler of an interrupt gate of the kernel, with interrupts masked. -/
theorem enter_interrupt {handler : Word}
    (installed : idt.get vector.toFin = idtEntry handler idtGateInterrupt) :
    enter gdtInit idt idtLimit vector =
      some { rip := handler, cs := gdtKernelCodeSelector, masked := true } := by
  have inside : 16 * vector.toNat + 15 ≤ idtLimit.toNat := by
    have small := vector.isLt
    have limit : idtLimit.toNat = 4095 := rfl
    omega
  have kind : idtGateInterrupt.extractLsb' 0 4 = 0xE := rfl
  have present : idtGateInterrupt.getLsbD 7 = true := rfl
  simp [enter, installed, idtEntry_decode, inside, kind, present, kernelCode_segment]

theorem enter_empty {idt : Vector IdtEntry 256}
    (empty : idt.get vector.toFin = emptyIdt.get vector.toFin) :
    enter gdtInit idt idtLimit vector = none := by
  have absent : (Gate.decode (emptyIdt.get vector.toFin).low
      (emptyIdt.get vector.toFin).high).present = false := by
    rw [decode_entry]
    simp [emptyIdt, Vector.get_eq_getElem]
  simp [enter, empty, absent]

end Install

/-- The entry for a vector after `arch_init`: the stub of its own number. -/
def stubEntry (isrStubTable irqStubTable : Nat → Word) (vector : Nat) : Entry where
  rip := if vector < 32 then isrStubTable vector else irqStubTable (vector - 32)
  cs := gdtKernelCodeSelector
  masked := true

/-- The tables lead the 32 vectors of the exceptions and the 16 of the hardware to their stubs,
and no other vector has a gate. -/
theorem enter_vector (isrStubTable irqStubTable : Nat → Word) (vector : Byte) :
    enter gdtInit (irqInit irqStubTable (isrInit isrStubTable emptyIdt)) idtLimit vector =
      if vector.toNat < 48 then some (stubEntry isrStubTable irqStubTable vector.toNat) else none := by
  have irqs := setGates_get (by decide : 32 + 16 ≤ 256) irqStubTable
    (isrInit isrStubTable emptyIdt) vector
  have isrs := setGates_get (by decide : 0 + 32 ≤ 256) isrStubTable emptyIdt vector
  unfold stubEntry
  by_cases exception : vector.toNat < 32
  · have notIrq : ¬ (32 ≤ vector.toNat ∧ vector.toNat < 32 + 16) := by omega
    have isIsr : 0 ≤ vector.toNat ∧ vector.toNat < 0 + 32 := by omega
    have known : vector.toNat < 48 := by omega
    rw [if_neg notIrq] at irqs
    rw [if_pos isIsr, Nat.sub_zero] at isrs
    rw [if_pos known, if_pos exception]
    exact enter_interrupt (irqs.trans isrs)
  · rw [if_neg exception]
    by_cases hardware : vector.toNat < 48
    · have isIrq : 32 ≤ vector.toNat ∧ vector.toNat < 32 + 16 := by omega
      rw [if_pos isIrq] at irqs
      rw [if_pos hardware]
      exact enter_interrupt irqs
    · have notIrq : ¬ (32 ≤ vector.toNat ∧ vector.toNat < 32 + 16) := by omega
      have notIsr : ¬ (0 ≤ vector.toNat ∧ vector.toNat < 0 + 32) := by omega
      rw [if_neg notIrq] at irqs
      rw [if_neg notIsr] at isrs
      rw [if_neg hardware]
      exact enter_empty (irqs.trans isrs)

/-! ## From the vector to the handler -/

/-- The flags that an interrupt gate clears: TF, IF, NT and RF. -/
def gateFlags : Word := 0x14300

/-- What the CPU does at an entry without a change of privilege: it aligns the stack. -/
def Entry.delivery (entry : Entry) (interrupted : Machine) (errorCode : Word) : Delivery where
  top := interrupted.regs .rsp &&& -16
  errorCode := errorCode
  rip := entry.rip
  cs := entry.cs
  rflags := if entry.masked then interrupted.rflags &&& ~~~gateFlags else interrupted.rflags
  ss := interrupted.ss

/-- The code that stands at the addresses of the two tables. -/
structure Linked (code : Word → List Stub.Instr) (isrStubTable irqStubTable : Nat → Word) : Prop where
  isr : ∀ v < 32, code (isrStubTable v) = Stub.isrStubTable.getD v []
  irq : ∀ i < 16, code (irqStubTable i) = Stub.irqStubTable.getD i []

theorem Linked.gate {code : Word → List Stub.Instr} {isrStubTable irqStubTable : Nat → Word}
    (linked : Linked code isrStubTable irqStubTable) {vector : Nat} (known : vector < 48) :
    code (if vector < 32 then isrStubTable vector else irqStubTable (vector - 32)) =
      Stub.gate vector := by
  have length : Stub.isrStubTable.length = 32 := rfl
  unfold Stub.gate
  split
  · next exception =>
    rw [linked.isr vector exception, List.getD_append _ _ _ _ (length ▸ exception)]
  · next hardware =>
    rw [linked.irq _ (by omega), List.getD_append_right _ _ _ _ (by omega), length]

/-- From a vector to its C function: the CPU finds the stub in the tables, and the stub calls
the handler of exceptions or of hardware interrupts with the frame of the interrupted machine, in
which the vector and the error code are the ones that the CPU took. The vectors from 48 on have
no gate. -/
theorem vector_calls_its_handler {code : Word → List Stub.Instr}
    {isrStubTable irqStubTable : Nat → Word} (linked : Linked code isrStubTable irqStubTable)
    (env : Surroundings) (interrupted : Machine) (vector : Byte) (errorCode : Word) :
    (48 ≤ vector.toNat →
      enter gdtInit (irqInit irqStubTable (isrInit isrStubTable emptyIdt)) idtLimit vector = none) ∧
    (vector.toNat < 48 → ∃ entry machine rest,
      enter gdtInit (irqInit irqStubTable (isrInit isrStubTable emptyIdt)) idtLimit vector =
        some entry ∧
      entry.masked = true ∧
      Stub.Reaches env
        ⟨(interrupted.taken (entry.delivery interrupted errorCode)).pushAll
            (deliveredWords interrupted vector.toNat (entry.delivery interrupted errorCode)),
          code entry.rip⟩
        ⟨machine, .call (if vector.toNat < 32 then .isrHandler else .irqDispatch) :: rest⟩ ∧
      machine.regs .rdi = (interrupted.regs .rsp &&& -16) - 176 ∧
      InterruptFrame.read machine.memory (machine.regs .rdi) =
        snapshot interrupted vector.toNat errorCode) := by
  have entered := enter_vector isrStubTable irqStubTable vector
  constructor
  · intro past
    rw [entered, if_neg (Nat.not_lt.mpr past)]
  · intro known
    rw [if_pos known] at entered
    obtain ⟨machine, called, ran⟩ := Stub.reaches_called env interrupted known
      ((stubEntry isrStubTable irqStubTable vector.toNat).delivery interrupted errorCode)
    refine ⟨_, machine, Stub.epilogue vector.toNat, entered, rfl, ?_, called.argument, ?_⟩
    · rw [stubEntry, linked.gate known]
      exact ran
    · exact read_snapshot interrupted vector.toNat errorCode called.standing

/-- Stubs of sixteen bytes each, the ones of the exceptions first. -/
def stubAddress (vector : Nat) : Word := 0xffffffff80100000 + BitVec.ofNat 64 (16 * vector)

def linkedCode (address : Word) : List Stub.Instr :=
  Stub.gate ((address - 0xffffffff80100000).toNat / 16)

theorem linkedCode_linked : Linked linkedCode stubAddress (fun i => stubAddress (32 + i)) where
  isr := by decide
  irq := by decide

/-- The surroundings of functions that only return. -/
def returning : Surroundings where
  callee := fun _ machine => machine.set .rsp (machine.regs .rsp + 8)
  returnAddress := fun _ => 0xffffffff80001000
  status := fun _ _ => 0

theorem vector_calls_its_handler_keyboard : ∃ entry machine rest,
    enter gdtInit (irqInit (fun i => stubAddress (32 + i)) (isrInit stubAddress emptyIdt)) idtLimit
      33 = some entry ∧
    Stub.Reaches returning
      ⟨(idle.taken (entry.delivery idle 0)).pushAll
          (deliveredWords idle 33 (entry.delivery idle 0)), linkedCode entry.rip⟩
      ⟨machine, .call .irqDispatch :: rest⟩ := by
  obtain ⟨entry, machine, rest, entered, -, ran, -⟩ :=
    (vector_calls_its_handler linkedCode_linked returning idle 33 0).2 (by decide)
  exact ⟨entry, machine, rest, entered, ran⟩

end ScrapOS.Arch
