import ScrapOS.Arch.Stubs
import ScrapOS.Reports.Basic
import ScrapOS.Serial.Numbers
import ScrapOS.Serial.Text

/-! `isr.c`: the crash screen. The dump of an exception reads back as the frame that it was made
from, and for a page fault as the faulting address and the bits of the cause too. -/

set_option autoImplicit false

namespace ScrapOS.Arch

open Reports

/-! ## The source -/

/-- `exception_names` -/
def exceptionNames : List (List Byte) :=
  [text "#DE Divide Error", text "#DB Debug", text "NMI Non-Maskable Interrupt",
    text "#BP Breakpoint", text "#OF Overflow", text "#BR BOUND Range Exceeded",
    text "#UD Invalid Opcode", text "#NM Device Not Available", text "#DF Double Fault",
    text "Coprocessor Segment Overrun", text "#TS Invalid TSS", text "#NP Segment Not Present",
    text "#SS Stack-Segment Fault", text "#GP General Protection Fault", text "#PF Page Fault",
    text "(reserved)", text "#MF x87 FPU Floating-Point Error", text "#AC Alignment Check",
    text "#MC Machine Check", text "#XM SIMD Floating-Point Exception",
    text "#VE Virtualization Exception", text "#CP Control Protection Exception",
    text "(reserved)", text "(reserved)", text "(reserved)", text "(reserved)",
    text "(reserved)", text "(reserved)", text "(reserved)",
    text "#VC VMM Communication Exception", text "#SX Security Exception",
    text "(reserved)"]

/-- The local buffers of the calls of `put_hex64`: their bytes are arbitrary at first. -/
abbrev Buffers := Nat → Vector Byte 16

/-- `dump_pair`, with the number of its first call of `put_hex64`. -/
def dumpPair (bufs : Buffers) (first : Nat) (na : List Byte) (a : Word) (nb : List Byte) (b : Word)
    (out : Output) : Option Output := do
  let out := serialPutc (serialWrite (serialWrite out (text "  ")) na) (ascii ' ')
  let out ← Isr.putHex64 out a (bufs first)
  let out := serialPutc (serialWrite (serialWrite out (text "   ")) nb) (ascii ' ')
  let out ← Isr.putHex64 out b (bufs (first + 1))
  return serialWrite out (text "\n")

/-- The words for the bits of the error code of a page fault. -/
def printCause (ec : Word) (out : Output) : Output :=
  let out := serialWrite out (text "  cause: ")
  let out := serialWrite out
    (if ec &&& 1 ≠ 0 then text "protection-violation" else text "page-not-present")
  let out := serialWrite out (text ", ")
  let out := serialWrite out (if ec &&& 2 ≠ 0 then text "write" else text "read")
  let out := serialWrite out (text ", ")
  let out := serialWrite out (if ec &&& 4 ≠ 0 then text "user" else text "supervisor")
  let out := if ec &&& 8 ≠ 0 then serialWrite out (text ", reserved-bit-set") else out
  let out := if ec &&& 16 ≠ 0 then serialWrite out (text ", instruction-fetch") else out
  serialWrite out (text "\n")

/-- `name`; `none` when the index leaves the array. -/
def exceptionNameAt (vector : Word) : Option (List Byte) :=
  if vector < 32 then exceptionNames[vector.toNat]? else some (text "(unknown)")

/-- The lines about a page fault. -/
def printFault (bufs : Buffers) (cr2 ec : Word) (out : Output) : Option Output := do
  let out := serialWrite out (text "  -- page fault --\n")
  let out := serialWrite out (text "  cr2 (faulting addr) ")
  let out ← Isr.putHex64 out cr2 (bufs 22)
  let out := serialWrite out (text "\n")
  return printCause ec out

/-- `isr_handler` up to the loop in which it halts; `none` when an access leaves an array. `cr2` is
what `paging_read_cr2` reads. -/
def isrHandler (bufs : Buffers) (f : InterruptFrame) (cr2 : Word) (out : Output) : Option Output := do
  let name ← exceptionNameAt f.vector
  let out := serialWrite out (text "\n")
  let out := serialWrite out (text "================= CPU EXCEPTION =================\n")
  let out := serialWrite out (text "  vector ")
  let out ← Isr.putHex64 out f.vector (bufs 0)
  let out := serialWrite out (text "  ")
  let out := serialWrite out name
  let out := serialWrite out (text "\n")
  let out := serialWrite out (text "  error  ")
  let out ← Isr.putHex64 out f.errorCode (bufs 1)
  let out := serialWrite out (text "\n")
  let out := serialWrite out (text "  -- registers --\n")
  let out ← dumpPair bufs 2 (text "rax") f.rax (text "rbx") f.rbx out
  let out ← dumpPair bufs 4 (text "rcx") f.rcx (text "rdx") f.rdx out
  let out ← dumpPair bufs 6 (text "rsi") f.rsi (text "rdi") f.rdi out
  let out ← dumpPair bufs 8 (text "rbp") f.rbp (text "rsp") f.rsp out
  let out ← dumpPair bufs 10 (text "r8 ") f.r8 (text "r9 ") f.r9 out
  let out ← dumpPair bufs 12 (text "r10") f.r10 (text "r11") f.r11 out
  let out ← dumpPair bufs 14 (text "r12") f.r12 (text "r13") f.r13 out
  let out ← dumpPair bufs 16 (text "r14") f.r14 (text "r15") f.r15 out
  let out := serialWrite out (text "  -- fault frame --\n")
  let out ← dumpPair bufs 18 (text "rip") f.rip (text "cs ") f.cs out
  let out ← dumpPair bufs 20 (text "rfl") f.rflags (text "ss ") f.ss out
  let out ← (if f.vector = 14 then printFault bufs cr2 f.errorCode out else some out)
  let out := serialWrite out (text "  system halted.\n")
  return serialWrite out (text "================================================\n")

/-! ## The dump as literals and numerals -/

/-- The sixteen digits of a word. -/
def hexItem (v : Word) : Item Byte :=
  .number hexadecimal (hexadecimal.spell (hexadecimal.lowest 16 v.toNat)) v.toNat
    (Numerals.read_lowest (by decide) v.isLt)

def pairItems (na : List Byte) (a : Word) (nb : List Byte) (b : Word) : List (Item Byte) :=
  [.literal (text "  "), .literal na, .literal (text " 0x"), hexItem a, .literal (text "   "),
    .literal nb, .literal (text " 0x"), hexItem b, .literal (text "\n")]

def exceptionName (vector : Word) : List Byte := exceptionNames.getD vector.toNat (text "(unknown)")

def causeText (ec : Word) : List Byte :=
  text "  cause: " ++
    (if ec.getLsbD 0 then text "protection-violation" else text "page-not-present") ++ text ", " ++
    (if ec.getLsbD 1 then text "write" else text "read") ++ text ", " ++
    (if ec.getLsbD 2 then text "user" else text "supervisor") ++
    (if ec.getLsbD 3 then text ", reserved-bit-set" else []) ++
    (if ec.getLsbD 4 then text ", instruction-fetch" else []) ++ text "\n"

def vectorItems (vector : Word) : List (Item Byte) :=
  [.literal (text "\n"), .literal (text "================= CPU EXCEPTION =================\n"),
    .literal (text "  vector "), .literal (text "0x"), hexItem vector, .literal (text "  ")]

def frameItems (f : InterruptFrame) : List (Item Byte) :=
  [.literal (exceptionName f.vector), .literal (text "\n"), .literal (text "  error  "),
    .literal (text "0x"), hexItem f.errorCode, .literal (text "\n"),
    .literal (text "  -- registers --\n")] ++
  pairItems (text "rax") f.rax (text "rbx") f.rbx ++ pairItems (text "rcx") f.rcx (text "rdx") f.rdx ++
  pairItems (text "rsi") f.rsi (text "rdi") f.rdi ++ pairItems (text "rbp") f.rbp (text "rsp") f.rsp ++
  pairItems (text "r8 ") f.r8 (text "r9 ") f.r9 ++ pairItems (text "r10") f.r10 (text "r11") f.r11 ++
  pairItems (text "r12") f.r12 (text "r13") f.r13 ++ pairItems (text "r14") f.r14 (text "r15") f.r15 ++
  .literal (text "  -- fault frame --\n") :: pairItems (text "rip") f.rip (text "cs ") f.cs ++
  pairItems (text "rfl") f.rflags (text "ss ") f.ss

def faultItems (cr2 : Word) : List (Item Byte) :=
  [.literal (text "  -- page fault --\n"), .literal (text "  cr2 (faulting addr) "),
    .literal (text "0x"), hexItem cr2, .literal (text "\n")]

def haltText : List Byte :=
  text "  system halted.\n" ++ text "================================================\n"

def dump (f : InterruptFrame) (cr2 : Word) : List Byte :=
  render (vectorItems f.vector) ++ (render (frameItems f) ++
    ((if f.vector = 14 then render (faultItems cr2) ++ causeText f.errorCode else []) ++ haltText))

section Printed

variable (out : Output)

theorem hexItem_plain (v : Word) : wire (hexItem v).word = (hexItem v).word := by
  refine wire_plain fun member => ?_
  obtain ⟨d, digit, same⟩ := List.mem_map.mp (List.mem_reverse.mp member)
  have apart : ∀ d < 16, hexadecimal.digit d ≠ ascii '\n' := by decide
  exact apart d (Numerals.lt_of_mem_lowest digit) same

theorem putHex64_item (v : Word) (buf : Vector Byte 16) :
    Isr.putHex64 out v buf = some (out ++ wire (text "0x") ++ wire (hexItem v).word) := by
  have sign : wire (text "0x") = [ascii '0', ascii 'x'] := by decide
  rw [Isr.putHex64_eq, hexItem_plain, sign]
  rfl

theorem dumpPair_eq (bufs : Buffers) (first : Nat) (na nb : List Byte) (a b : Word) :
    dumpPair bufs first na a nb b out = some (out ++ wire (render (pairItems na a nb b))) := by
  have space : [ascii ' '] ++ wire (text "0x") = wire (text " 0x") := by decide
  simp only [dumpPair, serialWrite_eq, serialPutc, putHex64_item, Option.bind_eq_bind,
    Option.bind_some, pairItems, render_cons, render_nil, Item.word, wire_append, ← space,
    List.append_assoc, List.append_nil]
  rfl

theorem bit_set_iff (ec : Word) (i : Nat) (small : i < 64) :
    ec &&& BitVec.twoPow 64 i ≠ 0 ↔ ec.getLsbD i = true := by
  rw [BitVec.and_twoPow]
  split
  · next set =>
    have positive : BitVec.twoPow 64 i ≠ 0 := fun zero => by
      have pow := congrArg BitVec.toNat zero
      rw [BitVec.toNat_twoPow_of_lt small] at pow
      exact absurd pow (Nat.two_pow_pos i).ne'
    exact iff_of_true positive set
  · next clear => exact iff_of_false (fun set => set rfl) clear

theorem printCause_eq (ec : Word) : printCause ec out = out ++ wire (causeText ec) := by
  have bit0 : ec &&& 1 ≠ 0 ↔ _ := bit_set_iff ec 0 (by decide)
  have bit1 : ec &&& 2 ≠ 0 ↔ _ := bit_set_iff ec 1 (by decide)
  have bit2 : ec &&& 4 ≠ 0 ↔ _ := bit_set_iff ec 2 (by decide)
  have bit3 : ec &&& 8 ≠ 0 ↔ _ := bit_set_iff ec 3 (by decide)
  have bit4 : ec &&& 16 ≠ 0 ↔ _ := bit_set_iff ec 4 (by decide)
  simp only [printCause, causeText, bit0, bit1, bit2, bit3, bit4, serialWrite_eq, wire_append]
  cases ec.getLsbD 3 <;> cases ec.getLsbD 4 <;>
    simp only [if_true, Bool.false_eq_true, if_false, wire, List.append_assoc, List.append_nil]

theorem exceptionName_found (vector : Word) :
    exceptionNameAt vector = some (exceptionName vector) := by
  have length : exceptionNames.length = 32 := rfl
  unfold exceptionNameAt exceptionName
  split
  · next known =>
    have inside : vector.toNat < exceptionNames.length := known
    rw [List.getElem?_eq_getElem inside, List.getD_eq_getElem _ _ inside]
  · next past =>
    have outside : exceptionNames.length ≤ vector.toNat := Nat.not_lt.mp past
    rw [List.getD_eq_default _ _ outside]

theorem printFault_eq (bufs : Buffers) (cr2 ec : Word) : printFault bufs cr2 ec out =
    some (out ++ wire (render (faultItems cr2) ++ causeText ec)) := by
  simp only [printFault, Option.bind_eq_bind, Option.bind_some, serialWrite_eq, putHex64_item,
    printCause_eq, faultItems, render_cons, render_nil, Item.word, wire_append, List.append_assoc,
    List.append_nil]
  rfl

theorem isrHandler_eq (bufs : Buffers) (f : InterruptFrame) (cr2 : Word) :
    isrHandler bufs f cr2 out = some (out ++ wire (dump f cr2)) := by
  have fault : ∀ out : Output,
      (if f.vector = 14 then printFault bufs cr2 f.errorCode out else some out) =
        some (out ++ wire
          (if f.vector = 14 then render (faultItems cr2) ++ causeText f.errorCode else [])) := by
    intro out
    split
    · exact printFault_eq out bufs cr2 f.errorCode
    · simp [wire]
  simp only [isrHandler, exceptionName_found, Option.bind_eq_bind, Option.bind_some, serialWrite_eq,
    putHex64_item, dumpPair_eq, fault, dump, vectorItems, frameItems, haltText, render_append,
    render_cons, render_nil, Item.word, wire_append, List.append_assoc, List.append_nil]
  rfl

end Printed

/-! ## Reading a dump -/

def blankFrame (vector : Word) : InterruptFrame where
  rax := 0
  rbx := 0
  rcx := 0
  rdx := 0
  rsi := 0
  rdi := 0
  rbp := 0
  r8 := 0
  r9 := 0
  r10 := 0
  r11 := 0
  r12 := 0
  r13 := 0
  r14 := 0
  r15 := 0
  vector := vector
  errorCode := 0
  rip := 0
  cs := 0
  rflags := 0
  rsp := 0
  ss := 0

/-- The numbers after the vector, in the order of the dump. -/
def frameOf (vector : Word) : List Nat → Option InterruptFrame
  | [errorCode, rax, rbx, rcx, rdx, rsi, rdi, rbp, rsp, r8, r9, r10, r11, r12, r13, r14, r15, rip,
      cs, rflags, ss] =>
    some {
      rax := BitVec.ofNat 64 rax
      rbx := BitVec.ofNat 64 rbx
      rcx := BitVec.ofNat 64 rcx
      rdx := BitVec.ofNat 64 rdx
      rsi := BitVec.ofNat 64 rsi
      rdi := BitVec.ofNat 64 rdi
      rbp := BitVec.ofNat 64 rbp
      r8 := BitVec.ofNat 64 r8
      r9 := BitVec.ofNat 64 r9
      r10 := BitVec.ofNat 64 r10
      r11 := BitVec.ofNat 64 r11
      r12 := BitVec.ofNat 64 r12
      r13 := BitVec.ofNat 64 r13
      r14 := BitVec.ofNat 64 r14
      r15 := BitVec.ofNat 64 r15
      vector := vector
      errorCode := BitVec.ofNat 64 errorCode
      rip := BitVec.ofNat 64 rip
      cs := BitVec.ofNat 64 cs
      rflags := BitVec.ofNat 64 rflags
      rsp := BitVec.ofNat 64 rsp
      ss := BitVec.ofNat 64 ss }
  | _ => none

/-- What follows the frame: the faulting address of a page fault, and the end of the dump. -/
def readEnd (f : InterruptFrame) (input : List Byte) : Option (InterruptFrame × Option Word) :=
  if f.vector = 14 then
    (read ((faultItems 0).map Item.piece) input).bind fun found =>
      if found.2 = causeText f.errorCode ++ haltText then
        found.1.head?.map fun cr2 => (f, some (BitVec.ofNat 64 cr2))
      else none
  else if input = haltText then some (f, none)
  else none

/-- A reader of dumps: the frame, and the faulting address of a page fault. -/
def readDump (input : List Byte) : Option (InterruptFrame × Option Word) :=
  (read ((vectorItems 0).map Item.piece) input).bind fun found =>
    found.1.head?.bind fun vector =>
      let vector := BitVec.ofNat 64 vector
      (read ((frameItems (blankFrame vector)).map Item.piece) found.2).bind fun found =>
        (frameOf vector found.1).bind fun f => readEnd f found.2

section Separated

/-- After sixteen digits comes a character that is not one. -/
theorem separated_hex (v : Word) {c : Byte} {word : List Byte} {items : List (Item Byte)}
    (other : hexadecimal.value c = none) (later : Separated items) :
    Separated (hexItem v :: .literal (c :: word) :: items) :=
  .number other later

theorem pairItems_separated (na nb : List Byte) (a b : Word) : Separated (pairItems na a nb b) := by
  have spaces : text "   " = ascii ' ' :: text "  " := by decide
  have newline : text "\n" = ascii '\n' :: [] := by decide
  unfold pairItems
  rw [spaces, newline]
  exact separated_hex a (by decide) (separated_hex b (by decide) trivial)

theorem vectorItems_separated (vector : Word) : Separated (vectorItems vector) := by
  have spaces : text "  " = ascii ' ' :: text " " := by decide
  unfold vectorItems
  rw [spaces]
  exact separated_hex vector (by decide) trivial

theorem faultItems_separated (cr2 : Word) : Separated (faultItems cr2) := by
  have newline : text "\n" = ascii '\n' :: [] := by decide
  unfold faultItems
  rw [newline]
  exact separated_hex cr2 (by decide) trivial

theorem frameItems_separated (f : InterruptFrame) : Separated (frameItems f) := by
  have newline : text "\n" = ascii '\n' :: [] := by decide
  have first : Separated [.literal (exceptionName f.vector), .literal (text "\n"),
      .literal (text "  error  "), .literal (text "0x"), hexItem f.errorCode, .literal (text "\n"),
      .literal (text "  -- registers --\n")] := by
    rw [newline]
    exact separated_hex f.errorCode (by decide) trivial
  have pair := pairItems_separated
  have fault : ∀ na a nb b, Separated (.literal (text "  -- fault frame --\n") :: pairItems na a nb b) :=
    fun na a nb b => pair na nb a b
  unfold frameItems
  exact (((((((((first.append (pair _ _ _ _)).append (pair _ _ _ _)).append (pair _ _ _ _)).append
    (pair _ _ _ _)).append (pair _ _ _ _)).append (pair _ _ _ _)).append (pair _ _ _ _)).append
    (pair _ _ _ _)).append (fault _ _ _ _)).append (pair _ _ _ _)

end Separated

section Reading

variable (f : InterruptFrame) (cr2 : Word)

theorem frameOf_numbers : frameOf f.vector (numbers (frameItems f)) = some f := by
  have listed : numbers (frameItems f) =
      [f.errorCode, f.rax, f.rbx, f.rcx, f.rdx, f.rsi, f.rdi, f.rbp, f.rsp, f.r8, f.r9, f.r10, f.r11,
        f.r12, f.r13, f.r14, f.r15, f.rip, f.cs, f.rflags, f.ss].map BitVec.toNat := rfl
  rw [listed]
  simp [frameOf]

theorem readEnd_end : readEnd f
    ((if f.vector = 14 then render (faultItems cr2) ++ causeText f.errorCode else []) ++ haltText) =
      some (f, if f.vector = 14 then some cr2 else none) := by
  have pieces : (faultItems 0).map Item.piece = (faultItems cr2).map Item.piece := rfl
  have value : numbers (faultItems cr2) = [cr2.toNat] := rfl
  unfold readEnd
  split
  · rw [pieces, List.append_assoc, read_render (faultItems_separated cr2), Option.bind_some]
    simp [value]
  · simp

theorem readDump_dump :
    readDump (dump f cr2) = some (f, if f.vector = 14 then some cr2 else none) := by
  have pieces : (vectorItems 0).map Item.piece = (vectorItems f.vector).map Item.piece := rfl
  have framePieces : (frameItems (blankFrame f.vector)).map Item.piece =
      (frameItems f).map Item.piece := rfl
  have value : numbers (vectorItems f.vector) = [f.vector.toNat] := rfl
  unfold readDump dump
  rw [pieces, read_render (vectorItems_separated f.vector), Option.bind_some, value, List.head?_cons,
    Option.bind_some]
  simp only [BitVec.ofNat_toNat, BitVec.setWidth_eq]
  rw [framePieces, read_render (frameItems_separated f), Option.bind_some, frameOf_numbers,
    Option.bind_some]
  exact readEnd_end f cr2

end Reading

/-- The crash screen loses nothing: for every frame, also one with a vector that has no name, the
handler prints a dump that reads back as the frame, and for a page fault as `cr2` too. -/
theorem crash_dump_reads_back (bufs : Buffers) (f : InterruptFrame) (cr2 : Word) (out : Output) :
    ∃ line, isrHandler bufs f cr2 out = some (out ++ line) ∧
      readDump (unwire line) = some (f, if f.vector = 14 then some cr2 else none) := by
  refine ⟨wire (dump f cr2), isrHandler_eq out bufs f cr2, ?_⟩
  rw [unwire_wire]
  exact readDump_dump f cr2

end ScrapOS.Arch
