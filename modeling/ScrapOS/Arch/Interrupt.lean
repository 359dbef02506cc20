import ScrapOS.Arch.Stubs

/-! Interrupts are transparent: at the C call the frame holds the interrupted state, and
after a dispatch that keeps the calling convention `iretq` resumes that state. -/

set_option autoImplicit false

namespace ScrapOS.Arch

/-! ## The pushed words -/

/-- The registers in the order of the frame. -/
def savedRegs : List Reg :=
  [.rax, .rbx, .rcx, .rdx, .rsi, .rdi, .rbp, .r8, .r9, .r10, .r11, .r12, .r13, .r14, .r15]

theorem mem_savedRegs (reg : Reg) : reg ∈ savedRegs ↔ reg ≠ .rsp := by
  cases reg <;> decide

/-- The slots above the registers: what the stub pushed and what the CPU pushed. -/
def returnWords (interrupted : Machine) (vector : Nat) (errorCode : Word) : List Word :=
  [BitVec.ofNat 64 vector, if vector ∈ errorCodeVectors then errorCode else 0, interrupted.rip,
    interrupted.cs.setWidth 64, interrupted.rflags, interrupted.regs .rsp,
    interrupted.ss.setWidth 64]

/-- The words of the frame, from the lowest address on. -/
def snapshotWords (interrupted : Machine) (vector : Nat) (errorCode : Word) : List Word :=
  savedRegs.map interrupted.regs ++ returnWords interrupted vector errorCode

/-- The frame of an interrupted machine: every field holds what it names. -/
def snapshot (interrupted : Machine) (vector : Nat) (errorCode : Word) : InterruptFrame where
  rax := interrupted.regs .rax
  rbx := interrupted.regs .rbx
  rcx := interrupted.regs .rcx
  rdx := interrupted.regs .rdx
  rsi := interrupted.regs .rsi
  rdi := interrupted.regs .rdi
  rbp := interrupted.regs .rbp
  r8 := interrupted.regs .r8
  r9 := interrupted.regs .r9
  r10 := interrupted.regs .r10
  r11 := interrupted.regs .r11
  r12 := interrupted.regs .r12
  r13 := interrupted.regs .r13
  r14 := interrupted.regs .r14
  r15 := interrupted.regs .r15
  vector := BitVec.ofNat 64 vector
  errorCode := if vector ∈ errorCodeVectors then errorCode else 0
  rip := interrupted.rip
  cs := interrupted.cs.setWidth 64
  rflags := interrupted.rflags
  rsp := interrupted.regs .rsp
  ss := interrupted.ss.setWidth 64

section Frame

variable {m : Memory} {frame : Word} (interrupted : Machine) (vector : Nat) (errorCode : Word)

theorem snapshotWords_length : (snapshotWords interrupted vector errorCode).length = 22 := rfl

theorem read_snapshot (standing : WordsAt m frame (snapshotWords interrupted vector errorCode)) :
    InterruptFrame.read m frame = snapshot interrupted vector errorCode := by
  simp only [snapshotWords, savedRegs, returnWords, List.map_cons, List.map_nil, List.cons_append,
    List.nil_append, WordsAt, BitVec.add_assoc, BitVec.reduceAdd, and_true] at standing
  simp only [InterruptFrame.read, snapshot, InterruptFrame.mk.injEq]
  exact standing

end Frame

/-! ## Straight-line code -/

namespace Machine

variable (machine : Machine)

theorem pushAll_append (words more : List Word) :
    machine.pushAll (words ++ more) = (machine.pushAll words).pushAll more :=
  List.foldl_append

theorem pushAll_cons (word : Word) (words : List Word) :
    machine.pushAll (word :: words) = (machine.push word).pushAll words := rfl

theorem pushAll_regs_of_ne {reg : Reg} (apart : reg ≠ .rsp) (words : List Word) :
    (machine.pushAll words).regs reg = machine.regs reg := by
  induction words generalizing machine with
  | nil => rfl
  | cons word words ih => rw [pushAll_cons, ih, push_regs_of_ne apart]

/-- Pushes move the stack pointer and write as `pushWords` does. -/
theorem pushAll_stack (words : List Word) :
    ((machine.pushAll words).regs .rsp, (machine.pushAll words).memory) =
      pushWords (machine.regs .rsp) machine.memory words := by
  induction words generalizing machine with
  | nil => rfl
  | cons word words ih =>
      rw [pushAll_cons, ih, push_rsp]
      rfl

theorem pushAll_rsp (words : List Word) :
    (machine.pushAll words).regs .rsp = machine.regs .rsp - BitVec.ofNat 64 (8 * words.length) := by
  rw [← pushWords_sp _ machine.memory, ← pushAll_stack]

end Machine

namespace Stub

section Straight

variable (env : Surroundings) (machine : Machine)

/-- An instruction that the next one in the text follows. -/
def Instr.straight : Instr → Bool
  | .jmp _ => false
  | .iretq => false
  | _ => true

theorem ahead_straight {instr : Instr} (straight : instr.straight = true) (rest : List Instr) :
    ahead rest instr = rest := by
  cases instr with
  | jmp => cases straight
  | iretq => cases straight
  | _ => rfl

theorem reaches_straight {instrs : List Instr} (straight : ∀ instr ∈ instrs, instr.straight = true)
    (rest : List Instr) :
    Reaches env ⟨machine, instrs ++ rest⟩ ⟨instrs.foldl (exec env) machine, rest⟩ := by
  induction instrs generalizing machine with
  | nil => exact .refl
  | cons instr instrs ih =>
      rw [List.forall_mem_cons] at straight
      have first : step env ⟨machine, instr :: instrs ++ rest⟩ =
          some ⟨exec env machine instr, instrs ++ rest⟩ := by
        rw [List.cons_append, step]
        dsimp only
        rw [ahead_straight straight.1]
      exact .head first (ih _ straight.2)

theorem reaches_jmp (target : Label) (rest : List Instr) :
    Reaches env ⟨machine, .jmp target :: rest⟩ ⟨machine, code target⟩ := .single rfl

/-- Registers pushed one after the other hold at each push what they held at the first. -/
theorem exec_pushes {regs : List Reg} (kept : .rsp ∉ regs) :
    (regs.map Instr.push).foldl (exec env) machine = machine.pushAll (regs.map machine.regs) := by
  induction regs generalizing machine with
  | nil => rfl
  | cons reg regs ih =>
      rw [List.mem_cons, not_or] at kept
      have others : regs.map (machine.push (machine.regs reg)).regs = regs.map machine.regs := by
        refine List.map_congr_left fun other member => Machine.push_regs_of_ne ?_
        exact fun same => kept.2 (same ▸ member)
      rw [List.map_cons, List.foldl_cons, exec, ih _ kept.2, others]
      rfl

/-- Registers popped one after the other take the words that stand on the stack. -/
theorem exec_pops {regs : List Reg} (kept : .rsp ∉ regs) {value : Reg → Word}
    (standing : WordsAt machine.memory (machine.regs .rsp) (regs.map value)) :
    let popped := (regs.map Instr.pop).foldl (exec env) machine
    popped.memory = machine.memory ∧
      popped.regs .rsp = machine.regs .rsp + BitVec.ofNat 64 (8 * regs.length) ∧
      (∀ reg ∈ regs, popped.regs reg = value reg) ∧
      ∀ reg, reg ≠ .rsp → reg ∉ regs → popped.regs reg = machine.regs reg := by
  induction regs generalizing machine with
  | nil => exact ⟨rfl, (BitVec.add_zero _).symm, by simp, fun _ _ _ => rfl⟩
  | cons reg regs ih =>
      rw [List.mem_cons, not_or] at kept
      obtain ⟨word, standing⟩ := standing
      have top : (machine.pop reg).regs .rsp = machine.regs .rsp + 8 := Machine.pop_rsp kept.1
      obtain ⟨memory, sp, restored, frame⟩ := ih (machine.pop reg) kept.2 (by rw [top]; exact standing)
      rw [List.map_cons, List.foldl_cons, exec]
      refine ⟨memory, ?_, fun other member => ?_, fun other notTop outside => ?_⟩
      · rw [sp, top, List.length_cons]
        bv_omega
      · by_cases later : other ∈ regs
        · exact restored other later
        · cases List.mem_cons.mp member with
          | inl same =>
              subst same
              rw [frame other (Ne.symm kept.1) later, Machine.pop_regs_self, word]
          | inr inside => exact absurd inside later
      · rw [List.mem_cons, not_or] at outside
        rw [frame other notTop outside.2, Machine.pop_regs_of_ne notTop outside.1]

theorem exec_pushQwords (words : List Word) :
    (words.map Instr.pushQword).foldl (exec env) machine = machine.pushAll words :=
  List.foldl_map

end Straight

/-! ## Entry -/

/-- The common tail of a vector, the function it calls, and what it has ahead of it then. -/
def tail (vector : Nat) : Label := if vector < 32 then .isrCommon else .irqCommon

def handler (vector : Nat) : Callee := if vector < 32 then .isrHandler else .irqDispatch

def epilogue (vector : Nat) : List Instr :=
  if vector < 32 then interruptReturn else [.jmp .interruptReturn]

/-- The words that the stub pushes, so that every frame has an error code. -/
def stubWords (vector : Nat) : List Word :=
  (if vector ∈ errorCodeVectors then [] else [0]) ++ [BitVec.ofNat 64 vector]

def alignment : List Instr := [.cld, .mov .rbp .rsp, .and .rsp (-16), .mov .rdi .rbp]

theorem gate_eq : ∀ vector < 48,
    gate vector = (stubWords vector).map .pushQword ++ [.jmp (tail vector)] := by decide

theorem code_tail (vector : Nat) :
    code (tail vector) = savedRegs.reverse.map .push ++
      (alignment ++ .call (handler vector) :: epilogue vector) := by
  rw [tail, handler, epilogue]
  split
  · rfl
  · rfl

theorem pushed_eq (interrupted : Machine) (vector : Nat) (delivery : Delivery) :
    deliveredWords interrupted vector delivery ++ stubWords vector ++
      savedRegs.reverse.map interrupted.regs =
        (snapshotWords interrupted vector delivery.errorCode).reverse := by
  rw [deliveredWords, stubWords, snapshotWords, returnWords]
  split
  · rfl
  · rfl

theorem and_not_fifteen (address : Word) :
    (address &&& -16).toNat = address.toNat / 16 * 16 := by
  have mask : (-16 : Word) = ~~~(BitVec.ofNat 64 (2 ^ 4 - 1)) := by decide
  rw [mask]
  exact and_not_low address 4 (by decide)

/-- The state in which a common tail calls its function. -/
structure Called (interrupted : Machine) (vector : Nat) (delivery : Delivery) (machine : Machine) :
    Prop where
  stack : machine.regs .rsp = machine.regs .rdi &&& -16
  saved : machine.regs .rbp = machine.regs .rdi
  direction : machine.rflags &&& directionFlag = 0
  argument : machine.regs .rdi = delivery.top - 176
  standing : WordsAt machine.memory (machine.regs .rdi)
    (snapshotWords interrupted vector delivery.errorCode)
  frame : Set.EqOn machine.memory interrupted.memory (span (delivery.top - 176) 176)ᶜ

/-- Arithmetic leaves the direction flag clear. -/
theorem withStatus_direction (env : Surroundings) (instr : Instr) (before : Machine)
    {after : Machine} (clear : after.rflags &&& directionFlag = 0) :
    (withStatus env instr before after).rflags &&& directionFlag = 0 := by
  have apart : statusFlags &&& directionFlag = 0 := by decide
  rw [withStatus, BitVec.and_or_distrib_right, BitVec.and_assoc, BitVec.and_comm (~~~statusFlags),
    ← BitVec.and_assoc, clear, BitVec.and_assoc, apart]
  simp

theorem exec_alignment (env : Surroundings) (machine : Machine) :
    let aligned := alignment.foldl (exec env) machine
    aligned.regs .rsp = machine.regs .rsp &&& -16 ∧ aligned.regs .rbp = machine.regs .rsp ∧
      aligned.regs .rdi = machine.regs .rsp ∧ aligned.rflags &&& directionFlag = 0 ∧
      aligned.memory = machine.memory := by
  refine ⟨rfl, rfl, rfl, ?_, rfl⟩
  apply withStatus_direction
  have masked : ~~~directionFlag &&& directionFlag = 0 := by decide
  have cleared : machine.rflags &&& ~~~directionFlag &&& directionFlag = 0 := by
    rw [BitVec.and_assoc, masked]
    exact BitVec.and_zero
  exact cleared

theorem reaches_tail (env : Surroundings) (machine : Machine) {vector : Nat}
    (known : vector < 48) :
    Reaches env ⟨machine, gate vector⟩
      ⟨machine.pushAll (stubWords vector), code (tail vector)⟩ := by
  have straight : ∀ instr ∈ (stubWords vector).map Instr.pushQword, instr.straight = true := by
    simp [Instr.straight]
  have pushed := reaches_straight env machine straight [.jmp (tail vector)]
  rw [exec_pushQwords, ← gate_eq vector known] at pushed
  exact pushed.trans (reaches_jmp env _ _ _)

theorem reaches_call (env : Surroundings) (machine : Machine) (vector : Nat) :
    Reaches env ⟨machine, code (tail vector)⟩
      ⟨alignment.foldl (exec env) (machine.pushAll (savedRegs.reverse.map machine.regs)),
        .call (handler vector) :: epilogue vector⟩ := by
  have straight : ∀ instr ∈ savedRegs.reverse.map Instr.push, instr.straight = true := by decide
  have pushed := reaches_straight env machine straight
    (alignment ++ .call (handler vector) :: epilogue vector)
  rw [exec_pushes env machine (by decide), ← code_tail] at pushed
  have straight : ∀ instr ∈ alignment, instr.straight = true := by decide
  exact pushed.trans (reaches_straight env _ straight _)

/-- Below the top of the stack the frame is written, and nothing else. -/
theorem Called.of_pushed (env : Surroundings) (interrupted : Machine) (vector : Nat)
    (delivery : Delivery) :
    Called interrupted vector delivery (alignment.foldl (exec env)
      ((interrupted.taken delivery).pushAll
        (snapshotWords interrupted vector delivery.errorCode).reverse)) := by
  have length : (snapshotWords interrupted vector delivery.errorCode).reverse.length = 22 := rfl
  have empty : WordsAt interrupted.memory delivery.top [] := trivial
  have standing := empty.pushWords (snapshotWords interrupted vector delivery.errorCode).reverse
    (by rw [length]; decide)
  have frame := pushWords_frame delivery.top interrupted.memory
    (snapshotWords interrupted vector delivery.errorCode).reverse (by rw [length]; decide)
  have stack := Machine.pushAll_stack (interrupted.taken delivery)
    (snapshotWords interrupted vector delivery.errorCode).reverse
  have top := Machine.pushAll_rsp (interrupted.taken delivery)
    (snapshotWords interrupted vector delivery.errorCode).reverse
  have same : (interrupted.taken delivery).memory = interrupted.memory := rfl
  rw [Machine.taken_rsp, same] at stack
  rw [Machine.taken_rsp, length] at top
  rw [← stack, List.reverse_reverse, List.append_nil] at standing
  rw [← stack, length] at frame
  generalize (interrupted.taken delivery).pushAll
    (snapshotWords interrupted vector delivery.errorCode).reverse = machine at standing frame top ⊢
  obtain ⟨rsp, rbp, rdi, direction, memory⟩ := exec_alignment env machine
  rw [← rdi] at rsp rbp
  constructor
  case stack => exact rsp
  case saved => exact rbp
  case direction => exact direction
  case argument => exact rdi.trans top
  case standing => rw [memory, rdi]; exact standing
  case frame => rw [memory]; exact frame

theorem stubbed_regs (interrupted : Machine) (vector : Nat) (delivery : Delivery) {reg : Reg}
    (apart : reg ≠ .rsp) :
    ((interrupted.taken delivery).pushAll
      (deliveredWords interrupted vector delivery ++ stubWords vector)).regs reg =
        interrupted.regs reg := by
  rw [Machine.pushAll_regs_of_ne _ apart, Machine.taken_regs_of_ne _ _ apart]

theorem reaches_called (env : Surroundings) (interrupted : Machine) {vector : Nat}
    (known : vector < 48) (delivery : Delivery) :
    ∃ machine, Called interrupted vector delivery machine ∧
      Reaches env (deliver interrupted vector delivery)
        ⟨machine, .call (handler vector) :: epilogue vector⟩ := by
  have stubbed := reaches_tail env
    ((interrupted.taken delivery).pushAll (deliveredWords interrupted vector delivery)) known
  rw [← Machine.pushAll_append] at stubbed
  have called := reaches_call env ((interrupted.taken delivery).pushAll
    (deliveredWords interrupted vector delivery ++ stubWords vector)) vector
  have kept : savedRegs.reverse.map ((interrupted.taken delivery).pushAll
      (deliveredWords interrupted vector delivery ++ stubWords vector)).regs =
        savedRegs.reverse.map interrupted.regs := by
    refine List.map_congr_left fun reg member => ?_
    exact stubbed_regs interrupted vector delivery ((mem_savedRegs reg).mp (List.mem_reverse.mp member))
  rw [kept, ← Machine.pushAll_append, pushed_eq] at called
  exact ⟨_, .of_pushed env interrupted vector delivery, stubbed.trans called⟩

/-! ## Exit -/

/-- The interrupted code goes on as if nothing had happened. -/
structure Resumed (interrupted machine : Machine) : Prop where
  regs : machine.regs = interrupted.regs
  rip : machine.rip = interrupted.rip
  cs : machine.cs = interrupted.cs
  rflags : machine.rflags = interrupted.rflags
  ss : machine.ss = interrupted.ss

namespace Called

variable {env : Surroundings} {interrupted machine : Machine} {vector : Nat} {delivery : Delivery}

/-- The stack is aligned at the call, and the flag is clear. -/
theorem callable (called : Called interrupted vector delivery machine) (returnAddress : Word) :
    Callable (machine.push returnAddress) := by
  have rounded := and_not_fifteen (machine.regs .rdi)
  refine ⟨?_, called.direction⟩
  rw [Machine.push_rsp, BitVec.sub_add_cancel, called.stack, rounded]
  exact Nat.mul_mod_left _ _

theorem push_frame (called : Called interrupted vector delivery machine) (returnAddress : Word) :
    Set.EqOn (machine.push returnAddress).memory machine.memory (span (machine.regs .rdi) 176) := by
  have rounded := and_not_fifteen (machine.regs .rdi)
  have below := Memory.store64_eqOn_compl machine.memory (machine.regs .rsp - 8) returnAddress
  apply below.mono
  intro address inside written
  rw [mem_span] at inside written
  rw [called.stack] at written
  bv_omega

/-- After the function has returned, `rbp` points at the frame as it was. -/
theorem returned (called : Called interrupted vector delivery machine)
    {callee : Machine → Machine} {returnAddress : Word}
    (conforming : SysV callee (machine.push returnAddress)) :
    WordsAt (callee (machine.push returnAddress)).memory
      ((callee (machine.push returnAddress)).regs .rbp)
      (snapshotWords interrupted vector delivery.errorCode) := by
  have callable := called.callable returnAddress
  have kept : (callee (machine.push returnAddress)).regs .rbp = machine.regs .rdi := by
    rw [conforming.rbp callable, Machine.push_regs_of_ne (by decide), called.saved]
  have argument : (machine.push returnAddress).regs .rdi = machine.regs .rdi :=
    Machine.push_regs_of_ne (by decide)
  have untouched := conforming.frame callable
  rw [argument] at untouched
  rw [kept]
  exact called.standing.congr (by rw [snapshotWords_length]; decide)
    (untouched.trans (called.push_frame returnAddress))

end Called

theorem interruptReturn_eq :
    interruptReturn = (.mov .rsp .rbp :: savedRegs.map .pop ++ [.add .rsp 16]) ++ [.iretq] := rfl

theorem selector_popped (selector : Selector) : (selector.setWidth 64).setWidth 16 = selector := by
  rw [BitVec.setWidth_setWidth_of_le selector (by decide), BitVec.setWidth_eq]

/-- `iretq` above the frame's last two slots resumes the interrupted code. -/
theorem resumed_iretq {interrupted machine : Machine} {vector : Nat} {errorCode frame : Word}
    (above : WordsAt machine.memory frame (returnWords interrupted vector errorCode))
    (stack : machine.regs .rsp = frame + 16)
    (restored : ∀ reg ∈ savedRegs, machine.regs reg = interrupted.regs reg) :
    Resumed interrupted machine.iretq := by
  have slots : frame + 8 + 8 = machine.regs .rsp := by
    rw [stack]
    bv_omega
  obtain ⟨-, -, rip, cs, rflags, rsp, ss, -⟩ := above
  rw [slots] at rip cs rflags rsp ss
  simp only [BitVec.add_assoc, BitVec.reduceAdd] at rflags rsp ss
  constructor
  case regs =>
    funext reg
    by_cases top : reg = .rsp
    · rw [top, Machine.iretq_rsp]
      exact rsp
    · rw [Machine.iretq_regs_of_ne top, restored reg ((mem_savedRegs reg).mpr top)]
  case rip => exact rip
  case cs =>
    rw [Machine.iretq, cs]
    exact selector_popped _
  case rflags => exact rflags
  case ss =>
    rw [Machine.iretq]
    exact (congrArg (BitVec.setWidth 16) ss).trans (selector_popped _)

theorem reaches_resumed (env : Surroundings) {interrupted machine : Machine} {vector : Nat}
    {errorCode : Word} (standing : WordsAt machine.memory (machine.regs .rbp)
      (snapshotWords interrupted vector errorCode)) :
    ∃ resumed, Resumed interrupted resumed ∧
      Reaches env ⟨machine, interruptReturn⟩ ⟨resumed, []⟩ := by
  rw [snapshotWords, wordsAt_append] at standing
  obtain ⟨registers, above⟩ := standing
  have dropped : (machine.set .rsp (machine.regs .rbp)).regs .rsp = machine.regs .rbp :=
    Machine.set_regs_self
  have registers : WordsAt (machine.set .rsp (machine.regs .rbp)).memory
      ((machine.set .rsp (machine.regs .rbp)).regs .rsp) (savedRegs.map interrupted.regs) := by
    rw [dropped]
    exact registers
  obtain ⟨memory, rsp, restored, -⟩ := exec_pops env _ (by decide) registers
  have straight : ∀ instr ∈ (.mov .rsp .rbp :: savedRegs.map Instr.pop ++ [.add .rsp 16]),
      instr.straight = true := by decide
  have ran := reaches_straight env machine straight [.iretq]
  have moved : exec env machine (.mov .rsp .rbp) = machine.set .rsp (machine.regs .rbp) := rfl
  rw [← interruptReturn_eq, List.foldl_append, List.foldl_cons, List.foldl_nil, List.foldl_cons,
    moved] at ran
  generalize (savedRegs.map Instr.pop).foldl (exec env) (machine.set .rsp (machine.regs .rbp)) =
    popped at memory rsp restored ran
  have raised : (exec env popped (.add .rsp 16)).regs .rsp = popped.regs .rsp + 16 := rfl
  have others : ∀ reg, reg ≠ .rsp →
      (exec env popped (.add .rsp 16)).regs reg = popped.regs reg := fun reg apart =>
    Machine.set_regs_of_ne apart
  have sameMemory : (exec env popped (.add .rsp 16)).memory = machine.memory := memory
  refine ⟨_, resumed_iretq (sameMemory ▸ above) ?_ fun reg member => ?_, ran.tail rfl⟩
  · rw [raised, rsp, dropped]
    rfl
  · rw [others reg ((mem_savedRegs reg).mp member), restored reg member]

/-- From the call on: the function runs, and the epilogue is jumped to or follows. -/
theorem Called.resumes {env : Surroundings} {interrupted machine : Machine} {vector : Nat}
    {delivery : Delivery} (called : Called interrupted vector delivery machine)
    (conforming : SysV (env.callee (handler vector))
      (machine.push (env.returnAddress (handler vector)))) :
    ∃ resumed, Resumed interrupted resumed ∧
      Reaches env ⟨machine, .call (handler vector) :: epilogue vector⟩ ⟨resumed, []⟩ := by
  have standing := called.returned conforming
  obtain ⟨resumed, same, ran⟩ := reaches_resumed env standing
  refine ⟨resumed, same, .head rfl (.trans ?_ ran)⟩
  rw [epilogue]
  dsimp only [ahead]
  split
  · exact .refl
  · exact reaches_jmp env _ _ _

end Stub

/-- Interrupt entry and exit are transparent: below the address where the CPU began to push,
a function is called with a pointer to the interrupted state, and once it has returned the
interrupted code goes on with that state. -/
theorem interrupt_transparent (env : Surroundings) (interrupted : Machine) {vector : Nat}
    (known : vector < 48) (delivery : Delivery) :
    ∃ machine rest,
      Stub.Reaches env (deliver interrupted vector delivery)
        ⟨machine, .call (Stub.handler vector) :: rest⟩ ∧
      (machine.regs .rsp).toNat % 16 = 0 ∧
      machine.rflags &&& directionFlag = 0 ∧
      machine.regs .rdi = delivery.top - 176 ∧
      InterruptFrame.read machine.memory (machine.regs .rdi) =
        snapshot interrupted vector delivery.errorCode ∧
      Set.EqOn machine.memory interrupted.memory (span (delivery.top - 176) 176)ᶜ ∧
      (SysV (env.callee (Stub.handler vector))
          (machine.push (env.returnAddress (Stub.handler vector))) →
        ∃ resumed, Stub.Reaches env ⟨machine, .call (Stub.handler vector) :: rest⟩ ⟨resumed, []⟩ ∧
          Stub.Resumed interrupted resumed) := by
  obtain ⟨machine, called, ran⟩ := Stub.reaches_called env interrupted known delivery
  refine ⟨machine, _, ran, ?_, called.direction, called.argument, ?_, called.frame,
    fun conforming => ?_⟩
  · rw [called.stack, Stub.and_not_fifteen]
    exact Nat.mul_mod_left _ _
  · exact read_snapshot interrupted vector delivery.errorCode called.standing
  · obtain ⟨resumed, same, back⟩ := called.resumes conforming
    exact ⟨resumed, back, same⟩

/-- A dispatch that clobbers a register and returns. -/
def clobbering : Surroundings where
  callee := fun _ machine => (machine.set .rax 7).set .rsp (machine.regs .rsp + 8)
  returnAddress := fun _ => 0xffffffff80001000
  status := fun _ _ => 0x44

theorem clobbering_sysV (callee : Callee) (machine : Machine) :
    SysV (clobbering.callee callee) machine where
  rbp := fun _ => by
    simp only [clobbering, Machine.set_regs_of_ne, ne_eq, reduceCtorEq, not_false_eq_true]
  frame := fun _ => Set.eqOn_refl _ _

/-- A machine whose stack is not aligned. -/
def idle : Machine where
  regs := fun reg => if reg = .rsp then 0xffff800000010003 else 5
  rip := 0xffffffff80002000
  cs := 0x28
  rflags := 0x202
  ss := 0x30
  memory := fun _ => 0

def timerDelivery : Delivery where
  top := 0xffff800000010003
  errorCode := 0
  rip := 0xffffffff80003000
  cs := 0x28
  rflags := 0x2
  ss := 0x30

theorem interrupt_transparent_timer :
    ∃ resumed, Stub.Reaches clobbering (deliver idle 32 timerDelivery) ⟨resumed, []⟩ ∧
      Stub.Resumed idle resumed := by
  obtain ⟨machine, rest, ran, -, -, -, -, -, returns⟩ :=
    interrupt_transparent clobbering idle (by decide : 32 < 48) timerDelivery
  obtain ⟨resumed, back, same⟩ := returns (clobbering_sysV _ _)
  exact ⟨resumed, ran.trans back, same⟩

end ScrapOS.Arch
