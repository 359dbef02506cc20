import ScrapOS.Memory.Stack

/-! `context.asm`: the instructions that `context_switch` is made of, the routine
itself, and what it leaves in the registers. Straight-line code changes `rip` only
through `ret`, so `rip` is not advanced by the other instructions. -/

set_option autoImplicit false

namespace ScrapOS.Arch

inductive Reg where
  | rax | rbx | rcx | rdx | rsi | rdi | rbp | rsp
  | r8 | r9 | r10 | r11 | r12 | r13 | r14 | r15
  deriving DecidableEq

structure Cpu where
  regs : Reg → Word
  rip : Word

inductive Instr where
  | push (src : Reg)
  | pop (dst : Reg)
  | mov (dst src : Reg)
  /-- `mov [base], src` -/
  | store (base src : Reg)
  | ret

namespace Cpu

def set (cpu : Cpu) (dst : Reg) (value : Word) : Cpu :=
  { cpu with regs := Function.update cpu.regs dst value }

/-- A push of a value that is not in a register, as `call` does with its return address. -/
def pushValue (cpu : Cpu) (m : Memory) (value : Word) : Cpu × Memory :=
  (cpu.set .rsp (cpu.regs .rsp - 8), m.store64 (cpu.regs .rsp - 8) value)

def exec (state : Cpu × Memory) : Instr → Cpu × Memory
  | .push src => state.1.pushValue state.2 (state.1.regs src)
  | .pop dst =>
      ((state.1.set .rsp (state.1.regs .rsp + 8)).set dst (state.2.load64 (state.1.regs .rsp)),
        state.2)
  | .mov dst src => (state.1.set dst (state.1.regs src), state.2)
  | .store base src => (state.1, state.2.store64 (state.1.regs base) (state.1.regs src))
  | .ret =>
      ({ state.1.set .rsp (state.1.regs .rsp + 8) with
          rip := state.2.load64 (state.1.regs .rsp) }, state.2)

end Cpu

/-- The body of `context_switch(rdi = old_rsp, rsi = new_rsp)`. -/
def contextSwitch : List Instr :=
  [.push .rbp, .push .rbx, .push .r12, .push .r13, .push .r14, .push .r15,
    .store .rdi .rsp, .mov .rsp .rsi,
    .pop .r15, .pop .r14, .pop .r13, .pop .r12, .pop .rbx, .pop .rbp, .ret]

/-- `call context_switch` with its two arguments in place, up to its return. -/
def callContextSwitch (cpu : Cpu) (m : Memory) (returnAddress oldRsp newRsp : Word) :
    Cpu × Memory :=
  let cpu := (cpu.set .rdi oldRsp).set .rsi newRsp
  contextSwitch.foldl Cpu.exec (cpu.pushValue m returnAddress)

/-! ## The saved frame -/

/-- The words that a suspended flow has on its stack, from its saved stack pointer
on: the six callee-saved registers as they are popped, and the return address. -/
def frameWords (cpu : Cpu) : List Word :=
  [cpu.regs .r15, cpu.regs .r14, cpu.regs .r13, cpu.regs .r12, cpu.regs .rbx, cpu.regs .rbp,
    cpu.rip]

def calleeSaved : List Reg := [.rbx, .rbp, .r12, .r13, .r14, .r15]

/-- The memory after the call: the frame pushed, and the stack pointer stored. -/
theorem callContextSwitch_memory (cpu : Cpu) (m : Memory) (returnAddress oldRsp newRsp : Word) :
    (callContextSwitch cpu m returnAddress oldRsp newRsp).2 =
      (pushWords (cpu.regs .rsp) m
        (frameWords { cpu with rip := returnAddress }).reverse).2.store64 oldRsp
        (cpu.regs .rsp - 56) := by
  simp [callContextSwitch, contextSwitch, Cpu.exec, Cpu.pushValue, Cpu.set, frameWords, pushWords,
    pushWord, BitVec.sub_sub]

section Saved

variable (cpu : Cpu) (m : Memory) (returnAddress oldRsp newRsp : Word)

theorem callContextSwitch_frame :
    Set.EqOn (callContextSwitch cpu m returnAddress oldRsp newRsp).2 m
      (span (cpu.regs .rsp - 56) 56 ∪ span oldRsp 8)ᶜ := by
  have pushed := pushWords_frame (cpu.regs .rsp) m
    (frameWords { cpu with rip := returnAddress }).reverse (by simp [frameWords])
  have seven : (frameWords { cpu with rip := returnAddress }).reverse.length = 7 := rfl
  rw [seven] at pushed
  rw [callContextSwitch_memory]
  exact eqOn_compl_trans pushed (Memory.store64_eqOn_compl ..)

theorem callContextSwitch_oldRsp :
    (callContextSwitch cpu m returnAddress oldRsp newRsp).2.load64 oldRsp = cpu.regs .rsp - 56 := by
  rw [callContextSwitch_memory, Memory.load64_store64]

/-- The outgoing flow is left with its frame on its stack. -/
theorem callContextSwitch_saved
    (apart : Disjoint (span (cpu.regs .rsp - 56) 56) (span oldRsp 8)) :
    WordsAt (callContextSwitch cpu m returnAddress oldRsp newRsp).2 (cpu.regs .rsp - 56)
      (frameWords { cpu with rip := returnAddress }) := by
  have standing : WordsAt m (cpu.regs .rsp) [] := trivial
  have pushed := standing.pushWords (frameWords { cpu with rip := returnAddress }).reverse
    (by simp [frameWords])
  rw [pushWords_sp, List.reverse_reverse, List.append_nil] at pushed
  rw [callContextSwitch_memory]
  exact pushed.congr (by simp [frameWords])
    ((Memory.store64_eqOn_compl ..).mono apart.subset_compl_right)

end Saved

/-- The second half of `context_switch`, on the incoming stack. -/
def resume : List Instr :=
  [.pop .r15, .pop .r14, .pop .r13, .pop .r12, .pop .rbx, .pop .rbp, .ret]

theorem resume_memory (state : Cpu × Memory) : (resume.foldl Cpu.exec state).2 = state.2 := rfl

theorem resume_spec {cpu resumed : Cpu} {m : Memory}
    (standing : WordsAt m (cpu.regs .rsp) (frameWords resumed)) :
    (∀ reg ∈ calleeSaved, (resume.foldl Cpu.exec (cpu, m)).1.regs reg = resumed.regs reg) ∧
      (resume.foldl Cpu.exec (cpu, m)).1.rip = resumed.rip ∧
      (resume.foldl Cpu.exec (cpu, m)).1.regs .rsp = cpu.regs .rsp + 56 := by
  obtain ⟨r15, r14, r13, r12, rbx, rbp, rip, -⟩ := standing
  simp only [resume, List.foldl_cons, List.foldl_nil, Cpu.exec, Cpu.set, Function.update_self,
    ne_eq, reduceCtorEq, not_false_eq_true, Function.update_of_ne]
  refine ⟨?_, rip, ?_⟩
  · simp only [calleeSaved, List.forall_mem_cons, ne_eq, reduceCtorEq, not_false_eq_true,
      Function.update_of_ne, Function.update_self]
    exact ⟨rbx, rbp, r12, r13, r14, r15, by simp⟩
  · bv_omega

/-- The call continues in the flow whose frame stands at the new stack pointer. -/
theorem callContextSwitch_cpu (cpu : Cpu) (m : Memory) (returnAddress oldRsp newRsp : Word)
    {resumed : Cpu} (standing : WordsAt (callContextSwitch cpu m returnAddress oldRsp newRsp).2
      newRsp (frameWords resumed)) :
    (∀ reg ∈ calleeSaved,
      (callContextSwitch cpu m returnAddress oldRsp newRsp).1.regs reg = resumed.regs reg) ∧
    (callContextSwitch cpu m returnAddress oldRsp newRsp).1.rip = resumed.rip ∧
    (callContextSwitch cpu m returnAddress oldRsp newRsp).1.regs .rsp = newRsp + 56 := by
  have halves : callContextSwitch cpu m returnAddress oldRsp newRsp =
      resume.foldl Cpu.exec ((contextSwitch.take 8).foldl Cpu.exec
        (((cpu.set .rdi oldRsp).set .rsi newRsp).pushValue m returnAddress)) := by
    rw [callContextSwitch, ← List.take_append_drop 8 contextSwitch, List.foldl_append]
    rfl
  have incoming : ((contextSwitch.take 8).foldl Cpu.exec
      (((cpu.set .rdi oldRsp).set .rsi newRsp).pushValue m returnAddress)).1.regs .rsp =
        newRsp := by
    simp [contextSwitch, Cpu.exec, Cpu.pushValue, Cpu.set]
  rw [halves, resume_memory] at standing
  rw [halves]
  generalize (contextSwitch.take 8).foldl Cpu.exec _ = middle at incoming standing ⊢
  obtain ⟨cpu', m'⟩ := middle
  subst incoming
  exact resume_spec standing

end ScrapOS.Arch
