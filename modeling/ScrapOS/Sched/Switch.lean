import ScrapOS.Simulation.Basic
import ScrapOS.Arch.Context
import ScrapOS.Sched.Runs

/-! The scheduler on its machine: `sched_yield` together with the instructions of
`context_switch`, which it calls on the stack of the running task. -/

set_option autoImplicit false

namespace ScrapOS.Sched

open Arch (Cpu callContextSwitch calleeSaved frameWords)

/-- How a task came to be off the CPU: it was created with an entry point and has
not run yet, or it called `context_switch` with these registers and this return
address. -/
inductive Suspended where
  | created (entry : Word)
  | yielded (cpu : Cpu)

/-- The machine, with its history: the stack each task runs on, and how each task
that is not running was suspended. -/
structure Machine where
  cpu : Cpu
  config : Config
  stackOf : Word → Allocation
  suspended : Word → Suspended

namespace Machine

def mem (machine : Machine) : Memory := machine.config.state.mem

def current (machine : Machine) : Word := machine.config.state.current

def stackBytes (machine : Machine) (t : Word) : Set Word :=
  span (machine.stackOf t).1 (machine.stackOf t).2

/-- The memory that the running task may not write: the task structures and the
stacks of the tasks that are not running. -/
def offLimits (machine : Machine) : Set Word :=
  {address | (∃ t ∈ machine.config.created, address ∈ span t 32) ∨
    ∃ t ∈ machine.config.created, t ≠ machine.current ∧ address ∈ machine.stackBytes t}

/-- The stack pointer lies in the stack of the running task, with room below it
for the return address and six registers. -/
def HasRoom (machine : Machine) : Prop :=
  56 ≤ (machine.cpu.regs .rsp - (machine.stackOf machine.current).1).toNat ∧
    (machine.cpu.regs .rsp - (machine.stackOf machine.current).1).toNat ≤
      (machine.stackOf machine.current).2

/-- The machine after `task_create(entry)` returned `t`. -/
def create (machine : Machine) (entry t : Word) (s' : State) : Machine :=
  if t = 0 then { machine with config := { machine.config with state := s' } }
  else { machine with
    config := { machine.config with state := s', created := machine.config.created ++ [t] }
    stackOf := Function.update machine.stackOf t (Task.stackBase s'.mem t, 16384)
    suspended := Function.update machine.suspended t (.created entry) }

/-- The machine after `sched_yield` called `context_switch(old, new)`, which
returns in another task. -/
def switch (machine : Machine) (returnAddress old new : Word) : Machine :=
  let after := callContextSwitch machine.cpu (schedYield machine.config.state).1.mem
    returnAddress old new
  { machine with
    cpu := after.1
    config := machine.config.yield after.2
    suspended := Function.update machine.suspended machine.current
      (.yielded { machine.cpu with rip := returnAddress }) }

theorem switch_current (machine : Machine) (returnAddress old new : Word) :
    (machine.switch returnAddress old new).current =
      (schedYield machine.config.state).1.current := by
  rw [switch, current, Config.yield_current]

inductive Step (reserved : Set Word) (trampoline : Word) : Machine → Machine → Prop where
  | create {machine : Machine} {t : Word} {s' : State} (heap : Heap reserved) (entry : Word) :
      taskCreate heap trampoline entry machine.config.state = some (t, s') →
      Step reserved trampoline machine (machine.create entry t s')
  | alone {machine : Machine} : (schedYield machine.config.state).2 = none →
      Step reserved trampoline machine
        { machine with config := machine.config.yield (schedYield machine.config.state).1.mem }
  | switch {machine : Machine} {old new : Word} (returnAddress : Word) :
      (schedYield machine.config.state).2 = some (old, new) → machine.HasRoom →
      Step reserved trampoline machine (machine.switch returnAddress old new)
  | act {machine : Machine} (cpu' : Cpu) {m' : Memory} :
      Set.EqOn m' machine.mem machine.offLimits →
      Step reserved trampoline machine
        { machine with
          cpu := cpu'
          config := { machine.config with state := { machine.config.state with mem := m' } } }

abbrev Run (reserved : Set Word) (trampoline : Word) : Machine → Machine → Prop :=
  Relation.ReflTransGen (Step reserved trampoline)

/-- The machine on which `kmain` called `sched_init`, still on the boot stack. -/
def boot (bootStack : Allocation) (heap : Heap (span bootStack.1 bootStack.2)) (cpu : Cpu)
    (m : Memory) : Machine where
  cpu := cpu
  config := Config.boot heap m
  stackOf := fun _ => bootStack
  suspended := fun _ => .yielded cpu

end Machine

/-! ## Saved frames -/

/-- What a resumed task finds. -/
def Resumes (trampoline : Word) (how : Suspended) (cpu : Cpu) (m : Memory) : Prop :=
  match how with
  | .yielded saved => (∀ reg ∈ calleeSaved, cpu.regs reg = saved.regs reg) ∧
      cpu.rip = saved.rip ∧ cpu.regs .rsp = saved.regs .rsp
  | .created entry => (∀ reg ∈ calleeSaved, cpu.regs reg = 0) ∧ cpu.rip = entry ∧
      (cpu.regs .rsp).toNat % 16 = 8 ∧ m.load64 (cpu.regs .rsp) = trampoline

/-- The words on the stack of a suspended task, from its saved stack pointer on. -/
def savedWords (trampoline : Word) : Suspended → List Word
  | .created entry => (forgedWords trampoline entry).reverse
  | .yielded cpu => frameWords cpu

/-- The saved stack pointer of a suspended task. -/
def savedRsp (stack : Word) : Suspended → Word
  | .created _ => stackTop stack - 64
  | .yielded cpu => cpu.regs .rsp - 56

theorem savedWords_short (trampoline : Word) (how : Suspended) :
    (savedWords trampoline how).length ≤ 8 := by
  cases how with
  | created entry => simp [savedWords, forgedWords]
  | yielded cpu => simp [savedWords, frameWords]

/-- A suspended task keeps the words of its frame in its own stack. -/
structure Saved (trampoline : Word) (m : Memory) (stack : Allocation) (how : Suspended)
    (t : Word) : Prop where
  rsp : Task.rsp m t = savedRsp stack.1 how
  inside : span (savedRsp stack.1 how) (8 * (savedWords trampoline how).length) ⊆
    span stack.1 stack.2
  words : WordsAt m (savedRsp stack.1 how) (savedWords trampoline how)

theorem Saved.congr {trampoline t : Word} {m m' : Memory} {stack : Allocation} {how : Suspended}
    (saved : Saved trampoline m stack how t) (field : Set.EqOn m' m (span t 8))
    (kept : Set.EqOn m' m (span stack.1 stack.2)) : Saved trampoline m' stack how t where
  rsp := (Task.rsp_congr field).trans saved.rsp
  inside := saved.inside
  words := by
    have short := savedWords_short trampoline how
    exact saved.words.congr (by omega) (kept.mono saved.inside)

namespace Machine

/-- The invariant of a run of the machine. -/
structure Valid (reserved : Set Word) (trampoline : Word) (machine : Machine)
    (waiting : List Word) : Prop where
  config : Sched.Valid machine.config waiting
  owned : ∀ t ∈ machine.config.created,
    machine.stackBytes t ⊆ reserved ∪ bytesOf machine.config.state.live
  stacksApart : ∀ t ∈ machine.config.created, ∀ t' ∈ machine.config.created, t ≠ t' →
    Disjoint (machine.stackBytes t) (machine.stackBytes t')
  tasksApart : ∀ t ∈ machine.config.created, ∀ t' ∈ machine.config.created,
    Disjoint (machine.stackBytes t) (span t' 32)
  saved : ∀ t ∈ machine.config.created, t ≠ machine.current →
    Saved trampoline machine.mem (machine.stackOf t) (machine.suspended t) t

namespace Valid

variable {reserved : Set Word} {trampoline : Word} {machine machine' : Machine}
  {waiting : List Word}

/-- A step that creates no task keeps the invariant when it keeps the saved frames. -/
theorem replace (valid : Valid reserved trampoline machine waiting) (cpu' : Cpu) {c' : Config}
    (suspended' : Word → Suspended) {waiting' : List Word} (config : Sched.Valid c' waiting')
    (created : c'.created = machine.config.created)
    (live : c'.state.live = machine.config.state.live)
    (saved : ∀ t ∈ machine.config.created, t ≠ c'.state.current →
      Saved trampoline c'.state.mem (machine.stackOf t) (suspended' t) t) :
    Valid reserved trampoline
      { cpu := cpu', config := c', stackOf := machine.stackOf, suspended := suspended' }
      waiting' := by
  rw [← created] at saved
  refine ⟨config, ?_, ?_, ?_, saved⟩
  · dsimp only
    rw [created, live]
    exact valid.owned
  · dsimp only
    rw [created]
    exact valid.stacksApart
  · dsimp only
    rw [created]
    exact valid.tasksApart

/-! ## `task_create` -/

theorem refused (valid : Valid reserved trampoline machine waiting) {s' : State}
    (refused : Refused reserved machine.config.state s') {waiting' : List Word}
    (config : Sched.Valid { machine.config with state := s' } waiting') :
    Valid reserved trampoline
      { machine with config := { machine.config with state := s' } } waiting' := by
  refine valid.replace _ _ config rfl refused.live fun task member notRunning => ?_
  have other : task ≠ machine.current := fun same =>
    notRunning (same.trans refused.current.symm)
  have inLive : span task 8 ⊆ reserved ∪ bytesOf machine.config.state.live :=
    (span_mono (by decide)).trans
      ((valid.config.queue.task_subset member).trans Set.subset_union_right)
  exact (valid.saved task member other).congr (refused.frame.mono inLive)
    (refused.frame.mono (valid.owned task member))

/-- The stack and the structure of a new task avoid those of the older tasks. -/
theorem created (valid : Valid reserved trampoline machine waiting) {entry t stack last : Word}
    {s' : State} (lastTask : last ∈ machine.config.created)
    (made : Created reserved machine.config.state s' trampoline entry t stack last)
    {waiting' : List Word}
    (config : Sched.Valid { machine.config with
      state := s', created := machine.config.created ++ [t] } waiting') :
    Valid reserved trampoline (machine.create entry t s') waiting' := by
  have fresh : t ∉ machine.config.created := valid.config.queue.fresh_not_mem made.fresh
  have inLive : reserved ∪ bytesOf machine.config.state.live ⊆
      reserved ∪ bytesOf ((t, 32) :: machine.config.state.live) := by
    rw [bytesOf_cons]
    exact Set.union_subset_union_right _ Set.subset_union_right
  have newInLive : span t 32 ⊆ reserved ∪ bytesOf ((t, 32) :: machine.config.state.live) := by
    rw [bytesOf_cons]
    exact fun _ inside => .inr (.inl inside)
  have taskOwned : ∀ task ∈ machine.config.created,
      span task 32 ⊆ reserved ∪ bytesOf machine.config.state.live := fun task member =>
    (valid.config.queue.task_subset member).trans Set.subset_union_right
  rw [Machine.create, if_neg made.nonnull, made.stackBase]
  have older : ∀ task ∈ machine.config.created, task ≠ t :=
    fun task member same => fresh (same ▸ member)
  have oldStack : ∀ task ∈ machine.config.created,
      Function.update machine.stackOf t (stack, 16384) task = machine.stackOf task :=
    fun task member => Function.update_of_ne (older task member) ..
  have newStack : Function.update machine.stackOf t (stack, 16384) t = (stack, 16384) :=
    Function.update_self ..
  have stackApart : ∀ task ∈ machine.config.created,
      Disjoint (machine.stackBytes task) (span stack 16384) := fun task member =>
    (made.stackFresh.mono_right ((valid.owned task member).trans inLive)).symm
  constructor
  case config => exact config
  case owned =>
    intro task member
    dsimp only [stackBytes]
    cases List.mem_append.mp member with
    | inl old =>
      rw [oldStack task old, made.live, bytesOf_cons]
      exact ((valid.owned task old).trans inLive).trans
        (Set.union_subset_union_right _ Set.subset_union_right)
    | inr new =>
      rw [List.mem_singleton.mp new, newStack, made.live, bytesOf_cons]
      exact fun _ inside => .inr (.inl inside)
  case stacksApart =>
    intro task member task' member' different
    dsimp only [stackBytes]
    cases List.mem_append.mp member with
    | inl old =>
      cases List.mem_append.mp member' with
      | inl old' =>
        rw [oldStack task old, oldStack task' old']
        exact valid.stacksApart task old task' old' different
      | inr new' =>
        rw [oldStack task old, List.mem_singleton.mp new', newStack]
        exact stackApart task old
    | inr new =>
      cases List.mem_append.mp member' with
      | inl old' =>
        rw [oldStack task' old', List.mem_singleton.mp new, newStack]
        exact (stackApart task' old').symm
      | inr new' =>
        exact absurd ((List.mem_singleton.mp new).trans (List.mem_singleton.mp new').symm) different
  case tasksApart =>
    intro task member task' member'
    dsimp only [stackBytes]
    cases List.mem_append.mp member with
    | inl old =>
      rw [oldStack task old]
      cases List.mem_append.mp member' with
      | inl old' => exact valid.tasksApart task old task' old'
      | inr new' =>
        rw [List.mem_singleton.mp new']
        exact (made.fresh.mono_right (valid.owned task old)).symm
    | inr new =>
      rw [List.mem_singleton.mp new, newStack]
      cases List.mem_append.mp member' with
      | inl old' => exact made.stackFresh.mono_right ((taskOwned task' old').trans inLive)
      | inr new' =>
        rw [List.mem_singleton.mp new']
        exact made.stackFresh.mono_right newInLive
  case saved =>
    intro task member notRunning
    have other : task ≠ machine.current := fun same =>
      notRunning (same.trans made.current.symm)
    dsimp only
    cases List.mem_append.mp member with
    | inl old =>
      rw [oldStack task old, Function.update_of_ne (older task old)]
      refine (valid.saved task old other).congr ?_ fun address inside => ?_
      · exact (valid.config.queue.create_kept lastTask made old).1.mono (span_mono (by decide))
      · refine made.frame ⟨valid.owned task old inside, fun inLink => ?_⟩
        have inLast : address ∈ span last 32 := span_subset (by bv_omega) inLink
        exact Set.disjoint_left.mp (valid.tasksApart task old last lastTask) inside inLast
    | inr new =>
      rw [List.mem_singleton.mp new, newStack, Function.update_self]
      exact ⟨made.rsp, forged_subset stack, made.forged⟩

theorem create (valid : Valid reserved trampoline machine waiting) (heap : Heap reserved)
    (entry : Word) {t : Word} {s' : State}
    (returned : taskCreate heap trampoline entry machine.config.state = some (t, s')) :
    ∃ waiting', Valid reserved trampoline (machine.create entry t s') waiting' := by
  cases valid.config.taskCreate_cases heap trampoline entry with
  | inl refused =>
    obtain ⟨_, returned', refused⟩ := refused
    rw [returned, Option.some.injEq, Prod.mk.injEq] at returned'
    obtain ⟨rfl, rfl⟩ := returned'
    obtain ⟨waiting', config, -⟩ := valid.config.step (.refused heap trampoline entry returned)
    exact ⟨waiting', valid.refused refused config⟩
  | inr created =>
    obtain ⟨_, stack, _, last, returned', lastTask, made, -⟩ := created
    rw [returned, Option.some.injEq, Prod.mk.injEq] at returned'
    obtain ⟨rfl, rfl⟩ := returned'
    obtain ⟨waiting', config, -⟩ :=
      valid.config.step (.created heap trampoline entry returned made.nonnull)
    exact ⟨waiting', valid.created lastTask made config⟩

/-! ## `sched_yield` -/

theorem alone (valid : Valid reserved trampoline machine waiting)
    (noSwitch : (schedYield machine.config.state).2 = none) :
    ∃ waiting', Valid reserved trampoline
      { machine with config := machine.config.yield (schedYield machine.config.state).1.mem }
      waiting' := by
  have stepped : Sched.Step reserved machine.config [FifoQueue.Event.rotate]
      (machine.config.yield (schedYield machine.config.state).1.mem) :=
    .yield fun _ _ => Set.eqOn_refl _ _
  obtain ⟨waiting', config, -⟩ := valid.config.step stepped
  cases waiting with
  | nil =>
    have unchanged := valid.config.queue.yield_alone
    refine ⟨waiting', valid.replace _ _ config (Config.yield_created ..) ?_ ?_⟩
    · rw [Config.yield, unchanged]
    · rw [Config.yield, unchanged]
      exact valid.saved
  | cons front rest =>
    rw [valid.config.queue.yield.1] at noSwitch
    exact absurd noSwitch (Option.some_ne_none _)

/-- The pushes of the switch stay within the stack of the running task. -/
theorem frame_inside (room : machine.HasRoom) :
    span (machine.cpu.regs .rsp - 56) 56 ⊆ machine.stackBytes machine.current := by
  obtain ⟨low, high⟩ := room
  exact span_subset (by bv_omega)

theorem switch_frame (room : machine.HasRoom) (returnAddress new : Word) :
    Set.EqOn (callContextSwitch machine.cpu (schedYield machine.config.state).1.mem
        returnAddress machine.current new).2 (schedYield machine.config.state).1.mem
      (machine.stackBytes machine.current ∪ span machine.current 8)ᶜ :=
  eqOn_compl_mono (Arch.callContextSwitch_frame ..)
    (Set.union_subset_union_left _ (frame_inside room))

section Switch

variable {front : Word} {rest : List Word}
  (valid : Valid reserved trampoline machine (front :: rest)) (room : machine.HasRoom)

include valid

theorem yield_frame :
    Set.EqOn (schedYield machine.config.state).1.mem machine.mem
      (span (machine.current + 20) 4 ∪ span (front + 20) 4)ᶜ := by
  rw [valid.config.queue.yield.1]
  exact eqOn_compl_trans (Task.setState_frame ..) (Task.setState_frame ..)

theorem saved_yield {task : Word} (member : task ∈ machine.config.created)
    (other : task ≠ machine.current) :
    Saved trampoline (schedYield machine.config.state).1.mem (machine.stackOf task)
      (machine.suspended task) task := by
  have frontTask : front ∈ machine.config.created :=
    valid.config.queue.everyone.mem_iff.mp (by simp)
  have currentTask := valid.config.queue.current_created
  have stateInTask : ∀ t : Word, span (t + 20) 4 ⊆ span t 32 :=
    fun t => span_subset (by bv_omega)
  have fieldApart : ∀ t ∈ machine.config.created, Disjoint (span task 8) (span (t + 20) 4) := by
    intro t isTask
    by_cases same : task = t
    · subst same
      exact span_disjoint (by bv_omega) (by bv_omega)
    · exact (valid.config.queue.disjoint member isTask same).mono (span_mono (by decide))
        (stateInTask t)
  refine (valid.saved task member other).congr (valid.yield_frame.mono ?_)
    (valid.yield_frame.mono ?_)
  · exact ((fieldApart _ currentTask).union_right (fieldApart _ frontTask)).subset_compl_right
  · exact (((valid.tasksApart task member _ currentTask).mono_right (stateInTask _)).union_right
      ((valid.tasksApart task member _ frontTask).mono_right (stateInTask _))).subset_compl_right

include room

theorem saved_switch (returnAddress new : Word) {task : Word}
    (member : task ∈ machine.config.created) (other : task ≠ machine.current) :
    Saved trampoline (callContextSwitch machine.cpu (schedYield machine.config.state).1.mem
        returnAddress machine.current new).2 (machine.stackOf task)
      (machine.suspended task) task := by
  have currentTask := valid.config.queue.current_created
  have frame := switch_frame room returnAddress new
  have field : span machine.current 8 ⊆ span machine.current 32 := span_mono (by decide)
  have ownField : span task 8 ⊆ span task 32 := span_mono (by decide)
  refine (valid.saved_yield member other).congr (frame.mono ?_) (frame.mono ?_)
  · have notStack := ((valid.tasksApart _ currentTask task member).mono_right ownField).symm
    have notField := (valid.config.queue.disjoint member currentTask other).mono ownField field
    exact (notStack.union_right notField).subset_compl_right
  · have notStack := valid.stacksApart task member _ currentTask other
    have notField := (valid.tasksApart task member _ currentTask).mono_right field
    exact (notStack.union_right notField).subset_compl_right

theorem saved_outgoing (returnAddress new : Word) :
    Saved trampoline (callContextSwitch machine.cpu (schedYield machine.config.state).1.mem
        returnAddress machine.current new).2 (machine.stackOf machine.current)
      (.yielded { machine.cpu with rip := returnAddress }) machine.current where
  rsp := Arch.callContextSwitch_oldRsp ..
  inside := frame_inside room
  words := by
    have currentTask := valid.config.queue.current_created
    refine Arch.callContextSwitch_saved _ _ _ _ _ ?_
    exact (valid.tasksApart _ currentTask _ currentTask).mono (frame_inside room)
      (span_mono (by decide))

theorem switch (returnAddress new : Word) :
    ∃ waiting', Valid reserved trampoline
      (machine.switch returnAddress machine.current new) waiting' := by
  have currentTask := valid.config.queue.current_created
  have frame := switch_frame room returnAddress new
  have bookkeepingKept : ∀ t ∈ machine.config.created,
      Set.EqOn (callContextSwitch machine.cpu (schedYield machine.config.state).1.mem
        returnAddress machine.current new).2 (schedYield machine.config.state).1.mem
        (Task.bookkeeping t) := by
    intro t member
    have notStack := ((valid.tasksApart _ currentTask t member).mono_right
      Task.bookkeeping_subset).symm
    have notField : Disjoint (Task.bookkeeping t) (span machine.current 8) := by
      by_cases same : t = machine.current
      · subst same
        exact span_disjoint (by bv_omega) (by bv_omega)
      · exact (valid.config.queue.disjoint member currentTask same).mono
          Task.bookkeeping_subset (span_mono (by decide))
    exact frame.mono (notStack.union_right notField).subset_compl_right
  have stepped : Sched.Step reserved machine.config [FifoQueue.Event.rotate] _ := .yield bookkeepingKept
  obtain ⟨waiting', config, -⟩ := valid.config.step stepped
  refine ⟨waiting', valid.replace _ _ config (Config.yield_created ..) ?_ ?_⟩
  · rw [Config.yield, valid.config.queue.yield.1]
  · intro task member notRunning
    rw [Config.yield_mem]
    by_cases outgoing : task = machine.current
    · subst outgoing
      rw [Function.update_self]
      exact valid.saved_outgoing room returnAddress new
    · rw [Function.update_of_ne outgoing]
      exact valid.saved_switch room returnAddress new member outgoing

theorem switch_resumes (returnAddress : Word) :
    Resumes trampoline (machine.suspended front)
      (machine.switch returnAddress machine.current
        (Task.rsp (schedYield machine.config.state).1.mem front)).cpu
      (machine.switch returnAddress machine.current
        (Task.rsp (schedYield machine.config.state).1.mem front)).mem := by
  have frontTask : front ∈ machine.config.created :=
    valid.config.queue.everyone.mem_iff.mp (by simp)
  have other : front ≠ machine.current := fun same =>
    (List.nodup_cons.mp valid.config.queue.nodup).1 (same ▸ List.mem_cons_self)
  have loaded := (valid.saved_yield frontTask other).rsp
  have words := (valid.saved_switch room returnAddress
    (Task.rsp (schedYield machine.config.state).1.mem front) frontTask other).words
  rw [← loaded] at words
  rw [Machine.switch, Machine.mem, Config.yield_mem]
  dsimp only
  generalize machine.suspended front = how at loaded words ⊢
  cases how with
  | yielded saved =>
    obtain ⟨regs, rip, rsp⟩ := Arch.callContextSwitch_cpu _ _ _ _ _ words
    refine ⟨regs, rip, ?_⟩
    rw [rsp, loaded, savedRsp]
    bv_omega
  | created entry =>
    obtain ⟨r15, r14, r13, r12, rbx, rbp, rip, above, -⟩ := words
    have forged : WordsAt (callContextSwitch machine.cpu
        (schedYield machine.config.state).1.mem returnAddress machine.current
        (Task.rsp (schedYield machine.config.state).1.mem front)).2
        (Task.rsp (schedYield machine.config.state).1.mem front)
        (frameWords { regs := fun _ => 0, rip := entry }) :=
      ⟨r15, r14, r13, r12, rbx, rbp, rip, trivial⟩
    obtain ⟨regs, rip, rsp⟩ := Arch.callContextSwitch_cpu _ _ _ _ _ forged
    refine ⟨regs, rip, ?_, ?_⟩
    · have rounded := stackTop_toNat (machine.stackOf front).1
      rw [rsp, loaded, savedRsp]
      bv_omega
    · have address : ∀ sp : Word, sp + 8 + 8 + 8 + 8 + 8 + 8 + 8 = sp + 56 := by
        intro sp
        bv_omega
      rw [address] at above
      rw [rsp]
      exact above

end Switch

/-! ## Runs -/

theorem act (valid : Valid reserved trampoline machine waiting) (cpu' : Cpu) {m' : Memory}
    (spared : Set.EqOn m' machine.mem machine.offLimits) :
    ∃ waiting', Valid reserved trampoline
      { machine with
        cpu := cpu'
        config := { machine.config with state := { machine.config.state with mem := m' } } }
      waiting' := by
  have tasks : ∀ t ∈ machine.config.created, Set.EqOn m' machine.mem (span t 32) :=
    fun t member => spared.mono fun _ inside => .inl ⟨t, member, inside⟩
  obtain ⟨waiting', config, -⟩ := valid.config.step ((Sched.Step.act fun t member =>
    (tasks t member).mono Task.bookkeeping_subset) : Sched.Step reserved machine.config [] _)
  refine ⟨waiting', valid.replace _ _ config rfl rfl fun task member other => ?_⟩
  refine (valid.saved task member other).congr ((tasks task member).mono (span_mono (by decide))) ?_
  exact spared.mono fun _ inside => .inr ⟨task, member, other, inside⟩

theorem step (valid : Valid reserved trampoline machine waiting)
    (stepped : Step reserved trampoline machine machine') :
    ∃ waiting', Valid reserved trampoline machine' waiting' := by
  cases stepped with
  | create heap entry returned => exact valid.create heap entry returned
  | alone noSwitch => exact valid.alone noSwitch
  | @switch old new returnAddress switched room =>
    cases waiting with
    | nil =>
      rw [valid.config.queue.yield_alone] at switched
      exact absurd switched.symm (Option.some_ne_none _)
    | cons front rest =>
      rw [valid.config.queue.yield.1, Option.some.injEq, Prod.mk.injEq] at switched
      obtain ⟨rfl, -⟩ := switched
      exact valid.switch room returnAddress new
  | act cpu' spared => exact valid.act cpu' spared

theorem run (valid : Valid reserved trampoline machine waiting)
    (ran : Run reserved trampoline machine machine') :
    ∃ waiting', Valid reserved trampoline machine' waiting' := by
  have kept : ∀ waiting machine machine', Valid reserved trampoline machine waiting →
      Step reserved trampoline machine machine' →
        ∃ waiting', Valid reserved trampoline machine' waiting' :=
    fun _ _ _ before stepped => before.step stepped
  exact Simulation.run_holds kept valid ran

/-- A step that changes the running task resumes the new one where it was suspended. -/
theorem step_resumes (valid : Valid reserved trampoline machine waiting)
    (stepped : Step reserved trampoline machine machine')
    (switched : machine'.current ≠ machine.current) :
    Resumes trampoline (machine.suspended machine'.current) machine'.cpu machine'.mem := by
  cases stepped with
  | @create t s' heap entry returned =>
    refine absurd ?_ switched
    rw [Machine.create, Machine.current, Machine.current]
    cases valid.config.taskCreate_cases heap trampoline entry with
    | inl refused =>
      obtain ⟨_, returned', refused⟩ := refused
      rw [returned, Option.some.injEq, Prod.mk.injEq] at returned'
      obtain ⟨rfl, rfl⟩ := returned'
      exact refused.current
    | inr created =>
      obtain ⟨_, _, _, _, returned', -, made, -⟩ := created
      rw [returned, Option.some.injEq, Prod.mk.injEq] at returned'
      obtain ⟨rfl, rfl⟩ := returned'
      rw [if_neg made.nonnull]
      exact made.current
  | alone noSwitch =>
    cases waiting with
    | nil =>
      have unchanged := valid.config.queue.yield_alone
      refine absurd ?_ switched
      rw [Machine.current, Machine.current, Config.yield, unchanged]
    | cons front rest =>
      rw [valid.config.queue.yield.1] at noSwitch
      exact absurd noSwitch (Option.some_ne_none _)
  | @switch old new returnAddress called room =>
    cases waiting with
    | nil =>
      rw [valid.config.queue.yield_alone] at called
      exact absurd called.symm (Option.some_ne_none _)
    | cons front rest =>
      have result := valid.config.queue.yield.1
      have newCurrent : (schedYield machine.config.state).1.current = front := by rw [result]
      have arguments : old = machine.current ∧
          new = Task.rsp (schedYield machine.config.state).1.mem front := by
        rw [result, Option.some.injEq, Prod.mk.injEq] at called
        rw [result]
        exact ⟨called.1.symm, called.2.symm⟩
      obtain ⟨rfl, rfl⟩ := arguments
      rw [switch_current, newCurrent]
      exact valid.switch_resumes room returnAddress
  | act cpu' spared => exact absurd rfl switched

end Valid

theorem boot_valid {bootStack : Allocation} {heap : Heap (span bootStack.1 bootStack.2)}
    {cpu : Cpu} {m : Memory} (trampoline : Word) (succeeded : (schedInit heap m).current ≠ 0) :
    Valid (span bootStack.1 bootStack.2) trampoline (boot bootStack heap cpu m) [] where
  config := Sched.boot_valid succeeded
  owned := fun _ _ => Set.subset_union_left
  stacksApart := by
    intro task member task' member' different
    exact absurd ((List.mem_singleton.mp member).trans (List.mem_singleton.mp member').symm)
      different
  tasksApart := by
    intro task _ task' member'
    rw [List.mem_singleton.mp member']
    exact (schedInit_fresh heap m succeeded).symm
  saved := by
    intro task member other
    exact absurd (List.mem_singleton.mp member) other

theorem context_switch_restores {bootStack : Allocation}
    {heap : Heap (span bootStack.1 bootStack.2)} {cpu : Cpu} {m : Memory} {trampoline : Word}
    {machine machine' : Machine} (succeeded : (schedInit heap m).current ≠ 0)
    (ran : Run (span bootStack.1 bootStack.2) trampoline (boot bootStack heap cpu m) machine)
    (stepped : Step (span bootStack.1 bootStack.2) trampoline machine machine')
    (switched : machine'.current ≠ machine.current) :
    Resumes trampoline (machine.suspended machine'.current) machine'.cpu machine'.mem := by
  obtain ⟨_, valid⟩ := (boot_valid trampoline succeeded).run ran
  exact valid.step_resumes stepped switched

/-- `kmain` in the middle of its stack. -/
def kmain : Machine :=
  boot kmainStack twoTasks { regs := fun _ => 0xffff800000102000, rip := 0 } fun _ => 0

/-- `kmain` creates a task and yields to it. -/
theorem twoTasks_switch :
    ∃ machine machine', Run (span kmainStack.1 kmainStack.2) 0x1000 kmain machine ∧
      Step (span kmainStack.1 kmainStack.2) 0x1000 machine machine' ∧
      machine'.current ≠ machine.current ∧
      machine.suspended machine'.current = .created 0x2000 := by
  have evaluated : (taskCreate twoTasks 0x1000 0x2000 kmain.config.state).map
      (fun result => (result.1, result.2.current, (schedYield result.2).1.current,
        (schedYield result.2).2)) = some (0xffff800000400020, 0xffff800000400000,
        0xffff800000400020, some (0xffff800000400000, 0xffff800000407fc0)) := by decide +kernel
  obtain ⟨⟨t, s'⟩, returned, results⟩ := Option.map_eq_some_iff.mp evaluated
  simp only [Prod.mk.injEq] at results
  obtain ⟨isTask, current, front, called⟩ := results
  have made := Step.create twoTasks 0x2000 returned
  have config : (kmain.create 0x2000 t s').config.state = s' := by
    rw [create, isTask]
    rfl
  have stack : (kmain.create 0x2000 t s').stackOf 0xffff800000400000 = kmainStack := by
    have different : (0xffff800000400000 : Word) ≠ 0xffff800000400020 := by decide
    rw [create, isTask, if_neg (by decide)]
    dsimp only
    rw [Function.update_of_ne different]
    rfl
  have how : (kmain.create 0x2000 t s').suspended 0xffff800000400020 = .created 0x2000 := by
    rw [create, isTask, if_neg (by decide)]
    dsimp only
    rw [Function.update_self]
  have cpu : (kmain.create 0x2000 t s').cpu.regs .rsp = 0xffff800000102000 := by
    rw [create, isTask]
    rfl
  generalize kmain.create 0x2000 t s' = machine at made config stack how cpu
  have running : machine.current = 0xffff800000400000 := by rw [Machine.current, config, current]
  have room : machine.HasRoom := by
    rw [HasRoom, running, stack, cpu]
    decide
  rw [← config] at called front
  have switched : (machine.switch 0x3000 0xffff800000400000 0xffff800000407fc0).current =
      0xffff800000400020 := by rw [switch_current, front]
  refine ⟨machine, _, .single made, .switch 0x3000 called room, ?_, ?_⟩
  · rw [switched, running]
    decide
  · rw [switched, how]

theorem context_switch_restores_twoTasks :
    ∃ machine machine' : Machine, machine'.current ≠ machine.current ∧
      Resumes 0x1000 (.created 0x2000) machine'.cpu machine'.mem := by
  obtain ⟨machine, machine', ran, stepped, switched, how⟩ := twoTasks_switch
  have succeeded : (schedInit twoTasks fun _ => 0).current ≠ 0 := by
    rw [twoTasks_booted]
    decide
  have resumed := context_switch_restores succeeded ran stepped switched
  rw [how] at resumed
  exact ⟨machine, machine', switched, resumed⟩

end Machine

end ScrapOS.Sched
