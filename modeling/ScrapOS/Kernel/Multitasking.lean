import ScrapOS.Kernel.Tasks
import ScrapOS.Sched.Switch
import ScrapOS.Slab.Requests

/-! The tasks of the kernel while they use its memory: task creation, task switches, every call of
the memory managers and every write of the running task, in any order. Each step is one of the
machine of the scheduler. -/

set_option autoImplicit false

namespace ScrapOS.Kernel

open Sched (Allocation Heap Machine Resumes RunQueue Suspended bytesOf schedYield)

/-! ## The system -/

/-- The kernel with its tasks, and their history as in `Sched.Machine`. -/
structure System where
  tasks : Tasks
  cpu : Arch.Cpu
  created : List Word
  started : List Word
  stackOf : Word → Allocation
  suspended : Word → Suspended

namespace System

/-- The system as the scheduler sees it. -/
def machine (s : System) : Machine where
  cpu := s.cpu
  config := { state := s.tasks.state, created := s.created, started := s.started }
  stackOf := s.stackOf
  suspended := s.suspended

/-- The system after the scheduler went on to `machine`. -/
def resume (s : System) (machine : Machine) : System where
  tasks :=
    { kernel := s.tasks.kernel.store machine.mem
      current := machine.config.state.current
      nextId := machine.config.state.nextId
      live := machine.config.state.live }
  cpu := machine.cpu
  created := machine.config.created
  started := machine.config.started
  stackOf := machine.stackOf
  suspended := machine.suspended

@[simp] theorem machine_resume (s : System) (machine : Machine) : (s.resume machine).machine = machine := rfl

theorem machine_state (s : System) : s.machine.config.state = s.tasks.state := rfl

def mem (s : System) : Memory := s.tasks.kernel.mem

/-- An object that belongs to `sched.c`: a task structure or a stack. -/
def Scheduled (s : System) (object : Slab.Object) : Prop :=
  (object.ptr, object.size.toNat) ∈ s.tasks.live

/-- A task frees no object of the scheduler, and of these it writes its own stack only. -/
structure Permitted (s : System) (actor : Actor) (kernel' : Config) : Prop where
  kept : ∀ object ∈ s.tasks.kernel.objects, s.Scheduled object → object ∈ kernel'.objects
  own : ∀ object, s.Scheduled object → actor.MayWrite (.object object) →
    (object.ptr, object.size.toNat) = s.stackOf s.tasks.current

/-- The kernel right after `sched_init`, still on the boot stack. -/
def boot (bootStack : Allocation) (cpu : Arch.Cpu) (tasks : Tasks) : System where
  tasks := tasks
  cpu := cpu
  created := [tasks.current]
  started := [tasks.current]
  stackOf := fun _ => bootStack
  suspended := fun _ => .yielded cpu

inductive Step (usable : Set Nat) (trampoline : Word) : System → System → Prop where
  | create {s : System} {t : Word} {tasks' : Tasks} (entry : Word) :
      taskCreate trampoline entry s.tasks = some (t, tasks') →
      Step usable trampoline s
        ({ s with tasks := tasks' }.resume (s.machine.create entry t tasks'.state))
  | alone {s : System} : (schedYield s.tasks.state).2 = none →
      Step usable trampoline s (s.resume
        { s.machine with config := s.machine.config.yield (schedYield s.tasks.state).1.mem })
  | switch {s : System} {old new : Word} (returnAddress : Word) :
      (schedYield s.tasks.state).2 = some (old, new) → s.machine.HasRoom →
      Step usable trampoline s (s.resume (s.machine.switch returnAddress old new))
  | call {s : System} {actor : Actor} {kernel' : Config} (cpu' : Arch.Cpu) :
      Kernel.Step actor s.tasks.kernel kernel' → s.Permitted actor kernel' →
      Step usable trampoline s
        { s with cpu := cpu', tasks := { s.tasks with kernel := kernel' } }
  | outside {s : System} {m' : Memory} (cpu' : Arch.Cpu) :
      Set.EqOn m' s.mem (frameBytes s.tasks.kernel.hhdm usable ∪ s.machine.offLimits) →
      Step usable trampoline s { s with cpu := cpu', tasks := s.tasks.store m' }

abbrev Run (usable : Set Nat) (trampoline : Word) : System → System → Prop :=
  Relation.ReflTransGen (Step usable trampoline)

end System

/-! ## The stacks of suspended tasks -/

section Stacks

variable {reserved : Set Word} {trampoline : Word} {machine machine' : Machine} {waiting : List Word}

theorem switch_mem (machine : Machine) (returnAddress old new : Word) :
    (machine.switch returnAddress old new).mem = (Arch.callContextSwitch machine.cpu
      (schedYield machine.config.state).1.mem returnAddress old new).2 := by
  rw [Machine.switch, Machine.mem, Sched.Config.yield_mem]

end Stacks

/-! ## What a call of the memory managers changes -/

section Calls

variable {usable bitmapFrames free managed : Set Nat} {root : Nat} {shape : Slab.Shape}
  {c c' : Config} {actor : Actor}

theorem Step.hhdm (stepped : Step actor c c') : c'.hhdm = c.hhdm := by cases stepped <;> rfl

/-- The memory managers and those who hold memory of theirs stay in the usable frames. -/
theorem Valid.step_usable (valid : Valid usable bitmapFrames free managed root shape c)
    (stepped : Step actor c c') : Set.EqOn c'.mem c.mem (frameBytes c.hhdm usable)ᶜ := by
  have inUsable := valid.mm.owned.inside
  have viaFrames {m' : Memory} {frames : Set Nat}
      (changed : Set.EqOn m' c.mem (frameBytes c.hhdm frames)ᶜ) (inside : frames ⊆ usable) :
      Set.EqOn m' c.mem (frameBytes c.hhdm usable)ᶜ := eqOn_compl_mono changed (frameBytes_mono inside)
  have viaManaged {m' : Memory} (changed : Set.EqOn m' c.mem (frameBytes c.heap.slab.gHhdm managed)ᶜ) :
      Set.EqOn m' c.mem (frameBytes c.hhdm usable)ᶜ := by
    rw [show c.heap.slab.gHhdm = c.hhdm from valid.heap_hhdm] at changed
    exact viaFrames changed valid.mm.managed_usable
  cases stepped with
  | pmmAlloc => exact viaFrames valid.mm.pmmAlloc_frame (inUsable .bitmap)
  | pmmFree freed => exact viaFrames (valid.mm.pmmFree_frame freed) (inUsable .bitmap)
  | vmmMap virt phys flags =>
      exact viaFrames (valid.mm.vmmMap_frame virt phys flags)
        (Set.union_subset (Set.union_subset (inUsable .bitmap) (inUsable .table)) (inUsable .free))
  | vmmUnmap virt => exact viaFrames (valid.mm.vmmUnmap_frame virt) (inUsable .table)
  | buddyAlloc order returned =>
      have relinked := valid.slab.buddyAlloc_relinked order
      rw [returned] at relinked
      exact viaManaged (valid.slab.relinked_managed relinked)
  | buddyFree given returned =>
      obtain ⟨relinked, -⟩ :=
        valid.slab.buddyFree_relinked (valid.slab.balanced.other_held given) returned
      exact viaManaged (valid.slab.relinked_managed relinked)
  | kmalloc inRange returned =>
      exact viaManaged (valid.slab.footprint_managed (valid.slab.kmalloc_footprint returned))
  | kfree member returned =>
      exact viaManaged (valid.slab.footprint_managed (valid.slab.kfree_footprint member returned))
  | write region held inside =>
      have owned := (valid.writable_subset held).trans (valid.bytes_owned held)
      exact viaFrames (eqOn_compl_mono inside owned) (inUsable _)

end Calls

/-! ## Steps -/

namespace System

variable {usable bitmapFrames managed : Set Nat} {root : Nat} {reserved : Set Word}
  {trampoline : Word} {s s' : System} {waiting : List Word}

/-- The invariant of a run: that of the memory and that of the scheduler. -/
structure Valid (usable bitmapFrames managed : Set Nat) (root : Nat) (reserved : Set Word)
    (trampoline : Word) (s : System) (waiting : List Word) : Prop where
  tasks : s.tasks.Valid usable bitmapFrames managed root reserved
  machine : s.machine.Valid reserved trampoline waiting

theorem yield_live (c : Sched.Config) (m' : Memory) : (c.yield m').state.live = c.state.live := by
  simp only [Sched.Config.yield, schedYield]
  split <;> rfl

/-- A step of the scheduler that writes to its own blocks and to the reserved memory. -/
theorem resume_valid (valid : s.tasks.Valid usable bitmapFrames managed root reserved)
    {machine : Machine} (live : machine.config.state.live = s.tasks.live)
    (inside : Set.EqOn machine.mem s.mem (reserved ∪ bytesOf s.tasks.live)ᶜ) :
    (s.resume machine).tasks.Valid usable bitmapFrames managed root reserved := by
  rw [resume, live]
  exact (valid.store inside).statics _ _

theorem create_tasks {tasks' : Tasks} (valid : tasks'.Valid usable bitmapFrames managed root reserved)
    (entry t : Word) : ({ s with tasks := tasks' }.resume (s.machine.create entry t tasks'.state)).tasks.Valid
      usable bitmapFrames managed root reserved := by
  have state : (s.machine.create entry t tasks'.state).config.state = tasks'.state := by
    rw [Machine.create]
    split <;> rfl
  refine resume_valid (s := { s with tasks := tasks' }) valid ?_ ?_
  · rw [state]
    rfl
  · rw [Machine.mem, state]
    exact Set.eqOn_refl _ _

namespace Valid

variable (valid : s.Valid usable bitmapFrames managed root reserved trampoline waiting)

include valid

theorem task_live {t : Word} (member : t ∈ s.created) : span t 32 ⊆ reserved ∪ bytesOf s.tasks.live :=
  (valid.machine.config.queue.task_subset member).trans Set.subset_union_right

theorem switch_tasks {old new : Word} (returnAddress : Word)
    (switched : (schedYield s.tasks.state).2 = some (old, new)) (room : s.machine.HasRoom) :
    (s.resume (s.machine.switch returnAddress old new)).tasks.Valid usable bitmapFrames managed root
      reserved := by
  refine resume_valid valid.tasks (yield_live ..) ?_
  rw [switch_mem]
  cases waiting with
  | nil =>
      have unswitched : schedYield s.tasks.state = (s.tasks.state, none) :=
        valid.machine.config.queue.yield_alone
      rw [unswitched] at switched
      cases switched
  | cons front rest =>
      have yielded := valid.machine.config.queue.yield.1
      have arguments : old = s.machine.current := by
        rw [show schedYield s.tasks.state = _ from yielded, Option.some.injEq, Prod.mk.injEq] at switched
        exact switched.1.symm
      subst arguments
      have currentTask : s.tasks.current ∈ s.created := valid.machine.config.queue.current_created
      have frontTask : front ∈ s.created := valid.machine.config.queue.everyone.mem_iff.mp (by simp)
      have field : ∀ t : Word, span t 8 ⊆ span t 32 := fun t => span_mono (by decide)
      have stateField : ∀ t : Word, span (t + 20) 4 ⊆ span t 32 := fun t => span_subset (by bv_omega)
      refine eqOn_compl_mono (eqOn_compl_trans valid.machine.yield_frame
        (Sched.Machine.Valid.switch_frame room returnAddress new)) ?_
      refine Set.union_subset (Set.union_subset ?_ ?_) (Set.union_subset ?_ ?_)
      · exact (stateField _).trans (valid.task_live currentTask)
      · exact (stateField _).trans (valid.task_live frontTask)
      · exact valid.machine.owned _ currentTask
      · exact (field _).trans (valid.task_live currentTask)

theorem alone_tasks (noSwitch : (schedYield s.tasks.state).2 = none) :
    (s.resume { s.machine with
      config := s.machine.config.yield (schedYield s.tasks.state).1.mem }).tasks.Valid
        usable bitmapFrames managed root reserved := by
  refine resume_valid valid.tasks (yield_live ..) ?_
  cases waiting with
  | nil =>
      have unswitched : schedYield s.tasks.state = (s.tasks.state, none) :=
        valid.machine.config.queue.yield_alone
      rw [unswitched]
      exact Set.eqOn_refl _ _
  | cons front rest =>
      have yielded := valid.machine.config.queue.yield.1
      rw [show schedYield s.tasks.state = _ from yielded] at noSwitch
      cases noSwitch

/-- A call of the memory managers leaves alone what the running task may not write. -/
theorem call_spares {actor : Actor} {kernel' : Config}
    (called : Kernel.Step actor s.tasks.kernel kernel') (permitted : s.Permitted actor kernel') :
    Set.EqOn kernel'.mem s.mem s.machine.offLimits := by
  obtain ⟨free, shape, kernel⟩ := valid.tasks.kernel
  have currentTask : s.tasks.current ∈ s.created := valid.machine.config.queue.current_created
  have spared {addresses : Set Word} (apart : Disjoint (s.machine.stackBytes s.tasks.current) addresses)
      (within : addresses ⊆ reserved ∪ bytesOf s.tasks.live) : Set.EqOn kernel'.mem s.mem addresses := by
    intro address inside
    cases within inside with
    | inl inReserved =>
        exact kernel.step_usable called (Set.disjoint_left.mp valid.tasks.outside inReserved)
    | inr inLive =>
        obtain ⟨allocation, member, inBlock⟩ := inLive
        obtain ⟨object, isObject, ptr, size⟩ := valid.tasks.held allocation member
        have same : (object.ptr, object.size.toNat) = allocation := Prod.ext ptr size
        have scheduled : s.Scheduled object := by rwa [Scheduled, same]
        have inObject : address ∈ object.bytes := by rwa [Slab.Object.bytes, ptr, size]
        have held : s.tasks.kernel.Has (.object object) := isObject
        refine kernel.kept called held (permitted.kept object isObject scheduled) (fun mayWrite => ?_)
          (kernel.slab.balanced.bytes_subset_extent isObject inObject)
        have ownStack := permitted.own object scheduled mayWrite
        rw [same] at ownStack
        refine Set.disjoint_left.mp apart ?_ inside
        have stack : s.machine.stackOf s.tasks.current = allocation := ownStack.symm
        rw [Machine.stackBytes, stack]
        exact inBlock
  rintro address (⟨t, member, inTask⟩ | ⟨t, member, other, inStack⟩)
  · exact spared (valid.machine.tasksApart _ currentTask t member) (valid.task_live member) inTask
  · exact spared (valid.machine.stacksApart _ currentTask t member (Ne.symm other))
      (valid.machine.owned t member) inStack

theorem call_tasks {actor : Actor} {kernel' : Config}
    (called : Kernel.Step actor s.tasks.kernel kernel') (permitted : s.Permitted actor kernel') :
    ({ s.tasks with kernel := kernel' } : Tasks).Valid usable bitmapFrames managed root reserved where
  kernel := by
    obtain ⟨free, shape, kernel⟩ := valid.tasks.kernel
    exact kernel.step called
  outside := by
    dsimp only
    rw [called.hhdm]
    exact valid.tasks.outside
  held := by
    intro allocation member
    obtain ⟨object, isObject, ptr, size⟩ := valid.tasks.held allocation member
    have same : (object.ptr, object.size.toNat) = allocation := Prod.ext ptr size
    have scheduled : s.Scheduled object := by rwa [Scheduled, same]
    exact ⟨object, permitted.kept object isObject scheduled, ptr, size⟩

theorem outside_tasks {m' : Memory}
    (spared : Set.EqOn m' s.mem (frameBytes s.tasks.kernel.hhdm usable ∪ s.machine.offLimits)) :
    (s.tasks.store m').Valid usable bitmapFrames managed root reserved where
  kernel := by
    obtain ⟨free, shape, kernel⟩ := valid.tasks.kernel
    refine ⟨free, shape, kernel.store (spared.mono fun address inside => .inl ?_)⟩
    exact not_not.mp fun outside => inside (.inr outside)
  outside := valid.tasks.outside
  held := valid.tasks.held

/-- Every step of the kernel is a step of the scheduler's machine, over some heap that keeps the
rules of an allocator. -/
theorem step_simulated (stepped : Step usable trampoline s s') :
    Machine.Step reserved trampoline s.machine s'.machine ∧
      s'.tasks.Valid usable bitmapFrames managed root reserved := by
  cases stepped with
  | create entry returned =>
      obtain ⟨_, _, made⟩ := valid.tasks.taskCreate valid.machine.config.queue trampoline entry
      have same := made.returned.symm.trans returned
      rw [Option.some.injEq, Prod.mk.injEq] at same
      obtain ⟨rfl, rfl⟩ := same
      obtain ⟨heap, simulated⟩ := made.simulated
      rw [machine_resume]
      exact ⟨.create heap entry simulated, create_tasks made.valid entry _⟩
  | alone noSwitch =>
      refine ⟨?_, valid.alone_tasks noSwitch⟩
      rw [machine_resume]
      rw [← machine_state] at noSwitch ⊢
      exact .alone noSwitch
  | switch returnAddress switched room =>
      refine ⟨?_, valid.switch_tasks returnAddress switched room⟩
      rw [machine_resume]
      rw [← machine_state] at switched
      exact .switch returnAddress switched room
  | call cpu' called permitted =>
      exact ⟨.act cpu' (valid.call_spares called permitted), valid.call_tasks called permitted⟩
  | outside cpu' spared =>
      exact ⟨.act cpu' (spared.mono Set.subset_union_right), valid.outside_tasks spared⟩

theorem step (stepped : Step usable trampoline s s') :
    ∃ waiting', s'.Valid usable bitmapFrames managed root reserved trampoline waiting' := by
  obtain ⟨simulated, tasks⟩ := valid.step_simulated stepped
  obtain ⟨waiting', machine⟩ := valid.machine.step simulated
  exact ⟨waiting', tasks, machine⟩

end Valid

/-! ## From the inits on -/

theorem boot_valid {free : Set Nat} {shape : Slab.Shape} {c : Config} {tasks : Tasks}
    {bootStack : Allocation} (valid : Kernel.Valid usable bitmapFrames free managed root shape c)
    (outside : Disjoint (span bootStack.1 bootStack.2) (frameBytes c.hhdm usable))
    (returned : schedInit c = some tasks) (succeeded : tasks.current ≠ 0) (cpu : Arch.Cpu)
    (trampoline : Word) :
    ∃ heap, (boot bootStack cpu tasks).machine = Machine.boot bootStack heap cpu c.mem ∧
      (boot bootStack cpu tasks).Valid usable bitmapFrames managed root
        (span bootStack.1 bootStack.2) trampoline [] := by
  obtain ⟨tasksValid, heap, simulated⟩ := schedInit_simulated valid outside returned succeeded
  have current : (Sched.schedInit heap c.mem).current = tasks.current :=
    congrArg Sched.State.current simulated
  have same : (boot bootStack cpu tasks).machine = Machine.boot bootStack heap cpu c.mem := by
    rw [machine, Machine.boot, Sched.Config.boot, current, simulated]
    rfl
  refine ⟨heap, same, tasksValid, ?_⟩
  rw [same]
  exact Machine.boot_valid trampoline (by rwa [current])

end System

end ScrapOS.Kernel
