import ScrapOS.Sched.Basic

/-! What the two operations of the scheduler do, said once: which words they
write, and what they leave alone. -/

set_option autoImplicit false

namespace ScrapOS.Sched

/-! ## Fields and frames -/

namespace Task

variable {m m' : Memory} {t value : Word}

/-- The bytes of a `struct task` other than its saved stack pointer. -/
def bookkeeping (t : Word) : Set Word := span (t + 8) 24

theorem rsp_congr (agree : Set.EqOn m' m (span t 8)) : rsp m' t = rsp m t :=
  Memory.load64_congr agree

theorem stackBase_congr (agree : Set.EqOn m' m (span (t + 8) 8)) :
    stackBase m' t = stackBase m t := Memory.load64_congr agree

theorem id_congr (agree : Set.EqOn m' m (span (t + 16) 4)) : id m' t = id m t :=
  Memory.load32_congr agree

theorem state_congr (agree : Set.EqOn m' m (span (t + 20) 4)) : state m' t = state m t :=
  Memory.load32_congr agree

theorem next_congr (agree : Set.EqOn m' m (span (t + 24) 8)) : next m' t = next m t :=
  Memory.load64_congr agree

theorem bookkeeping_subset : bookkeeping t ⊆ span t 32 := span_subset (by bv_omega)

theorem bookkeeping_id : span (t + 16) 4 ⊆ bookkeeping t := span_subset (by bv_omega)

theorem bookkeeping_state : span (t + 20) 4 ⊆ bookkeeping t := span_subset (by bv_omega)

theorem bookkeeping_next : span (t + 24) 8 ⊆ bookkeeping t := span_subset (by bv_omega)

theorem setRsp_frame (m : Memory) (t value : Word) :
    Set.EqOn (setRsp m t value) m (span t 8)ᶜ := Memory.store64_eqOn_compl ..

theorem setStackBase_frame (m : Memory) (t value : Word) :
    Set.EqOn (setStackBase m t value) m (span (t + 8) 8)ᶜ := Memory.store64_eqOn_compl ..

theorem setId_frame (m : Memory) (t : Word) (value : BitVec 32) :
    Set.EqOn (setId m t value) m (span (t + 16) 4)ᶜ := Memory.store32_eqOn_compl ..

theorem setState_frame (m : Memory) (t : Word) (value : TaskState) :
    Set.EqOn (setState m t value) m (span (t + 20) 4)ᶜ := Memory.store32_eqOn_compl ..

theorem setNext_frame (m : Memory) (t value : Word) :
    Set.EqOn (setNext m t value) m (span (t + 24) 8)ᶜ := Memory.store64_eqOn_compl ..

/-- The fields of a task that a write leaves alone. -/
theorem next_of_state_frame (frame : Set.EqOn m' m (span (t + 20) 4)ᶜ) : next m' t = next m t :=
  next_congr (frame.mono (span_disjoint (by bv_omega) (by bv_omega)).subset_compl_left)

theorem id_of_state_frame (frame : Set.EqOn m' m (span (t + 20) 4)ᶜ) : id m' t = id m t :=
  id_congr (frame.mono (span_disjoint (by bv_omega) (by bv_omega)).subset_compl_left)

theorem id_of_next_frame (frame : Set.EqOn m' m (span (t + 24) 8)ᶜ) : id m' t = id m t :=
  id_congr (frame.mono (span_disjoint (by bv_omega) (by bv_omega)).subset_compl_left)

theorem state_of_next_frame (frame : Set.EqOn m' m (span (t + 24) 8)ᶜ) : state m' t = state m t :=
  state_congr (frame.mono (span_disjoint (by bv_omega) (by bv_omega)).subset_compl_left)

section Other

variable {t' : Word} (m : Memory) (value : TaskState)
  (apart : t ≠ t' → Disjoint (span t 32) (span t' 32))

include apart

private theorem other_frame (different : t ≠ t') : Set.EqOn (setState m t' value) m (span t 32) :=
  (setState_frame ..).mono
    ((apart different).mono_right (span_subset (by bv_omega))).subset_compl_right

theorem next_setState : next (setState m t' value) t = next m t := by
  by_cases same : t = t'
  · exact same ▸ next_of_state_frame (setState_frame ..)
  · exact next_congr ((other_frame m value apart same).mono (span_subset (by bv_omega)))

theorem id_setState : id (setState m t' value) t = id m t := by
  by_cases same : t = t'
  · exact same ▸ id_of_state_frame (setState_frame ..)
  · exact id_congr ((other_frame m value apart same).mono (span_subset (by bv_omega)))

theorem state_setState :
    state (setState m t' value) t = if t = t' then value.code else state m t := by
  by_cases same : t = t'
  · rw [if_pos same, same]
    exact Memory.load32_store32 ..
  · rw [if_neg same]
    exact state_congr ((other_frame m value apart same).mono (span_subset (by bv_omega)))

end Other

/-- The fields that `task_create` and `sched_init` fill in before the link. -/
def fill (m : Memory) (t sp stack : Word) (number : BitVec 32) (value : TaskState) : Memory :=
  setState (setId (setStackBase (setRsp m t sp) t stack) t number) t value

section Fill

variable (m : Memory) (t sp stack : Word) (number : BitVec 32) (value : TaskState)

theorem fill_frame : Set.EqOn (fill m t sp stack number value) m (span t 24)ᶜ := by
  have rspFrame : Set.EqOn (setRsp m t sp) m (span t 24)ᶜ :=
    eqOn_compl_mono (setRsp_frame ..) (span_mono (by decide))
  have stackFrame : Set.EqOn (setStackBase (setRsp m t sp) t stack) (setRsp m t sp) (span t 24)ᶜ :=
    eqOn_compl_mono (setStackBase_frame ..) (span_subset (by bv_omega))
  have idFrame : Set.EqOn (setId (setStackBase (setRsp m t sp) t stack) t number)
      (setStackBase (setRsp m t sp) t stack) (span t 24)ᶜ :=
    eqOn_compl_mono (setId_frame ..) (span_subset (by bv_omega))
  have stateFrame : Set.EqOn (fill m t sp stack number value)
      (setId (setStackBase (setRsp m t sp) t stack) t number) (span t 24)ᶜ :=
    eqOn_compl_mono (setState_frame ..) (span_subset (by bv_omega))
  exact stateFrame.trans (idFrame.trans (stackFrame.trans rspFrame))

theorem state_fill : state (fill m t sp stack number value) t = value.code :=
  Memory.load32_store32 ..

theorem id_fill : id (fill m t sp stack number value) t = number := by
  rw [fill, id_of_state_frame (setState_frame ..)]
  exact Memory.load32_store32 ..

theorem stackBase_fill : stackBase (fill m t sp stack number value) t = stack := by
  have stateApart : Disjoint (span (t + 8) 8) (span (t + 20) 4) :=
    span_disjoint (by bv_omega) (by bv_omega)
  have idApart : Disjoint (span (t + 8) 8) (span (t + 16) 4) :=
    span_disjoint (by bv_omega) (by bv_omega)
  rw [fill, stackBase_congr ((setState_frame ..).mono stateApart.subset_compl_right),
    stackBase_congr ((setId_frame ..).mono idApart.subset_compl_right)]
  exact Memory.load64_store64 ..

theorem rsp_fill : rsp (fill m t sp stack number value) t = sp := by
  have stateApart : Disjoint (span t 8) (span (t + 20) 4) :=
    span_disjoint (by bv_omega) (by bv_omega)
  have idApart : Disjoint (span t 8) (span (t + 16) 4) :=
    span_disjoint (by bv_omega) (by bv_omega)
  have stackApart : Disjoint (span t 8) (span (t + 8) 8) :=
    span_disjoint (by bv_omega) (by bv_omega)
  rw [fill, rsp_congr ((setState_frame ..).mono stateApart.subset_compl_right),
    rsp_congr ((setId_frame ..).mono idApart.subset_compl_right),
    rsp_congr ((setStackBase_frame ..).mono stackApart.subset_compl_right)]
  exact Memory.load64_store64 ..

end Fill

end Task

/-! ## Live blocks -/

theorem span_subset_bytesOf {live : List Allocation} {t : Word} {size : Nat}
    (member : (t, size) ∈ live) : span t size ⊆ bytesOf live :=
  fun _ inside => ⟨(t, size), member, inside⟩

theorem bytesOf_cons (t : Word) (size : Nat) (live : List Allocation) :
    bytesOf ((t, size) :: live) = span t size ∪ bytesOf live := by
  ext address
  simp [bytesOf]

/-! ## The run queue -/

/-- The tasks of `created`, in order of creation, form one ring that starts at
`current` and goes on with `waiting`. -/
structure RunQueue (s : State) (created waiting : List Word) : Prop where
  ring : Ring (Task.next s.mem) (s.current :: waiting)
  everyone : (s.current :: waiting).Perm created
  allocated : ∀ t ∈ created, (t, 32) ∈ s.live
  apart : created.Pairwise fun t t' => Disjoint (span t 32) (span t' 32)
  states : ∀ t ∈ created,
    Task.state s.mem t = (if t = s.current then TaskState.running else .ready).code
  ids : ∀ i t, created[i]? = some t → Task.id s.mem t = BitVec.ofNat 32 i
  nextId : s.nextId = BitVec.ofNat 32 created.length

namespace RunQueue

variable {s : State} {created waiting : List Word}

theorem created_nodup (queue : RunQueue s created waiting) : created.Nodup := by
  refine queue.apart.imp fun {t t'} disjoint same => ?_
  subst same
  have inside : t ∈ span t 32 := base_mem_span (by decide)
  exact Set.disjoint_left.mp disjoint inside inside

theorem nodup (queue : RunQueue s created waiting) : (s.current :: waiting).Nodup :=
  queue.everyone.nodup_iff.mpr queue.created_nodup

theorem current_created (queue : RunQueue s created waiting) : s.current ∈ created :=
  queue.everyone.mem_iff.mp List.mem_cons_self

theorem disjoint (queue : RunQueue s created waiting) {t t' : Word} (member : t ∈ created)
    (member' : t' ∈ created) (different : t ≠ t') : Disjoint (span t 32) (span t' 32) := by
  have symmetric : Std.Symm fun t t' : Word => Disjoint (span t 32) (span t' 32) :=
    ⟨fun _ _ disjoint => disjoint.symm⟩
  exact queue.apart.forall member member' different

theorem task_subset (queue : RunQueue s created waiting) {t : Word} (member : t ∈ created) :
    span t 32 ⊆ bytesOf s.live := span_subset_bytesOf (queue.allocated t member)

theorem last_created (queue : RunQueue s created waiting) {before : List Word} {last : Word}
    (shape : s.current :: waiting = before ++ [last]) : last ∈ created :=
  queue.everyone.mem_iff.mp (shape ▸ List.mem_append_right _ (List.mem_singleton_self last))

/-- The queue depends on the bookkeeping words of its tasks only. -/
theorem congr {m' : Memory} (queue : RunQueue s created waiting)
    (agree : ∀ t ∈ created, Set.EqOn m' s.mem (Task.bookkeeping t)) :
    RunQueue { s with mem := m' } created waiting where
  ring := queue.ring.congr fun t member =>
    Task.next_congr ((agree t (queue.everyone.mem_iff.mp member)).mono Task.bookkeeping_next)
  everyone := queue.everyone
  allocated := queue.allocated
  apart := queue.apart
  states := fun t member => by
    rw [← queue.states t member]
    exact Task.state_congr ((agree t member).mono Task.bookkeeping_state)
  ids := fun i t found => by
    rw [← queue.ids i t found]
    exact Task.id_congr ((agree t (List.mem_of_getElem? found)).mono Task.bookkeeping_id)
  nextId := queue.nextId

end RunQueue

/-! ## `task_create` -/

/-- What a successful `task_create` leaves behind: a new task `t` on the stack
`stack`, spliced in behind `last`. -/
structure Created (reserved : Set Word) (s s' : State) (trampoline entry t stack last : Word) :
    Prop where
  nonnull : t ≠ 0
  current : s'.current = s.current
  nextId : s'.nextId = s.nextId + 1
  live : s'.live = (stack, 16384) :: (t, 32) :: s.live
  fresh : Disjoint (span t 32) (reserved ∪ bytesOf s.live)
  stackFresh : Disjoint (span stack 16384) (reserved ∪ bytesOf ((t, 32) :: s.live))
  rsp : Task.rsp s'.mem t = stackTop stack - 64
  stackBase : Task.stackBase s'.mem t = stack
  id : Task.id s'.mem t = s.nextId
  state : Task.state s'.mem t = TaskState.ready.code
  next : Task.next s'.mem t = s.current
  lastNext : Task.next s'.mem last = t
  forged : WordsAt s'.mem (stackTop stack - 64) (forgedWords trampoline entry).reverse
  frame : Set.EqOn s'.mem s.mem ((reserved ∪ bytesOf s.live) \ span (last + 24) 8)

/-- What a failed `task_create` leaves behind. -/
structure Refused (reserved : Set Word) (s s' : State) : Prop where
  current : s'.current = s.current
  nextId : s'.nextId = s.nextId
  live : s'.live = s.live
  frame : Set.EqOn s'.mem s.mem (reserved ∪ bytesOf s.live)

theorem stackTop_toNat (stack : Word) :
    (stackTop stack).toNat = (stack + kernelStackSize).toNat / 16 * 16 :=
  and_not_low _ 4 (by decide)

/-- The forged words fit between the base of the stack and its rounded top. -/
theorem forged_subset (stack : Word) :
    span (stackTop stack - 64) 64 ⊆ span stack 16384 := by
  have rounded := stackTop_toNat stack
  unfold kernelStackSize at rounded
  refine span_subset ?_
  bv_omega

section Create

variable {reserved : Set Word} {s : State} {created waiting : List Word}

/-- The memory of a successful `task_create` before the new task is linked. -/
def forgedMemory (m : Memory) (trampoline entry t stack : Word) (number : BitVec 32) : Memory :=
  Task.fill (pushWords (stackTop stack) m (forgedWords trampoline entry)).2 t (stackTop stack - 64)
    stack number .ready

theorem forgedMemory_frame (m : Memory) (trampoline entry t stack : Word) (number : BitVec 32) :
    Set.EqOn (forgedMemory m trampoline entry t stack number) m (span stack 16384 ∪ span t 24)ᶜ := by
  have pushed : Set.EqOn (pushWords (stackTop stack) m (forgedWords trampoline entry)).2 m
      (span stack 16384)ᶜ :=
    eqOn_compl_mono (pushWords_frame _ _ _ (by simp [forgedWords])) (forged_subset stack)
  exact eqOn_compl_trans pushed (Task.fill_frame ..)

theorem forgedMemory_words (m : Memory) (trampoline entry : Word) {t stack : Word}
    (number : BitVec 32) (apart : Disjoint (span stack 16384) (span t 32)) :
    WordsAt (forgedMemory m trampoline entry t stack number) (stackTop stack - 64)
      (forgedWords trampoline entry).reverse := by
  have standing : WordsAt m (stackTop stack) [] := trivial
  have pushed := standing.pushWords (forgedWords trampoline entry) (by simp [forgedWords])
  rw [pushWords_sp, List.append_nil] at pushed
  have outside : span (stackTop stack - 64) 64 ⊆ (span t 24)ᶜ :=
    (apart.mono (forged_subset stack) (span_mono (by decide))).subset_compl_right
  exact pushed.congr (by simp [forgedWords]) ((Task.fill_frame ..).mono outside)

/-- What a call of `kmalloc` leaves behind when it returns `p`. -/
structure Served (reserved : Set Word) (s s' : State) (p : Word) (size : Nat) : Prop where
  current : s'.current = s.current
  nextId : s'.nextId = s.nextId
  live : s'.live = if p = 0 then s.live else (p, size) :: s.live
  fresh : p ≠ 0 → Disjoint (span p size) (reserved ∪ bytesOf s.live)
  frame : Set.EqOn s'.mem s.mem (reserved ∪ bytesOf s.live)

theorem kmalloc_served (s : State) (heap : Heap reserved) (size : Word) :
    Served reserved s (s.kmalloc heap size).2 (s.kmalloc heap size).1 size.toNat :=
  ⟨rfl, rfl, rfl, heap.kmalloc_fresh _ _ _, heap.kmalloc_frame _ _ _⟩

/-- Before the link is made the ring is as it was, so the walk ends at its last task. -/
theorem walk_tail (queue : RunQueue s created waiting) {m : Memory}
    (unlinked : Set.EqOn m s.mem (bytesOf s.live)) {before : List Word} {last : Word}
    (shape : s.current :: waiting = before ++ [last]) :
    walk (Task.next m) (fun tail => Task.next m tail == s.current) s.current = some last := by
  refine Ring.walk_last (queue.ring.congr fun t member => ?_) shape queue.nodup
  have isTask := queue.everyone.mem_iff.mp member
  exact Task.next_congr (unlinked.mono
    (Task.bookkeeping_next.trans (Task.bookkeeping_subset.trans (queue.task_subset isTask))))

/-- The two link writes change the fields of the new task only in its link. -/
theorem splice_fields {m : Memory} {t last : Word} (apart : Disjoint (span t 32) (span last 32))
    (target : Word) :
    Set.EqOn (Task.setNext (Task.setNext m last t) t target) m (span t 24) ∧
      Task.next (Task.setNext (Task.setNext m last t) t target) t = target ∧
      Task.next (Task.setNext (Task.setNext m last t) t target) last = t ∧
      Set.EqOn (Task.setNext (Task.setNext m last t) t target) m
        (span (last + 24) 8 ∪ span (t + 24) 8)ᶜ := by
  have lastLink : span (last + 24) 8 ⊆ span last 32 := span_subset (by bv_omega)
  have ownLink : span (t + 24) 8 ⊆ span t 32 := span_subset (by bv_omega)
  have fields : span t 24 ⊆ span t 32 := span_mono (by decide)
  have frame : Set.EqOn (Task.setNext (Task.setNext m last t) t target) m
      (span (last + 24) 8 ∪ span (t + 24) 8)ᶜ :=
    eqOn_compl_trans (Task.setNext_frame ..) (Task.setNext_frame ..)
  refine ⟨frame.mono ?_, Memory.load64_store64 .., ?_, frame⟩
  · have notOwn : Disjoint (span t 24) (span (t + 24) 8) :=
      span_disjoint (by bv_omega) (by bv_omega)
    exact (Disjoint.union_right (apart.mono fields lastLink) notOwn).subset_compl_right
  · rw [Task.next_congr ((Task.setNext_frame ..).mono
      (apart.symm.mono lastLink ownLink).subset_compl_right)]
    exact Memory.load64_store64 ..

/-- Both allocations of `task_create` have been served. -/
structure Allocated (reserved : Set Word) (s s₂ : State) (t stack : Word) : Prop where
  nonnull : t ≠ 0
  current : s₂.current = s.current
  nextId : s₂.nextId = s.nextId
  live : s₂.live = (stack, 16384) :: (t, 32) :: s.live
  fresh : Disjoint (span t 32) (reserved ∪ bytesOf s.live)
  stackFresh : Disjoint (span stack 16384) (reserved ∪ bytesOf ((t, 32) :: s.live))
  frame : Set.EqOn s₂.mem s.mem (reserved ∪ bytesOf s.live)

namespace Allocated

variable {s₂ : State} {t stack : Word}

theorem stackApart (allocated : Allocated reserved s s₂ t stack) :
    Disjoint (span stack 16384) (span t 32) := by
  apply allocated.stackFresh.mono_right
  rw [bytesOf_cons]
  exact fun _ inside => .inr (.inl inside)

theorem unlinked (allocated : Allocated reserved s s₂ t stack) (trampoline entry : Word) :
    Set.EqOn (forgedMemory s₂.mem trampoline entry t stack s₂.nextId) s.mem
      (reserved ∪ bytesOf s.live) := by
  refine ((forgedMemory_frame ..).mono ?_).trans allocated.frame
  intro address inside written
  have stackFresh := allocated.stackFresh
  rw [bytesOf_cons] at stackFresh
  cases written with
  | inl inStack =>
    exact Set.disjoint_left.mp stackFresh inStack (inside.imp_right .inr)
  | inr inTask =>
    exact Set.disjoint_left.mp allocated.fresh (span_mono (by decide) inTask) inside

theorem linked (allocated : Allocated reserved s s₂ t stack) (queue : RunQueue s created waiting)
    {before : List Word} {last : Word} (shape : s.current :: waiting = before ++ [last])
    (trampoline entry : Word) :
    Created reserved s
      { s₂ with
        mem := Task.setNext (Task.setNext (forgedMemory s₂.mem trampoline entry t stack s₂.nextId)
          last t) t s.current
        nextId := s₂.nextId + 1 } trampoline entry t stack last := by
  have fresh := allocated.fresh
  have unlinked := allocated.unlinked trampoline entry
  have lastTask := queue.last_created shape
  have lastApart : Disjoint (span t 32) (span last 32) :=
    fresh.mono_right ((queue.task_subset lastTask).trans Set.subset_union_right)
  obtain ⟨fields, ownNext, lastNext, frame⟩ := splice_fields
    (m := forgedMemory s₂.mem trampoline entry t stack s₂.nextId) lastApart s.current
  have linkApart : Disjoint (span stack 16384) (span (last + 24) 8 ∪ span (t + 24) 8) := by
    refine Disjoint.union_right ?_ (allocated.stackApart.mono_right (span_subset (by bv_omega)))
    refine allocated.stackFresh.mono_right fun address inside => .inr ?_
    rw [bytesOf_cons]
    exact .inr (queue.task_subset lastTask (span_subset (by bv_omega) inside))
  constructor
  case nonnull => exact allocated.nonnull
  case current => exact allocated.current
  case nextId => exact congrArg (· + 1) allocated.nextId
  case live => exact allocated.live
  case fresh => exact fresh
  case stackFresh => exact allocated.stackFresh
  case rsp =>
    rw [Task.rsp_congr (fields.mono (span_mono (by decide)))]
    exact Task.rsp_fill ..
  case stackBase =>
    rw [Task.stackBase_congr (fields.mono (span_subset (by bv_omega)))]
    exact Task.stackBase_fill ..
  case id =>
    rw [Task.id_congr (fields.mono (span_subset (by bv_omega))), ← allocated.nextId]
    exact Task.id_fill ..
  case state =>
    rw [Task.state_congr (fields.mono (span_subset (by bv_omega)))]
    exact Task.state_fill ..
  case next => exact ownNext
  case lastNext => exact lastNext
  case forged =>
    have words := forgedMemory_words s₂.mem trampoline entry s₂.nextId allocated.stackApart
    refine words.congr (by simp [forgedWords]) (frame.mono ?_)
    exact (linkApart.mono_left (forged_subset stack)).subset_compl_right
  case frame =>
    refine Set.EqOn.trans (frame.mono ?_) (unlinked.mono Set.sdiff_subset)
    intro address member written
    cases written with
    | inl inLast => exact member.2 inLast
    | inr inOwn => exact Set.disjoint_left.mp fresh (span_subset (by bv_omega) inOwn) member.1

end Allocated

theorem taskCreate_cases (queue : RunQueue s created waiting) (heap : Heap reserved)
    (trampoline entry : Word) {before : List Word} {last : Word}
    (shape : s.current :: waiting = before ++ [last]) :
    (∃ s', taskCreate heap trampoline entry s = some (0, s') ∧ Refused reserved s s') ∨
    ∃ t stack s', taskCreate heap trampoline entry s = some (t, s') ∧
      Created reserved s s' trampoline entry t stack last := by
  have first := kmalloc_served s heap sizeofTask
  rw [taskCreate]
  generalize s.kmalloc heap sizeofTask = result at first ⊢
  obtain ⟨t, s₁⟩ := result
  dsimp only at first ⊢
  by_cases noTask : t = 0
  · rw [if_pos noTask]
    refine .inl ⟨_, rfl, first.current, first.nextId, ?_, first.frame⟩
    rw [first.live, if_pos noTask]
  rw [if_neg noTask]
  have live₁ : s₁.live = (t, 32) :: s.live := by
    rw [first.live, if_neg noTask]
    rfl
  have second := kmalloc_served s₁ heap kernelStackSize
  generalize s₁.kmalloc heap kernelStackSize = result at second ⊢
  obtain ⟨stack, s₂⟩ := result
  dsimp only at second ⊢
  have keeps : reserved ∪ bytesOf s.live ⊆ reserved ∪ bytesOf s₁.live := by
    rw [live₁, bytesOf_cons]
    exact Set.union_subset_union_right _ Set.subset_union_right
  have frame₂ : Set.EqOn s₂.mem s.mem (reserved ∪ bytesOf s.live) :=
    (second.frame.mono keeps).trans first.frame
  by_cases noStack : stack = 0
  · rw [if_pos noStack]
    have live₂ : s₂.live = (t, 32) :: s.live := by rw [second.live, if_pos noStack, live₁]
    have freed : s₂.live.eraseP (fun allocation => allocation.1 == t) = s.live := by
      rw [live₂]
      exact List.eraseP_cons_of_pos (beq_self_eq_true t)
    refine .inl ⟨_, rfl, ?_, ?_, freed, ?_⟩
    · exact second.current.trans first.current
    · exact second.nextId.trans first.nextId
    · have frame₃ := heap.kfree_frame s₂.mem (s₂.live.eraseP fun allocation => allocation.1 == t) t
      rw [freed] at frame₃
      rw [State.kfree, freed]
      exact frame₃.trans frame₂
  rw [if_neg noStack]
  have allocated : Allocated reserved s s₂ t stack := by
    constructor
    case nonnull => exact noTask
    case current => exact second.current.trans first.current
    case nextId => exact second.nextId.trans first.nextId
    case live =>
      rw [second.live, if_neg noStack, live₁]
      rfl
    case fresh => exact first.fresh noTask
    case stackFresh =>
      rw [← live₁]
      exact second.fresh noStack
    case frame => exact frame₂
  have unlinked := allocated.unlinked trampoline entry
  have found := walk_tail queue (unlinked.mono Set.subset_union_right) shape
  have folded : Task.setState (Task.setId (Task.setStackBase (Task.setRsp
      (pushWords (stackTop stack) s₂.mem (forgedWords trampoline entry)).2 t
      (pushWords (stackTop stack) s₂.mem (forgedWords trampoline entry)).1) t stack) t
      s₂.nextId) t .ready = forgedMemory s₂.mem trampoline entry t stack s₂.nextId := by
    rw [pushWords_sp]
    rfl
  refine .inr ⟨t, stack, _, ?_, allocated.linked queue shape trampoline entry⟩
  rw [folded, allocated.current, found]

end Create

end ScrapOS.Sched
