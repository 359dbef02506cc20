import ScrapOS.Kernel.Isolation
import ScrapOS.Sched.Transcript

/-! `sched.c` over the heap that it really calls. Each call of its functions is a call of the
scheduler over some heap that keeps the rules of an allocator. -/

set_option autoImplicit false

namespace ScrapOS.Kernel

open Sched (Allocation Granted Heap RunQueue Task.next Task.setRsp Task.setStackBase Task.setId
  Task.setState Task.setNext bytesOf forgedMemory forgedWords kernelStackSize sizeofTask stackTop)

/-! ## The source -/

namespace Config

def kmalloc (c : Config) (size : Word) : Option (Word × Config) :=
  match Slab.kmalloc c.heap size with
  | none => none
  | some (ptr, h') =>
      some (ptr, { c.withHeap h' with objects := c.heap.serve c.objects size ptr })

def kfree (c : Config) (p : Word) : Option Config :=
  match Slab.kfree c.heap p with
  | none => none
  | some h' =>
      some { c.withHeap h' with objects := c.objects.eraseP fun object => object.ptr == p }

def store (c : Config) (m : Memory) : Config := c.withHeap { c.heap with mem := m }

end Config

/-- The statics of `sched.c` over the memory of the kernel, and the blocks that it has from the
heap. -/
structure Tasks where
  kernel : Config
  current : Word
  nextId : BitVec 32
  live : List Allocation

namespace Tasks

/-- The state as the scheduler sees it. -/
def state (s : Tasks) : Sched.State where
  mem := s.kernel.mem
  current := s.current
  nextId := s.nextId
  live := s.live

def store (s : Tasks) (m : Memory) : Tasks := { s with kernel := s.kernel.store m }

def kmalloc (s : Tasks) (size : Word) : Option (Word × Tasks) :=
  match s.kernel.kmalloc size with
  | none => none
  | some (p, kernel) =>
      some (p, { s with kernel, live := if p = 0 then s.live else (p, size.toNat) :: s.live })

def kfree (s : Tasks) (p : Word) : Option Tasks :=
  match s.kernel.kfree p with
  | none => none
  | some kernel =>
      some { s with kernel, live := s.live.eraseP fun allocation => allocation.1 == p }

end Tasks

/-- `sched_init`, with both statics still at their initial values. -/
def schedInit (kernel : Config) : Option Tasks :=
  match Tasks.kmalloc { kernel, current := 0, nextId := 0, live := [] } sizeofTask with
  | none => none
  | some (t, s) =>
      let m := Task.setRsp s.kernel.mem t 0
      let m := Task.setStackBase m t 0
      let m := Task.setId m t s.nextId
      let m := Task.setState m t .running
      let m := Task.setNext m t t
      some { s.store m with current := t, nextId := s.nextId + 1 }

/-- `task_create`; `none` when a call of the heap or the walk to the tail never ends. -/
def taskCreate (trampoline entry : Word) (s : Tasks) : Option (Word × Tasks) :=
  match s.kmalloc sizeofTask with
  | none => none
  | some (t, s) =>
    if t = 0 then some (0, s)
    else
      match s.kmalloc kernelStackSize with
      | none => none
      | some (stack, s) =>
        if stack = 0 then (s.kfree t).map fun s => (0, s)
        else
          let (sp, m) := pushWords (stackTop stack) s.kernel.mem (forgedWords trampoline entry)
          let m := Task.setRsp m t sp
          let m := Task.setStackBase m t stack
          let m := Task.setId m t s.nextId
          let m := Task.setState m t .ready
          match walk (Task.next m) (fun tail => Task.next m tail == s.current) s.current with
          | none => none
          | some tail =>
              let m := Task.setNext m tail t
              let m := Task.setNext m t s.current
              some (t, { s.store m with nextId := s.nextId + 1 })

/-! ## Calls of the heap -/

section Calls

variable {usable bitmapFrames managed : Set Nat} {root : Nat} {reserved : Set Word}

theorem Valid.object_usable {free : Set Nat} {shape : Slab.Shape} {c : Config} {object : Slab.Object}
    (valid : Valid usable bitmapFrames free managed root shape c) (member : object ∈ c.objects) :
    object.bytes ⊆ frameBytes c.hhdm usable := by
  have held : c.Has (.object object) := member
  have owned := valid.bytes_owned held
  exact ((valid.slab.balanced.bytes_subset_extent member).trans owned).trans
    (frameBytes_mono (valid.mm.owned.inside .liveBlock))

/-- The object that was allocated last lies in usable frames, away from the older ones. -/
theorem Valid.first_object {free : Set Nat} {shape : Slab.Shape} {c : Config} {object : Slab.Object}
    {older : List Slab.Object} (valid : Valid usable bitmapFrames free managed root shape c)
    (objects : c.objects = object :: older) :
    object.bytes ⊆ frameBytes c.hhdm usable ∧ Disjoint object.bytes (Slab.liveBytes older) := by
  have first : object ∈ c.objects := objects ▸ List.mem_cons_self
  refine ⟨valid.object_usable first, ?_⟩
  rw [Set.disjoint_right]
  intro address inOlder inFirst
  obtain ⟨other, member, inOther⟩ := inOlder
  have pairwise := valid.slab.balanced.extents_pairwise
  rw [objects] at pairwise
  have apart := (List.pairwise_cons.mp pairwise).1 other member
  have otherMember : other ∈ c.objects := objects ▸ List.mem_cons_of_mem _ member
  exact Set.disjoint_left.mp apart (valid.slab.balanced.bytes_subset_extent first inFirst)
    (valid.slab.balanced.bytes_subset_extent otherMember inOther)

/-- What the scheduler has from the heap are objects of the heap, and the reserved memory lies
outside the usable frames. -/
structure Tasks.Valid (usable bitmapFrames managed : Set Nat) (root : Nat) (reserved : Set Word)
    (s : Tasks) : Prop where
  kernel : ∃ free shape, Kernel.Valid usable bitmapFrames free managed root shape s.kernel
  outside : Disjoint reserved (frameBytes s.kernel.hhdm usable)
  held : ∀ allocation ∈ s.live, ∃ object ∈ s.kernel.objects,
    object.ptr = allocation.1 ∧ object.size.toNat = allocation.2

/-- What a call of `kmalloc` that returned `p` leaves behind. -/
structure Tasks.Served (usable bitmapFrames managed : Set Nat) (root : Nat) (reserved : Set Word)
    (s : Tasks) (size p : Word) (s' : Tasks) : Prop where
  returned : s.kmalloc size = some (p, s')
  valid : s'.Valid usable bitmapFrames managed root reserved
  granted : Granted reserved s.kernel.mem s.live size p s'.kernel.mem
  objects : s'.kernel.objects = s.kernel.heap.serve s.kernel.objects size p
  live : s'.live = if p = 0 then s.live else (p, size.toNat) :: s.live
  current : s'.current = s.current
  nextId : s'.nextId = s.nextId

namespace Tasks.Valid

variable {s s' : Tasks} {size p : Word}

theorem live_subset (valid : s.Valid usable bitmapFrames managed root reserved) :
    bytesOf s.live ⊆ Slab.liveBytes s.kernel.objects := by
  intro address inLive
  obtain ⟨allocation, member, inside⟩ := inLive
  obtain ⟨object, isObject, ptr, size⟩ := valid.held allocation member
  refine ⟨object, isObject, ?_⟩
  rwa [Slab.Object.bytes, ptr, size]

theorem statics (valid : s.Valid usable bitmapFrames managed root reserved) (current : Word)
    (nextId : BitVec 32) :
    ({ s with current, nextId } : Tasks).Valid usable bitmapFrames managed root reserved :=
  ⟨valid.kernel, valid.outside, valid.held⟩

/-- The scheduler writes to its own blocks and to the reserved memory. -/
theorem store (valid : s.Valid usable bitmapFrames managed root reserved) {m' : Memory}
    (inside : Set.EqOn m' s.kernel.mem (reserved ∪ bytesOf s.live)ᶜ) :
    (s.store m').Valid usable bitmapFrames managed root reserved where
  kernel := by
    obtain ⟨free, shape, kernel⟩ := valid.kernel
    refine ⟨free, shape, kernel.store (eqOn_compl_mono inside ?_)⟩
    rw [Set.union_comm]
    exact Set.union_subset_union valid.live_subset valid.outside.subset_compl_right
  outside := valid.outside
  held := valid.held

theorem kmalloc (valid : s.Valid usable bitmapFrames managed root reserved)
    (inRange : size.toNat + 16 ≤ 2 ^ 63) :
    ∃ p s', s.Served usable bitmapFrames managed root reserved size p s' := by
  obtain ⟨free, shape, kernel⟩ := valid.kernel
  obtain ⟨⟨p, h'⟩, returned⟩ := Option.isSome_iff_exists.mp (kernel.isolated.kmalloc size inRange)
  have kernel' := kernel.kmalloc inRange returned
  have managedOnly := kernel.slab.footprint_managed (kernel.slab.kmalloc_footprint returned)
  rw [show s.kernel.heap.slab.gHhdm = s.kernel.hhdm from kernel.heap_hhdm] at managedOnly
  have usableOnly := eqOn_compl_mono managedOnly (frameBytes_mono kernel.mm.managed_usable)
  have kept : Slab.Kept s.kernel.mem h'.mem s.kernel.objects := by
    have allocated := kernel.slab.kmalloc inRange
    rw [returned] at allocated
    cases allocated with
    | returned _ kept => exact kept
  have keptLive : Set.EqOn h'.mem s.kernel.mem (reserved ∪ bytesOf s.live) := by
    rw [Set.eqOn_union]
    refine ⟨usableOnly.mono valid.outside.subset_compl_right, fun address inLive => ?_⟩
    obtain ⟨object, member, inObject⟩ := valid.live_subset inLive
    exact kept object member (kernel.slab.balanced.bytes_subset_extent member inObject)
  have fresh : p ≠ 0 → Disjoint (span p size.toNat) (reserved ∪ bytesOf s.live) := by
    intro nonnull
    obtain ⟨_, _, served⟩ := kernel'
    obtain ⟨inUsable, apart⟩ := served.first_object (if_neg nonnull)
    exact Set.disjoint_union_right.mpr
      ⟨(valid.outside.mono_right inUsable).symm, apart.mono_right valid.live_subset⟩
  refine ⟨p, ⟨{ s.kernel.withHeap h' with objects := s.kernel.heap.serve s.kernel.objects size p },
    s.current, s.nextId, if p = 0 then s.live else (p, size.toNat) :: s.live⟩, ?_⟩
  refine ⟨?_, ⟨kernel', valid.outside, ?_⟩, ⟨keptLive, fresh⟩, rfl, rfl, rfl, rfl⟩
  · simp only [Tasks.kmalloc, Config.kmalloc, returned]
  · intro allocation member
    by_cases null : p = 0
    · simp only [Slab.Heap.serve, null, if_true] at member ⊢
      exact valid.held allocation member
    · simp only [Slab.Heap.serve, null, if_false] at member ⊢
      cases member with
      | head => exact ⟨_, List.mem_cons_self, rfl, rfl⟩
      | tail _ older =>
          obtain ⟨object, isObject, same⟩ := valid.held allocation older
          exact ⟨object, List.mem_cons_of_mem _ isObject, same⟩

/-- The block that was taken last is given back. -/
theorem kfree_first (valid : s.Valid usable bitmapFrames managed root reserved) {t : Word}
    {object : Slab.Object} {older : List Slab.Object} {earlier : List Allocation}
    (objects : s.kernel.objects = object :: older) (ptr : object.ptr = t)
    (live : s.live = (t, object.size.toNat) :: earlier)
    (held : ∀ allocation ∈ earlier, ∃ object ∈ older,
      object.ptr = allocation.1 ∧ object.size.toNat = allocation.2) :
    ∃ s', s.kfree t = some s' ∧ s'.Valid usable bitmapFrames managed root reserved ∧
      s'.state = { s.state with mem := s'.kernel.mem, live := earlier } ∧
      Set.EqOn s'.kernel.mem s.kernel.mem (reserved ∪ bytesOf earlier) := by
  obtain ⟨free, shape, kernel⟩ := valid.kernel
  have member : object ∈ s.kernel.objects := objects ▸ List.mem_cons_self
  obtain ⟨h', shape', returned, -, kept⟩ :=
    Slab.Valid.kfree (c := ⟨s.kernel.heap, s.kernel.objects⟩) kernel.slab member
  have kernel' := kernel.kfree member returned
  have managedOnly := kernel.slab.footprint_managed (kernel.slab.kfree_footprint member returned)
  rw [show s.kernel.heap.slab.gHhdm = s.kernel.hhdm from kernel.heap_hhdm] at managedOnly
  have usableOnly := eqOn_compl_mono managedOnly (frameBytes_mono kernel.mm.managed_usable)
  have left : s.kernel.objects.erase object = older := by rw [objects, List.erase_cons_head]
  have found : s.kernel.objects.eraseP (fun other => other.ptr == t) = older := by
    rw [objects]
    exact List.eraseP_cons_of_pos (by simp [ptr])
  have dropped : s.live.eraseP (fun allocation => allocation.1 == t) = earlier := by
    rw [live]
    exact List.eraseP_cons_of_pos (beq_self_eq_true t)
  rw [left] at kernel' kept
  refine ⟨⟨{ s.kernel.withHeap h' with objects := older }, s.current, s.nextId, earlier⟩, ?_,
    ⟨kernel', valid.outside, held⟩, rfl, ?_⟩
  · rw [← ptr] at found dropped ⊢
    simp only [Tasks.kfree, Config.kfree, returned, found, dropped]
  · rw [Set.eqOn_union]
    refine ⟨usableOnly.mono valid.outside.subset_compl_right, fun address inLive => ?_⟩
    obtain ⟨allocation, isEarlier, inside⟩ := inLive
    obtain ⟨other, isOlder, otherPtr, size⟩ := held allocation isEarlier
    have isObject : other ∈ s.kernel.objects := objects ▸ List.mem_cons_of_mem _ isOlder
    rw [← otherPtr, ← size] at inside
    exact kept other isOlder (kernel.slab.balanced.bytes_subset_extent isObject inside)

end Tasks.Valid

namespace Tasks.Served

variable {s s' : Tasks} {size p : Word}

theorem state_eq (served : s.Served usable bitmapFrames managed root reserved size p s') :
    s'.state = { s.state with
      mem := s'.kernel.mem
      live := if p = 0 then s.live else (p, size.toNat) :: s.live } := by
  simp only [state, served.current, served.nextId, served.live]

/-- A heap that gives the same answer leads the scheduler to the same state. -/
theorem answered (served : s.Served usable bitmapFrames managed root reserved size p s')
    {heap : Heap reserved} (answers : heap.kmalloc s.kernel.mem s.live size = (p, s'.kernel.mem)) :
    s.state.kmalloc heap size = (p, s'.state) := by
  rw [served.state_eq]
  exact Sched.State.kmalloc_answered answers

end Tasks.Served

/-! ## `task_create` -/

/-- A call of `task_create` that returned `t`: over some heap the scheduler does the same. -/
structure TaskCreated (usable bitmapFrames managed : Set Nat) (root : Nat) (reserved : Set Word)
    (trampoline entry : Word) (s : Tasks) (t : Word) (s' : Tasks) : Prop where
  returned : taskCreate trampoline entry s = some (t, s')
  valid : s'.Valid usable bitmapFrames managed root reserved
  simulated : ∃ heap : Heap reserved,
    Sched.taskCreate heap trampoline entry s.state = some (t, s'.state)

namespace Tasks.Valid

variable {s s₁ s₂ : Tasks} {t stack trampoline entry : Word}

theorem create_no_task
    (first : s.Served usable bitmapFrames managed root reserved sizeofTask 0 s₁) :
    TaskCreated usable bitmapFrames managed root reserved trampoline entry s 0 s₁ := by
  refine ⟨?_, first.valid, .answering [⟨_, _, _, _, _, first.granted⟩] [], ?_⟩
  · simp only [taskCreate, first.returned, if_true]
  · rw [Sched.taskCreate, first.answered (Heap.answering_first first.granted)]
    exact if_pos rfl

theorem create_no_stack (valid : s.Valid usable bitmapFrames managed root reserved)
    (first : s.Served usable bitmapFrames managed root reserved sizeofTask t s₁) (nonnull : t ≠ 0)
    (second : s₁.Served usable bitmapFrames managed root reserved kernelStackSize 0 s₂) :
    ∃ s', TaskCreated usable bitmapFrames managed root reserved trampoline entry s 0 s' := by
  have live : s₂.live = (t, sizeofTask.toNat) :: s.live := by
    rw [second.live, if_pos rfl, first.live, if_neg nonnull]
  have objects : s₂.kernel.objects =
      ⟨t, sizeofTask, s.kernel.heap.origin sizeofTask⟩ :: s.kernel.objects := by
    rw [second.objects, Slab.serve_zero, first.objects, Slab.Heap.serve, if_neg nonnull]
  obtain ⟨s', freed, valid', after, frame⟩ :=
    second.valid.kfree_first objects rfl live valid.held
  have left : s₂.live.eraseP (fun allocation => allocation.1 == t) = s.live := by
    rw [live]
    exact List.eraseP_cons_of_pos (beq_self_eq_true t)
  refine ⟨s', ?_, valid', .answering [⟨_, _, _, _, _, first.granted⟩, ⟨_, _, _, _, _, second.granted⟩]
    [⟨_, _, t, _, frame⟩], ?_⟩
  · simp only [taskCreate, first.returned, nonnull, if_false, second.returned, if_true, freed,
      Option.map_some]
  · rw [Sched.taskCreate, first.answered (Heap.answering_first first.granted)]
    dsimp only
    rw [if_neg nonnull, second.answered
      (Heap.answering_second first.granted (by decide) second.granted)]
    dsimp only
    rw [if_pos rfl, Sched.State.kfree_answered left (Heap.answering_release frame), after]

theorem allocated (first : s.Served usable bitmapFrames managed root reserved sizeofTask t s₁)
    (nonnull : t ≠ 0)
    (second : s₁.Served usable bitmapFrames managed root reserved kernelStackSize stack s₂)
    (room : stack ≠ 0) : Sched.Allocated reserved s.state s₂.state t stack := by
  have live₁ : s₁.live = (t, 32) :: s.live := by
    rw [first.live, if_neg nonnull]
    rfl
  have live₂ : s₂.live = (stack, 16384) :: s₁.live := by
    rw [second.live, if_neg room]
    rfl
  have older : reserved ∪ bytesOf s.live ⊆ reserved ∪ bytesOf s₁.live := by
    rw [live₁, Sched.bytesOf_cons]
    exact Set.union_subset_union_right _ Set.subset_union_right
  constructor
  case nonnull => exact nonnull
  case current => exact second.current.trans first.current
  case nextId => exact second.nextId.trans first.nextId
  case live => exact live₂.trans (congrArg _ live₁)
  case fresh => exact first.granted.fresh nonnull
  case stackFresh =>
    have fresh := second.granted.fresh room
    rwa [live₁] at fresh
  case frame => exact (second.granted.frame.mono older).trans first.granted.frame

/-- What `task_create` writes after its allocations. -/
theorem linked_frame {last : Word} (made : Sched.Allocated reserved s.state s₂.state t stack)
    (link : span last 32 ⊆ bytesOf s.live) (trampoline entry target : Word) :
    Set.EqOn (Task.setNext (Task.setNext
        (forgedMemory s₂.kernel.mem trampoline entry t stack s₂.nextId) last t) t target)
      s₂.kernel.mem (reserved ∪ bytesOf s₂.live)ᶜ := by
  have linked := eqOn_compl_trans
    (Sched.Task.setNext_frame (forgedMemory s₂.kernel.mem trampoline entry t stack s₂.nextId) last t)
    (Sched.Task.setNext_frame (Task.setNext
      (forgedMemory s₂.kernel.mem trampoline entry t stack s₂.nextId) last t) t target)
  refine eqOn_compl_mono (eqOn_compl_trans (Sched.forgedMemory_frame ..) linked) ?_
  have live : s₂.live = (stack, 16384) :: (t, 32) :: s.live := made.live
  have lastLink : span (last + 24) 8 ⊆ span last 32 := span_subset (by bv_omega)
  have ownLink : span (t + 24) 8 ⊆ span t 32 := span_subset (by bv_omega)
  have fields : span t 24 ⊆ span t 32 := span_mono (by decide)
  rw [live, Sched.bytesOf_cons, Sched.bytesOf_cons]
  intro address written
  rcases written with (inStack | inFields) | (inLast | inOwn)
  · exact .inr (.inl inStack)
  · exact .inr (.inr (.inl (fields inFields)))
  · exact .inr (.inr (.inr (link (lastLink inLast))))
  · exact .inr (.inr (.inl (ownLink inOwn)))

theorem create_task {created waiting : List Word} (queue : RunQueue s.state created waiting)
    (first : s.Served usable bitmapFrames managed root reserved sizeofTask t s₁) (nonnull : t ≠ 0)
    (second : s₁.Served usable bitmapFrames managed root reserved kernelStackSize stack s₂)
    (room : stack ≠ 0) :
    ∃ s', TaskCreated usable bitmapFrames managed root reserved trampoline entry s t s' := by
  have made := allocated first nonnull second room
  have nonempty : s.state.current :: waiting ≠ [] := List.cons_ne_nil _ _
  obtain ⟨before, last, shape⟩ := (List.eq_nil_or_concat' _).resolve_left nonempty
  have found := Sched.walk_tail queue
    ((made.unlinked trampoline entry).mono Set.subset_union_right) shape
  have link := queue.task_subset (queue.last_created shape)
  rw [← made.current] at found
  have folded : Task.setState (Task.setId (Task.setStackBase (Task.setRsp
      (pushWords (stackTop stack) s₂.state.mem (forgedWords trampoline entry)).2 t
      (pushWords (stackTop stack) s₂.state.mem (forgedWords trampoline entry)).1) t stack) t
      s₂.state.nextId) t .ready =
        forgedMemory s₂.state.mem trampoline entry t stack s₂.state.nextId := by
    rw [pushWords_sp]
    rfl
  refine ⟨{ s₂.store (Task.setNext (Task.setNext
      (forgedMemory s₂.kernel.mem trampoline entry t stack s₂.nextId) last t) t s₂.current) with
        nextId := s₂.nextId + 1 }, ?_,
    (second.valid.store (linked_frame made link trampoline entry s₂.current)).statics _ _,
    .answering [⟨_, _, _, _, _, first.granted⟩, ⟨_, _, _, _, _, second.granted⟩] [], ?_⟩
  · simp only [Kernel.taskCreate, first.returned, nonnull, if_false, second.returned, room]
    simp only [Tasks.state] at found folded
    rw [folded, found]
  · rw [Sched.taskCreate, first.answered (Heap.answering_first first.granted)]
    dsimp only
    rw [if_neg nonnull, second.answered
      (Heap.answering_second first.granted (by decide) second.granted)]
    dsimp only
    rw [if_neg room, folded, found]
    rfl

/-- Every call of `task_create` returns, and the scheduler does the same over some heap. -/
theorem taskCreate (valid : s.Valid usable bitmapFrames managed root reserved)
    {created waiting : List Word} (queue : RunQueue s.state created waiting)
    (trampoline entry : Word) :
    ∃ t s', TaskCreated usable bitmapFrames managed root reserved trampoline entry s t s' := by
  obtain ⟨t, s₁, first⟩ := valid.kmalloc (by decide : sizeofTask.toNat + 16 ≤ 2 ^ 63)
  by_cases noTask : t = 0
  · subst noTask
    exact ⟨0, s₁, create_no_task first⟩
  obtain ⟨stack, s₂, second⟩ :=
    first.valid.kmalloc (by decide : kernelStackSize.toNat + 16 ≤ 2 ^ 63)
  by_cases noStack : stack = 0
  · subst noStack
    exact ⟨0, valid.create_no_stack first noTask second⟩
  exact ⟨t, create_task queue first noTask second noStack⟩

end Tasks.Valid

/-! ## `sched_init` -/

/-- A successful `sched_init` is one of the scheduler over some heap. -/
theorem schedInit_simulated {free : Set Nat} {shape : Slab.Shape} {c : Config} {s : Tasks}
    (valid : Valid usable bitmapFrames free managed root shape c)
    (outside : Disjoint reserved (frameBytes c.hhdm usable)) (returned : schedInit c = some s)
    (succeeded : s.current ≠ 0) :
    s.Valid usable bitmapFrames managed root reserved ∧
      ∃ heap : Heap reserved, Sched.schedInit heap c.mem = s.state := by
  have start : ({ kernel := c, current := 0, nextId := 0, live := [] } : Tasks).Valid
      usable bitmapFrames managed root reserved := ⟨⟨free, shape, valid⟩, outside, by simp⟩
  obtain ⟨t, s₁, first⟩ := start.kmalloc (by decide : sizeofTask.toNat + 16 ≤ 2 ^ 63)
  simp only [schedInit, first.returned, Option.some.injEq] at returned
  subst returned
  have live : s₁.live = [(t, 32)] := by
    rw [first.live, if_neg succeeded]
    rfl
  refine ⟨(first.valid.store ?_).statics _ _, .answering [⟨_, _, _, _, _, first.granted⟩] [], ?_⟩
  · have filled := Sched.Task.fill_frame s₁.kernel.mem t 0 0 s₁.nextId .running
    have linked := eqOn_compl_trans filled (Sched.Task.setNext_frame _ t t)
    refine eqOn_compl_mono linked ?_
    rw [live, Sched.bytesOf_cons]
    exact fun address written => .inr (.inl (written.elim (fun inFields => span_mono (by decide) inFields)
      fun inLink => span_subset (by bv_omega) inLink))
  · have answer : (Heap.answering [⟨_, _, _, _, _, first.granted⟩] []).kmalloc _ _ _ = _ :=
      Heap.answering_first first.granted
    have answered := first.answered answer
    simp only [Tasks.state] at answered
    rw [Sched.schedInit, answered]
    rfl

end Calls

end ScrapOS.Kernel
