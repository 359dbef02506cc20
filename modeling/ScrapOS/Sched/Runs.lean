import ScrapOS.FifoQueue.Basic
import ScrapOS.Sched.Operations

/-! Runs of the scheduler: any interleaving of `task_create`, `sched_yield` and
writes of the tasks that spare the bookkeeping of the run queue. Whatever
`context_switch` and the resumed task write is part of the step of the yield. -/

set_option autoImplicit false

namespace ScrapOS.Sched

open FifoQueue (Event)

/-! ## Steps keep the run queue -/

namespace RunQueue

variable {reserved : Set Word} {s s' : State} {created waiting : List Word}

theorem refused (queue : RunQueue s created waiting) (refused : Refused reserved s s') :
    RunQueue s' created waiting := by
  have kept : ∀ t ∈ created, Set.EqOn s'.mem s.mem (Task.bookkeeping t) := fun t member =>
    refused.frame.mono (Task.bookkeeping_subset.trans
      ((queue.task_subset member).trans Set.subset_union_right))
  have same : s' = { s with mem := s'.mem } := by
    cases s'
    simp only [State.mk.injEq, true_and]
    exact ⟨refused.current, refused.nextId, refused.live⟩
  rw [same]
  exact queue.congr kept

theorem fresh_not_mem (queue : RunQueue s created waiting) {t : Word}
    (fresh : Disjoint (span t 32) (reserved ∪ bytesOf s.live)) : t ∉ created := by
  intro member
  have inside : t ∈ span t 32 := base_mem_span (by decide)
  exact Set.disjoint_left.mp fresh inside (.inr (queue.task_subset member inside))

section Create

variable {trampoline entry t stack last : Word}

/-- Of the older tasks only the last one changes, and of that one only the link. -/
theorem create_kept (queue : RunQueue s created waiting) (lastTask : last ∈ created)
    (made : Created reserved s s' trampoline entry t stack last) {task : Word}
    (member : task ∈ created) :
    Set.EqOn s'.mem s.mem (span task 24) ∧
      (task ≠ last → Set.EqOn s'.mem s.mem (span task 32)) := by
  have inLive : span task 32 ⊆ reserved ∪ bytesOf s.live :=
    (queue.task_subset member).trans Set.subset_union_right
  have linkInLast : span (last + 24) 8 ⊆ span last 32 := span_subset (by bv_omega)
  have others : task ≠ last → Set.EqOn s'.mem s.mem (span task 32) := by
    intro different address inside
    have apart := queue.disjoint member lastTask different
    exact made.frame ⟨inLive inside, fun inLink =>
      Set.disjoint_left.mp apart inside (linkInLast inLink)⟩
  refine ⟨?_, others⟩
  by_cases same : task = last
  · subst same
    have apart : Disjoint (span task 24) (span (task + 24) 8) :=
      span_disjoint (by bv_omega) (by bv_omega)
    exact fun address inside => made.frame ⟨inLive (span_mono (by decide) inside), fun inLink =>
      Set.disjoint_left.mp apart inside inLink⟩
  · exact (others same).mono (span_mono (by decide))

theorem create {before : List Word} (queue : RunQueue s created waiting)
    (shape : s.current :: waiting = before ++ [last])
    (made : Created reserved s s' trampoline entry t stack last) :
    RunQueue s' (created ++ [t]) (waiting ++ [t]) where
  ring := by
    have nodup := queue.nodup
    have spliced : Ring (Task.next s'.mem) (s.current :: waiting ++ [t]) := by
      refine queue.ring.splice shape rfl ?_ made.lastNext made.next
      intro other member
      have inQueue : other ∈ s.current :: waiting := shape ▸ List.mem_append_left _ member
      have different : other ≠ last := by
        rw [shape] at nodup
        intro same
        exact (List.nodup_append.mp nodup).2.2 other member last (List.mem_singleton_self _) same
      have kept := (queue.create_kept (queue.last_created shape) made
        (queue.everyone.mem_iff.mp inQueue)).2 different
      exact Task.next_congr (kept.mono (span_subset (by bv_omega)))
    rw [made.current]
    exact spliced
  everyone := by
    rw [made.current, ← List.cons_append]
    exact queue.everyone.append_right [t]
  allocated := by
    intro task member
    rw [made.live]
    cases List.mem_append.mp member with
    | inl old => exact List.mem_cons_of_mem _ (List.mem_cons_of_mem _ (queue.allocated task old))
    | inr new =>
      rw [List.mem_singleton.mp new]
      exact List.mem_cons_of_mem _ List.mem_cons_self
  apart := by
    refine List.pairwise_append.mpr ⟨queue.apart, List.pairwise_singleton .., ?_⟩
    intro task old new isNew
    rw [List.mem_singleton.mp isNew]
    exact (made.fresh.mono_right
      ((queue.task_subset old).trans Set.subset_union_right)).symm
  states := by
    intro task member
    rw [made.current]
    cases List.mem_append.mp member with
    | inl old =>
      have kept := (queue.create_kept (queue.last_created shape) made old).1
      rw [Task.state_congr (kept.mono (span_subset (by bv_omega)))]
      exact queue.states task old
    | inr new =>
      have isNew := List.mem_singleton.mp new
      subst isNew
      have notCurrent : task ≠ s.current := fun same =>
        queue.fresh_not_mem made.fresh (same ▸ queue.current_created)
      rw [if_neg notCurrent]
      exact made.state
  ids := by
    intro i task found
    by_cases old : i < created.length
    · rw [List.getElem?_append_left old] at found
      have kept := (queue.create_kept (queue.last_created shape) made
        (List.mem_of_getElem? found)).1
      rw [Task.id_congr (kept.mono (span_subset (by bv_omega)))]
      exact queue.ids i task found
    · rw [List.getElem?_append_right (Nat.not_lt.mp old), List.getElem?_singleton] at found
      split at found
      · next first =>
        have isNew : t = task := Option.some.inj found
        have position : i = created.length := by omega
        rw [← isNew, made.id, queue.nextId, position]
      · cases found
  nextId := by
    rw [made.nextId, queue.nextId, List.length_append, List.length_singleton, BitVec.ofNat_add]
    rfl

end Create

/-! ## `sched_yield` -/

theorem yield_alone (queue : RunQueue s created []) : schedYield s = (s, none) := by
  have self : Task.next s.mem s.current = s.current := queue.ring.next_eq
  rw [schedYield]
  exact if_pos self

theorem yield {front : Word} {rest : List Word} (queue : RunQueue s created (front :: rest)) :
    schedYield s = ({ s with
      mem := Task.setState (Task.setState s.mem s.current .ready) front .running
      current := front }, some (s.current, Task.rsp (Task.setState
        (Task.setState s.mem s.current .ready) front .running) front)) ∧
    RunQueue (schedYield s).1 created (rest ++ [s.current]) := by
  have successor : Task.next s.mem s.current = front := queue.ring.next_eq
  have currentTask := queue.current_created
  have frontTask : front ∈ created := queue.everyone.mem_iff.mp (by simp)
  have different : front ≠ s.current := fun same =>
    (List.nodup_cons.mp queue.nodup).1 (same ▸ List.mem_cons_self)
  have result : schedYield s = ({ s with
      mem := Task.setState (Task.setState s.mem s.current .ready) front .running
      current := front }, some (s.current, Task.rsp (Task.setState
        (Task.setState s.mem s.current .ready) front .running) front)) := by
    rw [schedYield]
    simp only [successor, if_neg different]
  refine ⟨result, ?_⟩
  rw [result]
  refine ⟨?_, ?_, queue.allocated, queue.apart, ?_, ?_, queue.nextId⟩
  · refine queue.ring.rotate.congr fun task member => ?_
    have isTask : task ∈ created := by
      refine queue.everyone.mem_iff.mp ?_
      simpa [or_comm, or_left_comm] using member
    dsimp only
    rw [Task.next_setState _ _ (queue.disjoint isTask frontTask),
      Task.next_setState _ _ (queue.disjoint isTask currentTask)]
  · refine List.Perm.trans ?_ queue.everyone
    exact List.perm_append_singleton s.current (front :: rest)
  · intro task isTask
    dsimp only
    rw [Task.state_setState _ _ (queue.disjoint isTask frontTask),
      Task.state_setState _ _ (queue.disjoint isTask currentTask), queue.states task isTask]
    split
    · rfl
    · split <;> rfl
  · intro i task found
    have isTask := List.mem_of_getElem? found
    dsimp only
    rw [Task.id_setState _ _ (queue.disjoint isTask frontTask),
      Task.id_setState _ _ (queue.disjoint isTask currentTask)]
    exact queue.ids i task found

end RunQueue

theorem schedInit_runQueue {reserved : Set Word} (heap : Heap reserved) (m : Memory)
    (succeeded : (schedInit heap m).current ≠ 0) :
    RunQueue (schedInit heap m) [(schedInit heap m).current] [] := by
  have served := kmalloc_served { mem := m, current := 0, nextId := 0, live := [] } heap sizeofTask
  have shape : schedInit heap m =
      let served := State.kmalloc { mem := m, current := 0, nextId := 0, live := [] } heap sizeofTask
      { served.2 with
        mem := Task.setNext (Task.fill served.2.mem served.1 0 0 served.2.nextId .running) served.1 served.1
        current := served.1
        nextId := served.2.nextId + 1 } := rfl
  rw [shape] at succeeded ⊢
  generalize State.kmalloc { mem := m, current := 0, nextId := 0, live := [] } heap sizeofTask =
    result at served succeeded ⊢
  obtain ⟨t, s⟩ := result
  dsimp only at served succeeded ⊢
  have number : s.nextId = 0 := served.nextId
  refine ⟨⟨rfl, Memory.load64_store64 ..⟩, List.Perm.refl _, ?_, List.pairwise_singleton ..,
    ?_, ?_, ?_⟩
  · intro task member
    rw [List.mem_singleton.mp member]
    dsimp only
    rw [served.live, if_neg succeeded]
    exact List.mem_cons_self
  · intro task member
    rw [List.mem_singleton.mp member, if_pos rfl]
    dsimp only
    rw [Task.state_of_next_frame (Task.setNext_frame ..)]
    exact Task.state_fill ..
  · intro i task found
    cases i with
    | zero =>
      have isFirst : t = task := Option.some.inj found
      rw [← isFirst]
      dsimp only
      rw [Task.id_of_next_frame (Task.setNext_frame ..), Task.id_fill, number]
      rfl
    | succ i => cases found
  · dsimp only
    rw [number]
    rfl

theorem schedInit_fresh {reserved : Set Word} (heap : Heap reserved) (m : Memory)
    (succeeded : (schedInit heap m).current ≠ 0) :
    Disjoint (span (schedInit heap m).current 32) reserved :=
  ((kmalloc_served { mem := m, current := 0, nextId := 0, live := [] } heap sizeofTask).fresh
    succeeded).mono_right Set.subset_union_left

/-! ## Runs -/

/-- A state of a run, with its history: the tasks in the order in which they were
created, and the tasks that have been running in the order of their first time. -/
structure Config where
  state : State
  created : List Word
  started : List Word

/-- The state that `sched_init` leaves behind. -/
def Config.boot {reserved : Set Word} (heap : Heap reserved) (m : Memory) : Config where
  state := schedInit heap m
  created := [(schedInit heap m).current]
  started := [(schedInit heap m).current]

/-- What `sched_yield` leaves behind when the memory is `m'` at its end. -/
def Config.yield (c : Config) (m' : Memory) : Config :=
  { c with
    state := { (schedYield c.state).1 with mem := m' }
    started := FifoQueue.served c.started [(schedYield c.state).1.current] }

theorem Config.yield_created (c : Config) (m' : Memory) : (c.yield m').created = c.created := rfl

theorem Config.yield_current (c : Config) (m' : Memory) :
    (c.yield m').state.current = (schedYield c.state).1.current := by
  rw [yield]

theorem Config.yield_mem (c : Config) (m' : Memory) : (c.yield m').state.mem = m' := rfl

/-- A step is labelled with what it does to the queue. -/
inductive Step (reserved : Set Word) : Config → List (Event Word) → Config → Prop where
  | created {c : Config} {t : Word} {s' : State} (heap : Heap reserved) (trampoline entry : Word) :
      taskCreate heap trampoline entry c.state = some (t, s') → t ≠ 0 →
      Step reserved c [.arrive t] { c with state := s', created := c.created ++ [t] }
  | refused {c : Config} {s' : State} (heap : Heap reserved) (trampoline entry : Word) :
      taskCreate heap trampoline entry c.state = some (0, s') →
      Step reserved c [] { c with state := s' }
  | yield {c : Config} {m' : Memory} :
      (∀ t ∈ c.created, Set.EqOn m' (schedYield c.state).1.mem (Task.bookkeeping t)) →
      Step reserved c [.rotate] (c.yield m')
  | act {c : Config} {m' : Memory} :
      (∀ t ∈ c.created, Set.EqOn m' c.state.mem (Task.bookkeeping t)) →
      Step reserved c [] { c with state := { c.state with mem := m' } }

inductive Run (reserved : Set Word) : Config → List (Event Word) → Config → Prop where
  | refl {c : Config} : Run reserved c [] c
  | tail {a b c : Config} {events last : List (Event Word)} :
      Run reserved a events b → Step reserved b last c → Run reserved a (events ++ last) c

/-- The invariant of a run: the tasks form a run queue, and they have been served
in the order of their creation. -/
structure Valid (c : Config) (waiting : List Word) : Prop where
  queue : RunQueue c.state c.created waiting
  inOrder : FifoQueue.InOrder c.created c.started (c.state.current :: waiting)

namespace Valid

variable {reserved : Set Word} {c c' : Config} {waiting : List Word} {events : List (Event Word)}

/-- A call of `task_create` returns; it creates a task at the back of the queue,
or it fails and changes nothing that the scheduler or a task owns. -/
theorem taskCreate_cases (valid : Valid c waiting) (heap : Heap reserved)
    (trampoline entry : Word) :
    (∃ s', taskCreate heap trampoline entry c.state = some (0, s') ∧
      Refused reserved c.state s') ∨
    ∃ t stack s' last, taskCreate heap trampoline entry c.state = some (t, s') ∧
      last ∈ c.created ∧ Created reserved c.state s' trampoline entry t stack last ∧
      RunQueue s' (c.created ++ [t]) (waiting ++ [t]) := by
  have nonempty : c.state.current :: waiting ≠ [] := List.cons_ne_nil _ _
  obtain ⟨before, last, shape⟩ := (List.eq_nil_or_concat' _).resolve_left nonempty
  cases Sched.taskCreate_cases valid.queue heap trampoline entry shape with
  | inl refused => exact .inl refused
  | inr created =>
    obtain ⟨t, stack, s', returned, made⟩ := created
    exact .inr ⟨t, stack, s', last, returned, valid.queue.last_created shape, made,
      valid.queue.create shape made⟩

/-- One step changes the queue as its label says. -/
theorem step (valid : Valid c waiting) (stepped : Step reserved c events c') :
    ∃ waiting', Valid c' waiting' ∧
      c'.state.current :: waiting' = FifoQueue.run (c.state.current :: waiting) events := by
  cases stepped with
  | @created t s' heap trampoline entry returned nonnull =>
    cases valid.taskCreate_cases heap trampoline entry with
    | inl refused =>
      obtain ⟨_, returned', -⟩ := refused
      rw [returned, Option.some.injEq, Prod.mk.injEq] at returned'
      exact absurd returned'.1 nonnull
    | inr created =>
      obtain ⟨_, stack, _, last, returned', -, made, queue⟩ := created
      rw [returned, Option.some.injEq, Prod.mk.injEq] at returned'
      obtain ⟨rfl, rfl⟩ := returned'
      have fresh := valid.queue.fresh_not_mem made.fresh
      have joined := valid.inOrder.arrive (List.cons_ne_nil _ _) fresh
      refine ⟨waiting ++ [t], ⟨queue, ?_⟩, ?_⟩
      · rw [made.current]
        exact joined
      · rw [made.current]
        rfl
  | @refused s' heap trampoline entry returned =>
    cases valid.taskCreate_cases heap trampoline entry with
    | inl refused =>
      obtain ⟨_, returned', refused⟩ := refused
      rw [returned, Option.some.injEq, Prod.mk.injEq] at returned'
      obtain ⟨-, rfl⟩ := returned'
      refine ⟨waiting, ⟨valid.queue.refused refused, ?_⟩, ?_⟩
      · rw [refused.current]
        exact valid.inOrder
      · rw [refused.current]
        rfl
    | inr created =>
      obtain ⟨_, _, _, _, returned', -, made, -⟩ := created
      rw [returned, Option.some.injEq, Prod.mk.injEq] at returned'
      exact absurd returned'.1.symm made.nonnull
  | yield kept =>
    cases waiting with
    | nil =>
      rw [Config.yield, valid.queue.yield_alone]
      rw [valid.queue.yield_alone] at kept
      exact ⟨[], ⟨valid.queue.congr kept, valid.inOrder.rotate⟩, rfl⟩
    | cons front rest =>
      obtain ⟨result, queue⟩ := valid.queue.yield
      have current : (schedYield c.state).1.current = front := by rw [result]
      refine ⟨rest ++ [c.state.current], ⟨queue.congr kept, ?_⟩, ?_⟩
      · dsimp only [Config.yield]
        rw [current]
        exact valid.inOrder.rotate
      · dsimp only [Config.yield]
        rw [current]
        rfl
  | act kept => exact ⟨waiting, ⟨valid.queue.congr kept, valid.inOrder⟩, rfl⟩

theorem run (valid : Valid c waiting) (ran : Run reserved c events c') :
    ∃ waiting', Valid c' waiting' ∧
      c'.state.current :: waiting' = FifoQueue.run (c.state.current :: waiting) events := by
  induction ran with
  | refl => exact ⟨waiting, valid, rfl⟩
  | tail _ stepped ih =>
      obtain ⟨between, valid', same⟩ := ih
      obtain ⟨waiting', valid'', same'⟩ := valid'.step stepped
      refine ⟨waiting', valid'', ?_⟩
      rw [same', same, FifoQueue.run_append]

end Valid

theorem boot_valid {reserved : Set Word} {heap : Heap reserved} {m : Memory}
    (succeeded : (schedInit heap m).current ≠ 0) : Valid (Config.boot heap m) [] where
  queue := schedInit_runQueue heap m succeeded
  inOrder := by
    refine ⟨List.nodup_singleton _, List.prefix_rfl, ?_, ?_⟩
    · simp [Config.boot]
    · simp [Config.boot]

/-! ## A small machine -/

/-- An allocator that returns the first of some addresses at which the block fits. -/
def firstFit (base : Word) (count : Nat) (candidates : List Word) : Heap (span base count) where
  kmalloc := fun m live size =>
    ((candidates.find? fun p => ((base, count) :: live).all fun block =>
      size.toNat ≤ (block.1 - p).toNat && block.2 ≤ (p - block.1).toNat).getD 0, m)
  kfree := fun m _ _ => m
  kmalloc_frame := fun _ _ _ _ _ => rfl
  kmalloc_fresh := by
    intro m live size nonnull
    dsimp only at nonnull ⊢
    generalize result : candidates.find? _ = found at nonnull ⊢
    cases found with
    | none => exact absurd rfl nonnull
    | some p =>
      have fits := List.find?_some result
      have apart : ∀ block ∈ (base, count) :: live,
          Disjoint (span p size.toNat) (span block.1 block.2) := by
        intro block member
        have both := List.all_eq_true.mp fits block member
        rw [Bool.and_eq_true, decide_eq_true_eq, decide_eq_true_eq] at both
        exact span_disjoint both.1 both.2
      refine Set.disjoint_union_right.mpr ⟨apart _ List.mem_cons_self, ?_⟩
      rw [Set.disjoint_left]
      rintro address inside ⟨block, member, inBlock⟩
      exact Set.disjoint_left.mp (apart block (List.mem_cons_of_mem _ member)) inside inBlock
  kfree_frame := fun _ _ _ _ _ => rfl

def kmainStack : Allocation := (0xffff800000100000, 0x4000)

/-- Room for two tasks, next to the stack of `kmain`. -/
def twoTasks : Heap (span kmainStack.1 kmainStack.2) :=
  firstFit kmainStack.1 kmainStack.2
    [0xffff800000400000, 0xffff800000400020, 0xffff800000404000]

theorem twoTasks_booted : (schedInit twoTasks fun _ => 0).current = 0xffff800000400000 := by
  decide +kernel

theorem twoTasks_run :
    ∃ c, Run (span kmainStack.1 kmainStack.2) (Config.boot twoTasks fun _ => 0)
        [.arrive 0xffff800000400020] c ∧
      c.created = [0xffff800000400000, 0xffff800000400020] := by
  have created : (taskCreate twoTasks 0x1000 0x2000 (schedInit twoTasks fun _ => 0)).map Prod.fst =
      some 0xffff800000400020 := by decide +kernel
  obtain ⟨⟨t, s'⟩, returned, same⟩ := Option.map_eq_some_iff.mp created
  dsimp only at same
  subst same
  refine ⟨_, .tail .refl (.created twoTasks 0x1000 0x2000 returned (by decide)), ?_⟩
  simp only [Config.boot, twoTasks_booted, List.singleton_append]

end ScrapOS.Sched
