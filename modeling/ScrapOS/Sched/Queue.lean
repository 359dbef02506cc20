import ScrapOS.Sched.Runs

/-! The run queue as its callers see it: one ring with one runner, served first
in, first out. -/

set_option autoImplicit false

namespace ScrapOS.Sched

open FifoQueue (Event)

variable {reserved : Set Word}

/-! ## One ring with one runner -/

theorem task_ids_count {c : Config} {waiting : List Word} (valid : Valid c waiting)
    (few : c.created.length ≤ 2 ^ 32) :
    (c.created.map fun t => (Task.id c.state.mem t).toNat) = List.range c.created.length := by
  refine List.ext_getElem? fun i => ?_
  rw [List.getElem?_map]
  by_cases inside : i < c.created.length
  · have found := List.getElem?_eq_getElem inside
    rw [found, Option.map_some, valid.queue.ids i _ found, BitVec.toNat_ofNat,
      Nat.mod_eq_of_lt (by omega), List.getElem?_range inside]
  · rw [List.getElem?_eq_none (Nat.not_lt.mp inside), List.getElem?_eq_none (by simpa using inside)]
    rfl

theorem run_queue_is_ring {heap : Heap reserved} {m : Memory} {events : List (Event Word)}
    {c : Config} (succeeded : (schedInit heap m).current ≠ 0)
    (ran : Run reserved (Config.boot heap m) events c) :
    (∃ waiting, Ring (Task.next c.state.mem) (c.state.current :: waiting) ∧
      (c.state.current :: waiting).Perm c.created ∧ c.created.Nodup) ∧
    (∀ t ∈ c.created, Task.state c.state.mem t =
      (if t = c.state.current then TaskState.running else .ready).code) ∧
    (c.created.length ≤ 2 ^ 32 →
      (c.created.map fun t => (Task.id c.state.mem t).toNat) = List.range c.created.length) ∧
    ∀ (heap' : Heap reserved) (trampoline entry : Word),
      ∃ t s', taskCreate heap' trampoline entry c.state = some (t, s') ∧
        (t = 0 → s'.current = c.state.current ∧ s'.nextId = c.state.nextId ∧
          s'.live = c.state.live ∧
          ∀ task ∈ c.created, Set.EqOn s'.mem c.state.mem (span task 32)) := by
  obtain ⟨waiting, valid, -⟩ := (boot_valid succeeded).run ran
  refine ⟨⟨waiting, valid.queue.ring, valid.queue.everyone, valid.queue.created_nodup⟩,
    valid.queue.states, task_ids_count valid, fun heap' trampoline entry => ?_⟩
  cases valid.taskCreate_cases heap' trampoline entry with
  | inl refused =>
    obtain ⟨s', returned, refused⟩ := refused
    refine ⟨0, s', returned, fun _ => ⟨refused.current, refused.nextId, refused.live, ?_⟩⟩
    intro task member
    exact refused.frame.mono ((valid.queue.task_subset member).trans Set.subset_union_right)
  | inr created =>
    obtain ⟨t, _, s', _, returned, -, made, -⟩ := created
    exact ⟨t, s', returned, fun null => absurd null made.nonnull⟩

theorem run_queue_is_ring_twoTasks :
    ∃ c : Config, c.created = [0xffff800000400000, 0xffff800000400020] ∧
      (∃ waiting, Ring (Task.next c.state.mem) (c.state.current :: waiting) ∧
        (c.state.current :: waiting).Perm c.created ∧ c.created.Nodup) ∧
      (c.created.map fun t => (Task.id c.state.mem t).toNat) = [0, 1] := by
  obtain ⟨c, ran, created⟩ := twoTasks_run
  obtain ⟨ring, -, numbered, -⟩ :=
    run_queue_is_ring (by rw [twoTasks_booted]; decide) ran
  refine ⟨c, created, ring, ?_⟩
  rw [numbered (by rw [created]; decide), created]
  rfl

/-! ## First in, first out -/

/-- The ring read as a queue: the running task, then the others in the order of
the links. -/
structure Represents (s : State) (queue : List Word) : Prop where
  ring : Ring (Task.next s.mem) queue
  front : queue.head? = some s.current
  once : queue.Nodup

theorem Valid.represents {c : Config} {waiting : List Word} (valid : Valid c waiting) :
    Represents c.state (c.state.current :: waiting) :=
  ⟨valid.queue.ring, rfl, valid.queue.nodup⟩

/-- A task at distance `d` stands at place `d` of the queue. -/
theorem Valid.place_of_distance {c : Config} {waiting : List Word} (valid : Valid c waiting)
    {t : Word} {d : Nat} (member : t ∈ c.created)
    (reached : (Task.next c.state.mem)^[d] c.state.current = t)
    (first : ∀ j, j < d → (Task.next c.state.mem)^[j] c.state.current ≠ t) :
    (c.state.current :: waiting)[d]? = some t := by
  obtain ⟨i, found⟩ := List.mem_iff_getElem?.mp (valid.queue.everyone.mem_iff.mpr member)
  have atPlace := valid.queue.ring.next_iterate found
  have notEarlier : ¬ i < d := fun earlier => first i earlier atPlace
  obtain ⟨inside, -⟩ := List.getElem?_eq_some_iff.mp found
  have bound : d < (c.state.current :: waiting).length := by omega
  have atDistance := valid.queue.ring.next_iterate (List.getElem?_eq_getElem bound)
  rw [List.getElem?_eq_getElem bound, ← atDistance, reached]

/-- However creations are interleaved, the `d`-th yield reaches place `d`. -/
theorem Valid.current_after {c c' : Config} {waiting : List Word} (valid : Valid c waiting)
    {later : List (Event Word)} (ran : Run reserved c later c') {t : Word}
    (found : (c.state.current :: waiting)[FifoQueue.rotations later]? = some t) :
    c'.state.current = t := by
  obtain ⟨waiting', -, same⟩ := valid.run ran
  have reached := FifoQueue.getElem?_run found (Nat.le_refl _)
  rw [← same, Nat.sub_self] at reached
  exact Option.some.inj reached

theorem sched_is_fifo {heap : Heap reserved} {m : Memory} {events : List (Event Word)}
    {c : Config} (succeeded : (schedInit heap m).current ≠ 0)
    (ran : Run reserved (Config.boot heap m) events c) :
    (∃ waiting, Represents c.state (c.state.current :: waiting) ∧
      (∀ c', Step reserved c [.rotate] c' →
        Represents c'.state (FifoQueue.step (c.state.current :: waiting) .rotate)) ∧
      ∀ t c', Step reserved c [.arrive t] c' →
        Represents c'.state (c.state.current :: waiting ++ [t])) ∧
    (∀ t d, t ∈ c.created → (Task.next c.state.mem)^[d] c.state.current = t →
      (∀ j, j < d → (Task.next c.state.mem)^[j] c.state.current ≠ t) →
      ∀ later c', Run reserved c later c' →
        (FifoQueue.rotations later < d → c'.state.current ≠ t) ∧
        (FifoQueue.rotations later = d → c'.state.current = t)) ∧
    c.started <+: c.created := by
  obtain ⟨waiting, valid, -⟩ := (boot_valid succeeded).run ran
  refine ⟨⟨waiting, valid.represents, ?_, ?_⟩, ?_, valid.inOrder.isPrefix⟩
  · intro c' stepped
    obtain ⟨waiting', valid', same⟩ := valid.step stepped
    have represents := valid'.represents
    rw [same] at represents
    exact represents
  · intro t c' stepped
    obtain ⟨waiting', valid', same⟩ := valid.step stepped
    have represents := valid'.represents
    rw [same] at represents
    exact represents
  · intro t d member reached first later c' ran'
    have place := valid.place_of_distance member reached first
    constructor
    · intro early isCurrent
      obtain ⟨inside, -⟩ := List.getElem?_eq_some_iff.mp place
      have bound : FifoQueue.rotations later < (c.state.current :: waiting).length := by omega
      have running := valid.current_after ran' (List.getElem?_eq_getElem bound)
      have twice : (c.state.current :: waiting)[FifoQueue.rotations later]? = some t := by
        rw [List.getElem?_eq_getElem bound, ← running, isCurrent]
      have same := (List.nodup_iff_getElem?_ne_getElem?.mp valid.queue.nodup) _ _ early inside
      exact same (twice.trans place.symm)
    · intro onTime
      subst onTime
      exact valid.current_after ran' place

theorem sched_is_fifo_twoTasks :
    ∃ c : Config, c.created = [0xffff800000400000, 0xffff800000400020] ∧
      (∃ waiting, Represents c.state (c.state.current :: waiting)) ∧ c.started <+: c.created := by
  obtain ⟨c, ran, created⟩ := twoTasks_run
  obtain ⟨⟨waiting, represents, -⟩, -, inOrder⟩ :=
    sched_is_fifo (by rw [twoTasks_booted]; decide) ran
  exact ⟨c, created, ⟨waiting, represents⟩, inOrder⟩

end ScrapOS.Sched
