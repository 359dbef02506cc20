import ScrapOS.Sched.Operations

/-! A heap that is known by its answers. However the calls of `kmalloc` and `kfree` were answered,
if each answer is one that an allocator may give, there is a heap that gives them. -/

set_option autoImplicit false

namespace ScrapOS.Sched

variable {reserved : Set Word} {m m' : Memory} {live : List Allocation} {size p : Word}

/-- An answer of `kmalloc` that the scheduler may rely on. -/
structure Granted (reserved : Set Word) (m : Memory) (live : List Allocation) (size p : Word)
    (m' : Memory) : Prop where
  frame : Set.EqOn m' m (reserved ∪ bytesOf live)
  fresh : p ≠ 0 → Disjoint (span p size.toNat) (reserved ∪ bytesOf live)

structure Grant (reserved : Set Word) where
  mem : Memory
  live : List Allocation
  size : Word
  result : Word
  after : Memory
  granted : Granted reserved mem live size result after

structure Release (reserved : Set Word) where
  mem : Memory
  live : List Allocation
  pointer : Word
  after : Memory
  frame : Set.EqOn after mem (reserved ∪ bytesOf live)

def Grant.Answers (grant : Grant reserved) (m : Memory) (live : List Allocation) (size : Word) : Prop :=
  grant.mem = m ∧ grant.live = live ∧ grant.size = size

def Release.Answers (release : Release reserved) (m : Memory) (live : List Allocation) (p : Word) :
    Prop :=
  release.mem = m ∧ release.live = live ∧ release.pointer = p

open Classical in
theorem Grant.of_find {grants : List (Grant reserved)} {grant : Grant reserved}
    (found : grants.find? (fun grant => decide (grant.Answers m live size)) = some grant) :
    grant.Answers m live size := by
  simpa using List.find?_some found

open Classical in
theorem Release.of_find {releases : List (Release reserved)} {release : Release reserved}
    (found : releases.find? (fun release => decide (release.Answers m live p)) = some release) :
    release.Answers m live p := by
  simpa using List.find?_some found

namespace Heap

open Classical in
/-- The heap that gives these answers; it refuses any other call. -/
noncomputable def answering (grants : List (Grant reserved)) (releases : List (Release reserved)) :
    Heap reserved where
  kmalloc := fun m live size =>
    match grants.find? fun grant => decide (grant.Answers m live size) with
    | some grant => (grant.result, grant.after)
    | none => (0, m)
  kfree := fun m live p =>
    match releases.find? fun release => decide (release.Answers m live p) with
    | some release => release.after
    | none => m
  kmalloc_frame := by
    intro m live size
    cases found : grants.find? fun grant => decide (grant.Answers m live size) with
    | none => exact Set.eqOn_refl _ _
    | some grant =>
        obtain ⟨rfl, rfl, rfl⟩ := Grant.of_find found
        exact grant.granted.frame
  kmalloc_fresh := by
    intro m live size
    cases found : grants.find? fun grant => decide (grant.Answers m live size) with
    | none => exact fun nonnull => absurd rfl nonnull
    | some grant =>
        obtain ⟨rfl, rfl, rfl⟩ := Grant.of_find found
        exact grant.granted.fresh
  kfree_frame := by
    intro m live p
    cases found : releases.find? fun release => decide (release.Answers m live p) with
    | none => exact Set.eqOn_refl _ _
    | some release =>
        obtain ⟨rfl, rfl, rfl⟩ := Release.of_find found
        exact release.frame

variable {grants : List (Grant reserved)} {releases : List (Release reserved)}

theorem answering_first (granted : Granted reserved m live size p m') :
    (answering (⟨m, live, size, p, m', granted⟩ :: grants) releases).kmalloc m live size = (p, m') := by
  simp [answering, Grant.Answers]

/-- An answer to a request of another size does not get in the way. -/
theorem answering_second {before : Memory} {earlier : List Allocation} {size' p' : Word}
    (first : Granted reserved before earlier size' p' m) (other : size' ≠ size)
    (second : Granted reserved m live size p m') :
    (answering (⟨before, earlier, size', p', m, first⟩ :: ⟨m, live, size, p, m', second⟩ :: grants)
      releases).kmalloc m live size = (p, m') := by
  simp [answering, Grant.Answers, other]

theorem answering_release (frame : Set.EqOn m' m (reserved ∪ bytesOf live)) :
    (answering grants (⟨m, live, p, m', frame⟩ :: releases)).kfree m live p = m' := by
  simp [answering, Release.Answers]

end Heap

/-- A call of `kmalloc` that the heap answers so. -/
theorem State.kmalloc_answered {heap : Heap reserved} {s : State}
    (answered : heap.kmalloc s.mem s.live size = (p, m')) : s.kmalloc heap size =
      (p, { s with mem := m', live := if p = 0 then s.live else (p, size.toNat) :: s.live }) := by
  simp only [State.kmalloc, answered]

/-- A call of `kfree` that the heap answers so. -/
theorem State.kfree_answered {heap : Heap reserved} {s : State}
    (left : s.live.eraseP (fun allocation => allocation.1 == p) = live)
    (answered : heap.kfree s.mem live p = m') :
    s.kfree heap p = { s with mem := m', live := live } := by
  simp only [State.kfree, left, answered]

end ScrapOS.Sched
