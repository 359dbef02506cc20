import Mathlib

/-! Round-robin queues. The head of the list is being served; a rotation sends
it to the back, an arrival joins at the back. Nothing else happens, so every
element advances by exactly one place a rotation. -/

set_option autoImplicit false

namespace ScrapOS.FifoQueue

inductive Event (α : Type) where
  | arrive (newcomer : α)
  | rotate

variable {α : Type}

def step : List α → Event α → List α
  | queue, .arrive newcomer => queue ++ [newcomer]
  | [], .rotate => []
  | head :: rest, .rotate => rest ++ [head]

def rotations : List (Event α) → Nat
  | [] => 0
  | .arrive _ :: events => rotations events
  | .rotate :: events => rotations events + 1

def run (queue : List α) (events : List (Event α)) : List α := events.foldl step queue

theorem run_append (queue : List α) (earlier later : List (Event α)) :
    run queue (earlier ++ later) = run (run queue earlier) later := List.foldl_append ..

theorem getElem?_arrive {queue : List α} {place : Nat} {waiting newcomer : α}
    (found : queue[place]? = some waiting) :
    (step queue (.arrive newcomer))[place]? = some waiting := by
  obtain ⟨inside, -⟩ := List.getElem?_eq_some_iff.mp found
  rw [step, List.getElem?_append_left inside, found]

theorem getElem?_rotate {queue : List α} {place : Nat} {waiting : α}
    (found : queue[place + 1]? = some waiting) : (step queue .rotate)[place]? = some waiting := by
  cases queue with
  | nil => cases found
  | cons head rest =>
    rw [List.getElem?_cons_succ] at found
    obtain ⟨inside, -⟩ := List.getElem?_eq_some_iff.mp found
    rw [step, List.getElem?_append_left inside, found]

/-- However arrivals and rotations mix, each rotation brings an element one place
forward and nothing overtakes it. -/
theorem getElem?_run {queue : List α} {events : List (Event α)} {place : Nat} {waiting : α}
    (found : queue[place]? = some waiting) (soon : rotations events ≤ place) :
    (run queue events)[place - rotations events]? = some waiting := by
  induction events generalizing queue place with
  | nil => exact found
  | cons event events ih =>
      cases event with
      | arrive newcomer => exact ih (getElem?_arrive found) soon
      | rotate =>
        cases place with
        | zero => exact absurd soon (Nat.not_succ_le_zero _)
        | succ place =>
          have advanced := ih (getElem?_rotate found) (Nat.le_of_succ_le_succ soon)
          rwa [rotations, Nat.add_sub_add_right]

/-! ## First service -/

variable [DecidableEq α]

/-- The elements served so far, in the order of their first service. -/
def served (already : List α) : List α → List α
  | [] => already
  | head :: _ => if head ∈ already then already else already ++ [head]

/-- Service in order of arrival: the elements served so far are the first ones
that arrived, and the others wait in the order in which they arrived. -/
structure InOrder (arrived already queue : List α) : Prop where
  distinct : arrived.Nodup
  isPrefix : already <+: arrived
  waiting : queue.filter (fun element => element ∉ already) = arrived.drop already.length
  serving : ∀ head ∈ queue.head?, head ∈ already

namespace InOrder

variable {arrived already queue : List α}

theorem arrive {newcomer : α} (inOrder : InOrder arrived already queue)
    (nonempty : queue ≠ []) (fresh : newcomer ∉ arrived) :
    InOrder (arrived ++ [newcomer]) already (step queue (.arrive newcomer)) where
  distinct := by
    refine List.nodup_append.mpr ⟨inOrder.distinct, by simp, ?_⟩
    intro old arrivedBefore other isNew same
    rw [List.mem_singleton] at isNew
    exact fresh (isNew ▸ same ▸ arrivedBefore)
  isPrefix := inOrder.isPrefix.trans (List.prefix_append ..)
  waiting := by
    have short := inOrder.isPrefix.length_le
    have unserved : newcomer ∉ already := fun served => fresh (inOrder.isPrefix.subset served)
    rw [step, List.filter_append, inOrder.waiting, List.drop_append_of_le_length short]
    simp [unserved]
  serving := by
    intro head isHead
    rw [step, List.head?_append_of_ne_nil _ nonempty] at isHead
    exact inOrder.serving head isHead

theorem rotate (inOrder : InOrder arrived already queue) :
    InOrder arrived (served already (step queue .rotate)) (step queue .rotate) := by
  cases queue with
  | nil => exact ⟨inOrder.distinct, inOrder.isPrefix, inOrder.waiting, fun head isHead => by cases isHead⟩
  | cons running rest =>
    have runningServed : running ∈ already := inOrder.serving running rfl
    have waiting : (rest ++ [running]).filter (fun element => element ∉ already) =
        arrived.drop already.length := by
      rw [← inOrder.waiting, List.filter_append, List.filter_cons]
      simp [runningServed]
    rw [step]
    cases rest with
    | nil =>
      simp only [List.nil_append, served, if_pos runningServed] at waiting ⊢
      exact ⟨inOrder.distinct, inOrder.isPrefix, waiting, fun head isHead => by
        rw [List.head?_cons, Option.mem_some_iff] at isHead
        exact isHead ▸ runningServed⟩
    | cons front behind =>
      rw [List.cons_append] at waiting ⊢
      rw [served]
      split
      · next again =>
        exact ⟨inOrder.distinct, inOrder.isPrefix, waiting, fun head isHead => by
          rw [List.head?_cons, Option.mem_some_iff] at isHead
          exact isHead ▸ again⟩
      · next first =>
        -- The head of the queue is the first arrival not served yet.
        rw [List.filter_cons, if_pos (by simpa using first)] at waiting
        obtain ⟨later, shape⟩ := inOrder.isPrefix
        have rest : arrived.drop already.length = later := by
          rw [← shape, List.drop_left]
        rw [rest] at waiting
        subst waiting
        have distinct := inOrder.distinct
        rw [← shape, List.nodup_append] at distinct
        have frontOnce := (List.nodup_cons.mp distinct.2.1).1
        have sameTest : ∀ element ∈ behind ++ [running],
            decide (element ∉ already ++ [front]) = decide (element ∉ already) := by
          intro element member
          have notFront : element ∉ already → element ≠ front := fun unserved same =>
            frontOnce (same ▸ List.mem_filter.mpr ⟨member, decide_eq_true unserved⟩)
          simp only [List.mem_append, List.mem_singleton, not_or, decide_eq_decide]
          exact ⟨fun both => both.1, fun unserved => ⟨unserved, notFront unserved⟩⟩
        refine ⟨inOrder.distinct, ⟨_, by rw [List.append_assoc]; exact shape⟩, ?_, ?_⟩
        · rw [← shape, List.filter_cons, if_neg (by simp),
            List.filter_congr sameTest, List.length_append, List.length_singleton,
            List.drop_length_add_append, List.drop_succ_cons, List.drop_zero]
        · intro head isHead
          rw [List.head?_cons, Option.mem_some_iff] at isHead
          rw [← isHead]
          simp

end InOrder

end ScrapOS.FifoQueue
