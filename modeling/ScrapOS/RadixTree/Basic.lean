import Mathlib

/-! Radix trees stored in a heap of nodes. A node is an array of entries, an entry
may refer to a further node, and a key is read one index at a time. A tree is seen
through the entries at its paths, so a write to one cell changes the entry at one
path and every lookup below it is unchanged.

A path lists its indices from the last to the first. -/

set_option autoImplicit false

namespace ScrapOS.RadixTree

/-- How entries refer to nodes; the blank entry refers to none. -/
structure Format (Node Entry : Type) where
  child : Entry → Option Node
  blank : Entry
  child_blank : child blank = none

variable {Node Index Entry : Type}

/-- The node at the end of a path. -/
def reach (format : Format Node Entry) (cells : Node → Index → Entry) (root : Node) :
    List Index → Option Node
  | [] => some root
  | index :: owner => (reach format cells root owner).bind fun node => format.child (cells node index)

/-- The entry a path leads to, blank where a node on the way is missing. -/
def entryAt (format : Format Node Entry) (cells : Node → Index → Entry) (root : Node) :
    List Index → Entry
  | [] => format.blank
  | index :: owner => (reach format cells root owner).elim format.blank fun node => cells node index

/-- The nodes at most `depth` steps from the root. -/
def nodes (format : Format Node Entry) (depth : Nat) (cells : Node → Index → Entry) (root : Node) :
    Set Node :=
  {node | ∃ path : List Index, path.length ≤ depth ∧ reach format cells root path = some node}

/-- No node is reached by two paths: the nodes form a tree, and each is used at one depth. -/
def IsTree (format : Format Node Entry) (depth : Nat) (cells : Node → Index → Entry)
    (root : Node) : Prop :=
  ∀ ⦃left right : List Index⦄ ⦃node : Node⦄, left.length ≤ depth → right.length ≤ depth →
    reach format cells root left = some node → reach format cells root right = some node →
    left = right

section Paths

variable {format : Format Node Entry} {cells : Node → Index → Entry} {root node : Node}
  {depth : Nat} {index : Index} {owner path : List Index}

theorem reach_cons :
    reach format cells root (index :: owner) =
      format.child (entryAt format cells root (index :: owner)) := by
  rw [reach, entryAt]
  cases reach format cells root owner with
  | none => exact format.child_blank.symm
  | some node => rfl

theorem entryAt_of_reach (reached : reach format cells root owner = some node) :
    entryAt format cells root (index :: owner) = cells node index := by
  rw [entryAt, reached]
  rfl

theorem entryAt_of_unreached (unreached : reach format cells root owner = none) :
    entryAt format cells root (index :: owner) = format.blank := by
  rw [entryAt, unreached]
  rfl

/-- Nothing is reached through an entry that refers to no node. -/
theorem reach_append_of_unreached (unreached : reach format cells root path = none)
    (below : List Index) : reach format cells root (below ++ path) = none := by
  induction below with
  | nil => exact unreached
  | cons index below ih => rw [List.cons_append, reach, ih]; rfl

/-- Every path below a blank node ends at a blank entry. -/
theorem entryAt_below_blank (reached : reach format cells root path = some node)
    (blank : ∀ position, cells node position = format.blank) (below : List Index)
    (position : Index) :
    entryAt format cells root (position :: below ++ path) = format.blank := by
  induction below generalizing position with
  | nil =>
      rw [List.singleton_append, entryAt_of_reach reached]
      exact blank position
  | cons next below ih =>
      rw [List.cons_append]
      apply entryAt_of_unreached
      rw [List.cons_append, reach_cons, ← List.cons_append, ih next, format.child_blank]

theorem mem_nodes_of_reach (bounded : path.length ≤ depth)
    (reached : reach format cells root path = some node) : node ∈ nodes format depth cells root :=
  ⟨path, bounded, reached⟩

theorem root_mem_nodes : root ∈ nodes format depth cells root :=
  ⟨[], Nat.zero_le depth, rfl⟩

end Paths

/-! ## Writes -/

section Write

variable {format : Format Node Entry} {cells cells' : Node → Index → Entry} {root node fresh : Node}
  {depth : Nat} {index : Index} {owner path : List Index}

/-- Cells that no path of the tree leads to do not matter. -/
theorem reach_congr (same : ∀ node ∈ nodes format depth cells root, ∀ index,
      cells' node index = cells node index)
    (bounded : path.length ≤ depth + 1) :
    reach format cells' root path = reach format cells root path ∧
      entryAt format cells' root path = entryAt format cells root path := by
  induction path with
  | nil => exact ⟨rfl, rfl⟩
  | cons index owner ih =>
      have ownerBounded : owner.length ≤ depth := Nat.le_of_succ_le_succ bounded
      have ownerSame := (ih (Nat.le_succ_of_le ownerBounded)).1
      have entry : entryAt format cells' root (index :: owner) =
          entryAt format cells root (index :: owner) := by
        cases reached : reach format cells root owner with
        | none =>
            rw [entryAt_of_unreached reached, entryAt_of_unreached (ownerSame.trans reached)]
        | some node =>
            rw [entryAt_of_reach reached, entryAt_of_reach (ownerSame.trans reached)]
            exact same node (mem_nodes_of_reach ownerBounded reached) index
      exact ⟨by rw [reach_cons, reach_cons, entry], entry⟩

theorem IsTree.congr (tree : IsTree format depth cells root)
    (same : ∀ node ∈ nodes format depth cells root, ∀ index, cells' node index = cells node index) :
    IsTree format depth cells' root := by
  intro left right node leftBounded rightBounded leftReached rightReached
  rw [(reach_congr same (Nat.le_succ_of_le leftBounded)).1] at leftReached
  rw [(reach_congr same (Nat.le_succ_of_le rightBounded)).1] at rightReached
  exact tree leftBounded rightBounded leftReached rightReached

theorem nodes_congr (same : ∀ node ∈ nodes format depth cells root, ∀ index,
      cells' node index = cells node index) :
    nodes format depth cells' root = nodes format depth cells root := by
  ext node
  constructor
  · rintro ⟨path, bounded, reached⟩
    rw [(reach_congr same (Nat.le_succ_of_le bounded)).1] at reached
    exact ⟨path, bounded, reached⟩
  · rintro ⟨path, bounded, reached⟩
    rw [← (reach_congr same (Nat.le_succ_of_le bounded)).1] at reached
    exact ⟨path, bounded, reached⟩

/-- The tree's cells are those of `cells`, but for the one at `node` and `index`. -/
def WritesOnly (format : Format Node Entry) (depth : Nat) (cells cells' : Node → Index → Entry)
    (root node : Node) (index : Index) : Prop :=
  ∀ other ∈ nodes format depth cells root, ∀ position, (other = node → position ≠ index) →
    cells' other position = cells other position

/-- A write is seen only by the paths that go through the written cell. -/
theorem reach_write (tree : IsTree format depth cells root) (ownerBounded : owner.length ≤ depth)
    (ownerReached : reach format cells root owner = some node)
    (written : WritesOnly format depth cells cells' root node index)
    (bounded : path.length ≤ depth + 1) (elsewhere : ¬ index :: owner <:+ path) :
    reach format cells' root path = reach format cells root path ∧
      entryAt format cells' root path = entryAt format cells root path := by
  induction path with
  | nil => exact ⟨rfl, rfl⟩
  | cons position above ih =>
      have aboveBounded : above.length ≤ depth := Nat.le_of_succ_le_succ bounded
      have aboveElsewhere : ¬ index :: owner <:+ above :=
        fun suffix => elsewhere (suffix.trans (List.suffix_cons position above))
      have aboveSame := (ih (Nat.le_succ_of_le aboveBounded) aboveElsewhere).1
      have entry : entryAt format cells' root (position :: above) =
          entryAt format cells root (position :: above) := by
        cases reached : reach format cells root above with
        | none =>
            rw [entryAt_of_unreached reached, entryAt_of_unreached (aboveSame.trans reached)]
        | some other =>
            rw [entryAt_of_reach reached, entryAt_of_reach (aboveSame.trans reached)]
            apply written other (mem_nodes_of_reach aboveBounded reached)
            intro sameNode samePosition
            subst sameNode samePosition
            have samePath := tree aboveBounded ownerBounded reached ownerReached
            exact elsewhere (samePath ▸ List.suffix_refl _)
      exact ⟨by rw [reach_cons, reach_cons, entry], entry⟩

theorem reach_owner_write (tree : IsTree format depth cells root)
    (ownerBounded : owner.length ≤ depth)
    (ownerReached : reach format cells root owner = some node)
    (written : WritesOnly format depth cells cells' root node index) :
    reach format cells' root owner = some node := by
  have longer : ¬ index :: owner <:+ owner :=
    fun suffix => absurd suffix.length_le (by simp)
  rw [(reach_write tree ownerBounded ownerReached written (Nat.le_succ_of_le ownerBounded) longer).1]
  exact ownerReached

/-! ### A write to a last entry -/

section Last

variable (tree : IsTree format depth cells root) (last : owner.length = depth)
  (ownerReached : reach format cells root owner = some node)
  (written : WritesOnly format depth cells cells' root node index)

include tree last ownerReached written

theorem reach_writeLast (bounded : path.length ≤ depth) :
    reach format cells' root path = reach format cells root path := by
  have short : ¬ index :: owner <:+ path := by
    intro suffix
    have longer := suffix.length_le
    rw [List.length_cons] at longer
    omega
  exact (reach_write tree last.le ownerReached written (Nat.le_succ_of_le bounded) short).1

theorem IsTree.writeLast : IsTree format depth cells' root := by
  intro left right other leftBounded rightBounded leftReached rightReached
  rw [reach_writeLast tree last ownerReached written leftBounded] at leftReached
  rw [reach_writeLast tree last ownerReached written rightBounded] at rightReached
  exact tree leftBounded rightBounded leftReached rightReached

theorem nodes_writeLast : nodes format depth cells' root = nodes format depth cells root := by
  ext other
  constructor
  · rintro ⟨path, bounded, reached⟩
    rw [reach_writeLast tree last ownerReached written bounded] at reached
    exact ⟨path, bounded, reached⟩
  · rintro ⟨path, bounded, reached⟩
    rw [← reach_writeLast tree last ownerReached written bounded] at reached
    exact ⟨path, bounded, reached⟩

theorem entryAt_writeLast [DecidableEq Index] (bounded : path.length ≤ depth + 1) :
    entryAt format cells' root path =
      Function.update (entryAt format cells root) (index :: owner) (cells' node index) path := by
  by_cases here : path = index :: owner
  · rw [here, Function.update_self]
    exact entryAt_of_reach (reach_owner_write tree last.le ownerReached written)
  · have elsewhere : ¬ index :: owner <:+ path := by
      intro suffix
      apply here
      exact (suffix.eq_of_length_le (by rw [List.length_cons]; omega)).symm
    rw [Function.update_of_ne here]
    exact (reach_write tree last.le ownerReached written bounded elsewhere).2

end Last

/-! ### A fresh node below an entry that had none -/

variable [DecidableEq Index]

section Extend

variable (tree : IsTree format depth cells root) (inner : owner.length < depth)
  (ownerReached : reach format cells root owner = some node)
  (written : WritesOnly format depth cells cells' root node index)
  (absent : format.child (cells node index) = none)
  (refers : format.child (cells' node index) = some fresh)
  (blank : ∀ position, cells' fresh position = format.blank)

include tree inner ownerReached written absent refers blank

theorem entryAt_extend (bounded : path.length ≤ depth + 1) :
    entryAt format cells' root path =
      Function.update (entryAt format cells root) (index :: owner) (cells' node index) path := by
  have ownerReached' := reach_owner_write tree inner.le ownerReached written
  by_cases suffix : index :: owner <:+ path
  · obtain ⟨below, rfl⟩ := suffix
    have unreached : reach format cells root (index :: owner) = none := by
      rw [reach_cons, entryAt_of_reach ownerReached, absent]
    have freshReached : reach format cells' root (index :: owner) = some fresh := by
      rw [reach_cons, entryAt_of_reach ownerReached', refers]
    cases below with
    | nil =>
        rw [List.nil_append, Function.update_self]
        exact entryAt_of_reach ownerReached'
    | cons position below =>
        have below' : position :: below ++ index :: owner ≠ index :: owner := by
          intro same
          have lengths := congrArg List.length same
          rw [List.length_append, List.length_cons] at lengths
          omega
        rw [Function.update_of_ne below', List.cons_append,
          entryAt_of_unreached (reach_append_of_unreached unreached below)]
        exact entryAt_below_blank freshReached blank below position
  · have different : path ≠ index :: owner := fun same => suffix (same ▸ List.suffix_refl _)
    rw [Function.update_of_ne different]
    exact (reach_write tree inner.le ownerReached written bounded suffix).2

theorem reach_extend (bounded : path.length ≤ depth) :
    reach format cells' root path =
      if path = index :: owner then some fresh else reach format cells root path := by
  cases path with
  | nil => rw [if_neg (List.cons_ne_nil index owner).symm]; rfl
  | cons position above =>
      rw [reach_cons, entryAt_extend tree inner ownerReached written absent refers blank
        (Nat.le_succ_of_le bounded)]
      split
      · next here => rw [here, Function.update_self, refers]
      · next elsewhere => rw [Function.update_of_ne elsewhere, reach_cons]

theorem IsTree.extend (unused : fresh ∉ nodes format depth cells root) :
    IsTree format depth cells' root := by
  intro left right other leftBounded rightBounded leftReached rightReached
  rw [reach_extend tree inner ownerReached written absent refers blank leftBounded] at leftReached
  rw [reach_extend tree inner ownerReached written absent refers blank rightBounded] at rightReached
  have freshUnreached : ∀ path : List Index, path.length ≤ depth →
      reach format cells root path = some other → fresh ≠ other := by
    intro path bounded reached same
    exact unused (same ▸ mem_nodes_of_reach bounded reached)
  split at leftReached
  · next leftHere =>
    split at rightReached
    · next rightHere => rw [leftHere, rightHere]
    · exact absurd (Option.some.inj leftReached) (freshUnreached right rightBounded rightReached)
  · split at rightReached
    · exact absurd (Option.some.inj rightReached) (freshUnreached left leftBounded leftReached)
    · exact tree leftBounded rightBounded leftReached rightReached

theorem nodes_extend :
    nodes format depth cells' root = insert fresh (nodes format depth cells root) := by
  have reached : ∀ path : List Index, path.length ≤ depth → reach format cells' root path =
      if path = index :: owner then some fresh else reach format cells root path :=
    fun path bounded => reach_extend tree inner ownerReached written absent refers blank bounded
  ext other
  constructor
  · rintro ⟨path, bounded, otherReached⟩
    rw [reached path bounded] at otherReached
    split at otherReached
    · exact .inl (Option.some.inj otherReached).symm
    · exact .inr ⟨path, bounded, otherReached⟩
  · rintro (same | ⟨path, bounded, otherReached⟩)
    · rw [same]
      have here := reached (index :: owner) inner
      rw [if_pos rfl] at here
      exact ⟨index :: owner, inner, here⟩
    · have different : path ≠ index :: owner := by
        rintro rfl
        rw [reach_cons, entryAt_of_reach ownerReached, absent] at otherReached
        cases otherReached
      exact ⟨path, bounded, by rw [reached path bounded, if_neg different, otherReached]⟩

end Extend

end Write

end ScrapOS.RadixTree
