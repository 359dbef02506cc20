import ScrapOS.Memory.Bytes

/-! Linked structures over a successor function on addresses: the search loop
that follows successors, chains from one address to another, and doubly linked
lists as a forward chain with a matching backward chain. The successor function
is left abstract, so the same laws serve every link offset. -/

set_option autoImplicit false

namespace ScrapOS

/-! ## The search loop -/

def walkWithin (next : Word → Word) (stop : Word → Bool) : Nat → Word → Option Word
  | 0, _ => none
  | steps + 1, start => if stop start then some start else walkWithin next stop steps (next start)

/-- The unbounded search loop. A loop that has not stopped after visiting `2 ^ 64`
addresses has visited one of them twice and runs forever, which is `none`. -/
def walk (next : Word → Word) (stop : Word → Bool) (start : Word) : Option Word :=
  walkWithin next stop (2 ^ 64) start

private theorem walkWithin_eq_some_iff {next : Word → Word} {stop : Word → Bool}
    {steps : Nat} {start found : Word} :
    walkWithin next stop steps start = some found ↔
      ∃ k, k < steps ∧ (∀ j, j < k → stop (next^[j] start) = false) ∧
        stop (next^[k] start) = true ∧ next^[k] start = found := by
  induction steps generalizing start with
  | zero => simp [walkWithin]
  | succ steps ih =>
      by_cases stopped : stop start = true
      · rw [walkWithin, if_pos stopped, Option.some.injEq]
        constructor
        · intro same
          exact ⟨0, Nat.succ_pos steps, by simp, stopped, same⟩
        · rintro ⟨k, -, before, -, same⟩
          cases k with
          | zero => exact same
          | succ k => exact absurd (before 0 (Nat.succ_pos k)) (by simp [stopped])
      · rw [walkWithin, if_neg stopped, ih]
        constructor
        · rintro ⟨k, bound, before, atEnd, same⟩
          refine ⟨k + 1, by omega, ?_, atEnd, same⟩
          intro j earlier
          cases j with
          | zero => exact Bool.eq_false_iff.mpr stopped
          | succ j => exact before j (by omega)
        · rintro ⟨k, bound, before, atEnd, same⟩
          cases k with
          | zero => exact absurd atEnd stopped
          | succ k => exact ⟨k, by omega, fun j earlier => before (j + 1) (by omega), atEnd, same⟩

/-- The first stopping point of a successor sequence is reached within `2 ^ 64`
steps: an earlier repetition would have brought the stop forward. -/
private theorem first_stop_lt {next : Word → Word} {stop : Word → Bool} {start : Word} {k : Nat}
    (before : ∀ j, j < k → stop (next^[j] start) = false)
    (atEnd : stop (next^[k] start) = true) : k < 2 ^ 64 := by
  by_contra tooFar
  let visited : Fin (k + 1) → Fin (2 ^ 64) := fun j => (next^[j.val] start).toFin
  have crowded : Fintype.card (Fin (2 ^ 64)) < Fintype.card (Fin (k + 1)) := by
    simp only [Fintype.card_fin]
    omega
  obtain ⟨left, right, different, collide⟩ := Fintype.exists_ne_map_eq_of_card_lt visited crowded
  have repeats : ∀ i j : Nat, i < j → j ≤ k → next^[i] start ≠ next^[j] start := by
    intro i j earlier bound same
    have shifted : next^[k - j + i] start = next^[k] start := by
      rw [Function.iterate_add_apply, same, ← Function.iterate_add_apply, Nat.sub_add_cancel bound]
    have unstopped := before (k - j + i) (by omega)
    rw [shifted, atEnd] at unstopped
    exact Bool.noConfusion unstopped
  have same : next^[left.val] start = next^[right.val] start := BitVec.eq_of_toFin_eq collide
  rcases Nat.lt_or_gt_of_ne (fun equal => different (Fin.ext equal)) with lower | higher
  · exact repeats _ _ lower (Nat.lt_succ_iff.mp right.isLt) same
  · exact repeats _ _ higher (Nat.lt_succ_iff.mp left.isLt) same.symm

theorem walk_eq_some_iff {next : Word → Word} {stop : Word → Bool} {start found : Word} :
    walk next stop start = some found ↔
      ∃ k, (∀ j, j < k → stop (next^[j] start) = false) ∧
        stop (next^[k] start) = true ∧ next^[k] start = found := by
  rw [walk, walkWithin_eq_some_iff]
  constructor
  · rintro ⟨k, -, before, atEnd, same⟩
    exact ⟨k, before, atEnd, same⟩
  · rintro ⟨k, before, atEnd, same⟩
    exact ⟨k, first_stop_lt before atEnd, before, atEnd, same⟩

theorem walk_of_stop {next : Word → Word} {stop : Word → Bool} {start : Word}
    (stopped : stop start = true) : walk next stop start = some start :=
  walk_eq_some_iff.mpr ⟨0, by simp, stopped, rfl⟩

/-- The loop equation, free of any step bound. -/
theorem walk_of_not_stop {next : Word → Word} {stop : Word → Bool} {start : Word}
    (running : stop start = false) : walk next stop start = walk next stop (next start) := by
  ext found
  rw [walk_eq_some_iff, walk_eq_some_iff]
  constructor
  · rintro ⟨k, before, atEnd, same⟩
    cases k with
    | zero => rw [Function.iterate_zero_apply, running] at atEnd; cases atEnd
    | succ k => exact ⟨k, fun j earlier => before (j + 1) (by omega), atEnd, same⟩
  · rintro ⟨k, before, atEnd, same⟩
    refine ⟨k + 1, ?_, atEnd, same⟩
    intro j earlier
    cases j with
    | zero => exact running
    | succ j => exact before j (by omega)

/-! ## Chains -/

/-- `nodes` are the addresses met on the way from `first` to `after`. -/
def Chain (next : Word → Word) : Word → List Word → Word → Prop
  | first, [], after => first = after
  | first, node :: rest, after => first = node ∧ Chain next (next node) rest after

namespace Chain

variable {next next' : Word → Word} {first after : Word} {nodes left right : List Word}

@[simp] theorem nil_iff : Chain next first [] after ↔ first = after := Iff.rfl

@[simp] theorem cons_iff {node : Word} {rest : List Word} :
    Chain next first (node :: rest) after ↔ first = node ∧ Chain next (next node) rest after :=
  Iff.rfl

theorem append_iff :
    Chain next first (left ++ right) after ↔
      ∃ middle, Chain next first left middle ∧ Chain next middle right after := by
  induction left generalizing first with
  | nil => simp
  | cons node rest ih => simp [ih, and_assoc]

theorem congr (chain : Chain next first nodes after)
    (agree : ∀ node ∈ nodes, next' node = next node) : Chain next' first nodes after := by
  induction nodes generalizing first with
  | nil => exact chain
  | cons node rest ih =>
      refine ⟨chain.1, ?_⟩
      rw [agree node List.mem_cons_self]
      exact ih chain.2 fun other member => agree other (List.mem_cons_of_mem _ member)

theorem first_eq (chain : Chain next first nodes after) : first = nodes.headD after := by
  cases nodes with
  | nil => exact chain
  | cons node rest => exact chain.1

theorem redirect_last {last target : Word}
    (chain : Chain next first (left ++ [last]) after)
    (agree : ∀ node ∈ left, next' node = next node) (redirected : next' last = target) :
    Chain next' first (left ++ [last]) target := by
  obtain ⟨middle, before, atLast⟩ := append_iff.mp chain
  exact append_iff.mpr ⟨middle, before.congr agree, atLast.1, redirected⟩

theorem next_mem_tail {node : Word} (chain : Chain next first nodes after)
    (member : node ∈ nodes.dropLast) : next node ∈ nodes.tail := by
  induction nodes generalizing first with
  | nil => cases member
  | cons front rest ih =>
      obtain ⟨rfl, chain⟩ := chain
      cases rest with
      | nil => cases member
      | cons second behind =>
        rw [List.dropLast_cons_cons] at member
        cases List.mem_cons.mp member with
        | inl isFront =>
          rw [isFront, chain.1]
          exact List.mem_cons_self
        | inr later => exact List.mem_cons_of_mem _ (ih chain later)

/-- Unlinking a node: its predecessor takes over its successor. The head moves
only when the node was the first one. -/
theorem unlink {node : Word} (chain : Chain next first (left ++ node :: right) after)
    (agreeLeft : ∀ other ∈ left.dropLast, next' other = next other)
    (agreeRight : ∀ other ∈ right, next' other = next other)
    (redirected : ∀ last ∈ left.getLast?, next' last = next node) :
    Chain next' (if left = [] then next node else first) (left ++ right) after := by
  obtain ⟨middle, before, rfl, behind⟩ := append_iff.mp chain
  have kept := behind.congr agreeRight
  rcases List.eq_nil_or_concat' left with rfl | ⟨earlier, last, rfl⟩
  · simpa using kept
  · have nonempty : earlier ++ [last] ≠ [] := by simp
    rw [if_neg nonempty]
    refine append_iff.mpr ⟨next middle, before.redirect_last ?_ ?_, kept⟩
    · intro other member
      exact agreeLeft other (by simpa using member)
    · exact redirected last (by simp)

theorem unique {other : List Word} (chain : Chain next first nodes 0)
    (nonnull : ∀ node ∈ nodes, node ≠ 0) (chain' : Chain next first other 0)
    (nonnull' : ∀ node ∈ other, node ≠ 0) : nodes = other := by
  induction nodes generalizing first other with
  | nil =>
      cases other with
      | nil => rfl
      | cons node rest =>
          exact absurd (chain'.1.symm.trans chain) (nonnull' node List.mem_cons_self)
  | cons node rest ih =>
      cases other with
      | nil => exact absurd (chain.1.symm.trans chain') (nonnull node List.mem_cons_self)
      | cons node' rest' =>
          obtain ⟨rfl, chain⟩ := chain
          obtain ⟨rfl, chain'⟩ := chain'
          rw [ih chain (fun n member => nonnull n (List.mem_cons_of_mem _ member)) chain'
            (fun n member => nonnull' n (List.mem_cons_of_mem _ member))]

/-- A null-terminated chain cannot pass through a node twice. -/
theorem nodup (chain : Chain next first nodes 0) (nonnull : ∀ node ∈ nodes, node ≠ 0) :
    nodes.Nodup := by
  induction nodes generalizing first with
  | nil => exact List.nodup_nil
  | cons node rest ih =>
      have nonnullRest : ∀ other ∈ rest, other ≠ 0 :=
        fun other member => nonnull other (List.mem_cons_of_mem _ member)
      refine List.nodup_cons.mpr ⟨?_, ih chain.2 nonnullRest⟩
      intro again
      obtain ⟨before, behind, rfl⟩ := List.append_of_mem again
      obtain ⟨middle, -, rfl, tail⟩ := append_iff.mp chain.2
      have same := unique chain.2 nonnullRest tail
        fun other member => nonnullRest other (by simp [member])
      have lengths := congrArg List.length same
      simp only [List.length_append, List.length_cons] at lengths
      omega

theorem walk_eq {stop : Word → Bool} (chain : Chain next first nodes after)
    (running : ∀ node ∈ nodes, stop node = false) :
    walk next stop first = walk next stop after := by
  induction nodes generalizing first with
  | nil => rw [nil_iff.mp chain]
  | cons node rest ih =>
      obtain ⟨rfl, chain⟩ := chain
      rw [walk_of_not_stop (running first List.mem_cons_self)]
      exact ih chain fun other member => running other (List.mem_cons_of_mem _ member)

theorem walk_eq_some {stop : Word → Bool} {node : Word}
    (chain : Chain next first (left ++ node :: right) after)
    (running : ∀ other ∈ left, stop other = false) (stopped : stop node = true) :
    walk next stop first = some node := by
  obtain ⟨middle, before, rfl, -⟩ := append_iff.mp chain
  rw [before.walk_eq running, walk_of_stop stopped]

end Chain

/-! ## Doubly linked lists -/

/-- A null-terminated list whose backward links retrace it from its last node. -/
structure DoublyLinked (next prev : Word → Word) (head : Word) (nodes : List Word) : Prop where
  forward : Chain next head nodes 0
  backward : Chain prev (nodes.reverse.headD 0) nodes.reverse 0
  nonnull : ∀ node ∈ nodes, node ≠ 0

namespace DoublyLinked

variable {next prev next' prev' : Word → Word} {head : Word} {nodes left right : List Word}

theorem nil : DoublyLinked next prev 0 [] := ⟨rfl, rfl, by simp⟩

theorem nodup (linked : DoublyLinked next prev head nodes) : nodes.Nodup :=
  linked.forward.nodup linked.nonnull

theorem head_eq_zero_iff (linked : DoublyLinked next prev head nodes) :
    head = 0 ↔ nodes = [] := by
  cases nodes with
  | nil => simpa using linked.forward
  | cons node rest =>
      have nonnull : head ≠ 0 := linked.forward.1 ▸ linked.nonnull node List.mem_cons_self
      simpa using nonnull

theorem congr (linked : DoublyLinked next prev head nodes)
    (agreeNext : ∀ node ∈ nodes, next' node = next node)
    (agreePrev : ∀ node ∈ nodes, prev' node = prev node) :
    DoublyLinked next' prev' head nodes where
  forward := linked.forward.congr agreeNext
  backward := linked.backward.congr fun node member => agreePrev node (by simpa using member)
  nonnull := linked.nonnull

/-- A node in front of the list: it points at the old head and the old head back at it. -/
theorem push {node : Word} (linked : DoublyLinked next prev head nodes) (nonnull : node ≠ 0)
    (fresh : node ∉ nodes)
    (nextAfter : ∀ other ∈ node :: nodes,
      next' other = if other = node then head else next other)
    (prevAfter : ∀ other ∈ node :: nodes,
      prev' other = if head ≠ 0 ∧ other = head then node
        else if other = node then 0 else prev other) :
    DoublyLinked next' prev' node (node :: nodes) where
  forward := by
    refine ⟨rfl, ?_⟩
    rw [nextAfter node List.mem_cons_self, if_pos rfl]
    refine linked.forward.congr fun other member => ?_
    have different : other ≠ node := fun same => fresh (same ▸ member)
    rw [nextAfter other (List.mem_cons_of_mem _ member), if_neg different]
  backward := by
    have prevNode := prevAfter node List.mem_cons_self
    cases nodes with
    | nil =>
        have empty : head = 0 := linked.forward
        have notHead : ¬ (head ≠ 0 ∧ node = head) := fun both => both.1 empty
        rw [if_neg notHead, if_pos rfl] at prevNode
        exact ⟨rfl, prevNode⟩
    | cons old rest =>
        obtain ⟨rfl, -⟩ := linked.forward
        have front : ∀ after : Word, (rest.reverse ++ [head] ++ [after]).headD 0 =
            (rest.reverse ++ [head]).headD 0 := by
          intro after
          cases rest.reverse <;> rfl
        have notHead : ¬ (head ≠ 0 ∧ node = head) :=
          fun both => fresh (both.2 ▸ List.mem_cons_self)
        rw [if_neg notHead, if_pos rfl] at prevNode
        have backward := linked.backward
        rw [List.reverse_cons] at backward
        rw [List.reverse_cons, List.reverse_cons, front]
        refine Chain.append_iff.mpr ⟨node, backward.redirect_last ?_ ?_, rfl, prevNode⟩
        · intro other member
          have inRest : other ∈ rest := by simpa using member
          have notHead : ¬ (head ≠ 0 ∧ other = head) :=
            fun both => (List.nodup_cons.mp linked.nodup).1 (both.2 ▸ inRest)
          have notNode : other ≠ node :=
            fun same => fresh (same ▸ List.mem_cons_of_mem _ inRest)
          rw [prevAfter other (by simp [inRest]), if_neg notHead, if_neg notNode]
        · rw [prevAfter head (by simp),
            if_pos ⟨linked.nonnull head List.mem_cons_self, rfl⟩]
  nonnull := by
    intro other member
    rcases List.mem_cons.mp member with rfl | member
    · exact nonnull
    · exact linked.nonnull other member

theorem next_eq {node : Word} (linked : DoublyLinked next prev head (left ++ node :: right)) :
    next node = right.headD 0 := by
  obtain ⟨_, -, -, behind⟩ := Chain.append_iff.mp linked.forward
  exact behind.first_eq

theorem prev_eq {node : Word} (linked : DoublyLinked next prev head (left ++ node :: right)) :
    prev node = left.reverse.headD 0 := by
  have backward := linked.backward
  rw [List.reverse_append, List.reverse_cons, List.append_assoc] at backward
  obtain ⟨_, -, -, behind⟩ := Chain.append_iff.mp backward
  exact Chain.first_eq behind

theorem shape_before {node : Word} (linked : DoublyLinked next prev head (left ++ node :: right))
    (nonempty : prev node ≠ 0) : ∃ earlier, left = earlier ++ [prev node] := by
  have prevNode := linked.prev_eq
  cases List.eq_nil_or_concat' left with
  | inl empty =>
      subst empty
      exact absurd prevNode nonempty
  | inr more =>
      obtain ⟨earlier, last, rfl⟩ := more
      exact ⟨earlier, by rw [prevNode]; simp⟩

theorem shape_behind {node : Word} (linked : DoublyLinked next prev head (left ++ node :: right))
    (nonempty : next node ≠ 0) : ∃ later, right = next node :: later := by
  have nextNode := linked.next_eq
  cases right with
  | nil => exact absurd nextNode nonempty
  | cons front later => exact ⟨later, by rw [nextNode]; rfl⟩

theorem unlink_forward {node : Word} (linked : DoublyLinked next prev head (left ++ node :: right))
    (nextAfter : ∀ other ∈ left ++ right,
      next' other = if prev node ≠ 0 ∧ other = prev node then next node else next other) :
    Chain next' (if prev node ≠ 0 then head else next node) (left ++ right) 0 := by
  have prevNode := linked.prev_eq
  have nonnullLeft : ∀ other ∈ left, other ≠ 0 :=
    fun other member => linked.nonnull other (List.mem_append_left _ member)
  obtain ⟨uniqueLeft, -, apart⟩ := List.nodup_append.mp linked.nodup
  have unlinked : Chain next' (if left = [] then next node else head) (left ++ right) 0 := by
    refine linked.forward.unlink ?_ ?_ ?_
    · intro other member
      rw [nextAfter other (List.mem_append_left _ (List.mem_of_mem_dropLast member)), if_neg]
      rintro ⟨nonempty, same⟩
      obtain ⟨earlier, shape⟩ := linked.shape_before nonempty
      rw [shape, List.dropLast_concat, same] at member
      rw [shape] at uniqueLeft
      exact (List.nodup_append.mp uniqueLeft).2.2 _ member _ (by simp) rfl
    · intro other member
      rw [nextAfter other (List.mem_append_right _ member), if_neg]
      rintro ⟨nonempty, same⟩
      obtain ⟨earlier, shape⟩ := linked.shape_before nonempty
      exact apart _ (by rw [shape]; simp) _ (List.mem_cons_of_mem _ member) same.symm
    · intro last isLast
      have inLeft : last ∈ left := List.mem_of_getLast? isLast
      have same : last = prev node := by
        rw [prevNode, List.headD_eq_head?_getD, List.head?_reverse, isLast]
        rfl
      rw [nextAfter last (List.mem_append_left _ inLeft),
        if_pos ⟨same ▸ nonnullLeft last inLeft, same⟩]
  have sameHead : (if left = [] then next node else head) =
      if prev node ≠ 0 then head else next node := by
    by_cases nonempty : prev node = 0
    · have empty : left = [] := by
        cases List.eq_nil_or_concat' left with
        | inl empty => exact empty
        | inr more =>
            obtain ⟨earlier, last, rfl⟩ := more
            have isLast : prev node = last := by rw [prevNode]; simp
            exact absurd (isLast.symm.trans nonempty) (nonnullLeft last (by simp))
      rw [if_pos empty, if_neg fun more => more nonempty]
    · obtain ⟨earlier, shape⟩ := linked.shape_before nonempty
      rw [if_pos nonempty, if_neg (by rw [shape]; simp)]
  rw [← sameHead]
  exact unlinked

theorem unlink_backward {node : Word} (linked : DoublyLinked next prev head (left ++ node :: right))
    (prevAfter : ∀ other ∈ left ++ right,
      prev' other = if next node ≠ 0 ∧ other = next node then prev node else prev other) :
    Chain prev' ((left ++ right).reverse.headD 0) (left ++ right).reverse 0 := by
  have nextNode := linked.next_eq
  have nonnullRight : ∀ other ∈ right, other ≠ 0 := fun other member =>
    linked.nonnull other (List.mem_append_right _ (List.mem_cons_of_mem _ member))
  obtain ⟨-, uniqueRight, apart⟩ := List.nodup_append.mp linked.nodup
  have backward := linked.backward
  rw [List.reverse_append, List.reverse_cons, List.append_assoc, List.singleton_append]
    at backward
  have agreeRight : ∀ other ∈ right.reverse.dropLast, prev' other = prev other := by
    intro other member
    rw [List.dropLast_reverse, List.mem_reverse] at member
    rw [prevAfter other (List.mem_append_right _ (List.mem_of_mem_tail member)), if_neg]
    rintro ⟨nonempty, same⟩
    obtain ⟨later, shape⟩ := linked.shape_behind nonempty
    rw [shape, List.tail_cons, same] at member
    have uniqueTail := (List.nodup_cons.mp uniqueRight).2
    rw [shape] at uniqueTail
    exact (List.nodup_cons.mp uniqueTail).1 member
  have agreeLeft : ∀ other ∈ left.reverse, prev' other = prev other := by
    intro other member
    rw [List.mem_reverse] at member
    rw [prevAfter other (List.mem_append_left _ member), if_neg]
    rintro ⟨nonempty, same⟩
    obtain ⟨later, shape⟩ := linked.shape_behind nonempty
    exact apart _ member _ (by rw [shape]; simp) same
  have redirected : ∀ front ∈ right.reverse.getLast?, prev' front = prev node := by
    intro front isFront
    rw [List.getLast?_reverse] at isFront
    have inRight : front ∈ right := List.mem_of_mem_head? isFront
    have same : front = next node := by
      rw [nextNode, List.headD_eq_head?_getD, isFront]
      rfl
    rw [prevAfter front (List.mem_append_right _ inRight),
      if_pos ⟨same ▸ nonnullRight front inRight, same⟩]
  have unlinked := backward.unlink agreeRight agreeLeft redirected
  rw [← List.reverse_append] at unlinked
  have front := unlinked.first_eq
  rwa [front] at unlinked

/-- Taking a node out: each neighbour takes over the link that led past the node. -/
theorem unlink {node : Word} (linked : DoublyLinked next prev head (left ++ node :: right))
    (nextAfter : ∀ other ∈ left ++ right,
      next' other = if prev node ≠ 0 ∧ other = prev node then next node else next other)
    (prevAfter : ∀ other ∈ left ++ right,
      prev' other = if next node ≠ 0 ∧ other = next node then prev node else prev other) :
    DoublyLinked next' prev' (if prev node ≠ 0 then head else next node) (left ++ right) where
  forward := linked.unlink_forward nextAfter
  backward := linked.unlink_backward prevAfter
  nonnull := by
    intro other member
    apply linked.nonnull other
    cases List.mem_append.mp member with
    | inl inLeft => exact List.mem_append_left _ inLeft
    | inr inRight => exact List.mem_append_right _ (List.mem_cons_of_mem _ inRight)

end DoublyLinked

end ScrapOS
