import ScrapOS.Memory.Chain

/-! Circular singly linked lists: a chain from a node through all the others back
to itself. Advancing to the successor rotates the list of nodes. -/

set_option autoImplicit false

namespace ScrapOS

/-- The nodes met on the way once around, starting at the first of them. -/
def Ring (next : Word → Word) : List Word → Prop
  | [] => False
  | first :: rest => Chain next first (first :: rest) first

namespace Ring

variable {next next' : Word → Word} {first : Word} {nodes rest : List Word}

theorem cons_iff : Ring next (first :: rest) ↔ Chain next (next first) rest first :=
  ⟨And.right, fun chain => ⟨rfl, chain⟩⟩

theorem congr (ring : Ring next nodes) (agree : ∀ node ∈ nodes, next' node = next node) :
    Ring next' nodes := by
  cases nodes with
  | nil => exact ring
  | cons first rest => exact Chain.congr ring agree

theorem rotate (ring : Ring next (first :: rest)) : Ring next (rest ++ [first]) := by
  rw [cons_iff] at ring
  cases rest with
  | nil => exact ⟨rfl, ring⟩
  | cons second behind =>
    obtain ⟨isNext, chain⟩ := ring
    rw [List.cons_append, cons_iff]
    exact Chain.append_iff.mpr ⟨first, chain, rfl, isNext⟩

theorem next_eq (ring : Ring next (first :: rest)) : next first = (rest ++ [first]).headD first := by
  rw [cons_iff] at ring
  cases rest with
  | nil => exact ring
  | cons second behind => exact ring.1

theorem splice {last node : Word} {before : List Word} (ring : Ring next nodes)
    (shape : nodes = before ++ [last]) (isFirst : nodes.head? = some first)
    (agree : ∀ other ∈ before, next' other = next other) (lastAfter : next' last = node)
    (nodeAfter : next' node = first) : Ring next' (nodes ++ [node]) := by
  cases nodes with
  | nil => exact ring.elim
  | cons front rest =>
    obtain rfl : front = first := Option.some.inj isFirst
    have whole : Chain next front (before ++ [last]) front := shape ▸ ring
    have redirected := whole.redirect_last agree lastAfter
    rw [← shape] at redirected
    have extended : Chain next' front ((front :: rest) ++ [node]) front :=
      Chain.append_iff.mpr ⟨node, redirected, rfl, nodeAfter⟩
    exact extended

/-- The search for the node that leads back to the first one ends at the last. -/
theorem walk_last {last : Word} {before : List Word} (ring : Ring next (first :: rest))
    (shape : first :: rest = before ++ [last]) (once : (first :: rest).Nodup) :
    walk next (fun node => next node == first) first = some last := by
  have whole : Chain next first (before ++ [last]) first := shape ▸ ring
  refine whole.walk_eq_some ?_ ?_
  · intro other member
    refine beq_eq_false_iff_ne.mpr fun back => ?_
    have inDropLast : other ∈ (first :: rest).dropLast := by
      rw [shape, List.dropLast_concat]
      exact member
    have behind := Chain.next_mem_tail ring inDropLast
    exact (List.nodup_cons.mp once).1 (back ▸ behind)
  · obtain ⟨middle, -, atLast⟩ := Chain.append_iff.mp whole
    obtain ⟨rfl, back⟩ := atLast
    rw [Chain.nil_iff.mp back]
    exact beq_self_eq_true _

theorem next_iterate {steps : Nat} {node : Word} (ring : Ring next (first :: rest))
    (found : (first :: rest)[steps]? = some node) : next^[steps] first = node := by
  have along : ∀ {start after : Word} {nodes : List Word} {steps : Nat},
      Chain next start nodes after → nodes[steps]? = some node → next^[steps] start = node := by
    intro start after nodes steps chain found
    induction nodes generalizing start steps with
    | nil => cases found
    | cons front behind ih =>
        obtain ⟨rfl, chain⟩ := chain
        cases steps with
        | zero => exact Option.some.inj found
        | succ steps =>
          rw [Function.iterate_succ_apply]
          exact ih chain found
  exact along ring found

end Ring

end ScrapOS
