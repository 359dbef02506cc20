import ScrapOS.Buddy.Runs

/-! The intrusive lists against the list allocator, call by call: the same calls give
the same answers and the same lists, and every node that `list_find` and `list_remove`
dereference is the node of a block that is free at that moment. -/

set_option autoImplicit false

namespace ScrapOS.Buddy

/-! ## Calls and answers -/

inductive Call where
  | alloc (order : Nat)
  | free (phys : Word) (order : Nat)
deriving DecidableEq, Repr

/-- A call of the list allocator; a free answers nothing. -/
def Lists.call (lists : Lists) : Call → Option Word × Lists
  | .alloc order => (some (lists.alloc order).1, (lists.alloc order).2)
  | .free phys order => (none, lists.free phys order)

/-- The answers of the list allocator to a sequence of calls, and its final lists. -/
def Lists.replay (lists : Lists) : List Call → List (Option Word) × Lists
  | [] => ([], lists)
  | call :: rest =>
      ((lists.call call).1 :: ((lists.call call).2.replay rest).1, ((lists.call call).2.replay rest).2)

/-- A run with the calls it made and the answers it got, between which callers write
inside their own blocks. -/
inductive Calls (start : Config) : List (Call × Option Word) → Config → Prop where
  | none : Calls start [] start
  | alloc {log : List (Call × Option Word)} {c : Config} (order : Nat) :
      Calls start log c →
      Calls start (log ++ [(.alloc order, some (buddyAlloc c.mem c.globals order).1)]) (c.alloc order)
  | free {log : List (Call × Option Word)} {c : Config} {handle : Handle} {m' : Memory} {g' : Globals} :
      Calls start log c → handle ∈ c.live →
      buddyFree c.mem c.globals handle.1 handle.2 = some (m', g') →
      Calls start (log ++ [(.free handle.1 handle.2, Option.none)])
        { mem := m', globals := g', live := c.live.erase handle }
  | write {log : List (Call × Option Word)} {c : Config} {m' : Memory} :
      Calls start log c → Set.EqOn m' c.mem c.liveBytesᶜ → Calls start log { c with mem := m' }

theorem Lists.replay_concat (lists : Lists) (calls : List Call) (call : Call) :
    lists.replay (calls ++ [call]) =
      ((lists.replay calls).1 ++ [((lists.replay calls).2.call call).1],
        ((lists.replay calls).2.call call).2) := by
  induction calls generalizing lists with
  | nil => rfl
  | cons first rest ih => simp [Lists.replay, ih]

/-- The log of a run is what the list allocator answers to its calls, and the memory
encodes the lists it ends with. -/
theorem Calls.replay {start c : Config} {managed : Set Nat} {lists : Lists}
    {log : List (Call × Option Word)} (valid : Valid managed start lists) (ran : Calls start log c) :
    (lists.replay (log.map Prod.fst)).1 = log.map Prod.snd ∧
      Valid managed c (lists.replay (log.map Prod.fst)).2 := by
  induction ran with
  | none => exact ⟨rfl, valid⟩
  | @alloc log c order _ ih =>
      obtain ⟨answers, valid'⟩ := ih
      have same := (buddyAlloc_follows valid'.holds valid'.usable valid'.tiled order).1
      simp only [List.map_append, List.map_cons, List.map_nil, Lists.replay_concat]
      rw [answers, Lists.call, same]
      exact ⟨rfl, valid'.alloc order⟩
  | @free log c handle m' g' _ member returned ih =>
      obtain ⟨answers, valid'⟩ := ih
      obtain ⟨m'', g'', result, -, freed⟩ := valid'.free member
      rw [returned, Option.some.injEq, Prod.mk.injEq] at result
      obtain ⟨rfl, rfl⟩ := result
      simp only [List.map_append, List.map_cons, List.map_nil, Lists.replay_concat]
      rw [answers, Lists.call]
      exact ⟨rfl, freed⟩
  | write _ inside ih => exact ⟨ih.1, ih.2.write inside⟩

/-! ## The encoding, link by link -/

/-- Memory and globals encode the lists: along `next` every list is a null-terminated
chain of its nodes, `prev` leads to the predecessor, and no node is met twice. -/
structure Encodes (m : Memory) (g : Globals) (lists : Lists) : Prop where
  chain : ∀ o, o ≤ buddyMaxOrder → Chain (next m) (g.freeList o) ((lists o).map g.nodeAt) 0
  nonnull : ∀ o, o ≤ buddyMaxOrder → ∀ phys ∈ lists o, g.nodeAt phys ≠ 0
  back : ∀ o, o ≤ buddyMaxOrder → ∀ before phys behind, lists o = before ++ phys :: behind →
    prev m (g.nodeAt phys) = ((before.map g.nodeAt).getLast?).getD 0
  once : ((List.range (buddyMaxOrder + 1)).flatMap fun o => (lists o).map g.nodeAt).Nodup

theorem Holds.encodes {m : Memory} {g : Globals} {lists : Lists} {managed : Set Nat}
    {held : List Handle} (holds : Holds m g lists) (tiled : Partition managed lists held) :
    Encodes m g lists where
  chain := fun o bounded => (holds.linked o bounded).forward
  nonnull := fun o bounded phys member =>
    (holds.linked o bounded).nonnull _ (List.mem_map_of_mem member)
  back := by
    intro o bounded before phys behind shape
    have linked := holds.linked o bounded
    rw [shape, List.map_append, List.map_cons] at linked
    rw [linked.prev_eq, List.headD_eq_head?_getD, List.head?_reverse]
  once := by
    rw [List.nodup_flatMap]
    constructor
    · intro o member
      exact (holds.linked o (Nat.lt_succ_iff.mp (List.mem_range.mp member))).nodup
    · refine List.Pairwise.imp_of_mem ?_ List.nodup_range
      intro o other inRange otherInRange different
      have bounded := Nat.lt_succ_iff.mp (List.mem_range.mp inRange)
      have otherBounded := Nat.lt_succ_iff.mp (List.mem_range.mp otherInRange)
      intro node onList onOther
      obtain ⟨phys, present, rfl⟩ := List.mem_map.mp onList
      obtain ⟨q, present', same⟩ := List.mem_map.mp onOther
      rw [nodeAt_inj.mp same] at present'
      exact different (tiled.order_unique bounded present otherBounded present')

/-! ## The nodes a call dereferences -/

/-- The nodes whose `next` the scan of `list_find` from `n` reads. -/
inductive Scans (m : Memory) (g : Globals) (phys : Word) : Word → Word → Prop where
  | here {n : Word} : n ≠ 0 → g.physOf n ≠ phys → Scans m g phys n n
  | later {n other : Word} : n ≠ 0 → g.physOf n ≠ phys → Scans m g phys (next m n) other →
      Scans m g phys n other

/-- Memory after the first half of `list_remove`: the predecessor is redirected. -/
def redirected (m : Memory) (n : Word) : Memory :=
  if prev m n ≠ 0 then setNext m (prev m n) (next m n) else m

/-- The nodes that `list_remove` of `n` reads or writes. -/
inductive Unlinks (m : Memory) (n : Word) : Word → Prop where
  | node : Unlinks m n n
  | previous : prev m n ≠ 0 → Unlinks m n (prev m n)
  | following : next (redirected m n) n ≠ 0 → Unlinks m n (next (redirected m n) n)

/-- The nodes that `buddy_alloc` has `list_remove` dereference. -/
def AllocDereferences (m : Memory) (g : Globals) (order : Nat) (n : Word) : Prop :=
  order ≤ buddyMaxOrder ∧ searchOrder g (buddyMaxOrder + 1) order ≤ buddyMaxOrder ∧
    Unlinks m (g.freeList (searchOrder g (buddyMaxOrder + 1) order)) n

/-- The nodes that the merge loop of `buddy_free` has `list_find` and `list_remove`
dereference, each with the memory and the globals at that moment. -/
inductive FreeDereferences : Memory → Globals → Word → Nat → Memory → Globals → Word → Prop where
  | find {m : Memory} {g : Globals} {phys n : Word} {order : Nat} :
      order < buddyMaxOrder → Scans m g (phys ^^^ blockBytes order) (g.freeList order) n →
      FreeDereferences m g phys order m g n
  | remove {m : Memory} {g : Globals} {phys bn n : Word} {order : Nat} :
      order < buddyMaxOrder → listFind m g order (phys ^^^ blockBytes order) = some bn → bn ≠ 0 →
      Unlinks m bn n → FreeDereferences m g phys order m g n
  | merged {m m' : Memory} {g g' : Globals} {phys bn n : Word} {order : Nat} :
      order < buddyMaxOrder → listFind m g order (phys ^^^ blockBytes order) = some bn → bn ≠ 0 →
      FreeDereferences (listRemove m g order bn).1 (listRemove m g order bn).2
        (if phys ^^^ blockBytes order < phys then phys ^^^ blockBytes order else phys) (order + 1)
        m' g' n →
      FreeDereferences m g phys order m' g' n

/-- A node of a block that is free now. -/
def FreeNode (g : Globals) (lists : Lists) (n : Word) : Prop :=
  ∃ o, o ≤ buddyMaxOrder ∧ ∃ phys ∈ lists o, n = g.nodeAt phys

section Dereferences

variable {m : Memory} {g : Globals} {lists : Lists} {managed : Set Nat} {held : List Handle}
  {order : Nat} {phys n : Word}

theorem Scans.mem {first : Word} {nodes : List Word} (scans : Scans m g phys first n)
    (chain : Chain (next m) first nodes 0) : n ∈ nodes := by
  induction scans generalizing nodes with
  | here nonnull =>
      cases nodes with
      | nil => exact absurd chain nonnull
      | cons node rest => exact chain.1 ▸ List.mem_cons_self
  | later nonnull _ _ ih =>
      cases nodes with
      | nil => exact absurd chain nonnull
      | cons node rest =>
          obtain ⟨rfl, chain⟩ := chain
          exact List.mem_cons_of_mem _ (ih chain)

namespace Holds

theorem scans (holds : Holds m g lists) (bounded : order ≤ buddyMaxOrder)
    (scans : Scans m g phys (g.freeList order) n) : FreeNode g lists n := by
  obtain ⟨q, present, rfl⟩ := List.mem_map.mp (scans.mem (holds.linked order bounded).forward)
  exact ⟨order, bounded, q, present, rfl⟩

theorem unlinks (holds : Holds m g lists) (tiled : Partition managed lists held)
    (bounded : order ≤ buddyMaxOrder) (member : phys ∈ lists order)
    (unlinks : Unlinks m (g.nodeAt phys) n) : FreeNode g lists n := by
  obtain ⟨node, previous, following⟩ := holds.neighbours tiled bounded member
  have kept : next (redirected m (g.nodeAt phys)) (g.nodeAt phys) = next m (g.nodeAt phys) := by
    rw [redirected]
    split
    · next nonnull =>
      obtain ⟨q, present, same, different⟩ := previous nonnull
      have apart : g.nodeAt phys ≠ g.nodeAt q := fun equal => different (nodeAt_inj.mp equal).symm
      rw [same, next_setNext _ _ node (isNode_nodeAt (tiled.aligned order bounded q present)),
        if_neg apart]
    · rfl
  cases unlinks with
  | node => exact ⟨order, bounded, phys, member, rfl⟩
  | previous nonnull =>
      obtain ⟨q, present, same, -⟩ := previous nonnull
      exact ⟨order, bounded, q, present, same⟩
  | following nonnull =>
      rw [kept] at nonnull ⊢
      obtain ⟨q, present, same, -⟩ := following nonnull
      exact ⟨order, bounded, q, present, same⟩

theorem allocDereferences (holds : Holds m g lists) (tiled : Partition managed lists held)
    (dereferences : AllocDereferences m g order n) : FreeNode g lists n := by
  obtain ⟨accepted, bounded, unlinks⟩ := dereferences
  obtain ⟨-, -, found⟩ := Lists.searchOrder_spec lists
    (show buddyMaxOrder < order + (buddyMaxOrder + 1) by omega)
  rw [searchOrder_eq holds] at bounded unlinks
  obtain ⟨phys, rest, shape⟩ := List.exists_cons_of_ne_nil (found bounded)
  rw [holds.freeList_eq bounded shape] at unlinks
  exact holds.unlinks tiled bounded (shape ▸ List.mem_cons_self) unlinks

/-- `list_find` finds the node of a block of its list, or nothing. -/
theorem listFind_mem (holds : Holds m g lists) (bounded : order ≤ buddyMaxOrder) {bn : Word}
    (found : listFind m g order phys = some bn) (nonnull : bn ≠ 0) :
    phys ∈ lists order ∧ bn = g.nodeAt phys := by
  rw [holds.listFind_eq bounded, Option.some.injEq] at found
  by_cases present : phys ∈ lists order
  · rw [if_pos present] at found
    exact ⟨present, found.symm⟩
  · rw [if_neg present] at found
    exact absurd found.symm nonnull

/-- Every iteration of the merge loop starts from lists that memory encodes. -/
theorem freeDereferences {m' : Memory} {g' : Globals} (holds : Holds m g lists)
    (tiled : Partition managed lists ((phys, order) :: held))
    (dereferences : FreeDereferences m g phys order m' g' n) :
    ∃ lists', Encodes m' g' lists' ∧ FreeNode g' lists' n := by
  induction dereferences generalizing lists with
  | find below scans => exact ⟨lists, holds.encodes tiled, holds.scans (Nat.le_of_lt below) scans⟩
  | remove below found nonnull unlinks =>
      obtain ⟨present, rfl⟩ := holds.listFind_mem (Nat.le_of_lt below) found nonnull
      exact ⟨lists, holds.encodes tiled, holds.unlinks tiled (Nat.le_of_lt below) present unlinks⟩
  | merged below found nonnull _ ih =>
      obtain ⟨present, rfl⟩ := holds.listFind_mem (Nat.le_of_lt below) found nonnull
      exact ih (holds.remove tiled (Nat.le_of_lt below) present)
        ((tiled.take (Nat.le_of_lt below) present).join below)

end Holds

end Dereferences

/-! ## The refinement -/

/-- After any calls memory encodes the lists of the list allocator after the same
calls, with the same answers, and no call dereferences a node of a block in use. -/
theorem buddy_refines_lists {start c : Config} {lists : Lists} {log : List (Call × Option Word)}
    (initial : Initial start lists) (ran : Calls start log c) :
    ∃ lists', lists.replay (log.map Prod.fst) = (log.map Prod.snd, lists') ∧
      Encodes c.mem c.globals lists' ∧
      (∀ order n, AllocDereferences c.mem c.globals order n → FreeNode c.globals lists' n) ∧
      ∀ handle ∈ c.live,
        (buddyFree c.mem c.globals handle.1 handle.2).isSome ∧
        ∀ m' g' n, FreeDereferences c.mem c.globals handle.1 handle.2 m' g' n →
          ∃ between, Encodes m' g' between ∧ FreeNode g' between n := by
  obtain ⟨answers, valid⟩ := ran.replay initial.valid
  refine ⟨_, Prod.ext answers rfl, valid.holds.encodes valid.tiled, ?_, ?_⟩
  · exact fun order n dereferences => valid.holds.allocDereferences valid.tiled dereferences
  · intro handle member
    have inHand := valid.tiled.perm (List.perm_cons_erase member)
    constructor
    · obtain ⟨m', g', returned, -⟩ := valid.free member
      rw [returned]
      rfl
    · intro m' g' n dereferences
      exact valid.holds.freeDereferences inHand dereferences

theorem buddy_refines_lists_oneBlock :
    ∃ log c lists', Calls oneBlock log c ∧ log.map Prod.snd = [some 0x400000] ∧
      oneBlockLists.replay (log.map Prod.fst) = (log.map Prod.snd, lists') := by
  have ran : Calls oneBlock _ _ := .alloc 3 .none
  obtain ⟨lists', same, -⟩ := buddy_refines_lists oneBlock_initial ran
  exact ⟨_, _, lists', ran, by decide +kernel, same⟩

end ScrapOS.Buddy
