import ScrapOS.Simulation.Basic
import ScrapOS.Buddy.Refinement

/-! Runs of the buddy allocator: any interleaving of allocations at any order,
frees of live blocks at their order, and writes of the callers inside their own
blocks. -/

set_option autoImplicit false

namespace ScrapOS.Buddy

open DyadicBlocks

/-- A state of a run: memory, the globals of `buddy.c`, and the blocks that
`buddy_alloc` returned and that have not been given back. -/
structure Config where
  mem : Memory
  globals : Globals
  live : List Handle

namespace Config

/-- The bytes of the blocks the callers own. -/
def liveBytes (c : Config) : Set Word :=
  {address | ∃ handle ∈ c.live,
    address ∈ span (c.globals.nodeAt handle.1) (4096 * 2 ^ handle.2)}

def alloc (c : Config) (order : Nat) : Config where
  mem := (buddyAlloc c.mem c.globals order).2.1
  globals := (buddyAlloc c.mem c.globals order).2.2
  live := if (buddyAlloc c.mem c.globals order).1 = 0 then c.live
    else ((buddyAlloc c.mem c.globals order).1, order) :: c.live

end Config

inductive Step : Config → Config → Prop where
  | alloc {c : Config} (order : Nat) :
      Step c (c.alloc order)
  | free {c : Config} {handle : Handle} {m' : Memory} {g' : Globals} :
      handle ∈ c.live → buddyFree c.mem c.globals handle.1 handle.2 = some (m', g') →
      Step c { mem := m', globals := g', live := c.live.erase handle }
  | write {c : Config} {m' : Memory} :
      Set.EqOn m' c.mem c.liveBytesᶜ → Step c { c with mem := m' }

abbrev Run : Config → Config → Prop := Relation.ReflTransGen Step

/-- A state with nothing handed out whose lists hold disjoint blocks, each aligned
to its order, not at address 0 and reachable through the direct map. -/
structure Initial (c : Config) (lists : Lists) : Prop where
  holds : Holds c.mem c.globals lists
  aligned : ∀ o, o ≤ buddyMaxOrder → ∀ phys ∈ lists o, AlignedTo o phys ∧ phys ≠ 0
  disjoint : lists.blocks.Pairwise fun left right => Disjoint left.points right.points
  reachable : ∀ block ∈ lists.blocks, ∀ frame ∈ block.points,
    BitVec.ofNat 64 (frame * 4096) + c.globals.gHhdm ≠ 0
  nothingLive : c.live = []

/-- The frames of all free blocks of some lists. -/
def Lists.frames (lists : Lists) : Set Nat := {frame | ∃ block ∈ lists.blocks, frame ∈ block.points}

/-- The frames of the live blocks. -/
def Config.liveFrames (c : Config) : Set Nat :=
  {frame | ∃ handle ∈ c.live, frame ∈ handle.block.points}

theorem Config.liveFrames_congr {c c' : Config} (same : c.live = c'.live) :
    c.liveFrames = c'.liveFrames := by
  rw [liveFrames, liveFrames, same]

/-- The invariant of a run over the frames of `managed`. -/
structure Valid (managed : Set Nat) (c : Config) (lists : Lists) : Prop where
  holds : Holds c.mem c.globals lists
  usable : Usable c.globals.gHhdm managed
  tiled : Partition managed lists c.live

/-! ## Links and live blocks are apart -/

theorem frameOf_mem_points {hhdm phys address : Word} {o : Nat} (bounded : o ≤ buddyMaxOrder)
    (aligned : AlignedTo o phys) (inside : address ∈ span (phys + hhdm) (4096 * 2 ^ o)) :
    frameOf hhdm address ∈ (blockOf o phys).points := by
  have fits := aligned.add_le bounded
  have first := blockOf_first aligned
  have size : 2 ^ (12 + o) = 4096 * 2 ^ o := Nat.pow_add 2 12 o
  rw [Block.mem_points_iff_range, blockOf_order]
  rw [mem_span] at inside
  have offset : (address - hhdm).toNat = phys.toNat + (address - (phys + hhdm)).toNat := by
    bv_omega
  unfold frameOf
  omega

theorem linkBytes_frame {managed : Set Nat} {lists : Lists} {held : List Handle}
    {hhdm address : Word} (tiled : Partition managed lists held)
    (inside : address ∈ linkBytes hhdm lists) :
    ∃ block ∈ lists.blocks, frameOf hhdm address ∈ block.points := by
  obtain ⟨o, bounded, phys, present, inSpan⟩ := inside
  have within : 16 ≤ 4096 * 2 ^ o := by
    have positive := Nat.two_pow_pos o
    omega
  exact ⟨blockOf o phys, Lists.mem_blocks.mpr ⟨o, bounded, phys, present, rfl⟩,
    frameOf_mem_points bounded (tiled.aligned o bounded phys present) (span_mono within inSpan)⟩

namespace Valid

variable {managed : Set Nat} {c c' : Config} {lists : Lists}

theorem live_frame (valid : Valid managed c lists) {address : Word}
    (inside : address ∈ c.liveBytes) :
    ∃ handle ∈ c.live, frameOf c.globals.gHhdm address ∈ handle.block.points := by
  obtain ⟨handle, member, inSpan⟩ := inside
  obtain ⟨bounded, aligned⟩ := valid.tiled.heldAligned handle member
  exact ⟨handle, member, frameOf_mem_points bounded aligned inSpan⟩

theorem liveBytes_disjoint_linkBytes (valid : Valid managed c lists) :
    Disjoint c.liveBytes (linkBytes c.globals.gHhdm lists) := by
  rw [Set.disjoint_left]
  intro address inLive inLinks
  obtain ⟨handle, member, inHandle⟩ := valid.live_frame inLive
  obtain ⟨block, present, inBlock⟩ := linkBytes_frame valid.tiled inLinks
  have liveCount := Block.cover_eq_one_iff.mpr inHandle
  have freeCount := Block.cover_eq_one_iff.mpr inBlock
  have liveLe := cover_le_coverage (List.mem_map_of_mem (f := Handle.block) member)
    (frameOf c.globals.gHhdm address)
  have freeLe := cover_le_coverage present (frameOf c.globals.gHhdm address)
  have total := valid.tiled.coverage_le_one (frameOf c.globals.gHhdm address)
  rw [coverage_append] at total
  omega

/-! ## Steps keep the invariant -/

theorem alloc (valid : Valid managed c lists) (order : Nat) :
    Valid managed (c.alloc order) (lists.alloc order).2 := by
  obtain ⟨result, follows⟩ := buddyAlloc_follows valid.holds valid.usable valid.tiled order
  obtain ⟨failed, succeeded⟩ := valid.tiled.alloc order valid.usable.zero
  refine ⟨follows.holds, by rw [Config.alloc, follows.gHhdm]; exact valid.usable, ?_⟩
  rw [Config.alloc, result]
  by_cases null : (lists.alloc order).1 = 0
  · rw [if_pos null, failed null]
    exact valid.tiled
  · rw [if_neg null]
    exact succeeded null

theorem free (valid : Valid managed c lists) {handle : Handle} (member : handle ∈ c.live) :
    ∃ m' g', buddyFree c.mem c.globals handle.1 handle.2 = some (m', g') ∧
      Follows c.mem c.globals lists m' g' (lists.free handle.1 handle.2) ∧
      Valid managed { mem := m', globals := g', live := c.live.erase handle }
        (lists.free handle.1 handle.2) := by
  have inHand := valid.tiled.perm (List.perm_cons_erase member)
  obtain ⟨m', g', returned, follows⟩ := buddyFree_follows valid.holds valid.usable inHand
  exact ⟨m', g', returned, follows, follows.holds, by rw [follows.gHhdm]; exact valid.usable,
    inHand.free⟩

theorem write (valid : Valid managed c lists) {m' : Memory}
    (inside : Set.EqOn m' c.mem c.liveBytesᶜ) : Valid managed { c with mem := m' } lists where
  holds := valid.holds.congr
    (inside.mono (Set.subset_compl_iff_disjoint_left.mpr valid.liveBytes_disjoint_linkBytes))
  usable := valid.usable
  tiled := valid.tiled

/-- What one step does to the lists. -/
inductive ListStep : Lists → Lists → Prop where
  | alloc {lists : Lists} (order : Nat) : ListStep lists (lists.alloc order).2
  | free {lists : Lists} (handle : Handle) : ListStep lists (lists.free handle.1 handle.2)
  | same {lists : Lists} : ListStep lists lists

theorem step (valid : Valid managed c lists) (stepped : Step c c') :
    ∃ lists', ListStep lists lists' ∧ Valid managed c' lists' := by
  cases stepped with
  | alloc order => exact ⟨_, .alloc order, valid.alloc order⟩
  | @free handle m' g' member returned =>
      obtain ⟨m'', g'', result, -, valid'⟩ := valid.free member
      rw [returned, Option.some.injEq, Prod.mk.injEq] at result
      obtain ⟨rfl, rfl⟩ := result
      exact ⟨_, .free handle, valid'⟩
  | write inside => exact ⟨lists, .same, valid.write inside⟩

theorem run (valid : Valid managed c lists) (ran : Run c c') :
    ∃ lists', Relation.ReflTransGen ListStep lists lists' ∧ Valid managed c' lists' := by
  have matched : ∀ lists c c', Valid managed c lists → Step c c' →
      ∃ lists', ListStep lists lists' ∧ Valid managed c' lists' :=
    fun _ _ _ before stepped => before.step stepped
  exact Simulation.run_matched matched valid ran

end Valid

/-! ## The invariant holds at the start -/

theorem Initial.valid {c : Config} {lists : Lists} (initial : Initial c lists) :
    Valid lists.frames c lists where
  holds := initial.holds
  usable := by
    refine ⟨?_, ?_⟩
    · rintro ⟨block, present, inBlock⟩
      obtain ⟨o, bounded, phys, member, rfl⟩ := Lists.mem_blocks.mp present
      obtain ⟨aligned, nonzero⟩ := initial.aligned o bounded phys member
      have start := blockOf_first aligned
      have first : (blockOf o phys).first = 0 :=
        Nat.le_zero.mp (Block.mem_points_iff_range.mp inBlock).1
      rw [first, Nat.zero_mul] at start
      exact nonzero (BitVec.eq_of_toNat_eq start.symm)
    · rintro frame ⟨block, present, inBlock⟩
      exact initial.reachable block present frame inBlock
  tiled := by
    rw [initial.nothingLive]
    refine ⟨fun o bounded phys member => (initial.aligned o bounded phys member).1, by simp, ?_⟩
    intro frame
    rw [List.map_nil, List.append_nil]
    have bound := coverage_le_one_of_pairwise_disjoint initial.disjoint frame
    have inFrames : coverage lists.blocks frame ≠ 0 ↔ frame ∈ lists.frames := coverage_ne_zero_iff
    by_cases member : frame ∈ lists.frames
    · have nonzero := inFrames.mpr member
      rw [Set.indicator_of_mem member]
      omega
    · have zero : coverage lists.blocks frame = 0 :=
        Decidable.of_not_not fun nonzero => member (inFrames.mp nonzero)
      rw [Set.indicator_of_notMem member, zero]

/-! ## Accounting -/

/-- The counters of `buddy_get_stats` add up to the bytes of the blocks on the lists. -/
theorem totalFreeBytes_eq {m : Memory} {g : Globals} {lists : Lists} (holds : Holds m g lists) :
    totalFreeBytes g =
      BitVec.ofNat 64 (4096 * (lists.blocks.map fun block => 2 ^ block.order).sum) := by
  have fold : ∀ (orders : List Nat) (total : Nat), (∀ o ∈ orders, o ≤ buddyMaxOrder) →
      orders.foldl (fun total o => total + g.freeCount o * blockBytes o) (BitVec.ofNat 64 total) =
        BitVec.ofNat 64 (total + 4096 *
          ((orders.flatMap fun o => (lists o).map (blockOf o)).map fun block => 2 ^ block.order).sum) := by
    intro orders
    induction orders with
    | nil => intro total _; simp
    | cons o rest ih =>
        intro total bounded
        have bound := bounded o List.mem_cons_self
        have size : blockBytes o = BitVec.ofNat 64 (4096 * 2 ^ o) := by
          apply BitVec.eq_of_toNat_eq
          have small : 4096 * 2 ^ o < 2 ^ 64 := by
            rw [show (4096 : Nat) = 2 ^ 12 from rfl, ← Nat.pow_add]
            exact Nat.pow_lt_pow_right (by decide) (by unfold buddyMaxOrder at bound; omega)
          rw [blockBytes_toNat bound, BitVec.toNat_ofNat, Nat.mod_eq_of_lt small, Nat.pow_add]
        have sameOrder : ((lists o).map (blockOf o)).map (fun block => 2 ^ block.order) =
            List.replicate (lists o).length (2 ^ o) := by
          rw [List.map_map, ← List.map_const']
          rfl
        rw [List.foldl_cons, holds.counted o bound, size, ← BitVec.ofNat_mul, ← BitVec.ofNat_add,
          ih _ fun o' member => bounded o' (List.mem_cons_of_mem _ member), List.flatMap_cons,
          List.map_append, List.sum_append, sameOrder, List.sum_replicate, smul_eq_mul]
        congr 1
        ring
  have bounded : ∀ o ∈ List.range (buddyMaxOrder + 1), o ≤ buddyMaxOrder :=
    fun o member => Nat.lt_succ_iff.mp (List.mem_range.mp member)
  have total := fold (List.range (buddyMaxOrder + 1)) 0 bounded
  rw [Nat.zero_add] at total
  exact total

/-! ## A small machine -/

/-- A machine with a single free block: four megabytes at physical address 4 MiB. -/
def oneBlock : Config where
  mem := fun _ => 0
  globals := {
    freeList := fun o => if o = 10 then 0xffff800000400000 else 0
    freeCount := fun o => if o = 10 then 1 else 0
    gHhdm := 0xffff800000000000 }
  live := []

def oneBlockLists : Lists := fun o => if o = 10 then [0x400000] else []

theorem oneBlock_initial : Initial oneBlock oneBlockLists := by
  have blocks : oneBlockLists.blocks = [⟨10, 1⟩] := by decide
  refine ⟨⟨?_, ?_⟩, ?_, ?_, ?_, rfl⟩
  · intro o _
    by_cases top : o = 10
    · subst top
      refine ⟨⟨rfl, rfl⟩, ⟨rfl, rfl⟩, ?_⟩
      intro node member
      rw [List.mem_singleton.mp member]
      decide
    · simp only [oneBlockLists, oneBlock, if_neg top]
      exact DoublyLinked.nil
  · intro o _
    by_cases top : o = 10
    · subst top
      rfl
    · simp only [oneBlockLists, oneBlock, if_neg top]
      rfl
  · intro o _ phys member
    by_cases top : o = 10
    · subst top
      rw [List.mem_singleton.mp member]
      decide
    · rw [oneBlockLists, if_neg top] at member
      cases member
  · rw [blocks]
    exact List.pairwise_singleton ..
  · intro block present frame inBlock
    rw [blocks] at present
    rw [List.mem_singleton.mp present, Block.mem_points_iff_range] at inBlock
    have range : 1024 ≤ frame ∧ frame < 2048 := inBlock
    simp only [oneBlock]
    bv_omega

end ScrapOS.Buddy
