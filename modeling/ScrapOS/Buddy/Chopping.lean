import ScrapOS.Buddy.Init

/-! What `seed_run` pushes. Its loop ends after at most one turn a frame, and the blocks it
pushes are the pieces of the run in increasing order: they tile it, none could be larger
where it lies, and no two of them are buddies. -/

set_option autoImplicit false

namespace ScrapOS.Buddy

open DyadicBlocks

/-! ## Runs of the loop -/

/-- The loop of `seed_run` from `f` until its condition fails, with the blocks it pushes. -/
inductive SeedTrace (stop : Word) : Word → List Handle → Prop where
  | done {f : Word} (past : ¬ f < stop) : SeedTrace stop f []
  | push {f : Word} {rest : List Handle} (below : f < stop)
      (later : SeedTrace stop (f + 1#64 <<< seedOrder f stop buddyMaxOrder) rest) :
      SeedTrace stop f ((f * pmmFrameSize, seedOrder f stop buddyMaxOrder) :: rest)

/-- `list_push` of one block after the other. -/
def pushAll (state : Memory × Globals) (pushes : List Handle) : Memory × Globals :=
  pushes.foldl (fun state handle => listPush state.1 state.2 handle.2 handle.1) state

section Trace

variable {m : Memory} {g : Globals} {f stop : Word} {pushes : List Handle} {steps : Nat}

theorem SeedTrace.seedRun_eq (trace : SeedTrace stop f pushes) (enough : pushes.length ≤ steps) :
    seedRun steps m g f stop = pushAll (m, g) pushes := by
  induction trace generalizing steps m g with
  | done past =>
      cases steps with
      | zero => rfl
      | succ steps => rw [seedRun, if_neg past, pushAll, List.foldl_nil]
  | push below _ ih =>
      cases steps with
      | zero => exact absurd enough (Nat.not_succ_le_zero _)
      | succ steps =>
          rw [seedRun, if_pos below]
          exact ih (Nat.le_of_succ_le_succ enough)

/-- The loop ends, and pushes the pieces of the run. -/
theorem exists_seedTrace (physical : stop.toNat ≤ 2 ^ 52) (enough : stop.toNat ≤ f.toNat + steps) :
    ∃ pushes, SeedTrace stop f pushes ∧
      pushes.map Handle.block = chop buddyMaxOrder stop.toNat steps f.toNat ∧
      ∀ handle ∈ pushes, handle.2 ≤ buddyMaxOrder ∧ AlignedTo handle.2 handle.1 := by
  induction steps generalizing f with
  | zero =>
      have past : ¬ f < stop := Nat.not_lt.mpr enough
      exact ⟨[], .done past, rfl, fun handle member => by cases member⟩
  | succ steps ih =>
      cases Nat.lt_or_ge f.toNat stop.toNat with
      | inl below =>
          have turn := seedOrder_turn physical below
          have positive := Nat.two_pow_pos (seedOrder f stop buddyMaxOrder)
          have after := turn.after
          obtain ⟨rest, later, blocks, aligned⟩ :=
            ih (f := f + 1#64 <<< seedOrder f stop buddyMaxOrder) (by omega)
          refine ⟨_, .push below later, ?_, ?_⟩
          · rw [turn.piece, List.map_cons, blocks, Handle.block_mk]
          · intro handle member
            cases List.mem_cons.mp member with
            | inl here => exact here ▸ ⟨turn.bounded, turn.aligned⟩
            | inr before => exact aligned handle before
      | inr past =>
          refine ⟨[], .done (Nat.not_lt.mpr past), ?_, fun handle member => by cases member⟩
          rw [chop, if_neg (Nat.not_lt.mpr past), List.map_nil]

end Trace

/-! ## The blocks -/

/-- An interval of frames chopped into blocks, in the order of `pushes`. -/
structure Chopped (first stop : Nat) (pushes : List Handle) : Prop where
  tiles : EndToEnd stop first (pushes.map Handle.block)
  ascending : pushes.Pairwise fun lower upper =>
    lower.1.toNat + (blockBytes lower.2).toNat ≤ upper.1.toNat
  exact : ∀ frame, coverage (pushes.map Handle.block) frame =
    if first ≤ frame ∧ frame < stop then 1 else 0
  aligned : ∀ handle ∈ pushes, handle.2 ≤ buddyMaxOrder ∧ AlignedTo handle.2 handle.1
  inside : ∀ handle ∈ pushes, handle.block.points ⊆ Set.Ico first stop
  apart : ∀ left ∈ pushes, ∀ right ∈ pushes, left.2 = right.2 → left.2 < buddyMaxOrder →
    right.1 ≠ left.1 ^^^ blockBytes left.2
  absorbs : ∀ block : Block, block.order ≤ buddyMaxOrder → block.points ⊆ Set.Ico first stop →
    ∃ handle ∈ pushes, block.points ⊆ handle.block.points

section Chopped

variable {first stop steps : Nat} {pushes : List Handle}

private theorem ascending_of_endToEnd (tiles : EndToEnd stop first (pushes.map Handle.block))
    (aligned : ∀ handle ∈ pushes, handle.2 ≤ buddyMaxOrder ∧ AlignedTo handle.2 handle.1) :
    pushes.Pairwise fun lower upper =>
      lower.1.toNat + (blockBytes lower.2).toNat ≤ upper.1.toNat := by
  have laid := tiles.pairwise
  rw [List.pairwise_map] at laid
  refine laid.imp_of_mem fun {lower upper} lowerMember upperMember before => ?_
  obtain ⟨lowerBounded, lowerAligned⟩ := aligned lower lowerMember
  have lowerAddress := blockOf_first lowerAligned
  have upperAddress := blockOf_first (aligned upper upperMember).2
  have frames : (blockOf lower.2 lower.1).first + 2 ^ lower.2 ≤ (blockOf upper.2 upper.1).first := before
  rw [blockBytes_toNat lowerBounded, Nat.pow_add]
  omega

theorem Chopped.of_chop (ordered : first ≤ stop) (enough : stop ≤ first + steps)
    (pieces : pushes.map Handle.block = chop buddyMaxOrder stop steps first)
    (aligned : ∀ handle ∈ pushes, handle.2 ≤ buddyMaxOrder ∧ AlignedTo handle.2 handle.1) :
    Chopped first stop pushes := by
  have tiles : EndToEnd stop first (pushes.map Handle.block) := by
    rw [pieces]
    exact chop_endToEnd ordered enough
  have piece : ∀ handle ∈ pushes, handle.block ∈ chop buddyMaxOrder stop steps first :=
    fun handle member => pieces ▸ List.mem_map_of_mem member
  refine ⟨tiles, ascending_of_endToEnd tiles aligned, ?_, aligned, ?_, ?_, ?_⟩
  · intro frame
    rw [pieces, coverage_chop enough]
  · exact fun handle member => (chop_greedy (piece handle member)).2
  · intro left leftMember right rightMember sameOrder below paired
    obtain ⟨bounded, leftAligned⟩ := aligned left leftMember
    have buddy : right.block = left.block.buddy := by
      rw [Handle.block, paired, ← sameOrder]
      exact (xor_blockBytes bounded leftAligned).2
    have buddyPiece := piece right rightMember
    rw [buddy] at buddyPiece
    exact buddy_notMem_chop enough below (piece left leftMember) buddyPiece
  · intro block bounded inside
    obtain ⟨_, member, within⟩ := chop_absorbs enough bounded inside
    rw [← pieces] at member
    obtain ⟨handle, pushed, rfl⟩ := List.mem_map.mp member
    exact ⟨handle, pushed, within⟩

end Chopped

/-- `seed_run` chops a run of frames into the blocks that tile it best, and from empty
lists leaves exactly these on the lists. -/
theorem seed_run_chops {f stop : Word} (positive : 0 < f) (ordered : f ≤ stop)
    (physical : stop.toNat < 2 ^ 52) :
    ∃ pushes, SeedTrace stop f pushes ∧ Chopped f.toNat stop.toNat pushes ∧
      ∀ steps, stop.toNat - f.toNat ≤ steps → ∀ (m : Memory) (g : Globals),
        seedRun steps m g f stop = pushAll (m, g) pushes ∧
        (Holds m g (fun _ => []) →
          (∀ frame ∈ Set.Ico f.toNat stop.toNat, frameAddress frame + g.gHhdm ≠ 0) →
          ∃ lists, Holds (seedRun steps m g f stop).1 (seedRun steps m g f stop).2 lists ∧
            lists.blocks.Perm (pushes.map Handle.block)) := by
  have enough : stop.toNat ≤ f.toNat + (stop.toNat - f.toNat) := by omega
  obtain ⟨pushes, trace, pieces, aligned⟩ := exists_seedTrace (Nat.le_of_lt physical) enough
  have chopped := Chopped.of_chop ordered enough pieces aligned
  have turns := chopped.tiles.first_add_length_le
  rw [List.length_map] at turns
  have few : pushes.length ≤ stop.toNat - f.toNat := by omega
  refine ⟨pushes, trace, chopped, fun steps steps_le m g => ⟨?_, fun holds reachable => ?_⟩⟩
  · exact trace.seedRun_eq (Nat.le_trans few steps_le)
  · have usable : Usable g.gHhdm (∅ ∪ Set.Ico f.toNat stop.toNat) := by
      rw [Set.empty_union]
      exact ⟨fun member => Nat.not_lt.mpr member.1 positive, reachable⟩
    obtain ⟨lists, seeded⟩ := seedRun_seeded (Nat.le_of_lt physical) enough holds usable .nothing
      (Set.empty_disjoint _)
    -- More steps than the loop has turns change nothing.
    have settled : seedRun steps m g f stop = seedRun (stop.toNat - f.toNat) m g f stop :=
      (trace.seedRun_eq (Nat.le_trans few steps_le)).trans (trace.seedRun_eq few).symm
    have blocks := seeded.blocks
    rw [Lists.blocks_nil, List.append_nil, ← pieces] at blocks
    rw [settled]
    exact ⟨lists, seeded.holds, blocks⟩

theorem seed_run_chops_five_frames :
    ∃ pushes, SeedTrace 8 3 pushes ∧ Chopped 3 8 pushes ∧
      ∀ steps, 5 ≤ steps → ∀ (m : Memory) (g : Globals),
        seedRun steps m g 3 8 = pushAll (m, g) pushes ∧
        (Holds m g (fun _ => []) →
          (∀ frame ∈ Set.Ico 3 8, frameAddress frame + g.gHhdm ≠ 0) →
          ∃ lists, Holds (seedRun steps m g 3 8).1 (seedRun steps m g 3 8).2 lists ∧
            lists.blocks.Perm (pushes.map Handle.block)) :=
  seed_run_chops (by decide) (by decide) (by decide)

end ScrapOS.Buddy
