import ScrapOS.Buddy.Init

/-! The claim loops of `buddy_init`. A run of claimed frames ends at the end of its entry,
before a frame that is not free, or where the budget is spent; in each case the frame
behind it stays out of every run. -/

set_option autoImplicit false

namespace ScrapOS.Buddy

open DyadicBlocks

/-- A run of frames from its first frame up to the one behind it. -/
abbrev FrameRun := Nat × Nat

namespace FrameRun

def frames (run : FrameRun) : Set Nat := Set.Ico run.1 run.2

/-- The blocks that `seed_run` pushes. -/
def pieces (run : FrameRun) : List Block := chop buddyMaxOrder run.2 (run.2 - run.1) run.1

end FrameRun

/-- The frames of some runs. -/
def heldFrames (runs : List FrameRun) : Set Nat := {frame | ∃ run ∈ runs, frame ∈ run.frames}

theorem heldFrames_append (left right : List FrameRun) :
    heldFrames (left ++ right) = heldFrames left ∪ heldFrames right := by
  ext frame
  simp only [heldFrames, List.mem_append, Set.mem_ofPred_eq, Set.mem_union, or_and_right, exists_or]

theorem heldFrames_singleton (run : FrameRun) : heldFrames [run] = run.frames := by
  ext frame
  simp [heldFrames]

section Extend

variable {hhdm : Word} {bitmapFrames now : Set Nat} {s : Seeding} {budget f stop : Word}

/-- What the extension of a run leaves behind. -/
structure Extended (hhdm : Word) (bitmapFrames now : Set Nat) (s : Seeding) (budget f stop : Word)
    (result : Seeding × Word) : Prop where
  start : f.toNat ≤ result.2.toNat
  inside : result.2.toNat ≤ stop.toNat
  available : Set.Ico f.toNat result.2.toNat ⊆ now
  tracks : Pmm.Tracks hhdm bitmapFrames (now \ Set.Ico f.toNat result.2.toNat) result.1.mem result.1.pmm
  frame : Set.EqOn result.1.mem s.mem (frameBytes hhdm bitmapFrames)ᶜ
  buddy : result.1.buddy = s.buddy
  claimed : result.1.claimed.toNat = s.claimed.toNat + (result.2.toNat - f.toNat)
  budgeted : result.1.claimed.toNat ≤ budget.toNat
  ended : result.2.toNat = stop.toNat ∨ result.1.claimed = budget ∨ result.2.toNat ∉ now

theorem Extended.nothing (tracks : Pmm.Tracks hhdm bitmapFrames now s.mem s.pmm)
    (inside : f.toNat ≤ stop.toNat) (budgeted : s.claimed.toNat ≤ budget.toNat)
    (ended : f.toNat = stop.toNat ∨ s.claimed = budget ∨ f.toNat ∉ now) :
    Extended hhdm bitmapFrames now s budget f stop (s, f) where
  start := Nat.le_refl _
  inside := inside
  available := by simp
  tracks := by simpa using tracks
  frame := Set.eqOn_refl _ _
  buddy := rfl
  claimed := by simp
  budgeted := budgeted
  ended := ended

theorem claim_address {f : Word} (physical : f.toNat < 2 ^ 52) :
    (f * pmmFrameSize).toNat / 4096 = f.toNat := by
  have address : (f * pmmFrameSize).toNat = f.toNat * 4096 := by bv_omega
  rw [address]
  omega

theorem extendRun_extended {steps : Nat} (physical : stop.toNat < 2 ^ 52)
    (enough : stop.toNat ≤ f.toNat + steps) (tracks : Pmm.Tracks hhdm bitmapFrames now s.mem s.pmm)
    (inside : f.toNat ≤ stop.toNat) (budgeted : s.claimed.toNat ≤ budget.toNat) :
    Extended hhdm bitmapFrames now s budget f stop (extendRun budget stop steps s f) := by
  induction steps generalizing now s f with
  | zero => exact .nothing tracks inside budgeted (.inl (by omega))
  | succ steps ih =>
      rw [extendRun]
      split
      · next running =>
        have below : f.toNat < stop.toNat := running.1
        have unspent : s.claimed.toNat < budget.toNat := running.2
        have outcome := tracks.claimFrame (f * pmmFrameSize)
        rw [claim_address (by omega)] at outcome
        generalize Pmm.pmmClaimFrame s.mem s.pmm (f * pmmFrameSize) = result at outcome
        cases outcome with
        | refused busy => exact .nothing tracks inside budgeted (.inr (.inr busy))
        | @taken mem pmm available tracks' frame total =>
            have next : (f + 1).toNat = f.toNat + 1 := by bv_omega
            have counted : (s.claimed + 1).toNat = s.claimed.toNat + 1 := by bv_omega
            have rest := ih (s := { s with mem, pmm, claimed := s.claimed + 1 }) (f := f + 1) (by omega)
              tracks' (by omega) (by dsimp only; omega)
            have restStart := rest.start
            have grown : Set.Ico f.toNat (extendRun budget stop steps
                { s with mem, pmm, claimed := s.claimed + 1 } (f + 1)).2.toNat =
                insert f.toNat (Set.Ico (f + 1).toNat (extendRun budget stop steps
                  { s with mem, pmm, claimed := s.claimed + 1 } (f + 1)).2.toNat) := by
              ext frame
              simp only [Set.mem_Ico, Set.mem_insert_iff]
              omega
            dsimp only
            generalize extendRun budget stop steps { s with mem, pmm, claimed := s.claimed + 1 } (f + 1)
              = result at rest grown restStart
            have claimed := rest.claimed
            have ended := rest.ended
            dsimp only at claimed
            constructor
            case start => omega
            case inside => exact rest.inside
            case available =>
              rw [grown, Set.insert_subset_iff]
              exact ⟨available, rest.available.trans Set.sdiff_subset⟩
            case tracks =>
              rw [grown, Set.insert_eq, ← Set.sdiff_sdiff]
              exact rest.tracks
            case frame => exact rest.frame.trans frame
            case buddy => exact rest.buddy
            case claimed => omega
            case budgeted => exact rest.budgeted
            case ended =>
              refine ended.imp_right (Or.imp_right fun outside member => outside ⟨member, ?_⟩)
              rw [Set.mem_singleton_iff]
              omega
      · next stopped =>
        apply Extended.nothing tracks inside budgeted
        rw [not_and_or] at stopped
        cases stopped with
        | inl past => exact .inl (Nat.le_antisymm inside (Nat.not_lt.mp past))
        | inr spent =>
            exact .inr (.inl (BitVec.eq_of_toNat_eq (Nat.le_antisymm budgeted (Nat.not_lt.mp spent))))

end Extend

/-! ## One entry -/

section Entry

variable {hhdm : Word} {bitmapFrames free : Set Nat} {runs : List FrameRun} {lists : Lists}
  {s : Seeding} {budget f stop : Word}

theorem heldFrames_snoc (runs : List FrameRun) (first last : Nat) :
    heldFrames (runs ++ [(first, last)]) = heldFrames runs ∪ Set.Ico first last := by
  rw [heldFrames_append, heldFrames_singleton]
  rfl

/-- The claimed runs are seeded: their frames left the frame allocator and their pieces
are the free blocks. -/
structure Seeded (hhdm : Word) (bitmapFrames free : Set Nat) (runs : List FrameRun) (lists : Lists)
    (s : Seeding) : Prop where
  inFree : heldFrames runs ⊆ free
  tracks : Pmm.Tracks hhdm bitmapFrames (free \ heldFrames runs) s.mem s.pmm
  notBitmap : Disjoint free bitmapFrames
  usable : Usable hhdm free
  finite : free.Finite
  holds : Holds s.mem s.buddy lists
  gHhdm : s.buddy.gHhdm = hhdm
  tiled : Partition (heldFrames runs) lists []
  blocks : lists.blocks.Perm (runs.flatMap FrameRun.pieces)
  claimed : s.claimed.toNat = (heldFrames runs).ncard

/-- A claimed run of new frames is seeded. -/
theorem Seeded.seed (seeded : Seeded hhdm bitmapFrames free runs lists s) {s' : Seeding}
    {f' : Word} (physical : stop.toNat < 2 ^ 52)
    (apart : Disjoint (heldFrames runs) (Set.Ico f.toNat stop.toNat))
    (nonempty : f.toNat < f'.toNat) (inside : f'.toNat ≤ stop.toNat)
    (available : Set.Ico f.toNat f'.toNat ⊆ free)
    (tracks : Pmm.Tracks hhdm bitmapFrames ((free \ heldFrames runs) \ Set.Ico f.toNat f'.toNat)
      s'.mem s'.pmm)
    (frame : Set.EqOn s'.mem s.mem (frameBytes hhdm bitmapFrames)ᶜ) (buddy : s'.buddy = s.buddy)
    (claimed : s'.claimed.toNat = s.claimed.toNat + (f'.toNat - f.toNat)) :
    ∃ lists', Seeded hhdm bitmapFrames free (runs ++ [(f.toNat, f'.toNat)]) lists'
        { s' with
          mem := (seedRun (f'.toNat - f.toNat) s'.mem s'.buddy f f').1
          buddy := (seedRun (f'.toNat - f.toNat) s'.mem s'.buddy f f').2 } ∧
      Set.EqOn (seedRun (f'.toNat - f.toNat) s'.mem s'.buddy f f').1 s.mem
        (frameBytes hhdm (bitmapFrames ∪ free))ᶜ := by
  have gHhdm : s'.buddy.gHhdm = hhdm := buddy ▸ seeded.gHhdm
  have taken := heldFrames_snoc runs f.toNat f'.toNat
  have takenFree : heldFrames runs ∪ Set.Ico f.toNat f'.toNat ⊆ free :=
    Set.union_subset seeded.inFree available
  have runApart : Disjoint (heldFrames runs) (Set.Ico f.toNat f'.toNat) :=
    apart.mono_right (Set.Ico_subset_Ico_right inside)
  have holds : Holds s'.mem s'.buddy lists := by
    rw [buddy]
    apply seeded.holds.congr
    apply frame.mono
    rw [seeded.gHhdm]
    apply (linkBytes_subset seeded.tiled hhdm).trans
    exact (frameBytes_disjoint (seeded.notBitmap.mono_left seeded.inFree)).subset_compl_right
  obtain ⟨lists', run⟩ := seedRun_seeded (by omega)
    (show f'.toNat ≤ f.toNat + (f'.toNat - f.toNat) by omega) holds (by rw [gHhdm]; exact seeded.usable.mono takenFree) seeded.tiled runApart
  have runFrame := run.frame
  rw [gHhdm] at runFrame
  refine ⟨lists', ⟨?_, ?_, seeded.notBitmap, seeded.usable, seeded.finite, run.holds,
    run.gHhdm.trans gHhdm, ?_, ?_, ?_⟩, ?_⟩
  · rw [taken]
    exact takenFree
  · rw [taken, ← Set.sdiff_sdiff]
    apply tracks.congr
    apply runFrame.mono
    exact (frameBytes_disjoint (seeded.notBitmap.mono_left takenFree).symm).subset_compl_right
  · rw [taken]
    exact run.tiled
  · have grown := run.blocks.trans (seeded.blocks.append_left _)
    rw [List.flatMap_append, List.flatMap_singleton]
    exact grown.trans List.perm_append_comm
  · have sizes := Set.ncard_union_eq runApart (seeded.finite.subset seeded.inFree)
      (Set.finite_Ico f.toNat f'.toNat)
    rw [taken, sizes, ← seeded.claimed, Set.ncard_eq_toFinset_card', Set.toFinset_Ico, Nat.card_Ico]
    exact claimed
  · apply (runFrame.mono ?_).trans (frame.mono ?_)
    · exact Set.compl_subset_compl.mpr (frameBytes_mono (takenFree.trans Set.subset_union_right))
    · exact Set.compl_subset_compl.mpr (frameBytes_mono Set.subset_union_left)

/-- What the loop over the frames `f` to `stop` of an entry leaves behind. -/
structure EntrySeeded (hhdm : Word) (bitmapFrames free : Set Nat) (runs : List FrameRun)
    (s : Seeding) (budget f stop : Word) (s' : Seeding) (new : List FrameRun) (lists' : Lists) :
    Prop where
  seeded : Seeded hhdm bitmapFrames free (runs ++ new) lists' s'
  inside : ∀ run ∈ new, f.toNat ≤ run.1 ∧ run.1 < run.2 ∧ run.2 ≤ stop.toNat
  ended : ∀ run ∈ new, run.2 = stop.toNat ∨ run.2 ∉ heldFrames (runs ++ new)
  budgeted : s'.claimed.toNat ≤ budget.toNat
  exhausted : s'.claimed = budget ∨
    ∀ frame ∈ Set.Ico f.toNat stop.toNat, frame ∈ free → frame ∈ heldFrames (runs ++ new)
  idle : s.claimed = budget → new = []
  frame : Set.EqOn s'.mem s.mem (frameBytes hhdm (bitmapFrames ∪ free))ᶜ

theorem EntrySeeded.nothing (seeded : Seeded hhdm bitmapFrames free runs lists s)
    (budgeted : s.claimed.toNat ≤ budget.toNat)
    (ended : s.claimed = budget ∨ stop.toNat ≤ f.toNat) :
    EntrySeeded hhdm bitmapFrames free runs s budget f stop s [] lists where
  seeded := by rwa [List.append_nil]
  inside := by simp
  ended := by simp
  budgeted := budgeted
  exhausted := ended.imp_right fun past frame member =>
    absurd (Nat.lt_of_le_of_lt member.1 member.2) (Nat.not_lt.mpr past)
  idle := fun _ => rfl
  frame := Set.eqOn_refl _ _

theorem EntrySeeded.skip {s' : Seeding} {new : List FrameRun} {lists' : Lists}
    (next : (f + 1).toNat = f.toNat + 1) (notFree : f.toNat ∉ free)
    (rest : EntrySeeded hhdm bitmapFrames free runs s budget (f + 1) stop s' new lists') :
    EntrySeeded hhdm bitmapFrames free runs s budget f stop s' new lists' where
  seeded := rest.seeded
  inside := by
    intro run member
    obtain ⟨low, nonempty, high⟩ := rest.inside run member
    exact ⟨by omega, nonempty, high⟩
  ended := rest.ended
  budgeted := rest.budgeted
  exhausted := by
    refine rest.exhausted.imp_right fun all frame member inFree => ?_
    have different : frame ≠ f.toNat := fun same => notFree (same ▸ inFree)
    have low := member.1
    exact all frame ⟨by omega, member.2⟩ inFree
  idle := rest.idle
  frame := rest.frame

/-- A claimed run comes before the runs of the rest of the entry. The run is maximal: where it
stopped, either the entry or the budget ended, or the frame is in other hands. -/
theorem EntrySeeded.cons {middle s' : Seeding} {f' : Word} {new : List FrameRun} {lists' : Lists}
    (rest : EntrySeeded hhdm bitmapFrames free (runs ++ [(f.toNat, f'.toNat)]) middle budget f' stop
      s' new lists')
    (fresh : ∀ frame ∈ Set.Ico f.toNat stop.toNat, frame ∉ heldFrames runs)
    (unspent : s.claimed.toNat < budget.toNat) (nonempty : f.toNat < f'.toNat)
    (inside : f'.toNat ≤ stop.toNat)
    (stopped : f'.toNat = stop.toNat ∨ middle.claimed = budget ∨
      f'.toNat ∉ (free \ heldFrames runs) \ {f.toNat})
    (changed : Set.EqOn middle.mem s.mem (frameBytes hhdm (bitmapFrames ∪ free))ᶜ) :
    EntrySeeded hhdm bitmapFrames free runs s budget f stop s' ((f.toNat, f'.toNat) :: new) lists' := by
  have taken := heldFrames_snoc runs f.toNat f'.toNat
  have runsEq : runs ++ (f.toNat, f'.toNat) :: new = runs ++ [(f.toNat, f'.toNat)] ++ new := by
    rw [List.append_assoc, List.singleton_append]
  constructor
  case seeded =>
    rw [runsEq]
    exact rest.seeded
  case inside =>
    intro run member
    cases List.mem_cons.mp member with
    | inl here => exact here ▸ ⟨Nat.le_refl _, nonempty, inside⟩
    | inr later =>
        obtain ⟨low, nonempty, high⟩ := rest.inside run later
        exact ⟨by omega, nonempty, high⟩
  case ended =>
    intro run member
    rw [runsEq]
    cases List.mem_cons.mp member with
    | inr later => exact rest.ended run later
    | inl here =>
        subst here
        cases Nat.lt_or_eq_of_le inside with
        | inr atStop => exact .inl atStop
        | inl short =>
            right
            have notHeld := fresh f'.toNat ⟨by omega, short⟩
            cases stopped with
            | inl atStop => omega
            | inr other =>
                cases other with
                | inl spent =>
                    rw [rest.idle spent, List.append_nil, taken]
                    exact fun held => held.elim notHeld fun inRun => Nat.lt_irrefl _ inRun.2
                | inr busy =>
                    intro held
                    have different : f'.toNat ≠ f.toNat := by omega
                    exact busy ⟨⟨rest.seeded.inFree held, notHeld⟩, different⟩
  case budgeted => exact rest.budgeted
  case exhausted =>
    rw [runsEq]
    refine rest.exhausted.imp_right fun all frame member inFree => ?_
    cases Nat.lt_or_ge frame f'.toNat with
    | inl inRun =>
        rw [heldFrames_append, taken]
        exact .inl (.inr ⟨member.1, inRun⟩)
    | inr later => exact all frame ⟨later, member.2⟩ inFree
  case idle =>
    intro spent
    rw [spent] at unspent
    exact absurd unspent (Nat.lt_irrefl _)
  case frame => exact rest.frame.trans changed

theorem seedEntry_seeded {steps : Nat} (physical : stop.toNat < 2 ^ 52)
    (enough : stop.toNat ≤ f.toNat + steps) (seeded : Seeded hhdm bitmapFrames free runs lists s)
    (apart : Disjoint (heldFrames runs) (Set.Ico f.toNat stop.toNat))
    (budgeted : s.claimed.toNat ≤ budget.toNat) :
    ∃ new lists', EntrySeeded hhdm bitmapFrames free runs s budget f stop
      (seedEntry budget stop steps s f) new lists' := by
  induction steps generalizing runs lists s f with
  | zero => exact ⟨[], lists, .nothing seeded budgeted (.inr (by omega))⟩
  | succ steps ih =>
      rw [seedEntry]
      split
      · next running =>
        have below : f.toNat < stop.toNat := running.1
        have unspent : s.claimed.toNat < budget.toNat := running.2
        have next : (f + 1).toNat = f.toNat + 1 := by bv_omega
        have fresh : ∀ frame ∈ Set.Ico f.toNat stop.toNat, frame ∉ heldFrames runs :=
          fun frame member => Set.disjoint_right.mp apart member
        have outcome := seeded.tracks.claimFrame (f * pmmFrameSize)
        rw [claim_address (by omega)] at outcome
        generalize Pmm.pmmClaimFrame s.mem s.pmm (f * pmmFrameSize) = result at outcome
        cases outcome with
        | refused busy =>
            have notFree : f.toNat ∉ free :=
              fun member => busy ⟨member, fresh f.toNat ⟨Nat.le_refl _, below⟩⟩
            obtain ⟨new, lists', rest⟩ := ih (f := f + 1) (by omega) seeded
              (apart.mono_right (Set.Ico_subset_Ico_left (by omega))) budgeted
            exact ⟨new, lists', rest.skip next notFree⟩
        | @taken mem pmm available tracks frame total =>
            have counted : (s.claimed + 1).toNat = s.claimed.toNat + 1 := by bv_omega
            have extended := extendRun_extended (s := { s with mem, pmm, claimed := s.claimed + 1 })
              physical (show stop.toNat ≤ (f + 1).toNat + steps by omega) tracks (by omega)
              (show (s.claimed + 1).toNat ≤ budget.toNat by omega)
            dsimp only
            generalize extendRun budget stop steps { s with mem, pmm, claimed := s.claimed + 1 } (f + 1)
              = result at extended
            obtain ⟨s', f'⟩ := result
            have start := extended.start
            have inside := extended.inside
            have claimed := extended.claimed
            dsimp only at start inside claimed
            have grown : Set.Ico f.toNat f'.toNat = insert f.toNat (Set.Ico (f + 1).toNat f'.toNat) := by
              ext other
              simp only [Set.mem_Ico, Set.mem_insert_iff]
              omega
            have availableRun : Set.Ico f.toNat f'.toNat ⊆ free := by
              rw [grown, Set.insert_subset_iff]
              exact ⟨available.1, (extended.available.trans Set.sdiff_subset).trans Set.sdiff_subset⟩
            have tracks' : Pmm.Tracks hhdm bitmapFrames
                ((free \ heldFrames runs) \ Set.Ico f.toNat f'.toNat) s'.mem s'.pmm := by
              rw [grown, Set.insert_eq, ← Set.sdiff_sdiff]
              exact extended.tracks
            obtain ⟨lists', seeded', changed⟩ := seeded.seed physical apart (by omega) inside
              availableRun tracks' (extended.frame.trans frame) extended.buddy (by omega)
            have apart' : Disjoint (heldFrames (runs ++ [(f.toNat, f'.toNat)]))
                (Set.Ico f'.toNat stop.toNat) := by
              rw [heldFrames_snoc, Set.disjoint_union_left]
              exact ⟨apart.mono_right (Set.Ico_subset_Ico_left (by omega)),
                Set.disjoint_left.mpr fun other low high => Nat.not_lt.mpr high.1 low.2⟩
            obtain ⟨new, listsEnd, rest⟩ := ih (f := f') (by omega) seeded' apart' extended.budgeted
            exact ⟨(f.toNat, f'.toNat) :: new, listsEnd,
              rest.cons fresh unspent (by omega) inside extended.ended changed⟩
      · next stopped =>
        refine ⟨[], lists, .nothing seeded budgeted ?_⟩
        rw [not_and_or] at stopped
        cases stopped with
        | inl past => exact .inr (Nat.not_lt.mp past)
        | inr spent =>
            exact .inl (BitVec.eq_of_toNat_eq (Nat.le_antisymm budgeted (Nat.not_lt.mp spent)))

end Entry

/-! ## The memory map -/

section Map

variable {hhdm : Word} {bitmapFrames free : Set Nat} {runs : List FrameRun} {lists : Lists}
  {s : Seeding} {budget : Word} {memmap : List MemmapEntry}

/-- A claimed run lies in one usable entry, and the frame behind it is not claimed
unless it is behind the entry, too. -/
def Enclosed (memmap : List MemmapEntry) (claimed : Set Nat) (run : FrameRun) : Prop :=
  run.1 < run.2 ∧ ∃ e ∈ memmap, e.type = limineMemmapUsable ∧ run.frames ⊆ e.frames ∧
    (run.2 ∈ e.frames → run.2 ∉ claimed)

/-- What the loop over a memory map leaves behind. -/
structure MapSeeded (hhdm : Word) (bitmapFrames free : Set Nat) (memmap : List MemmapEntry)
    (runs : List FrameRun) (s : Seeding) (budget : Word) (s' : Seeding) (new : List FrameRun)
    (lists' : Lists) : Prop where
  seeded : Seeded hhdm bitmapFrames free (runs ++ new) lists' s'
  enclosed : ∀ run ∈ new, Enclosed memmap (heldFrames (runs ++ new)) run
  budgeted : s'.claimed.toNat ≤ budget.toNat
  exhausted : s'.claimed = budget ∨
    ∀ frame ∈ usableFrames memmap, frame ∈ free → frame ∈ heldFrames (runs ++ new)
  frame : Set.EqOn s'.mem s.mem (frameBytes hhdm (bitmapFrames ∪ free))ᶜ

theorem Enclosed.usable {claimed : Set Nat} {run : FrameRun} (enclosed : Enclosed memmap claimed run) :
    run.frames ⊆ usableFrames memmap := by
  obtain ⟨-, e, member, usable, inside, -⟩ := enclosed
  exact fun frame inRun => ⟨e, member, usable, inside inRun⟩

theorem Enclosed.cons {claimed : Set Nat} {run : FrameRun} (e : MemmapEntry)
    (enclosed : Enclosed memmap claimed run) : Enclosed (e :: memmap) claimed run := by
  obtain ⟨nonempty, other, member, rest⟩ := enclosed
  exact ⟨nonempty, other, List.mem_cons_of_mem _ member, rest⟩

theorem heldFrames_usable {new : List FrameRun} {claimed : Set Nat}
    (enclosed : ∀ run ∈ new, Enclosed memmap claimed run) : heldFrames new ⊆ usableFrames memmap := by
  intro frame held
  obtain ⟨run, member, inRun⟩ := held
  exact (enclosed run member).usable inRun

/-- The frames of an entry as the loop computes them. -/
theorem entry_bounds {e : MemmapEntry} (aligned : e.base.toNat % 4096 = 0 ∧ e.length.toNat % 4096 = 0)
    (addressed : e.base.toNat + e.length.toNat < 2 ^ 64) :
    (e.base / pmmFrameSize + e.length / pmmFrameSize).toNat < 2 ^ 52 ∧
      Set.Ico (e.base / pmmFrameSize).toNat (e.base / pmmFrameSize + e.length / pmmFrameSize).toNat =
        e.frames := by
  have first := Pmm.frameIndex_toNat e.base
  have count := Pmm.frameIndex_toNat e.length
  have stop : (e.base / pmmFrameSize + e.length / pmmFrameSize).toNat =
      e.base.toNat / 4096 + e.length.toNat / 4096 := by
    rw [BitVec.toNat_add, first, count, Nat.mod_eq_of_lt (by omega)]
  rw [stop, first, MemmapEntry.frames]
  exact ⟨by omega, rfl⟩

theorem MapSeeded.skip {s' : Seeding} {new : List FrameRun} {lists' : Lists} {e : MemmapEntry}
    (other : e.type ≠ limineMemmapUsable)
    (later : MapSeeded hhdm bitmapFrames free memmap runs s budget s' new lists') :
    MapSeeded hhdm bitmapFrames free (e :: memmap) runs s budget s' new lists' where
  seeded := later.seeded
  enclosed := fun run member => (later.enclosed run member).cons e
  budgeted := later.budgeted
  exhausted := by
    have sameUsable : usableFrames (e :: memmap) = usableFrames memmap := by
      rw [usableFrames_cons, if_neg other, Set.empty_union]
    rw [sameUsable]
    exact later.exhausted
  frame := later.frame

section Append

variable {middle s' : Seeding} {here new : List FrameRun} {listsHere lists' : Lists} {e : MemmapEntry}
  {f stop : Word}

theorem EntrySeeded.inEntry
    (entry : EntrySeeded hhdm bitmapFrames free runs s budget f stop middle here listsHere)
    (range : Set.Ico f.toNat stop.toNat = e.frames) :
    ∀ run ∈ here, run.1 < run.2 ∧ run.frames ⊆ e.frames := by
  intro run member
  obtain ⟨low, nonempty, high⟩ := entry.inside run member
  rw [← range]
  exact ⟨nonempty, Set.Ico_subset_Ico low high⟩

/-- Once an entry has spent the budget, the later entries claim nothing. -/
theorem EntrySeeded.spent
    (entry : EntrySeeded hhdm bitmapFrames free runs s budget f stop middle here listsHere)
    (later : MapSeeded hhdm bitmapFrames free memmap (runs ++ here) middle budget s' new lists')
    (spent : middle.claimed = budget) : s'.claimed = budget := by
  have claimed := later.seeded.claimed
  have before := entry.seeded.claimed
  have grown := Set.ncard_le_ncard
    (Set.subset_union_left (s := heldFrames (runs ++ here)) (t := heldFrames new))
    (by rw [← heldFrames_append]; exact later.seeded.finite.subset later.seeded.inFree)
  rw [← heldFrames_append, ← claimed, ← before, spent] at grown
  exact BitVec.eq_of_toNat_eq (Nat.le_antisymm later.budgeted grown)

theorem EntrySeeded.append
    (entry : EntrySeeded hhdm bitmapFrames free runs s budget f stop middle here listsHere)
    (later : MapSeeded hhdm bitmapFrames free memmap (runs ++ here) middle budget s' new lists')
    (usable : e.type = limineMemmapUsable) (range : Set.Ico f.toNat stop.toNat = e.frames)
    (restApart : Disjoint e.frames (usableFrames memmap)) :
    MapSeeded hhdm bitmapFrames free (e :: memmap) runs s budget s' (here ++ new) lists' := by
  have inEntry := entry.inEntry range
  have laterUsable := heldFrames_usable later.enclosed
  constructor
  case seeded =>
    rw [← List.append_assoc]
    exact later.seeded
  case enclosed =>
    intro run member
    rw [← List.append_assoc]
    cases List.mem_append.mp member with
    | inr inNew => exact (later.enclosed run inNew).cons e
    | inl inHere =>
        obtain ⟨nonempty, inside⟩ := inEntry run inHere
        refine ⟨nonempty, e, List.mem_cons_self, usable, inside, ?_⟩
        intro behind
        rw [heldFrames_append]
        intro held
        cases held with
        | inr inNew => exact Set.disjoint_left.mp restApart behind (laterUsable inNew)
        | inl before =>
            cases entry.ended run inHere with
            | inr fresh => exact fresh before
            | inl atStop =>
                rw [← range, atStop] at behind
                exact Nat.lt_irrefl _ behind.2
  case budgeted => exact later.budgeted
  case exhausted =>
    rw [usableFrames_cons, if_pos usable, ← List.append_assoc]
    cases later.exhausted with
    | inl spent => exact .inl spent
    | inr all =>
        cases entry.exhausted with
        | inl spent => exact .inl (entry.spent later spent)
        | inr allHere =>
            right
            intro frame member inFree
            cases member with
            | inl inEntry =>
                rw [heldFrames_append]
                exact .inl (allHere frame (by rw [range]; exact inEntry) inFree)
            | inr inRest => exact all frame inRest inFree
  case frame => exact later.frame.trans entry.frame

end Append

theorem seedEntries_seeded (seeded : Seeded hhdm bitmapFrames free runs lists s)
    (aligned : ∀ e ∈ memmap, e.type = limineMemmapUsable →
      e.base.toNat % 4096 = 0 ∧ e.length.toNat % 4096 = 0)
    (addressed : ∀ e ∈ memmap, e.type = limineMemmapUsable → e.base.toNat + e.length.toNat < 2 ^ 64)
    (disjoint : memmap.Pairwise fun left right => left.type = limineMemmapUsable →
      right.type = limineMemmapUsable → Disjoint left.frames right.frames)
    (apart : Disjoint (heldFrames runs) (usableFrames memmap))
    (budgeted : s.claimed.toNat ≤ budget.toNat) :
    ∃ new lists', MapSeeded hhdm bitmapFrames free memmap runs s budget
      (seedEntries budget memmap s) new lists' := by
  induction memmap generalizing runs lists s with
  | nil =>
      refine ⟨[], lists, ?_, by simp, budgeted, ?_, Set.eqOn_refl _ _⟩
      · rwa [List.append_nil]
      · right
        rw [usableFrames_nil]
        exact fun frame member => absurd member (Set.notMem_empty frame)
  | cons e rest ih =>
      rw [List.pairwise_cons] at disjoint
      have alignedRest := fun e' member => aligned e' (List.mem_cons_of_mem e member)
      have addressedRest := fun e' member => addressed e' (List.mem_cons_of_mem e member)
      rw [usableFrames_cons] at apart
      rw [seedEntries]
      split
      · next unspent =>
        split
        · next other =>
          rw [if_neg other, Set.empty_union] at apart
          obtain ⟨new, lists', later⟩ := ih seeded alignedRest addressedRest disjoint.2 apart budgeted
          exact ⟨new, lists', later.skip other⟩
        · next notOther =>
          have usable : e.type = limineMemmapUsable := Decidable.of_not_not notOther
          obtain ⟨physical, range⟩ := entry_bounds (aligned e List.mem_cons_self usable)
            (addressed e List.mem_cons_self usable)
          rw [if_pos usable, Set.disjoint_union_right, ← range] at apart
          have restApart := disjoint_usableFrames usable disjoint.1
          obtain ⟨here, lists', entry⟩ := seedEntry_seeded physical
            (show (e.base / pmmFrameSize + e.length / pmmFrameSize).toNat ≤
              (e.base / pmmFrameSize).toNat + ((e.base / pmmFrameSize + e.length / pmmFrameSize).toNat -
                (e.base / pmmFrameSize).toNat) by omega) seeded apart.1 budgeted
          have hereApart : Disjoint (heldFrames (runs ++ here)) (usableFrames rest) := by
            rw [heldFrames_append, Set.disjoint_union_left]
            refine ⟨apart.2, restApart.mono_left ?_⟩
            intro frame held
            obtain ⟨run, member, inRun⟩ := held
            exact (entry.inEntry range run member).2 inRun
          obtain ⟨new, listsEnd, later⟩ := ih entry.seeded alignedRest addressedRest disjoint.2
            hereApart entry.budgeted
          exact ⟨here ++ new, listsEnd, entry.append later usable range restApart⟩
      · next spent =>
        have all : s.claimed = budget :=
          BitVec.eq_of_toNat_eq (Nat.le_antisymm budgeted (Nat.not_lt.mp spent))
        refine ⟨[], lists, ?_, by simp, budgeted, .inl all, Set.eqOn_refl _ _⟩
        rwa [List.append_nil]

end Map

end ScrapOS.Buddy
