import ScrapOS.Simulation.Basic
import ScrapOS.Paging.Permissions

/-! `paging_map` when frames run out. A map that fails leaves behind the tables it could
still make. They translate nothing, they stay where they are, and the next try starts
from them. -/

set_option autoImplicit false

namespace ScrapOS.Paging

/-! ## Other clients of the frame allocator -/

namespace Config

/-- Another client claims a frame. -/
def claim (c : Config) (phys : Word) : Config :=
  match Pmm.pmmClaimFrame c.mem c.pmm phys with
  | (done, mem, pmm) =>
      { c with
        mem, pmm
        owned := if done then phys / pmmFrameSize * pmmFrameSize :: c.owned else c.owned }

/-- Another client gives a frame back. -/
def release (c : Config) (phys : Word) : Config :=
  match Pmm.pmmFreeFrame c.mem c.pmm phys with
  | (mem, pmm) => { c with mem, pmm, owned := c.owned.filter (· ≠ phys) }

end Config

/-- A step of the address space or of the other clients, who give back only frames that
the frame allocator can have handed out. -/
inductive Turn : Config → Config → Prop where
  | step {c c' : Config} : Step (fun _ _ _ _ => True) c c' → Turn c c'
  | claim {c : Config} (phys : Word) : Turn c (c.claim phys)
  | release {c : Config} {phys : Word} : phys ∈ c.owned →
      phys.toNat / 4096 < c.pmm.totalFrames.toNat → Suitable c.hhdmOffset {phys.toNat / 4096} →
      Turn c (c.release phys)

abbrev Turns : Config → Config → Prop := Relation.ReflTransGen Turn

namespace Valid

variable {bitmapFrames free : Set Nat} {root : Nat} {c c' : Config}

theorem claim (valid : Valid bitmapFrames free root c) (phys : Word) :
    ∃ free', Valid bitmapFrames free' root (c.claim phys) ∧ Installs root 0 c (c.claim phys) := by
  have outcome := valid.space.tracks.claimFrame phys
  rw [Config.claim]
  generalize Pmm.pmmClaimFrame c.mem c.pmm phys = result at outcome
  cases outcome with
  | refused notFree => exact ⟨free, valid, fun path _ => .inl rfl⟩
  | @taken m' pmm' available tracks changed total =>
      have bounded := valid.space.supply.physical _ available
      refine ⟨free \ {phys.toNat / 4096}, valid.elsewhere tracks changed valid.space.notBitmap
        Set.sdiff_subset ?_⟩
      intro other member
      cases List.mem_cons.mp member with
      | inl here =>
          refine ⟨phys.toNat / 4096, bounded, here.trans ?_, fun inside => inside.2 rfl,
            Set.disjoint_left.mp valid.space.tracks.apart available,
            Set.disjoint_right.mp valid.space.notFree available⟩
          unfold frameAddress
          bv_omega
      | inr before =>
          obtain ⟨frame, frameBounded, address, notFree, notBitmap, notTable⟩ :=
            valid.held other before
          exact ⟨frame, frameBounded, address, fun inside => notFree inside.1, notBitmap, notTable⟩

theorem release (valid : Valid bitmapFrames free root c) {phys : Word} (member : phys ∈ c.owned)
    (spanned : phys.toNat / 4096 < c.pmm.totalFrames.toNat)
    (suitable : Suitable c.hhdmOffset {phys.toNat / 4096}) :
    ∃ free', Valid bitmapFrames free' root (c.release phys) ∧ Installs root 0 c (c.release phys) := by
  obtain ⟨frame, bounded, address, notFree, notBitmap, notTable⟩ := valid.held phys member
  have number : phys.toNat / 4096 = frame := by
    rw [address]
    exact frameAddress_div (by omega)
  rw [number] at spanned suitable
  have nonzero : frame ≠ 0 := fun zero => suitable.zero (Set.mem_singleton_iff.mpr zero.symm)
  obtain ⟨tracks, changed, -⟩ := valid.space.tracks.freeFrame spanned nonzero notFree notBitmap
  rw [← address] at tracks changed
  have supply : Suitable c.hhdmOffset (insert frame free) := by
    refine ⟨suitable.toUsable.union valid.space.supply.toUsable, ?_⟩
    rintro other (rfl | inside)
    · exact bounded
    · exact valid.space.supply.physical other inside
  have notFree' : Disjoint (tables c.hhdmOffset root c.mem) (insert frame free) :=
    Set.disjoint_insert_right.mpr ⟨notTable, valid.space.notFree⟩
  refine ⟨insert frame free,
    valid.moved tracks changed valid.space.notBitmap supply notFree' fun other present => ?_⟩
  obtain ⟨before, different⟩ := List.mem_filter.mp present
  obtain ⟨otherFrame, otherBounded, otherAddress, otherNotFree, otherApart⟩ :=
    valid.held other before
  refine ⟨otherFrame, otherBounded, otherAddress, ?_, otherApart⟩
  rintro (same | inside)
  · rw [same, ← address] at otherAddress
    exact absurd otherAddress (of_decide_eq_true different)
  · exact otherNotFree inside

theorem turn (valid : Valid bitmapFrames free root c) (turned : Turn c c') :
    ∃ free' user, Valid bitmapFrames free' root c' ∧ Installs root user c c' := by
  cases turned with
  | step stepped => exact valid.step_installs stepped
  | claim phys =>
      obtain ⟨free', valid', installs⟩ := valid.claim phys
      exact ⟨free', 0, valid', installs⟩
  | release member spanned suitable =>
      obtain ⟨free', valid', installs⟩ := valid.release member spanned suitable
      exact ⟨free', 0, valid', installs⟩

/-- No turn takes back or moves a table. -/
theorem turns (valid : Valid bitmapFrames free root c) (turned : Turns c c') :
    ∃ free', Valid bitmapFrames free' root c' ∧ ∀ path : List Index, path.length ≤ 3 →
      entries c.hhdmOffset root c.mem path &&& ptePresent ≠ 0 →
        entries c'.hhdmOffset root c'.mem path = entries c.hhdmOffset root c.mem path := by
  let stands (later : Config) := ∀ path : List Index, path.length ≤ 3 →
    entries c.hhdmOffset root c.mem path &&& ptePresent ≠ 0 →
      entries later.hhdmOffset root later.mem path = entries c.hhdmOffset root c.mem path
  have kept : ∀ free later next, Valid bitmapFrames free root later ∧ stands later →
      Turn later next → ∃ free', Valid bitmapFrames free' root next ∧ stands next := by
    intro free later next before last
    obtain ⟨free', user, after, installs⟩ := before.1.turn last
    refine ⟨free', after, fun path bounded present => ?_⟩
    have same := before.2 path bounded present
    rw [← same] at present
    exact (Permits.installs_kept installs bounded present).trans same
  exact Simulation.run_holds kept ⟨valid, fun _ _ _ => rfl⟩ turned

end Valid

/-! ## Tables that stay -/

section Kept

variable {hhdm hhdm' : Word} {root frame : Nat} {m m' : Memory} {path : List Index}
  (kept : ∀ path : List Index, path.length ≤ 3 → entries hhdm root m path &&& ptePresent ≠ 0 →
    entries hhdm' root m' path = entries hhdm root m path)

include kept

theorem tableOf_kept (bounded : path.length ≤ 3) (reached : tableOf hhdm root m path = some frame) :
    tableOf hhdm' root m' path = some frame := by
  cases path with
  | nil =>
      rw [tableOf_nil] at reached ⊢
      exact reached
  | cons index owner =>
      rw [tableOf_cons] at reached ⊢
      rw [kept _ bounded (child_eq_some_iff.mp reached).1]
      exact reached

theorem missing_kept (bounded : path.length ≤ 3) :
    missing (entries hhdm' root m') path ≤ missing (entries hhdm root m) path := by
  induction path with
  | nil => rw [missing, missing]
  | cons index owner ih =>
      have above := ih (Nat.le_of_succ_le bounded)
      rw [missing, missing]
      by_cases absent : entries hhdm root m (index :: owner) &&& ptePresent = 0
      · rw [if_pos absent]
        split <;> omega
      · rw [kept _ bounded absent, if_neg absent]
        exact Nat.add_le_add_left above 0

end Kept

/-! ## One map -/

namespace Config

/-- The number of tables that are missing on the way to an address. -/
def missingTables (c : Config) (virt : Word) : Nat := 3 - (c.tableEntries virt).length

/-- The frames that the frame allocator has free. -/
def freeFrames (c : Config) : Set Nat := Pmm.clearFrames c.mem c.pmm

/-- The frame of the PML4. -/
def root (c : Config) : Nat := c.pml4Phys.toNat / 4096

/-- The frame of the table at the end of a path. -/
def tableOn (c : Config) (path : List Index) : Option Nat := tableOf c.hhdmOffset c.root c.mem path

/-- What `paging_map` returns. -/
def answer (c : Config) (virt phys flags : Word) : Bool :=
  (pagingMap c.mem c.pmm c.hhdmOffset c.pml4Phys virt phys flags).1

end Config

/-- A frame is a table on the path of an address, where no table was. It was zeroed and then
linked: only its entry further down the path may be set. -/
structure Linked (c c' : Config) (virt user : Word) (frame : Nat) (path : List Index) : Prop where
  onPath : path <:+ tablePath virt
  fresh : c.tableOn path = none
  table : c'.tableOn path = some frame
  entry : entries c'.hhdmOffset c'.root c'.mem path = tableEntry frame user
  zeroed : ∀ index, ¬ index :: path <:+ pathOf virt → cells c'.hhdmOffset c'.mem frame index = 0

/-- What a call of `paging_map` answers, and what it takes from the frame allocator. -/
structure Accounted (c : Config) (virt phys flags : Word) : Prop where
  answer : c.answer virt phys flags = false ↔ c.freeFrames.ncard < c.missingTables virt
  counter : c.pmm.freeFrames.toNat = c.freeFrames.ncard
  consumed : (c.map virt phys flags).freeFrames ⊆ c.freeFrames
  taken : (c.freeFrames \ (c.map virt phys flags).freeFrames).ncard =
    min (c.missingTables virt) c.freeFrames.ncard
  linked : ∀ frame ∈ c.freeFrames \ (c.map virt phys flags).freeFrames,
    ∃ path, Linked c (c.map virt phys flags) virt (leafUser flags) frame path
  remaining : (c.map virt phys flags).missingTables virt +
    min (c.missingTables virt) c.freeFrames.ncard = c.missingTables virt

namespace Valid

variable {bitmapFrames free : Set Nat} {root : Nat} {c c' : Config}

theorem root_eq (valid : Valid bitmapFrames free root c) : c.root = root := by
  have member : root ∈ tables c.hhdmOffset root c.mem := RadixTree.root_mem_nodes
  rw [Config.root, valid.pml4]
  exact frameAddress_div (valid.space.lt member)

theorem freeFrames_eq (valid : Valid bitmapFrames free root c) : c.freeFrames = free :=
  valid.space.tracks.toMarks.clearFrames_eq

theorem missingTables_eq (valid : Valid bitmapFrames free root c) (virt : Word) :
    c.missingTables virt = missing (entries c.hhdmOffset root c.mem) (tablePath virt) := by
  have start : tableOf c.hhdmOffset root c.mem [] = some root := tableOf_nil
  have counts := (presentEntries_spec (tablePath virt).reverse start).2
  rw [List.reverse_reverse, List.append_nil, ← valid.tableEntries_eq, List.length_reverse,
    tablePath_length] at counts
  rw [Config.missingTables]
  omega

/-- A map takes as many frames as tables are missing, or all that are left. -/
theorem map_supplied (valid : Valid bitmapFrames free root c) (virt phys flags : Word) :
    ∃ free', Valid bitmapFrames free' root (c.map virt phys flags) ∧ free' ⊆ free ∧
      tables c.hhdmOffset root (c.map virt phys flags).mem =
        tables c.hhdmOffset root c.mem ∪ (free \ free') ∧
      missing (entries c.hhdmOffset root c.mem) (tablePath virt) + free'.ncard =
        missing (entries c.hhdmOffset root (c.map virt phys flags).mem) (tablePath virt) +
          free.ncard ∧
      (c.answer virt phys flags = false ∧ free' = ∅ ∧
          free.ncard < missing (entries c.hhdmOffset root c.mem) (tablePath virt) ∧
          (∀ other, entries c.hhdmOffset root (c.map virt phys flags).mem (pathOf other) =
            entries c.hhdmOffset root c.mem (pathOf other)) ∨
        c.answer virt phys flags = true ∧
          missing (entries c.hhdmOffset root (c.map virt phys flags).mem) (tablePath virt) = 0 ∧
          missing (entries c.hhdmOffset root c.mem) (tablePath virt) ≤ free.ncard) := by
  obtain ⟨free', valid', consumed, grown⟩ := valid.map_ledger virt phys flags
  refine ⟨free', valid', consumed, grown, ?_⟩
  have current := valid'.space.tracks.toMarks.clearFrames_eq
  have outcome := valid.space.pagingMap_mapped virt phys flags
  rw [Config.answer]
  rw [Config.map] at current ⊢
  rw [valid.pml4] at current ⊢
  generalize pagingMap c.mem c.pmm c.hhdmOffset (frameAddress root) virt phys flags = result
    at outcome current ⊢
  cases outcome with
  | exhausted grew lacking =>
      have none : free' = ∅ := current.symm.trans grew.space.tracks.toMarks.clearFrames_eq
      subst none
      refine ⟨grew.supplied, .inl ⟨rfl, rfl, lacking, fun other => ?_⟩⟩
      cases grew.entries (pathOf other) (pathOf_length other).le with
      | inl same => exact same
      | inr created => exact absurd created.1 (by rw [pathOf_length]; decide)
  | @installed free'' mid m' pmm' table grew supplied reached space sameTables updated changed =>
      have same : free' = free'' := current.symm.trans space.tracks.toMarks.clearFrames_eq
      subst same
      have inner : ∀ path : List Index, path.length ≤ 3 →
          entries c.hhdmOffset root m' path = entries c.hhdmOffset root mid path := by
        intro path bounded
        rw [updated path (Nat.le_succ_of_le bounded), Function.update_of_ne]
        rintro rfl
        rw [pathOf_length] at bounded
        omega
      have complete : missing (entries c.hhdmOffset root m') (tablePath virt) = 0 := by
        rw [missing_congr (tablePath_length virt).le inner, missing_of_reached reached]
      have balance := grew.supplied
      rw [missing_of_reached reached] at balance
      dsimp only
      rw [complete]
      exact ⟨balance, .inr ⟨rfl, rfl, supplied⟩⟩

theorem map_elsewhere (valid : Valid bitmapFrames free root c) (virt phys flags : Word)
    {path : List Index} (bounded : path.length ≤ 4) (off : ¬ path <:+ pathOf virt) :
    entries c.hhdmOffset root (c.map virt phys flags).mem path =
      entries c.hhdmOffset root c.mem path := by
  have kept := valid.space.pagingMap_elsewhere virt phys flags bounded off
  rw [← valid.pml4] at kept
  exact kept

/-- A frame that became a table hangs on the path of the address. -/
theorem map_linked (valid : Valid bitmapFrames free root c) (virt phys flags : Word) {frame : Nat}
    (table : frame ∈ tables c.hhdmOffset root (c.map virt phys flags).mem)
    (new : frame ∉ tables c.hhdmOffset root c.mem) :
    ∃ path, Linked c (c.map virt phys flags) virt (leafUser flags) frame path := by
  obtain ⟨free', valid', installs, -⟩ := valid.map virt phys flags
  obtain ⟨path, bounded, reached⟩ := table
  have kept : ∀ path : List Index, path.length ≤ 3 →
      entries c.hhdmOffset root c.mem path &&& ptePresent ≠ 0 →
        entries c.hhdmOffset root (c.map virt phys flags).mem path =
          entries c.hhdmOffset root c.mem path :=
    fun _ => Permits.installs_kept installs
  have fresh : tableOf c.hhdmOffset root c.mem path = none := by
    cases before : tableOf c.hhdmOffset root c.mem path with
    | none => rfl
    | some other =>
        have same := tableOf_kept kept bounded before
        rw [tableOf, reached, Option.some.injEq] at same
        subst same
        exact absurd (Space.tableOf_mem bounded before) new
  cases path with
  | nil =>
      rw [tableOf_nil] at fresh
      cases fresh
  | cons index owner =>
      have refers : pteFormat.child (entries c.hhdmOffset root (c.map virt phys flags).mem
          (index :: owner)) = some frame := by
        rw [← tableOf_cons]
        exact reached
      have changed : entries c.hhdmOffset root (c.map virt phys flags).mem (index :: owner) ≠
          entries c.hhdmOffset root c.mem (index :: owner) := by
        intro same
        rw [tableOf_cons, ← same, refers] at fresh
        cases fresh
      have onPath : index :: owner <:+ tablePath virt := by
        by_contra off
        apply changed
        apply valid.map_elsewhere virt phys flags (Nat.le_succ_of_le bounded)
        intro suffix
        rcases List.suffix_cons_iff.mp suffix with whole | above
        · rw [whole, List.length_cons, tablePath_length] at bounded
          exact absurd bounded (by decide)
        · exact off above
      refine ⟨index :: owner, onPath, ?_, ?_, ?_, ?_⟩
      · rw [Config.tableOn, valid.root_eq]
        exact fresh
      · rw [Config.tableOn, valid'.root_eq]
        exact reached
      · rw [valid'.root_eq]
        cases installs (index :: owner) bounded with
        | inl same => exact absurd same changed
        | inr created =>
            obtain ⟨-, other, installed⟩ := created
            have same : (c.map virt phys flags).hhdmOffset = c.hhdmOffset := rfl
            rw [same] at installed ⊢
            rw [installed] at refers ⊢
            exact tableEntry_child (leafUser_cases flags) refers
      · intro position off
        have longer : (position :: index :: owner).length ≤ 4 := Nat.succ_le_succ bounded
        have same := valid.map_elsewhere virt phys flags longer off
        have here : entries c.hhdmOffset root (c.map virt phys flags).mem (position :: index :: owner) =
            cells c.hhdmOffset (c.map virt phys flags).mem frame position :=
          RadixTree.entryAt_of_reach reached
        have blank : entries c.hhdmOffset root c.mem (position :: index :: owner) = 0 :=
          RadixTree.entryAt_of_unreached fresh
        exact (here.symm.trans same).trans blank

theorem accounted (valid : Valid bitmapFrames free root c) (virt phys flags : Word) :
    Accounted c virt phys flags := by
  obtain ⟨free', valid', consumed, grown, balance, outcome⟩ := valid.map_supplied virt phys flags
  have finite := valid.space.tracks.finite
  have taken : (free \ free').ncard + free'.ncard = free.ncard :=
    Set.ncard_sdiff_add_ncard_of_subset consumed finite
  have same : (c.map virt phys flags).hhdmOffset = c.hhdmOffset := rfl
  have before := valid.missingTables_eq virt
  have after := valid'.missingTables_eq virt
  rw [same] at after
  have smaller : free'.ncard = free.ncard - min (c.missingTables virt) free.ncard := by
    rcases outcome with ⟨-, none, lacking, -⟩ | ⟨-, complete, enough⟩
    · rw [none, Set.ncard_empty]
      omega
    · omega
  refine ⟨?_, ?_, ?_, ?_, ?_, ?_⟩
  · rw [valid.freeFrames_eq, before]
    rcases outcome with ⟨failed, -, lacking, -⟩ | ⟨done, -, enough⟩
    · exact iff_of_true failed lacking
    · exact iff_of_false (by rw [done]; decide) (Nat.not_lt.mpr enough)
  · rw [valid.freeFrames_eq]
    exact valid.space.tracks.counted
  · rw [valid.freeFrames_eq, valid'.freeFrames_eq]
    exact consumed
  · rw [valid.freeFrames_eq, valid'.freeFrames_eq]
    omega
  · rw [valid.freeFrames_eq, valid'.freeFrames_eq]
    intro frame member
    apply valid.map_linked virt phys flags
    · rw [grown]
      exact .inr member
    · exact fun table => Set.disjoint_left.mp valid.space.notFree table member.1
  · rw [valid.freeFrames_eq]
    omega

theorem failed_translation (valid : Valid bitmapFrames free root c) {virt phys flags : Word}
    (failed : c.answer virt phys flags = false) (other : Word) :
    (c.map virt phys flags).translation other = c.translation other := by
  obtain ⟨free', valid', -, -, -, outcome⟩ := valid.map_supplied virt phys flags
  rcases outcome with ⟨-, -, -, leaves⟩ | ⟨done, -⟩
  · have same : (c.map virt phys flags).hhdmOffset = c.hhdmOffset := rfl
    rw [Config.translation, valid'.translate_eq, Config.translation, valid.translate_eq, same,
      leaves other]
  · rw [failed] at done
    cases done

/-- What stays of a failed map, whatever happens next. -/
theorem failed_reused (valid : Valid bitmapFrames free root c) (turned : Turns c c') (virt : Word) :
    c'.missingTables virt ≤ c.missingTables virt ∧
      ∀ path frame, path.length ≤ 3 → c.tableOn path = some frame → c'.tableOn path = some frame := by
  obtain ⟨free', valid', kept⟩ := valid.turns turned
  constructor
  · rw [valid.missingTables_eq, valid'.missingTables_eq]
    exact missing_kept kept (tablePath_length virt).le
  · intro path frame bounded reached
    rw [Config.tableOn, valid.root_eq] at reached
    rw [Config.tableOn, valid'.root_eq]
    exact tableOf_kept kept bounded reached

end Valid

/-- What a failed map leaves for later: its tables stay in place, and a retry takes frames
only for the tables that are still missing. -/
structure Resumable (c failed later : Config) (virt : Word) : Prop where
  fewer : later.missingTables virt + c.freeFrames.ncard ≤ c.missingTables virt
  reused : ∀ path frame, path.length ≤ 3 → failed.tableOn path = some frame →
    later.tableOn path = some frame
  retry : ∀ phys flags, Accounted later virt phys flags

/-- A failed `paging_map` harms nothing. -/
theorem failed_map_harmless {bitmapFrames free : Set Nat} {m : Memory} {pmm : Pmm.Globals}
    {start c : Config} (initial : Initial bitmapFrames free m pmm start) (ran : Turns start c)
    (virt phys flags : Word) :
    Accounted c virt phys flags ∧
      (c.answer virt phys flags = false →
        (∀ other, (c.map virt phys flags).translation other = c.translation other) ∧
        ∀ later, Turns (c.map virt phys flags) later →
          Resumable c (c.map virt phys flags) later virt) := by
  obtain ⟨root, first, valid, -⟩ := initial.valid
  obtain ⟨free', valid', -⟩ := valid.turns ran
  have accounted := valid'.accounted virt phys flags
  refine ⟨accounted, fun failed => ⟨valid'.failed_translation failed, fun later turned => ?_⟩⟩
  obtain ⟨_, validFailed, -⟩ := valid'.map virt phys flags
  obtain ⟨_, validLater, -⟩ := validFailed.turns turned
  obtain ⟨fewer, reused⟩ := validFailed.failed_reused turned virt
  have lacking := accounted.answer.mp failed
  have remaining := accounted.remaining
  exact ⟨by omega, reused, validLater.accounted virt⟩

/-! ## A machine with four frames -/

def lowMap : List MemmapEntry := [⟨0x1000, 0x4000, limineMemmapUsable⟩]

def lowBoot : Memory × Pmm.Globals :=
  (Pmm.pmmInit (fun _ => 0) lowMap Pmm.smallHhdm).get (by decide +kernel)

theorem lowMap_frames : usableFrames lowMap = Set.Ico 1 5 := by
  rw [lowMap, usableFrames_cons, if_pos rfl]
  rw [usableFrames_nil, Set.union_empty]
  rfl

theorem lowMap_valid : MemmapValid lowMap := by
  refine ⟨by decide, by decide, ?_, ?_⟩
  · simp [lowMap]
  · rw [lowMap_frames]
    simp

/-- One frame holds the bitmap and one the PML4, so that two are free. -/
def lowSpace : Config := bootedSpace lowBoot.1 lowBoot.2 Pmm.smallHhdm

theorem lowSpace_initial : ∃ bitmapFrames free,
    Initial bitmapFrames free lowBoot.1 lowBoot.2 lowSpace := by
  have succeeds : (Pmm.pmmInit (fun _ => 0) lowMap Pmm.smallHhdm).isSome := by decide +kernel
  have supply : Suitable Pmm.smallHhdm (usableFrames lowMap) := by
    rw [lowMap_frames]
    refine ⟨⟨by simp, fun frame member => ?_⟩, fun frame member => ?_⟩
    · have range : 1 ≤ frame ∧ frame < 5 := member
      unfold Pmm.smallHhdm
      bv_omega
    · have range : 1 ≤ frame ∧ frame < 5 := member
      omega
  have booted : Pmm.pmmInit (fun _ => 0) lowMap Pmm.smallHhdm = some (lowBoot.1, lowBoot.2) :=
    (Option.some_get succeeds).symm
  have succeeded : lowSpace.pml4Phys ≠ 0 := by decide +kernel
  exact bootedSpace_initial lowMap_valid booted supply succeeded

theorem Valid.blank_missing {bitmapFrames free : Set Nat} {root : Nat} {c : Config}
    (valid : Valid bitmapFrames free root c)
    (blank : ∀ path, entries c.hhdmOffset root c.mem path = 0) (virt : Word) :
    c.missingTables virt = 3 := by
  have absent : (0 : Word) &&& ptePresent = 0 := rfl
  rw [valid.missingTables_eq, tablePath]
  simp only [missing, blank, absent, if_true]

theorem failed_map_harmless_lowSpace :
    lowSpace.answer 0x400000 0x8000 0 = false ∧
    (lowSpace.map 0x400000 0x8000 0).missingTables 0x400000 = 1 ∧
    (lowSpace.map 0x400000 0x8000 0).translation 0x400000 = lowSpace.translation 0x400000 := by
  obtain ⟨_, _, initial⟩ := lowSpace_initial
  obtain ⟨root, free, valid, blank⟩ := initial.valid
  obtain ⟨accounted, harmless⟩ := failed_map_harmless initial .refl 0x400000 0x8000 0
  have two : lowSpace.pmm.freeFrames = 2 := by decide +kernel
  have three := valid.blank_missing blank 0x400000
  have counter := accounted.counter
  have remaining := accounted.remaining
  rw [two] at counter
  have failed := accounted.answer.mpr (by rw [← counter, three]; decide)
  rw [← counter, three] at remaining
  exact ⟨failed, Nat.add_right_cancel remaining, (harmless failed).1 0x400000⟩

end ScrapOS.Paging
