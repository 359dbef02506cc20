import ScrapOS.Paging.Operations

/-! Runs of one address space next to other clients of the frame allocator: any
interleaving of maps, unmaps, translations, allocations of others, and writes of
those others inside their own frames. -/

set_option autoImplicit false

namespace ScrapOS.Paging

/-- The most recent successful `paging_map` of a page. -/
structure Mapping where
  phys : Word
  flags : Word
deriving DecidableEq, Repr

/-- A state of a run: memory, the globals of `pmm.c`, the address space, the frames
other clients hold, and the abstract map of the pages. -/
structure Config where
  mem : Memory
  pmm : Pmm.Globals
  hhdmOffset : Word
  pml4Phys : Word
  owned : List Word
  mapped : Page → Option Mapping

namespace Config

/-- The bytes of the frames that other clients hold. -/
def ownedBytes (c : Config) : Set Word :=
  {address | ∃ phys ∈ c.owned, address ∈ span (phys + c.hhdmOffset) 4096}

def map (c : Config) (virt phys flags : Word) : Config :=
  match pagingMap c.mem c.pmm c.hhdmOffset c.pml4Phys virt phys flags with
  | (done, mem, pmm) =>
      { c with
        mem, pmm
        mapped := if done then Function.update c.mapped (pageOf virt) (some ⟨phys, flags⟩)
          else c.mapped }

def unmap (c : Config) (virt : Word) : Config :=
  match pagingUnmap c.mem c.pmm c.hhdmOffset c.pml4Phys virt with
  | (done, mem, pmm) =>
      { c with
        mem, pmm
        mapped := if done then Function.update c.mapped (pageOf virt) none else c.mapped }

def translate (c : Config) (virt : Word) : Config :=
  match pagingTranslate c.mem c.pmm c.hhdmOffset c.pml4Phys virt with
  | (_, mem, pmm) => { c with mem, pmm }

def alloc (c : Config) : Config :=
  match Pmm.pmmAllocFrame c.mem c.pmm with
  | (phys, mem, pmm) => { c with mem, pmm, owned := if phys = 0 then c.owned else phys :: c.owned }

end Config

/-- The maps a run may make in a state. -/
abbrev Admits := Config → Word → Word → Word → Prop

inductive Step (admits : Admits) : Config → Config → Prop where
  | map {c : Config} {virt phys flags : Word} :
      admits c virt phys flags → Step admits c (c.map virt phys flags)
  | unmap {c : Config} (virt : Word) : Step admits c (c.unmap virt)
  | translate {c : Config} (virt : Word) : Step admits c (c.translate virt)
  | alloc {c : Config} : Step admits c c.alloc
  | write {c : Config} {m' : Memory} :
      Set.EqOn m' c.mem c.ownedBytesᶜ → Step admits c { c with mem := m' }

abbrev Run (admits : Admits) : Config → Config → Prop := Relation.ReflTransGen (Step admits)

/-- A zeroed PML4 frame just taken from a frame allocator in a valid state, of which
other clients hold some of the frames that are neither free nor in the bitmap. -/
structure Initial (bitmapFrames free : Set Nat) (m : Memory) (pmm : Pmm.Globals) (c : Config) :
    Prop where
  tracks : Pmm.Tracks c.hhdmOffset bitmapFrames free m pmm
  supply : Suitable c.hhdmOffset free
  allocated : (Pmm.pmmAllocFrame m pmm).1 = c.pml4Phys
  succeeded : c.pml4Phys ≠ 0
  zeroed : c.mem = memset (Pmm.pmmAllocFrame m pmm).2.1 (tableAt c.hhdmOffset c.pml4Phys) 0 4096
  globals : c.pmm = (Pmm.pmmAllocFrame m pmm).2.2
  held : ∀ phys ∈ c.owned, ∃ frame, frame < 2 ^ 40 ∧ phys = frameAddress frame ∧
    frame ∉ free ∧ frame ∉ bitmapFrames
  unmapped : ∀ page, c.mapped page = none

/-- A leaf entry holds what the abstract map says. -/
def Represents (found : Word) (mapping : Option Mapping) : Prop :=
  mapping.elim (found &&& ptePresent = 0) fun x => found = leafEntry x.phys x.flags

/-- The invariant of a run. -/
structure Valid (bitmapFrames free : Set Nat) (root : Nat) (c : Config) : Prop where
  pml4 : c.pml4Phys = frameAddress root
  space : Space c.hhdmOffset root bitmapFrames free c.mem c.pmm
  held : ∀ phys ∈ c.owned, ∃ frame, frame < 2 ^ 40 ∧ phys = frameAddress frame ∧
    frame ∉ free ∧ frame ∉ bitmapFrames ∧ frame ∉ tables c.hhdmOffset root c.mem
  leaves : ∀ virt, Represents (entries c.hhdmOffset root c.mem (pathOf virt)) (c.mapped (pageOf virt))

/-- What a step does to the entries above the leaves: `next_level` may install tables. -/
def Installs (root : Nat) (user : Word) (c c' : Config) : Prop :=
  ∀ path : List Index, path.length ≤ 3 →
    entries c'.hhdmOffset root c'.mem path = entries c.hhdmOffset root c.mem path ∨
      entries c.hhdmOffset root c.mem path &&& ptePresent = 0 ∧
        ∃ fresh, entries c'.hhdmOffset root c'.mem path = tableEntry fresh user

theorem pathOf_length (virt : Word) : (pathOf virt).length = 4 := rfl

namespace Valid

variable {bitmapFrames free : Set Nat} {root : Nat} {c c' : Config}

theorem represents_update {found : List Index → Word} {virt other value : Word}
    {mapped : Page → Option Mapping} {mapping : Option Mapping}
    (before : Represents (found (pathOf other)) (mapped (pageOf other)))
    (here : Represents value mapping) :
    Represents (Function.update found (pathOf virt) value (pathOf other))
      (Function.update mapped (pageOf virt) mapping (pageOf other)) := by
  by_cases same : pathOf other = pathOf virt
  · rw [same, Function.update_self, pathOf_eq_iff.mp same, Function.update_self]
    exact here
  · have differentPage : pageOf other ≠ pageOf virt := fun page => same (pathOf_eq_iff.mpr page)
    rw [Function.update_of_ne same, Function.update_of_ne differentPage]
    exact before

/-- A frame another client may hold. -/
abbrev Held (bitmapFrames free : Set Nat) (root : Nat) (c : Config) (phys : Word) : Prop :=
  ∃ frame, frame < 2 ^ 40 ∧ phys = frameAddress frame ∧ frame ∉ free ∧ frame ∉ bitmapFrames ∧
    frame ∉ tables c.hhdmOffset root c.mem

/-- A change outside the tables leaves the address space as it is. -/
theorem moved (valid : Valid bitmapFrames free root c) {frames free' : Set Nat} {m' : Memory}
    {pmm' : Pmm.Globals} {owned' : List Word}
    (tracks : Pmm.Tracks c.hhdmOffset bitmapFrames free' m' pmm')
    (changed : Set.EqOn m' c.mem (frameBytes c.hhdmOffset frames)ᶜ)
    (apart : Disjoint (tables c.hhdmOffset root c.mem) frames)
    (supply : Suitable c.hhdmOffset free') (notFree : Disjoint (tables c.hhdmOffset root c.mem) free')
    (held : ∀ phys ∈ owned', Held bitmapFrames free' root c phys) :
    Valid bitmapFrames free' root { c with mem := m', pmm := pmm', owned := owned' } ∧
      Installs root 0 c { c with mem := m', pmm := pmm', owned := owned' } := by
  have sameTables := valid.space.tables_congr changed apart
  constructor
  · refine ⟨valid.pml4, valid.space.moved tracks changed apart supply notFree, ?_, ?_⟩
    · dsimp only
      rw [sameTables]
      exact held
    · intro virt
      dsimp only
      rw [valid.space.entries_congr changed apart (pathOf_length virt).le]
      exact valid.leaves virt
  · intro path bounded
    exact .inl (valid.space.entries_congr changed apart (Nat.le_succ_of_le bounded))

/-- The same where no frame becomes free. -/
theorem elsewhere (valid : Valid bitmapFrames free root c) {frames free' : Set Nat} {m' : Memory}
    {pmm' : Pmm.Globals} {owned' : List Word}
    (tracks : Pmm.Tracks c.hhdmOffset bitmapFrames free' m' pmm')
    (changed : Set.EqOn m' c.mem (frameBytes c.hhdmOffset frames)ᶜ)
    (apart : Disjoint (tables c.hhdmOffset root c.mem) frames) (consumed : free' ⊆ free)
    (held : ∀ phys ∈ owned', Held bitmapFrames free' root c phys) :
    Valid bitmapFrames free' root { c with mem := m', pmm := pmm', owned := owned' } ∧
      Installs root 0 c { c with mem := m', pmm := pmm', owned := owned' } :=
  valid.moved tracks changed apart (valid.space.supply.mono consumed)
    (valid.space.notFree.mono_right consumed) held

theorem owned_apart (valid : Valid bitmapFrames free root c) :
    c.ownedBytes ⊆ frameBytes c.hhdmOffset (bitmapFrames ∪ tables c.hhdmOffset root c.mem)ᶜ := by
  rintro address ⟨phys, member, inside⟩
  obtain ⟨frame, bounded, rfl, -, notBitmap, notTable⟩ := valid.held phys member
  rw [page_eq_frameBytes (by omega), mem_frameBytes, Set.mem_singleton_iff] at inside
  rw [mem_frameBytes, inside]
  exact fun member => member.elim notBitmap notTable

theorem write (valid : Valid bitmapFrames free root c) {m' : Memory}
    (inside : Set.EqOn m' c.mem c.ownedBytesᶜ) :
    Valid bitmapFrames free root { c with mem := m' } ∧ Installs root 0 c { c with mem := m' } := by
  have changed := eqOn_compl_mono inside valid.owned_apart
  have tracks : Pmm.Tracks c.hhdmOffset bitmapFrames free m' c.pmm := by
    apply valid.space.tracks.congr
    apply changed.mono
    intro address member outside
    exact outside (.inl member)
  apply valid.elsewhere tracks changed _ Set.Subset.rfl valid.held
  rw [Set.disjoint_compl_right_iff_subset]
  exact Set.subset_union_right

theorem alloc (valid : Valid bitmapFrames free root c) :
    ∃ free', Valid bitmapFrames free' root c.alloc ∧ Installs root 0 c c.alloc := by
  have outcome := valid.space.tracks.allocFrame
  rw [Config.alloc]
  generalize Pmm.pmmAllocFrame c.mem c.pmm = result at outcome
  cases outcome with
  | refused none => exact ⟨free, valid, fun path _ => .inl rfl⟩
  | @served frame m' pmm' available tracks changed total =>
      have bounded := valid.space.supply.physical frame available
      have nonzero : frame ≠ 0 := fun zero => valid.space.tracks.zero (zero ▸ available)
      dsimp only
      rw [if_neg (frameAddress_ne_zero (by omega) nonzero)]
      refine ⟨free \ {frame}, valid.elsewhere tracks changed valid.space.notBitmap
        Set.sdiff_subset ?_⟩
      intro phys member
      cases List.mem_cons.mp member with
      | inl here =>
          exact ⟨frame, bounded, here, fun inside => inside.2 rfl,
            Set.disjoint_left.mp valid.space.tracks.apart available,
            Set.disjoint_right.mp valid.space.notFree available⟩
      | inr before =>
          obtain ⟨other, otherBounded, address, notFree, notBitmap, notTable⟩ :=
            valid.held phys before
          exact ⟨other, otherBounded, address, fun inside => notFree inside.1, notBitmap, notTable⟩

theorem translate_eq (valid : Valid bitmapFrames free root c) (virt : Word) :
    pagingTranslate c.mem c.pmm c.hhdmOffset c.pml4Phys virt =
      (resolve (entries c.hhdmOffset root c.mem (pathOf virt)) virt, c.mem, c.pmm) := by
  rw [valid.pml4]
  exact valid.space.pagingTranslate_eq virt

theorem translate (valid : Valid bitmapFrames free root c) (virt : Word) : c.translate virt = c := by
  rw [Config.translate, valid.translate_eq virt]

theorem leaf_present_iff (valid : Valid bitmapFrames free root c) (virt : Word) :
    entries c.hhdmOffset root c.mem (pathOf virt) &&& ptePresent ≠ 0 ↔
      c.mapped (pageOf virt) ≠ none := by
  have leaf := valid.leaves virt
  cases mapping : c.mapped (pageOf virt) with
  | none =>
      rw [mapping] at leaf
      exact iff_of_false (not_not_intro leaf) (not_not_intro rfl)
  | some x =>
      rw [mapping] at leaf
      have present : entries c.hhdmOffset root c.mem (pathOf virt) = leafEntry x.phys x.flags := leaf
      rw [present]
      exact iff_of_true (leafEntry_bits x.phys x.flags).1 (Option.some_ne_none x)

theorem unmap_result (valid : Valid bitmapFrames free root c) (virt : Word) :
    (c.mapped (pageOf virt) ≠ none →
      (pagingUnmap c.mem c.pmm c.hhdmOffset c.pml4Phys virt).1 = true) ∧
    (c.mapped (pageOf virt) = none →
      pagingUnmap c.mem c.pmm c.hhdmOffset c.pml4Phys virt = (false, c.mem, c.pmm)) := by
  have outcome := valid.space.pagingUnmap_unmapped virt
  rw [← valid.leaf_present_iff, ← not_ne_iff (a := c.mapped (pageOf virt)), ← valid.leaf_present_iff,
    valid.pml4]
  generalize pagingUnmap c.mem c.pmm c.hhdmOffset (frameAddress root) virt = result at outcome
  cases outcome with
  | absent none => exact ⟨fun present => absurd none present, fun _ => rfl⟩
  | cleared present => exact ⟨fun _ => rfl, fun absent => absurd present absent⟩

theorem unmap_mapped (valid : Valid bitmapFrames free root c) (virt : Word) :
    (c.unmap virt).mapped = Function.update c.mapped (pageOf virt) none := by
  obtain ⟨present, absent⟩ := valid.unmap_result virt
  rw [Config.unmap]
  cases mapping : c.mapped (pageOf virt) with
  | none =>
      have unchanged : Function.update c.mapped (pageOf virt) none = c.mapped :=
        Function.update_eq_self_iff.mpr mapping.symm
      rw [absent mapping, unchanged]
      rfl
  | some x =>
      have done := present (by rw [mapping]; exact Option.some_ne_none x)
      generalize pagingUnmap c.mem c.pmm c.hhdmOffset c.pml4Phys virt = result at done
      dsimp only
      rw [if_pos done]

theorem unmap (valid : Valid bitmapFrames free root c) (virt : Word) :
    Valid bitmapFrames free root (c.unmap virt) ∧ Installs root 0 c (c.unmap virt) := by
  have outcome := valid.space.pagingUnmap_unmapped virt
  rw [Config.unmap, valid.pml4]
  generalize pagingUnmap c.mem c.pmm c.hhdmOffset (frameAddress root) virt = result at outcome
  cases outcome with
  | absent none =>
      rw [← valid.pml4]
      exact ⟨valid, fun path _ => .inl rfl⟩
  | cleared present space sameTables updated changed =>
      rw [← valid.pml4]
      constructor
      · refine ⟨valid.pml4, space, ?_, ?_⟩
        · dsimp only
          rw [sameTables]
          exact valid.held
        · intro other
          dsimp only
          rw [updated _ (pathOf_length other).le]
          exact represents_update (valid.leaves other) (by rfl)
      · intro path bounded
        left
        dsimp only
        rw [updated path (Nat.le_succ_of_le bounded), Function.update_of_ne]
        rintro rfl
        rw [pathOf_length] at bounded
        omega

/-- Creating tables changes no leaf and takes no frame of another client. -/
theorem grown (valid : Valid bitmapFrames free root c) {free' : Set Nat} {m' : Memory}
    {pmm' : Pmm.Globals} {target : List Index} {user : Word}
    (grew : Grown c.hhdmOffset root bitmapFrames target user free c.mem c.pmm free' m' pmm') :
    Valid bitmapFrames free' root { c with mem := m', pmm := pmm' } ∧
      Installs root user c { c with mem := m', pmm := pmm' } := by
  constructor
  · refine ⟨valid.pml4, grew.space, ?_, ?_⟩
    · intro phys member
      obtain ⟨frame, bounded, address, notFree, notBitmap, notTable⟩ := valid.held phys member
      refine ⟨frame, bounded, address, fun inside => notFree (grew.consumed inside), notBitmap, ?_⟩
      dsimp only
      rw [grew.tables]
      exact fun inside => inside.elim notTable fun taken => notFree taken.1
    · intro virt
      cases grew.entries (pathOf virt) (pathOf_length virt).le with
      | inl same =>
          dsimp only
          rw [same]
          exact valid.leaves virt
      | inr created => exact absurd created.1 (by rw [pathOf_length]; decide)
  · intro path bounded
    cases grew.entries path (Nat.le_succ_of_le bounded) with
    | inl same => exact .inl same
    | inr created => exact .inr created.2

/-- What `paging_map` does to a state: it succeeds where every missing table finds a
free frame, and installs nothing but tables above the leaf. -/
theorem map (valid : Valid bitmapFrames free root c) (virt phys flags : Word) :
    ∃ free', Valid bitmapFrames free' root (c.map virt phys flags) ∧
      Installs root (leafUser flags) c (c.map virt phys flags) ∧
      ((c.map virt phys flags).mapped = c.mapped ∧
          free.ncard < missing (entries c.hhdmOffset root c.mem) (tablePath virt) ∨
        (c.map virt phys flags).mapped =
            Function.update c.mapped (pageOf virt) (some ⟨phys, flags⟩) ∧
          missing (entries c.hhdmOffset root c.mem) (tablePath virt) ≤ free.ncard ∧
          ∃ table, tableOf c.hhdmOffset root (c.map virt phys flags).mem (tablePath virt) =
            some table) := by
  have outcome := valid.space.pagingMap_mapped virt phys flags
  rw [Config.map, valid.pml4]
  generalize pagingMap c.mem c.pmm c.hhdmOffset (frameAddress root) virt phys flags = result
    at outcome
  cases outcome with
  | exhausted grew lacking =>
      obtain ⟨valid', installs⟩ := valid.grown grew
      rw [← valid.pml4]
      exact ⟨∅, valid', installs, .inl ⟨rfl, lacking⟩⟩
  | @installed free' mid m' pmm' table grew supplied reached space sameTables updated changed =>
      obtain ⟨validMid, installs⟩ := valid.grown grew
      have inner : ∀ path : List Index, path.length ≤ 3 →
          entries c.hhdmOffset root m' path = entries c.hhdmOffset root mid path := by
        intro path bounded
        rw [updated path (Nat.le_succ_of_le bounded), Function.update_of_ne]
        rintro rfl
        rw [pathOf_length] at bounded
        omega
      rw [← valid.pml4]
      refine ⟨free', ⟨valid.pml4, space, ?_, ?_⟩, ?_, .inr ⟨rfl, supplied, table, ?_⟩⟩
      · dsimp only
        rw [sameTables]
        exact validMid.held
      · intro other
        dsimp only
        rw [updated _ (pathOf_length other).le]
        exact represents_update (validMid.leaves other) (by rfl)
      · intro path bounded
        dsimp only
        rw [inner path bounded]
        exact installs path bounded
      · dsimp only
        have sameEntry := inner (tablePath virt) (tablePath_length virt).le
        rw [tablePath, tableOf_cons] at reached ⊢
        rw [tablePath] at sameEntry
        rw [sameEntry, reached]

theorem map_ledger (valid : Valid bitmapFrames free root c) (virt phys flags : Word) :
    ∃ free', Valid bitmapFrames free' root (c.map virt phys flags) ∧ free' ⊆ free ∧
      tables c.hhdmOffset root (c.map virt phys flags).mem =
        tables c.hhdmOffset root c.mem ∪ (free \ free') := by
  obtain ⟨free', valid', -⟩ := valid.map virt phys flags
  have current := valid'.space.tracks.toMarks.clearFrames_eq
  rw [Config.map, valid.pml4] at valid' current ⊢
  obtain ⟨free'', spaceAfter, consumed, grown, -⟩ := valid.space.pagingMap_ledger virt phys flags rfl
  have same : free'' = free' := spaceAfter.tracks.toMarks.clearFrames_eq.symm.trans current
  rw [same] at consumed grown
  exact ⟨free', valid', consumed, grown⟩

theorem map_succeeds (valid : Valid bitmapFrames free root c)
    (enough : 3 ≤ c.pmm.freeFrames.toNat) (virt phys flags : Word) :
    (c.map virt phys flags).mapped =
      Function.update c.mapped (pageOf virt) (some ⟨phys, flags⟩) := by
  obtain ⟨_, _, _, outcome⟩ := valid.map virt phys flags
  rcases outcome with ⟨_, lacking⟩ | ⟨updated, _⟩
  · have most := missing_le (entries c.hhdmOffset root c.mem) (tablePath virt)
    rw [tablePath_length] at most
    rw [valid.space.tracks.counted] at enough
    omega
  · exact updated

/-! ## Runs -/

/-- A step keeps the invariant and installs nothing but tables above the leaves. -/
theorem step_installs {admits : Admits} (valid : Valid bitmapFrames free root c)
    (stepped : Step admits c c') :
    ∃ free' user, Valid bitmapFrames free' root c' ∧ Installs root user c c' := by
  cases stepped with
  | map admitted =>
      obtain ⟨free', valid', installs, -⟩ := valid.map _ _ _
      exact ⟨free', _, valid', installs⟩
  | unmap virt => exact ⟨free, 0, valid.unmap virt⟩
  | translate virt =>
      rw [valid.translate virt]
      exact ⟨free, 0, valid, fun _ _ => .inl rfl⟩
  | alloc =>
      obtain ⟨free', valid', installs⟩ := valid.alloc
      exact ⟨free', 0, valid', installs⟩
  | write inside => exact ⟨free, 0, valid.write inside⟩

theorem step {admits : Admits} (valid : Valid bitmapFrames free root c)
    (stepped : Step admits c c') : ∃ free', Valid bitmapFrames free' root c' := by
  obtain ⟨free', _, valid', -⟩ := valid.step_installs stepped
  exact ⟨free', valid'⟩

end Valid

/-! ## The invariant holds at the start -/

theorem entries_blank {hhdm : Word} {root : Nat} {m : Memory}
    (blank : ∀ index, cells hhdm m root index = 0) :
    ∀ path, entries hhdm root m path = 0 := by
  intro path
  induction path with
  | nil => rfl
  | cons index owner ih =>
      cases owner with
      | nil => exact blank index
      | cons next above =>
          apply RadixTree.entryAt_of_unreached
          have upper : RadixTree.entryAt pteFormat (cells hhdm m) root (next :: above) = 0 := ih
          rw [RadixTree.reach_cons, upper]
          rfl

theorem tables_blank {hhdm : Word} {root : Nat} {m : Memory}
    (blank : ∀ index, cells hhdm m root index = 0) :
    tables hhdm root m = {root} ∧ RadixTree.IsTree pteFormat 3 (cells hhdm m) root := by
  have onlyRoot : ∀ path frame, tableOf hhdm root m path = some frame → path = [] ∧ frame = root := by
    intro path frame reached
    cases path with
    | nil =>
        rw [tableOf_nil, Option.some.injEq] at reached
        exact ⟨rfl, reached.symm⟩
    | cons index owner =>
        rw [tableOf_cons, entries_blank blank] at reached
        cases reached
  constructor
  · ext frame
    constructor
    · rintro ⟨path, -, reached⟩
      exact (onlyRoot path frame reached).2
    · rintro rfl
      exact RadixTree.root_mem_nodes
  · intro left right node _ _ leftReached rightReached
    rw [(onlyRoot left node leftReached).1, (onlyRoot right node rightReached).1]

/-- A zeroed frame that was free is an address space without tables below its root. -/
theorem Space.blank {hhdm : Word} {root : Nat} {bitmapFrames free : Set Nat} {m : Memory}
    {pmm : Pmm.Globals} (available : root ∈ free) (supply : Suitable hhdm free)
    (notBitmap : root ∉ bitmapFrames) (tracks : Pmm.Tracks hhdm bitmapFrames (free \ {root}) m pmm) :
    Space hhdm root bitmapFrames (free \ {root})
        (memset m (tableAt hhdm (frameAddress root)) 0 4096) pmm ∧
      tables hhdm root (memset m (tableAt hhdm (frameAddress root)) 0 4096) = {root} ∧
      ∀ path, entries hhdm root (memset m (tableAt hhdm (frameAddress root)) 0 4096) path = 0 := by
  have bounded := supply.physical root available
  have blank : ∀ index, cells hhdm (memset m (tableAt hhdm (frameAddress root)) 0 4096) root index = 0 :=
    cells_memset (by omega)
  obtain ⟨onlyRoot, tree⟩ := tables_blank blank
  have rootApart : Disjoint bitmapFrames {root} := Set.disjoint_singleton_right.mpr notBitmap
  refine ⟨⟨?_, tree, ?_, ?_, supply.mono Set.sdiff_subset, ?_, ?_⟩, onlyRoot, entries_blank blank⟩
  · apply tracks.congr
    exact (memset_table_frame (by omega)).mono (frameBytes_disjoint rootApart).subset_compl_right
  · rw [onlyRoot]
    rintro frame rfl
    exact bounded
  · rw [onlyRoot]
    exact supply.toUsable.mono (Set.singleton_subset_iff.mpr available)
  · rw [onlyRoot, Set.disjoint_singleton_left]
    exact fun member => member.2 rfl
  · rw [onlyRoot]
    exact rootApart.symm

theorem Initial.valid {bitmapFrames free : Set Nat} {m : Memory} {pmm : Pmm.Globals} {c : Config}
    (initial : Initial bitmapFrames free m pmm c) :
    ∃ root free', Valid bitmapFrames free' root c ∧
      ∀ path, entries c.hhdmOffset root c.mem path = 0 := by
  have outcome := initial.tracks.allocFrame
  have allocated := initial.allocated
  have zeroed := initial.zeroed
  have globals := initial.globals
  generalize Pmm.pmmAllocFrame m pmm = result at outcome allocated zeroed globals
  cases outcome with
  | refused none => exact absurd allocated.symm initial.succeeded
  | @served root mid pmm' available tracks changed total =>
      dsimp only at allocated zeroed globals
      have notBitmap := Set.disjoint_left.mp initial.tracks.apart available
      obtain ⟨space, onlyRoot, blank⟩ := Space.blank available initial.supply notBitmap tracks
      rw [allocated, ← zeroed, ← globals] at space
      rw [allocated, ← zeroed] at onlyRoot blank
      refine ⟨root, free \ {root}, ⟨allocated.symm, space, ?_, ?_⟩, blank⟩
      · intro phys member
        obtain ⟨frame, frameBounded, address, notFree, frameBitmap⟩ := initial.held phys member
        refine ⟨frame, frameBounded, address, fun inside => notFree inside.1, frameBitmap, ?_⟩
        rw [onlyRoot]
        rintro rfl
        exact notFree available
      · intro virt
        rw [blank, initial.unmapped]
        rfl

end ScrapOS.Paging
