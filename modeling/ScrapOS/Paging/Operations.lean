import ScrapOS.Paging.Create

/-! The three operations of `paging.c` as changes of the leaf entries, and the walk
of the CPU as the entries on the path of an address. -/

set_option autoImplicit false

namespace ScrapOS.Paging

open RadixTree

variable {hhdm : Word} {root : Nat} {bitmapFrames free free' : Set Nat} {m m' : Memory}
  {pmm pmm' : Pmm.Globals}

/-- The frame address and the offset of a translation. -/
def resolve (found virt : Word) : Option Word :=
  if found &&& ptePresent = 0 then none else some ((found &&& pteAddrMask) ||| (virt &&& 0xfff))

theorem ptIndex_eq (virt : Word) : ptIndex virt = (ptOf virt).setWidth 64 := shift_and_mask virt 12

theorem tablePath_length (virt : Word) : (tablePath virt).length = 3 := rfl

theorem leaf_absent {virt : Word} (unreached : tableOf hhdm root m (tablePath virt) = none) :
    entries hhdm root m (pathOf virt) = 0 := entryAt_of_unreached unreached

namespace Space

theorem pagingTranslate_eq (space : Space hhdm root bitmapFrames free m pmm) (virt : Word) :
    pagingTranslate m pmm hhdm (frameAddress root) virt =
      (resolve (entries hhdm root m (pathOf virt)) virt, m, pmm) := by
  rw [pagingTranslate, space.leafTable_read virt]
  cases reached : tableOf hhdm root m (tablePath virt) with
  | none =>
      rw [leaf_absent reached]
      rfl
  | some table =>
      have member := tableOf_mem (tablePath_length virt).le reached
      dsimp only [Option.elim_some]
      rw [if_neg (space.pointer_ne_zero member), ptIndex_eq, entry_eq reached, resolve, pathOf]
      split
      · rfl
      · rfl

/-- What `paging_unmap` can do. -/
inductive Unmapped (hhdm : Word) (root : Nat) (bitmapFrames free : Set Nat) (m : Memory)
    (pmm : Pmm.Globals) (virt : Word) : Bool × Memory × Pmm.Globals → Prop where
  | absent : entries hhdm root m (pathOf virt) &&& ptePresent = 0 →
      Unmapped hhdm root bitmapFrames free m pmm virt (false, m, pmm)
  | cleared {m' : Memory} : entries hhdm root m (pathOf virt) &&& ptePresent ≠ 0 →
      Space hhdm root bitmapFrames free m' pmm → tables hhdm root m' = tables hhdm root m →
      (∀ path : List Index, path.length ≤ 4 → entries hhdm root m' path =
        Function.update (entries hhdm root m) (pathOf virt) 0 path) →
      Set.EqOn m' m (frameBytes hhdm (tables hhdm root m))ᶜ →
      Unmapped hhdm root bitmapFrames free m pmm virt (true, m', pmm)

theorem pagingUnmap_unmapped (space : Space hhdm root bitmapFrames free m pmm) (virt : Word) :
    Unmapped hhdm root bitmapFrames free m pmm virt
      (pagingUnmap m pmm hhdm (frameAddress root) virt) := by
  rw [pagingUnmap, space.leafTable_read virt]
  cases reached : tableOf hhdm root m (tablePath virt) with
  | none =>
      apply Unmapped.absent
      rw [leaf_absent reached]
      rfl
  | some table =>
      have member := tableOf_mem (tablePath_length virt).le reached
      have last := tablePath_length virt
      dsimp only [Option.elim_some]
      rw [if_neg (space.pointer_ne_zero member), ptIndex_eq, entry_eq reached]
      split
      · next absent => exact .absent absent
      · next present =>
        exact .cleared present (space.leaf last reached _ 0) (space.leaf_tables last reached _ 0)
          (fun path bounded => space.leaf_entries last reached _ 0 bounded)
          (space.leaf_frame last reached _ 0)

/-- What `paging_map` can do. -/
inductive Mapped (hhdm : Word) (root : Nat) (bitmapFrames free : Set Nat) (m : Memory)
    (pmm : Pmm.Globals) (virt phys flags : Word) : Bool × Memory × Pmm.Globals → Prop where
  | exhausted {m' : Memory} {pmm' : Pmm.Globals} :
      Grown hhdm root bitmapFrames (tablePath virt) (leafUser flags) free m pmm ∅ m' pmm' →
      free.ncard < missing (entries hhdm root m) (tablePath virt) →
      Mapped hhdm root bitmapFrames free m pmm virt phys flags (false, m', pmm')
  | installed {free' : Set Nat} {mid m' : Memory} {pmm' : Pmm.Globals} {table : Nat} :
      Grown hhdm root bitmapFrames (tablePath virt) (leafUser flags) free m pmm free' mid pmm' →
      missing (entries hhdm root m) (tablePath virt) ≤ free.ncard →
      tableOf hhdm root mid (tablePath virt) = some table →
      Space hhdm root bitmapFrames free' m' pmm' → tables hhdm root m' = tables hhdm root mid →
      (∀ path : List Index, path.length ≤ 4 → entries hhdm root m' path =
        Function.update (entries hhdm root mid) (pathOf virt) (leafEntry phys flags) path) →
      Set.EqOn m' mid (frameBytes hhdm (tables hhdm root mid))ᶜ →
      Mapped hhdm root bitmapFrames free m pmm virt phys flags (true, m', pmm')

theorem pagingMap_mapped (space : Space hhdm root bitmapFrames free m pmm)
    (virt phys flags : Word) :
    Mapped hhdm root bitmapFrames free m pmm virt phys flags
      (pagingMap m pmm hhdm (frameAddress root) virt phys flags) := by
  have walked := space.leafTable_walked virt (leafUser_cases flags)
  rw [pagingMap]
  generalize leafTable m pmm hhdm (frameAddress root) virt true (leafUser flags) = result at walked
  cases walked with
  | exhausted grown lacking =>
      have supplied := grown.supplied
      rw [Set.ncard_empty] at supplied
      exact .exhausted grown (by omega)
  | arrived grown reached =>
      have supplied := grown.supplied
      rw [missing_of_reached reached] at supplied
      have member := tableOf_mem (tablePath_length virt).le reached
      have last := tablePath_length virt
      dsimp only
      rw [if_neg (grown.space.pointer_ne_zero member), ptIndex_eq]
      exact .installed grown (by omega) reached (grown.space.leaf last reached _ _)
        (grown.space.leaf_tables last reached _ _)
        (fun path bounded => grown.space.leaf_entries last reached _ _ bounded)
        (grown.space.leaf_frame last reached _ _)

theorem pagingMap_elsewhere (space : Space hhdm root bitmapFrames free m pmm)
    (virt phys flags : Word) {path : List Index} (bounded : path.length ≤ 4)
    (off : ¬ path <:+ pathOf virt) :
    entries hhdm root (pagingMap m pmm hhdm (frameAddress root) virt phys flags).2.1 path =
      entries hhdm root m path := by
  have above : ¬ path <:+ tablePath virt := fun suffix => off (suffix.trans (List.suffix_cons _ _))
  have leaf : path ≠ pathOf virt := fun same => off (same ▸ List.suffix_refl _)
  have kept := space.leafTable_elsewhere virt (leafUser_cases flags) bounded above
  have walked := space.leafTable_walked virt (leafUser_cases flags)
  rw [pagingMap]
  generalize leafTable m pmm hhdm (frameAddress root) virt true (leafUser flags) = result
    at walked kept
  cases walked with
  | exhausted => exact kept
  | arrived grown reached =>
      have member := tableOf_mem (tablePath_length virt).le reached
      have last := tablePath_length virt
      dsimp only at kept ⊢
      rw [if_neg (grown.space.pointer_ne_zero member), ptIndex_eq]
      dsimp only
      rw [grown.space.leaf_entries last reached _ _ bounded, ← kept]
      exact Function.update_of_ne leaf _ _

/-- A map turns free frames into tables, and writes to those, the old tables and the
bitmap only. -/
theorem pagingMap_ledger (space : Space hhdm root bitmapFrames free m pmm) (virt phys flags : Word)
    {done : Bool} (result : pagingMap m pmm hhdm (frameAddress root) virt phys flags = (done, m', pmm')) :
    ∃ free', Space hhdm root bitmapFrames free' m' pmm' ∧ free' ⊆ free ∧
      tables hhdm root m' = tables hhdm root m ∪ (free \ free') ∧
      Set.EqOn m' m (frameBytes hhdm (bitmapFrames ∪ tables hhdm root m ∪ (free \ free')))ᶜ := by
  have outcome := space.pagingMap_mapped virt phys flags
  rw [result] at outcome
  cases outcome with
  | exhausted grew => exact ⟨∅, grew.space, grew.consumed, grew.tables, grew.frame⟩
  | @installed free' mid _ _ table grew _ _ spaceAfter sameTables _ changed =>
      refine ⟨free', spaceAfter, grew.consumed, sameTables.trans grew.tables, ?_⟩
      apply eqOn_compl_mono (eqOn_compl_trans grew.frame changed)
      rw [← frameBytes_union, grew.tables]
      apply frameBytes_mono
      intro frame member
      simp only [Set.mem_union] at member ⊢
      tauto

/-! ## The walk of the CPU -/

/-- Where the page table exists, the CPU reads the entries on the path. -/
theorem cpuWalk_eq {virt : Word} {table : Nat}
    (reached : tableOf hhdm root m (tablePath virt) = some table) :
    cpuWalk m hhdm (frameAddress root) virt =
      [entries hhdm root m [pml4Of virt], entries hhdm root m [pdptOf virt, pml4Of virt],
        entries hhdm root m (tablePath virt), entries hhdm root m (pathOf virt)] := by
  have level : ∀ {path : List Index} {index : Index} {frame : Nat},
      tableOf hhdm root m (index :: path) = some frame →
        ∃ parent, tableOf hhdm root m path = some parent ∧
          entries hhdm root m (index :: path) &&& pteAddrMask = frameAddress frame := by
    intro path index frame childReached
    cases pathReached : tableOf hhdm root m path with
    | none =>
        have unreached : tableOf hhdm root m (index :: path) = none :=
          reach_append_of_unreached pathReached [index]
        rw [unreached] at childReached
        cases childReached
    | some parent =>
        rw [tableOf_cons, child_eq_some_iff] at childReached
        exact ⟨parent, rfl, childReached.2.1⟩
  obtain ⟨pd, pdReached, ptPointer⟩ := level reached
  obtain ⟨pdpt, pdptReached, pdptEntry⟩ := level pdReached
  obtain ⟨pml4, pml4Reached, pml4Entry⟩ := level pdptReached
  rw [tableOf_nil] at pml4Reached
  cases pml4Reached
  have first : entry m (tableAt hhdm (frameAddress root)) (pml4Index virt) =
      entries hhdm root m [pml4Of virt] := by
    rw [pml4Index, shift_and_mask]
    exact entry_eq tableOf_nil
  have second : entry m (tableAt hhdm (frameAddress pdpt)) (pdptIndex virt) =
      entries hhdm root m [pdptOf virt, pml4Of virt] := by
    rw [pdptIndex, shift_and_mask]
    exact entry_eq pdptReached
  have third : entry m (tableAt hhdm (frameAddress pd)) (pdIndex virt) =
      entries hhdm root m (tablePath virt) := by
    rw [pdIndex, shift_and_mask]
    exact entry_eq pdReached
  have pdEntry : entries hhdm root m (tablePath virt) &&& pteAddrMask = frameAddress table := ptPointer
  have fourth : entry m (tableAt hhdm (frameAddress table)) (ptIndex virt) =
      entries hhdm root m (pathOf virt) := by
    rw [ptIndex_eq]
    exact entry_eq reached
  rw [cpuWalk]
  simp only [first, pml4Entry, second, pdptEntry, third, pdEntry, fourth]

end Space

end ScrapOS.Paging
