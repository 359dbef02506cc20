import ScrapOS.Paging.Tables
import ScrapOS.Pmm.Bitmap

/-! One address space on top of the frame allocator: what the walk reads, what it
creates, and what a leaf write changes. Each is a change of the entries by path. -/

set_option autoImplicit false

namespace ScrapOS.Paging

open RadixTree

/-- The frames that hold the tables of an address space. -/
def tables (hhdm : Word) (root : Nat) (m : Memory) : Set Nat :=
  nodes pteFormat 3 (cells hhdm m) root

/-- The table at the end of a path. -/
def tableOf (hhdm : Word) (root : Nat) (m : Memory) (path : List Index) : Option Nat :=
  reach pteFormat (cells hhdm m) root path

/-- The entries of an address space by their paths. -/
def entries (hhdm : Word) (root : Nat) (m : Memory) (path : List Index) : Word :=
  entryAt pteFormat (cells hhdm m) root path

/-- Frames that can hold tables: they are reachable, and an entry has room for their
address. -/
structure Suitable (hhdm : Word) (frames : Set Nat) : Prop extends Usable hhdm frames where
  physical : ∀ frame ∈ frames, frame < 2 ^ 40

theorem Suitable.mono {hhdm : Word} {frames fewer : Set Nat} (suitable : Suitable hhdm frames)
    (subset : fewer ⊆ frames) : Suitable hhdm fewer where
  toUsable := suitable.toUsable.mono subset
  physical := fun frame member => suitable.physical frame (subset member)

/-- The tables form a tree in frames of their own: none of them is free, and none
holds the bitmap. -/
structure Space (hhdm : Word) (root : Nat) (bitmapFrames free : Set Nat) (m : Memory)
    (pmm : Pmm.Globals) : Prop where
  tracks : Pmm.Tracks hhdm bitmapFrames free m pmm
  tree : IsTree pteFormat 3 (cells hhdm m) root
  bounded : ∀ frame ∈ tables hhdm root m, frame < 2 ^ 40
  usable : Usable hhdm (tables hhdm root m)
  supply : Suitable hhdm free
  notFree : Disjoint (tables hhdm root m) free
  notBitmap : Disjoint (tables hhdm root m) bitmapFrames

variable {hhdm : Word} {root : Nat} {bitmapFrames free : Set Nat} {m m' : Memory}
  {pmm : Pmm.Globals} {owner path : List Index} {index : Index} {frame : Nat} {user : Word}

@[simp] theorem tableOf_nil : tableOf hhdm root m [] = some root := rfl

theorem tableOf_cons :
    tableOf hhdm root m (index :: owner) =
      pteFormat.child (entries hhdm root m (index :: owner)) := reach_cons

namespace Space

theorem tableOf_mem (bounded : path.length ≤ 3) (reached : tableOf hhdm root m path = some frame) :
    frame ∈ tables hhdm root m := mem_nodes_of_reach bounded reached

theorem lt (space : Space hhdm root bitmapFrames free m pmm) (member : frame ∈ tables hhdm root m) :
    frame < 2 ^ 52 :=
  Nat.lt_trans (space.bounded frame member) (by decide)

theorem pointer_ne_zero (space : Space hhdm root bitmapFrames free m pmm)
    (member : frame ∈ tables hhdm root m) : tableAt hhdm (frameAddress frame) ≠ 0 :=
  space.usable.nonnull frame member

/-! ## Writes elsewhere -/

theorem cells_eq (space : Space hhdm root bitmapFrames free m pmm) {frames : Set Nat}
    (elsewhere : Set.EqOn m' m (frameBytes hhdm frames)ᶜ)
    (apart : Disjoint (tables hhdm root m) frames) :
    ∀ other ∈ tables hhdm root m, ∀ position,
      cells hhdm m' other position = cells hhdm m other position := by
  intro other member position
  apply cells_congr (space.lt member)
  apply elsewhere.mono
  apply Disjoint.subset_compl_right
  exact frameBytes_disjoint (apart.mono_left (Set.singleton_subset_iff.mpr member))

theorem entries_congr (space : Space hhdm root bitmapFrames free m pmm) {frames : Set Nat}
    (elsewhere : Set.EqOn m' m (frameBytes hhdm frames)ᶜ)
    (apart : Disjoint (tables hhdm root m) frames) (bounded : path.length ≤ 4) :
    entries hhdm root m' path = entries hhdm root m path :=
  (reach_congr (space.cells_eq elsewhere apart) bounded).2

theorem tables_congr (space : Space hhdm root bitmapFrames free m pmm) {frames : Set Nat}
    (elsewhere : Set.EqOn m' m (frameBytes hhdm frames)ᶜ)
    (apart : Disjoint (tables hhdm root m) frames) :
    tables hhdm root m' = tables hhdm root m :=
  nodes_congr (space.cells_eq elsewhere apart)

/-- A change of the frame allocator and of frames that hold no table. -/
theorem moved (space : Space hhdm root bitmapFrames free m pmm) {frames free' : Set Nat}
    {pmm' : Pmm.Globals} (tracks : Pmm.Tracks hhdm bitmapFrames free' m' pmm')
    (elsewhere : Set.EqOn m' m (frameBytes hhdm frames)ᶜ)
    (apart : Disjoint (tables hhdm root m) frames) (supply : Suitable hhdm free')
    (notFree : Disjoint (tables hhdm root m) free') :
    Space hhdm root bitmapFrames free' m' pmm' where
  tracks := tracks
  tree := space.tree.congr (space.cells_eq elsewhere apart)
  bounded := by rw [space.tables_congr elsewhere apart]; exact space.bounded
  usable := by rw [space.tables_congr elsewhere apart]; exact space.usable
  supply := supply
  notFree := by rw [space.tables_congr elsewhere apart]; exact notFree
  notBitmap := by rw [space.tables_congr elsewhere apart]; exact space.notBitmap

/-- The same where no frame becomes free. -/
theorem congr (space : Space hhdm root bitmapFrames free m pmm) {frames free' : Set Nat}
    {pmm' : Pmm.Globals} (tracks : Pmm.Tracks hhdm bitmapFrames free' m' pmm')
    (elsewhere : Set.EqOn m' m (frameBytes hhdm frames)ᶜ)
    (apart : Disjoint (tables hhdm root m) frames) (consumed : free' ⊆ free) :
    Space hhdm root bitmapFrames free' m' pmm' :=
  space.moved tracks elsewhere apart (space.supply.mono consumed) (space.notFree.mono_right consumed)

/-! ## Leaf writes -/

section Leaf

variable (space : Space hhdm root bitmapFrames free m pmm) (last : owner.length = 3)
  (reached : tableOf hhdm root m owner = some frame)

include space last reached

theorem leaf_writes (index : Index) (value : Word) :
    WritesOnly pteFormat 3 (cells hhdm m)
      (cells hhdm (setEntry m (tableAt hhdm (frameAddress frame)) (index.setWidth 64) value))
      root frame index := by
  intro other member position different
  exact cells_setEntry_of_ne (space.lt (tableOf_mem last.le reached)) (space.lt member) value different

theorem leaf_frame (index : Index) (value : Word) :
    Set.EqOn (setEntry m (tableAt hhdm (frameAddress frame)) (index.setWidth 64) value) m
      (frameBytes hhdm (tables hhdm root m))ᶜ := by
  have member := tableOf_mem last.le reached
  exact eqOn_compl_mono (setEntry_frame (space.lt member) index value)
    (frameBytes_mono (Set.singleton_subset_iff.mpr member))

theorem leaf_tables (index : Index) (value : Word) :
    tables hhdm root (setEntry m (tableAt hhdm (frameAddress frame)) (index.setWidth 64) value) =
      tables hhdm root m :=
  nodes_writeLast space.tree last reached (space.leaf_writes last reached index value)

theorem leaf_entries (index : Index) (value : Word) (bounded : path.length ≤ 4) :
    entries hhdm root (setEntry m (tableAt hhdm (frameAddress frame)) (index.setWidth 64) value) path =
      Function.update (entries hhdm root m) (index :: owner) value path := by
  have written := space.leaf_writes last reached index value
  have updated := entryAt_writeLast space.tree last reached written bounded
  rw [cells_setEntry_self] at updated
  exact updated

theorem leaf (index : Index) (value : Word) :
    Space hhdm root bitmapFrames free
      (setEntry m (tableAt hhdm (frameAddress frame)) (index.setWidth 64) value) pmm where
  tracks := by
    apply space.tracks.congr
    apply (space.leaf_frame last reached index value).mono
    exact (frameBytes_disjoint space.notBitmap).subset_compl_left
  tree := space.tree.writeLast last reached (space.leaf_writes last reached index value)
  bounded := by rw [space.leaf_tables last reached]; exact space.bounded
  usable := by rw [space.leaf_tables last reached]; exact space.usable
  supply := space.supply
  notFree := by rw [space.leaf_tables last reached]; exact space.notFree
  notBitmap := by rw [space.leaf_tables last reached]; exact space.notBitmap

end Leaf

/-! ## Reading a level -/

theorem entry_eq (reached : tableOf hhdm root m owner = some frame) :
    entry m (tableAt hhdm (frameAddress frame)) (index.setWidth 64) =
      entries hhdm root m (index :: owner) :=
  (entryAt_of_reach reached).symm

theorem entry_present (reached : tableOf hhdm root m owner = some frame) {child : Nat}
    (childReached : tableOf hhdm root m (index :: owner) = some child) :
    entry m (tableAt hhdm (frameAddress frame)) (index.setWidth 64) &&& ptePresent ≠ 0 ∧
      entry m (tableAt hhdm (frameAddress frame)) (index.setWidth 64) &&& pteAddrMask =
        frameAddress child := by
  rw [tableOf_cons, child_eq_some_iff] at childReached
  rw [entry_eq reached]
  exact ⟨childReached.1, childReached.2.1⟩

theorem entry_absent (reached : tableOf hhdm root m owner = some frame)
    (unreached : tableOf hhdm root m (index :: owner) = none) :
    entry m (tableAt hhdm (frameAddress frame)) (index.setWidth 64) &&& ptePresent = 0 := by
  rw [tableOf_cons, child_eq_none_iff] at unreached
  rw [entry_eq reached]
  exact unreached

theorem descend_read (space : Space hhdm root bitmapFrames free m pmm) (rest : List Index)
    (user : Word) (short : owner.length + rest.length ≤ 3) (reached : tableOf hhdm root m owner = some frame) :
    descend hhdm false user (rest.map (BitVec.setWidth 64)) m pmm
        (tableAt hhdm (frameAddress frame)) =
      ((tableOf hhdm root m (rest.reverse ++ owner)).elim 0
        fun table => tableAt hhdm (frameAddress table), m, pmm) := by
  induction rest generalizing owner frame with
  | nil =>
      rw [List.reverse_nil, List.nil_append, reached]
      rfl
  | cons index rest ih =>
      rw [List.length_cons] at short
      rw [List.map_cons, descend, List.reverse_cons, List.append_assoc, List.singleton_append]
      cases childReached : tableOf hhdm root m (index :: owner) with
      | none =>
          have below : tableOf hhdm root m (rest.reverse ++ index :: owner) = none :=
            reach_append_of_unreached childReached rest.reverse
          rw [nextLevel, if_neg (not_not_intro (entry_absent reached childReached)), below]
          rfl
      | some child =>
          obtain ⟨present, address⟩ := entry_present reached childReached
          have childShort : (index :: owner).length ≤ 3 := by rw [List.length_cons]; omega
          have member := tableOf_mem childShort childReached
          rw [nextLevel, if_pos present, address]
          dsimp only
          rw [if_neg (space.pointer_ne_zero member)]
          exact ih (by rw [List.length_cons]; omega) childReached

/-! ## Creating a table -/

section Create

variable {fresh : Nat} {mid : Memory} {pmm' : Pmm.Globals}
  (space : Space hhdm root bitmapFrames free m pmm) (inner : owner.length < 3)
  (reached : tableOf hhdm root m owner = some frame) (available : fresh ∈ free)
  (elsewhere : Set.EqOn mid m (frameBytes hhdm bitmapFrames)ᶜ)

/-- The memory after `next_level` zeroed the fresh table and installed its entry. -/
def createdMemory (hhdm : Word) (mid : Memory) (frame fresh : Nat) (index : Index) (user : Word) :
    Memory :=
  setEntry (memset mid (tableAt hhdm (frameAddress fresh)) 0 4096)
    (tableAt hhdm (frameAddress frame)) (index.setWidth 64) (tableEntry fresh user)

include space inner reached available

theorem fresh_ne : fresh ≠ frame := by
  rintro rfl
  exact Set.disjoint_left.mp space.notFree (tableOf_mem inner.le reached) available

theorem create_blank (mid : Memory) (index position : Index) (user : Word) :
    cells hhdm (createdMemory hhdm mid frame fresh index user) fresh position = 0 := by
  have bounded := space.tracks.frame_lt available
  have different := space.fresh_ne inner reached available
  rw [createdMemory, cells_setEntry_of_ne (space.lt (tableOf_mem inner.le reached)) (by omega) _
    fun same => absurd same different]
  exact cells_memset (by omega) position

theorem create_bitmap (mid : Memory) (index : Index) (user : Word) :
    Set.EqOn (createdMemory hhdm mid frame fresh index user) mid (frameBytes hhdm bitmapFrames) := by
  have bounded := space.tracks.frame_lt available
  have member := tableOf_mem inner.le reached
  have freshApart : Disjoint bitmapFrames {fresh} :=
    (space.tracks.apart.mono_left (Set.singleton_subset_iff.mpr available)).symm
  have frameApart : Disjoint bitmapFrames {frame} :=
    (space.notBitmap.mono_left (Set.singleton_subset_iff.mpr member)).symm
  apply Set.EqOn.trans ((setEntry_frame (space.lt member) index _).mono
    (frameBytes_disjoint frameApart).subset_compl_right)
  exact (memset_table_frame (by omega)).mono (frameBytes_disjoint freshApart).subset_compl_right

include elsewhere

theorem create_writes (index : Index) (user : Word) : WritesOnly pteFormat 3 (cells hhdm m)
    (cells hhdm (createdMemory hhdm mid frame fresh index user)) root frame index := by
  intro other member position different
  have bounded := space.tracks.frame_lt available
  have notFresh : Disjoint ({other} : Set Nat) {fresh} := by
    rw [Set.disjoint_singleton]
    rintro rfl
    exact Set.disjoint_left.mp space.notFree member available
  rw [createdMemory, cells_setEntry_of_ne (space.lt (tableOf_mem inner.le reached))
    (space.lt member) _ different]
  rw [cells_congr (space.lt member) ((memset_table_frame (by omega)).mono
    (frameBytes_disjoint notFresh).subset_compl_right)]
  exact space.cells_eq elsewhere space.notBitmap other member position

theorem create_frame (index : Index) (user : Word) :
    Set.EqOn (createdMemory hhdm mid frame fresh index user) m
      (frameBytes hhdm (bitmapFrames ∪ tables hhdm root m ∪ {fresh}))ᶜ := by
  have bounded := space.tracks.frame_lt available
  have member := tableOf_mem inner.le reached
  have cleared : Set.EqOn (memset mid (tableAt hhdm (frameAddress fresh)) 0 4096) m
      (frameBytes hhdm bitmapFrames ∪ frameBytes hhdm {fresh})ᶜ :=
    eqOn_compl_trans elsewhere (memset_table_frame (by omega))
  have installed : Set.EqOn (createdMemory hhdm mid frame fresh index user) m
      (frameBytes hhdm bitmapFrames ∪ frameBytes hhdm {fresh} ∪ frameBytes hhdm {frame})ᶜ :=
    eqOn_compl_trans cleared (setEntry_frame (space.lt member) index (tableEntry fresh user))
  apply eqOn_compl_mono installed
  rw [frameBytes_union, frameBytes_union]
  apply Set.union_subset
  · exact Set.union_subset_union_left _ Set.subset_union_left
  · apply Set.subset_union_of_subset_left
    apply Set.subset_union_of_subset_right
    exact frameBytes_mono (Set.singleton_subset_iff.mpr member)

end Create

end Space

end ScrapOS.Paging
