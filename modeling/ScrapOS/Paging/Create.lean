import ScrapOS.Paging.Walk

/-! The creating walk. Every table it installs is blank and comes from the free
frames, so the entries by path change only where `next_level` found nothing. -/

set_option autoImplicit false

namespace ScrapOS.Paging

open RadixTree

/-- The tables missing on a path. -/
def missing (found : List Index → Word) : List Index → Nat
  | [] => 0
  | index :: owner =>
      (if found (index :: owner) &&& ptePresent = 0 then 1 else 0) + missing found owner

/-- What a creating walk to `target` may have done so far: every frame it took holds
one of the tables that were missing on the path. -/
structure Grown (hhdm : Word) (root : Nat) (bitmapFrames : Set Nat) (target : List Index)
    (user : Word) (free : Set Nat) (m : Memory) (pmm : Pmm.Globals)
    (free' : Set Nat) (m' : Memory) (pmm' : Pmm.Globals) : Prop where
  space : Space hhdm root bitmapFrames free' m' pmm'
  consumed : free' ⊆ free
  tables : tables hhdm root m' = tables hhdm root m ∪ (free \ free')
  frame : Set.EqOn m' m (frameBytes hhdm (bitmapFrames ∪ Paging.tables hhdm root m ∪ (free \ free')))ᶜ
  entries : ∀ path : List Index, path.length ≤ 4 →
    entries hhdm root m' path = entries hhdm root m path ∨
      path.length ≤ 3 ∧ entries hhdm root m path &&& ptePresent = 0 ∧
        ∃ fresh, Paging.entries hhdm root m' path = tableEntry fresh user
  supplied : missing (Paging.entries hhdm root m) target + free'.ncard =
    missing (Paging.entries hhdm root m') target + free.ncard
  total : pmm'.totalFrames = pmm.totalFrames

variable {hhdm : Word} {root : Nat} {bitmapFrames free free' freeEnd : Set Nat}
  {m m' mEnd : Memory} {pmm pmm' pmmEnd : Pmm.Globals} {owner path target : List Index} {index : Index}
  {frame : Nat} {user : Word}

namespace Grown

theorem refl (space : Space hhdm root bitmapFrames free m pmm) :
    Grown hhdm root bitmapFrames target user free m pmm free m pmm where
  space := space
  consumed := Set.Subset.rfl
  tables := by rw [Set.sdiff_self]; exact (Set.union_empty _).symm
  frame := Set.eqOn_refl _ _
  entries := fun _ _ => .inl rfl
  supplied := rfl
  total := rfl

private theorem consumed_trans {before between after : Set Nat} (first : between ⊆ before)
    (second : after ⊆ between) : (before \ between) ∪ (between \ after) = before \ after := by
  ext frame
  have inFirst : frame ∈ between → frame ∈ before := fun member => first member
  have inSecond : frame ∈ after → frame ∈ between := fun member => second member
  simp only [Set.mem_union, Set.mem_sdiff]
  tauto

theorem trans (user_bits : user = 0 ∨ user = pteUser)
    (first : Grown hhdm root bitmapFrames target user free m pmm free' m' pmm')
    (second : Grown hhdm root bitmapFrames target user free' m' pmm' freeEnd mEnd pmmEnd) :
    Grown hhdm root bitmapFrames target user free m pmm freeEnd mEnd pmmEnd where
  space := second.space
  consumed := second.consumed.trans first.consumed
  tables := by
    rw [second.tables, first.tables, Set.union_assoc, consumed_trans first.consumed second.consumed]
  frame := by
    apply eqOn_compl_mono (eqOn_compl_trans first.frame second.frame)
    rw [← frameBytes_union, first.tables, ← consumed_trans first.consumed second.consumed]
    apply frameBytes_mono
    intro frame member
    simp only [Set.mem_union] at member ⊢
    tauto
  entries := by
    intro path bounded
    cases second.entries path bounded with
    | inl same =>
        rw [same]
        exact first.entries path bounded
    | inr created =>
        obtain ⟨inner, absent, fresh, installed⟩ := created
        cases first.entries path bounded with
        | inl same =>
            rw [same] at absent
            exact .inr ⟨inner, absent, fresh, installed⟩
        | inr earlier =>
            obtain ⟨-, -, other, present⟩ := earlier
            rw [present] at absent
            exact absurd absent (tableEntry_bits other user_bits).1
  supplied := by
    have before := first.supplied
    have after := second.supplied
    omega
  total := second.total.trans first.total

end Grown

theorem missing_of_reached (reached : tableOf hhdm root m path = some frame) :
    missing (entries hhdm root m) path = 0 := by
  induction path generalizing frame with
  | nil => rfl
  | cons index owner ih =>
      have present : entries hhdm root m (index :: owner) &&& ptePresent ≠ 0 := by
        rw [tableOf_cons, child_eq_some_iff] at reached
        exact reached.1
      cases ownerReached : tableOf hhdm root m owner with
      | none =>
          have unreached : tableOf hhdm root m (index :: owner) = none :=
            reach_append_of_unreached ownerReached [index]
          rw [unreached] at reached
          cases reached
      | some _ => rw [missing, if_neg present, ih ownerReached]

theorem missing_congr {found found' : List Index → Word} {path : List Index} {limit : Nat}
    (bounded : path.length ≤ limit)
    (same : ∀ path : List Index, path.length ≤ limit → found' path = found path) :
    missing found' path = missing found path := by
  induction path with
  | nil => rfl
  | cons index owner ih =>
      rw [List.length_cons] at bounded
      rw [missing, missing, ih (by omega), same (index :: owner) (by rw [List.length_cons]; omega)]

private theorem missing_update {found : List Index → Word} {installed : List Index} {value : Word}
    (absent : found installed &&& ptePresent = 0) (present : value &&& ptePresent ≠ 0)
    (path : List Index) :
    (installed <:+ path → installed ≠ [] →
      missing found path = missing (Function.update found installed value) path + 1) ∧
    (¬ installed <:+ path →
      missing found path = missing (Function.update found installed value) path) := by
  induction path with
  | nil =>
      constructor
      · intro suffix nonempty
        exact absurd (List.suffix_nil.mp suffix) nonempty
      · exact fun _ => rfl
  | cons index owner ih =>
      rw [missing, missing]
      by_cases here : index :: owner = installed
      · have longer : ¬ installed <:+ owner := by
          intro suffix
          have lengths := suffix.length_le
          rw [← here, List.length_cons] at lengths
          omega
        rw [here, Function.update_self, if_pos absent, if_neg present, ih.2 longer]
        constructor
        · intro _ _
          omega
        · exact fun none => absurd (List.suffix_refl _) none
      · have same : installed <:+ index :: owner ↔ installed <:+ owner := by
          rw [List.suffix_cons_iff]
          exact or_iff_right fun equal => here equal.symm
        rw [Function.update_of_ne here, same]
        constructor
        · intro suffix nonempty
          rw [ih.1 suffix nonempty, Nat.add_assoc]
        · intro none
          rw [ih.2 none]

theorem missing_pos {found : List Index → Word} {owner path : List Index} {index : Index}
    (suffix : index :: owner <:+ path) (absent : found (index :: owner) &&& ptePresent = 0) :
    0 < missing found path := by
  induction path with
  | nil => exact absurd (List.suffix_nil.mp suffix) (List.cons_ne_nil _ _)
  | cons next above ih =>
      rw [missing]
      cases List.suffix_cons_iff.mp suffix with
      | inl here =>
          rw [← here, if_pos absent]
          omega
      | inr deeper =>
          have positive := ih deeper
          omega

theorem missing_le (found : List Index → Word) (path : List Index) :
    missing found path ≤ path.length := by
  induction path with
  | nil => exact Nat.le_refl 0
  | cons index owner ih =>
      rw [missing, List.length_cons]
      split <;> omega

/-! ## One level -/

namespace Space

/-- The entries after a table was created: the one that refers to it is new. -/
theorem create_entries {fresh : Nat} {mid : Memory}
    (space : Space hhdm root bitmapFrames free m pmm) (inner : owner.length < 3)
    (reached : tableOf hhdm root m owner = some frame)
    (unreached : tableOf hhdm root m (index :: owner) = none) (available : fresh ∈ free)
    (elsewhere : Set.EqOn mid m (frameBytes hhdm bitmapFrames)ᶜ)
    (user_bits : user = 0 ∨ user = pteUser) (bounded : path.length ≤ 4) :
    entries hhdm root (createdMemory hhdm mid frame fresh index user) path =
      Function.update (entries hhdm root m) (index :: owner) (tableEntry fresh user) path := by
  have written := space.create_writes inner reached available elsewhere index user
  have blank := fun position => space.create_blank inner reached available mid index position user
  have installed : cells hhdm (createdMemory hhdm mid frame fresh index user) frame index =
      tableEntry fresh user := cells_setEntry_self index _
  have absent : pteFormat.child (cells hhdm m frame index) = none := by
    rw [tableOf_cons, entries, entryAt_of_reach reached] at unreached
    exact unreached
  have refers : pteFormat.child
      (cells hhdm (createdMemory hhdm mid frame fresh index user) frame index) = some fresh := by
    rw [installed]
    exact child_tableEntry (space.supply.physical fresh available) user_bits
  rw [← installed]
  exact entryAt_extend space.tree inner reached written absent refers blank bounded

theorem create {fresh : Nat} {mid : Memory}
    (space : Space hhdm root bitmapFrames free m pmm) (inner : owner.length < 3)
    (reached : tableOf hhdm root m owner = some frame)
    (unreached : tableOf hhdm root m (index :: owner) = none) (available : fresh ∈ free)
    (tracks : Pmm.Tracks hhdm bitmapFrames (free \ {fresh}) mid pmm')
    (elsewhere : Set.EqOn mid m (frameBytes hhdm bitmapFrames)ᶜ)
    (total : pmm'.totalFrames = pmm.totalFrames) (user_bits : user = 0 ∨ user = pteUser)
    (onPath : index :: owner <:+ target) (short : target.length ≤ 3) :
    Grown hhdm root bitmapFrames target user free m pmm (free \ {fresh})
        (createdMemory hhdm mid frame fresh index user) pmm' ∧
      tableOf hhdm root (createdMemory hhdm mid frame fresh index user) (index :: owner) =
        some fresh := by
  have written := space.create_writes inner reached available elsewhere index user
  have blank := fun position => space.create_blank inner reached available mid index position user
  have changed := space.create_frame inner reached available elsewhere index user
  have bitmapKept := space.create_bitmap inner reached available mid index user
  have updated : ∀ path : List Index, path.length ≤ 4 →
      entries hhdm root (createdMemory hhdm mid frame fresh index user) path =
        Function.update (entries hhdm root m) (index :: owner) (tableEntry fresh user) path :=
    fun _ => space.create_entries inner reached unreached available elsewhere user_bits
  generalize created : createdMemory hhdm mid frame fresh index user = m' at *
  have freshBounded := space.supply.physical fresh available
  have absent : pteFormat.child (cells hhdm m frame index) = none := by
    rw [tableOf_cons, entries, entryAt_of_reach reached] at unreached
    exact unreached
  have refers : pteFormat.child (cells hhdm m' frame index) = some fresh := by
    rw [← created]
    unfold createdMemory
    rw [cells_setEntry_self]
    exact child_tableEntry freshBounded user_bits
  have unused : fresh ∉ tables hhdm root m :=
    fun member => Set.disjoint_left.mp space.notFree member available
  have newTables : tables hhdm root m' = insert fresh (tables hhdm root m) :=
    nodes_extend space.tree inner reached written absent refers blank
  have single : free \ (free \ {fresh}) = {fresh} := by
    rw [Set.sdiff_sdiff_right_self]
    exact Set.inter_eq_right.mpr (Set.singleton_subset_iff.mpr available)
  have grownSpace : Space hhdm root bitmapFrames (free \ {fresh}) m' pmm' := by
    refine ⟨tracks.congr bitmapKept,
      space.tree.extend inner reached written absent refers blank unused, ?_, ?_,
      space.supply.mono Set.sdiff_subset, ?_, ?_⟩
    · rw [newTables]
      rintro other (same | member)
      · rw [same]
        exact freshBounded
      · exact space.bounded other member
    · rw [newTables, Set.insert_eq]
      exact (space.supply.toUsable.mono (Set.singleton_subset_iff.mpr available)).union space.usable
    · rw [newTables, Set.disjoint_insert_left]
      exact ⟨fun member => member.2 rfl, space.notFree.mono_right Set.sdiff_subset⟩
    · rw [newTables, Set.disjoint_insert_left]
      exact ⟨Set.disjoint_left.mp space.tracks.apart available, space.notBitmap⟩
  refine ⟨⟨grownSpace, Set.sdiff_subset, ?_, ?_, ?_, ?_, total⟩, ?_⟩
  · rw [newTables, single, Set.union_singleton]
  · rw [single]
    exact changed
  · intro path bounded
    rw [updated path bounded]
    by_cases here : path = index :: owner
    · subst here
      rw [Function.update_self]
      rw [tableOf_cons, child_eq_none_iff] at unreached
      exact .inr ⟨inner, unreached, fresh, rfl⟩
    · rw [Function.update_of_ne here]
      exact .inl rfl
  · have absentEntry : entries hhdm root m (index :: owner) &&& ptePresent = 0 := by
      rw [tableOf_cons, child_eq_none_iff] at unreached
      exact unreached
    have counted := (missing_update absentEntry (tableEntry_bits fresh user_bits).1 target).1 onPath
      (List.cons_ne_nil _ _)
    have consumed := Set.ncard_sdiff_singleton_add_one available space.tracks.finite
    have same : missing (entries hhdm root m') target =
        missing (Function.update (entries hhdm root m) (index :: owner) (tableEntry fresh user)) target :=
      missing_congr (Nat.le_succ_of_le short) updated
    omega
  · have short : (index :: owner).length ≤ 4 := Nat.succ_le_succ inner.le
    rw [tableOf_cons, updated _ short, Function.update_self]
    exact child_tableEntry freshBounded user_bits

/-- What `next_level` can do when asked to create: follow the entry, install a fresh
table, or fail because no frame is free. -/
inductive Descended (hhdm : Word) (root : Nat) (bitmapFrames free : Set Nat) (m : Memory)
    (pmm : Pmm.Globals) (path target : List Index) (user : Word) :
    Word × Memory × Pmm.Globals → Prop where
  | refused : free = ∅ → tableOf hhdm root m path = none →
      Descended hhdm root bitmapFrames free m pmm path target user (0, m, pmm)
  | arrived {free' : Set Nat} {m' : Memory} {pmm' : Pmm.Globals} {next : Nat} :
      Grown hhdm root bitmapFrames target user free m pmm free' m' pmm' →
      tableOf hhdm root m' path = some next →
      Descended hhdm root bitmapFrames free m pmm path target user
        (tableAt hhdm (frameAddress next), m', pmm')

theorem nextLevel_descended (space : Space hhdm root bitmapFrames free m pmm)
    (inner : owner.length < 3) (reached : tableOf hhdm root m owner = some frame)
    (index : Index) (user_bits : user = 0 ∨ user = pteUser)
    (onPath : index :: owner <:+ target) (short : target.length ≤ 3) :
    Descended hhdm root bitmapFrames free m pmm (index :: owner) target user
      (nextLevel m pmm hhdm (tableAt hhdm (frameAddress frame)) (index.setWidth 64) true user) := by
  rw [nextLevel]
  cases childReached : tableOf hhdm root m (index :: owner) with
  | some child =>
      obtain ⟨present, address⟩ := entry_present reached childReached
      rw [if_pos present, address]
      exact .arrived (.refl space) childReached
  | none =>
      have absent := entry_absent reached childReached
      simp only [absent, ne_eq, not_true_eq_false, if_false, Bool.not_true, Bool.false_eq_true]
      have outcome := space.tracks.allocFrame
      generalize Pmm.pmmAllocFrame m pmm = result at outcome
      cases outcome with
      | refused exhausted => exact .refused exhausted childReached
      | @served fresh mid pmm' available tracks elsewhere total =>
          have bounded := space.tracks.frame_lt available
          have nonzero : fresh ≠ 0 := fun zero => space.tracks.zero (zero ▸ available)
          obtain ⟨grown, installed⟩ := space.create inner reached childReached available tracks
            elsewhere total user_bits onPath short
          dsimp only
          rw [if_neg (frameAddress_ne_zero (by omega) nonzero)]
          exact .arrived grown installed

theorem nextLevel_elsewhere (space : Space hhdm root bitmapFrames free m pmm)
    (inner : owner.length < 3) (reached : tableOf hhdm root m owner = some frame)
    (index : Index) (user_bits : user = 0 ∨ user = pteUser) (bounded : path.length ≤ 4)
    (different : path ≠ index :: owner) :
    entries hhdm root (nextLevel m pmm hhdm (tableAt hhdm (frameAddress frame))
      (index.setWidth 64) true user).2.1 path = entries hhdm root m path := by
  rw [nextLevel]
  cases childReached : tableOf hhdm root m (index :: owner) with
  | some child =>
      obtain ⟨present, -⟩ := entry_present reached childReached
      rw [if_pos present]
  | none =>
      have absent := entry_absent reached childReached
      simp only [absent, ne_eq, not_true_eq_false, if_false, Bool.not_true, Bool.false_eq_true]
      have outcome := space.tracks.allocFrame
      generalize Pmm.pmmAllocFrame m pmm = result at outcome
      cases outcome with
      | refused exhausted => rfl
      | @served fresh mid pmm' available tracks elsewhere total =>
          have lower := space.tracks.frame_lt available
          have nonzero : fresh ≠ 0 := fun zero => space.tracks.zero (zero ▸ available)
          dsimp only
          rw [if_neg (frameAddress_ne_zero (by omega) nonzero)]
          have updated := space.create_entries inner reached childReached available elsewhere
            user_bits bounded
          rw [Function.update_of_ne different] at updated
          exact updated

/-! ## The whole walk -/

/-- What a creating walk can do: end at the table of the path, or run out of frames. -/
inductive Walked (hhdm : Word) (root : Nat) (bitmapFrames free : Set Nat) (m : Memory)
    (pmm : Pmm.Globals) (path : List Index) (user : Word) : Word × Memory × Pmm.Globals → Prop where
  | exhausted {m' : Memory} {pmm' : Pmm.Globals} :
      Grown hhdm root bitmapFrames path user free m pmm ∅ m' pmm' →
      0 < missing (entries hhdm root m') path →
      Walked hhdm root bitmapFrames free m pmm path user (0, m', pmm')
  | arrived {free' : Set Nat} {m' : Memory} {pmm' : Pmm.Globals} {table : Nat} :
      Grown hhdm root bitmapFrames path user free m pmm free' m' pmm' →
      tableOf hhdm root m' path = some table →
      Walked hhdm root bitmapFrames free m pmm path user
        (tableAt hhdm (frameAddress table), m', pmm')

theorem Walked.after {result : Word × Memory × Pmm.Globals} (user_bits : user = 0 ∨ user = pteUser)
    (grown : Grown hhdm root bitmapFrames path user free m pmm free' m' pmm')
    (walked : Walked hhdm root bitmapFrames free' m' pmm' path user result) :
    Walked hhdm root bitmapFrames free m pmm path user result := by
  cases walked with
  | exhausted rest lacking => exact .exhausted (grown.trans user_bits rest) lacking
  | arrived rest reached => exact .arrived (grown.trans user_bits rest) reached

theorem descend_walked (space : Space hhdm root bitmapFrames free m pmm) (rest : List Index)
    (short : owner.length + rest.length ≤ 3) (reached : tableOf hhdm root m owner = some frame)
    (user_bits : user = 0 ∨ user = pteUser) :
    Walked hhdm root bitmapFrames free m pmm (rest.reverse ++ owner) user
      (descend hhdm true user (rest.map (BitVec.setWidth 64)) m pmm
        (tableAt hhdm (frameAddress frame))) := by
  induction rest generalizing owner frame free m pmm with
  | nil => exact .arrived (.refl space) reached
  | cons index rest ih =>
      rw [List.length_cons] at short
      rw [List.map_cons, descend, List.reverse_cons, List.append_assoc, List.singleton_append]
      have onPath : index :: owner <:+ rest.reverse ++ index :: owner := List.suffix_append _ _
      have targetShort : (rest.reverse ++ index :: owner).length ≤ 3 := by
        rw [List.length_append, List.length_reverse, List.length_cons]
        omega
      have outcome := space.nextLevel_descended (by omega) reached index user_bits onPath targetShort
      generalize nextLevel m pmm hhdm (tableAt hhdm (frameAddress frame)) (index.setWidth 64) true
        user = result at outcome
      cases outcome with
      | refused none unreached =>
          subst none
          rw [tableOf_cons, child_eq_none_iff] at unreached
          exact .exhausted (.refl space) (missing_pos onPath unreached)
      | arrived grown nextReached =>
          have childShort : (index :: owner).length ≤ 3 := by rw [List.length_cons]; omega
          have member := tableOf_mem childShort nextReached
          dsimp only
          rw [if_neg (grown.space.pointer_ne_zero member)]
          apply Walked.after user_bits grown
          exact ih grown.space (by rw [List.length_cons]; omega) nextReached

theorem descend_elsewhere (space : Space hhdm root bitmapFrames free m pmm) (rest : List Index)
    (short : owner.length + rest.length ≤ 3) (reached : tableOf hhdm root m owner = some frame)
    (user_bits : user = 0 ∨ user = pteUser) (bounded : path.length ≤ 4)
    (off : ¬ path <:+ rest.reverse ++ owner) :
    entries hhdm root (descend hhdm true user (rest.map (BitVec.setWidth 64)) m pmm
      (tableAt hhdm (frameAddress frame))).2.1 path = entries hhdm root m path := by
  induction rest generalizing owner frame free m pmm with
  | nil => rfl
  | cons index rest ih =>
      rw [List.length_cons] at short
      rw [List.reverse_cons, List.append_assoc, List.singleton_append] at off
      rw [List.map_cons, descend]
      have different : path ≠ index :: owner := fun same => off (same ▸ List.suffix_append _ _)
      have kept := space.nextLevel_elsewhere (by omega) reached index user_bits bounded different
      have outcome := space.nextLevel_descended (by omega) reached index user_bits
        (List.suffix_refl _) (by rw [List.length_cons]; omega)
      generalize nextLevel m pmm hhdm (tableAt hhdm (frameAddress frame)) (index.setWidth 64) true
        user = result at outcome kept
      cases outcome with
      | refused => rfl
      | arrived grown nextReached =>
          have childShort : (index :: owner).length ≤ 3 := by rw [List.length_cons]; omega
          have member := tableOf_mem childShort nextReached
          dsimp only at kept ⊢
          rw [if_neg (grown.space.pointer_ne_zero member), ← kept]
          exact ih grown.space (by rw [List.length_cons]; omega) nextReached off

/-! ## The walk to a page table -/

theorem indices_eq (virt : Word) :
    [pml4Index virt, pdptIndex virt, pdIndex virt] =
      (tablePath virt).reverse.map (BitVec.setWidth 64) := by
  rw [pml4Index, pdptIndex, pdIndex, shift_and_mask, shift_and_mask, shift_and_mask]
  rfl

theorem leafTable_read (space : Space hhdm root bitmapFrames free m pmm) (virt : Word) :
    leafTable m pmm hhdm (frameAddress root) virt false user =
      ((tableOf hhdm root m (tablePath virt)).elim 0
        fun table => tableAt hhdm (frameAddress table), m, pmm) := by
  have short : ([] : List Index).length + (tablePath virt).reverse.length ≤ 3 := Nat.le_refl 3
  have read := space.descend_read (tablePath virt).reverse user short tableOf_nil
  rw [List.reverse_reverse, List.append_nil] at read
  rw [leafTable, indices_eq]
  exact read

theorem leafTable_elsewhere (space : Space hhdm root bitmapFrames free m pmm) (virt : Word)
    (user_bits : user = 0 ∨ user = pteUser) (bounded : path.length ≤ 4)
    (off : ¬ path <:+ tablePath virt) :
    entries hhdm root (leafTable m pmm hhdm (frameAddress root) virt true user).2.1 path =
      entries hhdm root m path := by
  have short : ([] : List Index).length + (tablePath virt).reverse.length ≤ 3 := Nat.le_refl 3
  have outside : ¬ path <:+ (tablePath virt).reverse.reverse ++ [] := by
    rw [List.reverse_reverse, List.append_nil]
    exact off
  rw [leafTable, indices_eq]
  exact space.descend_elsewhere (tablePath virt).reverse short tableOf_nil user_bits bounded outside

theorem leafTable_walked (space : Space hhdm root bitmapFrames free m pmm) (virt : Word)
    (user_bits : user = 0 ∨ user = pteUser) :
    Walked hhdm root bitmapFrames free m pmm (tablePath virt) user
      (leafTable m pmm hhdm (frameAddress root) virt true user) := by
  have short : ([] : List Index).length + (tablePath virt).reverse.length ≤ 3 := Nat.le_refl 3
  have walked := space.descend_walked (tablePath virt).reverse short tableOf_nil user_bits
  rw [List.reverse_reverse, List.append_nil] at walked
  rw [leafTable, indices_eq]
  exact walked

end Space

end ScrapOS.Paging
