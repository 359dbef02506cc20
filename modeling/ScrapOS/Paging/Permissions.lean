import ScrapOS.Simulation.Basic
import ScrapOS.Paging.Translation

/-! What the CPU grants. An access needs its bit in all four entries of the walk, and
`next_level` gives the USER bit only to the tables it creates. So a user mapping is
reachable from ring 3 only if the tables it finds on its way carry the bit already. -/

set_option autoImplicit false

namespace ScrapOS.Paging

/-- The CPU grants user and write access to a mapped page exactly as its flags ask. -/
def FlagsEnforced (c : Config) : Prop :=
  ∀ virt x, c.mapped (pageOf virt) = some x →
    (cpuGrants c.mem c.hhdmOffset c.pml4Phys virt pteUser = true ↔ x.flags &&& vmUser ≠ 0) ∧
    (cpuGrants c.mem c.hhdmOffset c.pml4Phys virt pteWrite = true ↔ x.flags &&& vmWrite ≠ 0)

/-- The present entries that a walk meets, up to the first absent one. -/
def presentEntries (m : Memory) (hhdmOffset : Word) : List Word → Word → List Word
  | [], _ => []
  | index :: rest, table =>
      let found := entry m table index
      if found &&& ptePresent = 0 then []
      else found :: presentEntries m hhdmOffset rest (tableAt hhdmOffset (found &&& pteAddrMask))

/-- The present table entries above the leaf of `virt`. -/
def Config.tableEntries (c : Config) (virt : Word) : List Word :=
  presentEntries c.mem c.hhdmOffset [pml4Index virt, pdptIndex virt, pdIndex virt]
    (tableAt c.hhdmOffset c.pml4Phys)

/-- A user mapping that the frame allocator can supply with its missing tables finds
the USER bit in every table entry that is already there. -/
def UserTablesReady : Admits := fun c virt _ flags =>
  flags &&& vmUser ≠ 0 → 3 - (c.tableEntries virt).length ≤ c.pmm.freeFrames.toNat →
    ∀ found ∈ c.tableEntries virt, found &&& pteUser ≠ 0

section Walk

variable {hhdm : Word} {root : Nat} {m : Memory} {owner path : List Index} {frame : Nat}

theorem present_of_suffix (reached : tableOf hhdm root m path = some frame) {above : List Index}
    {index : Index} (suffix : index :: above <:+ path) :
    entries hhdm root m (index :: above) &&& ptePresent ≠ 0 := by
  obtain ⟨below, rfl⟩ := suffix
  intro absent
  have unreached : tableOf hhdm root m (index :: above) = none := by
    rw [tableOf_cons]
    exact child_eq_none_iff.mpr absent
  have belowUnreached : tableOf hhdm root m (below ++ index :: above) = none :=
    RadixTree.reach_append_of_unreached unreached below
  rw [belowUnreached] at reached
  cases reached

theorem missing_below (unreached : tableOf hhdm root m path = none) (below : List Index) :
    missing (entries hhdm root m) (below ++ path) = below.length + missing (entries hhdm root m) path := by
  induction below with
  | nil => rw [List.nil_append, List.length_nil, Nat.zero_add]
  | cons index below ih =>
      have above : tableOf hhdm root m (below ++ path) = none :=
        RadixTree.reach_append_of_unreached unreached below
      have blank : entries hhdm root m (index :: (below ++ path)) = 0 :=
        RadixTree.entryAt_of_unreached above
      have absent : (0 : Word) &&& ptePresent = 0 := rfl
      rw [List.cons_append, missing, blank, if_pos absent, ih, List.length_cons]
      omega

theorem presentEntries_mem (rest : List Index) (reached : tableOf hhdm root m owner = some frame)
    {found : Word} (met : found ∈ presentEntries m hhdm (rest.map (BitVec.setWidth 64))
      (tableAt hhdm (frameAddress frame))) :
    ∃ index above, index :: above <:+ rest.reverse ++ owner ∧
      found = entries hhdm root m (index :: above) ∧ found &&& ptePresent ≠ 0 := by
  induction rest generalizing owner frame with
  | nil => cases met
  | cons index rest ih =>
      rw [List.map_cons, presentEntries, Space.entry_eq reached] at met
      rw [List.reverse_cons, List.append_assoc, List.singleton_append]
      split at met
      · cases met
      · next present =>
        cases List.mem_cons.mp met with
        | inl here =>
            subst here
            exact ⟨index, owner, List.suffix_append _ _, rfl, present⟩
        | inr deeper =>
            cases childReached : tableOf hhdm root m (index :: owner) with
            | none =>
                rw [tableOf_cons, child_eq_none_iff] at childReached
                exact absurd childReached present
            | some child =>
                have address := (Space.entry_present reached childReached).2
                rw [Space.entry_eq reached] at address
                rw [address] at deeper
                exact ih childReached deeper

/-- The walk meets the entry of every table that is there, and misses the others. -/
theorem presentEntries_spec (rest : List Index) (reached : tableOf hhdm root m owner = some frame) :
    (∀ path : List Index, path <:+ rest.reverse ++ owner → owner.length < path.length →
      (∃ table, tableOf hhdm root m path = some table) →
      entries hhdm root m path ∈ presentEntries m hhdm (rest.map (BitVec.setWidth 64))
        (tableAt hhdm (frameAddress frame))) ∧
    (presentEntries m hhdm (rest.map (BitVec.setWidth 64))
        (tableAt hhdm (frameAddress frame))).length +
      missing (entries hhdm root m) (rest.reverse ++ owner) = rest.length := by
  induction rest generalizing owner frame with
  | nil =>
      rw [List.reverse_nil, List.nil_append]
      refine ⟨fun path suffix longer _ => absurd suffix.length_le (by omega), ?_⟩
      rw [missing_of_reached reached]
      rfl
  | cons index rest ih =>
      rw [List.map_cons, presentEntries, List.reverse_cons, List.append_assoc,
        List.singleton_append]
      -- every path below the owner passes through the entry at `index`
      have through : ∀ path : List Index, path <:+ rest.reverse ++ index :: owner →
          owner.length < path.length → index :: owner <:+ path :=
        fun path suffix longer =>
          List.suffix_of_suffix_length_le (List.suffix_append _ _) suffix longer
      cases childReached : tableOf hhdm root m (index :: owner) with
      | none =>
          have absent := Space.entry_absent reached childReached
          rw [if_pos absent]
          have here : missing (entries hhdm root m) (index :: owner) = 1 := by
            rw [Space.entry_eq reached] at absent
            rw [missing, if_pos absent, missing_of_reached reached]
          constructor
          · rintro path suffix longer ⟨table, pathReached⟩
            obtain ⟨below, rfl⟩ := through path suffix longer
            have unreached : tableOf hhdm root m (below ++ index :: owner) = none :=
              RadixTree.reach_append_of_unreached childReached below
            rw [unreached] at pathReached
            cases pathReached
          · rw [missing_below childReached, here, List.length_reverse, List.length_nil,
              List.length_cons]
            omega
      | some child =>
          obtain ⟨present, address⟩ := Space.entry_present reached childReached
          obtain ⟨meets, counts⟩ := ih childReached
          rw [if_neg present, address]
          constructor
          · intro path suffix longer found
            cases Nat.lt_or_ge (index :: owner).length path.length with
            | inl below => exact List.mem_cons_of_mem _ (meets path suffix below found)
            | inr short =>
                have here := through path suffix longer
                rw [← here.eq_of_length_le short, Space.entry_eq reached]
                exact List.mem_cons_self
          · rw [List.length_cons, List.length_cons]
            omega

end Walk

/-! ## The invariant of the table entries -/

/-- Every table entry allows writes, and those above a user page allow users. -/
structure Permits (root : Nat) (c : Config) : Prop where
  writable : ∀ path : List Index, path.length ≤ 3 →
    entries c.hhdmOffset root c.mem path &&& ptePresent ≠ 0 →
    entries c.hhdmOffset root c.mem path &&& pteWrite ≠ 0
  user : ∀ virt x, c.mapped (pageOf virt) = some x → x.flags &&& vmUser ≠ 0 →
    ∀ index above, index :: above <:+ tablePath virt →
      entries c.hhdmOffset root c.mem (index :: above) &&& pteUser ≠ 0

section Steps

variable {bitmapFrames free : Set Nat} {root : Nat} {c c' : Config}

theorem Valid.mapped_table (valid : Valid bitmapFrames free root c) {virt : Word} {x : Mapping}
    (found : c.mapped (pageOf virt) = some x) :
    ∃ table, tableOf c.hhdmOffset root c.mem (tablePath virt) = some table := by
  cases reached : tableOf c.hhdmOffset root c.mem (tablePath virt) with
  | some table => exact ⟨table, rfl⟩
  | none =>
      have present := (valid.leaf_present_iff virt).mpr (by rw [found]; exact Option.some_ne_none x)
      rw [leaf_absent reached] at present
      exact absurd rfl present

theorem Valid.tableEntries_eq (valid : Valid bitmapFrames free root c) (virt : Word) :
    c.tableEntries virt = presentEntries c.mem c.hhdmOffset
      ((tablePath virt).reverse.map (BitVec.setWidth 64))
      (tableAt c.hhdmOffset (frameAddress root)) := by
  rw [Config.tableEntries, Space.indices_eq, valid.pml4]

namespace Permits

theorem blank (blank : ∀ path, entries c.hhdmOffset root c.mem path = 0)
    (unmapped : ∀ page, c.mapped page = none) : Permits root c := by
  constructor
  · intro path _ present
    rw [blank] at present
    exact absurd rfl present
  · intro virt x found
    rw [unmapped] at found
    cases found

theorem installs_writable (permits : Permits root c) {user : Word}
    (user_bits : user = 0 ∨ user = pteUser) (installs : Installs root user c c') :
    ∀ path : List Index, path.length ≤ 3 →
      entries c'.hhdmOffset root c'.mem path &&& ptePresent ≠ 0 →
      entries c'.hhdmOffset root c'.mem path &&& pteWrite ≠ 0 := by
  intro path bounded present
  cases installs path bounded with
  | inl same =>
      rw [same] at present ⊢
      exact permits.writable path bounded present
  | inr created =>
      obtain ⟨-, fresh, installed⟩ := created
      rw [installed]
      exact (tableEntry_bits fresh user_bits).2.1

theorem installs_kept {user : Word} (installs : Installs root user c c') {path : List Index}
    (bounded : path.length ≤ 3)
    (present : entries c.hhdmOffset root c.mem path &&& ptePresent ≠ 0) :
    entries c'.hhdmOffset root c'.mem path = entries c.hhdmOffset root c.mem path := by
  cases installs path bounded with
  | inl same => exact same
  | inr created => exact absurd created.1 present

theorem installs_user (permits : Permits root c) (valid : Valid bitmapFrames free root c)
    {user : Word} (installs : Installs root user c c') {virt : Word} {x : Mapping}
    (found : c.mapped (pageOf virt) = some x) (isUser : x.flags &&& vmUser ≠ 0) {index : Index}
    {above : List Index} (suffix : index :: above <:+ tablePath virt) :
    entries c'.hhdmOffset root c'.mem (index :: above) &&& pteUser ≠ 0 := by
  obtain ⟨table, reached⟩ := valid.mapped_table found
  rw [installs_kept installs suffix.length_le (present_of_suffix reached suffix)]
  exact permits.user virt x found isUser index above suffix

theorem of_installs (permits : Permits root c) (valid : Valid bitmapFrames free root c)
    (installs : Installs root 0 c c')
    (fewer : ∀ page x, c'.mapped page = some x → c.mapped page = some x) : Permits root c' where
  writable := permits.installs_writable (.inl rfl) installs
  user := fun _ x found isUser _ _ suffix =>
    permits.installs_user valid installs (fewer _ x found) isUser suffix

/-- Where the condition holds, the tables on the path of a new user page let users through. -/
theorem map_user (valid : Valid bitmapFrames free root c) {virt phys flags : Word}
    (ready : UserTablesReady c virt phys flags) (isUser : flags &&& vmUser ≠ 0)
    (installs : Installs root (leafUser flags) c (c.map virt phys flags))
    (supplied : missing (entries c.hhdmOffset root c.mem) (tablePath virt) ≤ free.ncard)
    {table : Nat}
    (reached : tableOf c.hhdmOffset root (c.map virt phys flags).mem (tablePath virt) = some table)
    {index : Index} {above : List Index} (suffix : index :: above <:+ tablePath virt) :
    entries (c.map virt phys flags).hhdmOffset root (c.map virt phys flags).mem (index :: above) &&&
      pteUser ≠ 0 := by
  have user : leafUser flags = pteUser := if_pos isUser
  cases installs (index :: above) suffix.length_le with
  | inr created =>
      obtain ⟨-, fresh, installed⟩ := created
      rw [installed]
      exact (tableEntry_bits fresh (leafUser_cases flags)).2.2.1.mpr user
  | inl same =>
      rw [same]
      have present := present_of_suffix reached suffix
      have before : entries c.hhdmOffset root c.mem (index :: above) &&& ptePresent ≠ 0 := by
        rw [← same]
        exact present
      have start : tableOf c.hhdmOffset root c.mem [] = some root := tableOf_nil
      obtain ⟨meets, counts⟩ := presentEntries_spec (tablePath virt).reverse start
      rw [List.reverse_reverse, List.append_nil] at meets counts
      rw [← valid.tableEntries_eq] at meets counts
      apply ready isUser
      · rw [valid.space.tracks.counted]
        rw [List.length_reverse, tablePath_length] at counts
        omega
      · apply meets _ suffix (Nat.zero_lt_succ _)
        rw [tableOf_cons]
        cases child : pteFormat.child (entries c.hhdmOffset root c.mem (index :: above)) with
        | none => exact absurd (child_eq_none_iff.mp child) before
        | some next => exact ⟨next, rfl⟩

theorem map (permits : Permits root c) (valid : Valid bitmapFrames free root c)
    {virt phys flags : Word} (ready : UserTablesReady c virt phys flags) :
    Permits root (c.map virt phys flags) := by
  obtain ⟨free', valid', installs, outcome⟩ := valid.map virt phys flags
  refine ⟨permits.installs_writable (leafUser_cases flags) installs, ?_⟩
  intro other x found isUser index above suffix
  rcases outcome with ⟨unchanged, _⟩ | ⟨updated, supplied, table, reached⟩
  · rw [unchanged] at found
    exact permits.installs_user valid installs found isUser suffix
  · rw [updated] at found
    by_cases samePage : pageOf other = pageOf virt
    · rw [samePage, Function.update_self] at found
      cases found
      have samePath : tablePath other = tablePath virt :=
        (List.cons.inj (pathOf_eq_iff.mpr samePage)).2
      rw [samePath] at suffix
      exact map_user valid ready isUser installs supplied reached suffix
    · rw [Function.update_of_ne samePage] at found
      exact permits.installs_user valid installs found isUser suffix

theorem step (permits : Permits root c) (valid : Valid bitmapFrames free root c)
    (stepped : Step UserTablesReady c c') : Permits root c' := by
  cases stepped with
  | map admitted => exact permits.map valid admitted
  | unmap virt =>
      apply permits.of_installs valid (valid.unmap virt).2
      intro page x found
      rw [valid.unmap_mapped] at found
      by_cases same : page = pageOf virt
      · rw [same, Function.update_self] at found
        cases found
      · rwa [Function.update_of_ne same] at found
  | translate virt =>
      rw [valid.translate virt]
      exact permits
  | alloc =>
      obtain ⟨free', -, installs⟩ := valid.alloc
      exact permits.of_installs valid installs fun _ _ found => found
  | write inside => exact permits.of_installs valid (valid.write inside).2 fun _ _ found => found

theorem run {start : Config} (permits : Permits root start)
    (valid : Valid bitmapFrames free root start) (ran : Run UserTablesReady start c) :
    ∃ free', Valid bitmapFrames free' root c ∧ Permits root c := by
  have kept : ∀ free c c', Valid bitmapFrames free root c ∧ Permits root c →
      Step UserTablesReady c c' → ∃ free', Valid bitmapFrames free' root c' ∧ Permits root c' := by
    intro free c c' before stepped
    obtain ⟨free', after⟩ := before.1.step stepped
    exact ⟨free', after, before.2.step before.1 stepped⟩
  exact Simulation.run_holds kept ⟨valid, permits⟩ ran

end Permits

/-! ## From the entries to the CPU -/

theorem suffix_tablePath {virt : Word} {index : Index} {above : List Index}
    (suffix : index :: above <:+ tablePath virt) :
    index :: above = tablePath virt ∨ index :: above = [pdptOf virt, pml4Of virt] ∨
      index :: above = [pml4Of virt] := by
  rw [tablePath, List.suffix_cons_iff, List.suffix_cons_iff, List.suffix_cons_iff,
    List.suffix_nil] at suffix
  rcases suffix with bottom | middle | top | none
  · exact .inl bottom
  · exact .inr (.inl middle)
  · exact .inr (.inr top)
  · cases none

/-- The CPU grants a bit that the leaf and every table entry above it have. -/
theorem cpuGrants_iff {hhdm : Word} {m : Memory} {virt bit : Word} {table : Nat}
    (reached : tableOf hhdm root m (tablePath virt) = some table) :
    cpuGrants m hhdm (frameAddress root) virt bit = true ↔
      (∀ index above, index :: above <:+ tablePath virt →
        entries hhdm root m (index :: above) &&& bit ≠ 0) ∧
      entries hhdm root m (pathOf virt) &&& bit ≠ 0 := by
  rw [cpuGrants, Space.cpuWalk_eq reached]
  simp only [List.all_cons, List.all_nil, Bool.and_true, Bool.and_eq_true, bne_iff_ne]
  constructor
  · rintro ⟨top, middle, bottom, leaf⟩
    refine ⟨fun index above suffix => ?_, leaf⟩
    rcases suffix_tablePath suffix with here | here | here
    · rw [here]; exact bottom
    · rw [here]; exact middle
    · rw [here]; exact top
  · rintro ⟨above, leaf⟩
    exact ⟨above _ _ ⟨[pdOf virt, pdptOf virt], rfl⟩, above _ _ ⟨[pdOf virt], rfl⟩,
      above _ _ (List.suffix_refl _), leaf⟩

/-- The permissions of the entries are those that the CPU enforces. -/
theorem Permits.enforced (permits : Permits root c) (valid : Valid bitmapFrames free root c) :
    FlagsEnforced c := by
  intro virt x found
  obtain ⟨table, reached⟩ := valid.mapped_table found
  have leaf := valid.leaves virt
  rw [found] at leaf
  have leafFound : entries c.hhdmOffset root c.mem (pathOf virt) = leafEntry x.phys x.flags := leaf
  obtain ⟨-, write, user, -⟩ := leafEntry_bits x.phys x.flags
  rw [valid.pml4, cpuGrants_iff reached, cpuGrants_iff reached, leafFound, write, user]
  constructor
  · constructor
    · exact fun granted => granted.2
    · exact fun isUser => ⟨permits.user virt x found isUser, isUser⟩
  · constructor
    · exact fun granted => granted.2
    · intro isWrite
      refine ⟨fun index above suffix => ?_, isWrite⟩
      exact permits.writable _ suffix.length_le (present_of_suffix reached suffix)

/-- A user mapping that finds a table entry without the USER bit is not enforced. -/
theorem Valid.map_unready (valid : Valid bitmapFrames free root c) {virt phys flags : Word}
    (unready : ¬ UserTablesReady c virt phys flags) : ¬ FlagsEnforced (c.map virt phys flags) := by
  intro enforced
  apply unready
  intro isUser supplied found met noUser
  have start : tableOf c.hhdmOffset root c.mem [] = some root := tableOf_nil
  have counts := (presentEntries_spec (tablePath virt).reverse start).2
  obtain ⟨index, above, suffix, here, present⟩ := presentEntries_mem (tablePath virt).reverse start
    (by rw [← valid.tableEntries_eq]; exact met)
  rw [List.reverse_reverse, List.append_nil] at counts suffix
  rw [← valid.tableEntries_eq, List.length_reverse, tablePath_length] at counts
  rw [valid.space.tracks.counted] at supplied
  obtain ⟨free', valid', installs, outcome⟩ := valid.map virt phys flags
  rcases outcome with ⟨_, lacking⟩ | ⟨updated, _⟩
  · omega
  · have mapped : (c.map virt phys flags).mapped (pageOf virt) = some ⟨phys, flags⟩ := by
      rw [updated, Function.update_self]
    obtain ⟨table, reached⟩ := valid'.mapped_table mapped
    have granted := (enforced virt _ mapped).1.mpr isUser
    rw [here] at present noUser
    rw [valid'.pml4, cpuGrants_iff reached] at granted
    have kept := Permits.installs_kept installs suffix.length_le present
    have userBit := granted.1 index above suffix
    rw [kept] at userBit
    exact userBit noUser

end Steps

/-- While every user mapping finds user tables, the flags are enforced, and the first
one that does not is not enforced. -/
theorem paging_flags_enforced {bitmapFrames free : Set Nat} {m : Memory} {pmm : Pmm.Globals}
    {start c : Config} (initial : Initial bitmapFrames free m pmm start)
    (ran : Run UserTablesReady start c) :
    FlagsEnforced c ∧ ∀ virt phys flags,
      FlagsEnforced (c.map virt phys flags) ↔ UserTablesReady c virt phys flags := by
  obtain ⟨root, first, valid, blank⟩ := initial.valid
  obtain ⟨free', valid', permits'⟩ := (Permits.blank blank initial.unmapped).run valid ran
  refine ⟨permits'.enforced valid', fun virt phys flags => ⟨?_, fun ready => ?_⟩⟩
  · intro enforced
    by_contra unready
    exact valid'.map_unready unready enforced
  · obtain ⟨_, validMap, -⟩ := valid'.map virt phys flags
    exact (permits'.map valid' ready).enforced validMap

/-! ## Two pages that share their tables -/

section Blank

variable {bitmapFrames free : Set Nat} {root : Nat} {c : Config}

/-- The first map of an address space finds no tables at all. -/
theorem Valid.blank_ready (valid : Valid bitmapFrames free root c)
    (blank : ∀ path, entries c.hhdmOffset root c.mem path = 0) (virt phys flags : Word) :
    UserTablesReady c virt phys flags := by
  intro _ _ found met
  have start : tableOf c.hhdmOffset root c.mem [] = some root := tableOf_nil
  obtain ⟨index, above, -, here, present⟩ := presentEntries_mem (tablePath virt).reverse start
    (by rw [← valid.tableEntries_eq]; exact met)
  rw [here, blank] at present
  exact absurd rfl present

/-- The tables of a first supervisor page are not ready for a user page that shares them. -/
theorem Valid.supervisor_unready (valid : Valid bitmapFrames free root c)
    (blank : ∀ path, entries c.hhdmOffset root c.mem path = 0)
    (enough : 3 ≤ c.pmm.freeFrames.toNat) {virt other phys otherPhys flags otherFlags : Word}
    (supervisor : leafUser flags = 0) (isUser : otherFlags &&& vmUser ≠ 0)
    (shared : tablePath other = tablePath virt) :
    ¬ UserTablesReady (c.map virt phys flags) other otherPhys otherFlags := by
  intro ready
  obtain ⟨free', valid', installs, -⟩ := valid.map virt phys flags
  have mapped : (c.map virt phys flags).mapped (pageOf virt) = some ⟨phys, flags⟩ := by
    rw [valid.map_succeeds enough, Function.update_self]
  obtain ⟨table, reached⟩ := valid'.mapped_table mapped
  have start : tableOf (c.map virt phys flags).hhdmOffset root (c.map virt phys flags).mem [] =
      some root := tableOf_nil
  obtain ⟨meets, counts⟩ := presentEntries_spec (tablePath other).reverse start
  rw [List.reverse_reverse, List.append_nil, ← valid'.tableEntries_eq] at meets counts
  rw [shared, missing_of_reached reached, List.length_reverse, tablePath_length] at counts
  have met := meets (tablePath other) (List.suffix_refl _) (Nat.zero_lt_succ _)
    ⟨table, by rw [shared]; exact reached⟩
  have userBit := ready isUser (by omega) _ met
  have bottom : [pdOf virt, pdptOf virt, pml4Of virt] <:+ tablePath virt := List.suffix_refl _
  have present := present_of_suffix reached bottom
  rw [shared] at userBit
  cases installs (tablePath virt) (tablePath_length virt).le with
  | inl same =>
      rw [tablePath] at same
      rw [same, blank] at present
      exact absurd rfl present
  | inr created =>
      obtain ⟨-, fresh, installed⟩ := created
      rw [installed, supervisor] at userBit
      have bits := (tableEntry_bits fresh (.inl rfl : (0 : Word) = 0 ∨ (0 : Word) = pteUser)).2.2.1
      exact absurd (bits.mp userBit) (by decide)

end Blank

theorem paging_flags_enforced_smallSpace :
    Run UserTablesReady smallSpace (smallSpace.map 0x400000 0x8000 vmUser) ∧
      (smallSpace.map 0x400000 0x8000 vmUser).mapped (pageOf 0x400000) = some ⟨0x8000, vmUser⟩ ∧
      FlagsEnforced (smallSpace.map 0x400000 0x8000 vmUser) := by
  obtain ⟨_, _, initial⟩ := smallSpace_initial
  obtain ⟨root, free, valid, blank⟩ := initial.valid
  have ran : Run UserTablesReady smallSpace (smallSpace.map 0x400000 0x8000 vmUser) :=
    .single (.map (valid.blank_ready blank _ _ _))
  refine ⟨ran, ?_, (paging_flags_enforced initial ran).1⟩
  rw [valid.map_succeeds smallSpace_enough, Function.update_self]

/-- A supervisor page is mapped first; a user page next to it shares its tables, and
the CPU refuses ring 3 there. -/
theorem user_page_behind_supervisor_tables :
    ¬ ∀ (bitmapFrames free : Set Nat) (m : Memory) (pmm : Pmm.Globals) (start c : Config),
      Initial bitmapFrames free m pmm start → Run (fun _ _ _ _ => True) start c →
        FlagsEnforced c := by
  intro always
  obtain ⟨_, _, initial⟩ := smallSpace_initial
  obtain ⟨root, free, valid, blank⟩ := initial.valid
  obtain ⟨free', validMap, -⟩ := valid.map 0x400000 0x8000 0
  have ran : Run (fun _ _ _ _ => True) smallSpace
      ((smallSpace.map 0x400000 0x8000 0).map 0x401000 0x9000 vmUser) :=
    .tail (.single (.map trivial)) (.map trivial)
  have unready : ¬ UserTablesReady (smallSpace.map 0x400000 0x8000 0) 0x401000 0x9000 vmUser :=
    valid.supervisor_unready blank smallSpace_enough (by decide) (by decide) (by decide)
  exact validMap.map_unready unready (always _ _ _ _ _ _ initial ran)

end ScrapOS.Paging
