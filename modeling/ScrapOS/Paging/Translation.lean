import ScrapOS.Simulation.Basic
import ScrapOS.Paging.Runs
import ScrapOS.Pmm.Init

/-! The page tables refine a partial map from page numbers to frames. -/

set_option autoImplicit false

namespace ScrapOS.Paging

/-- Page-aligned arguments whose frame an entry can hold. -/
def Aligned : Admits := fun _ virt phys _ =>
  virt.toNat % 4096 = 0 ∧ phys.toNat % 4096 = 0 ∧ phys.toNat < 2 ^ 52

/-- The frames of an abstract map are page-aligned physical addresses. -/
def FramesAligned (mapped : Page → Option Mapping) : Prop :=
  ∀ page x, mapped page = some x → x.phys.toNat % 4096 = 0 ∧ x.phys.toNat < 2 ^ 52

/-- An address and its page offset do not overlap, so the source's `|` is a sum. -/
theorem or_offset {phys : Word} (virt : Word) (aligned : phys.toNat % 4096 = 0)
    (bounded : phys.toNat < 2 ^ 52) :
    (phys &&& pteAddrMask) ||| (virt &&& 0xfff) = phys + virt % 4096 := by
  have low : virt &&& 0xfff = virt % 4096 := by
    apply BitVec.eq_of_toNat_eq
    have mask : (0xfff : Word).toNat = 2 ^ 12 - 1 := rfl
    rw [BitVec.toNat_and, mask, Nat.and_two_pow_sub_one_eq_mod, BitVec.toNat_umod]
    rfl
  have apart : (phys &&& pteAddrMask) &&& (virt &&& 0xfff) = 0#64 := by
    have masks : pteAddrMask &&& 0xfff = 0#64 := by decide
    rw [BitVec.and_comm virt, BitVec.and_assoc, ← BitVec.and_assoc pteAddrMask, masks,
      BitVec.zero_and, BitVec.and_zero]
  rw [← BitVec.add_eq_or_of_and_eq_zero _ _ apart, mask_of_aligned aligned bounded, low]

theorem FramesAligned.update {mapped : Page → Option Mapping} (frames : FramesAligned mapped)
    (page : Page) {mapping : Option Mapping}
    (aligned : ∀ x, mapping = some x → x.phys.toNat % 4096 = 0 ∧ x.phys.toNat < 2 ^ 52) :
    FramesAligned (Function.update mapped page mapping) := by
  intro other x found
  by_cases same : other = page
  · rw [same, Function.update_self] at found
    exact aligned x found
  · rw [Function.update_of_ne same] at found
    exact frames other x found

theorem FramesAligned.step {bitmapFrames free : Set Nat} {root : Nat} {c c' : Config}
    (valid : Valid bitmapFrames free root c) (frames : FramesAligned c.mapped)
    (stepped : Step Aligned c c') : FramesAligned c'.mapped := by
  cases stepped with
  | @map virt phys flags admitted =>
      obtain ⟨_, _, _, outcome⟩ := valid.map virt phys flags
      rcases outcome with ⟨unchanged, _⟩ | ⟨updated, _⟩
      · rw [unchanged]
        exact frames
      · rw [updated]
        apply frames.update
        rintro x found
        cases found
        exact admitted.2
  | unmap virt =>
      rw [valid.unmap_mapped]
      exact frames.update _ fun x found => nomatch found
  | translate virt =>
      rw [valid.translate virt]
      exact frames
  | alloc => exact frames
  | write => exact frames

/-- The translation that the abstract map defines. -/
def Config.resolved (c : Config) (virt : Word) : Option Word :=
  (c.mapped (pageOf virt)).map fun x => x.phys + virt % 4096

theorem Valid.translate_resolved {bitmapFrames free : Set Nat} {root : Nat} {c : Config}
    (valid : Valid bitmapFrames free root c) (frames : FramesAligned c.mapped) (virt : Word) :
    pagingTranslate c.mem c.pmm c.hhdmOffset c.pml4Phys virt =
      (c.resolved virt, c.mem, c.pmm) := by
  have leaf := valid.leaves virt
  rw [valid.translate_eq, Config.resolved, resolve]
  cases mapping : c.mapped (pageOf virt) with
  | none =>
      rw [mapping] at leaf
      have absent : entries c.hhdmOffset root c.mem (pathOf virt) &&& ptePresent = 0 := leaf
      rw [if_pos absent]
      rfl
  | some x =>
      rw [mapping] at leaf
      have found : entries c.hhdmOffset root c.mem (pathOf virt) = leafEntry x.phys x.flags := leaf
      obtain ⟨present, -, -, address⟩ := leafEntry_bits x.phys x.flags
      obtain ⟨aligned, bounded⟩ := frames _ x mapping
      rw [found, if_neg present, address, or_offset virt aligned bounded]
      rfl

theorem Run.framesAligned {bitmapFrames free : Set Nat} {root : Nat} {start c : Config}
    (valid : Valid bitmapFrames free root start) (frames : FramesAligned start.mapped)
    (ran : Run Aligned start c) :
    ∃ free', Valid bitmapFrames free' root c ∧ FramesAligned c.mapped := by
  have kept : ∀ free c c', Valid bitmapFrames free root c ∧ FramesAligned c.mapped →
      Step Aligned c c' → ∃ free', Valid bitmapFrames free' root c' ∧ FramesAligned c'.mapped := by
    intro free c c' before stepped
    obtain ⟨free', after⟩ := before.1.step stepped
    exact ⟨free', after, before.2.step before.1 stepped⟩
  exact Simulation.run_holds kept ⟨valid, frames⟩ ran

/-- What `paging_translate` answers in a state. -/
def Config.translation (c : Config) (virt : Word) : Option Word :=
  (pagingTranslate c.mem c.pmm c.hhdmOffset c.pml4Phys virt).1

/-- The abstract map of one page is not touched by an operation on another. -/
theorem Valid.other_pages {bitmapFrames free : Set Nat} {root : Nat} {c : Config}
    (valid : Valid bitmapFrames free root c) {virt other : Word}
    (different : pageOf other ≠ pageOf virt) :
    (c.unmap virt).resolved other = c.resolved other ∧
      ∀ phys flags, (c.map virt phys flags).resolved other = c.resolved other := by
  constructor
  · rw [Config.resolved, valid.unmap_mapped, Function.update_of_ne different, Config.resolved]
  · intro phys flags
    obtain ⟨_, _, _, outcome⟩ := valid.map virt phys flags
    rcases outcome with ⟨unchanged, _⟩ | ⟨updated, _⟩
    · rw [Config.resolved, unchanged, Config.resolved]
    · rw [Config.resolved, updated, Function.update_of_ne different, Config.resolved]

/-- In a reachable state `paging_translate` answers from the abstract map. -/
theorem Run.translate {bitmapFrames free : Set Nat} {m : Memory} {pmm : Pmm.Globals}
    {start c : Config} (initial : Initial bitmapFrames free m pmm start)
    (ran : Run Aligned start c) :
    ∃ root free', Valid bitmapFrames free' root c ∧ ∀ virt,
      pagingTranslate c.mem c.pmm c.hhdmOffset c.pml4Phys virt = (c.resolved virt, c.mem, c.pmm) := by
  obtain ⟨root, first, valid, -⟩ := initial.valid
  have noFrames : FramesAligned start.mapped := by
    intro page x found
    rw [initial.unmapped] at found
    cases found
  obtain ⟨free', valid', frames⟩ := ran.framesAligned valid noFrames
  exact ⟨root, free', valid', fun virt => valid'.translate_resolved frames virt⟩

theorem paging_refines_map {bitmapFrames free : Set Nat} {m : Memory} {pmm : Pmm.Globals}
    {start c : Config} (initial : Initial bitmapFrames free m pmm start)
    (ran : Run Aligned start c) :
    (∀ virt, pagingTranslate c.mem c.pmm c.hhdmOffset c.pml4Phys virt =
      ((c.mapped (pageOf virt)).map fun x => x.phys + virt % 4096, c.mem, c.pmm)) ∧
    (∀ virt, c.mapped (pageOf virt) ≠ none →
      (pagingUnmap c.mem c.pmm c.hhdmOffset c.pml4Phys virt).1 = true) ∧
    (∀ virt, c.mapped (pageOf virt) = none →
      pagingUnmap c.mem c.pmm c.hhdmOffset c.pml4Phys virt = (false, c.mem, c.pmm)) ∧
    ∀ virt other, pageOf other ≠ pageOf virt →
      (c.unmap virt).translation other = c.translation other ∧
        ∀ phys flags, Aligned c virt phys flags →
          (c.map virt phys flags).translation other = c.translation other := by
  obtain ⟨root, free', valid, translated⟩ := ran.translate initial
  have answers : ∀ {c'}, Run Aligned start c' → ∀ other, c'.translation other = c'.resolved other := by
    intro c' ran' other
    obtain ⟨_, _, _, translated'⟩ := ran'.translate initial
    rw [Config.translation, translated']
  refine ⟨translated, fun virt => (valid.unmap_result virt).1,
    fun virt => (valid.unmap_result virt).2, fun virt other different => ⟨?_, ?_⟩⟩
  · rw [answers (ran.tail (.unmap virt)), answers ran, (valid.other_pages different).1]
  · intro phys flags admitted
    rw [answers (ran.tail (.map admitted)), answers ran, (valid.other_pages different).2]

/-! ## A small machine -/

/-- The address space of a machine with sixteen frames, right after its PML4 was zeroed. -/
def smallSpace : Config where
  mem := memset (Pmm.pmmAllocFrame Pmm.smallBoot.1 Pmm.smallBoot.2).2.1
    (tableAt Pmm.smallHhdm (Pmm.pmmAllocFrame Pmm.smallBoot.1 Pmm.smallBoot.2).1) 0 4096
  pmm := (Pmm.pmmAllocFrame Pmm.smallBoot.1 Pmm.smallBoot.2).2.2
  hhdmOffset := Pmm.smallHhdm
  pml4Phys := (Pmm.pmmAllocFrame Pmm.smallBoot.1 Pmm.smallBoot.2).1
  owned := []
  mapped := fun _ => none

/-- The address space right after `pmm_init` gave it a PML4 that was zeroed. -/
def bootedSpace (m : Memory) (pmm : Pmm.Globals) (hhdm : Word) : Config where
  mem := memset (Pmm.pmmAllocFrame m pmm).2.1 (tableAt hhdm (Pmm.pmmAllocFrame m pmm).1) 0 4096
  pmm := (Pmm.pmmAllocFrame m pmm).2.2
  hhdmOffset := hhdm
  pml4Phys := (Pmm.pmmAllocFrame m pmm).1
  owned := []
  mapped := fun _ => none

theorem bootedSpace_initial {memmap : List MemmapEntry} {m m' : Memory} {pmm : Pmm.Globals}
    {hhdm : Word} (memmapValid : MemmapValid memmap) (done : Pmm.pmmInit m memmap hhdm = some (m', pmm))
    (supply : Suitable hhdm (usableFrames memmap)) (succeeded : (Pmm.pmmAllocFrame m' pmm).1 ≠ 0) :
    ∃ bitmapFrames free, Initial bitmapFrames free m' pmm (bootedSpace m' pmm hhdm) := by
  have booted := Pmm.pmmInit_booted memmapValid done
  refine ⟨_, _, booted.tracks, supply.mono Set.sdiff_subset, rfl, succeeded, ?_, rfl,
    fun _ member => absurd member List.not_mem_nil, fun _ => rfl⟩
  rw [bootedSpace]

theorem smallSpace_initial : ∃ bitmapFrames free,
    Initial bitmapFrames free Pmm.smallBoot.1 Pmm.smallBoot.2 smallSpace := by
  have supply : Suitable Pmm.smallHhdm (usableFrames Pmm.smallMap) := by
    rw [Pmm.smallMap_frames]
    refine ⟨⟨by simp, fun frame member => ?_⟩, fun frame member => ?_⟩
    · have range : 1 ≤ frame ∧ frame < 17 := member
      unfold Pmm.smallHhdm
      bv_omega
    · have range : 1 ≤ frame ∧ frame < 17 := member
      omega
  have succeeded : smallSpace.pml4Phys ≠ 0 := by decide +kernel
  exact bootedSpace_initial Pmm.smallMap_valid Pmm.smallBoot_done supply succeeded

theorem smallSpace_enough : 3 ≤ smallSpace.pmm.freeFrames.toNat := by decide +kernel

theorem paging_refines_map_smallSpace :
    ∃ c, Run Aligned smallSpace c ∧ c.mapped (pageOf 0x400000) = some ⟨0x9000, vmWrite⟩ ∧
      (pagingTranslate c.mem c.pmm c.hhdmOffset c.pml4Phys 0x400123).1 = some 0x9123 := by
  obtain ⟨_, _, initial⟩ := smallSpace_initial
  have ran : Run Aligned smallSpace (smallSpace.map 0x400000 0x9000 vmWrite) :=
    .single (.map ⟨by decide, by decide, by decide⟩)
  have mapped : (smallSpace.map 0x400000 0x9000 vmWrite).mapped (pageOf 0x400000) =
      some ⟨0x9000, vmWrite⟩ := by
    obtain ⟨_, _, valid, -⟩ := initial.valid
    rw [valid.map_succeeds smallSpace_enough, Function.update_self]
  have page : pageOf 0x400123 = pageOf 0x400000 := by decide
  refine ⟨_, ran, mapped, ?_⟩
  rw [(paging_refines_map initial ran).1, page, mapped]
  rfl

end ScrapOS.Paging
