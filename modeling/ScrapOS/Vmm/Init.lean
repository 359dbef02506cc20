import ScrapOS.Vmm.Build

/-! The address space that `vmm_init` loads: the direct map of every region of the memory
map, the kernel image, and nothing else. -/

set_option autoImplicit false

namespace ScrapOS

/-- The addresses of an entry, rounded out to whole frames. -/
def MemmapEntry.rounded (e : MemmapEntry) : Set Word :=
  {p | e.base.toNat / 4096 * 4096 ≤ p.toNat ∧
    p.toNat < (e.base.toNat + e.length.toNat + 4095) / 4096 * 4096}

namespace Vmm

open Paging

/-- The virtual addresses at which the direct map shows the entries. -/
def hhdmImage (memmap : List MemmapEntry) (hhdm : Word) : Set Word :=
  {v | ∃ e ∈ memmap, v - hhdm ∈ e.rounded}

/-- The virtual addresses of the kernel image. -/
def KernelBounds.image (kernel : KernelBounds) : Set Word :=
  {v | kernel.kernelStart.toNat ≤ v.toNat ∧ v.toNat < kernel.kernelEnd.toNat}

/-- The physical address behind an address of the kernel image. -/
def ExecutableAddress.physOf (kaddr : ExecutableAddress) (v : Word) : Word :=
  (v - kaddr.virtualBase) + kaddr.physicalBase

/-- What the bootloader and the linker script promise of the arguments of `vmm_init`. -/
structure Layout (kernel : KernelBounds) (kaddr : ExecutableAddress) (memmap : List MemmapEntry)
    (hhdm : Word) : Prop where
  hhdmAligned : hhdm.toNat % 4096 = 0
  startAligned : kernel.kernelStart.toNat % 4096 = 0
  dataAligned : kernel.dataStart.toNat % 4096 = 0
  endAligned : kernel.kernelEnd.toNat % 4096 = 0
  virtualAligned : kaddr.virtualBase.toNat % 4096 = 0
  physicalAligned : kaddr.physicalBase.toNat % 4096 = 0
  readOnly : kernel.kernelStart.toNat ≤ kernel.dataStart.toNat
  writable : kernel.dataStart.toNat ≤ kernel.kernelEnd.toNat
  physical : ∀ e ∈ memmap, e.base.toNat + e.length.toNat ≤ 2 ^ 47
  kernelPhysical : ∀ v ∈ kernel.image, (kaddr.physOf v).toNat < 2 ^ 47
  upper : ∀ v ∈ hhdmImage memmap hhdm ∪ kernel.image, 2 ^ 64 - 2 ^ 47 ≤ v.toNat
  apart : Disjoint (hhdmImage memmap hhdm) kernel.image

/-! ## The requests of `vmm_init` -/

def hhdmRequest (hhdm p : Word) : Request := ⟨p + hhdm, p, vmWrite⟩

def kernelRequest (kaddr : ExecutableAddress) (flags v : Word) : Request := ⟨v, kaddr.physOf v, flags⟩

def entryStart (e : MemmapEntry) : Word := e.base &&& ~~~(pmmFrameSize - 1)

def entryStop (e : MemmapEntry) : Word :=
  (e.base + e.length + pmmFrameSize - 1) &&& ~~~(pmmFrameSize - 1)

def entryRequests (hhdm : Word) (e : MemmapEntry) : Set Request :=
  hhdmRequest hhdm '' pagesBetween (entryStart e) (entryStop e)

def hhdmRequests (hhdm : Word) (memmap : List MemmapEntry) : Set Request :=
  {r | ∃ e ∈ memmap, r ∈ entryRequests hhdm e}

def kernelRequests (kernel : KernelBounds) (kaddr : ExecutableAddress) : Set Request :=
  kernelRequest kaddr 0 '' pagesBetween kernel.kernelStart kernel.dataStart ∪
    kernelRequest kaddr vmWrite '' pagesBetween kernel.dataStart kernel.kernelEnd

/-- All that `vmm_init` maps. -/
def initPlan (kernel : KernelBounds) (kaddr : ExecutableAddress) (memmap : List MemmapEntry)
    (hhdm : Word) : Set Request :=
  hhdmRequests hhdm memmap ∪ kernelRequests kernel kaddr

theorem entry_bounds {e : MemmapEntry} (physical : e.base.toNat + e.length.toNat ≤ 2 ^ 47) :
    (entryStart e).toNat = e.base.toNat / 4096 * 4096 ∧
      (entryStop e).toNat = (e.base.toNat + e.length.toNat + 4095) / 4096 * 4096 := by
  have mask : (pmmFrameSize - 1 : Word) = BitVec.ofNat 64 (2 ^ 12 - 1) := by decide
  have sum : (e.base + e.length + pmmFrameSize - 1).toNat = e.base.toNat + e.length.toNat + 4095 := by
    bv_omega
  constructor
  · rw [entryStart, mask]
    exact and_not_low e.base 12 (by decide)
  · rw [entryStop, mask, ← sum]
    exact and_not_low _ 12 (by decide)

theorem entry_aligned {e : MemmapEntry} (physical : e.base.toNat + e.length.toNat ≤ 2 ^ 47) :
    (entryStart e).toNat % 4096 = 0 ∧ (entryStop e).toNat % 4096 = 0 := by
  obtain ⟨start, stop⟩ := entry_bounds physical
  rw [start, stop]
  exact ⟨Nat.mul_mod_left _ _, Nat.mul_mod_left _ _⟩

/-- The pages of an entry are those of its rounded range. -/
theorem entry_pages {e : MemmapEntry} (physical : e.base.toNat + e.length.toNat ≤ 2 ^ 47) {p : Word} :
    p ∈ pagesBetween (entryStart e) (entryStop e) ↔ p.toNat % 4096 = 0 ∧ p ∈ e.rounded := by
  obtain ⟨start, stop⟩ := entry_bounds physical
  simp only [pagesBetween, MemmapEntry.rounded, Set.mem_ofPred_eq, start, stop]

theorem upper_pages {v w : Word} (aligned : v.toNat % 4096 = 0) (otherAligned : w.toNat % 4096 = 0)
    (upper : 2 ^ 64 - 2 ^ 47 ≤ v.toNat) (otherUpper : 2 ^ 64 - 2 ^ 47 ≤ w.toNat)
    (same : pageOf v = pageOf w) : v = w := by
  have pages := congrArg BitVec.toNat same
  rw [pageOf, pageOf, BitVec.extractLsb'_toNat, BitVec.extractLsb'_toNat,
    Nat.shiftRight_eq_div_pow, Nat.shiftRight_eq_div_pow] at pages
  apply BitVec.eq_of_toNat_eq
  have bound := v.isLt
  have otherBound := w.isLt
  omega

section Plan

variable {kernel : KernelBounds} {kaddr : ExecutableAddress} {memmap : List MemmapEntry} {hhdm : Word}

theorem aligned_add {p q : Word} (aligned : p.toNat % 4096 = 0) (otherAligned : q.toNat % 4096 = 0) :
    (p + q).toNat % 4096 = 0 := by
  rw [BitVec.toNat_add]
  omega

theorem mem_initPlan {r : Request} : r ∈ initPlan kernel kaddr memmap hhdm ↔
    (∃ e ∈ memmap, ∃ p ∈ pagesBetween (entryStart e) (entryStop e), hhdmRequest hhdm p = r) ∨
    (∃ v ∈ pagesBetween kernel.kernelStart kernel.dataStart, kernelRequest kaddr 0 v = r) ∨
    ∃ v ∈ pagesBetween kernel.dataStart kernel.kernelEnd, kernelRequest kaddr vmWrite v = r := Iff.rfl

namespace Layout

variable (layout : Layout kernel kaddr memmap hhdm)

include layout

omit layout in
theorem entry_image {e : MemmapEntry} (member : e ∈ memmap) {p : Word} (inside : p ∈ e.rounded) :
    p + hhdm ∈ hhdmImage memmap hhdm :=
  ⟨e, member, by rwa [BitVec.add_sub_cancel]⟩

theorem readOnly_image {v : Word} (inside : v ∈ pagesBetween kernel.kernelStart kernel.dataStart) :
    v ∈ kernel.image :=
  ⟨inside.2.1, Nat.lt_of_lt_of_le inside.2.2 layout.writable⟩

theorem writable_image {v : Word} (inside : v ∈ pagesBetween kernel.dataStart kernel.kernelEnd) :
    v ∈ kernel.image :=
  ⟨Nat.le_trans layout.readOnly inside.2.1, inside.2.2⟩

/-- The virtual address of a request is page-aligned and lies in one of the images. -/
theorem virt_cases {r : Request} (member : r ∈ initPlan kernel kaddr memmap hhdm) :
    r.virt.toNat % 4096 = 0 ∧
      (r.virt ∈ hhdmImage memmap hhdm ∧ r = hhdmRequest hhdm (r.virt - hhdm) ∨
        r.virt ∈ kernel.image ∧
          r = kernelRequest kaddr (if r.virt.toNat < kernel.dataStart.toNat then 0 else vmWrite) r.virt) := by
  rcases mem_initPlan.mp member with ⟨e, entry, p, inside, rfl⟩ | ⟨v, inside, rfl⟩ | ⟨v, inside, rfl⟩
  · have page := (entry_pages (layout.physical e entry)).mp inside
    refine ⟨aligned_add page.1 layout.hhdmAligned, .inl ⟨entry_image entry page.2, ?_⟩⟩
    rw [hhdmRequest, BitVec.add_sub_cancel]
    rfl
  · refine ⟨inside.1, .inr ⟨layout.readOnly_image inside, ?_⟩⟩
    have below : v.toNat < kernel.dataStart.toNat := inside.2.2
    rw [kernelRequest, if_pos below]
    rfl
  · refine ⟨inside.1, .inr ⟨layout.writable_image inside, ?_⟩⟩
    have above : ¬ v.toNat < kernel.dataStart.toNat := Nat.not_lt.mpr inside.2.1
    rw [kernelRequest, if_neg above]
    rfl

theorem plan : Plan (initPlan kernel kaddr memmap hhdm) where
  coherent := by
    intro r member other otherMember samePage
    obtain ⟨aligned, where_r⟩ := layout.virt_cases member
    obtain ⟨otherAligned, where_other⟩ := layout.virt_cases otherMember
    have upper : ∀ {v : Word}, (v ∈ hhdmImage memmap hhdm ∨ v ∈ kernel.image) →
        2 ^ 64 - 2 ^ 47 ≤ v.toNat := fun inside => layout.upper _ inside
    have same : r.virt = other.virt := upper_pages aligned otherAligned
      (upper (where_r.imp And.left And.left)) (upper (where_other.imp And.left And.left)) samePage
    rcases where_r with ⟨direct, shape⟩ | ⟨image, shape⟩
    · rcases where_other with ⟨-, otherShape⟩ | ⟨otherImage, -⟩
      · rw [shape, otherShape, same]
      · rw [← same] at otherImage
        exact absurd otherImage (Set.disjoint_left.mp layout.apart direct)
    · rcases where_other with ⟨otherDirect, -⟩ | ⟨-, otherShape⟩
      · rw [← same] at otherDirect
        exact absurd image (Set.disjoint_left.mp layout.apart otherDirect)
      · rw [shape, otherShape, same]
  aligned := by
    have base : ∀ {v : Word}, v.toNat % 4096 = 0 → v ∈ kernel.image →
        (kaddr.physOf v).toNat % 4096 = 0 ∧ (kaddr.physOf v).toNat < 2 ^ 52 := by
      intro v aligned image
      have virtualAligned := layout.virtualAligned
      have distance : (v - kaddr.virtualBase).toNat % 4096 = 0 := by
        rw [BitVec.toNat_sub]
        omega
      exact ⟨aligned_add distance layout.physicalAligned,
        Nat.lt_trans (layout.kernelPhysical v image) (by decide)⟩
    intro r member
    rcases mem_initPlan.mp member with ⟨e, entry, p, inside, rfl⟩ | ⟨v, inside, rfl⟩ | ⟨v, inside, rfl⟩
    · have physical := layout.physical e entry
      obtain ⟨aligned, -, before⟩ := (entry_pages physical).mp inside
      have small : p.toNat < 2 ^ 52 := by omega
      exact ⟨aligned, small⟩
    · exact base inside.1 (layout.readOnly_image inside)
    · exact base inside.1 (layout.writable_image inside)
  supervisor := by
    intro r member
    have writes : vmWrite &&& vmUser = 0 := by decide
    rcases mem_initPlan.mp member with ⟨_, _, _, _, rfl⟩ | ⟨_, _, rfl⟩ | ⟨_, _, rfl⟩
    · exact writes
    · exact BitVec.zero_and
    · exact writes

end Layout

end Plan

/-! ## The steps of `vmm_init` -/

section Steps

variable {hhdm : Word} {managed bitmapFrames : Set Nat} {root : Nat} {plan requests : Set Request}
  {s s' : State}

theorem mapHhdmRange_built (isPlan : Plan plan) (inPlan : requests ⊆ plan) {e : MemmapEntry}
    (physical : e.base.toNat + e.length.toNat ≤ 2 ^ 47) (planned : entryRequests hhdm e ⊆ plan)
    (built : Builds hhdm managed bitmapFrames root requests s)
    (done : mapHhdmRange s e.base e.length hhdm = some s') :
    Builds hhdm managed bitmapFrames root (requests ∪ entryRequests hhdm e) s' := by
  obtain ⟨startAligned, stopAligned⟩ := entry_aligned physical
  exact mapPages_built isPlan inPlan (fun _ _ => rfl) stopAligned startAligned planned built done

theorem mapEntries_built (isPlan : Plan plan) (inPlan : requests ⊆ plan) {entries : List MemmapEntry}
    (physical : ∀ e ∈ entries, e.base.toNat + e.length.toNat ≤ 2 ^ 47)
    (planned : hhdmRequests hhdm entries ⊆ plan)
    (built : Builds hhdm managed bitmapFrames root requests s)
    (done : entries.foldlM (fun s e => mapHhdmRange s e.base e.length hhdm) s = some s') :
    Builds hhdm managed bitmapFrames root (requests ∪ hhdmRequests hhdm entries) s' := by
  induction entries generalizing s requests with
  | nil =>
      cases done
      have none : hhdmRequests hhdm [] = ∅ := by simp [hhdmRequests]
      rw [none, Set.union_empty]
      exact built
  | cons e rest ih =>
      have split_requests : hhdmRequests hhdm (e :: rest) =
          entryRequests hhdm e ∪ hhdmRequests hhdm rest := by
        ext r
        simp [hhdmRequests]
      rw [split_requests, ← Set.union_assoc]
      rw [split_requests, Set.union_subset_iff] at planned
      rw [List.foldlM_cons, Option.bind_eq_bind, Option.bind_eq_some_iff] at done
      obtain ⟨mid, first, later⟩ := done
      have built' := mapHhdmRange_built isPlan inPlan (physical e List.mem_cons_self) planned.1 built first
      exact ih (Set.union_subset inPlan planned.1)
        (fun other member => physical other (List.mem_cons_of_mem e member)) planned.2 built' later

theorem mapKernelRange_built (isPlan : Plan plan) (inPlan : requests ⊆ plan) {start stop flags : Word}
    {kaddr : ExecutableAddress} (aligned : start.toNat % 4096 = 0) (stopAligned : stop.toNat % 4096 = 0)
    (planned : kernelRequest kaddr flags '' pagesBetween start stop ⊆ plan)
    (built : Builds hhdm managed bitmapFrames root requests s)
    (done : mapKernelRange s start stop kaddr.virtualBase kaddr.physicalBase flags = some s') :
    Builds hhdm managed bitmapFrames root
      (requests ∪ kernelRequest kaddr flags '' pagesBetween start stop) s' :=
  mapPages_built isPlan inPlan (fun _ _ => rfl) stopAligned aligned planned built done

theorem blank_built {m : Memory} {pmm : Pmm.Globals} {free : Set Nat} (available : root ∈ free)
    (supply : Suitable hhdm free) (apart : Disjoint free bitmapFrames)
    (tracks : Pmm.Tracks hhdm bitmapFrames (free \ {root}) m pmm) :
    Builds hhdm free bitmapFrames root ∅
      ⟨memset m (tableAt hhdm (frameAddress root)) 0 4096, pmm, hhdm, frameAddress root⟩ := by
  have notBitmap := Set.disjoint_left.mp apart available
  obtain ⟨space, onlyRoot, blank⟩ := Space.blank available supply notBitmap tracks
  refine ⟨free \ {root}, fun _ => none, ⟨rfl, space, ?_, ?_⟩, .blank blank (fun _ => rfl), rfl, ?_,
    Set.sdiff_subset, ⟨?_, ?_⟩⟩
  · exact fun _ member => absurd member List.not_mem_nil
  · intro virt
    have leaf := blank (pathOf virt)
    exact congrArg (· &&& ptePresent) leaf
  · exact onlyRoot.subset.trans (Set.singleton_subset_iff.mpr available)
  · exact fun r member => absurd member (Set.notMem_empty r)
  · exact fun _ _ found => nomatch found

theorem vmmInit_built {m : Memory} {pmm : Pmm.Globals} {free : Set Nat} {kernel : KernelBounds}
    {kaddr : ExecutableAddress} {memmap : List MemmapEntry} {rsp code : Word}
    (layout : Layout kernel kaddr memmap hhdm) (tracks : Pmm.Tracks hhdm bitmapFrames free m pmm)
    (supply : Suitable hhdm free)
    (done : vmmInit m pmm kernel kaddr memmap hhdm rsp code = some s) :
    ∃ root, Builds hhdm free bitmapFrames root (initPlan kernel kaddr memmap hhdm) s := by
  have outcome := tracks.allocFrame
  rw [vmmInit] at done
  generalize Pmm.pmmAllocFrame m pmm = result at outcome done
  cases outcome with
  | refused none => cases done
  | @served root mid pmm' available tracks' changed total =>
      have isPlan := layout.plan
      have hhdmPlanned : hhdmRequests hhdm memmap ⊆ initPlan kernel kaddr memmap hhdm :=
        Set.subset_union_left
      have kernelPlanned : kernelRequests kernel kaddr ⊆ initPlan kernel kaddr memmap hhdm :=
        Set.subset_union_right
      rw [kernelRequests, Set.union_subset_iff] at kernelPlanned
      obtain ⟨readOnlyPlanned, writablePlanned⟩ := kernelPlanned
      dsimp only at done
      split at done
      · cases done
      · simp only [Option.bind_eq_bind, Option.bind_eq_some_iff] at done
        obtain ⟨direct, directDone, readOnly, readOnlyDone, writable, writableDone, checked⟩ := done
        have table : frameAddress root + hhdm = tableAt hhdm (frameAddress root) := rfl
        have blank := blank_built available supply tracks.apart tracks'
        rw [table] at directDone
        have directBuilt := mapEntries_built isPlan (Set.empty_subset _) layout.physical hhdmPlanned
          blank directDone
        rw [Set.empty_union] at directBuilt
        have readOnlyBuilt := mapKernelRange_built isPlan hhdmPlanned layout.startAligned
          layout.dataAligned readOnlyPlanned directBuilt readOnlyDone
        have writableBuilt := mapKernelRange_built isPlan (Set.union_subset hhdmPlanned readOnlyPlanned)
          layout.dataAligned layout.endAligned writablePlanned readOnlyBuilt writableDone
        rw [Set.union_assoc] at writableBuilt
        split at checked
        · cases checked
          exact ⟨root, writableBuilt⟩
        · cases checked

end Steps

end Vmm

end ScrapOS
