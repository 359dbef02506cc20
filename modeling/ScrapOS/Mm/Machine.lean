import ScrapOS.Buddy.Init
import ScrapOS.Vmm.Basic

/-! The three memory managers of `core/mm` side by side. The pmm serves everyone; the vmm
takes its tables from it; `buddy_init` takes its blocks from it once.

Memory is what the kernel itself sees through the direct map. That `vmm_map` and `vmm_unmap`
leave the direct map alone, so that after the `cr3` load the kernel's own accesses still go
where they went before, is assumed: they write table entries in this memory and do nothing
else to it. -/

set_option autoImplicit false

namespace ScrapOS.Mm

/-- A state of a run: the kernel address space with memory and the globals of `pmm.c`,
the globals of `buddy.c`, the addresses that `pmm_alloc_frame` returned to a caller and
that were not freed since, and the blocks that `buddy_alloc` returned and that were not
given back. -/
structure Config where
  vmm : Vmm.State
  buddy : Buddy.Globals
  handed : List Word
  live : List Buddy.Handle

namespace Config

/-- The bytes of the frames and of the blocks that callers hold. -/
def callerBytes (c : Config) : Set Word :=
  {address | (∃ phys ∈ c.handed, address ∈ span (phys + c.vmm.hhdmOffset) 4096) ∨
    ∃ handle ∈ c.live, address ∈ span (c.buddy.nodeAt handle.1) (4096 * 2 ^ handle.2)}

def pmmAlloc (c : Config) : Config :=
  match Pmm.pmmAllocFrame c.vmm.mem c.vmm.pmm with
  | (phys, mem, pmm) =>
      { c with
        vmm := { c.vmm with mem, pmm }
        handed := if phys = 0 then c.handed else phys :: c.handed }

def pmmFree (c : Config) (phys : Word) : Config :=
  match Pmm.pmmFreeFrame c.vmm.mem c.vmm.pmm phys with
  | (mem, pmm) => { c with vmm := { c.vmm with mem, pmm }, handed := c.handed.erase phys }

def vmmMap (c : Config) (virt phys flags : Word) : Config :=
  { c with vmm := (Vmm.vmmMap c.vmm virt phys flags).2 }

def vmmUnmap (c : Config) (virt : Word) : Config :=
  { c with vmm := (Vmm.vmmUnmap c.vmm virt).2 }

def buddyAlloc (c : Config) (order : Nat) : Config :=
  match Buddy.buddyAlloc c.vmm.mem c.buddy order with
  | (phys, mem, buddy) =>
      { c with
        vmm := { c.vmm with mem }
        buddy
        live := if phys = 0 then c.live else (phys, order) :: c.live }

end Config

inductive Step : Config → Config → Prop where
  | pmmAlloc {c : Config} : Step c c.pmmAlloc
  | pmmFree {c : Config} {phys : Word} : phys ∈ c.handed → Step c (c.pmmFree phys)
  | vmmMap {c : Config} (virt phys flags : Word) : Step c (c.vmmMap virt phys flags)
  | vmmUnmap {c : Config} (virt : Word) : Step c (c.vmmUnmap virt)
  | buddyAlloc {c : Config} (order : Nat) : Step c (c.buddyAlloc order)
  | buddyFree {c : Config} {handle : Buddy.Handle} {mem : Memory} {buddy : Buddy.Globals} :
      handle ∈ c.live → Buddy.buddyFree c.vmm.mem c.buddy handle.1 handle.2 = some (mem, buddy) →
      Step c { c with vmm := { c.vmm with mem }, buddy, live := c.live.erase handle }
  | write {c : Config} {mem : Memory} :
      Set.EqOn mem c.vmm.mem c.callerBytesᶜ → Step c { c with vmm := { c.vmm with mem } }

abbrev Run : Config → Config → Prop := Relation.ReflTransGen Step

/-- The state after `buddy_init` on the address space that `vmm_init` built. -/
def start (s : Vmm.State) (memmap : List MemmapEntry) (reserveFrames : Word) : Config :=
  match Buddy.buddyInit s.mem s.pmm memmap s.hhdmOffset reserveFrames with
  | (mem, pmm, buddy) => { vmm := { s with mem, pmm }, buddy, handed := [], live := [] }

/-! ## Where the bitmap lies -/

section Span

open Pmm

theorem nextLevel_span (m : Memory) (g : Pmm.Globals) (hhdm table index : Word) (create : Bool)
    (user : Word) : g.SameSpan (Paging.nextLevel m g hhdm table index create user).2.2 := by
  have span := pmmAllocFrame_span m g
  rw [Paging.nextLevel]
  dsimp only
  split
  · exact .refl g
  · split
    · exact .refl g
    · generalize pmmAllocFrame m g = result at span
      obtain ⟨frame, m', g'⟩ := result
      dsimp only
      split
      · exact span
      · exact span

theorem descend_span (hhdm : Word) (create : Bool) (user : Word) (indices : List Word) (m : Memory)
    (g : Pmm.Globals) (table : Word) :
    g.SameSpan (Paging.descend hhdm create user indices m g table).2.2 := by
  induction indices generalizing m g table with
  | nil => exact .refl g
  | cons index rest ih =>
      have span := nextLevel_span m g hhdm table index create user
      rw [Paging.descend]
      generalize Paging.nextLevel m g hhdm table index create user = result at span
      obtain ⟨next, m', g'⟩ := result
      dsimp only
      split
      · exact span
      · exact span.trans (ih m' g' next)

theorem vmmMap_span (s : Vmm.State) (virt phys flags : Word) :
    s.pmm.SameSpan (Vmm.vmmMap s virt phys flags).2.pmm := by
  have span := descend_span s.hhdmOffset true (Paging.leafUser flags)
    [Paging.pml4Index virt, Paging.pdptIndex virt, Paging.pdIndex virt] s.mem s.pmm
    (Paging.tableAt s.hhdmOffset s.kernelPml4)
  rw [← Paging.leafTable] at span
  rw [Vmm.vmmMap, Paging.pagingMap]
  generalize Paging.leafTable s.mem s.pmm s.hhdmOffset s.kernelPml4 virt true (Paging.leafUser flags) =
    result at span
  obtain ⟨pt, m', g'⟩ := result
  dsimp only
  split
  · exact span
  · exact span

theorem extendRun_span (budget stop : Word) (steps : Nat) (s : Buddy.Seeding) (f : Word) :
    s.pmm.SameSpan (Buddy.extendRun budget stop steps s f).1.pmm := by
  induction steps generalizing s f with
  | zero => exact .refl s.pmm
  | succ steps ih =>
      have span := pmmClaimFrame_span s.mem s.pmm (f * pmmFrameSize)
      rw [Buddy.extendRun]
      split
      · generalize pmmClaimFrame s.mem s.pmm (f * pmmFrameSize) = result at span
        obtain ⟨done, m', g'⟩ := result
        cases done with
        | false => exact span
        | true => exact span.trans (ih _ _)
      · exact .refl s.pmm

theorem seedEntry_span (budget stop : Word) (steps : Nat) (s : Buddy.Seeding) (f : Word) :
    s.pmm.SameSpan (Buddy.seedEntry budget stop steps s f).pmm := by
  induction steps generalizing s f with
  | zero => exact .refl s.pmm
  | succ steps ih =>
      have span := pmmClaimFrame_span s.mem s.pmm (f * pmmFrameSize)
      rw [Buddy.seedEntry]
      split
      · generalize pmmClaimFrame s.mem s.pmm (f * pmmFrameSize) = result at span
        obtain ⟨done, m', g'⟩ := result
        cases done with
        | false => exact span.trans (ih _ _)
        | true =>
            have extended := extendRun_span budget stop steps
              { s with mem := m', pmm := g', claimed := s.claimed + 1 } (f + 1)
            dsimp only at span ⊢
            exact (span.trans extended).trans (ih _ _)
      · exact .refl s.pmm

theorem seedEntries_span (budget : Word) (memmap : List MemmapEntry) (s : Buddy.Seeding) :
    s.pmm.SameSpan (Buddy.seedEntries budget memmap s).pmm := by
  induction memmap generalizing s with
  | nil => exact .refl s.pmm
  | cons e rest ih =>
      rw [Buddy.seedEntries]
      split
      · split
        · exact ih s
        · exact (seedEntry_span _ _ _ s _).trans (ih _)
      · exact .refl s.pmm

end Span

end ScrapOS.Mm
