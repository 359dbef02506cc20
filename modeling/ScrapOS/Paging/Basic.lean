import ScrapOS.Pmm.Basic

/-! The four-level page tables of `arch/x86_64/paging.c`. A table is 512 entries
in one frame, reached through the direct map. The translation caches of the CPU
(`invlpg`, the `cr3` load) are not part of the model. -/

set_option autoImplicit false

namespace ScrapOS.Paging

abbrev vmWrite : Word := 1

abbrev vmUser : Word := 2

abbrev ptePresent : Word := 1

abbrev pteWrite : Word := 2

abbrev pteUser : Word := 4

abbrev pteAddrMask : Word := 0x000ffffffffff000

def pml4Index (v : Word) : Word := (v >>> 39) &&& 0x1ff

def pdptIndex (v : Word) : Word := (v >>> 30) &&& 0x1ff

def pdIndex (v : Word) : Word := (v >>> 21) &&& 0x1ff

def ptIndex (v : Word) : Word := (v >>> 12) &&& 0x1ff

def tableAt (hhdmOffset tablePhys : Word) : Word := tablePhys + hhdmOffset

/-- `table[index]`. -/
def entry (m : Memory) (table index : Word) : Word := m.load64 (table + 8 * index)

/-- `table[index] = value`. -/
def setEntry (m : Memory) (table index value : Word) : Memory := m.store64 (table + 8 * index) value

/-! ## The walk -/

def nextLevel (m : Memory) (pmm : Pmm.Globals) (hhdmOffset table index : Word) (create : Bool)
    (leafUserBit : Word) : Word × Memory × Pmm.Globals :=
  let found := entry m table index
  if found &&& ptePresent ≠ 0 then (tableAt hhdmOffset (found &&& pteAddrMask), m, pmm)
  else if !create then (0, m, pmm)
  else
    match Pmm.pmmAllocFrame m pmm with
    | (frame, m, pmm) =>
        if frame = 0 then (0, m, pmm)
        else
          let m := memset m (tableAt hhdmOffset frame) 0 4096
          let m := setEntry m table index
            ((frame &&& pteAddrMask) ||| ptePresent ||| pteWrite ||| leafUserBit)
          (tableAt hhdmOffset frame, m, pmm)

/-- The `next_level` calls of a walk, one for each index, up to the first one that
returns `NULL`. -/
def descend (hhdmOffset : Word) (create : Bool) (leafUserBit : Word) :
    List Word → Memory → Pmm.Globals → Word → Word × Memory × Pmm.Globals
  | [], m, pmm, table => (table, m, pmm)
  | index :: rest, m, pmm, table =>
      match nextLevel m pmm hhdmOffset table index create leafUserBit with
      | (next, m, pmm) =>
          if next = 0 then (0, m, pmm) else descend hhdmOffset create leafUserBit rest m pmm next

/-- The walk from the PML4 to the page table of `virt`, which `paging_map`,
`paging_unmap` and `paging_translate` begin with. -/
def leafTable (m : Memory) (pmm : Pmm.Globals) (hhdmOffset pml4Phys virt : Word) (create : Bool)
    (leafUserBit : Word) : Word × Memory × Pmm.Globals :=
  descend hhdmOffset create leafUserBit [pml4Index virt, pdptIndex virt, pdIndex virt] m pmm
    (tableAt hhdmOffset pml4Phys)

/-- The leaf entry that `paging_map` writes. -/
def leafEntry (phys flags : Word) : Word :=
  let pte := (phys &&& pteAddrMask) ||| ptePresent
  let pte := if flags &&& vmWrite ≠ 0 then pte ||| pteWrite else pte
  if flags &&& vmUser ≠ 0 then pte ||| pteUser else pte

/-- `leaf_user` of `paging_map`. -/
def leafUser (flags : Word) : Word := if flags &&& vmUser ≠ 0 then pteUser else 0

def pagingMap (m : Memory) (pmm : Pmm.Globals) (hhdmOffset pml4Phys virt phys flags : Word) :
    Bool × Memory × Pmm.Globals :=
  match leafTable m pmm hhdmOffset pml4Phys virt true (leafUser flags) with
  | (pt, m, pmm) =>
      if pt = 0 then (false, m, pmm)
      else (true, setEntry m pt (ptIndex virt) (leafEntry phys flags), pmm)

def pagingUnmap (m : Memory) (pmm : Pmm.Globals) (hhdmOffset pml4Phys virt : Word) :
    Bool × Memory × Pmm.Globals :=
  match leafTable m pmm hhdmOffset pml4Phys virt false 0 with
  | (pt, m, pmm) =>
      if pt = 0 then (false, m, pmm)
      else if entry m pt (ptIndex virt) &&& ptePresent = 0 then (false, m, pmm)
      else (true, setEntry m pt (ptIndex virt) 0, pmm)

/-- `paging_translate`; the address is the one written to `*out_phys` when it returns true. -/
def pagingTranslate (m : Memory) (pmm : Pmm.Globals) (hhdmOffset pml4Phys virt : Word) :
    Option Word × Memory × Pmm.Globals :=
  match leafTable m pmm hhdmOffset pml4Phys virt false 0 with
  | (pt, m, pmm) =>
      if pt = 0 then (none, m, pmm)
      else
        let found := entry m pt (ptIndex virt)
        if found &&& ptePresent = 0 then (none, m, pmm)
        else (some ((found &&& pteAddrMask) ||| (virt &&& 0xfff)), m, pmm)

/-- `paging_can_switch_to`; `rsp` is the stack pointer it reads and `code` the address of
`paging_load_cr3`. -/
def pagingCanSwitchTo (m : Memory) (pmm : Pmm.Globals) (hhdmOffset pml4Phys rsp code : Word) : Bool :=
  (pagingTranslate m pmm hhdmOffset pml4Phys rsp).1.isSome &&
    (pagingTranslate m pmm hhdmOffset pml4Phys code).1.isSome

/-! ## The walk of the CPU -/

/-- The four entries the CPU reads to translate `virt`, the PML4 entry first. -/
def cpuWalk (m : Memory) (hhdmOffset pml4Phys virt : Word) : List Word :=
  let e4 := entry m (tableAt hhdmOffset pml4Phys) (pml4Index virt)
  let e3 := entry m (tableAt hhdmOffset (e4 &&& pteAddrMask)) (pdptIndex virt)
  let e2 := entry m (tableAt hhdmOffset (e3 &&& pteAddrMask)) (pdIndex virt)
  let e1 := entry m (tableAt hhdmOffset (e2 &&& pteAddrMask)) (ptIndex virt)
  [e4, e3, e2, e1]

/-- The leaf entry the CPU reads. -/
def cpuLeaf (m : Memory) (hhdmOffset pml4Phys virt : Word) : Word :=
  (cpuWalk m hhdmOffset pml4Phys virt).getLastD 0

/-- The CPU grants an access only if its bit is set in all entries of the walk. -/
def cpuGrants (m : Memory) (hhdmOffset pml4Phys virt bit : Word) : Bool :=
  (cpuWalk m hhdmOffset pml4Phys virt).all fun found => found &&& bit != 0

end ScrapOS.Paging
