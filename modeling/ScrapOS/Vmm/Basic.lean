import ScrapOS.Paging.Basic

/-! The kernel address space of `core/mm/vmm.c`. The `cr3` load itself and the serial
messages are not part of the model. -/

set_option autoImplicit false

namespace ScrapOS.Vmm

/-- Memory, the globals of `pmm.c`, the `hhdm_offset` of `paging.c` and `kernel_pml4`. -/
structure State where
  mem : Memory
  pmm : Pmm.Globals
  hhdmOffset : Word
  kernelPml4 : Word

/-- The bounds of the kernel image that the linker provides. -/
structure KernelBounds where
  kernelStart : Word
  dataStart : Word
  kernelEnd : Word
deriving DecidableEq, Repr

/-- Limine's executable-address response. -/
structure ExecutableAddress where
  physicalBase : Word
  virtualBase : Word
deriving DecidableEq, Repr

def vmmMap (s : State) (virt phys flags : Word) : Bool × State :=
  match Paging.pagingMap s.mem s.pmm s.hhdmOffset s.kernelPml4 virt phys flags with
  | (done, mem, pmm) => (done, { s with mem, pmm })

def vmmUnmap (s : State) (virt : Word) : Bool × State :=
  match Paging.pagingUnmap s.mem s.pmm s.hhdmOffset s.kernelPml4 virt with
  | (done, mem, pmm) => (done, { s with mem, pmm })

def vmmTranslate (s : State) (virt : Word) : Option Word × State :=
  match Paging.pagingTranslate s.mem s.pmm s.hhdmOffset s.kernelPml4 virt with
  | (phys, mem, pmm) => (phys, { s with mem, pmm })

/-! ## The mapping loops -/

/-- `for (p = start; p < stop; p += PMM_FRAME_SIZE)` around a call that panics when it
fails; `none` when the loop is never left. -/
def mapPages (body : State → Word → Bool × State) (stop : Word) : Nat → State → Word → Option State
  | 0, _, _ => none
  | fuel + 1, s, p =>
      if p < stop then
        match body s p with
        | (true, s) => mapPages body stop fuel s (p + pmmFrameSize)
        | (false, _) => none
      else some s

/-- After so many rounds the loop variable is back where it started. -/
def loopFuel : Nat := 2 ^ 52

def mapHhdmRange (s : State) (base length hhdmOffset : Word) : Option State :=
  let start := base &&& ~~~(pmmFrameSize - 1)
  let stop := (base + length + pmmFrameSize - 1) &&& ~~~(pmmFrameSize - 1)
  mapPages (fun s p => vmmMap s (p + hhdmOffset) p Paging.vmWrite) stop loopFuel s start

def mapKernelRange (s : State) (virtStart virtEnd virtualBase physicalBase flags : Word) :
    Option State :=
  mapPages (fun s v => vmmMap s v ((v - virtualBase) + physicalBase) flags) virtEnd loopFuel s
    virtStart

/-! ## Init -/

/-- `vmm_init` up to the `cr3` load; `none` when `vmm_panic` parks the CPU before it. -/
def vmmInit (m : Memory) (pmm : Pmm.Globals) (kernel : KernelBounds) (kaddr : ExecutableAddress)
    (memmap : List MemmapEntry) (hhdmOffset rsp code : Word) : Option State :=
  match Pmm.pmmAllocFrame m pmm with
  | (kernelPml4, m, pmm) =>
      if kernelPml4 = 0 then none
      else do
        let m := memset m (kernelPml4 + hhdmOffset) 0 4096
        let s ← memmap.foldlM (fun s e => mapHhdmRange s e.base e.length hhdmOffset)
          { mem := m, pmm, hhdmOffset, kernelPml4 : State }
        let vbase := kaddr.virtualBase
        let pbase := kaddr.physicalBase
        let s ← mapKernelRange s kernel.kernelStart kernel.dataStart vbase pbase 0
        let s ← mapKernelRange s kernel.dataStart kernel.kernelEnd vbase pbase Paging.vmWrite
        if Paging.pagingCanSwitchTo s.mem s.pmm s.hhdmOffset s.kernelPml4 rsp code then some s else none

end ScrapOS.Vmm
