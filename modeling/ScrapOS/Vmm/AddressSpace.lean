import ScrapOS.Vmm.Init

/-! What the CPU finds behind the tables that `vmm_init` loads. -/

set_option autoImplicit false

namespace ScrapOS.Vmm

open Paging

/-- `v` is translated to `p`, and writes to it are allowed exactly under `writable`. -/
structure Serves (s : State) (v p : Word) (writable : Prop) : Prop where
  translated : vmmTranslate s v = (some p, s)
  leaf : cpuLeaf s.mem s.hhdmOffset s.kernelPml4 v &&& pteWrite ≠ 0 ↔ writable
  granted : cpuGrants s.mem s.hhdmOffset s.kernelPml4 v pteWrite = true ↔ writable

/-- An address whose upper bits repeat bit 47. -/
def Canonical (v : Word) : Prop := v.toNat < 2 ^ 47 ∨ 2 ^ 64 - 2 ^ 47 ≤ v.toNat

/-- The address space `vmm_init` promises. -/
structure Promised (kernel : KernelBounds) (kaddr : ExecutableAddress) (memmap : List MemmapEntry)
    (hhdm : Word) (s : State) : Prop where
  direct : ∀ e ∈ memmap, ∀ p : Word, e.base.toNat ≤ p.toNat →
    p.toNat < e.base.toNat + e.length.toNat → Serves s (p + hhdm) p True
  image : ∀ v ∈ kernel.image, Serves s v (kaddr.physOf v) (kernel.dataStart.toNat ≤ v.toNat)
  nothingElse : ∀ v phys, Canonical v → (vmmTranslate s v).1 = some phys →
    v ∈ hhdmImage memmap hhdm ∨ v ∈ kernel.image
  tables : ∃ root, s.kernelPml4 = frameAddress root ∧ ∀ frame ∈ tables hhdm root s.mem,
    ∀ offset : Word, offset.toNat < 4096 →
      Serves s (frameAddress frame + offset + hhdm) (frameAddress frame + offset) True
  bitmap : ∀ i : Word, i.toNat < s.pmm.bitmapBytes.toNat →
    Serves s (s.pmm.bitmap + i) (s.pmm.bitmap + i - hhdm) True

/-! ## Pages and addresses -/

section Pages

variable {v w : Word}

/-- The first address of the page of an address. -/
def pageBase (v : Word) : Word := v - v % 4096

theorem pageBase_toNat (v : Word) : (pageBase v).toNat = v.toNat / 4096 * 4096 := by
  have remainder : (v % 4096).toNat = v.toNat % 4096 := BitVec.toNat_umod
  rw [pageBase]
  generalize v % 4096 = offset at remainder
  bv_omega

theorem pageBase_add (v : Word) : pageBase v + v % 4096 = v := BitVec.sub_add_cancel v (v % 4096)

theorem pageOf_congr (same : v.toNat / 4096 = w.toNat / 4096) : pageOf v = pageOf w := by
  apply BitVec.eq_of_toNat_eq
  rw [pageOf, pageOf, BitVec.extractLsb'_toNat, BitVec.extractLsb'_toNat,
    Nat.shiftRight_eq_div_pow, Nat.shiftRight_eq_div_pow]
  omega

/-- A canonical address on a page of the upper half lies in that page. -/
theorem page_of_canonical (canonical : Canonical v) (upper : 2 ^ 64 - 2 ^ 47 ≤ w.toNat)
    (same : pageOf w = pageOf v) : v.toNat / 4096 = w.toNat / 4096 := by
  have pages := congrArg BitVec.toNat same
  rw [pageOf, pageOf, BitVec.extractLsb'_toNat, BitVec.extractLsb'_toNat,
    Nat.shiftRight_eq_div_pow, Nat.shiftRight_eq_div_pow] at pages
  have bound := v.isLt
  have otherBound := w.isLt
  cases canonical with
  | inl lower => omega
  | inr upperToo => omega

end Pages

section Built

variable {kernel : KernelBounds} {kaddr : ExecutableAddress} {memmap : List MemmapEntry}
  {hhdm : Word} {managed bitmapFrames free : Set Nat} {root : Nat} {s : State}
  {mapped : Page → Option Mapping} {plan requests : Set Request}

namespace Built

theorem framesAligned (isPlan : Plan plan)
    (built : Built hhdm managed bitmapFrames root plan free mapped s) : FramesAligned mapped := by
  intro page x found
  obtain ⟨r, member, rfl⟩ := built.lays.only page x found
  rw [built.lays.present r member, Option.some.injEq] at found
  rw [← found]
  exact isPlan.aligned r member

theorem serves (isPlan : Plan plan) (built : Built hhdm managed bitmapFrames root plan free mapped s)
    {r : Request} (member : r ∈ plan) {v : Word} (page : pageOf v = pageOf r.virt) :
    Serves s v (r.phys + v % 4096) (r.flags &&& vmWrite ≠ 0) := by
  have found : (s.space mapped).mapped (pageOf v) = some ⟨r.phys, r.flags⟩ := by
    rw [page]
    exact built.lays.present r member
  have translated := built.valid.translate_resolved (built.framesAligned isPlan) v
  obtain ⟨table, reached⟩ := built.valid.mapped_table found
  have leaf := built.valid.leaves v
  rw [found] at leaf
  have pml4 := built.valid.pml4
  have walk := Space.cpuWalk_eq reached
  rw [Config.resolved, found] at translated
  constructor
  · rw [vmmTranslate]
    change pagingTranslate s.mem s.pmm s.hhdmOffset s.kernelPml4 v = _ at translated
    rw [translated]
    rfl
  · have last : cpuLeaf s.mem s.hhdmOffset s.kernelPml4 v = leafEntry r.phys r.flags := by
      change s.kernelPml4 = _ at pml4
      rw [cpuLeaf, pml4]
      change cpuWalk s.mem s.hhdmOffset (frameAddress root) v = _ at walk
      rw [walk]
      exact leaf
    rw [last]
    exact (leafEntry_bits r.phys r.flags).2.1
  · exact (built.permits.enforced built.valid v _ found).2

theorem direct (layout : Layout kernel kaddr memmap hhdm)
    (built : Built hhdm managed bitmapFrames root (initPlan kernel kaddr memmap hhdm) free mapped s)
    {e : MemmapEntry} (member : e ∈ memmap) {p : Word} (from_base : e.base.toNat ≤ p.toNat)
    (below : p.toNat < e.base.toNat + e.length.toNat) : Serves s (p + hhdm) p True := by
  have physical := layout.physical e member
  have hhdmAligned := layout.hhdmAligned
  have base := pageBase_toNat p
  have inside : pageBase p ∈ pagesBetween (entryStart e) (entryStop e) := by
    rw [entry_pages physical, MemmapEntry.rounded, Set.mem_ofPred_eq, base]
    omega
  have requested : hhdmRequest hhdm (pageBase p) ∈ initPlan kernel kaddr memmap hhdm :=
    mem_initPlan.mpr (.inl ⟨e, member, _, inside, rfl⟩)
  have page : pageOf (p + hhdm) = pageOf (hhdmRequest hhdm (pageBase p)).virt := by
    apply pageOf_congr
    rw [hhdmRequest, BitVec.toNat_add, BitVec.toNat_add, base]
    omega
  have offset : (p + hhdm) % 4096 = p % 4096 := by
    apply BitVec.eq_of_toNat_eq
    rw [BitVec.toNat_umod, BitVec.toNat_umod, BitVec.toNat_add]
    change (p.toNat + hhdm.toNat) % 2 ^ 64 % 4096 = p.toNat % 4096
    omega
  have served := built.serves layout.plan requested page
  have writes : (hhdmRequest hhdm (pageBase p)).flags &&& vmWrite ≠ 0 ↔ True :=
    iff_true_intro (by decide : vmWrite &&& vmWrite ≠ 0)
  have phys : (hhdmRequest hhdm (pageBase p)).phys + (p + hhdm) % 4096 = p := by
    rw [offset]
    exact pageBase_add p
  rwa [phys, propext writes] at served

theorem image (layout : Layout kernel kaddr memmap hhdm)
    (built : Built hhdm managed bitmapFrames root (initPlan kernel kaddr memmap hhdm) free mapped s)
    {v : Word} (inside : v ∈ kernel.image) :
    Serves s v (kaddr.physOf v) (kernel.dataStart.toNat ≤ v.toNat) := by
  have base := pageBase_toNat v
  have startAligned := layout.startAligned
  have dataAligned := layout.dataAligned
  have endAligned := layout.endAligned
  have phys : kaddr.physOf (pageBase v) + v % 4096 = kaddr.physOf v := by
    rw [ExecutableAddress.physOf, ExecutableAddress.physOf]
    have whole := pageBase_add v
    generalize pageBase v = first at whole
    generalize v % 4096 = offset at whole
    bv_omega
  have page : pageOf v = pageOf (pageBase v) := by
    apply pageOf_congr
    rw [base]
    omega
  obtain ⟨from_start, below_end⟩ := inside
  cases Nat.lt_or_ge v.toNat kernel.dataStart.toNat with
  | inl readOnly =>
      have visited : pageBase v ∈ pagesBetween kernel.kernelStart kernel.dataStart := by
        rw [pagesBetween, Set.mem_ofPred_eq, base]
        omega
      have served := built.serves layout.plan
        (mem_initPlan.mpr (.inr (.inl ⟨_, visited, rfl⟩))) page
      have writes : (0 : Word) &&& vmWrite ≠ 0 ↔ kernel.dataStart.toNat ≤ v.toNat :=
        iff_of_false (by decide) (by omega)
      rwa [kernelRequest, phys, propext writes] at served
  | inr writable =>
      have visited : pageBase v ∈ pagesBetween kernel.dataStart kernel.kernelEnd := by
        rw [pagesBetween, Set.mem_ofPred_eq, base]
        omega
      have served := built.serves layout.plan
        (mem_initPlan.mpr (.inr (.inr ⟨_, visited, rfl⟩))) page
      have writes : vmWrite &&& vmWrite ≠ 0 ↔ kernel.dataStart.toNat ≤ v.toNat :=
        iff_of_true (by decide) writable
      rwa [kernelRequest, phys, propext writes] at served

theorem nothingElse (layout : Layout kernel kaddr memmap hhdm)
    (built : Built hhdm managed bitmapFrames root (initPlan kernel kaddr memmap hhdm) free mapped s)
    {v phys : Word} (canonical : Canonical v) (found : (vmmTranslate s v).1 = some phys) :
    v ∈ hhdmImage memmap hhdm ∨ v ∈ kernel.image := by
  have translated := built.valid.translate_resolved (built.framesAligned layout.plan) v
  change pagingTranslate s.mem s.pmm s.hhdmOffset s.kernelPml4 v = _ at translated
  rw [vmmTranslate, translated] at found
  obtain ⟨x, mapping, -⟩ := Option.map_eq_some_iff.mp found
  obtain ⟨r, member, page⟩ := built.lays.only _ x mapping
  obtain ⟨aligned, place⟩ := layout.virt_cases member
  have upper := layout.upper r.virt (place.imp And.left And.left)
  have samePage := page_of_canonical canonical upper page
  have hhdmAligned := layout.hhdmAligned
  rcases place with ⟨⟨e, entry, from_start, below⟩, -⟩ | ⟨⟨from_start, below⟩, -⟩
  · left
    refine ⟨e, entry, ?_, ?_⟩
    · bv_omega
    · bv_omega
  · right
    have startAligned := layout.startAligned
    have endAligned := layout.endAligned
    refine ⟨?_, ?_⟩
    · omega
    · omega

end Built

theorem usable_entry (memmapValid : MemmapValid memmap) {frame : Nat}
    (usable : frame ∈ usableFrames memmap) :
    ∃ e ∈ memmap, e.base.toNat ≤ frame * 4096 ∧
      frame * 4096 + 4096 ≤ e.base.toNat + e.length.toNat := by
  obtain ⟨e, member, isUsable, from_start, below⟩ := usable
  obtain ⟨baseAligned, lengthAligned⟩ := memmapValid.aligned e member isUsable
  exact ⟨e, member, by omega, by omega⟩

theorem Layout.suitable (layout : Layout kernel kaddr memmap hhdm) (memmapValid : MemmapValid memmap) :
    Suitable hhdm (usableFrames memmap) := by
  refine ⟨⟨memmapValid.zero, ?_⟩, ?_⟩
  · intro frame usable null
    obtain ⟨e, member, from_base, below⟩ := usable_entry memmapValid usable
    have physical := layout.physical e member
    have inside : frameAddress frame ∈ e.rounded := by
      rw [MemmapEntry.rounded, Set.mem_ofPred_eq, frameAddress_toNat (by omega)]
      omega
    have upper := layout.upper _ (.inl (Layout.entry_image member inside))
    change frameAddress frame + hhdm = 0 at null
    rw [null] at upper
    exact absurd upper (by decide)
  · intro frame usable
    obtain ⟨e, member, from_base, below⟩ := usable_entry memmapValid usable
    have physical := layout.physical e member
    omega

end Built

/-- On the memory map of the frame allocator, the tables that `vmm_init` loads map what
it promises. -/
theorem vmm_init_promised {kernel : KernelBounds} {kaddr : ExecutableAddress}
    {memmap : List MemmapEntry} {hhdm rsp code : Word} {m m' : Memory} {pmm : Pmm.Globals} {s : State}
    (memmapValid : MemmapValid memmap) (layout : Layout kernel kaddr memmap hhdm)
    (booted : Pmm.pmmInit m memmap hhdm = some (m', pmm))
    (done : vmmInit m' pmm kernel kaddr memmap hhdm rsp code = some s) :
    Promised kernel kaddr memmap hhdm s := by
  have start := Pmm.pmmInit_booted memmapValid booted
  have suitable := layout.suitable memmapValid
  obtain ⟨root, free, mapped, built⟩ := vmmInit_built layout start.tracks
    (suitable.mono Set.sdiff_subset) done
  have usable_served : ∀ frame ∈ usableFrames memmap, ∀ p : Word, p.toNat / 4096 = frame →
      Serves s (p + hhdm) p True := by
    intro frame usable p here
    obtain ⟨e, member, from_base, below⟩ := usable_entry memmapValid usable
    exact built.direct layout member (by omega) (by omega)
  refine ⟨fun e member p => built.direct layout member, fun v => built.image layout,
    fun v phys canonical => built.nothingElse layout canonical, ⟨root, built.valid.pml4, ?_⟩, ?_⟩
  · intro frame isTable offset inside
    have usable : frame ∈ usableFrames memmap := (built.tables isTable).1
    have bounded := suitable.physical frame usable
    have address := frameAddress_toNat (show frame < 2 ^ 52 by omega)
    exact usable_served frame usable _ (by bv_omega)
  · intro i inside
    have total := built.valid.space.tracks.total
    have bytes := built.valid.space.tracks.bytes
    change s.pmm.totalFrames.toNat < 2 ^ 52 at total
    change s.pmm.bitmapBytes.toNat = (s.pmm.totalFrames.toNat + 7) / 8 at bytes
    have eight : (8 * i).toNat = 8 * i.toNat := by bv_omega
    have index : 8 * i / 8 = i := by
      apply BitVec.eq_of_toNat_eq
      rw [BitVec.toNat_udiv, eight]
      exact Nat.mul_div_cancel_left _ (by decide)
    have within : (8 * i).toNat < 8 * s.pmm.bitmapBytes.toNat := by omega
    have stored := built.valid.space.tracks.stored (8 * i) within
    rw [index] at stored
    have offset : (s.space mapped).hhdmOffset = hhdm := built.offset
    rw [offset] at stored
    have served := usable_served _ (start.inside stored) (s.pmm.bitmap + i - hhdm) rfl
    rwa [BitVec.sub_add_cancel] at served

/-! ## Reaching the end -/

section Reach

variable {hhdm : Word} {managed bitmapFrames : Set Nat} {root : Nat} {plan requests : Set Request}
  {path : List Index} {spare : Nat} {s : State}

/-- The page table of `path` exists, or there are frames enough to build it; `spare` frames more
are free. -/
def Ready (hhdm : Word) (root : Nat) (path : List Index) (spare : Nat) (s : State) : Prop :=
  (∃ table, tableOf hhdm root s.mem path = some table) ∧ spare ≤ s.pmm.freeFrames.toNat ∨
    spare + 3 ≤ s.pmm.freeFrames.toNat

theorem vmmMap_reaches (built : Builds hhdm managed bitmapFrames root requests s) {r : Request}
    (onPath : tablePath r.virt = path) (ready : Ready hhdm root path spare s) :
    ∃ s', vmmMap s r.virt r.phys r.flags = (true, s') ∧ Ready hhdm root path spare s' := by
  obtain ⟨free, mapped, built⟩ := built
  have offset : s.hhdmOffset = hhdm := built.offset
  obtain ⟨free', -, -, outcome⟩ := built.valid.map r.virt r.phys r.flags
  have supplied : spare + missing (entries s.hhdmOffset root s.mem) (tablePath r.virt) ≤
      free.ncard := by
    have counted : s.pmm.freeFrames.toNat = free.ncard := built.valid.space.tracks.counted
    cases ready with
    | inl there =>
        obtain ⟨⟨table, reached⟩, enough⟩ := there
        rw [offset, onPath, missing_of_reached reached]
        omega
    | inr enough =>
        have most := missing_le (entries s.hhdmOffset root s.mem) (tablePath r.virt)
        rw [tablePath_length] at most
        omega
  rcases outcome with ⟨-, lacking⟩ | ⟨updated, -, table, reached⟩
  · exact absurd ((Nat.le_add_left ..).trans supplied) (Nat.not_le.mpr lacking)
  · have walked := built.valid.space.pagingMap_mapped r.virt r.phys r.flags
    have pml4 : s.kernelPml4 = frameAddress root := built.valid.pml4
    change Space.Mapped s.hhdmOffset root bitmapFrames free s.mem s.pmm r.virt r.phys r.flags
      (pagingMap s.mem s.pmm s.hhdmOffset (frameAddress root) r.virt r.phys r.flags) at walked
    rw [vmmMap, pml4]
    rw [Config.map, State.space] at reached
    dsimp only at reached
    rw [pml4, offset, onPath] at reached
    rw [offset] at walked ⊢
    generalize pagingMap s.mem s.pmm hhdm (frameAddress root) r.virt r.phys r.flags = result
      at walked reached
    cases walked with
    | exhausted _ lacking =>
        rw [offset] at supplied
        omega
    | installed grown _ found space =>
        have balance := grown.supplied
        have counted := space.tracks.counted
        rw [missing_of_reached found] at balance
        rw [offset] at supplied
        exact ⟨_, rfl, .inl ⟨⟨table, reached⟩, by dsimp only; omega⟩⟩

/-- A loop whose pages share one page table runs to its end. -/
theorem mapPages_reaches (isPlan : Plan plan) (inPlan : requests ⊆ plan) {request : Word → Request}
    {body : State → Word → Bool × State}
    (body_eq : ∀ s p, body s p = vmmMap s (request p).virt (request p).phys (request p).flags)
    {stop : Word} (stopAligned : stop.toNat % 4096 = 0) {fuel : Nat} {p : Word}
    (aligned : p.toNat % 4096 = 0) (rounds : 0 < fuel) (enough : stop.toNat < p.toNat + 4096 * fuel)
    (planned : request '' pagesBetween p stop ⊆ plan)
    (onPath : ∀ q ∈ pagesBetween p stop, tablePath (request q).virt = path)
    (built : Builds hhdm managed bitmapFrames root requests s) (ready : Ready hhdm root path spare s) :
    ∃ s', mapPages body stop fuel s p = some s' ∧ Ready hhdm root path spare s' := by
  induction fuel generalizing s p requests with
  | zero => exact absurd rounds (Nat.lt_irrefl 0)
  | succ fuel ih =>
      rw [mapPages]
      split
      · next before =>
        obtain ⟨nextAligned, visited⟩ := pagesBetween_next aligned stopAligned before
        rw [visited] at planned onPath
        rw [Set.image_insert_eq] at planned
        have member : request p ∈ plan := planned (.inl rfl)
        have next : (p + pmmFrameSize).toNat = p.toNat + 4096 := by bv_omega
        have limit : p.toNat < stop.toNat := before
        obtain ⟨mid, mapped, ready'⟩ := vmmMap_reaches built (onPath p (.inl rfl)) ready
        have built' := vmmMap_built isPlan inPlan member built mapped
        obtain ⟨s', finished, ready''⟩ := ih (Set.insert_subset member inPlan) nextAligned (by omega)
          (by omega) ((Set.subset_insert _ _).trans planned) (fun q later => onPath q (.inr later)) built' ready'
        rw [body_eq, mapped]
        exact ⟨s', finished, ready''⟩
      · exact ⟨s, rfl, ready⟩

theorem mapEntries_reaches (isPlan : Plan plan) (inPlan : requests ⊆ plan) {entries : List MemmapEntry}
    (physical : ∀ e ∈ entries, e.base.toNat + e.length.toNat ≤ 2 ^ 47)
    (planned : hhdmRequests hhdm entries ⊆ plan) (onPath : ∀ r ∈ plan, tablePath r.virt = path)
    (built : Builds hhdm managed bitmapFrames root requests s) (ready : Ready hhdm root path spare s) :
    ∃ s', entries.foldlM (fun s e => mapHhdmRange s e.base e.length hhdm) s = some s' ∧
      Ready hhdm root path spare s' := by
  induction entries generalizing s requests with
  | nil => exact ⟨s, rfl, ready⟩
  | cons e rest ih =>
      have here : entryRequests hhdm e ⊆ plan :=
        fun r inside => planned ⟨e, List.mem_cons_self, inside⟩
      have later : hhdmRequests hhdm rest ⊆ plan := by
        rintro r ⟨other, member, inside⟩
        exact planned ⟨other, List.mem_cons_of_mem e member, inside⟩
      have bounded := physical e List.mem_cons_self
      obtain ⟨startAligned, stopAligned⟩ := entry_aligned bounded
      have body_eq : ∀ (s : State) (p : Word), vmmMap s (p + hhdm) p vmWrite =
          vmmMap s (hhdmRequest hhdm p).virt (hhdmRequest hhdm p).phys (hhdmRequest hhdm p).flags :=
        fun _ _ => rfl
      obtain ⟨mid, first, ready'⟩ : ∃ mid, mapHhdmRange s e.base e.length hhdm = some mid ∧
          Ready hhdm root path spare mid :=
        mapPages_reaches isPlan inPlan body_eq stopAligned startAligned loopFuel_pos
          (loopFuel_covers _ _) here (fun q visited => onPath _ (here ⟨q, visited, rfl⟩)) built ready
      have built' := mapHhdmRange_built isPlan inPlan bounded here built first
      obtain ⟨s', finished, ready''⟩ := ih (Set.union_subset inPlan here)
        (fun other member => physical other (List.mem_cons_of_mem e member)) later built' ready'
      rw [List.foldlM_cons, first]
      exact ⟨s', finished, ready''⟩

theorem mapKernelRange_reaches (isPlan : Plan plan) (inPlan : requests ⊆ plan)
    {start stop flags : Word} {kaddr : ExecutableAddress} (aligned : start.toNat % 4096 = 0)
    (stopAligned : stop.toNat % 4096 = 0)
    (planned : kernelRequest kaddr flags '' pagesBetween start stop ⊆ plan)
    (onPath : ∀ r ∈ plan, tablePath r.virt = path)
    (built : Builds hhdm managed bitmapFrames root requests s) (ready : Ready hhdm root path spare s) :
    ∃ s', mapKernelRange s start stop kaddr.virtualBase kaddr.physicalBase flags = some s' ∧
      Ready hhdm root path spare s' := by
  have body_eq : ∀ (s : State) (v : Word),
      vmmMap s v ((v - kaddr.virtualBase) + kaddr.physicalBase) flags =
        vmmMap s (kernelRequest kaddr flags v).virt (kernelRequest kaddr flags v).phys
          (kernelRequest kaddr flags v).flags := fun _ _ => rfl
  exact mapPages_reaches isPlan inPlan body_eq stopAligned aligned loopFuel_pos (loopFuel_covers _ _)
    planned (fun q visited => onPath _ (planned ⟨q, visited, rfl⟩)) built ready

/-- Where one page table is enough, `vmm_init` needs four frames to reach the `cr3` load. -/
theorem vmmInit_reaches {m : Memory} {pmm : Pmm.Globals} {free : Set Nat} {kernel : KernelBounds}
    {kaddr : ExecutableAddress} {memmap : List MemmapEntry} {rsp code : Word}
    (layout : Layout kernel kaddr memmap hhdm) (tracks : Pmm.Tracks hhdm bitmapFrames free m pmm)
    (supply : Suitable hhdm free) (enough : spare + 4 ≤ pmm.freeFrames.toNat)
    (onPath : ∀ r ∈ initPlan kernel kaddr memmap hhdm, tablePath r.virt = path)
    (stack : ∃ r ∈ initPlan kernel kaddr memmap hhdm, pageOf rsp = pageOf r.virt)
    (text : ∃ r ∈ initPlan kernel kaddr memmap hhdm, pageOf code = pageOf r.virt) :
    ∃ s, vmmInit m pmm kernel kaddr memmap hhdm rsp code = some s ∧
      spare ≤ s.pmm.freeFrames.toNat := by
  have outcome := tracks.allocFrame
  rw [vmmInit]
  generalize Pmm.pmmAllocFrame m pmm = result at outcome
  cases outcome with
  | refused none =>
      have counted := tracks.counted
      rw [none, Set.ncard_empty] at counted
      omega
  | @served root mid pmm' available tracks' changed total =>
      have isPlan := layout.plan
      have hhdmPlanned : hhdmRequests hhdm memmap ⊆ initPlan kernel kaddr memmap hhdm :=
        Set.subset_union_left
      have kernelPlanned : kernelRequests kernel kaddr ⊆ initPlan kernel kaddr memmap hhdm :=
        Set.subset_union_right
      rw [kernelRequests, Set.union_subset_iff] at kernelPlanned
      obtain ⟨readOnlyPlanned, writablePlanned⟩ := kernelPlanned
      have bounded := supply.physical root available
      have nonzero : root ≠ 0 := fun zero => tracks.zero (zero ▸ available)
      have removed := Set.ncard_sdiff_singleton_of_mem available
      have counted := tracks.counted
      have counted' := tracks'.counted
      have blank := blank_built available supply tracks.apart tracks'
      have ready : Ready hhdm root path spare
          ⟨memset mid (tableAt hhdm (frameAddress root)) 0 4096, pmm', hhdm, frameAddress root⟩ :=
        .inr (show spare + 3 ≤ pmm'.freeFrames.toNat by omega)
      obtain ⟨direct, directDone, directReady⟩ := mapEntries_reaches isPlan (Set.empty_subset _)
        layout.physical hhdmPlanned onPath blank ready
      have directBuilt := mapEntries_built isPlan (Set.empty_subset _) layout.physical hhdmPlanned
        blank directDone
      rw [Set.empty_union] at directBuilt
      obtain ⟨readOnly, readOnlyDone, readOnlyReady⟩ := mapKernelRange_reaches isPlan hhdmPlanned
        layout.startAligned layout.dataAligned readOnlyPlanned onPath directBuilt directReady
      have readOnlyBuilt := mapKernelRange_built isPlan hhdmPlanned layout.startAligned
        layout.dataAligned readOnlyPlanned directBuilt readOnlyDone
      obtain ⟨writable, writableDone, writableReady⟩ := mapKernelRange_reaches isPlan
        (Set.union_subset hhdmPlanned readOnlyPlanned) layout.dataAligned layout.endAligned
        writablePlanned onPath readOnlyBuilt readOnlyReady
      obtain ⟨free', mapped, built⟩ := mapKernelRange_built isPlan
        (Set.union_subset hhdmPlanned readOnlyPlanned) layout.dataAligned layout.endAligned
        writablePlanned readOnlyBuilt writableDone
      rw [Set.union_assoc] at built
      have resolves : ∀ v, (∃ r ∈ initPlan kernel kaddr memmap hhdm, pageOf v = pageOf r.virt) →
          (pagingTranslate writable.mem writable.pmm writable.hhdmOffset writable.kernelPml4 v).1.isSome =
            true := by
        rintro v ⟨r, member, page⟩
        have served := congrArg Prod.fst (built.serves isPlan member page).translated
        rw [vmmTranslate] at served
        dsimp only at served
        rw [served]
        rfl
      have table : frameAddress root + hhdm = tableAt hhdm (frameAddress root) := rfl
      refine ⟨writable, ?_, writableReady.elim And.right (Nat.le_trans (Nat.le_add_right ..))⟩
      dsimp only
      rw [if_neg (frameAddress_ne_zero (by omega) nonzero), table, directDone]
      simp only [Option.bind_eq_bind, Option.bind_some, readOnlyDone, writableDone]
      rw [pagingCanSwitchTo, resolves rsp stack, resolves code text]
      rfl

end Reach

/-! ## A small machine -/

/-- A kernel of one read-only and one writable page, next to the direct map. -/
def smallKernel : KernelBounds :=
  ⟨0xffff800000100000, 0xffff800000101000, 0xffff800000102000⟩

def smallAddress : ExecutableAddress where
  physicalBase := 0x11000
  virtualBase := 0xffff800000100000

theorem smallMap_image {v : Word} (inside : v ∈ hhdmImage Pmm.smallMap Pmm.smallHhdm) :
    0xffff800000001000 ≤ v.toNat ∧ v.toNat < 0xffff800000013000 := by
  obtain ⟨e, member, from_start, below⟩ := inside
  have shifted : 0x1000 ≤ (v - Pmm.smallHhdm).toNat ∧ (v - Pmm.smallHhdm).toNat < 0x13000 := by
    simp only [Pmm.smallMap, List.mem_cons, List.not_mem_nil, or_false] at member
    rcases member with rfl | rfl
    · change 0x1000 ≤ (v - Pmm.smallHhdm).toNat at from_start
      change (v - Pmm.smallHhdm).toNat < 0x11000 at below
      omega
    · change 0x11000 ≤ (v - Pmm.smallHhdm).toNat at from_start
      change (v - Pmm.smallHhdm).toNat < 0x13000 at below
      omega
  unfold Pmm.smallHhdm at shifted
  bv_omega

theorem smallLayout : Layout smallKernel smallAddress Pmm.smallMap Pmm.smallHhdm := by
  have image : ∀ v ∈ smallKernel.image, 0xffff800000100000 ≤ v.toNat ∧ v.toNat < 0xffff800000102000 :=
    fun v inside => inside
  refine ⟨by decide, by decide, by decide, by decide, by decide, by decide, by decide, by decide,
    by decide, ?_, ?_, ?_⟩
  · intro v inside
    have range := image v inside
    rw [ExecutableAddress.physOf, smallAddress]
    dsimp only
    bv_omega
  · rintro v (inside | inside)
    · have range := smallMap_image inside
      omega
    · have range := image v inside
      omega
  · rw [Set.disjoint_left]
    intro v inDirect inImage
    have directRange := smallMap_image inDirect
    have imageRange := image v inImage
    omega

theorem smallPlan_path {r : Request}
    (member : r ∈ initPlan smallKernel smallAddress Pmm.smallMap Pmm.smallHhdm) :
    tablePath r.virt = tablePath Pmm.smallHhdm := by
  have range : 0xffff800000000000 ≤ r.virt.toNat ∧ r.virt.toNat < 0xffff800000200000 := by
    rcases (smallLayout.virt_cases member).2 with ⟨direct, -⟩ | ⟨image, -⟩
    · have bounds := smallMap_image direct
      omega
    · have bounds : 0xffff800000100000 ≤ r.virt.toNat ∧ r.virt.toNat < 0xffff800000102000 := image
      omega
  have root : Pmm.smallHhdm.toNat = 0xffff800000000000 := rfl
  simp only [tablePath, pml4Of, pdptOf, pdOf, List.cons.injEq, and_true, ← BitVec.toNat_inj,
    BitVec.extractLsb'_toNat, Nat.shiftRight_eq_div_pow]
  omega

/-- One page table is enough for the small machine, and a frame is left. -/
theorem smallBoot_spares :
    ∃ s, vmmInit Pmm.smallBoot.1 Pmm.smallBoot.2 smallKernel smallAddress Pmm.smallMap Pmm.smallHhdm
        0xffff800000002ff8 0xffff800000100123 = some s ∧ 1 ≤ s.pmm.freeFrames.toNat := by
  have booted := Pmm.pmmInit_booted Pmm.smallMap_valid Pmm.smallBoot_done
  have supply := (smallLayout.suitable Pmm.smallMap_valid).mono
    (Set.sdiff_subset : usableFrames Pmm.smallMap \ Pmm.smallBoot.2.bitmapFrames Pmm.smallHhdm ⊆ _)
  have stackPage : (0x2000 : Word) ∈ pagesBetween (entryStart ⟨0x1000, 0x10000, limineMemmapUsable⟩)
      (entryStop ⟨0x1000, 0x10000, limineMemmapUsable⟩) := by
    refine ⟨?_, ?_, ?_⟩ <;> decide
  have textPage : (0xffff800000100000 : Word) ∈
      pagesBetween smallKernel.kernelStart smallKernel.dataStart := by
    refine ⟨?_, ?_, ?_⟩ <;> decide
  have stack : (0xffff800000002ff8 : Word).toNat / 4096 = (0xffff800000002000 : Word).toNat / 4096 := rfl
  have text : (0xffff800000100123 : Word).toNat / 4096 = (0xffff800000100000 : Word).toNat / 4096 := rfl
  exact vmmInit_reaches
    smallLayout booted.tracks supply (by decide +kernel) (fun r => smallPlan_path)
    ⟨_, mem_initPlan.mpr (.inl ⟨_, List.mem_cons_self, _, stackPage, rfl⟩), pageOf_congr stack⟩
    ⟨_, mem_initPlan.mpr (.inr (.inl ⟨_, textPage, rfl⟩)), pageOf_congr text⟩

theorem smallBoot_reaches :
    ∃ s, vmmInit Pmm.smallBoot.1 Pmm.smallBoot.2 smallKernel smallAddress Pmm.smallMap Pmm.smallHhdm
      0xffff800000002ff8 0xffff800000100123 = some s := by
  obtain ⟨s, done, -⟩ := smallBoot_spares
  exact ⟨s, done⟩

theorem vmm_init_promised_smallMap :
    ∃ s, vmmInit Pmm.smallBoot.1 Pmm.smallBoot.2 smallKernel smallAddress Pmm.smallMap Pmm.smallHhdm
        0xffff800000002ff8 0xffff800000100123 = some s ∧
      Promised smallKernel smallAddress Pmm.smallMap Pmm.smallHhdm s := by
  obtain ⟨s, done⟩ := smallBoot_reaches
  exact ⟨s, done, vmm_init_promised Pmm.smallMap_valid smallLayout Pmm.smallBoot_done done⟩

end ScrapOS.Vmm
