import ScrapOS.Vmm.Basic
import ScrapOS.Paging.Permissions

/-! The mapping loops of `vmm.c` as a set of requests that grows page by page. Requests
may name a page twice as long as they agree on it. -/

set_option autoImplicit false

namespace ScrapOS.Vmm

open Paging

/-- A page to be mapped. -/
structure Request where
  virt : Word
  phys : Word
  flags : Word
deriving DecidableEq, Repr

/-- Requests that `vmm_init` can carry out in any order: they agree on shared pages, name
whole frames, and ask for no user page. -/
structure Plan (plan : Set Request) : Prop where
  coherent : ∀ r ∈ plan, ∀ other ∈ plan, pageOf r.virt = pageOf other.virt → r = other
  aligned : ∀ r ∈ plan, r.phys.toNat % 4096 = 0 ∧ r.phys.toNat < 2 ^ 52
  supervisor : ∀ r ∈ plan, r.flags &&& vmUser = 0

/-- The abstract map holds the requests and nothing else. -/
structure Lays (requests : Set Request) (mapped : Page → Option Mapping) : Prop where
  present : ∀ r ∈ requests, mapped (pageOf r.virt) = some ⟨r.phys, r.flags⟩
  only : ∀ page x, mapped page = some x → ∃ r ∈ requests, pageOf r.virt = page

theorem Lays.insert {plan requests : Set Request} {mapped : Page → Option Mapping} {r : Request}
    (isPlan : Plan plan) (inPlan : requests ⊆ plan) (lays : Lays requests mapped) (member : r ∈ plan) :
    Lays (insert r requests) (Function.update mapped (pageOf r.virt) (some ⟨r.phys, r.flags⟩)) where
  present := by
    intro other inside
    cases inside with
    | inl same => rw [same, Function.update_self]
    | inr before =>
        by_cases samePage : pageOf other.virt = pageOf r.virt
        · rw [isPlan.coherent other (inPlan before) r member samePage, Function.update_self]
        · rw [Function.update_of_ne samePage]
          exact lays.present other before
  only := by
    intro page x found
    by_cases samePage : page = pageOf r.virt
    · exact ⟨r, .inl rfl, samePage.symm⟩
    · rw [Function.update_of_ne samePage] at found
      obtain ⟨other, before, here⟩ := lays.only page x found
      exact ⟨other, .inr before, here⟩

/-- The address space of a state, with the abstract map of its pages. -/
def State.space (s : State) (mapped : Page → Option Mapping) : Config where
  mem := s.mem
  pmm := s.pmm
  hhdmOffset := s.hhdmOffset
  pml4Phys := s.kernelPml4
  owned := []
  mapped

/-- The kernel space while it is built: it maps the requests made so far, and its tables
are frames of `managed`. -/
structure Built (hhdm : Word) (managed bitmapFrames : Set Nat) (root : Nat) (requests : Set Request)
    (free : Set Nat) (mapped : Page → Option Mapping) (s : State) : Prop where
  valid : Valid bitmapFrames free root (s.space mapped)
  permits : Permits root (s.space mapped)
  offset : s.hhdmOffset = hhdm
  tables : tables hhdm root s.mem ⊆ managed
  supply : free ⊆ managed
  lays : Lays requests mapped

section Build

variable {hhdm : Word} {managed bitmapFrames : Set Nat} {root : Nat} {plan requests : Set Request}
  {s s' : State}

/-- Some free frames and some abstract map make the state a built one. -/
abbrev Builds (hhdm : Word) (managed bitmapFrames : Set Nat) (root : Nat) (requests : Set Request)
    (s : State) : Prop :=
  ∃ free mapped, Built hhdm managed bitmapFrames root requests free mapped s

theorem vmmMap_built (isPlan : Plan plan) (inPlan : requests ⊆ plan) {r : Request} (member : r ∈ plan)
    (built : Builds hhdm managed bitmapFrames root requests s)
    (done : vmmMap s r.virt r.phys r.flags = (true, s')) :
    Builds hhdm managed bitmapFrames root (insert r requests) s' := by
  obtain ⟨free, mapped, built⟩ := built
  have supervisor := isPlan.supervisor r member
  have ready : UserTablesReady (s.space mapped) r.virt r.phys r.flags :=
    fun isUser => absurd supervisor isUser
  obtain ⟨free', valid', consumed, grown⟩ := built.valid.map_ledger r.virt r.phys r.flags
  have permits' := built.permits.map built.valid ready
  have step : (s.space mapped).map r.virt r.phys r.flags =
      s'.space (Function.update mapped (pageOf r.virt) (some ⟨r.phys, r.flags⟩)) ∧
        s'.hhdmOffset = s.hhdmOffset := by
    rw [vmmMap] at done
    rw [Config.map, State.space, State.space]
    dsimp only at done ⊢
    generalize pagingMap s.mem s.pmm s.hhdmOffset s.kernelPml4 r.virt r.phys r.flags = result at done
    obtain ⟨flag, mem, pmm⟩ := result
    cases done
    exact ⟨rfl, rfl⟩
  rw [step.1] at valid' permits' grown
  have offset : s'.hhdmOffset = hhdm := step.2.trans built.offset
  refine ⟨free', _, valid', permits', offset, ?_, consumed.trans built.supply,
    built.lays.insert isPlan inPlan member⟩
  have tables' : tables s.hhdmOffset root s'.mem = tables s.hhdmOffset root s.mem ∪ (free \ free') :=
    grown
  rw [built.offset] at tables'
  rw [tables']
  exact Set.union_subset built.tables (Set.sdiff_subset.trans built.supply)

/-! ## The loops -/

/-- The pages a loop from `start` to `stop` visits. -/
def pagesBetween (start stop : Word) : Set Word :=
  {p | p.toNat % 4096 = 0 ∧ start.toNat ≤ p.toNat ∧ p.toNat < stop.toNat}

theorem pagesBetween_next {p stop : Word} (aligned : p.toNat % 4096 = 0)
    (stopAligned : stop.toNat % 4096 = 0) (before : p < stop) :
    (p + pmmFrameSize).toNat % 4096 = 0 ∧
      pagesBetween p stop = insert p (pagesBetween (p + pmmFrameSize) stop) := by
  have next : (p + pmmFrameSize).toNat = p.toNat + 4096 := by bv_omega
  refine ⟨by omega, ?_⟩
  ext q
  simp only [pagesBetween, Set.mem_ofPred_eq, Set.mem_insert_iff, next, ← BitVec.toNat_inj]
  have limit : p.toNat < stop.toNat := before
  omega

theorem pagesBetween_done {p stop : Word} (past : ¬ p < stop) : pagesBetween p stop = ∅ := by
  have limit : ¬ p.toNat < stop.toNat := past
  rw [Set.eq_empty_iff_forall_notMem]
  intro q inside
  have range := inside.2
  omega

/-- A loop that is left has mapped the request of every page it visits. -/
theorem mapPages_built (isPlan : Plan plan) (inPlan : requests ⊆ plan) {request : Word → Request}
    {body : State → Word → Bool × State}
    (body_eq : ∀ s p, body s p = vmmMap s (request p).virt (request p).phys (request p).flags)
    {stop : Word} (stopAligned : stop.toNat % 4096 = 0) {fuel : Nat} {p : Word}
    (aligned : p.toNat % 4096 = 0) (planned : request '' pagesBetween p stop ⊆ plan)
    (built : Builds hhdm managed bitmapFrames root requests s)
    (done : mapPages body stop fuel s p = some s') :
    Builds hhdm managed bitmapFrames root (requests ∪ request '' pagesBetween p stop) s' := by
  induction fuel generalizing s p requests with
  | zero => cases done
  | succ fuel ih =>
      rw [mapPages] at done
      split at done
      · next before =>
        obtain ⟨nextAligned, visited⟩ := pagesBetween_next aligned stopAligned before
        rw [visited, Set.image_insert_eq] at planned ⊢
        have member : request p ∈ plan := planned (.inl rfl)
        rw [body_eq] at done
        split at done
        · next mid mapped =>
          have built' := vmmMap_built isPlan inPlan member built mapped
          have inPlan' : insert (request p) requests ⊆ plan := Set.insert_subset member inPlan
          have finished := ih inPlan' nextAligned ((Set.subset_insert _ _).trans planned) built' done
          rwa [Set.insert_union, ← Set.union_insert] at finished
        · cases done
      · next past =>
        cases done
        rw [pagesBetween_done past, Set.image_empty, Set.union_empty]
        exact built

theorem loopFuel_pos : 0 < loopFuel := Nat.two_pow_pos 52

theorem loopFuel_covers (start stop : Word) : stop.toNat < start.toNat + 4096 * loopFuel := by
  rw [loopFuel]
  omega

/-- Between aligned bounds the loop is left unless a map fails. -/
theorem mapPages_ends {body : State → Word → Bool × State} {stop : Word}
    (stopAligned : stop.toNat % 4096 = 0) {fuel : Nat} {p : Word} (aligned : p.toNat % 4096 = 0)
    (rounds : 0 < fuel) (enough : stop.toNat < p.toNat + 4096 * fuel)
    (stuck : mapPages body stop fuel s p = none) :
    ∃ mid, ∃ q ∈ pagesBetween p stop, (body mid q).1 = false := by
  induction fuel generalizing s p with
  | zero => exact absurd rounds (Nat.lt_irrefl 0)
  | succ fuel ih =>
      rw [mapPages] at stuck
      split at stuck
      · next before =>
        obtain ⟨nextAligned, visited⟩ := pagesBetween_next aligned stopAligned before
        rw [visited]
        split at stuck
        · next after mapped =>
          have next : (p + pmmFrameSize).toNat = p.toNat + 4096 := by bv_omega
          have limit : p.toNat < stop.toNat := before
          obtain ⟨mid, q, later, failed⟩ := ih nextAligned (by omega) (by omega) stuck
          exact ⟨mid, q, .inr later, failed⟩
        · next after failed => exact ⟨s, p, .inl rfl, by rw [failed]⟩
      · cases stuck

end Build

/-! ## What every map keeps -/

section Keeps

variable {kept : State → Prop} {s s' : State}

theorem mapPages_keeps {body : State → Word → Bool × State}
    (step : ∀ s s' p, kept s → body s p = (true, s') → kept s') {stop : Word} {fuel : Nat} {p : Word}
    (before : kept s) (done : mapPages body stop fuel s p = some s') : kept s' := by
  induction fuel generalizing s p with
  | zero => cases done
  | succ fuel ih =>
      rw [mapPages] at done
      split at done
      · split at done
        · next mid mapped => exact ih (step s mid p before mapped) done
        · cases done
      · cases done
        exact before

theorem mapEntries_keeps
    (step : ∀ s s' virt phys flags, kept s → vmmMap s virt phys flags = (true, s') → kept s')
    {memmap : List MemmapEntry} {hhdm : Word} (before : kept s)
    (done : memmap.foldlM (fun s e => mapHhdmRange s e.base e.length hhdm) s = some s') : kept s' := by
  induction memmap generalizing s with
  | nil =>
      cases done
      exact before
  | cons e rest ih =>
      rw [List.foldlM_cons, Option.bind_eq_bind, Option.bind_eq_some_iff] at done
      obtain ⟨mid, first, later⟩ := done
      exact ih (mapPages_keeps (fun s s' p => step s s' _ _ _) before first) later

/-- What every successful map keeps holds at the `cr3` load if it holds of the blank space. -/
theorem vmmInit_keeps
    (step : ∀ s s' virt phys flags, kept s → vmmMap s virt phys flags = (true, s') → kept s')
    {m : Memory} {pmm : Pmm.Globals} {kernel : KernelBounds} {kaddr : ExecutableAddress}
    {memmap : List MemmapEntry} {hhdm rsp code : Word}
    (blank : ∀ kernelPml4 mid pmm', Pmm.pmmAllocFrame m pmm = (kernelPml4, mid, pmm') → kernelPml4 ≠ 0 →
      kept ⟨memset mid (kernelPml4 + hhdm) 0 4096, pmm', hhdm, kernelPml4⟩)
    (done : vmmInit m pmm kernel kaddr memmap hhdm rsp code = some s) : kept s := by
  rw [vmmInit] at done
  generalize outcome : Pmm.pmmAllocFrame m pmm = result at done
  obtain ⟨kernelPml4, mid, pmm'⟩ := result
  dsimp only at done
  split at done
  · cases done
  · next nonnull =>
    simp only [Option.bind_eq_bind, Option.bind_eq_some_iff] at done
    obtain ⟨direct, directDone, readOnly, readOnlyDone, writable, writableDone, checked⟩ := done
    have directKept := mapEntries_keeps step (blank kernelPml4 mid pmm' outcome nonnull) directDone
    have readOnlyKept := mapPages_keeps (fun s s' p => step s s' _ _ _) directKept readOnlyDone
    have writableKept := mapPages_keeps (fun s s' p => step s s' _ _ _) readOnlyKept writableDone
    split at checked
    · cases checked
      exact writableKept
    · cases checked

end Keeps

end ScrapOS.Vmm
