import ScrapOS.Simulation.Basic
import ScrapOS.Pmm.Init

/-! Runs of the frame allocator after `pmm_init`: any interleaving of allocations,
claims, frees of frames that are handed out, and writes of their owners. Every usable
frame is in exactly one place: free, handed out, claimed, or holding the bitmap. -/

set_option autoImplicit false

namespace ScrapOS.Pmm

/-- A state of a run: memory, the globals of `pmm.c`, the addresses that
`pmm_alloc_frame` returned and that were not freed since, and the frames that
`pmm_claim_frame` took. -/
structure Config where
  mem : Memory
  globals : Globals
  hhdmOffset : Word
  handed : List Word
  claimed : List Nat

/-- The frame of a physical address. -/
def frameNumber (phys : Word) : Nat := phys.toNat / 4096

namespace Config

/-- The frames in other hands. -/
def used (c : Config) : List Nat := c.handed.map frameNumber ++ c.claimed

def alloc (c : Config) : Config :=
  match pmmAllocFrame c.mem c.globals with
  | (phys, mem, globals) =>
      { c with mem, globals, handed := if phys = 0 then c.handed else phys :: c.handed }

def free (c : Config) (phys : Word) : Config :=
  match pmmFreeFrame c.mem c.globals phys with
  | (mem, globals) => { c with mem, globals, handed := c.handed.erase phys }

def claim (c : Config) (phys : Word) : Config :=
  match pmmClaimFrame c.mem c.globals phys with
  | (done, mem, globals) =>
      { c with mem, globals, claimed := if done then frameNumber phys :: c.claimed else c.claimed }

end Config

inductive Step : Config → Config → Prop where
  | alloc {c : Config} : Step c c.alloc
  | free {c : Config} {phys : Word} : phys ∈ c.handed → Step c (c.free phys)
  | claim {c : Config} (phys : Word) : Step c (c.claim phys)
  | write {c : Config} {m' : Memory} :
      Set.EqOn m' c.mem (frameBytes c.hhdmOffset {frame | frame ∈ c.used})ᶜ →
      Step c { c with mem := m' }

abbrev Run : Config → Config → Prop := Relation.ReflTransGen Step

/-- The state `pmm_init` returns in. -/
def start (hhdmOffset : Word) (mem : Memory) (globals : Globals) : Config where
  mem := mem
  globals := globals
  hhdmOffset := hhdmOffset
  handed := []
  claimed := []

theorem Step.hhdmOffset {c c' : Config} (stepped : Step c c') : c'.hhdmOffset = c.hhdmOffset := by
  cases stepped with
  | alloc => rfl
  | free member => rfl
  | claim phys => rfl
  | write inside => rfl

theorem run_hhdmOffset {c c' : Config} (ran : Run c c') : c'.hhdmOffset = c.hhdmOffset := by
  induction ran with
  | refl => rfl
  | tail _ stepped ih => exact stepped.hhdmOffset.trans ih

/-- The invariant of a run over the frames of `managed`. -/
structure Valid (managed free : Set Nat) (c : Config) : Prop where
  tracks : Tracks c.hhdmOffset (c.globals.bitmapFrames c.hhdmOffset) free c.mem c.globals
  zero : 0 ∉ managed
  spanned : ∀ frame ∈ managed, frame < c.globals.totalFrames.toNat
  freeManaged : free ⊆ managed
  bitmapManaged : c.globals.bitmapFrames c.hhdmOffset ⊆ managed
  aligned : ∀ phys ∈ c.handed, frameAddress (frameNumber phys) = phys
  once : c.used.Nodup
  mem_used : ∀ frame, frame ∈ c.used ↔
    frame ∈ managed ∧ frame ∉ free ∧ frame ∉ c.globals.bitmapFrames c.hhdmOffset
  total : c.globals.usableFrames = BitVec.ofNat 64 managed.ncard

theorem Booted.valid {hhdm : Word} {memmap : List MemmapEntry} {m m' : Memory} {g' : Globals}
    (memmapValid : MemmapValid memmap) (booted : Booted hhdm memmap m m' g') :
    Valid (usableFrames memmap) (usableFrames memmap \ g'.bitmapFrames hhdm) (start hhdm m' g') where
  tracks := booted.tracks
  zero := memmapValid.zero
  spanned := booted.spanned
  freeManaged := Set.sdiff_subset
  bitmapManaged := booted.inside
  aligned := by simp [start]
  once := by simp [start, Config.used]
  mem_used := by
    intro frame
    simp only [start, Config.used, List.map_nil, List.append_nil, List.not_mem_nil, Set.mem_sdiff,
      false_iff]
    tauto
  total := booted.counted

/-! ## What the operations leave alone -/

section Fixed

variable (m : Memory) (g : Globals) (phys : Word)

/-- The globals that only `pmm_init` writes. -/
def Globals.SameSpan (g g' : Globals) : Prop :=
  g'.bitmap = g.bitmap ∧ g'.bitmapBytes = g.bitmapBytes ∧ g'.totalFrames = g.totalFrames ∧
    g'.usableFrames = g.usableFrames

theorem pmmAllocFrame_span : g.SameSpan (pmmAllocFrame m g).2.2 := by
  rw [pmmAllocFrame]
  split
  · exact ⟨rfl, rfl, rfl, rfl⟩
  · cases scanPasses m g with
    | none => exact ⟨rfl, rfl, rfl, rfl⟩
    | some i => exact ⟨rfl, rfl, rfl, rfl⟩

theorem pmmFreeFrame_span : g.SameSpan (pmmFreeFrame m g phys).2 := by
  rw [pmmFreeFrame]
  split
  · exact ⟨rfl, rfl, rfl, rfl⟩
  · exact ⟨rfl, rfl, rfl, rfl⟩

theorem pmmClaimFrame_span : g.SameSpan (pmmClaimFrame m g phys).2.2 := by
  rw [pmmClaimFrame]
  split
  · exact ⟨rfl, rfl, rfl, rfl⟩
  · exact ⟨rfl, rfl, rfl, rfl⟩

theorem Globals.SameSpan.refl (g : Globals) : g.SameSpan g := ⟨rfl, rfl, rfl, rfl⟩

theorem Globals.SameSpan.trans {g g' g'' : Globals} (first : g.SameSpan g')
    (second : g'.SameSpan g'') : g.SameSpan g'' :=
  ⟨second.1.trans first.1, second.2.1.trans first.2.1, second.2.2.1.trans first.2.2.1,
    second.2.2.2.trans first.2.2.2⟩

theorem Globals.SameSpan.bitmapFrames {g g' : Globals} (same : g.SameSpan g') (hhdm : Word) :
    g'.bitmapFrames hhdm = g.bitmapFrames hhdm := by
  rw [Globals.bitmapFrames, Globals.bitmapFrames, same.1, same.2.1]

end Fixed

/-! ## Steps keep the invariant -/

namespace Valid

variable {managed free : Set Nat} {c c' : Config}

theorem frame_lt (valid : Valid managed free c) {frame : Nat} (member : frame ∈ managed) :
    frame < 2 ^ 52 := Nat.lt_trans (valid.spanned frame member) valid.tracks.total

theorem frameNumber_frameAddress {frame : Nat} (bounded : frame < 2 ^ 52) :
    frameNumber (frameAddress frame) = frame := frameAddress_div bounded

/-- The operations of the allocator move frames between the sets and keep the rest. -/
theorem moved (valid : Valid managed free c) {free' : Set Nat} {m' : Memory} {g' : Globals}
    {handed' : List Word} {claimed' : List Nat} (span : c.globals.SameSpan g')
    (tracks : Tracks c.hhdmOffset (c.globals.bitmapFrames c.hhdmOffset) free' m' g')
    (freeManaged : free' ⊆ managed)
    (aligned : ∀ phys ∈ handed', frameAddress (frameNumber phys) = phys)
    (once : (handed'.map frameNumber ++ claimed').Nodup)
    (mem_used : ∀ frame, frame ∈ handed'.map frameNumber ++ claimed' ↔
      frame ∈ managed ∧ frame ∉ free' ∧ frame ∉ c.globals.bitmapFrames c.hhdmOffset) :
    Valid managed free'
      { c with mem := m', globals := g', handed := handed', claimed := claimed' } where
  tracks := by
    rw [span.bitmapFrames]
    exact tracks
  zero := valid.zero
  spanned := by
    rw [span.2.2.1]
    exact valid.spanned
  freeManaged := freeManaged
  bitmapManaged := by
    rw [span.bitmapFrames]
    exact valid.bitmapManaged
  aligned := aligned
  once := once
  mem_used := by
    rw [span.bitmapFrames]
    exact mem_used
  total := span.2.2.2.trans valid.total

theorem alloc (valid : Valid managed free c) : ∃ free', Valid managed free' c.alloc := by
  have outcome := valid.tracks.allocFrame
  have span := pmmAllocFrame_span c.mem c.globals
  rw [Config.alloc]
  generalize pmmAllocFrame c.mem c.globals = result at outcome span
  cases outcome with
  | refused none => exact ⟨free, valid⟩
  | @served frame m' g' available tracks changed total =>
      have managedFrame := valid.freeManaged available
      have bounded := valid.frame_lt managedFrame
      have nonzero : frame ≠ 0 := fun zero => valid.zero (zero ▸ managedFrame)
      have number := frameNumber_frameAddress bounded
      have unused : frame ∉ c.used := fun member => ((valid.mem_used frame).mp member).2.1 available
      dsimp only
      rw [if_neg (frameAddress_ne_zero bounded nonzero)]
      refine ⟨free \ {frame}, valid.moved span tracks (Set.sdiff_subset.trans valid.freeManaged) ?_ ?_ ?_⟩
      · intro phys member
        cases List.mem_cons.mp member with
        | inl here => rw [here, number]
        | inr before => exact valid.aligned phys before
      · rw [List.map_cons, number, List.cons_append]
        exact List.nodup_cons.mpr ⟨unused, valid.once⟩
      · intro other
        rw [List.map_cons, number, List.cons_append, List.mem_cons]
        have before := valid.mem_used other
        have notBitmap := Set.disjoint_left.mp valid.tracks.apart available
        rw [Config.used] at before
        rw [before, Set.mem_sdiff, Set.mem_singleton_iff]
        by_cases same : other = frame
        · simp [same, managedFrame, notBitmap]
        · simp [same]

theorem release (valid : Valid managed free c) {phys : Word} (member : phys ∈ c.handed) :
    ∃ free', Valid managed free' (c.free phys) := by
  have inUse : frameNumber phys ∈ c.used :=
    List.mem_append_left _ (List.mem_map_of_mem member)
  obtain ⟨managedFrame, notFree, notBitmap⟩ := (valid.mem_used _).mp inUse
  have nonzero : frameNumber phys ≠ 0 := fun zero => valid.zero (zero ▸ managedFrame)
  obtain ⟨tracks, -, -⟩ := valid.tracks.freeFrame (valid.spanned _ managedFrame) nonzero notFree
    notBitmap
  have span := pmmFreeFrame_span c.mem c.globals phys
  rw [valid.aligned phys member] at tracks
  have reordered : c.used.Perm
      (frameNumber phys :: ((c.handed.erase phys).map frameNumber ++ c.claimed)) := by
    rw [Config.used, ← List.cons_append, ← List.map_cons]
    exact ((List.perm_cons_erase member).map frameNumber).append_right c.claimed
  have once := List.nodup_cons.mp (reordered.nodup_iff.mp valid.once)
  refine ⟨insert (frameNumber phys) free, valid.moved span tracks ?_ ?_ once.2 ?_⟩
  · exact Set.insert_subset managedFrame valid.freeManaged
  · exact fun other present => valid.aligned other (List.mem_of_mem_erase present)
  · intro other
    have before := reordered.mem_iff.symm.trans (valid.mem_used other)
    rw [List.mem_cons] at before
    rw [Set.mem_insert_iff]
    by_cases same : other = frameNumber phys
    · simp [same, once.1]
    · simp only [same, false_or, List.mem_append] at before ⊢
      exact before

theorem claim (valid : Valid managed free c) (phys : Word) :
    ∃ free', Valid managed free' (c.claim phys) := by
  have outcome := valid.tracks.claimFrame phys
  have span := pmmClaimFrame_span c.mem c.globals phys
  rw [Config.claim]
  generalize pmmClaimFrame c.mem c.globals phys = result at outcome span
  cases outcome with
  | refused notFree => exact ⟨free, valid⟩
  | @taken m' g' available tracks changed total =>
      have managedFrame := valid.freeManaged available
      have unused : frameNumber phys ∉ c.used :=
        fun member => ((valid.mem_used _).mp member).2.1 available
      have notBitmap := Set.disjoint_left.mp valid.tracks.apart available
      dsimp only
      rw [if_pos rfl]
      refine ⟨free \ {frameNumber phys}, valid.moved span tracks
        (Set.sdiff_subset.trans valid.freeManaged) valid.aligned ?_ ?_⟩
      · rw [List.nodup_middle]
        exact List.nodup_cons.mpr ⟨unused, valid.once⟩
      · intro other
        rw [List.perm_middle.mem_iff, List.mem_cons]
        have before := valid.mem_used other
        rw [Config.used] at before
        rw [before, Set.mem_sdiff, Set.mem_singleton_iff]
        by_cases same : other = frameNumber phys
        · rw [same]
          simp only [frameNumber, managedFrame, notBitmap, true_or, not_true_eq_false, and_false,
            not_false_eq_true, and_true]
        · simp [same]

theorem write (valid : Valid managed free c) {m' : Memory}
    (inside : Set.EqOn m' c.mem (frameBytes c.hhdmOffset {frame | frame ∈ c.used})ᶜ) :
    Valid managed free { c with mem := m' } := by
  have apart : Disjoint (c.globals.bitmapFrames c.hhdmOffset) {frame | frame ∈ c.used} := by
    rw [Set.disjoint_left]
    exact fun frame inBitmap member => ((valid.mem_used frame).mp member).2.2 inBitmap
  have tracks := valid.tracks.congr (inside.mono (frameBytes_disjoint apart).subset_compl_right)
  exact valid.moved ⟨rfl, rfl, rfl, rfl⟩ tracks valid.freeManaged valid.aligned valid.once valid.mem_used

theorem step (valid : Valid managed free c) (stepped : Step c c') : ∃ free', Valid managed free' c' := by
  cases stepped with
  | alloc => exact valid.alloc
  | free member => exact valid.release member
  | claim phys => exact valid.claim phys
  | write inside => exact ⟨free, valid.write inside⟩

theorem run (valid : Valid managed free c) (ran : Run c c') : ∃ free', Valid managed free' c' :=
  Simulation.run_holds (fun _ _ _ before stepped => before.step stepped) valid ran

end Valid

/-! ## The figures and the sets -/

def Config.clearFrames (c : Config) : Set Nat := Pmm.clearFrames c.mem c.globals

/-- The frames that `pmm_alloc_frame` handed out. -/
def Config.handedFrames (c : Config) : Set Nat := {frame | frame ∈ c.handed.map frameNumber}

/-- The frames that `pmm_claim_frame` took. -/
def Config.claimedFrames (c : Config) : Set Nat := {frame | frame ∈ c.claimed}

/-- Counter, bitmap and figures agree with the one place every usable frame is in. -/
structure Exact (managed : Set Nat) (c : Config) : Prop where
  counted : c.globals.freeFrames.toNat = c.clearFrames.ncard
  once : c.used.Nodup
  cover : c.clearFrames ∪ c.handedFrames ∪ c.claimedFrames ∪ c.globals.bitmapFrames c.hhdmOffset =
    managed
  apart : [c.clearFrames, c.handedFrames, c.claimedFrames,
    c.globals.bitmapFrames c.hhdmOffset].Pairwise Disjoint
  set : ∀ i : Word, i.toNat < 8 * c.globals.bitmapBytes.toNat →
    bitTest c.mem c.globals i = false → i.toNat < c.globals.totalFrames.toNat ∧ i.toNat ∈ managed
  refuses : (pmmAllocFrame c.mem c.globals).1 = 0 ↔ c.globals.freeFrames = 0
  finds : c.globals.freeFrames ≠ 0 → scanPasses c.mem c.globals ≠ none
  serves : (pmmAllocFrame c.mem c.globals).1 ≠ 0 →
    frameNumber (pmmAllocFrame c.mem c.globals).1 ∈ c.clearFrames ∧
      (pmmAllocFrame c.mem c.globals).2.2.freeFrames.toNat + 1 = c.globals.freeFrames.toNat
  claims : ∀ phys, (pmmClaimFrame c.mem c.globals phys).1 = true ↔ frameNumber phys ∈ c.clearFrames
  claimCounts : ∀ phys, (pmmClaimFrame c.mem c.globals phys).1 = true →
    (pmmClaimFrame c.mem c.globals phys).2.2.freeFrames.toNat + 1 = c.globals.freeFrames.toNat
  statsTotal : (pmmGetStats c.globals).total.toNat = managed.ncard
  statsUsed : (pmmGetStats c.globals).used.toNat =
    (c.handedFrames ∪ c.claimedFrames ∪ c.globals.bitmapFrames c.hhdmOffset).ncard
  statsFree : (pmmGetStats c.globals).free.toNat = c.clearFrames.ncard

namespace Valid

variable {managed free : Set Nat} {c c' : Config}

theorem clearFrames_eq (valid : Valid managed free c) : c.clearFrames = free :=
  valid.tracks.toMarks.clearFrames_eq

theorem managed_finite (valid : Valid managed free c) : managed.Finite :=
  (Set.finite_lt_nat c.globals.totalFrames.toNat).subset valid.spanned

theorem managed_ncard (valid : Valid managed free c) : managed.ncard < 2 ^ 52 :=
  Nat.lt_of_le_of_lt (ncard_le_of_lt valid.spanned) valid.tracks.total

theorem busy_eq (valid : Valid managed free c) :
    c.handedFrames ∪ c.claimedFrames ∪ c.globals.bitmapFrames c.hhdmOffset = managed \ free := by
  ext frame
  have used := valid.mem_used frame
  rw [Config.used, List.mem_append] at used
  have inBitmap : frame ∈ c.globals.bitmapFrames c.hhdmOffset → frame ∈ managed ∧ frame ∉ free :=
    fun member => ⟨valid.bitmapManaged member, Set.disjoint_right.mp valid.tracks.apart member⟩
  simp only [Set.mem_union, Config.handedFrames, Config.claimedFrames, Set.mem_ofPred_eq, Set.mem_sdiff]
  tauto

theorem claim_iff (valid : Valid managed free c) (phys : Word) :
    (pmmClaimFrame c.mem c.globals phys).1 = true ↔ frameNumber phys ∈ free := by
  have outcome := valid.tracks.claimFrame phys
  generalize pmmClaimFrame c.mem c.globals phys = result at outcome
  cases outcome with
  | refused notFree => simp [frameNumber, notFree]
  | taken available => simp [frameNumber, available]

theorem counts_down {g' : Globals} {frame : Nat} {m' : Memory} (valid : Valid managed free c)
    (available : frame ∈ free)
    (tracks : Tracks c.hhdmOffset (c.globals.bitmapFrames c.hhdmOffset) (free \ {frame}) m' g') :
    g'.freeFrames.toNat + 1 = c.globals.freeFrames.toNat := by
  rw [tracks.counted, valid.tracks.counted]
  exact Set.ncard_sdiff_singleton_add_one available valid.tracks.finite

theorem alloc_refuses_iff (valid : Valid managed free c) :
    (pmmAllocFrame c.mem c.globals).1 = 0 ↔ c.globals.freeFrames = 0 := by
  have counted := valid.tracks.counted
  have outcome := valid.tracks.allocFrame
  generalize pmmAllocFrame c.mem c.globals = result at outcome
  cases outcome with
  | refused none =>
      rw [none, Set.ncard_empty] at counted
      simp [BitVec.eq_of_toNat_eq (y := 0#64) counted]
  | @served frame m' g' available tracks =>
      have managedFrame := valid.freeManaged available
      have nonzero : frame ≠ 0 := fun zero => valid.zero (zero ▸ managedFrame)
      have address := frameAddress_ne_zero (valid.frame_lt managedFrame) nonzero
      have counts := valid.counts_down available tracks
      constructor
      · exact fun zero => absurd zero address
      · intro empty
        rw [empty] at counts
        exact absurd counts (Nat.succ_ne_zero _)

theorem scan_finds (valid : Valid managed free c) (positive : c.globals.freeFrames ≠ 0) :
    scanPasses c.mem c.globals ≠ none := by
  have total := valid.tracks.total
  have counted := valid.tracks.counted
  cases scanPasses_cases (m := c.mem) (g := c.globals) (by omega) valid.tracks.hint with
  | inl found =>
      obtain ⟨j, found, -⟩ := found
      simp [found]
  | inr exhausted =>
      have empty : free = ∅ := by
        rw [← valid.clearFrames_eq, Set.eq_empty_iff_forall_notMem]
        intro frame member
        have inside := member.1
        have small : (BitVec.ofNat 64 frame).toNat = frame := by bv_omega
        have full := exhausted.2 (BitVec.ofNat 64 frame) (by rw [small]; exact inside)
        rw [member.2] at full
        cases full
      rw [empty, Set.ncard_empty] at counted
      exact absurd (BitVec.eq_of_toNat_eq counted) positive

theorem alloc_serves (valid : Valid managed free c)
    (nonnull : (pmmAllocFrame c.mem c.globals).1 ≠ 0) :
    frameNumber (pmmAllocFrame c.mem c.globals).1 ∈ free ∧
      (pmmAllocFrame c.mem c.globals).2.2.freeFrames.toNat + 1 = c.globals.freeFrames.toNat := by
  have outcome := valid.tracks.allocFrame
  generalize pmmAllocFrame c.mem c.globals = result at outcome nonnull
  cases outcome with
  | refused => exact absurd rfl nonnull
  | served available tracks =>
      rw [frameNumber_frameAddress (valid.frame_lt (valid.freeManaged available))]
      exact ⟨available, valid.counts_down available tracks⟩

theorem claim_counts (valid : Valid managed free c) (phys : Word)
    (done : (pmmClaimFrame c.mem c.globals phys).1 = true) :
    (pmmClaimFrame c.mem c.globals phys).2.2.freeFrames.toNat + 1 = c.globals.freeFrames.toNat := by
  have outcome := valid.tracks.claimFrame phys
  generalize pmmClaimFrame c.mem c.globals phys = result at outcome done
  cases outcome with
  | refused => cases done
  | taken available tracks => exact valid.counts_down available tracks

/-- The four places of a frame exclude one another. -/
theorem places_apart (valid : Valid managed free c) :
    [free, c.handedFrames, c.claimedFrames, c.globals.bitmapFrames c.hhdmOffset].Pairwise Disjoint := by
  have handedUsed : ∀ frame ∈ c.handedFrames, frame ∈ c.used :=
    fun frame member => List.mem_append_left _ member
  have claimedUsed : ∀ frame ∈ c.claimedFrames, frame ∈ c.used :=
    fun frame member => List.mem_append_right _ member
  have notFree : ∀ frame ∈ c.used, frame ∉ free :=
    fun frame member => ((valid.mem_used frame).mp member).2.1
  have notBitmap : ∀ frame ∈ c.used, frame ∉ c.globals.bitmapFrames c.hhdmOffset :=
    fun frame member => ((valid.mem_used frame).mp member).2.2
  simp only [List.pairwise_cons, List.mem_cons, List.not_mem_nil, or_false, forall_eq_or_imp,
    forall_eq, Set.disjoint_left, IsEmpty.forall_iff, implies_true, List.Pairwise.nil, and_true]
  refine ⟨⟨?_, ?_, ?_⟩, ⟨?_, ?_⟩, ?_⟩
  · exact fun frame inFree member => notFree frame (handedUsed frame member) inFree
  · exact fun frame inFree member => notFree frame (claimedUsed frame member) inFree
  · exact fun frame inFree => Set.disjoint_left.mp valid.tracks.apart inFree
  · exact fun frame inHanded inClaimed => List.disjoint_of_nodup_append valid.once inHanded inClaimed
  · exact fun frame inHanded => notBitmap frame (handedUsed frame inHanded)
  · exact fun frame inClaimed => notBitmap frame (claimedUsed frame inClaimed)

theorem agrees (valid : Valid managed free c) : Exact managed c := by
  have clear := valid.clearFrames_eq
  have busy := valid.busy_eq
  have counted := valid.tracks.counted
  have usableTotal : c.globals.usableFrames.toNat = managed.ncard := by
    have small := valid.managed_ncard
    rw [valid.total]
    bv_omega
  have remaining := Set.ncard_sdiff_add_ncard_of_subset valid.freeManaged valid.managed_finite
  have figure : (pmmGetStats c.globals).used.toNat =
      c.globals.usableFrames.toNat - c.globals.freeFrames.toNat := by
    rw [pmmGetStats]
    bv_omega
  constructor
  case counted => rw [clear, counted]
  case once => exact valid.once
  case cover =>
    rw [Set.union_assoc, Set.union_assoc, ← Set.union_assoc c.handedFrames, busy, clear]
    exact Set.union_sdiff_cancel valid.freeManaged
  case apart =>
    rw [clear]
    exact valid.places_apart
  case set =>
    intro i inside bit
    have member := (valid.tracks.bits i inside).mp bit
    exact ⟨valid.tracks.bounded _ member, valid.freeManaged member⟩
  case refuses => exact valid.alloc_refuses_iff
  case finds => exact valid.scan_finds
  case serves =>
    rw [clear]
    exact valid.alloc_serves
  case claims =>
    rw [clear]
    exact valid.claim_iff
  case claimCounts => exact valid.claim_counts
  case statsTotal => exact usableTotal
  case statsUsed =>
    rw [figure, busy, usableTotal, counted]
    omega
  case statsFree => rw [clear, pmmGetStats, counted]

end Valid

/-- After `pmm_init` and any run of the allocator's operations the counter, the bitmap
and the figures agree with the places of the frames. -/
theorem pmm_frames_exact {hhdm : Word} {memmap : List MemmapEntry} {m m' : Memory} {g' : Globals}
    {c : Config} (memmapValid : MemmapValid memmap) (done : pmmInit m memmap hhdm = some (m', g'))
    (ran : Run (start hhdm m' g') c) : Exact (usableFrames memmap) c := by
  have booted := pmmInit_booted memmapValid done
  obtain ⟨_, valid⟩ := (booted.valid memmapValid).run ran
  exact valid.agrees

theorem pmm_frames_exact_smallMap :
    Exact (usableFrames smallMap)
      ((start smallHhdm smallBoot.1 smallBoot.2).alloc.claim 0x5000) :=
  pmm_frames_exact smallMap_valid smallBoot_done (.tail (.single .alloc) (.claim _))

end ScrapOS.Pmm
