import ScrapOS.Simulation.Basic
import ScrapOS.Pmm.Runs

/-! The hint of the scan. No frame below it is free, in any state of a run, so the scan from
the hint finds what a scan of the whole bitmap finds, and the second pass finds nothing. -/

set_option autoImplicit false

namespace ScrapOS.Pmm

/-! ## Scans -/

section Scan

variable {m : Memory} {g : Globals}

theorem scan_minimal {i j : Word} {count : Nat} (noWrap : i.toNat + count < 2 ^ 64)
    (found : scan m g i count = some j) {k : Word} (past : i.toNat ≤ k.toNat)
    (before : k.toNat < j.toNat) : bitTest m g k = true := by
  induction count generalizing i with
  | zero => cases found
  | succ count ih =>
      rw [scan] at found
      cases bit : bitTest m g i with
      | false =>
          rw [bit] at found
          cases found
          omega
      | true =>
          rw [bit] at found
          by_cases here : k = i
          · rw [here, bit]
          · exact ih (by bv_omega) found (by bv_omega)

/-- A scan goes on where a shorter one gave up. -/
theorem scan_append {i : Word} {count : Nat} (exhausted : scan m g i count = none) (more : Nat) :
    scan m g i (count + more) = scan m g (i + BitVec.ofNat 64 count) more := by
  induction count generalizing i with
  | zero => rw [Nat.zero_add, BitVec.add_zero]
  | succ count ih =>
      rw [scan] at exhausted
      rw [Nat.succ_add, scan]
      cases bit : bitTest m g i with
      | false =>
          rw [bit] at exhausted
          cases exhausted
      | true =>
          rw [bit] at exhausted
          have next : i + 1 + BitVec.ofNat 64 count = i + BitVec.ofNat 64 (count + 1) := by bv_omega
          rw [← next]
          exact ih exhausted

theorem scan_unhinted (hint i : Word) (count : Nat) :
    scan m { g with nextHint := hint } i count = scan m g i count := by
  induction count generalizing i with
  | zero => rfl
  | succ count ih =>
      rw [scan, scan, ih]
      rfl

theorem mem_clearFrames {i : Word} (inside : i.toNat < g.totalFrames.toNat) :
    i.toNat ∈ clearFrames m g ↔ bitTest m g i = false := by
  have same : BitVec.ofNat 64 i.toNat = i := BitVec.ofNat_toNat ..
  rw [clearFrames, Set.mem_ofPred_eq, same]
  exact and_iff_right inside

theorem scan_lowest {i : Word} (total : g.totalFrames.toNat < 2 ^ 52)
    (found : scan m g 0 g.totalFrames.toNat = some i) : IsLeast (clearFrames m g) i.toNat := by
  rcases scan_cases m g 0 g.totalFrames.toNat (by bv_omega) with ⟨j, same, -, before, clear⟩ | ⟨none, -⟩
  · rw [found, Option.some.injEq] at same
    subst same
    have inside : i.toNat < g.totalFrames.toNat := by bv_omega
    refine ⟨(mem_clearFrames inside).mpr clear, fun frame member => ?_⟩
    by_contra lower
    have small : (BitVec.ofNat 64 frame).toNat = frame := by bv_omega
    have set := scan_minimal (k := BitVec.ofNat 64 frame) (by bv_omega) found (by bv_omega) (by omega)
    rw [member.2] at set
    cases set
  · rw [found] at none
    cases none

theorem scan_none (total : g.totalFrames.toNat < 2 ^ 52)
    (exhausted : scan m g 0 g.totalFrames.toNat = none) : clearFrames m g = ∅ := by
  rcases scan_cases m g 0 g.totalFrames.toNat (by bv_omega) with ⟨j, found, -⟩ | ⟨-, full⟩
  · rw [exhausted] at found
    cases found
  · refine Set.eq_empty_of_forall_notMem fun frame member => ?_
    have inside := member.1
    have set := full (BitVec.ofNat 64 frame) (by bv_omega) (by bv_omega)
    rw [member.2] at set
    cases set

/-! ## The hint -/

/-- No frame below the hint is free. -/
def Hinted (m : Memory) (g : Globals) : Prop := ∀ frame ∈ clearFrames m g, g.nextHint.toNat ≤ frame

theorem Hinted.secondPass (hinted : Hinted m g) (hint : g.nextHint.toNat ≤ g.totalFrames.toNat) : scan m g 0 g.nextHint.toNat = none := by
  rcases scan_cases m g 0 g.nextHint.toNat (by bv_omega) with ⟨j, -, -, before, clear⟩ | ⟨none, -⟩
  · have inside : j.toNat < g.totalFrames.toNat := by bv_omega
    have atLeast := hinted j.toNat ((mem_clearFrames inside).mpr clear)
    bv_omega
  · exact none

theorem Hinted.scanPasses_eq (hinted : Hinted m g)
    (hint : g.nextHint.toNat ≤ g.totalFrames.toNat) :
    scanPasses m g = scan m g 0 g.totalFrames.toNat := by
  have secondPass := hinted.secondPass hint
  have fromZero : 0 + g.nextHint = g.nextHint := by bv_omega
  have whole := scan_append secondPass (g.totalFrames.toNat - g.nextHint.toNat)
  rw [Nat.add_sub_cancel' hint, BitVec.ofNat_toNat, BitVec.setWidth_eq, fromZero] at whole
  rw [scanPasses, secondPass, whole]
  cases scan m g g.nextHint (g.totalFrames.toNat - g.nextHint.toNat) with
  | some i => rfl
  | none => rfl

end Scan

/-! ## Steps keep the hint -/

section Operations

variable {m : Memory} {g : Globals}

theorem clearFrames_bitSet {i : Word} {frame : Nat} (member : frame ∈ clearFrames (bitSet m g i) g) :
    frame ∈ clearFrames m g ∧ frame ≠ i.toNat := by
  obtain ⟨inside, bit⟩ := member
  rw [bitTest_bitSet] at bit
  split at bit
  · cases bit
  · next different =>
    refine ⟨⟨inside, bit⟩, fun same => different ?_⟩
    rw [same, BitVec.ofNat_toNat, BitVec.setWidth_eq]

theorem clearFrames_bitClear {i : Word} {frame : Nat}
    (member : frame ∈ clearFrames (bitClear m g i) g) :
    frame ∈ clearFrames m g ∨ BitVec.ofNat 64 frame = i := by
  obtain ⟨inside, bit⟩ := member
  rw [bitTest_bitClear] at bit
  split at bit
  · next same => exact .inr same
  · exact .inl ⟨inside, bit⟩

/-- What an allocation finds, when no frame below the hint is free. -/
theorem Hinted.scan_cases (hinted : Hinted m g) (total : g.totalFrames.toNat < 2 ^ 52)
    (hint : g.nextHint.toNat ≤ g.totalFrames.toNat) :
    (∃ i, scanPasses m g = some i ∧ IsLeast (clearFrames m g) i.toNat) ∨
      (scanPasses m g = none ∧ clearFrames m g = ∅) := by
  rw [hinted.scanPasses_eq hint]
  cases found : scan m g 0 g.totalFrames.toNat with
  | some i => exact .inl ⟨i, rfl, scan_lowest total found⟩
  | none => exact .inr ⟨rfl, scan_none total found⟩

theorem Hinted.alloc (hinted : Hinted m g) (total : g.totalFrames.toNat < 2 ^ 52)
    (hint : g.nextHint.toNat ≤ g.totalFrames.toNat) :
    Hinted (pmmAllocFrame m g).2.1 (pmmAllocFrame m g).2.2 := by
  rw [pmmAllocFrame]
  split
  · exact hinted
  · rcases hinted.scan_cases total hint with ⟨i, found, lowest⟩ | ⟨none, -⟩
    · rw [found]
      intro frame member
      have inside := lowest.1.1
      obtain ⟨before, different⟩ := clearFrames_bitSet (m := m) (g := g) member
      have atLeast := lowest.2 before
      dsimp only
      bv_omega
    · rw [none]
      exact hinted

theorem Hinted.claim (hinted : Hinted m g) (phys : Word) :
    Hinted (pmmClaimFrame m g phys).2.1 (pmmClaimFrame m g phys).2.2 := by
  rw [pmmClaimFrame]
  split
  · exact hinted
  · intro frame member
    exact hinted frame (clearFrames_bitSet (m := m) (g := g) member).1

theorem Hinted.free (hinted : Hinted m g) (phys : Word) :
    Hinted (pmmFreeFrame m g phys).1 (pmmFreeFrame m g phys).2 := by
  rw [pmmFreeFrame]
  generalize phys / pmmFrameSize = i
  split
  · exact hinted
  · intro frame member
    rcases clearFrames_bitClear (m := m) (g := g) member with before | freed
    · have atLeast := hinted frame before
      split
      · bv_omega
      · exact atLeast
    · split
      · bv_omega
      · bv_omega

end Operations

section Runs

variable {managed free : Set Nat} {c c' : Config}

theorem Valid.hinted_step (valid : Valid managed free c) (hinted : Hinted c.mem c.globals)
    (stepped : Step c c') : Hinted c'.mem c'.globals := by
  cases stepped with
  | alloc => exact hinted.alloc valid.tracks.total valid.tracks.hint
  | @free phys member => exact hinted.free phys
  | claim phys => exact hinted.claim phys
  | write inside =>
      have before := valid.clearFrames_eq
      have after := (valid.write inside).clearFrames_eq
      rw [Config.clearFrames] at before after
      rw [Hinted, after, ← before]
      exact hinted

theorem Valid.hinted_run (valid : Valid managed free c) (hinted : Hinted c.mem c.globals)
    (ran : Run c c') : ∃ free', Valid managed free' c' ∧ Hinted c'.mem c'.globals := by
  have kept : ∀ free c c', Valid managed free c ∧ Hinted c.mem c.globals → Step c c' →
      ∃ free', Valid managed free' c' ∧ Hinted c'.mem c'.globals := by
    intro free c c' before stepped
    obtain ⟨free', after⟩ := before.1.step stepped
    exact ⟨free', after, before.1.hinted_step before.2 stepped⟩
  exact Simulation.run_holds kept ⟨valid, hinted⟩ ran

/-! ## First fit -/

/-- The hint makes no difference: an allocation takes the lowest free frame. -/
structure FirstFit (c : Config) : Prop where
  below : ∀ i : Word, i.toNat < c.globals.nextHint.toNat → bitTest c.mem c.globals i = true
  secondPass : scan c.mem c.globals 0 c.globals.nextHint.toNat = none
  plain : scanPasses c.mem c.globals = scan c.mem c.globals 0 c.globals.totalFrames.toNat
  lowest : ∀ frame, IsLeast c.clearFrames frame →
    (pmmAllocFrame c.mem c.globals).1 = frameAddress frame
  refused : c.clearFrames = ∅ → (pmmAllocFrame c.mem c.globals).1 = 0
  unhinted : (pmmAllocFrame c.mem { c.globals with nextHint := 0 }).1 =
      (pmmAllocFrame c.mem c.globals).1 ∧
    (pmmAllocFrame c.mem { c.globals with nextHint := 0 }).2.1 = (pmmAllocFrame c.mem c.globals).2.1

theorem Valid.firstFit (valid : Valid managed free c) (hinted : Hinted c.mem c.globals) :
    FirstFit c := by
  have total := valid.tracks.total
  have hint := valid.tracks.hint
  have plain := hinted.scanPasses_eq hint
  have counted := valid.tracks.counted
  rw [← valid.clearFrames_eq] at counted
  refine ⟨?_, hinted.secondPass hint, plain, ?_, ?_, ?_⟩
  · intro i lower
    cases bit : bitTest c.mem c.globals i with
    | true => rfl
    | false =>
        have atLeast := hinted i.toNat ((mem_clearFrames (by omega)).mpr bit)
        omega
  · intro frame lowest
    have some : c.clearFrames.ncard ≠ 0 :=
      Set.ncard_ne_zero_of_mem lowest.1 (valid.clearFrames_eq ▸ valid.tracks.finite)
    have available : c.globals.freeFrames ≠ 0 := by
      intro none
      rw [none] at counted
      exact some counted.symm
    rcases hinted.scan_cases total hint with ⟨i, found, least⟩ | ⟨-, empty⟩
    · have same : i.toNat = frame := least.unique lowest
      rw [pmmAllocFrame, if_neg available, found, ← same]
      dsimp only
      unfold frameAddress
      bv_omega
    · have member := lowest.1
      rw [Config.clearFrames, empty] at member
      cases member
  · intro empty
    rw [empty, Set.ncard_empty] at counted
    exact valid.alloc_refuses_iff.mpr (BitVec.eq_of_toNat_eq counted)
  · have first : Hinted c.mem { c.globals with nextHint := 0 } := fun frame _ => Nat.zero_le frame
    have same : scanPasses c.mem { c.globals with nextHint := 0 } = scanPasses c.mem c.globals := by
      rw [first.scanPasses_eq (Nat.zero_le _), plain]
      exact scan_unhinted 0 0 _
    rw [pmmAllocFrame, pmmAllocFrame, same]
    dsimp only
    split
    · exact ⟨rfl, rfl⟩
    · cases scanPasses c.mem c.globals with
      | some i => exact ⟨rfl, rfl⟩
      | none => exact ⟨rfl, rfl⟩

end Runs

theorem pmmInit_nextHint {hhdm : Word} {memmap : List MemmapEntry} {m m' : Memory} {g' : Globals}
    (done : pmmInit m memmap hhdm = some (m', g')) : g'.nextHint = 0 := by
  rw [pmmInit] at done
  dsimp only at done
  split at done
  · cases done
  · cases done
    rfl

/-- After `pmm_init` and any run the hinted scan is a first fit over the whole bitmap. -/
theorem pmm_alloc_first_fit {hhdm : Word} {memmap : List MemmapEntry} {m m' : Memory} {g' : Globals}
    {c : Config} (memmapValid : MemmapValid memmap) (done : pmmInit m memmap hhdm = some (m', g'))
    (ran : Run (start hhdm m' g') c) : FirstFit c := by
  have booted := pmmInit_booted memmapValid done
  have valid := booted.valid memmapValid
  have first : Hinted m' g' := fun frame _ => by
    rw [pmmInit_nextHint done]
    exact Nat.zero_le frame
  obtain ⟨_, valid', hinted⟩ := valid.hinted_run first ran
  exact valid'.firstFit hinted

/-- A frame below the hint is freed, and a claimed frame lies above it. -/
theorem pmm_alloc_first_fit_smallMap :
    FirstFit (((start smallHhdm smallBoot.1 smallBoot.2).alloc.claim 0x5000).alloc.free 0x2000) := by
  have handed : (0x2000 : Word) ∈
      ((start smallHhdm smallBoot.1 smallBoot.2).alloc.claim 0x5000).alloc.handed := by decide +kernel
  exact pmm_alloc_first_fit smallMap_valid smallBoot_done
    ((((Relation.ReflTransGen.single .alloc).tail (.claim 0x5000)).tail .alloc).tail (.free handed))

end ScrapOS.Pmm
