import ScrapOS.Memory.DirectMap
import ScrapOS.Pmm.Basic

/-! The bitmap as a set of free frames. Each operation of `pmm.c` changes the set
by at most one frame and touches no byte outside the bitmap. -/

set_option autoImplicit false

namespace ScrapOS.Pmm

/-! ## Bits of the bitmap -/

section Bits

variable (m : Memory) (g : Globals) (i j : Word)

private theorem testBit_eq (b : Byte) (k : Nat) : (b >>> k &&& 1 != 0) = b.getLsbD k := by
  have one : (b >>> k &&& 1) = if b.getLsbD k then 1#8 else 0#8 := by
    ext position
    cases bit : b.getLsbD k with
    | false => cases position <;> simp [bit]
    | true => cases position <;> simp [bit]
  rw [one]
  cases b.getLsbD k <;> rfl

theorem bitTest_eq : bitTest m g i = (m (g.bitmap + i / 8)).getLsbD (i % 8).toNat := by
  rw [bitTest, testBit_eq]

theorem frameIndex_toNat (phys : Word) : (phys / pmmFrameSize).toNat = phys.toNat / 4096 :=
  BitVec.toNat_udiv

theorem byte_toNat : (i / 8).toNat = i.toNat / 8 := BitVec.toNat_udiv

theorem bit_toNat : (i % 8).toNat = i.toNat % 8 := BitVec.toNat_umod

private theorem getLsbD_one_shiftLeft {k k' : Nat} (low : k' < 8) :
    (1#8 <<< k).getLsbD k' = decide (k' = k) := by
  rw [BitVec.getLsbD_shiftLeft, BitVec.getLsbD_one]
  grind

/-- Rewriting one bit of the byte of `i` changes the bit of `i` only. -/
private theorem bitTest_rewrite (rewritten : Byte → Byte) (value : Bool)
    (oneBit : ∀ b k, k < 8 → (rewritten b).getLsbD k =
      if k = (i % 8).toNat then value else b.getLsbD k) :
    bitTest (m.store8 (g.bitmap + i / 8) (rewritten (m (g.bitmap + i / 8)))) g j =
      if j = i then value else bitTest m g j := by
  rw [bitTest_eq, bitTest_eq, Memory.store8]
  by_cases byte : j / 8 = i / 8
  · have low : (j % 8).toNat < 8 := by
      rw [bit_toNat]
      exact Nat.mod_lt _ (by decide)
    have sameBit : (j % 8).toNat = (i % 8).toNat ↔ j = i := by
      have bytes := congrArg BitVec.toNat byte
      rw [byte_toNat, byte_toNat] at bytes
      rw [bit_toNat, bit_toNat]
      bv_omega
    simp only [byte, Function.update_self, oneBit _ _ low, sameBit]
  · have address : g.bitmap + j / 8 ≠ g.bitmap + i / 8 :=
      fun same => byte (BitVec.add_right_inj _ |>.mp same)
    have different : j ≠ i := fun same => byte (same ▸ rfl)
    rw [Function.update_of_ne address, if_neg different]

theorem bitTest_bitSet : bitTest (bitSet m g i) g j = if j = i then true else bitTest m g j := by
  apply bitTest_rewrite m g i j (fun b => b ||| 1#8 <<< (i % 8).toNat) true
  intro b k low
  rw [BitVec.getLsbD_or, getLsbD_one_shiftLeft low]
  split
  · next same => rw [decide_eq_true same, Bool.or_true]
  · next other => rw [decide_eq_false other, Bool.or_false]

theorem bitTest_bitClear :
    bitTest (bitClear m g i) g j = if j = i then false else bitTest m g j := by
  apply bitTest_rewrite m g i j (fun b => b &&& ~~~(1#8 <<< (i % 8).toNat)) false
  intro b k low
  rw [BitVec.getLsbD_and, BitVec.getLsbD_not, getLsbD_one_shiftLeft low, decide_eq_true low]
  split
  · next same => rw [decide_eq_true same, Bool.not_true, Bool.and_false, Bool.and_false]
  · next other => rw [decide_eq_false other, Bool.not_false, Bool.and_true, Bool.and_true]

theorem bitTest_congr {m' : Memory} {g' : Globals} (sameBitmap : g'.bitmap = g.bitmap)
    (sameByte : m' (g.bitmap + i / 8) = m (g.bitmap + i / 8)) : bitTest m' g' i = bitTest m g i := by
  rw [bitTest, bitTest, sameBitmap, sameByte]

theorem store8_frame (address : Word) (value : Byte) :
    Set.EqOn (m.store8 address value) m {address}ᶜ :=
  fun _ outside => Function.update_of_ne outside _ _

end Bits

/-! ## The scan -/

/-- The scan stops at a clear bit of its range, or every bit there is set. -/
theorem scan_cases (m : Memory) (g : Globals) (i : Word) (count : Nat)
    (noWrap : i.toNat + count < 2 ^ 64) :
    (∃ j, scan m g i count = some j ∧ i.toNat ≤ j.toNat ∧ j.toNat < i.toNat + count ∧
      bitTest m g j = false) ∨
    (scan m g i count = none ∧ ∀ j : Word, i.toNat ≤ j.toNat → j.toNat < i.toNat + count →
      bitTest m g j = true) := by
  induction count generalizing i with
  | zero =>
      right
      exact ⟨rfl, fun j past before => absurd before (by omega)⟩
  | succ count ih =>
      rw [scan]
      cases bit : bitTest m g i with
      | false => exact .inl ⟨i, rfl, Nat.le_refl _, by omega, bit⟩
      | true =>
          have next : (i + 1).toNat = i.toNat + 1 := by bv_omega
          rcases ih (i + 1) (by omega) with ⟨j, found, past, before, clear⟩ | ⟨exhausted, full⟩
          · exact .inl ⟨j, found, by omega, by omega, clear⟩
          · right
            refine ⟨exhausted, fun j past before => ?_⟩
            by_cases here : j = i
            · rw [here, bit]
            · exact full j (by bv_omega) (by omega)

theorem scanPasses_cases {m : Memory} {g : Globals} (bounded : g.totalFrames.toNat < 2 ^ 63)
    (hint : g.nextHint.toNat ≤ g.totalFrames.toNat) :
    (∃ j, scanPasses m g = some j ∧ j.toNat < g.totalFrames.toNat ∧ bitTest m g j = false) ∨
    (scanPasses m g = none ∧ ∀ j : Word, j.toNat < g.totalFrames.toNat →
      bitTest m g j = true) := by
  have firstPass := scan_cases m g g.nextHint
    (g.totalFrames.toNat - g.nextHint.toNat) (by omega)
  have secondPass := scan_cases m g 0 g.nextHint.toNat (by bv_omega)
  rw [scanPasses]
  rcases firstPass with ⟨j, found, -, before, clear⟩ | ⟨exhausted, fullAbove⟩
  · rw [found]
    exact .inl ⟨j, rfl, by omega, clear⟩
  · rw [exhausted]
    rcases secondPass with ⟨j, found, -, before, clear⟩ | ⟨exhausted, fullBelow⟩
    · exact .inl ⟨j, found, by bv_omega, clear⟩
    · right
      refine ⟨exhausted, fun j inside => ?_⟩
      rcases Nat.lt_or_ge j.toNat g.nextHint.toNat with below | above
      · exact fullBelow j (by bv_omega) (by bv_omega)
      · exact fullAbove j above (by omega)

/-! ## The set of clear bits -/

/-- The bitmap lies in `bitmapFrames` and its clear bits are the frames of `clear`, all
of them in the span: the bits that pad the last byte are set. -/
structure Marks (hhdm : Word) (bitmapFrames clear : Set Nat) (m : Memory) (g : Globals) : Prop where
  total : g.totalFrames.toNat < 2 ^ 52
  bytes : g.bitmapBytes.toNat = (g.totalFrames.toNat + 7) / 8
  stored : ∀ i : Word, i.toNat < 8 * g.bitmapBytes.toNat →
    frameOf hhdm (g.bitmap + i / 8) ∈ bitmapFrames
  bits : ∀ i : Word, i.toNat < 8 * g.bitmapBytes.toNat → (bitTest m g i = false ↔ i.toNat ∈ clear)
  bounded : ∀ frame ∈ clear, frame < g.totalFrames.toNat

/-- The frames of the span whose bit is clear. -/
def clearFrames (m : Memory) (g : Globals) : Set Nat :=
  {frame | frame < g.totalFrames.toNat ∧ bitTest m g (BitVec.ofNat 64 frame) = false}

theorem ncard_le_of_lt {frames : Set Nat} {total : Nat} (bounded : ∀ frame ∈ frames, frame < total) :
    frames.ncard ≤ total := by
  have inside := Set.ncard_le_ncard (t := (Finset.range total : Set Nat))
    (fun frame member => by simpa using bounded frame member) (Finset.finite_toSet _)
  rwa [Set.ncard_coe_finset, Finset.card_range] at inside

namespace Marks

variable {hhdm : Word} {bitmapFrames clear : Set Nat} {m m' : Memory} {g g' : Globals}

theorem frame_lt (marks : Marks hhdm bitmapFrames clear m g) {frame : Nat}
    (member : frame ∈ clear) : frame < 2 ^ 52 :=
  Nat.lt_trans (marks.bounded frame member) marks.total

theorem stored_of_span (marks : Marks hhdm bitmapFrames clear m g) {i : Nat}
    (inside : i < g.totalFrames.toNat) : i < 8 * g.bitmapBytes.toNat := by
  have bytes := marks.bytes
  omega

theorem bit (marks : Marks hhdm bitmapFrames clear m g) {i : Word}
    (inside : i.toNat < g.totalFrames.toNat) : bitTest m g i = false ↔ i.toNat ∈ clear :=
  marks.bits i (marks.stored_of_span inside)

theorem finite (marks : Marks hhdm bitmapFrames clear m g) : clear.Finite :=
  (Set.finite_lt_nat g.totalFrames.toNat).subset marks.bounded

theorem ncard_le (marks : Marks hhdm bitmapFrames clear m g) :
    clear.ncard ≤ g.totalFrames.toNat := ncard_le_of_lt marks.bounded

theorem clearFrames_eq (marks : Marks hhdm bitmapFrames clear m g) : clearFrames m g = clear := by
  have total := marks.total
  ext frame
  constructor
  · intro member
    have inside := member.1
    have small : (BitVec.ofNat 64 frame).toNat = frame := by bv_omega
    have bit := (marks.bit (by rw [small]; exact inside)).mp member.2
    rwa [small] at bit
  · intro member
    have inside := marks.bounded frame member
    have small : (BitVec.ofNat 64 frame).toNat = frame := by bv_omega
    refine ⟨inside, (marks.bit (by rw [small]; exact inside)).mpr ?_⟩
    rwa [small]

/-- Only the bytes of the bitmap matter, and where it lies. -/
theorem congr (marks : Marks hhdm bitmapFrames clear m g)
    (same : Set.EqOn m' m (frameBytes hhdm bitmapFrames))
    (sameBitmap : g'.bitmap = g.bitmap) (sameBytes : g'.bitmapBytes = g.bitmapBytes)
    (sameTotal : g'.totalFrames = g.totalFrames) :
    Marks hhdm bitmapFrames clear m' g' where
  total := by rw [sameTotal]; exact marks.total
  bytes := by rw [sameBytes, sameTotal]; exact marks.bytes
  stored := by rw [sameBitmap, sameBytes]; exact marks.stored
  bits := by
    intro i inside
    rw [sameBytes] at inside
    rw [bitTest_congr m g i sameBitmap (same (marks.stored i inside))]
    exact marks.bits i inside
  bounded := by rw [sameTotal]; exact marks.bounded

theorem bitmap_frame (marks : Marks hhdm bitmapFrames clear m g) {i : Word}
    (inside : i.toNat < g.totalFrames.toNat) (value : Byte) :
    Set.EqOn (m.store8 (g.bitmap + i / 8) value) m (frameBytes hhdm bitmapFrames)ᶜ := by
  apply eqOn_compl_mono (store8_frame m _ value)
  rw [Set.singleton_subset_iff]
  exact marks.stored i (marks.stored_of_span inside)

theorem set (marks : Marks hhdm bitmapFrames clear m g) (i : Word) :
    Marks hhdm bitmapFrames (clear \ {i.toNat}) (bitSet m g i) g where
  total := marks.total
  bytes := marks.bytes
  stored := marks.stored
  bits := by
    intro j inside
    rw [bitTest_bitSet, Set.mem_sdiff, Set.mem_singleton_iff, BitVec.toNat_inj]
    by_cases same : j = i
    · simp [same]
    · rw [if_neg same, marks.bits j inside]
      simp [same]
  bounded := fun frame inside => marks.bounded frame inside.1

theorem unset (marks : Marks hhdm bitmapFrames clear m g) {i : Word}
    (inside : i.toNat < g.totalFrames.toNat) :
    Marks hhdm bitmapFrames (insert i.toNat clear) (bitClear m g i) g where
  total := marks.total
  bytes := marks.bytes
  stored := marks.stored
  bits := by
    intro j within
    rw [bitTest_bitClear, Set.mem_insert_iff, BitVec.toNat_inj]
    by_cases same : j = i
    · simp [same]
    · rw [if_neg same, marks.bits j within]
      simp [same]
  bounded := by
    intro frame member
    cases member with
    | inl same => exact same ▸ inside
    | inr old => exact marks.bounded frame old

end Marks

/-! ## The set of free frames -/

/-- The clear bits are the free frames, and the counter and the hint agree with them. -/
structure Tracks (hhdm : Word) (bitmapFrames free : Set Nat) (m : Memory) (g : Globals) : Prop
    extends Marks hhdm bitmapFrames free m g where
  zero : 0 ∉ free
  apart : Disjoint free bitmapFrames
  counted : g.freeFrames.toNat = free.ncard
  hint : g.nextHint.toNat ≤ g.totalFrames.toNat

namespace Tracks

variable {hhdm : Word} {bitmapFrames free : Set Nat} {m m' : Memory} {g : Globals}

theorem frame_lt (tracks : Tracks hhdm bitmapFrames free m g) {frame : Nat}
    (member : frame ∈ free) : frame < 2 ^ 52 := tracks.toMarks.frame_lt member

/-- Only the bytes of the bitmap matter. -/
theorem congr (tracks : Tracks hhdm bitmapFrames free m g)
    (same : Set.EqOn m' m (frameBytes hhdm bitmapFrames)) :
    Tracks hhdm bitmapFrames free m' g :=
  { tracks with toMarks := tracks.toMarks.congr same rfl rfl rfl }

theorem take (tracks : Tracks hhdm bitmapFrames free m g) {i : Word} (member : i.toNat ∈ free)
    (nextHint : Word) (hint : nextHint.toNat ≤ g.totalFrames.toNat) :
    Tracks hhdm bitmapFrames (free \ {i.toNat}) (bitSet m g i)
      { g with freeFrames := g.freeFrames - 1, nextHint } where
  toMarks := (tracks.toMarks.set i).congr (Set.eqOn_refl _ _) rfl rfl rfl
  zero := fun member => tracks.zero member.1
  apart := tracks.apart.mono_left Set.sdiff_subset
  counted := by
    have removed := Set.ncard_sdiff_singleton_of_mem member
    have positive := Set.ncard_pos tracks.finite |>.mpr ⟨_, member⟩
    have counted := tracks.counted
    change (g.freeFrames - 1).toNat = _
    bv_omega
  hint := hint

theorem give (tracks : Tracks hhdm bitmapFrames free m g) {i : Word}
    (inside : i.toNat < g.totalFrames.toNat) (nonzero : i.toNat ≠ 0)
    (used : i.toNat ∉ free) (outside : i.toNat ∉ bitmapFrames)
    (nextHint : Word) (hint : nextHint.toNat ≤ g.totalFrames.toNat) :
    Tracks hhdm bitmapFrames (insert i.toNat free) (bitClear m g i)
      { g with freeFrames := g.freeFrames + 1, nextHint } where
  toMarks := (tracks.toMarks.unset inside).congr (Set.eqOn_refl _ _) rfl rfl rfl
  zero := fun member => member.elim (fun same => nonzero same.symm) tracks.zero
  apart := by
    rw [Set.disjoint_insert_left]
    exact ⟨outside, tracks.apart⟩
  counted := by
    have added := Set.ncard_insert_of_notMem used tracks.finite
    have counted := tracks.counted
    have room := tracks.ncard_le
    have total := tracks.total
    change (g.freeFrames + 1).toNat = _
    bv_omega
  hint := hint

/-! ## The operations -/

/-- What `pmm_alloc_frame` can do: it refuses when no frame is free, and otherwise
hands out a free frame. -/
inductive Allocated (hhdm : Word) (bitmapFrames free : Set Nat) (m : Memory) (g : Globals) :
    Word × Memory × Globals → Prop where
  | refused : free = ∅ → Allocated hhdm bitmapFrames free m g (0, m, g)
  | served {frame : Nat} {m' : Memory} {g' : Globals} :
      frame ∈ free → Tracks hhdm bitmapFrames (free \ {frame}) m' g' →
      Set.EqOn m' m (frameBytes hhdm bitmapFrames)ᶜ → g'.totalFrames = g.totalFrames →
      Allocated hhdm bitmapFrames free m g (frameAddress frame, m', g')

theorem allocFrame (tracks : Tracks hhdm bitmapFrames free m g) :
    Allocated hhdm bitmapFrames free m g (pmmAllocFrame m g) := by
  have total := tracks.total
  rw [pmmAllocFrame]
  split
  · next exhausted =>
    apply Allocated.refused
    rw [← Set.ncard_eq_zero tracks.finite, ← tracks.counted, exhausted]
    rfl
  · next available =>
    rcases scanPasses_cases (m := m) (by omega) tracks.hint with ⟨i, found, inside, clear⟩ | ⟨exhausted, full⟩
    · have member := (tracks.bit inside).mp clear
      have address : i * pmmFrameSize = frameAddress i.toNat := by
        unfold frameAddress
        bv_omega
      rw [found]
      dsimp only
      rw [address]
      exact .served member (tracks.take member (i + 1) (by bv_omega)) (tracks.bitmap_frame inside _) rfl
    · rw [exhausted]
      apply Allocated.refused
      rw [Set.eq_empty_iff_forall_notMem]
      intro frame member
      have inside := tracks.bounded frame member
      have small : (BitVec.ofNat 64 frame).toNat = frame := by bv_omega
      have set := full (BitVec.ofNat 64 frame) (by omega)
      have clear := (tracks.bit (i := BitVec.ofNat 64 frame) (by omega)).mpr (by rwa [small])
      rw [set] at clear
      cases clear

private theorem index_toNat (frame : Nat) (bounded : frame < 2 ^ 52) :
    (frameAddress frame / pmmFrameSize).toNat = frame := by
  rw [BitVec.toNat_udiv]
  exact frameAddress_div bounded

theorem freeFrame (tracks : Tracks hhdm bitmapFrames free m g) {frame : Nat}
    (inside : frame < g.totalFrames.toNat) (nonzero : frame ≠ 0)
    (used : frame ∉ free) (outside : frame ∉ bitmapFrames) :
    Tracks hhdm bitmapFrames (insert frame free) (pmmFreeFrame m g (frameAddress frame)).1
        (pmmFreeFrame m g (frameAddress frame)).2 ∧
      Set.EqOn (pmmFreeFrame m g (frameAddress frame)).1 m (frameBytes hhdm bitmapFrames)ᶜ ∧
      (pmmFreeFrame m g (frameAddress frame)).2.totalFrames = g.totalFrames := by
  have total := tracks.total
  have index := index_toNat frame (by omega)
  rw [pmmFreeFrame]
  generalize frameAddress frame / pmmFrameSize = i at index
  subst index
  have set : bitTest m g i = true := by
    cases bit : bitTest m g i with
    | false => exact absurd ((tracks.bit inside).mp bit) used
    | true => rfl
  have hint : (if i < g.nextHint then i else g.nextHint).toNat ≤ g.totalFrames.toNat := by
    have hint := tracks.hint
    split <;> omega
  simp only [set, Bool.not_true, Bool.false_eq_true, if_false]
  exact ⟨tracks.give inside nonzero used outside _ hint, tracks.bitmap_frame inside _, trivial⟩

/-- What `pmm_claim_frame` can do: take the frame when it is free, and nothing otherwise. -/
inductive Claimed (hhdm : Word) (bitmapFrames free : Set Nat) (m : Memory) (g : Globals)
    (frame : Nat) : Bool × Memory × Globals → Prop where
  | refused : frame ∉ free → Claimed hhdm bitmapFrames free m g frame (false, m, g)
  | taken {m' : Memory} {g' : Globals} :
      frame ∈ free → Tracks hhdm bitmapFrames (free \ {frame}) m' g' →
      Set.EqOn m' m (frameBytes hhdm bitmapFrames)ᶜ → g'.totalFrames = g.totalFrames →
      Claimed hhdm bitmapFrames free m g frame (true, m', g')

theorem claimFrame (tracks : Tracks hhdm bitmapFrames free m g) (phys : Word) :
    Claimed hhdm bitmapFrames free m g (phys.toNat / 4096) (pmmClaimFrame m g phys) := by
  have index := frameIndex_toNat phys
  rw [pmmClaimFrame, ← index]
  generalize phys / pmmFrameSize = i
  split
  · next refused =>
    apply Claimed.refused
    intro member
    have inside := tracks.bounded _ member
    have clear := (tracks.bit inside).mpr member
    rcases refused with past | set
    · bv_omega
    · rw [set] at clear
      cases clear
  · next taken =>
    rw [not_or] at taken
    have inside : i.toNat < g.totalFrames.toNat := by bv_omega
    have member : i.toNat ∈ free := (tracks.bit inside).mp (Bool.eq_false_iff.mpr taken.2)
    exact .taken member (tracks.take member g.nextHint tracks.hint)
      (tracks.bitmap_frame inside _) rfl

end Tracks

end ScrapOS.Pmm
