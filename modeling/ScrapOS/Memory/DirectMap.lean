import ScrapOS.Memory.Bytes

/-! Physical frames as a direct map shows them: the frame at physical address
`phys` has its bytes at the virtual addresses from `phys + hhdm` on. -/

set_option autoImplicit false

namespace ScrapOS

/-- The frame an address of the direct map falls into. -/
def frameOf (hhdm address : Word) : Nat := (address - hhdm).toNat / 4096

/-- The physical address of a frame. -/
def frameAddress (frame : Nat) : Word := BitVec.ofNat 64 (frame * 4096)

/-- The bytes of some frames. -/
def frameBytes (hhdm : Word) (frames : Set Nat) : Set Word :=
  {address | frameOf hhdm address ∈ frames}

/-- The frames are reachable through the direct map: none of them is frame 0 and
none is mapped at the null pointer. -/
structure Usable (hhdm : Word) (managed : Set Nat) : Prop where
  zero : 0 ∉ managed
  nonnull : ∀ frame ∈ managed, BitVec.ofNat 64 (frame * 4096) + hhdm ≠ 0

theorem Usable.mono {hhdm : Word} {managed smaller : Set Nat} (usable : Usable hhdm managed)
    (subset : smaller ⊆ managed) : Usable hhdm smaller where
  zero := fun member => usable.zero (subset member)
  nonnull := fun frame member => usable.nonnull frame (subset member)

theorem Usable.union {hhdm : Word} {left right : Set Nat} (leftUsable : Usable hhdm left)
    (rightUsable : Usable hhdm right) : Usable hhdm (left ∪ right) where
  zero := fun member => member.elim leftUsable.zero rightUsable.zero
  nonnull := fun frame member =>
    member.elim (leftUsable.nonnull frame) (rightUsable.nonnull frame)

section Frames

variable {hhdm address : Word} {frames others : Set Nat} {frame other : Nat}

theorem mem_frameBytes : address ∈ frameBytes hhdm frames ↔ frameOf hhdm address ∈ frames :=
  Iff.rfl

theorem frameBytes_mono (subset : frames ⊆ others) :
    frameBytes hhdm frames ⊆ frameBytes hhdm others :=
  fun _ member => subset member

theorem frameBytes_union :
    frameBytes hhdm (frames ∪ others) = frameBytes hhdm frames ∪ frameBytes hhdm others := rfl

theorem frameBytes_disjoint (disjoint : Disjoint frames others) :
    Disjoint (frameBytes hhdm frames) (frameBytes hhdm others) :=
  Set.disjoint_left.mpr fun _ inFrames => Set.disjoint_left.mp disjoint inFrames

/-- A change that keeps to some frames spares the others. -/
theorem frameBytes_kept {m m' : Memory} (changed : Set.EqOn m' m (frameBytes hhdm others)ᶜ)
    (apart : Disjoint frames others) : Set.EqOn m' m (frameBytes hhdm frames) :=
  changed.mono (frameBytes_disjoint apart).subset_compl_right

theorem frameAddress_toNat (bounded : frame < 2 ^ 52) :
    (frameAddress frame).toNat = frame * 4096 := by
  unfold frameAddress
  bv_omega

theorem frameAddress_ne_zero (bounded : frame < 2 ^ 52) (positive : frame ≠ 0) :
    frameAddress frame ≠ 0 := by
  unfold frameAddress
  bv_omega

theorem frameAddress_div (bounded : frame < 2 ^ 52) : (frameAddress frame).toNat / 4096 = frame := by
  rw [frameAddress_toNat bounded]
  omega

theorem frameAddress_of_aligned {phys : Word} (aligned : phys.toNat % 4096 = 0) :
    frameAddress (phys.toNat / 4096) = phys := by
  unfold frameAddress
  bv_omega

theorem span_subset_frameBytes {offset : Word} {count : Nat} (bounded : frame < 2 ^ 52)
    (fits : offset.toNat + count ≤ 4096) :
    span (frameAddress frame + hhdm + offset) count ⊆ frameBytes hhdm {frame} := by
  intro address inside
  rw [mem_span] at inside
  rw [mem_frameBytes, Set.mem_singleton_iff, frameOf]
  have distance : (address - hhdm).toNat =
      frame * 4096 + offset.toNat + (address - (frameAddress frame + hhdm + offset)).toNat := by
    unfold frameAddress at *
    bv_omega
  omega

theorem page_eq_frameBytes (bounded : frame < 2 ^ 52) :
    span (frameAddress frame + hhdm) 4096 = frameBytes hhdm {frame} := by
  ext address
  rw [mem_span, mem_frameBytes, Set.mem_singleton_iff, frameOf]
  unfold frameAddress
  constructor
  · intro inside
    have distance : (address - hhdm).toNat =
        frame * 4096 + (address - (BitVec.ofNat 64 (frame * 4096) + hhdm)).toNat := by
      bv_omega
    omega
  · intro inside
    bv_omega

end Frames

end ScrapOS
