import ScrapOS.Lib.String

/-! Linear framebuffers of four bytes a pixel, whose scanlines may be padded. Distinct
pixels have distinct bytes, so a store changes one pixel, and moving whole scanlines to the
top of the framebuffer shifts the picture up. -/

set_option autoImplicit false

namespace ScrapOS

/-- A framebuffer of `height` scanlines of `pitch` bytes; the first `4 * width` bytes of a
scanline are its visible pixels. -/
structure Raster where
  base : Word
  width : Nat
  height : Nat
  pitch : Nat
  room : 4 * width ≤ pitch
  fits : base.toNat + height * pitch ≤ 2 ^ 64

namespace Raster

variable {r : Raster} {m : Memory} {x y x' y' : Nat} {colour : BitVec 32}

def offset (r : Raster) (x y : Nat) : Nat := y * r.pitch + 4 * x

def address (r : Raster) (x y : Nat) : Word := r.base + BitVec.ofNat 64 (r.offset x y)

def pixel (r : Raster) (m : Memory) (x y : Nat) : BitVec 32 := m.load32 (r.address x y)

/-- The bytes of a visible pixel lie inside its scanline. -/
theorem offset_le (xInside : x < r.width) (yInside : y < r.height) :
    r.offset x y + 4 ≤ (y + 1) * r.pitch ∧ (y + 1) * r.pitch ≤ r.height * r.pitch := by
  have room := r.room
  refine ⟨?_, Nat.mul_le_mul_right _ yInside⟩
  rw [offset, Nat.succ_mul y]
  omega

theorem address_toNat (xInside : x < r.width) (yInside : y < r.height) :
    (r.address x y).toNat = r.base.toNat + r.offset x y := by
  have inside := r.offset_le xInside yInside
  have fits := r.fits
  have small : r.base.toNat + r.offset x y < 2 ^ 64 := by omega
  rw [address, BitVec.toNat_add, BitVec.toNat_ofNat, Nat.add_mod_mod, Nat.mod_eq_of_lt small]

theorem offset_apart (xInside : x < r.width) (xInside' : x' < r.width)
    (different : ¬ (x = x' ∧ y = y')) :
    r.offset x y + 4 ≤ r.offset x' y' ∨ r.offset x' y' + 4 ≤ r.offset x y := by
  have room := r.room
  rcases Nat.lt_trichotomy y y' with above | same | below
  · have lines : (y + 1) * r.pitch ≤ y' * r.pitch := Nat.mul_le_mul_right _ above
    rw [Nat.succ_mul y] at lines
    unfold offset
    omega
  · subst same
    unfold offset
    omega
  · have lines : (y' + 1) * r.pitch ≤ y * r.pitch := Nat.mul_le_mul_right _ below
    rw [Nat.succ_mul y'] at lines
    unfold offset
    omega

theorem pixel_store (xInside : x < r.width) (yInside : y < r.height) (xInside' : x' < r.width)
    (yInside' : y' < r.height) :
    r.pixel (m.store32 (r.address x' y') colour) x y =
      if x = x' ∧ y = y' then colour else r.pixel m x y := by
  split
  · next same =>
    obtain ⟨rfl, rfl⟩ := same
    exact Memory.load32_store32 ..
  · next different =>
    have place := address_toNat xInside yInside
    have place' := address_toNat xInside' yInside'
    have apart := r.offset_apart xInside xInside' different
    have inside := r.offset_le xInside yInside
    have inside' := r.offset_le xInside' yInside'
    have fits := r.fits
    unfold pixel
    generalize r.address x y = target at *
    generalize r.address x' y' = written at *
    exact Memory.load32_store32_of_apart m (by bv_omega) (by bv_omega)

theorem store_frame (xInside : x < r.width) (yInside : y < r.height) :
    Set.EqOn (m.store32 (r.address x y) colour) m (span r.base (r.height * r.pitch))ᶜ := by
  have inside := r.offset_le xInside yInside
  have fits := r.fits
  have distance : (r.address x y - r.base).toNat = r.offset x y := by
    unfold address
    bv_omega
  exact eqOn_compl_mono (Memory.store32_eqOn_compl ..) (span_subset (by omega))

/-- Moving all scanlines from the `lines`-th on to the top shifts the picture up. -/
theorem pixel_scroll {lines : Nat} (few : lines ≤ r.height) (xInside : x < r.width)
    (yInside : y < r.height) :
    r.pixel (memmove m r.base (r.base + BitVec.ofNat 64 (lines * r.pitch))
        ((r.height - lines) * r.pitch)) x y =
      if y + lines < r.height then r.pixel m x (y + lines) else r.pixel m x y := by
  have whole : lines * r.pitch + (r.height - lines) * r.pitch = r.height * r.pitch := by
    rw [← Nat.add_mul, Nat.add_sub_cancel' few]
  have fits := r.fits
  have inside := r.offset_le xInside yInside
  split
  · next moved =>
    have source := r.offset_le xInside moved
    have shift : r.offset x (y + lines) = r.offset x y + lines * r.pitch := by
      unfold offset
      rw [Nat.add_mul]
      omega
    refine congrArg _ (Memory.load_moved fun i inPixel => ?_)
    have target : r.address x y + BitVec.ofNat 64 i =
        r.base + BitVec.ofNat 64 (r.offset x y + i) := by
      unfold address
      bv_omega
    have origin : r.address x (y + lines) + BitVec.ofNat 64 i =
        r.base + BitVec.ofNat 64 (lines * r.pitch) + BitVec.ofNat 64 (r.offset x y + i) := by
      rw [address, shift]
      bv_omega
    rw [target, origin]
    exact memmove_inside (by omega) (by bv_omega) (by omega)
  · next kept =>
    refine Memory.load32_congr fun address member => memmove_frame (by omega) ?_
    intro overwritten
    have beyond : (r.height - lines) * r.pitch ≤ y * r.pitch := Nat.mul_le_mul_right _ (by omega)
    have place := address_toNat xInside yInside
    have start : y * r.pitch ≤ r.offset x y := Nat.le_add_right ..
    rw [mem_span] at member overwritten
    generalize r.address x y = target at *
    bv_omega

end Raster

end ScrapOS
