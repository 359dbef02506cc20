import ScrapOS.Console.Bounds
import ScrapOS.Raster.Basic

/-! The visible pixels of the framebuffer: what putting pixels, blanking and scrolling do to
them, and which bytes they leave alone. -/

set_option autoImplicit false

namespace ScrapOS.Console

/-! ## Pictures -/

/-- A framebuffer lies within the address space. -/
def Mapped (g : Globals) : Prop :=
  g.fbBase.toNat + g.fbHeight.toNat * g.fbPitch.toNat ≤ 2 ^ 64

/-- The globals describe a framebuffer of 32 bits a pixel. -/
structure Framed (g : Globals) : Prop where
  bytesPp : g.fbBytesPp = 4
  pitch : 4 * g.fbWidth.toNat ≤ g.fbPitch.toNat
  mapped : Mapped g

theorem Fits.framed {g : Globals} (fits : Fits g) (mapped : Mapped g) : Framed g :=
  ⟨fits.bytesPp, fits.pitch, mapped⟩

/-- The framebuffer of the globals. -/
def Framed.raster {g : Globals} (framed : Framed g) : Raster where
  base := g.fbBase
  width := g.fbWidth.toNat
  height := g.fbHeight.toNat
  pitch := g.fbPitch.toNat
  room := framed.pitch
  fits := framed.mapped

/-- The pixel at column `x` of scanline `y`, as `put_pixel` addresses it. -/
def screenPixel (g : Globals) (m : Memory) (x y : Nat) : BitVec 32 :=
  m.load32 (pixelAddress g (BitVec.ofNat 32 x) (BitVec.ofNat 32 y))

abbrev Picture := Nat → Nat → BitVec 32

/-- The visible pixels are those of a picture. -/
def Pictured (g : Globals) (m : Memory) (p : Picture) : Prop :=
  ∀ x y, x < g.fbWidth.toNat → y < g.fbHeight.toNat → screenPixel g m x y = p x y

theorem Pictured.congr {g : Globals} {m : Memory} {p p' : Picture} (pictured : Pictured g m p)
    (same : ∀ x y, x < g.fbWidth.toNat → y < g.fbHeight.toNat → p x y = p' x y) :
    Pictured g m p' := fun x y xInside yInside =>
  (pictured x y xInside yInside).trans (same x y xInside yInside)

section Painting

variable {g : Globals} {m : Memory} {p p' : Picture} {x y : Nat}

theorem pixelAddress_eq (framed : Framed g) (x y : BitVec 32) :
    pixelAddress g x y = framed.raster.address x.toNat y.toNat := by
  have four : (g.fbBytesPp.setWidth 64 : Word) = 4 := by
    rw [framed.bytesPp]
    decide
  have wide : ∀ a : BitVec 32, (a.setWidth 64 : Word) = BitVec.ofNat 64 a.toNat := by
    intro a
    apply BitVec.eq_of_toNat_eq
    rw [BitVec.toNat_setWidth, BitVec.toNat_ofNat]
  rw [pixelAddress, four, wide, wide, wide, Raster.address, Raster.offset, Nat.mul_comm 4,
    BitVec.ofNat_add, BitVec.ofNat_mul, BitVec.ofNat_mul, BitVec.add_assoc]
  rfl

theorem screenPixel_eq (framed : Framed g) (xInside : x < g.fbWidth.toNat)
    (yInside : y < g.fbHeight.toNat) : screenPixel g m x y = framed.raster.pixel m x y := by
  have wide := g.fbWidth.isLt
  have high := g.fbHeight.isLt
  rw [screenPixel, pixelAddress_eq framed, BitVec.toNat_ofNat, BitVec.toNat_ofNat,
    Nat.mod_eq_of_lt (by omega), Nat.mod_eq_of_lt (by omega), Raster.pixel]

/-- An effect that only puts pixels puts them in the colours of the picture `p'`. -/
def Event.Paints (p' : Picture) : Event → Prop
  | .pixel x y colour => colour = p' x.toNat y.toNat
  | .move _ _ _ => False
  | .sub _ _ => True

/-- Putting pixels in the colours of a picture gives that picture, where the old picture
already agrees with it on the pixels that are not put. -/
theorem Pictured.paint {events : List Event} (framed : Framed g)
    (pictured : Pictured g m p) (safe : AllSafe g events) (paints : ∀ e ∈ events, e.Paints p')
    (others : ∀ x y, x < g.fbWidth.toNat → y < g.fbHeight.toNat → p x y = p' x y ∨
      ∃ a b colour, Event.pixel a b colour ∈ events ∧ a.toNat = x ∧ b.toNat = y) :
    Pictured g (applyAll g m events) p' := by
  induction events generalizing m p with
  | nil =>
      refine pictured.congr fun x y xInside yInside => ?_
      rcases others x y xInside yInside with same | ⟨_, _, _, member, _⟩
      · exact same
      · cases member
  | cons event rest ih =>
      rw [AllSafe.cons_iff] at safe
      have restPaints : ∀ e ∈ rest, e.Paints p' := fun e member =>
        paints e (List.mem_cons_of_mem _ member)
      have first := paints event List.mem_cons_self
      cases event with
      | move dest src bytes => exact first.elim
      | sub a b =>
        refine ih pictured safe.2 restPaints fun x y xInside yInside => ?_
        rcases others x y xInside yInside with same | ⟨a', b', colour, member, place⟩
        · exact .inl same
        · cases member with
          | tail _ later => exact .inr ⟨a', b', colour, later, place⟩
      | pixel a b colour =>
        obtain ⟨aInside, bInside⟩ := safe.1
        have stored : Pictured g (m.store32 (pixelAddress g a b) colour)
            (fun x y => if x = a.toNat ∧ y = b.toNat then colour else p x y) := by
          intro x y xInside yInside
          rw [screenPixel_eq framed xInside yInside, pixelAddress_eq framed,
            Raster.pixel_store (r := framed.raster) xInside yInside aInside bInside,
            ← screenPixel_eq framed xInside yInside, pictured x y xInside yInside]
        refine ih stored safe.2 restPaints fun x y xInside yInside => ?_
        by_cases here : x = a.toNat ∧ y = b.toNat
        · rw [if_pos here, here.1, here.2]
          exact .inl first
        · rw [if_neg here]
          rcases others x y xInside yInside with same | ⟨a', b', colour', member, place⟩
          · exact .inl same
          · cases member with
            | head => exact absurd ⟨place.1.symm, place.2.symm⟩ here
            | tail _ later => exact .inr ⟨a', b', colour', later, place⟩

theorem Pictured.blankFrom (framed : Framed g) (pictured : Pictured g m p)
    (start : BitVec 32) : Pictured g (applyAll g m (Console.blankFrom g start))
      (fun x y => if start.toNat ≤ y then bg else p x y) := by
  have wide := g.fbWidth.isLt
  have high := g.fbHeight.isLt
  refine pictured.paint framed (blankFrom_safe g start) ?_ ?_
  · intro event member
    simp only [Console.blankFrom, List.mem_flatMap, List.mem_map, mem_upTo] at member
    obtain ⟨b, inRows, a, inColumns, rfl⟩ := member
    rw [Event.Paints, if_pos inRows.1]
  · intro x y xInside yInside
    by_cases blanked : start.toNat ≤ y
    · right
      have xStep : (BitVec.ofNat 32 x).toNat = x := by
        rw [BitVec.toNat_ofNat]
        omega
      have yStep : (BitVec.ofNat 32 y).toNat = y := by
        rw [BitVec.toNat_ofNat]
        omega
      refine ⟨BitVec.ofNat 32 x, BitVec.ofNat 32 y, bg, List.mem_flatMap.mpr
        ⟨BitVec.ofNat 32 y, mem_upTo.mpr ?_, List.mem_map.mpr
          ⟨BitVec.ofNat 32 x, mem_upTo.mpr ?_, rfl⟩⟩, xStep, yStep⟩
      · rw [yStep]
        exact ⟨blanked, yInside⟩
      · rw [xStep]
        exact ⟨Nat.zero_le _, xInside⟩
    · left
      rw [if_neg blanked]

theorem Pictured.scroll (framed : Framed g) (scrolls : Scrolls g) (pictured : Pictured g m p) :
    Pictured g (applyAll g m (Console.scroll g)) (fun x y =>
      if (g.rows.toNat - 1) * g.glyphH.toNat ≤ y then bg else p x (y + g.glyphH.toNat)) := by
  obtain ⟨bytes, source⟩ := scroll_move scrolls
  have rows := scrolls.rows
  have several := rows_pos scrolls
  have tall := scrolls.tall
  have high := g.fbHeight.isLt
  have last : (g.rows.toNat - 1) * g.glyphH.toNat + g.glyphH.toNat ≤ g.fbHeight.toNat := by
    rw [← Nat.succ_mul, Nat.succ_eq_add_one, Nat.sub_add_cancel several, rows]
    exact Nat.div_mul_le_self ..
  have start : ((g.rows - 1) * g.glyphH).toNat = (g.rows.toNat - 1) * g.glyphH.toNat := by
    have before : (g.rows - 1).toNat = g.rows.toNat - 1 := by
      have one : (1 : BitVec 32).toNat = 1 := rfl
      bv_omega
    rw [BitVec.toNat_mul, before, Nat.mod_eq_of_lt (by omega)]
  have moved : Pictured g (memmove m g.fbBase
      (g.fbBase + BitVec.ofNat 64 (g.glyphH.toNat * g.fbPitch.toNat))
      ((g.fbHeight.toNat - g.glyphH.toNat) * g.fbPitch.toNat))
      (fun x y => if y + g.glyphH.toNat < g.fbHeight.toNat then p x (y + g.glyphH.toNat)
        else p x y) := by
    intro x y xInside yInside
    rw [screenPixel_eq framed xInside yInside]
    refine (framed.raster.pixel_scroll tall xInside yInside).trans ?_
    split
    · next below =>
      rw [← screenPixel_eq framed xInside below, pictured x _ xInside below]
      exact (if_pos below).symm
    · next last =>
      rw [← screenPixel_eq framed xInside yInside, pictured x y xInside yInside]
      exact (if_neg last).symm
  have blanked := moved.blankFrom framed ((g.rows - 1) * g.glyphH)
  rw [start] at blanked
  have done : applyAll g m (Console.scroll g) =
      applyAll g (memmove m g.fbBase
        (g.fbBase + BitVec.ofNat 64 (g.glyphH.toNat * g.fbPitch.toNat))
        ((g.fbHeight.toNat - g.glyphH.toNat) * g.fbPitch.toNat))
        (Console.blankFrom g ((g.rows - 1) * g.glyphH)) := by
    rw [← bytes, ← source]
    rfl
  rw [done]
  refine blanked.congr fun x y xInside yInside => ?_
  split
  · rfl
  · exact if_pos (by omega)

end Painting

/-! ## What stays as it is -/

section Frame

variable {g : Globals} {m : Memory}

/-- The bytes of the framebuffer. -/
def screenBytes (g : Globals) : Set Word :=
  span g.fbBase (g.fbHeight.toNat * g.fbPitch.toNat)

theorem Event.Safe.frame {event : Event} (framed : Framed g) (safe : event.Safe g) :
    Set.EqOn (event.apply g m) m (screenBytes g)ᶜ := by
  cases event with
  | pixel x y colour =>
      rw [Event.apply, pixelAddress_eq framed]
      exact framed.raster.store_frame safe.1 safe.2
  | move dest src bytes =>
      exact eqOn_compl_mono (memmove_frame (Nat.le_of_lt bytes.isLt)) (span_subset safe.1)
  | sub a b => exact fun _ _ => rfl

/-- Effects that stay on the screen change no other byte. -/
theorem AllSafe.frame {events : List Event} (framed : Framed g) (safe : AllSafe g events) :
    Set.EqOn (applyAll g m events) m (screenBytes g)ᶜ := by
  induction events generalizing m with
  | nil => exact fun _ _ => rfl
  | cons event rest ih =>
      obtain ⟨first, later⟩ := AllSafe.cons_iff.mp safe
      exact (ih later).trans (first.frame framed)

end Frame

/-! ## Scrolling -/

/-- For every framebuffer and every glyph height: each visible pixel above the last text row
is the one that was a text row below it, the rest of the screen is background, and no byte
outside the framebuffer changes. -/
theorem scroll_shifts_picture {g : Globals} (framed : Framed g) (scrolls : Scrolls g) (m : Memory) :
    (∀ x y, x < g.fbWidth.toNat → y < (g.rows.toNat - 1) * g.glyphH.toNat →
      screenPixel g (applyAll g m (scroll g)) x y = screenPixel g m x (y + g.glyphH.toNat)) ∧
    (∀ x y, x < g.fbWidth.toNat → (g.rows.toNat - 1) * g.glyphH.toNat ≤ y →
      y < g.fbHeight.toNat → screenPixel g (applyAll g m (scroll g)) x y = bg) ∧
    Set.EqOn (applyAll g m (scroll g)) m (screenBytes g)ᶜ := by
  have before : Pictured g m (screenPixel g m) := fun _ _ _ _ => rfl
  have after := before.scroll framed scrolls
  have strip : (g.rows.toNat - 1) * g.glyphH.toNat ≤ g.fbHeight.toNat := by
    calc (g.rows.toNat - 1) * g.glyphH.toNat
        ≤ g.rows.toNat * g.glyphH.toNat := Nat.mul_le_mul_right _ (Nat.sub_le _ _)
      _ ≤ g.fbHeight.toNat := by
        rw [scrolls.rows]
        exact Nat.div_mul_le_self ..
  refine ⟨?_, ?_, (scroll_safe scrolls).frame framed⟩
  · intro x y xInside above
    rw [after x y xInside (Nat.lt_of_lt_of_le above strip)]
    exact if_neg (Nat.not_le.mpr above)
  · intro x y xInside below yInside
    rw [after x y xInside yInside]
    exact if_pos below

/-- Two text rows of eight scanlines and a strip of four, with padded scanlines. -/
def paddedScreen : Globals :=
  { bootGlobals with
    fbBase := 0xfd000000
    fbWidth := 20
    fbHeight := 20
    fbPitch := 96
    fbBytesPp := 4
    glyphH := 8
    rows := 2 }

/-- A pixel of the second text row moves to the first, and the strip is background. -/
theorem scroll_shifts_picture_paddedScreen :
    screenPixel paddedScreen (applyAll paddedScreen (fun _ => 0x41) (scroll paddedScreen)) 19 7 =
        screenPixel paddedScreen (fun _ => 0x41) 19 15 ∧
      screenPixel paddedScreen (applyAll paddedScreen (fun _ => 0x41) (scroll paddedScreen)) 3 19 =
        bg := by
  have mapped : Mapped paddedScreen := by
    unfold Mapped
    decide
  have scrolls : Scrolls paddedScreen := ⟨by decide, by decide, by decide⟩
  obtain ⟨moved, blanked, -⟩ :=
    scroll_shifts_picture ⟨rfl, by decide, mapped⟩ scrolls (fun _ => 0x41)
  exact ⟨moved 19 7 (by decide) (by decide), blanked 3 19 (by decide) (by decide) (by decide)⟩

end ScrapOS.Console
