import ScrapOS.Console.Pixels
import ScrapOS.Console.Text

/-! The visible pixels of the framebuffer as a picture of a grid of cells: what drawing a
cell, painting the cursor and scrolling do to the cells. A cell is a character and, where
the cursor was painted over it, the colour of its bottom pixel row. -/

set_option autoImplicit false

namespace ScrapOS.Console

/-! ## Glyphs -/

/-- The glyph of a code; glyph 0 for codes without one. -/
def glyphIndex (code : Byte) : Nat := if code.toNat < psf2Header.length.toNat then code.toNat else 0

/-- The pixel of a glyph at column `cx` and row `r`, as the font file has it. -/
def glyphPixel (code : Byte) (cx r : Nat) : BitVec 32 :=
  let byte := fontPsf.getD (psf2Header.headersize.toNat + glyphIndex code * psf2Header.charsize.toNat +
    r * ((psf2Header.width.toNat + 7) / 8) + cx / 8) 0
  if byte.getLsbD (7 - cx % 8) then fg else bg

/-- The globals describe the embedded font. -/
structure Lettered (g : Globals) : Prop where
  glyphData : g.glyphData = 32
  glyphCount : g.glyphCount = 128
  glyphBytes : g.glyphBytes = 8
  gwBytes : g.gwBytes = 1

/-- `console_init` finds the font and starts on the first cell. -/
theorem consoleInit_start (g : Globals) (base : Word) (width height pitch : BitVec 32) :
    ((consoleInit g base width height pitch 32).1.curCol = 0 ∧
      (consoleInit g base width height pitch 32).1.curRow = 0) ∧
      Lettered (consoleInit g base width height pitch 32).1 := by
  have oneByte : ((8 : BitVec 32) + 7) / 8 = 1 := by decide
  rw [consoleInit, psf2Header_eq]
  dsimp only
  rw [if_neg (by decide)]
  exact ⟨⟨rfl, rfl⟩, rfl, rfl, rfl, oneByte⟩

theorem bit_eq : ∀ (byte : Byte) (k : Nat), k < 8 → ((byte >>> k) &&& 1 != 0) = byte.getLsbD k := by
  decide +kernel

theorem glyphBit_eq {g : Globals} (lettered : Lettered g) (code : Byte) {cx r : BitVec 32}
    (inWidth : cx.toNat < 8) (inHeight : r.toNat < 8) :
    (if glyphBit g (if code.setWidth 32 ≥ g.glyphCount then 0 else code.setWidth 32) r cx
      then fg else bg) = glyphPixel code cx.toNat r.toNat := by
  have index : (if code.setWidth 32 ≥ g.glyphCount then 0 else code.setWidth 32 : BitVec 32).toNat =
      glyphIndex code := by
    rw [lettered.glyphCount, glyphIndex, psf2Header_eq]
    have wide : (code.setWidth 32 : BitVec 32).toNat = code.toNat := by
      rw [BitVec.toNat_setWidth, Nat.mod_eq_of_lt (by omega)]
    by_cases missing : code.setWidth 32 ≥ (128 : BitVec 32)
    · rw [if_pos missing, if_neg]
      · rfl
      · rw [ge_iff_le, BitVec.le_def, wide] at missing
        exact Nat.not_lt.mpr missing
    · rw [if_neg missing, wide, if_pos]
      rw [ge_iff_le, BitVec.le_def, wide] at missing
      exact Nat.not_le.mp missing
  have below : glyphIndex code < 256 := by
    rw [glyphIndex]
    split
    · exact code.isLt
    · decide
  generalize (if code.setWidth 32 ≥ g.glyphCount then 0 else code.setWidth 32 : BitVec 32) = ch at *
  have glyphStart : (ch * g.glyphBytes).toNat = glyphIndex code * 8 := by
    rw [lettered.glyphBytes, BitVec.toNat_mul, index]
    exact Nat.mod_eq_of_lt (Nat.lt_of_lt_of_le (Nat.mul_lt_mul_of_pos_right below (by decide))
      (by decide))
  have rowStart : (r * g.gwBytes + cx >>> 3).toNat = r.toNat + cx.toNat / 8 := by
    have one : r * 1 = r := BitVec.mul_one r
    rw [lettered.gwBytes, one, BitVec.toNat_add, BitVec.toNat_ushiftRight,
      Nat.shiftRight_eq_div_pow, show cx.toNat / 2 ^ 3 = cx.toNat / 8 from rfl]
    omega
  have place : (7 - (cx &&& 7)).toNat = 7 - cx.toNat % 8 := by
    have low : (cx &&& 7).toNat = cx.toNat % 8 := by
      rw [BitVec.toNat_and]
      exact Nat.and_two_pow_sub_one_eq_mod cx.toNat 3
    generalize cx &&& 7 = column at *
    bv_omega
  rw [glyphBit, glyphPixel, psf2Header_eq, lettered.glyphData, glyphStart, rowStart, place,
    bit_eq _ _ (by omega)]
  dsimp only
  rw [show ((8 : BitVec 32).toNat + 7) / 8 = 1 from rfl, Nat.mul_one, Nat.add_assoc (_ + _)]
  rfl

theorem glyphPixel_zero : ∀ cx, cx < 8 → ∀ r, r < 8 → glyphPixel 0 cx r = bg := by
  decide +kernel

/-! ## Cells on the screen -/

/-- A character as it was drawn, and the colour of its bottom pixel row where the cursor
painted over it since. -/
structure Cell where
  code : Byte
  bottom : Option (BitVec 32)

namespace Cell

def drawn (code : Byte) : Cell := { code, bottom := none }

def blank : Cell := drawn 0

def pixel (cell : Cell) (cx r : Nat) : BitVec 32 :=
  match cell.bottom with
  | some colour => if r = 7 then colour else glyphPixel cell.code cx r
  | none => glyphPixel cell.code cx r

@[simp] theorem drawn_pixel (code : Byte) (cx r : Nat) :
    (drawn code).pixel cx r = glyphPixel code cx r := rfl

/-- Above the bottom row the glyph shows. -/
theorem pixel_of_ne {cell : Cell} {cx r : Nat} (above : r ≠ 7) :
    cell.pixel cx r = glyphPixel cell.code cx r := by
  unfold pixel
  split
  · exact if_neg above
  · rfl

theorem blank_pixel {cx r : Nat} (inWidth : cx < 8) (inHeight : r < 8) : blank.pixel cx r = bg :=
  glyphPixel_zero cx inWidth r inHeight

end Cell

section Cells

variable {cols rows : Nat}

/-- The picture of a grid: background in the margins. -/
def picture (t : Text Cell cols rows) : Picture := fun x y =>
  if x / 8 < cols ∧ y / 8 < rows then (t.cell (x / 8) (y / 8)).pixel (x % 8) (y % 8) else bg

/-- Paint the cursor. -/
def Text.mark (t : Text Cell cols rows) (colour : BitVec 32) : Text Cell cols rows :=
  t.set { code := (t.cell t.col t.row).code, bottom := some colour }

/-- Putting a value into the cell of the cursor changes the pixels of that cell. -/
theorem picture_set (t : Text Cell cols rows) (value : Cell) (x y : Nat) :
    picture (t.set value) x y =
      if x / 8 = t.col ∧ y / 8 = t.row then value.pixel (x % 8) (y % 8) else picture t x y := by
  by_cases here : x / 8 = t.col ∧ y / 8 = t.row
  · have inside : x / 8 < cols ∧ y / 8 < rows := ⟨here.1 ▸ t.colInside, here.2 ▸ t.rowInside⟩
    rw [picture, if_pos inside, Text.set_cell, if_pos here, if_pos here]
  · rw [picture, picture, Text.set_cell, if_neg here, if_neg here]

theorem picture_mark (t : Text Cell cols rows) (colour : BitVec 32) (x y : Nat) :
    picture (t.mark colour) x y =
      if (x / 8 = t.col ∧ y / 8 = t.row) ∧ y % 8 = 7 then colour else picture t x y := by
  rw [Text.mark, picture_set]
  by_cases here : x / 8 = t.col ∧ y / 8 = t.row
  · rw [if_pos here, Cell.pixel]
    dsimp only
    by_cases last : y % 8 = 7
    · rw [if_pos last, if_pos ⟨here, last⟩]
    · have inside : x / 8 < cols ∧ y / 8 < rows := ⟨here.1 ▸ t.colInside, here.2 ▸ t.rowInside⟩
      rw [if_neg last, if_neg fun both => last both.2, picture, if_pos inside, here.1, here.2]
      exact (Cell.pixel_of_ne last).symm
  · rw [if_neg here, if_neg fun both => here both.1]

/-- The screen shows a grid of cells, and the cursor is where the grid has it. -/
structure Tracks (g : Globals) (m : Memory) (t : Text Cell cols rows) : Prop where
  fits : Fits g
  lettered : Lettered g
  mapped : Mapped g
  cols : g.cols.toNat = cols
  rows : g.rows.toNat = rows
  col : g.curCol.toNat = t.col
  row : g.curRow.toNat = t.row
  pictured : Pictured g m (picture t)

namespace Tracks

variable {g : Globals} {m : Memory} {t : Text Cell cols rows}

theorem framed (tracks : Tracks g m t) : Framed g := tracks.fits.framed tracks.mapped

/-- New pixels, and the cursor where the new grid has it. -/
theorem next {m' : Memory} {t' : Text Cell cols rows} {col row : BitVec 32} (tracks : Tracks g m t)
    (pictured : Pictured g m' (picture t')) (isCol : col.toNat = t'.col)
    (isRow : row.toNat = t'.row) : Tracks (g.cursorAt col row) m' t' where
  fits := tracks.fits.cursorAt (by rw [isCol, tracks.cols]; exact t'.colInside)
    (by rw [isRow, tracks.rows]; exact t'.rowInside)
  lettered := ⟨tracks.lettered.glyphData, tracks.lettered.glyphCount, tracks.lettered.glyphBytes,
    tracks.lettered.gwBytes⟩
  mapped := tracks.mapped
  cols := tracks.cols
  rows := tracks.rows
  col := isCol
  row := isRow
  pictured := pictured

theorem congr {t' : Text Cell cols rows} (tracks : Tracks g m t) (samePicture : picture t = picture t')
    (sameCol : t.col = t'.col) (sameRow : t.row = t'.row) : Tracks g m t' := by
  refine tracks.next ?_ (tracks.col.trans sameCol) (tracks.row.trans sameRow)
  rw [← samePicture]
  exact tracks.pictured

theorem move {t' : Text Cell cols rows} {col row : BitVec 32} (tracks : Tracks g m t)
    (isCol : col.toNat = t'.col) (isRow : row.toNat = t'.row)
    (sameCell : ∀ x y, t'.cell x y = t.cell x y) : Tracks (g.cursorAt col row) m t' := by
  refine tracks.next (tracks.pictured.congr fun x y _ _ => ?_) isCol isRow
  simp only [picture, sameCell]

theorem offset_toNat (x : Nat) : (BitVec.ofNat 32 (x % 8)).toNat = x % 8 := by
  rw [BitVec.toNat_ofNat]
  omega

theorem drawCell (tracks : Tracks g m t) (c : Byte) :
    Tracks g (applyAll g m (Console.drawCell g c g.curCol g.curRow)) (t.set (Cell.drawn c)) := by
  have fits := tracks.fits
  refine tracks.next (tracks.pictured.paint tracks.framed
    (drawCell_safe fits c fits.colInside fits.rowInside) ?_ ?_) tracks.col tracks.row
  · intro event member
    simp only [Console.drawCell, List.mem_flatMap, List.mem_map, mem_upTo] at member
    obtain ⟨r, inRows, cx, inColumns, rfl⟩ := member
    rw [fits.glyphW] at inColumns
    rw [fits.glyphH] at inRows
    have inWidth : cx.toNat < 8 := inColumns.2
    have inHeight : r.toNat < 8 := inRows.2
    obtain ⟨xPlace, yPlace, -, -⟩ :=
      cell_pixel fits fits.colInside fits.rowInside inWidth inHeight
    have col := tracks.col
    have row := tracks.row
    have here : (g.curCol.toNat * 8 + cx.toNat) / 8 = t.col ∧
        (g.curRow.toNat * 8 + r.toNat) / 8 = t.row := by omega
    rw [Event.Paints, xPlace, yPlace, picture_set, if_pos here, Cell.drawn_pixel,
      glyphBit_eq tracks.lettered c inWidth inHeight]
    congr 1
    · omega
    · omega
  · intro x y xInside yInside
    by_cases here : x / 8 = t.col ∧ y / 8 = t.row
    · right
      have col := tracks.col
      have row := tracks.row
      have xStep := offset_toNat x
      have yStep := offset_toNat y
      obtain ⟨xPlace, yPlace, -, -⟩ := cell_pixel fits fits.colInside fits.rowInside
        (show (BitVec.ofNat 32 (x % 8)).toNat < 8 by omega)
        (show (BitVec.ofNat 32 (y % 8)).toNat < 8 by omega)
      refine ⟨g.curCol * g.glyphW + BitVec.ofNat 32 (x % 8),
        g.curRow * g.glyphH + BitVec.ofNat 32 (y % 8), _,
        List.mem_flatMap.mpr ⟨BitVec.ofNat 32 (y % 8), mem_upTo.mpr ?_,
          List.mem_map.mpr ⟨BitVec.ofNat 32 (x % 8), mem_upTo.mpr ?_, rfl⟩⟩, by omega, by omega⟩
      · rw [fits.glyphH, yStep]
        exact ⟨Nat.zero_le _, Nat.mod_lt _ (by decide)⟩
      · rw [fits.glyphW, xStep]
        exact ⟨Nat.zero_le _, Nat.mod_lt _ (by decide)⟩
    · left
      rw [picture_set, if_neg here]

theorem paintCursor (tracks : Tracks g m t) (colour : BitVec 32) :
    Tracks g (applyAll g m (Console.paintCursor g colour)) (t.mark colour) := by
  have fits := tracks.fits
  have col := tracks.col
  have row := tracks.row
  have bottom : (g.glyphH - 1).toNat = 7 := by
    rw [fits.glyphH]
    decide
  have painted : Pictured g (applyAll g m (Console.paintCursor g colour))
      (picture (t.mark colour)) := by
    refine tracks.pictured.paint tracks.framed (paintCursor_safe fits colour) ?_ ?_
    · intro event member
      simp only [Console.paintCursor, List.mem_cons, List.mem_map, mem_upTo] at member
      rcases member with rfl | ⟨cx, inColumns, rfl⟩
      · trivial
      · rw [fits.glyphW] at inColumns
        have inWidth : cx.toNat < 8 := inColumns.2
        obtain ⟨xPlace, yPlace, -, -⟩ := cell_pixel fits fits.colInside fits.rowInside inWidth
          (show (g.glyphH - 1).toNat < 8 by omega)
        rw [Event.Paints, xPlace, yPlace, picture_mark, if_pos (by omega)]
    · intro x y xInside yInside
      by_cases here : (x / 8 = t.col ∧ y / 8 = t.row) ∧ y % 8 = 7
      · right
        have xStep := offset_toNat x
        obtain ⟨xPlace, yPlace, -, -⟩ := cell_pixel fits fits.colInside fits.rowInside
          (show (BitVec.ofNat 32 (x % 8)).toNat < 8 by omega)
          (show (g.glyphH - 1).toNat < 8 by omega)
        refine ⟨g.curCol * g.glyphW + BitVec.ofNat 32 (x % 8),
          g.curRow * g.glyphH + (g.glyphH - 1), colour, ?_, by omega, by omega⟩
        simp only [Console.paintCursor, List.mem_cons, List.mem_map, mem_upTo]
        refine .inr ⟨BitVec.ofNat 32 (x % 8), ?_, rfl⟩
        rw [fits.glyphW, xStep]
        exact ⟨Nat.zero_le _, Nat.mod_lt _ (by decide)⟩
      · left
        rw [picture_mark, if_neg here]
  exact tracks.next painted tracks.col tracks.row

end Tracks

end Cells

end ScrapOS.Console
