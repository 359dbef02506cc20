import ScrapOS.Memory.Bytes

/-! What a text screen is for: a grid of cells with a cursor inside it, and what each byte
does to them. The cells may hold anything, with one value for a blank cell and one for each
character; a map between two kinds of cells commutes with every operation. -/

set_option autoImplicit false

namespace ScrapOS.Console

/-- A grid of cells, by column and row, with a cursor on one of them. -/
@[ext]
structure Text (Cell : Type) (cols rows : Nat) where
  cell : Nat → Nat → Cell
  col : Nat
  row : Nat
  colInside : col < cols
  rowInside : row < rows

namespace Text

/-- An empty grid, the cursor on its first cell. -/
def home {Cell : Type} {cols rows : Nat} (blank : Cell) (wide : 0 < cols) (high : 0 < rows) :
    Text Cell cols rows where
  cell := fun _ _ => blank
  col := 0
  row := 0
  colInside := wide
  rowInside := high

variable {Cell Other : Type} {cols rows : Nat}

def map (f : Cell → Other) (t : Text Cell cols rows) : Text Other cols rows where
  cell := fun x y => f (t.cell x y)
  col := t.col
  row := t.row
  colInside := t.colInside
  rowInside := t.rowInside

/-- Put a value into the cell of the cursor. -/
def set (t : Text Cell cols rows) (value : Cell) : Text Cell cols rows :=
  { t with cell := fun x y => if x = t.col ∧ y = t.row then value else t.cell x y }

def carriageReturn (t : Text Cell cols rows) : Text Cell cols rows :=
  { t with col := 0, colInside := Nat.zero_lt_of_lt t.colInside }

/-- To the start of the next row; past the bottom, the grid moves up one row. -/
def newline (blank : Cell) (t : Text Cell cols rows) : Text Cell cols rows :=
  if h : t.row + 1 < rows then { t.carriageReturn with row := t.row + 1, rowInside := h }
  else { t.carriageReturn with cell := fun x y => if y + 1 < rows then t.cell x (y + 1) else blank }

def right (t : Text Cell cols rows) (inside : t.col + 1 < cols) : Text Cell cols rows :=
  { t with col := t.col + 1, colInside := inside }

/-- One cell on, to the next row past the last column. -/
def advance (blank : Cell) (t : Text Cell cols rows) : Text Cell cols rows :=
  if inside : t.col + 1 < cols then t.right inside else t.newline blank

/-- One cell back, across the line boundary; nowhere from the first cell. -/
def back (t : Text Cell cols rows) : Text Cell cols rows :=
  if 0 < t.col then
    { t with col := t.col - 1, colInside := Nat.lt_of_le_of_lt (Nat.sub_le _ _) t.colInside }
  else if 0 < t.row then
    { t with
      col := cols - 1
      row := t.row - 1
      colInside := Nat.sub_lt (Nat.zero_lt_of_lt t.colInside) Nat.one_pos
      rowInside := Nat.lt_of_le_of_lt (Nat.sub_le _ _) t.rowInside }
  else t

/-- Blank the cells from the cursor up to a column. -/
def blankTo (blank : Cell) (stop : Nat) (t : Text Cell cols rows) : Text Cell cols rows :=
  { t with cell := fun x y => if t.col ≤ x ∧ x < stop ∧ y = t.row then blank else t.cell x y }

/-- Blank the cells up to a tab stop or the line end, and go there. -/
def tabTo (blank : Cell) (target : Nat) (t : Text Cell cols rows) : Text Cell cols rows :=
  if h : target < cols then { t.blankTo blank target with col := target, colInside := h }
  else (t.blankTo blank cols).newline blank

def put (blank : Cell) (glyph : Byte → Cell) (t : Text Cell cols rows) (c : Byte) :
    Text Cell cols rows :=
  if c = 0x0a then t.newline blank
  else if c = 0x0d then t.carriageReturn
  else if c = 0x08 then t.back.set blank
  else if c = 0x09 then t.tabTo blank ((t.col / 8 + 1) * 8)
  else if c ≥ 0x20 then (t.set (glyph c)).advance blank
  else t

section Fields

variable (t : Text Cell cols rows) (value blank : Cell) (stop x y : Nat)

@[simp] theorem set_cell :
    (t.set value).cell x y = if x = t.col ∧ y = t.row then value else t.cell x y := rfl

@[simp] theorem set_col : (t.set value).col = t.col := rfl

@[simp] theorem set_row : (t.set value).row = t.row := rfl

@[simp] theorem right_cell (inside : t.col + 1 < cols) : (t.right inside).cell x y = t.cell x y := rfl

@[simp] theorem right_col (inside : t.col + 1 < cols) : (t.right inside).col = t.col + 1 := rfl

@[simp] theorem right_row (inside : t.col + 1 < cols) : (t.right inside).row = t.row := rfl

@[simp] theorem blankTo_cell : (t.blankTo blank stop).cell x y =
    if t.col ≤ x ∧ x < stop ∧ y = t.row then blank else t.cell x y := rfl

end Fields

/-! ## Maps of cells -/

section Map

variable (f : Cell → Other) (blank value : Cell) (t : Text Cell cols rows)

@[simp] theorem map_col : (t.map f).col = t.col := rfl

@[simp] theorem map_row : (t.map f).row = t.row := rfl

@[simp] theorem map_cell (x y : Nat) : (t.map f).cell x y = f (t.cell x y) := rfl

theorem map_set : (t.set value).map f = (t.map f).set (f value) := by
  ext x y
  · exact apply_ite f _ _ _
  · rfl
  · rfl

theorem map_newline : (t.newline blank).map f = (t.map f).newline (f blank) := by
  unfold newline
  by_cases below : t.row + 1 < rows
  · rw [dif_pos below, dif_pos (show (t.map f).row + 1 < rows from below)]
    rfl
  · rw [dif_neg below, dif_neg (show ¬ (t.map f).row + 1 < rows from below)]
    ext x y
    · exact apply_ite f _ _ _
    · rfl
    · rfl

theorem map_advance : (t.advance blank).map f = (t.map f).advance (f blank) := by
  unfold advance
  by_cases inside : t.col + 1 < cols
  · rw [dif_pos inside, dif_pos (show (t.map f).col + 1 < cols from inside)]
    rfl
  · rw [dif_neg inside, dif_neg (show ¬ (t.map f).col + 1 < cols from inside)]
    exact map_newline f blank t

theorem map_back : t.back.map f = (t.map f).back := by
  unfold back
  by_cases within : 0 < t.col
  · rw [if_pos within, if_pos (show 0 < (t.map f).col from within)]
    rfl
  · rw [if_neg within, if_neg (show ¬ 0 < (t.map f).col from within)]
    by_cases below : 0 < t.row
    · rw [if_pos below, if_pos (show 0 < (t.map f).row from below)]
      rfl
    · rw [if_neg below, if_neg (show ¬ 0 < (t.map f).row from below)]

theorem map_blankTo (stop : Nat) : (t.blankTo blank stop).map f = (t.map f).blankTo (f blank) stop := by
  ext x y
  · exact apply_ite f _ _ _
  · rfl
  · rfl

theorem map_tabTo (target : Nat) : (t.tabTo blank target).map f = (t.map f).tabTo (f blank) target := by
  unfold tabTo
  split
  · rw [← map_blankTo]
    rfl
  · rw [map_newline, map_blankTo]

theorem map_put (glyph : Byte → Cell) (c : Byte) :
    (t.put blank glyph c).map f = (t.map f).put (f blank) (fun c => f (glyph c)) c := by
  unfold put
  split
  · exact map_newline f blank t
  · split
    · rfl
    · split
      · rw [map_set, map_back]
      · split
        · exact map_tabTo f blank t _
        · split
          · rw [map_advance, map_set]
          · rfl

end Map

/-- Where the cursor goes does not depend on the cells. -/
theorem put_place {t : Text Cell cols rows} {u : Text Other cols rows} (sameCol : t.col = u.col)
    (sameRow : t.row = u.row) (blank : Cell) (glyph : Byte → Cell) (blank' : Other)
    (glyph' : Byte → Other) (c : Byte) :
    (t.put blank glyph c).col = (u.put blank' glyph' c).col ∧
      (t.put blank glyph c).row = (u.put blank' glyph' c).row := by
  have same : t.map (fun _ => ()) = u.map (fun _ => ()) := Text.ext rfl sameCol sameRow
  have sameAfter : (t.put blank glyph c).map (fun _ => ()) =
      (u.put blank' glyph' c).map (fun _ => ()) := by
    rw [map_put, map_put, same]
  exact ⟨congrArg (fun v => v.col) sameAfter, congrArg (fun v => v.row) sameAfter⟩

/-- The next line does not depend on the column. -/
theorem newline_congr {blank : Cell} {t u : Text Cell cols rows}
    (sameCell : ∀ x y, t.cell x y = u.cell x y) (sameRow : t.row = u.row) :
    t.newline blank = u.newline blank := by
  unfold newline
  by_cases below : t.row + 1 < rows
  · rw [dif_pos below, dif_pos (sameRow ▸ below)]
    ext x y
    · exact sameCell x y
    · rfl
    · exact congrArg (· + 1) sameRow
  · rw [dif_neg below, dif_neg (sameRow ▸ below)]
    ext x y
    · dsimp only
      rw [sameCell]
    · rfl
    · exact sameRow

/-! ## The tab loop -/

section Tab

variable {blank : Cell} {t : Text Cell cols rows} {target : Nat}

/-- A tab stop at the cursor is reached. -/
theorem tabTo_done (reached : t.col = target) : t.tabTo blank target = t := by
  subst reached
  rw [tabTo, dif_pos t.colInside]
  ext x y
  · refine if_neg ?_
    omega
  · rfl
  · rfl

/-- One round of the loop: blank the cell of the cursor and step on. -/
theorem tabTo_step (more : t.col < target) :
    t.tabTo blank target =
      if t.col + 1 < cols then ((t.set blank).advance blank).tabTo blank target
      else (t.set blank).advance blank := by
  have isCell : ∀ x y, (t.set blank).cell x y = if x = t.col ∧ y = t.row then blank else t.cell x y :=
    fun _ _ => rfl
  have sameCol : (t.set blank).col = t.col := rfl
  have sameRow : (t.set blank).row = t.row := rfl
  generalize t.set blank = u at *
  by_cases inside : t.col + 1 < cols
  · have insideToo : u.col + 1 < cols := sameCol ▸ inside
    have cells : ∀ stop, target ≤ stop ∨ t.col + 1 ≤ stop → ∀ x y,
        (t.blankTo blank stop).cell x y = ((u.right insideToo).blankTo blank stop).cell x y := by
      intro stop past x y
      rw [blankTo_cell, blankTo_cell, right_cell, right_col, right_row, isCell, sameCol, sameRow]
      by_cases here : x = t.col ∧ y = t.row
      · have outer : t.col ≤ x ∧ x < stop ∧ y = t.row := by omega
        rw [if_pos outer, if_pos here, ite_self]
      · have shift : (t.col ≤ x ∧ x < stop ∧ y = t.row) ↔ (t.col + 1 ≤ x ∧ x < stop ∧ y = t.row) := by
          omega
        simp only [shift, if_neg here]
    have stepped : u.advance blank = u.right insideToo := dif_pos insideToo
    rw [if_pos inside, stepped]
    unfold tabTo
    by_cases fits : target < cols
    · rw [dif_pos fits, dif_pos fits]
      ext x y
      · exact cells target (.inl (Nat.le_refl _)) x y
      · rfl
      · exact sameRow.symm
    · rw [dif_neg fits, dif_neg fits]
      refine newline_congr ?_ sameRow.symm
      exact cells cols (.inr (Nat.le_of_lt inside))
  · have past : ¬ target < cols := by omega
    have outside : ¬ u.col + 1 < cols := sameCol ▸ inside
    have wrapped : u.advance blank = u.newline blank := dif_neg outside
    have atEnd := t.colInside
    rw [if_neg inside, wrapped, tabTo, dif_neg past]
    refine newline_congr (fun x y => ?_) sameRow.symm
    have shift : (t.col ≤ x ∧ x < cols ∧ y = t.row) ↔ (x = t.col ∧ y = t.row) := by omega
    rw [blankTo_cell, isCell]
    simp only [shift]

end Tab

/-! ## What becomes of the cell of the cursor -/

/-- The byte takes the cursor away from a cell that it leaves as it is on the screen. -/
def Leaves (t : Text Cell cols rows) (c : Byte) : Prop :=
  c = 0x0a ∧ 1 < rows ∨ c = 0x0d ∧ 0 < t.col ∨ c = 0x08 ∧ (0 < t.col ∨ 0 < t.row)

instance (t : Text Cell cols rows) (c : Byte) : Decidable (t.Leaves c) :=
  inferInstanceAs (Decidable (_ ∨ _ ∨ _))

/-- The row of the cell that the byte leaves: it moves up with the grid. -/
def leftRow (t : Text Cell cols rows) (c : Byte) : Nat :=
  if c = 0x0a ∧ ¬ t.row + 1 < rows then t.row - 1 else t.row

section Leaving

variable {blank value other : Cell} {t : Text Cell cols rows} {c : Byte}

theorem set_set : (t.set value).set other = t.set other := by
  ext x y
  · rw [set_cell, set_cell, set_cell, set_col, set_row]
    by_cases here : x = t.col ∧ y = t.row
    · rw [if_pos here, if_pos here]
    · rw [if_neg here, if_neg here, if_neg here]
  · rfl
  · rfl

/-- A tab blanks the cell of the cursor first. -/
theorem set_tabTo {target : Nat} (more : t.col < target) :
    (t.set value).tabTo blank target = t.tabTo blank target := by
  rw [tabTo_step more, tabTo_step (show (t.set value).col < target from more), set_set]
  rfl

/-- A cell that the byte leaves keeps its value, beside the new cursor. -/
theorem put_left (blank : Cell) (glyph : Byte → Cell) (leaves : t.Leaves c) :
    (t.put blank glyph c).cell t.col (t.leftRow c) = t.cell t.col t.row ∧
      ¬ (t.col = (t.put blank glyph c).col ∧ t.leftRow c = (t.put blank glyph c).row) ∧
      t.leftRow c < rows := by
  have rowInside := t.rowInside
  have colInside := t.colInside
  rcases leaves with ⟨rfl, several⟩ | ⟨rfl, within⟩ | ⟨rfl, further⟩
  · rw [put, if_pos rfl, newline, leftRow]
    by_cases below : t.row + 1 < rows
    · rw [dif_pos below, if_neg (fun both => both.2 below)]
      refine ⟨rfl, ?_, rowInside⟩
      dsimp only
      omega
    · have under : t.row - 1 + 1 = t.row := by omega
      rw [dif_neg below, if_pos ⟨rfl, below⟩]
      refine ⟨?_, ?_, by omega⟩
      · dsimp only
        rw [under, if_pos rowInside]
      · dsimp only [carriageReturn]
        omega
  · rw [put, if_neg (by decide), if_pos rfl, leftRow, if_neg (fun both => absurd both.1 (by decide))]
    refine ⟨rfl, ?_, rowInside⟩
    dsimp only [carriageReturn]
    omega
  · have apart : ¬ (t.col = t.back.col ∧ t.row = t.back.row) := by
      unfold back
      by_cases within : 0 < t.col
      · rw [if_pos within]
        dsimp only
        omega
      · have under : 0 < t.row := further.resolve_left within
        rw [if_neg within, if_pos under]
        dsimp only
        omega
    have kept : ∀ x y, t.back.cell x y = t.cell x y := by
      intro x y
      unfold back
      split
      · rfl
      · split
        · rfl
        · rfl
    rw [put, if_neg (by decide), if_neg (by decide), if_pos rfl, leftRow,
      if_neg (fun both => absurd both.1 (by decide))]
    refine ⟨?_, apart, rowInside⟩
    rw [set_cell, if_neg apart, kept]

end Leaving

end Text

end ScrapOS.Console
