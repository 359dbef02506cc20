import ScrapOS.Console.Basic

/-! The console never draws off-screen: every pixel it puts is visible, every scroll moves
bytes of the framebuffer only, no unsigned subtraction wraps, and every byte is done with. -/

set_option autoImplicit false

namespace ScrapOS.Console

/-- What `console_init` leaves in the globals and `console_putc` preserves: a geometry of at
least one cell, and a cursor inside the grid. -/
structure Fits (g : Globals) : Prop where
  ready : g.ready = true
  bytesPp : g.fbBytesPp = 4
  pitch : 4 * g.fbWidth.toNat ≤ g.fbPitch.toNat
  glyphW : g.glyphW = 8
  glyphH : g.glyphH = 8
  cols : g.cols.toNat = g.fbWidth.toNat / 8
  rows : g.rows.toNat = g.fbHeight.toNat / 8
  colInside : g.curCol.toNat < g.cols.toNat
  rowInside : g.curRow.toNat < g.rows.toNat

/-- The globals with the cursor elsewhere. -/
def Globals.cursorAt (g : Globals) (col row : BitVec 32) : Globals :=
  { g with curCol := col, curRow := row }

/-- An effect stays on the screen: the pixel is visible, the bytes read and written belong to
the framebuffer, the subtraction does not wrap. -/
def Event.Safe (g : Globals) : Event → Prop
  | .pixel x y _ => x.toNat < g.fbWidth.toNat ∧ y.toNat < g.fbHeight.toNat
  | .move dest src bytes =>
      (dest - g.fbBase).toNat + bytes.toNat ≤ g.fbHeight.toNat * g.fbPitch.toNat ∧
        (src - g.fbBase).toNat + bytes.toNat ≤ g.fbHeight.toNat * g.fbPitch.toNat
  | .sub a b => b.toNat ≤ a.toNat

def AllSafe (g : Globals) (events : List Event) : Prop := ∀ event ∈ events, event.Safe g

theorem Fits.cursorAt {g : Globals} (fits : Fits g) {col row : BitVec 32}
    (colInside : col.toNat < g.cols.toNat) (rowInside : row.toNat < g.rows.toNat) :
    Fits (g.cursorAt col row) where
  ready := fits.ready
  bytesPp := fits.bytesPp
  pitch := fits.pitch
  glyphW := fits.glyphW
  glyphH := fits.glyphH
  cols := fits.cols
  rows := fits.rows
  colInside := colInside
  rowInside := rowInside

section Lists

variable {g : Globals} {left right : List Event} {event : Event}

@[simp] theorem AllSafe.nil : AllSafe g [] := by simp [AllSafe]

@[simp] theorem AllSafe.cons_iff : AllSafe g (event :: right) ↔ event.Safe g ∧ AllSafe g right := by
  simp [AllSafe]

@[simp] theorem AllSafe.append_iff :
    AllSafe g (left ++ right) ↔ AllSafe g left ∧ AllSafe g right := by
  simp only [AllSafe, List.mem_append]
  constructor
  · exact fun both => ⟨fun event member => both event (.inl member),
      fun event member => both event (.inr member)⟩
  · rintro ⟨inLeft, inRight⟩ event (member | member)
    · exact inLeft event member
    · exact inRight event member

end Lists

/-! ## The loops -/

theorem mem_upTo {start stop i : BitVec 32} :
    i ∈ upTo start stop ↔ start.toNat ≤ i.toNat ∧ i.toNat < stop.toNat := by
  simp only [upTo, List.mem_map, List.mem_range]
  constructor
  · rintro ⟨step, inRange, rfl⟩
    bv_omega
  · rintro ⟨lower, upper⟩
    exact ⟨i.toNat - start.toNat, by omega, by bv_omega⟩

section Drawing

variable {g : Globals} (fits : Fits g)
include fits

theorem cell_pixel {col row cx r : BitVec 32} (colInside : col.toNat < g.cols.toNat)
    (rowInside : row.toNat < g.rows.toNat) (inWidth : cx.toNat < 8) (inHeight : r.toNat < 8) :
    (col * g.glyphW + cx).toNat = col.toNat * 8 + cx.toNat ∧
      (row * g.glyphH + r).toNat = row.toNat * 8 + r.toNat ∧
      col.toNat * 8 + cx.toNat < g.fbWidth.toNat ∧ row.toNat * 8 + r.toNat < g.fbHeight.toNat := by
  have cols := fits.cols
  have rows := fits.rows
  rw [fits.glyphW, fits.glyphH]
  have wide := g.fbWidth.isLt
  have high := g.fbHeight.isLt
  have colStart : col * 8 = BitVec.ofNat 32 (col.toNat * 8) := by
    apply BitVec.eq_of_toNat_eq
    rw [BitVec.toNat_mul, BitVec.toNat_ofNat]
    rfl
  have rowStart : row * 8 = BitVec.ofNat 32 (row.toNat * 8) := by
    apply BitVec.eq_of_toNat_eq
    rw [BitVec.toNat_mul, BitVec.toNat_ofNat]
    rfl
  rw [colStart, rowStart]
  refine ⟨?_, ?_, ?_, ?_⟩
  · bv_omega
  · bv_omega
  · omega
  · omega

theorem drawCell_safe (ch : Byte) {col row : BitVec 32} (colInside : col.toNat < g.cols.toNat)
    (rowInside : row.toNat < g.rows.toNat) : AllSafe g (drawCell g ch col row) := by
  intro event member
  simp only [drawCell, List.mem_flatMap, List.mem_map, mem_upTo] at member
  obtain ⟨r, inRows, cx, inColumns, rfl⟩ := member
  rw [fits.glyphW] at inColumns
  rw [fits.glyphH] at inRows
  obtain ⟨xPlace, yPlace, xInside, yInside⟩ := cell_pixel fits colInside rowInside inColumns.2 inRows.2
  rw [Event.Safe, xPlace, yPlace]
  exact ⟨xInside, yInside⟩

theorem paintCursor_safe (colour : BitVec 32) : AllSafe g (paintCursor g colour) := by
  intro event member
  simp only [paintCursor, List.mem_cons, List.mem_map, mem_upTo] at member
  rcases member with rfl | ⟨cx, inColumns, rfl⟩
  · rw [Event.Safe, fits.glyphH]
    decide
  · rw [fits.glyphW] at inColumns
    have last : (g.glyphH - 1).toNat < 8 := by
      rw [fits.glyphH]
      decide
    obtain ⟨xPlace, yPlace, xInside, yInside⟩ :=
      cell_pixel fits fits.colInside fits.rowInside inColumns.2 last
    rw [Event.Safe, xPlace, yPlace]
    exact ⟨xInside, yInside⟩

omit fits in
theorem blankFrom_safe (g : Globals) (start : BitVec 32) : AllSafe g (blankFrom g start) := by
  intro event member
  simp only [blankFrom, List.mem_flatMap, List.mem_map, mem_upTo] at member
  obtain ⟨y, inRows, x, inColumns, rfl⟩ := member
  exact ⟨inColumns.2, inRows.2⟩

end Drawing

/-- The text grid leaves less than one text row over. -/
structure Scrolls (g : Globals) : Prop where
  positive : 0 < g.glyphH.toNat
  tall : g.glyphH.toNat ≤ g.fbHeight.toNat
  rows : g.rows.toNat = g.fbHeight.toNat / g.glyphH.toNat

theorem Fits.scrolls {g : Globals} (fits : Fits g) : Scrolls g := by
  have rowInside := fits.rowInside
  have rows := fits.rows
  have eight : g.glyphH.toNat = 8 := by
    rw [fits.glyphH]
    rfl
  refine ⟨?_, ?_, ?_⟩
  · omega
  · omega
  · rw [eight, rows]

section Scrolling

variable {g : Globals} (scrolls : Scrolls g)
include scrolls

/-- The move of a scroll in numbers of bytes. -/
theorem scroll_move :
    ((g.fbHeight - g.glyphH).setWidth 64 * g.fbPitch.setWidth 64 : Word).toNat =
        (g.fbHeight.toNat - g.glyphH.toNat) * g.fbPitch.toNat ∧
      (g.glyphH.setWidth 64 * g.fbPitch.setWidth 64 : Word) =
        BitVec.ofNat 64 (g.glyphH.toNat * g.fbPitch.toNat) := by
  have tall := scrolls.tall
  have high := g.fbHeight.isLt
  have pitch := g.fbPitch.isLt
  have lines : (g.fbHeight - g.glyphH).toNat = g.fbHeight.toNat - g.glyphH.toNat := by bv_omega
  have wide : ∀ a : BitVec 32, (a.setWidth 64 : Word).toNat = a.toNat := fun a => by
    rw [BitVec.toNat_setWidth, Nat.mod_eq_of_lt (by omega)]
  have strict : (g.fbHeight.toNat - g.glyphH.toNat) * g.fbPitch.toNat < 2 ^ 64 := by
    calc (g.fbHeight.toNat - g.glyphH.toNat) * g.fbPitch.toNat
        ≤ 2 ^ 32 * (2 ^ 32 - 1) := Nat.mul_le_mul (by omega) (by omega)
      _ < 2 ^ 64 := by decide
  constructor
  · rw [BitVec.toNat_mul, wide, wide, lines, Nat.mod_eq_of_lt strict]
  · apply BitVec.eq_of_toNat_eq
    rw [BitVec.toNat_mul, wide, wide, BitVec.toNat_ofNat]

theorem rows_pos : 0 < g.rows.toNat := by
  rw [scrolls.rows]
  exact Nat.div_pos scrolls.tall scrolls.positive

theorem scroll_safe : AllSafe g (scroll g) := by
  obtain ⟨bytes, source⟩ := scroll_move scrolls
  have tall := scrolls.tall
  have several := rows_pos scrolls
  have whole : g.glyphH.toNat * g.fbPitch.toNat +
      (g.fbHeight.toNat - g.glyphH.toNat) * g.fbPitch.toNat = g.fbHeight.toNat * g.fbPitch.toNat := by
    rw [← Nat.add_mul, Nat.add_sub_cancel' tall]
  rw [scroll]
  simp only [AllSafe.cons_iff]
  refine ⟨tall, ⟨?_, ?_⟩, ?_, blankFrom_safe g _⟩
  · rw [bytes, BitVec.sub_self]
    exact Nat.le_trans (Nat.le_of_eq (Nat.zero_add _)) (by omega)
  · have distance : (g.fbBase + BitVec.ofNat 64 (g.glyphH.toNat * g.fbPitch.toNat) - g.fbBase).toNat ≤
        g.glyphH.toNat * g.fbPitch.toNat := by
      rw [BitVec.add_comm, BitVec.add_sub_cancel, BitVec.toNat_ofNat]
      exact Nat.mod_le _ _
    rw [bytes, source]
    omega
  · have one : (1 : BitVec 32).toNat = 1 := rfl
    rw [Event.Safe]
    omega

end Scrolling

/-! ## The cases of console_putc -/

/-- What a case may do: move the cursor inside the grid, and draw on the screen. -/
structure Moved (g : Globals) (result : Globals × List Event) : Prop where
  place : ∃ col row, result.1 = g.cursorAt col row
  fits : Fits result.1
  safe : AllSafe g result.2

theorem AllSafe.cursorAt_iff {g : Globals} {col row : BitVec 32} {events : List Event} :
    AllSafe (g.cursorAt col row) events ↔ AllSafe g events := by
  have same : ∀ event : Event, event.Safe (g.cursorAt col row) ↔ event.Safe g := by
    intro event
    cases event with
    | pixel x y colour => exact Iff.rfl
    | move dest src bytes => exact Iff.rfl
    | sub a b => exact Iff.rfl
  simp only [AllSafe, same]

/-- Two cases one after the other. -/
theorem Moved.trans {g g' : Globals} {before events : List Event} {col row : BitVec 32}
    {result : Globals × List Event} (moved : Moved g' result) (first : g' = g.cursorAt col row)
    (safe : AllSafe g before) (all : events = before ++ result.2) : Moved g (result.1, events) := by
  subst first
  obtain ⟨col', row', place⟩ := moved.place
  refine ⟨⟨col', row', place⟩, moved.fits, ?_⟩
  rw [all, AllSafe.append_iff]
  exact ⟨safe, AllSafe.cursorAt_iff.mp moved.safe⟩

theorem Moved.of_eq {g : Globals} {outcome : Option (Globals × List Event)}
    {result : Globals × List Event} (moves : ∃ r, outcome = some r ∧ Moved g r)
    (done : outcome = some result) : Moved g result := by
  obtain ⟨r, same, moved⟩ := moves
  cases done.symm.trans same
  exact moved

section Cases

variable {g : Globals}

theorem newline_curCol (g : Globals) (col : BitVec 32) :
    newline { g with curCol := col } = newline g := rfl

theorem newline_moved (fits : Fits g) : Moved g (newline g) := by
  have rowInside := fits.rowInside
  have rows := g.rows.isLt
  have one : (1 : BitVec 32).toNat = 1 := rfl
  have next : (g.curRow + 1).toNat = g.curRow.toNat + 1 := by bv_omega
  have left : (0 : BitVec 32).toNat < g.cols.toNat := Nat.zero_lt_of_lt fits.colInside
  rw [newline]
  split
  · refine ⟨⟨0, g.rows - 1, rfl⟩, fits.cursorAt left ?_, ?_⟩
    · bv_omega
    · rw [AllSafe.append_iff]
      refine ⟨scroll_safe fits.scrolls, ?_⟩
      simp only [AllSafe.cons_iff, AllSafe.nil, and_true]
      rw [Event.Safe]
      omega
  · next inside =>
    refine ⟨⟨0, g.curRow + 1, rfl⟩, fits.cursorAt left ?_, AllSafe.nil⟩
    dsimp only at inside
    bv_omega

theorem carriageReturn_moved (fits : Fits g) : Moved g ({ g with curCol := 0 }, []) :=
  ⟨⟨0, g.curRow, rfl⟩, fits.cursorAt (Nat.zero_lt_of_lt fits.colInside) fits.rowInside, AllSafe.nil⟩

theorem backspace_moved (fits : Fits g) : Moved g (backspace g) := by
  have colInside := fits.colInside
  have rowInside := fits.rowInside
  have cols := g.cols.isLt
  have one : (1 : BitVec 32).toNat = 1 := rfl
  rw [backspace]
  by_cases within : g.curCol > 0
  · simp only [within, if_true]
    have fits' : Fits (g.cursorAt (g.curCol - 1) g.curRow) :=
      fits.cursorAt (by bv_omega) rowInside
    refine ⟨⟨_, _, rfl⟩, fits', ?_⟩
    rw [AllSafe.append_iff]
    refine ⟨?_, AllSafe.cursorAt_iff.mp (drawCell_safe fits' 0 fits'.colInside fits'.rowInside)⟩
    simp only [AllSafe.cons_iff, AllSafe.nil, and_true]
    rw [Event.Safe]
    bv_omega
  · simp only [within, if_false]
    by_cases below : g.curRow > 0
    · simp only [below, if_true]
      have fits' : Fits (g.cursorAt (g.cols - 1) (g.curRow - 1)) :=
        fits.cursorAt (by bv_omega) (by bv_omega)
      refine ⟨⟨_, _, rfl⟩, fits', ?_⟩
      rw [AllSafe.append_iff]
      refine ⟨?_, AllSafe.cursorAt_iff.mp (drawCell_safe fits' 0 fits'.colInside fits'.rowInside)⟩
      simp only [AllSafe.cons_iff, AllSafe.nil, and_true]
      rw [Event.Safe, Event.Safe]
      exact ⟨by bv_omega, by omega⟩
    · simp only [below, if_false]
      exact ⟨⟨g.curCol, g.curRow, rfl⟩, fits, drawCell_safe fits 0 colInside rowInside⟩

theorem advance_moved (fits : Fits g) {drawn : List Event} (safe : AllSafe g drawn) :
    (¬ g.curCol + 1 ≥ g.cols → Moved g ({ g with curCol := g.curCol + 1 }, drawn)) ∧
      Moved g ((newline { g with curCol := g.curCol + 1 }).1,
        drawn ++ (newline { g with curCol := g.curCol + 1 }).2) := by
  constructor
  · intro inside
    have colInside := fits.colInside
    have cols := g.cols.isLt
    refine ⟨⟨_, _, rfl⟩, fits.cursorAt ?_ fits.rowInside, safe⟩
    bv_omega
  · rw [newline_curCol]
    have moved := newline_moved fits
    exact ⟨moved.place, moved.fits, AllSafe.append_iff.mpr ⟨safe, moved.safe⟩⟩

theorem printable_moved (fits : Fits g) (c : Byte) : Moved g (printable g c) := by
  obtain ⟨stays, wraps⟩ := advance_moved fits (drawCell_safe fits c fits.colInside fits.rowInside)
  rw [printable]
  split
  · dsimp only
    split
    · exact wraps
    · next inside => exact stays inside
  · exact ⟨⟨g.curCol, g.curRow, rfl⟩, fits, AllSafe.nil⟩

/-- The tab loop ends: the column grows with every round but the last. -/
theorem tabLoop_moved {target : BitVec 32} {steps : Nat} (fits : Fits g)
    (enough : target.toNat - g.curCol.toNat < steps) :
    ∃ result, tabLoop g target steps = some result ∧ Moved g result := by
  induction steps generalizing g with
  | zero => cases enough
  | succ steps ih =>
      rw [tabLoop]
      split
      · next more =>
        obtain ⟨stays, wraps⟩ :=
          advance_moved fits (drawCell_safe fits 0 fits.colInside fits.rowInside)
        dsimp only
        split
        · exact ⟨_, rfl, wraps⟩
        · next inside =>
          have moved := stays inside
          have further : target.toNat - (g.curCol + 1).toNat < steps := by
            have next : (g.curCol + 1).toNat = g.curCol.toNat + 1 := by
              have colInside := fits.colInside
              have cols := g.cols.isLt
              bv_omega
            rw [BitVec.lt_def] at more
            omega
          obtain ⟨result, ended, later⟩ := ih moved.fits further
          rw [ended]
          exact ⟨_, rfl, later.trans rfl moved.safe rfl⟩
      · exact ⟨_, rfl, ⟨g.curCol, g.curRow, rfl⟩, fits, AllSafe.nil⟩

theorem dispatch_moved (fits : Fits g) (c : Byte) :
    ∃ result, dispatch g c = some result ∧ Moved g result := by
  rw [dispatch]
  split
  · exact ⟨_, rfl, newline_moved fits⟩
  · split
    · exact ⟨_, rfl, carriageReturn_moved fits⟩
    · split
      · exact ⟨_, rfl, backspace_moved fits⟩
      · split
        · refine tabLoop_moved fits (Nat.lt_of_le_of_lt (Nat.sub_le _ _) ?_)
          exact ((g.curCol &&& ~~~7) + 8).isLt
        · exact ⟨_, rfl, printable_moved fits c⟩

theorem consolePutc_moved (fits : Fits g) (c : Byte) :
    ∃ result, consolePutc g c = some result ∧ Moved g result := by
  obtain ⟨result, done, moved⟩ := dispatch_moved fits c
  obtain ⟨col, row, place⟩ := moved.place
  rw [consolePutc, if_pos fits.ready, done]
  refine ⟨_, rfl, ⟨col, row, place⟩, moved.fits, ?_⟩
  dsimp only
  simp only [AllSafe.append_iff]
  refine ⟨⟨paintCursor_safe fits bg, moved.safe⟩, ?_⟩
  have drawn := paintCursor_safe moved.fits fg
  rw [place, AllSafe.cursorAt_iff] at drawn
  rw [place]
  exact drawn

theorem putAll_moved (fits : Fits g) (bytes : List Byte) :
    ∃ result, putAll g bytes = some result ∧ Moved g result := by
  induction bytes generalizing g with
  | nil => exact ⟨_, rfl, ⟨g.curCol, g.curRow, rfl⟩, fits, AllSafe.nil⟩
  | cons c rest ih =>
      obtain ⟨⟨g₁, events⟩, done, moved⟩ := consolePutc_moved fits c
      obtain ⟨⟨g₂, more⟩, ended, later⟩ := ih moved.fits
      obtain ⟨col, row, place⟩ := moved.place
      rw [putAll, done]
      dsimp only at ended ⊢
      rw [ended]
      exact ⟨_, rfl, later.trans place moved.safe rfl⟩

end Cases

/-! ## From console_init on -/

/-- A framebuffer of 32 bits a pixel that has room for a glyph. -/
structure Geometry (width height pitch : BitVec 32) : Prop where
  wide : psf2Header.width.toNat ≤ width.toNat
  high : psf2Header.height.toNat ≤ height.toNat
  pitch : 4 * width.toNat ≤ pitch.toNat

section Init

variable (g : Globals) (base : Word) {width height pitch : BitVec 32}

theorem consoleInit_fits (geometry : Geometry width height pitch) :
    Fits (consoleInit g base width height pitch 32).1 := by
  have eight : (8 : BitVec 32).toNat = 8 := rfl
  have wide := geometry.wide
  have high := geometry.high
  have isWide := geometry.pitch
  rw [psf2Header_eq] at wide high
  dsimp only at wide high
  have four : BitVec.setWidth 32 ((32 : BitVec 16) / 8) = 4 := by decide
  rw [consoleInit, psf2Header_eq]
  dsimp only
  rw [if_neg (by decide)]
  refine ⟨rfl, four, isWide, rfl, rfl, ?_, ?_, ?_, ?_⟩
  · exact BitVec.toNat_udiv
  · exact BitVec.toNat_udiv
  · dsimp only
    rw [BitVec.toNat_udiv, eight, show (0 : BitVec 32).toNat = 0 from rfl]
    omega
  · dsimp only
    rw [BitVec.toNat_udiv, eight, show (0 : BitVec 32).toNat = 0 from rfl]
    omega

theorem consoleInit_events (width height pitch : BitVec 32) :
    (consoleInit g base width height pitch 32).2 =
      blankFrom (consoleInit g base width height pitch 32).1 0 ++
        drawCursor (consoleInit g base width height pitch 32).1 := by
  rw [consoleInit, psf2Header_eq]
  dsimp only
  rw [if_neg (by decide)]

/-- The geometry that `console_init` is given is the one it keeps. -/
theorem consoleInit_geometry (width height pitch : BitVec 32) :
    (consoleInit g base width height pitch 32).1.fbBase = base ∧
      (consoleInit g base width height pitch 32).1.fbWidth = width ∧
      (consoleInit g base width height pitch 32).1.fbHeight = height ∧
      (consoleInit g base width height pitch 32).1.fbPitch = pitch := by
  rw [consoleInit, psf2Header_eq]
  dsimp only
  rw [if_neg (by decide)]
  exact ⟨rfl, rfl, rfl, rfl⟩

end Init

/-- For every byte sequence after `console_init`, and so between any two calls: each call
returns, the cursor is inside the grid, and every effect stays on the screen. -/
theorem console_never_draws_offscreen (g : Globals) (base : Word) {width height pitch : BitVec 32}
    (geometry : Geometry width height pitch) (bytes : List Byte) :
    ∃ g' events, putAll (consoleInit g base width height pitch 32).1 bytes = some (g', events) ∧
      g'.curCol.toNat < g'.cols.toNat ∧ g'.curRow.toNat < g'.rows.toNat ∧
      g'.fbBase = base ∧ g'.fbWidth = width ∧ g'.fbHeight = height ∧ g'.fbPitch = pitch ∧
      AllSafe g' ((consoleInit g base width height pitch 32).2 ++ events) := by
  have fits := consoleInit_fits g base geometry
  have drawn := consoleInit_events g base width height pitch
  obtain ⟨isBase, isWidth, isHeight, isPitch⟩ := consoleInit_geometry g base width height pitch
  generalize consoleInit g base width height pitch 32 = started at *
  obtain ⟨⟨g', events⟩, done, moved⟩ := putAll_moved fits bytes
  obtain ⟨col, row, place⟩ := moved.place
  dsimp only at place
  subst place
  refine ⟨_, events, done, moved.fits.colInside, moved.fits.rowInside, isBase, isWidth, isHeight,
    isPitch, ?_⟩
  rw [AllSafe.cursorAt_iff, AllSafe.append_iff, drawn, AllSafe.append_iff]
  exact ⟨⟨blankFrom_safe _ 0, paintCursor_safe fits fg⟩, moved.safe⟩

/-- `console.c` before `console_init`. -/
def bootGlobals : Globals where
  fbBase := 0
  fbWidth := 0
  fbHeight := 0
  fbPitch := 0
  fbBytesPp := 0
  glyphData := 0
  glyphCount := 0
  glyphW := 0
  glyphH := 0
  glyphBytes := 0
  gwBytes := 0
  cols := 0
  rows := 0
  curCol := 0
  curRow := 0
  ready := false

theorem smallScreen_geometry : Geometry 20 20 96 where
  wide := by rw [psf2Header_eq]; decide
  high := by rw [psf2Header_eq]; decide
  pitch := by decide

/-- A tab, a wrap and a scroll on a screen of two by two cells with margins. -/
theorem console_never_draws_offscreen_smallScreen : ∃ g' events,
    putAll (consoleInit bootGlobals 0xfd000000 20 20 96 32).1 [0x41, 0x09, 0x0a, 0x08] =
      some (g', events) ∧
    g'.curCol.toNat < g'.cols.toNat ∧ g'.curRow.toNat < g'.rows.toNat ∧ AllSafe g' events := by
  obtain ⟨g', events, done, colInside, rowInside, -, -, -, -, safe⟩ :=
    console_never_draws_offscreen bootGlobals 0xfd000000 smallScreen_geometry
      [0x41, 0x09, 0x0a, 0x08]
  exact ⟨g', events, done, colInside, rowInside, (AllSafe.append_iff.mp safe).2⟩

end ScrapOS.Console
