import ScrapOS.Console.Screen

/-! The screen shows the text, over whole runs. The cursor is painted over the bottom pixel
row of its cell, and taking it down leaves background there: a byte that takes the cursor
away from a glyph with a bottom row leaves that glyph damaged on the screen, and no other
byte does. -/

set_option autoImplicit false

namespace ScrapOS.Console

variable {cols rows : Nat}

/-! ## What the screen should show -/

/-- The picture of a text: the glyphs of its codes, a row of foreground at the bottom of the
cell of the cursor, and background in the margins. -/
def Text.shown (t : Text Byte cols rows) : Picture := fun x y =>
  if x / 8 < cols ∧ y / 8 < rows then
    if (x / 8 = t.col ∧ y / 8 = t.row) ∧ y % 8 = 7 then fg
    else glyphPixel (t.cell (x / 8) (y / 8)) (x % 8) (y % 8)
  else bg

/-- The text after a byte. -/
def Text.type (t : Text Byte cols rows) (c : Byte) : Text Byte cols rows := t.put 0 id c

/-- The bottom pixel row of a glyph is background. -/
def BottomBlank (code : Byte) : Prop := ∀ cx, cx < 8 → glyphPixel code cx 7 = bg

instance (code : Byte) : Decidable (BottomBlank code) :=
  inferInstanceAs (Decidable (∀ cx, cx < 8 → glyphPixel code cx 7 = bg))

/-- A byte leaves no glyph behind that the cursor was painted over. -/
def Text.Ready (t : Text Byte cols rows) (c : Byte) : Prop :=
  t.Leaves c → BottomBlank (t.cell t.col t.row)

instance (t : Text Byte cols rows) (c : Byte) : Decidable (t.Ready c) :=
  inferInstanceAs (Decidable (t.Leaves c → BottomBlank (t.cell t.col t.row)))

/-- Every byte of a run is ready in the text before it. -/
def Text.AllReady (t : Text Byte cols rows) : List Byte → Prop
  | [] => True
  | c :: rest => t.Ready c ∧ (t.type c).AllReady rest

/-- The cells of a text as they are on the screen. -/
def Text.cells (t : Text Byte cols rows) : Text Cell cols rows := (t.map Cell.drawn).mark fg

theorem Text.cells_picture (t : Text Byte cols rows) : picture t.cells = t.shown := by
  funext x y
  rw [cells, picture_mark, shown, map_col, map_row]
  by_cases here : (x / 8 = t.col ∧ y / 8 = t.row) ∧ y % 8 = 7
  · have inside : x / 8 < cols ∧ y / 8 < rows :=
      ⟨here.1.1 ▸ t.colInside, here.1.2 ▸ t.rowInside⟩
    rw [if_pos here, if_pos inside, if_pos here]
  · rw [if_neg here, if_neg here, picture]
    rfl

theorem Text.mark_mark (t : Text Cell cols rows) (colour other : BitVec 32) :
    (t.mark colour).mark other = t.mark other := by
  have sameCode : ((t.mark colour).cell t.col t.row).code = (t.cell t.col t.row).code := by
    rw [mark, set_cell, if_pos ⟨rfl, rfl⟩]
  have again : (t.mark colour).mark other =
      (t.mark colour).set { code := (t.cell t.col t.row).code, bottom := some other } := by
    rw [← sameCode]
    rfl
  rw [again]
  exact set_set

/-! ## Cells that look the same -/

/-- The pixels of a cell. -/
def Cell.look (cell : Cell) : Fin 8 → Fin 8 → BitVec 32 := fun cx r => cell.pixel cx r

theorem picture_congr {t u : Text Cell cols rows} (same : t.map Cell.look = u.map Cell.look) :
    picture t = picture u := by
  funext x y
  rw [picture, picture]
  split
  · have cell := congrArg (fun v => v.cell (x / 8) (y / 8)) same
    exact congrFun (congrFun cell ⟨x % 8, Nat.mod_lt _ (by decide)⟩)
      ⟨y % 8, Nat.mod_lt _ (by decide)⟩
  · rfl

theorem picture_mark_congr {t u : Text Cell cols rows} (same : t.map Cell.look = u.map Cell.look)
    (colour : BitVec 32) : picture (t.mark colour) = picture (u.mark colour) := by
  have sameCol : (t.map Cell.look).col = (u.map Cell.look).col := by rw [same]
  have sameRow : (t.map Cell.look).row = (u.map Cell.look).row := by rw [same]
  rw [Text.map_col, Text.map_col] at sameCol
  rw [Text.map_row, Text.map_row] at sameRow
  funext x y
  rw [picture_mark, picture_mark, sameCol, sameRow, picture_congr same]

/-- Background over the bottom row of a glyph without one is not seen. -/
theorem Cell.look_erased {code : Byte} (blankRow : BottomBlank code) :
    look { code, bottom := some bg } = look (drawn code) := by
  funext cx r
  by_cases last : r.val = 7
  · have drawn := blankRow cx cx.isLt
    rw [← last] at drawn
    exact (if_pos last).trans drawn.symm
  · exact if_neg last

theorem Text.map_look_mark {t : Text Byte cols rows} (blankRow : BottomBlank (t.cell t.col t.row)) :
    ((t.map Cell.drawn).mark bg).map Cell.look = (t.map Cell.drawn).map Cell.look := by
  have erased := Cell.look_erased blankRow
  ext1
  · funext x y
    rw [map_cell, map_cell, mark, set_cell]
    by_cases here : x = t.col ∧ y = t.row
    · rw [if_pos (show x = (t.map Cell.drawn).col ∧ y = (t.map Cell.drawn).row from here)]
      refine erased.trans ?_
      rw [here.1, here.2]
      rfl
    · rw [if_neg (show ¬ (x = (t.map Cell.drawn).col ∧ y = (t.map Cell.drawn).row) from here)]
  · rfl
  · rfl

namespace Text

/-- A byte that leaves no cell draws over the cell of the cursor, or stays there. -/
theorem put_mark_of_stays {t : Text Cell cols rows} {c : Byte} (stays : ¬ t.Leaves c) :
    ((t.mark bg).put Cell.blank Cell.drawn c).mark fg =
      (t.put Cell.blank Cell.drawn c).mark fg := by
  unfold put
  by_cases isNewline : c = 0x0a
  · have single : ¬ 1 < rows := fun several => stays (.inl ⟨isNewline, several⟩)
    have last : ∀ y, ¬ y + 1 < rows := by omega
    rw [if_pos isNewline, if_pos isNewline, newline, newline, dif_neg (last _), dif_neg (last _)]
    simp only [last, if_false]
    rfl
  · rw [if_neg isNewline, if_neg isNewline]
    by_cases isReturn : c = 0x0d
    · have first : t.col = 0 := by
        have within : ¬ 0 < t.col := fun within => stays (.inr (.inl ⟨isReturn, within⟩))
        omega
      have home : ∀ u : Text Cell cols rows, u.col = 0 → u.carriageReturn = u := by
        intro u same
        ext x y
        · rfl
        · exact same.symm
        · rfl
      rw [if_pos isReturn, if_pos isReturn, home t first, home (t.mark bg) first, mark_mark]
    · rw [if_neg isReturn, if_neg isReturn]
      by_cases isBackspace : c = 0x08
      · have corner : ¬ 0 < t.col ∧ ¬ 0 < t.row :=
          not_or.mp fun further => stays (.inr (.inr ⟨isBackspace, further⟩))
        have stuck : ∀ u : Text Cell cols rows, ¬ 0 < u.col ∧ ¬ 0 < u.row → u.back = u := by
          intro u first
          rw [back, if_neg first.1, if_neg first.2]
        rw [if_pos isBackspace, if_pos isBackspace, stuck t corner, stuck (t.mark bg) corner]
        exact congrArg (mark · fg) set_set
      · rw [if_neg isBackspace, if_neg isBackspace]
        by_cases isTab : c = 0x09
        · have more : t.col < (t.col / 8 + 1) * 8 := by omega
          rw [if_pos isTab, if_pos isTab]
          exact congrArg (mark · fg) (set_tabTo more)
        · rw [if_neg isTab, if_neg isTab]
          by_cases visible : c ≥ 0x20
          · rw [if_pos visible, if_pos visible]
            exact congrArg (fun u => (advance Cell.blank u).mark fg) set_set
          · rw [if_neg visible, if_neg visible, mark_mark]

variable {t : Text Byte cols rows} {c : Byte}

theorem cells_mark (t : Text Byte cols rows) (colour : BitVec 32) :
    t.cells.mark colour = (t.map Cell.drawn).mark colour := mark_mark _ _ _

theorem type_cells (t : Text Byte cols rows) (c : Byte) :
    (t.type c).cells = ((t.map Cell.drawn).put Cell.blank Cell.drawn c).mark fg := by
  rw [cells, type, map_put]
  rfl

theorem Ready.picture_eq (ready : t.Ready c) :
    picture (((t.cells.mark bg).put Cell.blank Cell.drawn c).mark fg) = (t.type c).shown := by
  rw [cells_mark, ← cells_picture, type_cells]
  by_cases leaves : t.Leaves c
  · refine picture_mark_congr ?_ fg
    rw [map_put, map_look_mark (ready leaves), map_put]
  · rw [put_mark_of_stays (show ¬ (t.map Cell.drawn).Leaves c from leaves)]

/-- After a byte that is not ready some pixel of the cell that it leaves is missing. -/
theorem shown_ne (damaged : ¬ t.Ready c) :
    ∃ x y, x / 8 < cols ∧ y / 8 < rows ∧
      picture (((t.cells.mark bg).put Cell.blank Cell.drawn c).mark fg) x y ≠
        (t.type c).shown x y := by
  obtain ⟨leaves, inked⟩ : t.Leaves c ∧ ¬ BottomBlank (t.cell t.col t.row) :=
    Classical.not_imp.mp damaged
  obtain ⟨cx, inWidth, ink⟩ : ∃ cx, cx < 8 ∧ glyphPixel (t.cell t.col t.row) cx 7 ≠ bg := by
    simpa only [BottomBlank, not_forall, exists_prop] using inked
  have isCol : (t.col * 8 + cx) / 8 = t.col := by omega
  have isRow : (t.leftRow c * 8 + 7) / 8 = t.leftRow c := by omega
  have isColumn : (t.col * 8 + cx) % 8 = cx := by omega
  have isLast : (t.leftRow c * 8 + 7) % 8 = 7 := by omega
  obtain ⟨kept, apart, inside⟩ := put_left 0 id leaves
  have leavesCell : ((t.map Cell.drawn).mark bg).Leaves c := leaves
  obtain ⟨erased, apartCell, -⟩ := put_left Cell.blank Cell.drawn leavesCell
  have background : ((t.map Cell.drawn).mark bg).cell t.col t.row =
      { code := t.cell t.col t.row, bottom := some bg } := if_pos ⟨rfl, rfl⟩
  have onScreen : picture (((t.map Cell.drawn).mark bg).put Cell.blank Cell.drawn c)
      (t.col * 8 + cx) (t.leftRow c * 8 + 7) = bg := by
    rw [picture, isCol, isRow, isColumn, isLast, if_pos ⟨t.colInside, inside⟩]
    rw [show ((t.map Cell.drawn).mark bg).leftRow c = t.leftRow c from rfl] at erased
    exact congrArg (fun cell => Cell.pixel cell cx 7) (erased.trans background)
  have inText : (t.type c).shown (t.col * 8 + cx) (t.leftRow c * 8 + 7) =
      glyphPixel (t.cell t.col t.row) cx 7 := by
    rw [shown, isCol, isRow, isColumn, isLast, if_pos ⟨t.colInside, inside⟩,
      if_neg (fun both => apart both.1), type, kept]
  refine ⟨t.col * 8 + cx, t.leftRow c * 8 + 7, by rw [isCol]; exact t.colInside,
    by rw [isRow]; exact inside, ?_⟩
  rw [cells_mark, picture_mark, isCol, isRow, if_neg (fun both => apartCell both.1), onScreen, inText]
  exact ink.symm

end Text

/-! ## One byte, and all bytes -/

theorem Tracks.consolePutc_shown {g : Globals} {m : Memory} {t : Text Byte cols rows}
    (tracks : Tracks g m t.cells) (c : Byte) :
    ∃ g' events, Console.consolePutc g c = some (g', events) ∧
      (t.Ready c → Tracks g' (applyAll g m events) (t.type c).cells) ∧
      (Pictured g' (applyAll g m events) (t.type c).shown → t.Ready c) := by
  obtain ⟨g', events, done, after⟩ := tracks.consolePutc c
  refine ⟨g', events, done, ?_, ?_⟩
  · intro ready
    obtain ⟨sameCol, sameRow⟩ := Text.put_place (show (t.cells.mark bg).col = t.col from rfl)
      (show (t.cells.mark bg).row = t.row from rfl) Cell.blank Cell.drawn 0 id c
    exact after.congr (ready.picture_eq.trans (Text.cells_picture _).symm) sameCol sameRow
  · intro shows
    by_contra damaged
    obtain ⟨x, y, xInside, yInside, differ⟩ := Text.shown_ne damaged
    have isCols := after.cols
    have isRows := after.rows
    have wide := after.fits.cols
    have high := after.fits.rows
    have xVisible : x < g'.fbWidth.toNat := by omega
    have yVisible : y < g'.fbHeight.toNat := by omega
    exact differ ((after.pictured x y xVisible yVisible).symm.trans (shows x y xVisible yVisible))

theorem putAll_append {g g' : Globals} {events : List Event} {before after : List Byte}
    (done : putAll g before = some (g', events)) :
    putAll g (before ++ after) = (putAll g' after).map fun (g, more) => (g, events ++ more) := by
  induction before generalizing g events with
  | nil =>
      cases done
      rw [List.nil_append]
      cases putAll g' after with
      | none => rfl
      | some all => rfl
  | cons c rest ih =>
      rw [List.cons_append, putAll]
      rw [putAll] at done
      cases first : consolePutc g c with
      | none =>
          rw [first] at done
          cases done
      | some result =>
          rw [first] at done
          dsimp only at done ⊢
          cases later : putAll result.1 rest with
          | none =>
              rw [later] at done
              cases done
          | some ended =>
              rw [later, Option.some.injEq] at done
              cases done
              rw [ih later]
              cases putAll ended.1 after with
              | none => rfl
              | some all => exact congrArg some (Prod.ext rfl (List.append_assoc _ _ _).symm)

theorem Text.AllReady.append_iff {t : Text Byte cols rows} {before after : List Byte} :
    t.AllReady (before ++ after) ↔ t.AllReady before ∧ (before.foldl type t).AllReady after := by
  induction before generalizing t with
  | nil => exact (iff_of_eq (true_and _)).symm
  | cons c rest ih =>
      rw [List.cons_append, AllReady, AllReady, ih, and_assoc]
      rfl

section Typing

variable {g : Globals} {m : Memory} {t : Text Byte cols rows} (tracks : Tracks g m t.cells)
include tracks

theorem Tracks.putAll {bytes : List Byte} (ready : t.AllReady bytes) :
    ∃ g' events, Console.putAll g bytes = some (g', events) ∧
      Tracks g' (applyAll g m events) (bytes.foldl Text.type t).cells := by
  induction bytes generalizing g m t with
  | nil => exact ⟨g, [], rfl, tracks⟩
  | cons c rest ih =>
      obtain ⟨g₁, events, done, shown, -⟩ := tracks.consolePutc_shown c
      have placed := Moved.of_eq (consolePutc_moved tracks.fits c) done
      obtain ⟨g₂, more, ended, after⟩ := ih (shown ready.1) ready.2
      rw [Console.putAll, done]
      dsimp only
      rw [ended]
      refine ⟨g₂, events ++ more, rfl, ?_⟩
      rw [applyAll_append, ← placed.applyAll more]
      exact after

/-- After ready bytes the screen shows the text for one more byte only when that is ready. -/
theorem Tracks.putAll_last {before : List Byte} (ready : t.AllReady before) (c : Byte) :
    ∃ g' events, Console.putAll g (before ++ [c]) = some (g', events) ∧
      (Pictured g' (applyAll g m events) ((before ++ [c]).foldl Text.type t).shown →
        (before.foldl Text.type t).Ready c) := by
  obtain ⟨g₁, events, done, after⟩ := tracks.putAll ready
  have placed := Moved.of_eq (putAll_moved tracks.fits before) done
  obtain ⟨g₂, more, last, -, onlyReady⟩ := after.consolePutc_shown c
  rw [putAll_append done, Console.putAll, last]
  refine ⟨g₂, _, rfl, ?_⟩
  rw [List.foldl_append, applyAll_append, List.append_nil, ← placed.applyAll more]
  exact onlyReady

end Typing

/-! ## From console_init on -/

/-- The visible pixels of a framebuffer are those of a picture. -/
def Displays (base : Word) (width height pitch : BitVec 32) (m : Memory) (p : Picture) : Prop :=
  ∀ x y, x < width.toNat → y < height.toNat →
    m.load32 (base + BitVec.ofNat 64 (y * pitch.toNat + 4 * x)) = p x y

theorem pictured_iff {g : Globals} {m : Memory} {p : Picture} (framed : Framed g) :
    Pictured g m p ↔ Displays g.fbBase g.fbWidth g.fbHeight g.fbPitch m p := by
  refine forall_congr' fun x => forall_congr' fun y => forall_congr' fun xInside =>
    forall_congr' fun yInside => ?_
  rw [screenPixel_eq framed xInside yInside]
  rfl

theorem Geometry.cells {width height pitch : BitVec 32} (geometry : Geometry width height pitch) :
    0 < width.toNat / 8 ∧ 0 < height.toNat / 8 := by
  have wide := geometry.wide
  have high := geometry.high
  rw [psf2Header_eq] at wide high
  exact ⟨Nat.div_pos wide (by decide), Nat.div_pos high (by decide)⟩

/-- The empty text of a geometry. -/
def Geometry.home {width height pitch : BitVec 32} (geometry : Geometry width height pitch) :
    Text Byte (width.toNat / 8) (height.toNat / 8) :=
  Text.home 0 geometry.cells.1 geometry.cells.2

/-- `console_init` clears the screen and shows the cursor on the first cell. -/
theorem consoleInit_tracks (g : Globals) {base : Word} {width height pitch : BitVec 32}
    (geometry : Geometry width height pitch)
    (room : base.toNat + height.toNat * pitch.toNat ≤ 2 ^ 64) (m : Memory) :
    Tracks (consoleInit g base width height pitch 32).1
      (applyAll (consoleInit g base width height pitch 32).1 m
        (consoleInit g base width height pitch 32).2) geometry.home.cells := by
  have fits := consoleInit_fits g base geometry
  have events := consoleInit_events g base width height pitch
  obtain ⟨isBase, isWidth, isHeight, isPitch⟩ := consoleInit_geometry g base width height pitch
  obtain ⟨atStart, lettered⟩ := consoleInit_start g base width height pitch
  rw [events, applyAll_append]
  generalize (consoleInit g base width height pitch 32).1 = started at *
  have mapped : Mapped started := by
    rw [Mapped, isBase, isHeight, isPitch]
    exact room
  have before : Pictured started m (screenPixel started m) := fun _ _ _ _ => rfl
  have cleared : Tracks started (applyAll started m (blankFrom started 0))
      (geometry.home.map Cell.drawn) := by
    refine ⟨fits, lettered, mapped, ?_, ?_, ?_, ?_, ?_⟩
    · rw [fits.cols, isWidth]
    · rw [fits.rows, isHeight]
    · rw [atStart.1]
      rfl
    · rw [atStart.2]
      rfl
    · refine (before.blankFrom (fits.framed mapped) 0).congr fun x y _ _ => ?_
      refine (if_pos (Nat.zero_le y)).trans ?_
      rw [picture]
      split
      · exact (Cell.blank_pixel (Nat.mod_lt _ (by decide)) (Nat.mod_lt _ (by decide))).symm
      · rfl
  exact cleared.paintCursor fg

section Runs

variable (g : Globals) {base : Word} {width height pitch : BitVec 32}
  (geometry : Geometry width height pitch)
  (room : base.toNat + height.toNat * pitch.toNat ≤ 2 ^ 64) (m : Memory)
include geometry room

theorem displays_iff {bytes : List Byte} {g' : Globals} {events : List Event}
    (done : putAll (consoleInit g base width height pitch 32).1 bytes = some (g', events))
    (p : Picture) :
    Displays base width height pitch
        (applyAll g' m ((consoleInit g base width height pitch 32).2 ++ events)) p ↔
      Pictured g' (applyAll (consoleInit g base width height pitch 32).1
        (applyAll (consoleInit g base width height pitch 32).1 m
          (consoleInit g base width height pitch 32).2) events) p := by
  have tracks := consoleInit_tracks g geometry room m
  obtain ⟨isBase, isWidth, isHeight, isPitch⟩ := consoleInit_geometry g base width height pitch
  have placed := Moved.of_eq (putAll_moved tracks.fits bytes) done
  obtain ⟨col, row, place⟩ := placed.place
  dsimp only at place
  have mapped : Mapped g' := by
    rw [place]
    exact tracks.mapped
  rw [pictured_iff (placed.fits.framed mapped), place, applyAll_cursorAt, applyAll_append]
  dsimp only [Globals.cursorAt]
  rw [isBase, isWidth, isHeight, isPitch]

/-- For every byte string after `console_init`: the screen shows the text after each of its
bytes exactly when every byte is ready in the text before it, that is, takes the cursor away
from no glyph with a bottom row. -/
theorem console_shows_text_iff (bytes : List Byte) :
    (∀ before, before <+: bytes → ∃ g' events,
        putAll (consoleInit g base width height pitch 32).1 before = some (g', events) ∧
        Displays base width height pitch
          (applyAll g' m ((consoleInit g base width height pitch 32).2 ++ events))
          (before.foldl Text.type geometry.home).shown) ↔
      geometry.home.AllReady bytes := by
  have tracks := consoleInit_tracks g geometry room m
  constructor
  · intro shows
    induction bytes using List.reverseRecOn with
    | nil => trivial
    | append_singleton before c ih =>
        have earlier := ih fun start inside => shows start (inside.trans (List.prefix_append _ _))
        refine Text.AllReady.append_iff.mpr ⟨earlier, ?_, trivial⟩
        obtain ⟨g', events, done, shown⟩ := shows _ (List.prefix_refl _)
        obtain ⟨_, _, again, onlyReady⟩ := tracks.putAll_last earlier c
        rw [done, Option.some.injEq] at again
        cases again
        exact onlyReady ((displays_iff g geometry room m done _).mp shown)
  · rintro ready before ⟨after, rfl⟩
    obtain ⟨g', events, done, shows⟩ := tracks.putAll (Text.AllReady.append_iff.mp ready).1
    refine ⟨g', events, done, (displays_iff g geometry room m done _).mpr ?_⟩
    rw [← Text.cells_picture]
    exact shows.pictured

end Runs

/-- A letter without a bottom row that the cursor goes back to, a line break, a tab that
wraps and a backspace, on a screen of two by two cells with margins. -/
theorem console_shows_text_smallScreen : ∃ g' events,
    putAll (consoleInit bootGlobals 0xfd000000 20 20 96 32).1 [0x41, 0x0d, 0x0a, 0x09, 0x08] =
        some (g', events) ∧
      Displays 0xfd000000 20 20 96 (applyAll g' (fun _ => 0)
        ((consoleInit bootGlobals 0xfd000000 20 20 96 32).2 ++ events))
        ([0x41, 0x0d, 0x0a, 0x09, 0x08].foldl Text.type smallScreen_geometry.home).shown :=
  (console_shows_text_iff bootGlobals smallScreen_geometry (by decide) (fun _ => 0)
    [0x41, 0x0d, 0x0a, 0x09, 0x08]).mpr
    ⟨by decide +kernel, by decide +kernel, by decide +kernel, by decide +kernel, by decide +kernel,
      trivial⟩ _ (List.prefix_refl _)

/-- A `g` that the cursor goes back to loses its bottom row to the line break after it. -/
theorem console_loses_bottom_row : ¬ ∃ g' events,
    putAll (consoleInit bootGlobals 0xfd000000 20 20 96 32).1 [0x67, 0x0d, 0x0a] =
        some (g', events) ∧
      Displays 0xfd000000 20 20 96 (applyAll g' (fun _ => 0)
        ((consoleInit bootGlobals 0xfd000000 20 20 96 32).2 ++ events))
        ([0x67, 0x0d, 0x0a].foldl Text.type smallScreen_geometry.home).shown := by
  rintro ⟨g', events, done, shown⟩
  have room : (0xfd000000 : Word).toNat + (20 : BitVec 32).toNat * (96 : BitVec 32).toNat ≤ 2 ^ 64 := by
    decide
  have tracks := consoleInit_tracks bootGlobals smallScreen_geometry room (fun _ => 0)
  have ready : smallScreen_geometry.home.AllReady [0x67, 0x0d] :=
    ⟨by decide +kernel, by decide +kernel, trivial⟩
  obtain ⟨_, _, again, onlyReady⟩ := tracks.putAll_last ready 0x0a
  have same : ([0x67, 0x0d] ++ [0x0a] : List Byte) = [0x67, 0x0d, 0x0a] := rfl
  rw [same, done, Option.some.injEq] at again
  cases again
  have needed := onlyReady ((displays_iff bootGlobals smallScreen_geometry room _ done _).mp shown)
  revert needed
  decide +kernel

end ScrapOS.Console
