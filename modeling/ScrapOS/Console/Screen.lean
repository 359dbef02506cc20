import ScrapOS.Console.Picture

/-! What each byte does to the cells on the screen: the cursor is taken down, the text
operation of the byte is carried out on the cells, and the cursor is painted again. -/

set_option autoImplicit false

namespace ScrapOS.Console

section Effects

variable {g : Globals} {m : Memory}

theorem applyAll_append (before after : List Event) :
    applyAll g m (before ++ after) = applyAll g (applyAll g m before) after :=
  List.foldl_append

/-- The framebuffer is where it is, wherever the cursor is. -/
theorem applyAll_cursorAt (col row : BitVec 32) (events : List Event) :
    applyAll (g.cursorAt col row) m events = applyAll g m events := by
  have same : Event.apply (g.cursorAt col row) = Event.apply g := by
    funext m event
    cases event with
    | pixel x y colour => rfl
    | move dest src bytes => rfl
    | sub a b => rfl
  rw [applyAll, same, applyAll]

theorem Moved.applyAll {result : Globals × List Event} (moved : Moved g result)
    (events : List Event) : Console.applyAll result.1 m events = Console.applyAll g m events := by
  obtain ⟨col, row, place⟩ := moved.place
  rw [place, applyAll_cursorAt]

end Effects

variable {cols rows : Nat}

/-- The picture of a grid that moved up one row. -/
theorem picture_newline {t : Text Cell cols rows} (last : ¬ t.row + 1 < rows) (x y : Nat) :
    picture (t.newline Cell.blank) x y = if (rows - 1) * 8 ≤ y then bg else picture t x (y + 8) := by
  have rowInside := t.rowInside
  have lineBelow : (y + 8) / 8 = y / 8 + 1 := by omega
  have sameStep : (y + 8) % 8 = y % 8 := by omega
  rw [picture, picture, Text.newline, dif_neg last, lineBelow, sameStep]
  dsimp only
  by_cases below : y / 8 + 1 < rows
  · have above : ¬ (rows - 1) * 8 ≤ y := by omega
    have inside : y / 8 < rows := by omega
    simp only [below, above, inside, if_true, if_false]
  · have freed : (rows - 1) * 8 ≤ y := by omega
    simp only [below, freed, if_true, if_false]
    split
    · exact Cell.blank_pixel (Nat.mod_lt _ (by decide)) (Nat.mod_lt _ (by decide))
    · rfl

namespace Tracks

variable {g : Globals} {m : Memory} {t : Text Cell cols rows}

theorem newline (tracks : Tracks g m t) :
    Tracks (Console.newline g).1 (applyAll g m (Console.newline g).2) (t.newline Cell.blank) := by
  have fits := tracks.fits
  have isRow := tracks.row
  have isRows := tracks.rows
  have small := g.rows.isLt
  have rowInside := t.rowInside
  have one : (1 : BitVec 32).toNat = 1 := rfl
  have next : (g.curRow + 1).toNat = t.row + 1 := by bv_omega
  rw [Console.newline]
  dsimp only
  by_cases last : g.curRow + 1 ≥ g.rows
  · have past : ¬ t.row + 1 < rows := by bv_omega
    rw [if_pos last, applyAll_append]
    have scrolled : Pictured g (applyAll g m (scroll g)) (picture (t.newline Cell.blank)) := by
      refine (tracks.pictured.scroll tracks.framed fits.scrolls).congr fun x y _ _ => ?_
      have eight : g.glyphH.toNat = 8 := by
        rw [fits.glyphH]
        rfl
      rw [picture_newline past, isRows, eight]
    refine tracks.next scrolled ?_ ?_
    · rw [Text.newline, dif_neg past]
      rfl
    · rw [Text.newline, dif_neg past]
      dsimp only [Text.carriageReturn]
      bv_omega
  · have below : t.row + 1 < rows := by bv_omega
    rw [if_neg last, Text.newline, dif_pos below]
    exact tracks.move rfl next fun _ _ => rfl

theorem advance (tracks : Tracks g m t) :
    (¬ g.curCol + 1 ≥ g.cols → t.col + 1 < cols ∧
        Tracks { g with curCol := g.curCol + 1 } m (t.advance Cell.blank)) ∧
      (g.curCol + 1 ≥ g.cols → ¬ t.col + 1 < cols ∧
        Tracks (Console.newline { g with curCol := g.curCol + 1 }).1
          (applyAll g m (Console.newline { g with curCol := g.curCol + 1 }).2)
          (t.advance Cell.blank)) := by
  have isCol := tracks.col
  have isCols := tracks.cols
  have colInside := t.colInside
  have small := g.cols.isLt
  have one : (1 : BitVec 32).toNat = 1 := rfl
  have step : (g.curCol + 1).toNat = t.col + 1 := by bv_omega
  constructor
  · intro within
    have inside : t.col + 1 < cols := by bv_omega
    refine ⟨inside, ?_⟩
    rw [Text.advance, dif_pos inside]
    exact tracks.move step tracks.row fun _ _ => rfl
  · intro past
    have outside : ¬ t.col + 1 < cols := by bv_omega
    refine ⟨outside, ?_⟩
    rw [Text.advance, dif_neg outside, newline_curCol]
    exact tracks.newline

theorem printable (tracks : Tracks g m t) (c : Byte) :
    Tracks (Console.printable g c).1 (applyAll g m (Console.printable g c).2)
      (if c ≥ 0x20 then (t.set (Cell.drawn c)).advance Cell.blank else t) := by
  rw [Console.printable]
  by_cases visible : c ≥ 0x20
  · obtain ⟨stays, wraps⟩ := (tracks.drawCell c).advance
    rw [if_pos visible, if_pos visible]
    dsimp only
    by_cases past : g.curCol + 1 ≥ g.cols
    · rw [if_pos past, applyAll_append]
      exact (wraps past).2
    · rw [if_neg past]
      exact (stays past).2
  · rw [if_neg visible, if_neg visible]
    exact tracks

theorem clearCell (tracks : Tracks g m t) :
    Tracks g (applyAll g m (Console.clearCell g g.curCol g.curRow)) (t.set Cell.blank) :=
  tracks.drawCell 0

theorem backspace (tracks : Tracks g m t) :
    Tracks (Console.backspace g).1 (applyAll g m (Console.backspace g).2)
      (t.back.set Cell.blank) := by
  have isCol := tracks.col
  have isRow := tracks.row
  have isCols := tracks.cols
  have isRows := tracks.rows
  have colInside := t.colInside
  have rowInside := t.rowInside
  have one : (1 : BitVec 32).toNat = 1 := rfl
  have zero : (0 : BitVec 32).toNat = 0 := rfl
  rw [Console.backspace, Text.back]
  by_cases within : g.curCol > 0
  · have inside : 0 < t.col := by bv_omega
    rw [if_pos within, if_pos inside]
    dsimp only
    rw [applyAll_append]
    have moved : Tracks (g.cursorAt (g.curCol - 1) g.curRow) m
        { t with col := t.col - 1, colInside := Nat.lt_of_le_of_lt (Nat.sub_le _ _) t.colInside } :=
      tracks.move (by dsimp only; bv_omega) isRow fun _ _ => rfl
    rw [← applyAll_cursorAt (g.curCol - 1) g.curRow]
    exact moved.clearCell
  · have first : ¬ 0 < t.col := by bv_omega
    rw [if_neg within, if_neg first]
    by_cases below : g.curRow > 0
    · have under : 0 < t.row := by bv_omega
      rw [if_pos below, if_pos under]
      dsimp only
      rw [applyAll_append]
      have moved : Tracks (g.cursorAt (g.cols - 1) (g.curRow - 1)) m
          { t with
            col := cols - 1
            row := t.row - 1
            colInside := Nat.sub_lt (Nat.zero_lt_of_lt t.colInside) Nat.one_pos
            rowInside := Nat.lt_of_le_of_lt (Nat.sub_le _ _) t.rowInside } :=
        tracks.move (by dsimp only; bv_omega) (by dsimp only; bv_omega) fun _ _ => rfl
      rw [← applyAll_cursorAt (g.cols - 1) (g.curRow - 1)]
      exact moved.clearCell
    · have top : ¬ 0 < t.row := by bv_omega
      rw [if_neg below, if_neg top]
      exact tracks.clearCell

/-- The tab loop blanks the cells that it passes; the column grows with every round but the
last. -/
theorem tabLoop {target : BitVec 32} {steps : Nat} (tracks : Tracks g m t)
    (reaching : t.col ≤ target.toNat) (enough : target.toNat - t.col < steps) :
    ∃ result, Console.tabLoop g target steps = some result ∧
      Tracks result.1 (applyAll g m result.2) (t.tabTo Cell.blank target.toNat) := by
  induction steps generalizing g m t with
  | zero => cases enough
  | succ steps ih =>
      have isCol := tracks.col
      rw [Console.tabLoop]
      by_cases more : g.curCol < target
      · have before : t.col < target.toNat := isCol ▸ BitVec.lt_def.mp more
        obtain ⟨stays, wraps⟩ := tracks.clearCell.advance
        rw [if_pos more, Text.tabTo_step before]
        dsimp only
        by_cases past : g.curCol + 1 ≥ g.cols
        · obtain ⟨outside, moved⟩ := wraps past
          rw [if_pos past, if_neg (show ¬ t.col + 1 < cols from outside)]
          refine ⟨_, rfl, ?_⟩
          dsimp only
          rw [applyAll_append]
          exact moved
        · obtain ⟨inside, moved⟩ := stays past
          have stepped : ((t.set Cell.blank).advance Cell.blank).col = t.col + 1 := by
            rw [Text.advance, dif_pos (show (t.set Cell.blank).col + 1 < cols from inside)]
            rfl
          obtain ⟨result, ended, later⟩ := ih moved (by rw [stepped]; exact before)
            (by rw [stepped]; omega)
          rw [if_neg past, if_pos (show t.col + 1 < cols from inside), ended]
          refine ⟨_, rfl, ?_⟩
          dsimp only
          rw [applyAll_append, ← applyAll_cursorAt (g.curCol + 1) g.curRow]
          exact later
      · have reached : t.col = target.toNat := by
          rw [BitVec.lt_def] at more
          omega
        rw [if_neg more, Text.tabTo_done reached]
        exact ⟨_, rfl, tracks⟩

theorem dispatch (tracks : Tracks g m t) (c : Byte) :
    ∃ result, Console.dispatch g c = some result ∧
      Tracks result.1 (applyAll g m result.2) (t.put Cell.blank Cell.drawn c) := by
  rw [Console.dispatch, Text.put]
  by_cases isNewline : c = 0x0a
  · rw [if_pos isNewline, if_pos isNewline]
    exact ⟨_, rfl, tracks.newline⟩
  · rw [if_neg isNewline, if_neg isNewline]
    by_cases isReturn : c = 0x0d
    · rw [if_pos isReturn, if_pos isReturn]
      exact ⟨_, rfl, tracks.move rfl tracks.row fun _ _ => rfl⟩
    · rw [if_neg isReturn, if_neg isReturn]
      by_cases isBackspace : c = 0x08
      · rw [if_pos isBackspace, if_pos isBackspace]
        exact ⟨_, rfl, tracks.backspace⟩
      · rw [if_neg isBackspace, if_neg isBackspace]
        by_cases isTab : c = 0x09
        · rw [if_pos isTab, if_pos isTab]
          have stop : ((g.curCol &&& ~~~7) + 8).toNat = (t.col / 8 + 1) * 8 := by
            have isCol := tracks.col
            have isCols := tracks.cols
            have colInside := t.colInside
            have cells := tracks.fits.cols
            have wide := g.fbWidth.isLt
            have rounded : (g.curCol &&& ~~~7).toNat = g.curCol.toNat / 8 * 8 :=
              and_not_low g.curCol 3 (by decide)
            have eight : (8 : BitVec 32).toNat = 8 := rfl
            rw [BitVec.toNat_add, rounded, eight]
            omega
          obtain ⟨result, ended, moved⟩ := tracks.tabLoop
            (show t.col ≤ ((g.curCol &&& ~~~7) + 8).toNat by omega)
            (Nat.lt_of_le_of_lt (Nat.sub_le _ _) ((g.curCol &&& ~~~7) + 8).isLt)
          rw [stop] at moved
          exact ⟨result, ended, moved⟩
        · rw [if_neg isTab, if_neg isTab]
          exact ⟨_, rfl, tracks.printable c⟩

/-- Each byte erases the cursor, changes the cells as the text says, and paints the cursor. -/
theorem consolePutc (tracks : Tracks g m t) (c : Byte) :
    ∃ g' events, Console.consolePutc g c = some (g', events) ∧
      Tracks g' (applyAll g m events) (((t.mark bg).put Cell.blank Cell.drawn c).mark fg) := by
  obtain ⟨⟨g', events⟩, done, moved⟩ := (tracks.paintCursor bg).dispatch c
  have placed := Moved.of_eq (dispatch_moved tracks.fits c) done
  rw [Console.consolePutc, if_pos tracks.fits.ready, done]
  refine ⟨g', _, rfl, ?_⟩
  rw [applyAll_append, applyAll_append]
  rw [← placed.applyAll (drawCursor g')]
  exact moved.paintCursor fg

end Tracks

end ScrapOS.Console
