import ScrapOS.Console.Font
import ScrapOS.Lib.String

/-! The framebuffer text console of `drivers/console.c`. Each function gives its new globals
and what it does to the framebuffer, in order: the pixels it puts, the bytes it moves, and
the unsigned subtractions it makes on the way. -/

set_option autoImplicit false

namespace ScrapOS.Console

/-- The file-scope state of `console.c`; `glyphData` is an offset into `font_psf`. -/
structure Globals where
  fbBase : Word
  fbWidth : BitVec 32
  fbHeight : BitVec 32
  fbPitch : BitVec 32
  fbBytesPp : BitVec 32
  glyphData : Nat
  glyphCount : BitVec 32
  glyphW : BitVec 32
  glyphH : BitVec 32
  glyphBytes : BitVec 32
  gwBytes : BitVec 32
  cols : BitVec 32
  rows : BitVec 32
  curCol : BitVec 32
  curRow : BitVec 32
  ready : Bool

/-- An effect of the console: `put_pixel`, `memmove` of framebuffer bytes, or an unsigned
subtraction `a - b`, which has no effect but must not wrap. -/
inductive Event where
  | pixel (x y colour : BitVec 32)
  | move (dest src bytes : Word)
  | sub (a b : BitVec 32)

def fg : BitVec 32 := 0x00c8f0c8

def bg : BitVec 32 := 0x00060f0a

/-! ## What the effects do to memory -/

/-- Where `put_pixel` stores. -/
def pixelAddress (g : Globals) (x y : BitVec 32) : Word :=
  g.fbBase + y.setWidth 64 * g.fbPitch.setWidth 64 + x.setWidth 64 * g.fbBytesPp.setWidth 64

def Event.apply (g : Globals) (m : Memory) : Event → Memory
  | .pixel x y colour => m.store32 (pixelAddress g x y) colour
  | .move dest src bytes => memmove m dest src bytes.toNat
  | .sub _ _ => m

def applyAll (g : Globals) (m : Memory) (events : List Event) : Memory :=
  events.foldl (Event.apply g) m

/-! ## Pixel-level helpers -/

/-- The values of an unsigned loop counter that runs from `start` while it is below `stop`. -/
def upTo (start stop : BitVec 32) : List (BitVec 32) :=
  (List.range (stop.toNat - start.toNat)).map fun i => start + BitVec.ofNat 32 i

/-- The bit of a glyph at row `r` and column `cx`, most significant bit first. -/
def glyphBit (g : Globals) (ch r cx : BitVec 32) : Bool :=
  let byte := fontPsf.getD
    (g.glyphData + (ch * g.glyphBytes).toNat + (r * g.gwBytes + (cx >>> 3)).toNat) 0
  (byte >>> (7 - (cx &&& 7)).toNat) &&& 1 != 0

def drawCell (g : Globals) (ch : Byte) (col row : BitVec 32) : List Event :=
  let ch : BitVec 32 := if ch.setWidth 32 ≥ g.glyphCount then 0 else ch.setWidth 32
  let px0 := col * g.glyphW
  let py0 := row * g.glyphH
  (upTo 0 g.glyphH).flatMap fun r => (upTo 0 g.glyphW).map fun cx =>
    .pixel (px0 + cx) (py0 + r) (if glyphBit g ch r cx then fg else bg)

def clearCell (g : Globals) (col row : BitVec 32) : List Event := drawCell g 0 col row

def paintCursor (g : Globals) (colour : BitVec 32) : List Event :=
  let y := g.curRow * g.glyphH + (g.glyphH - 1)
  let x0 := g.curCol * g.glyphW
  .sub g.glyphH 1 :: (upTo 0 g.glyphW).map fun x => .pixel (x0 + x) y colour

def drawCursor (g : Globals) : List Event := paintCursor g fg

def eraseCursor (g : Globals) : List Event := paintCursor g bg

/-- The loops that fill the visible pixels from scanline `start` on with `bg`. -/
def blankFrom (g : Globals) (start : BitVec 32) : List Event :=
  (upTo start g.fbHeight).flatMap fun y => (upTo 0 g.fbWidth).map fun x => .pixel x y bg

/-! ## Scrolling -/

def scroll (g : Globals) : List Event :=
  let rowPx := g.glyphH
  let moveBytes : Word := (g.fbHeight - rowPx).setWidth 64 * g.fbPitch.setWidth 64
  .sub g.fbHeight rowPx ::
    .move g.fbBase (g.fbBase + rowPx.setWidth 64 * g.fbPitch.setWidth 64) moveBytes ::
      .sub g.rows 1 :: blankFrom g ((g.rows - 1) * g.glyphH)

def newline (g : Globals) : Globals × List Event :=
  let g := { g with curCol := 0, curRow := g.curRow + 1 }
  if g.curRow ≥ g.rows then ({ g with curRow := g.rows - 1 }, scroll g ++ [.sub g.rows 1])
  else (g, [])

/-! ## Public API -/

def consoleInit (g : Globals) (base : Word) (width height pitch : BitVec 32) (bpp : BitVec 16) :
    Globals × List Event :=
  let h := psf2Header
  if h.magic ≠ psf2Magic ∨ h.width = 0 ∨ h.height = 0 then ({ g with ready := false }, [])
  else
    let g : Globals := {
      fbBase := base
      fbWidth := width
      fbHeight := height
      fbPitch := pitch
      fbBytesPp := (bpp / 8).setWidth 32
      glyphData := h.headersize.toNat
      glyphCount := h.length
      glyphW := h.width
      glyphH := h.height
      glyphBytes := h.charsize
      gwBytes := (h.width + 7) / 8
      cols := width / h.width
      rows := height / h.height
      curCol := 0
      curRow := 0
      ready := true }
    (g, blankFrom g 0 ++ drawCursor g)

/-- The loop of the tab case; `none` when it does not end. -/
def tabLoop (g : Globals) (target : BitVec 32) : Nat → Option (Globals × List Event)
  | 0 => none
  | steps + 1 =>
      if g.curCol < target then
        let cleared := clearCell g g.curCol g.curRow
        let g := { g with curCol := g.curCol + 1 }
        if g.curCol ≥ g.cols then
          let (g, events) := newline g
          some (g, cleared ++ events)
        else
          match tabLoop g target steps with
          | none => none
          | some (g, events) => some (g, cleared ++ events)
      else some (g, [])

/-- The case of `'\b'`: one cell back, across the line boundary if needed, and wipe it. -/
def backspace (g : Globals) : Globals × List Event :=
  let (g, events) :=
    if g.curCol > 0 then ({ g with curCol := g.curCol - 1 }, [Event.sub g.curCol 1])
    else if g.curRow > 0 then
      ({ g with curRow := g.curRow - 1, curCol := g.cols - 1 },
        [Event.sub g.curRow 1, Event.sub g.cols 1])
    else (g, [])
  (g, events ++ clearCell g g.curCol g.curRow)

/-- The default case: printable glyphs only. -/
def printable (g : Globals) (c : Byte) : Globals × List Event :=
  if c ≥ 0x20 then
    let drawn := drawCell g c g.curCol g.curRow
    let g := { g with curCol := g.curCol + 1 }
    if g.curCol ≥ g.cols then
      let (g, events) := newline g
      (g, drawn ++ events)
    else (g, drawn)
  else (g, [])

/-- The `switch` of `console_putc`. -/
def dispatch (g : Globals) (c : Byte) : Option (Globals × List Event) :=
  if c = 0x0a then some (newline g)
  else if c = 0x0d then some ({ g with curCol := 0 }, [])
  else if c = 0x08 then some (backspace g)
  else if c = 0x09 then tabLoop g ((g.curCol &&& ~~~7) + 8) (2 ^ 32)
  else some (printable g c)

def consolePutc (g : Globals) (c : Byte) : Option (Globals × List Event) :=
  if g.ready then
    match dispatch g c with
    | none => none
    | some (g', events) => some (g', eraseCursor g ++ events ++ drawCursor g')
  else some (g, [])

/-- `console_putc` for one byte after the other. -/
def putAll (g : Globals) : List Byte → Option (Globals × List Event)
  | [] => some (g, [])
  | c :: rest =>
      match consolePutc g c with
      | none => none
      | some (g, events) =>
          match putAll g rest with
          | none => none
          | some (g, more) => some (g, events ++ more)

end ScrapOS.Console
