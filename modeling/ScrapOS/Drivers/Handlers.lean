import ScrapOS.Console.Bounds
import ScrapOS.Irq.Dispatch
import ScrapOS.Serial.Numbers
import ScrapOS.Serial.Text

/-! `drivers/timer.c` and `drivers/keyboard.c`: the two handlers and their initialisation. The
handlers act on the devices, on the tick count, on the console and on the serial line. -/

set_option autoImplicit false

namespace ScrapOS.Drivers

open Console (Globals consolePutc putAll)
open Irq (Devices Handlers irqInstallHandler)

/-- The file-scope state of the two drivers and of the console, the effects on the framebuffer so
far, and the serial line. -/
structure State where
  ticks : Word
  tickHz : BitVec 32
  console : Globals
  drawn : List Console.Event
  out : Output

abbrev World := Irq.World State

/-- The functions whose addresses are installed. -/
inductive Handler where
  | timerIrq | keyboardIrq
deriving DecidableEq

/-! ## The timer -/

def pitBaseHz : BitVec 32 := 1193182

/-- The bytes of the local buffer of `put_dec` are arbitrary at first. -/
def timerIrq (buf : Vector Byte 20) (world : World) : Option World :=
  let ticks := world.rest.ticks + 1
  let hz := world.rest.tickHz.setWidth 64
  if world.rest.tickHz ≠ 0 ∧ ticks % hz = 0 then
    (Timer.putDec (serialWrite world.rest.out (text "[timer] tick ")) (ticks / hz) buf).map
      fun out =>
        { world with rest := { world.rest with ticks, out := serialWrite out (text "s\n") } }
  else some { world with rest := { world.rest with ticks } }

/-- `none` when the frequency is zero: the division traps. -/
def timerInit (frequency : BitVec 32) (handlers : Handlers Handler) (world : World) :
    Option (Handlers Handler × World) :=
  if frequency = 0 then none
  else
    let divisor : BitVec 16 := (pitBaseHz / frequency).setWidth 16
    let devices := world.devices.outb 0x43 0x36
    let devices := devices.outb 0x40 ((divisor &&& 0xFF).setWidth 8)
    let devices := devices.outb 0x40 (((divisor >>> 8) &&& 0xFF).setWidth 8)
    some (irqInstallHandler 0 (some .timerIrq) handlers,
      { devices, rest := { world.rest with tickHz := frequency } })

/-! ## The keyboard -/

/-- `scancode_ascii` up to its last entry that is not zero. -/
def scancodeTable : List Byte :=
  [0, 0, ascii '1', ascii '2', ascii '3', ascii '4', ascii '5', ascii '6',
    ascii '7', ascii '8', ascii '9', ascii '0', ascii '-', ascii '=', 0x08, ascii '\t',
    ascii 'q', ascii 'w', ascii 'e', ascii 'r', ascii 't', ascii 'y', ascii 'u', ascii 'i',
    ascii 'o', ascii 'p', ascii '[', ascii ']', ascii '\n', 0, ascii 'a', ascii 's',
    ascii 'd', ascii 'f', ascii 'g', ascii 'h', ascii 'j', ascii 'k', ascii 'l', ascii ';',
    -- the apostrophe, the backtick and the backslash
    0x27, 0x60, 0, 0x5c, ascii 'z', ascii 'x', ascii 'c', ascii 'v',
    ascii 'b', ascii 'n', ascii 'm', ascii ',', ascii '.', ascii '/', 0, ascii '*',
    0, ascii ' ', 0]

def scancodeAscii (scancode : Byte) : Byte := scancodeTable.getD scancode.toNat 0

/-- What a call of `console_putc` comes to; `none` when it does not return. -/
abbrev Putc := Globals → Byte → Option (Globals × List Console.Event)

/-- `putc` is `console_putc`, unless the interrupt came in the middle of another call of it. -/
def keyboardIrq (putc : Putc) (world : World) : Option World :=
  let scancode := (world.devices.inb 0x60).1
  let world := { world with devices := (world.devices.inb 0x60).2 }
  if scancode &&& 0x80 ≠ 0 then some world
  else
    let c := scancodeAscii scancode
    if c ≠ 0 then
      match putc world.rest.console c with
      | none => none
      | some (console, events) =>
          let out := if c = ascii '\n' then serialPutc world.rest.out (ascii '\r') else world.rest.out
          some
            { world with
              rest :=
                { world.rest with
                  console, drawn := world.rest.drawn ++ events, out := serialPutc out c } }
    else some world

def keyboardInit (handlers : Handlers Handler) : Handlers Handler :=
  irqInstallHandler 1 (some .keyboardIrq) handlers

/-- What a call of a handler does. -/
def call (putc : Putc) (buf : Vector Byte 20) : Handler → World → Option World
  | .timerIrq => timerIrq buf
  | .keyboardIrq => keyboardIrq putc

/-! ## What the handlers do -/

/-- The line that is printed at a tick: one at the end of each second. -/
def heartbeat (hz : BitVec 32) (ticks : Word) : List Byte :=
  if hz ≠ 0 ∧ ticks % hz.setWidth 64 = 0 then
    text "[timer] tick " ++ decimal.numeral (ticks / hz.setWidth 64).toNat ++ text "s\n"
  else []

/-- The character that a byte of the keyboard stands for, if it is the press of such a key. -/
def echo (scancode : Byte) : List Byte :=
  if scancode &&& 0x80 ≠ 0 ∨ scancodeAscii scancode = 0 then [] else [scancodeAscii scancode]

section Timer

variable {world : World}

theorem timerIrq_eq (buf : Vector Byte 20) (world : World) : timerIrq buf world =
    some
      { world with
        rest :=
          { world.rest with
            ticks := world.rest.ticks + 1
            out := world.rest.out ++ wire (heartbeat world.rest.tickHz (world.rest.ticks + 1)) } } := by
  unfold timerIrq heartbeat
  by_cases second : world.rest.tickHz ≠ 0 ∧
      (world.rest.ticks + 1) % world.rest.tickHz.setWidth 64 = 0
  · simp only [second, if_true, Timer.putDec, putDecBody_eq, Option.map_some, serialWrite_eq,
      wire_append, wire_numeral, List.append_assoc, ne_eq, not_false_eq_true,
      and_self]
  · simp only [second, if_false, wire, List.append_nil]

end Timer

/-- The calls of `console_putc` for some characters. -/
def putEach (putc : Putc) (g : Globals) : List Byte → Option (Globals × List Console.Event)
  | [] => some (g, [])
  | c :: rest =>
      match putc g c with
      | none => none
      | some (g, events) => (putEach putc g rest).map fun (g, more) => (g, events ++ more)

section Keyboard

variable {world : World}

theorem putEach_consolePutc (g : Globals) (s : List Byte) : putEach consolePutc g s = putAll g s := by
  induction s generalizing g with
  | nil => rfl
  | cons c rest ih =>
      simp only [putEach, putAll, ih]
      cases consolePutc g c with
      | none => rfl
      | some shown =>
          dsimp only
          cases putAll shown.1 rest <;> rfl

theorem keyboardIrq_eq (putc : Putc) (world : World) : keyboardIrq putc world =
    (putEach putc world.rest.console (echo world.devices.readKeyboard.1)).map fun shown =>
      { devices := world.devices.readKeyboard.2
        rest :=
          { world.rest with
            console := shown.1
            drawn := world.rest.drawn ++ shown.2
            out := world.rest.out ++ wire (echo world.devices.readKeyboard.1) } } := by
  have port : world.devices.inb 0x60 = world.devices.readKeyboard := rfl
  unfold keyboardIrq echo
  rw [port]
  by_cases released : world.devices.readKeyboard.1 &&& 0x80 ≠ 0
  · simp only [released, ne_eq, not_false_eq_true, if_true, true_or, putEach, wire, List.append_nil,
      Option.map_some]
  · by_cases silent : scancodeAscii world.devices.readKeyboard.1 = 0
    · simp only [released, silent, ne_eq, not_true_eq_false, if_false, or_true, if_true, putEach, wire,
        List.append_nil, Option.map_some]
    · simp only [released, silent, ne_eq, not_false_eq_true, if_false, if_true, false_or, putEach]
      cases putc world.rest.console (scancodeAscii world.devices.readKeyboard.1) with
      | none => rfl
      | some shown =>
          by_cases newline : scancodeAscii world.devices.readKeyboard.1 = ascii '\n'
          · simp [newline, wire, serialPutc]
          · simp only [newline, if_false, wire, serialPutc, List.append_nil, Option.map_some]

theorem call_modest (putc : Putc) (buf : Vector Byte 20) : Irq.Modest (call putc buf) := by
  intro handler world world' returned
  cases handler with
  | timerIrq =>
      rw [call, timerIrq_eq] at returned
      cases returned
      exact ⟨_, _, rfl⟩
  | keyboardIrq =>
      rw [call, keyboardIrq_eq, Option.map_eq_some_iff] at returned
      obtain ⟨shown, -, rfl⟩ := returned
      exact Irq.Devices.readKeyboard_same world.devices

end Keyboard

end ScrapOS.Drivers
