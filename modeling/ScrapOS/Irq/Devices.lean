import ScrapOS.Pic8259.Basic
import ScrapOS.Memory.Bytes

/-! What the kernel reaches through ports: the two interrupt controllers, channel 0 of the
timer chip, and the keyboard controller. The UART is not among them. -/

set_option autoImplicit false

namespace ScrapOS.Irq

open Pic8259

abbrev Port := BitVec 16

/-! ## The timer chip -/

/-- Channel 0: the control word, the low byte of a reload value whose high byte is to come, and
the reload value. -/
structure Pit where
  control : Byte
  low : Option Byte
  reload : BitVec 16

namespace Pit

/-- Control words for other channels and the latch command do not concern the reload value. -/
def writeControl (pit : Pit) (value : Byte) : Pit :=
  if value >>> 6 = 0 ∧ value &&& 0x30 ≠ 0 then { pit with control := value, low := none } else pit

/-- A byte of the reload value, as the access bits of the control word say. -/
def writeData (pit : Pit) (value : Byte) : Pit :=
  if pit.control &&& 0x30 = 0x10 then { pit with reload := value.setWidth 16 }
  else if pit.control &&& 0x30 = 0x20 then { pit with reload := value ++ 0#8 }
  else
    match pit.low with
    | none => { pit with low := some value }
    | some low => { pit with low := none, reload := value ++ low }

end Pit

/-! ## The keyboard controller -/

/-- The first waiting byte stands in the output buffer; `last` is what was read last. -/
structure Keyboard where
  waiting : List Byte
  last : Byte

/-! ## All of them -/

structure Devices where
  pics : Pair
  pit : Pit
  keyboard : Keyboard

namespace Devices

def raise (devices : Devices) (line : Nat) : Devices :=
  { devices with pics := devices.pics.raise line }

def withdraw (devices : Devices) (line : Nat) : Devices :=
  { devices with pics := devices.pics.withdraw line }

/-- The keyboard sends a byte. Line 1 rises when the byte comes to stand in the output buffer. -/
def keySent (devices : Devices) (code : Byte) : Devices :=
  let arrived :=
    { devices with
      keyboard := { devices.keyboard with waiting := devices.keyboard.waiting ++ [code] } }
  if devices.keyboard.waiting = [] then arrived.raise 1 else arrived

/-- Reading the output buffer lowers line 1, and the next byte raises it again. -/
def readKeyboard (devices : Devices) : Byte × Devices :=
  match devices.keyboard.waiting with
  | [] => (devices.keyboard.last, devices)
  | code :: rest =>
      let taken := { devices.withdraw 1 with keyboard := { waiting := rest, last := code } }
      (code, if rest = [] then taken else taken.raise 1)

def outb (devices : Devices) (port : Port) (value : Byte) : Devices :=
  if port = 0x20 then
    { devices with pics := { devices.pics with master := devices.pics.master.writeCommand value } }
  else if port = 0x21 then
    { devices with pics := { devices.pics with master := devices.pics.master.writeData value } }
  else if port = 0xA0 then
    { devices with pics := { devices.pics with slave := devices.pics.slave.writeCommand value } }
  else if port = 0xA1 then
    { devices with pics := { devices.pics with slave := devices.pics.slave.writeData value } }
  else if port = 0x40 then { devices with pit := devices.pit.writeData value }
  else if port = 0x43 then { devices with pit := devices.pit.writeControl value }
  else devices

/-- Only the ports that the drivers read are told apart from the ones that nothing drives. -/
def inb (devices : Devices) (port : Port) : Byte × Devices :=
  if port = 0x21 then (devices.pics.master.mask, devices)
  else if port = 0xA1 then (devices.pics.slave.mask, devices)
  else if port = 0x60 then devices.readKeyboard
  else (0xFF, devices)

/-- `io_wait` -/
def ioWait (devices : Devices) : Devices := devices.outb 0x80 0

@[simp] theorem ioWait_eq (devices : Devices) : devices.ioWait = devices := rfl

section Keyboard

variable {devices : Devices} {code : Byte}

/-- Line 1 is requested exactly when a byte stands in the output buffer. -/
def KeyboardHeard (devices : Devices) : Prop :=
  devices.pics.requested 1 = true ↔ devices.keyboard.waiting ≠ []

theorem raise_pics (devices : Devices) (line : Nat) :
    (devices.raise line).pics = devices.pics.raise line := rfl

theorem keySent_waiting (devices : Devices) (code : Byte) :
    (devices.keySent code).keyboard.waiting = devices.keyboard.waiting ++ [code] := by
  unfold keySent
  dsimp only
  split <;> rfl

theorem keySent_same (devices : Devices) (code : Byte) :
    devices.pics.SameSetup (devices.keySent code).pics := by
  unfold keySent
  dsimp only
  split
  · exact Pair.raise_same _ 1
  · exact ⟨_, _, rfl⟩

theorem KeyboardHeard.keySent (heard : devices.KeyboardHeard) (code : Byte) :
    (devices.keySent code).KeyboardHeard := by
  unfold KeyboardHeard
  simp only [keySent_waiting, ne_eq, List.append_eq_nil_iff, List.cons_ne_self, and_false,
    not_false_eq_true, iff_true]
  cases waiting : devices.keyboard.waiting with
  | nil => simp [Devices.keySent, waiting, raise_pics, Pair.requested_raise (by decide : 1 < 16)]
  | cons first rest =>
      have asked := heard.mpr (by simp [waiting])
      simpa [Devices.keySent, waiting] using asked

theorem readKeyboard_cons {rest : List Byte} (waiting : devices.keyboard.waiting = code :: rest) :
    (devices.readKeyboard).1 = code ∧
      (devices.readKeyboard).2.keyboard.waiting = rest := by
  unfold readKeyboard
  rw [waiting]
  dsimp only
  cases rest <;> exact ⟨rfl, rfl⟩

theorem readKeyboard_same (devices : Devices) :
    devices.pics.SameSetup (devices.readKeyboard).2.pics := by
  unfold readKeyboard
  cases devices.keyboard.waiting with
  | nil => exact ⟨_, _, rfl⟩
  | cons code rest =>
      have lowered := devices.pics.withdraw_same 1
      cases rest with
      | nil => exact lowered
      | cons next more => exact lowered.trans (Pair.raise_same _ 1)

theorem readKeyboard_heard (waiting : devices.keyboard.waiting ≠ []) :
    (devices.readKeyboard).2.KeyboardHeard := by
  unfold KeyboardHeard readKeyboard
  cases found : devices.keyboard.waiting with
  | nil => exact absurd found waiting
  | cons code rest =>
      cases rest with
      | nil => simp [withdraw, Pair.requested_withdraw (by decide : 1 < 16)]
      | cons next more =>
          simp [raise, withdraw, Pair.requested_raise (by decide : 1 < 16)]

end Keyboard

end Devices

end ScrapOS.Irq
