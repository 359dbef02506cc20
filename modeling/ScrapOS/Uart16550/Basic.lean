import Mathlib

/-! The transmitting half of a 16550 UART as a driver meets it: the registers that set it up,
the FIFO in front of the shift register, and the line that the frames leave on. -/

set_option autoImplicit false

namespace ScrapOS.Uart16550

abbrev Register := BitVec 8

/-- A byte on the line, and how it is sent. -/
structure Frame where
  divisor : BitVec 16
  format : Register
  byte : Register
deriving DecidableEq

/-! ## Registers -/

/-- What the driver sets: the interrupt enables, the line format, the divisor, whether the FIFOs
are on, and the modem control. -/
structure Setup where
  interrupts : Register
  format : Register
  divisor : BitVec 16
  fifos : Bool
  modem : Register
deriving DecidableEq

namespace Setup

/-- The first two registers are the divisor. -/
def latch (setup : Setup) : Bool := setup.format.getLsbD 7

/-- What is sent does not reach the line. -/
def loopback (setup : Setup) : Bool := setup.modem.getLsbD 4

def capacity (setup : Setup) : Nat := if setup.fifos then 16 else 1

/-- Status registers ignore what is written to them, and the scratch register does nothing. -/
def write (setup : Setup) (offset : Nat) (value : Register) : Setup :=
  match offset with
  | 0 =>
      if setup.latch then { setup with divisor := setup.divisor.extractLsb' 8 8 ++ value }
      else setup
  | 1 =>
      if setup.latch then { setup with divisor := value ++ setup.divisor.extractLsb' 0 8 }
      else { setup with interrupts := value }
  | 2 => { setup with fifos := value.getLsbD 0 }
  | 3 => { setup with format := value }
  | 4 => { setup with modem := value }
  | _ => setup

/-- A byte for the transmitter, not for the divisor. -/
def Transmits (setup : Setup) (offset : Nat) : Prop := offset = 0 ∧ setup.latch = false

instance (setup : Setup) (offset : Nat) : Decidable (setup.Transmits offset) :=
  inferInstanceAs (Decidable (_ ∧ _))

/-- The FIFO control register empties the FIFO when it is told to, and when the FIFOs are
switched on or off. -/
def Clears (setup : Setup) (offset : Nat) (value : Register) : Prop :=
  offset = 2 ∧ (value.getLsbD 0 ≠ setup.fifos ∨ (value.getLsbD 0 = true ∧ value.getLsbD 2 = true))

instance (setup : Setup) (offset : Nat) (value : Register) : Decidable (setup.Clears offset value) :=
  inferInstanceAs (Decidable (_ ∧ _))

def frame (setup : Setup) (byte : Register) : Frame where
  divisor := setup.divisor
  format := setup.format
  byte := byte

end Setup

/-! ## The chip -/

/-- Besides its setup: what waits in the FIFO, the byte in the shift register, the line status
bits of the receiver, and the frames on the line so far. -/
structure Chip where
  setup : Setup
  waiting : List Register
  shifting : Option Register
  received : Register
  line : List Frame

namespace Chip

/-- A full FIFO drops the byte; without the FIFOs it replaces the one that waited. -/
def accept (chip : Chip) (byte : Register) : List Register :=
  if chip.waiting.length < chip.setup.capacity then chip.waiting ++ [byte]
  else if chip.setup.fifos then chip.waiting
  else [byte]

def write (chip : Chip) (offset : Nat) (value : Register) : Chip :=
  { chip with
    setup := chip.setup.write offset value
    waiting :=
      if chip.setup.Transmits offset then chip.accept value
      else if chip.setup.Clears offset value then []
      else chip.waiting }

/-- Bit 5: nothing waits; bit 6: nothing is being sent either. -/
def status (chip : Chip) : Register :=
  (chip.received &&& 0x9F) ||| (if chip.waiting = [] then 0x20 else 0) |||
    (if chip.waiting = [] ∧ chip.shifting = none then 0x40 else 0)

/-- Reading the line status register forgets the errors of the receiver. -/
def readStatus (chip : Chip) : Register × Chip :=
  (chip.status, { chip with received := chip.received &&& 0x01 })

/-- What the chip does by itself. -/
inductive Runs : Chip → Chip → Prop where
  | load {chip : Chip} {byte : Register} {rest : List Register} :
      chip.waiting = byte :: rest → chip.shifting = none →
      Runs chip { chip with waiting := rest, shifting := some byte }
  | send {chip : Chip} {byte : Register} : chip.shifting = some byte →
      Runs chip
        { chip with
          shifting := none
          line := if chip.setup.loopback then chip.line else chip.line ++ [chip.setup.frame byte] }
  | receive {chip : Chip} (received : Register) : Runs chip { chip with received := received }

/-- What was accepted and is not on the line yet, first the byte that is being sent. -/
def inFlight (chip : Chip) : List Register := chip.shifting.toList ++ chip.waiting

/-- The line as it will be. -/
def carried (chip : Chip) : List Frame := chip.line ++ chip.inFlight.map chip.setup.frame

section Facts

variable {chip chip' : Chip} {offset : Nat} {byte value : Register}

/-- The poll of a driver: bit 5 says that the FIFO is empty. -/
theorem status_empty_iff : chip.status &&& 0x20 = 0 ↔ chip.waiting ≠ [] := by
  have others : chip.received &&& 0x9F &&& 0x20 = 0 := by
    rw [BitVec.and_assoc]
    exact BitVec.and_zero
  unfold status
  rw [BitVec.and_or_distrib_right, BitVec.and_or_distrib_right, others]
  by_cases empty : chip.waiting = []
  · by_cases idle : chip.shifting = none <;> simp [empty, idle]
  · simp [empty]

theorem write_transmits (room : chip.waiting.length < chip.setup.capacity)
    (data : chip.setup.latch = false) :
    chip.write 0 byte = { chip with waiting := chip.waiting ++ [byte] } := by
  have transmits : chip.setup.Transmits 0 := ⟨rfl, data⟩
  simp [write, transmits, accept, room, Setup.write, data]

theorem carried_transmits :
    carried { chip with waiting := chip.waiting ++ [byte] } =
      chip.carried ++ [chip.setup.frame byte] := by
  simp [carried, inFlight]

namespace Runs

theorem setup (ran : Runs chip chip') : chip'.setup = chip.setup := by
  cases ran <;> rfl

/-- By itself the chip accepts nothing. -/
theorem waiting_suffix (ran : Runs chip chip') : chip'.waiting <:+ chip.waiting := by
  cases ran with
  | load first => exact first ▸ List.suffix_cons _ _
  | send => exact List.suffix_rfl
  | receive => exact List.suffix_rfl

/-- What was accepted leaves on the line once and in order. -/
theorem carried (ran : Runs chip chip') (outward : chip.setup.loopback = false) :
    chip'.carried = chip.carried := by
  cases ran with
  | load first idle => simp [Chip.carried, inFlight, first, idle]
  | send busy => simp [Chip.carried, inFlight, busy, outward]
  | receive => rfl

end Runs

/-- The chip empties itself. -/
theorem drains (chip : Chip) : ∃ chip', Relation.ReflTransGen Runs chip chip' ∧
    chip'.inFlight = [] := by
  obtain ⟨setup, waiting, shifting, received, line⟩ := chip
  induction waiting generalizing shifting line with
  | nil =>
      cases shifting with
      | none => exact ⟨_, .refl, rfl⟩
      | some byte => exact ⟨_, .single (.send rfl), rfl⟩
  | cons first rest ih =>
      cases shifting with
      | none =>
          obtain ⟨chip', ran, empty⟩ := ih (some first) line
          exact ⟨chip', .head (.load rfl rfl) ran, empty⟩
      | some byte =>
          obtain ⟨chip', ran, empty⟩ := ih (some first)
            (if setup.loopback then line else line ++ [setup.frame byte])
          exact ⟨chip', .head (.send rfl) (.head (.load rfl rfl) ran), empty⟩

end Facts

end Chip

end ScrapOS.Uart16550
