import Mathlib

/-! The 8259A interrupt controller, alone and as a cascaded pair: the initialisation
sequence, the mask, request and in-service registers in fully nested mode, and what the CPU
reads when it acknowledges. The line with the lower number has the higher priority. -/

set_option autoImplicit false

namespace ScrapOS.Pic8259

abbrev Register := BitVec 8

/-! ## Lines of a register -/

def bit (line : Nat) : Register := 1 <<< line

def isSet (bits : Register) (line : Nat) : Bool := bits.getLsbD line

/-- The line of the highest priority whose bit is set. -/
def first (bits : Register) : Option Nat := (List.range 8).find? (isSet bits)

section Lines

variable {bits others : Register} {line other : Nat}

@[simp] theorem isSet_zero : isSet 0#8 line = false := BitVec.getLsbD_zero

@[simp] theorem isSet_or : isSet (bits ||| others) line = (isSet bits line || isSet others line) :=
  BitVec.getLsbD_or

theorem isSet_lt (set : isSet bits line = true) : line < 8 := by
  by_contra past
  rw [isSet, BitVec.getLsbD_of_ge _ _ (Nat.not_lt.mp past)] at set
  cases set

/-- The bits of a register that another one does not mask. -/
@[simp] theorem isSet_and_not :
    isSet (bits &&& ~~~others) line = (isSet bits line && !isSet others line) := by
  by_cases inside : line < 8
  · simp [isSet, inside]
  · simp [isSet, BitVec.getLsbD_of_ge _ _ (Nat.not_lt.mp inside)]

theorem ext_isSet (same : ∀ line < 8, isSet bits line = isSet others line) : bits = others :=
  BitVec.eq_of_getLsbD_eq same

theorem isSet_bit (small : line < 8) : isSet (bit line) other = decide (other = line) := by
  by_cases inside : other < 8
  · interval_cases line <;> interval_cases other <;> decide
  · have different : other ≠ line := fun same => inside (same ▸ small)
    rw [isSet, BitVec.getLsbD_of_ge _ _ (Nat.not_lt.mp inside)]
    simp [different]

theorem isSet_full (small : line < 8) : isSet 0xFF line = true := by
  interval_cases line <;> decide

theorem first_eq_some_iff : first bits = some line ↔
    isSet bits line = true ∧ ∀ earlier < line, isSet bits earlier = false := by
  simp only [first, List.find?_range_eq_some, List.mem_range, Bool.not_eq_true']
  exact ⟨fun ⟨set, _, least⟩ => ⟨set, least⟩, fun ⟨set, least⟩ => ⟨set, isSet_lt set, least⟩⟩

theorem first_eq_none_iff : first bits = none ↔ bits = 0 := by
  simp only [first, List.find?_eq_none, List.mem_range, Bool.not_eq_true]
  constructor
  · intro clear
    exact ext_isSet fun line small => by simp [clear line small]
  · intro zero line _
    simp [zero]

@[simp] theorem first_zero : first 0#8 = none := first_eq_none_iff.mpr rfl

theorem first_lt (found : first bits = some line) : line < 8 :=
  isSet_lt (first_eq_some_iff.mp found).1

theorem first_bit (small : line < 8) : first (bit line) = some line := by
  refine first_eq_some_iff.mpr ⟨?_, fun earlier before => ?_⟩
  · simp [isSet_bit small]
  · simp [isSet_bit small, Nat.ne_of_lt before]

end Lines

/-! ## One chip -/

/-- What a chip takes the next byte at its data port for. -/
inductive Stage where
  | vectors
  | wiring
  | mode
  | ready
deriving DecidableEq

structure Chip where
  stage : Stage
  single : Bool
  fourth : Bool
  vectorBase : Register
  wiring : Register
  mode : Register
  mask : Register
  requests : Register
  inService : Register

namespace Chip

/-- The non-specific command ends the interrupt of the highest priority in service. -/
def endOfInterrupt (chip : Chip) : Chip :=
  match first chip.inService with
  | none => chip
  | some line => { chip with inService := chip.inService &&& ~~~bit line }

/-- A byte at the command port. Bit 4 marks the first word of an initialisation; of the other
commands only the non-specific end of interrupt is modelled, and the rest change nothing. -/
def writeCommand (chip : Chip) (value : Register) : Chip :=
  if isSet value 4 then
    { chip with
      stage := .vectors
      single := isSet value 1
      fourth := isSet value 0
      mode := if isSet value 0 then chip.mode else 0
      mask := 0
      requests := 0
      inService := 0 }
  else if value &&& 0xF8 = 0x20 then chip.endOfInterrupt
  else chip

/-- A byte at the data port: the next word of an initialisation, or the mask. -/
def writeData (chip : Chip) (value : Register) : Chip :=
  match chip.stage with
  | .vectors =>
      { chip with
        vectorBase := value &&& 0xF8
        stage := if chip.single then (if chip.fourth then .mode else .ready) else .wiring }
  | .wiring => { chip with wiring := value, stage := if chip.fourth then .mode else .ready }
  | .mode => { chip with mode := value, stage := .ready }
  | .ready => { chip with mask := value }

/-- The line that the chip interrupts for: the first one that is requested and not masked, when
it comes before every line in service. -/
def offered (chip : Chip) : Option Nat :=
  (first (chip.requests &&& ~~~chip.mask)).filter fun line =>
    (first chip.inService).all fun busy => line < busy

/-- The request of a line is taken, and the line is in service unless its interrupt ends by
itself. -/
def serve (chip : Chip) (line : Nat) : Chip :=
  { chip with
    requests := chip.requests &&& ~~~bit line
    inService := if isSet chip.mode 1 then chip.inService else chip.inService ||| bit line }

def raise (chip : Chip) (line : Nat) : Chip := { chip with requests := chip.requests ||| bit line }

def withdraw (chip : Chip) (line : Nat) : Chip :=
  { chip with requests := chip.requests &&& ~~~bit line }

/-- Some requests go away at once. -/
def drop (chip : Chip) (dropped : Register) : Chip :=
  { chip with requests := chip.requests &&& ~~~dropped }

/-- Fully initialised: vectors from `base` on, `wiring` for the cascade, and no automatic end
of interrupt. -/
structure Configured (base wiring : Register) (chip : Chip) : Prop where
  ready : chip.stage = .ready
  vectorBase : chip.vectorBase = base
  wired : chip.wiring = wiring
  mode : chip.mode = 1

section Facts

variable {chip : Chip} {base wiring : Register} {line : Nat}

/-- The four words set a chip up whatever it was doing before. -/
theorem initialised (chip : Chip) (base wiring : Register) :
    (((chip.writeCommand 0x11).writeData base).writeData wiring).writeData 1 =
      { stage := .ready, single := false, fourth := true, vectorBase := base &&& 0xF8,
        wiring := wiring, mode := 1, mask := 0, requests := 0, inService := 0 } := rfl

theorem writeData_ready (ready : chip.stage = .ready) (value : Register) :
    chip.writeData value = { chip with mask := value } := by
  simp [writeData, ready]

theorem drop_zero (chip : Chip) : chip.drop 0 = chip := by
  have same : chip.requests &&& ~~~0#8 = chip.requests := by
    rw [BitVec.not_zero, BitVec.and_allOnes]
  exact congrArg (fun requests => { chip with requests }) same

theorem endOfInterrupt_asking (chip : Chip) (requests : Register) :
    { chip with requests }.endOfInterrupt = { chip.endOfInterrupt with requests } := by
  unfold endOfInterrupt
  dsimp only
  split <;> rfl

theorem endOfInterrupt_quiet (quiet : chip.inService = 0) : chip.endOfInterrupt = chip := by
  rw [endOfInterrupt, quiet, first_eq_none_iff.mpr rfl]

theorem endOfInterrupt_single (small : line < 8) (single : chip.inService = bit line) :
    chip.endOfInterrupt = { chip with inService := 0 } := by
  have cleared : bit line &&& ~~~bit line = 0 := BitVec.and_not_self _
  rw [endOfInterrupt, single, first_bit small]
  dsimp only
  rw [cleared]

theorem offered_lt (offered : chip.offered = some line) : line < 8 := by
  rw [Chip.offered, Option.filter_eq_some_iff] at offered
  exact first_lt offered.1

theorem offered_quiet (quiet : chip.inService = 0) :
    chip.offered = first (chip.requests &&& ~~~chip.mask) := by
  cases found : first (chip.requests &&& ~~~chip.mask) <;> simp [offered, quiet, found]

/-- In a quiet chip the first line that is requested and not masked is the one it offers. -/
theorem offered_eq_some_iff (quiet : chip.inService = 0) : chip.offered = some line ↔
    isSet chip.requests line = true ∧ isSet chip.mask line = false ∧
      ∀ earlier < line, isSet chip.requests earlier = true → isSet chip.mask earlier = true := by
  rw [offered_quiet quiet, first_eq_some_iff]
  simp only [isSet_and_not, Bool.and_eq_true, Bool.not_eq_true', Bool.and_eq_false_imp,
    Bool.not_eq_false', and_assoc]

theorem offered_le (quiet : chip.inService = 0) (requested : isSet chip.requests line = true)
    (unmasked : isSet chip.mask line = false) : ∃ own ≤ line, chip.offered = some own := by
  cases offered : chip.offered with
  | none =>
      rw [offered_quiet quiet, first_eq_none_iff] at offered
      have waiting : isSet (chip.requests &&& ~~~chip.mask) line = true := by
        simp [requested, unmasked]
      simp [offered] at waiting
  | some own =>
      obtain ⟨-, -, least⟩ := (offered_eq_some_iff quiet).mp offered
      refine ⟨own, ?_, rfl⟩
      by_contra past
      simp [least line (Nat.not_le.mp past) requested] at unmasked

/-- One line in service is what one end of interrupt ends. -/
theorem serve_ends (configured : Configured base wiring chip) (quiet : chip.inService = 0)
    (small : line < 8) : (chip.serve line).endOfInterrupt = chip.withdraw line := by
  have manual : isSet chip.mode 1 = false := by
    rw [configured.mode]
    decide
  have single : (chip.serve line).inService = bit line := by simp [serve, manual, quiet]
  rw [endOfInterrupt_single small single, serve, withdraw, quiet]

end Facts

end Chip

/-! ## A cascaded pair -/

structure Pair where
  master : Chip
  slave : Chip

namespace Pair

/-- The line of the master that the output of the slave is connected to. -/
def cascade : Nat := 2

/-- The master as it sees its lines: the cascade line follows the output of the slave. -/
def seen (pair : Pair) : Chip :=
  if pair.slave.offered.isSome then pair.master.raise cascade else pair.master.withdraw cascade

def offered (pair : Pair) : Option Nat := pair.seen.offered

/-- The CPU acknowledges and reads a vector. The requests in `dropped` go away between its two
pulses. A chip that finds no request answers for line 7 and serves nothing; where the wiring
word names no slave for a line, nobody drives the bus. -/
def acknowledge (pair : Pair) (dropped : Register) : Register × Pair :=
  match pair.offered with
  | none => (pair.master.vectorBase ||| 7, pair)
  | some line =>
      let master := pair.master.serve line
      if isSet master.wiring line then
        let slave := pair.slave.drop dropped
        if slave.wiring &&& 7 = BitVec.ofNat 8 line then
          match slave.offered with
          | none => (slave.vectorBase ||| 7, { master, slave })
          | some own => (slave.vectorBase ||| BitVec.ofNat 8 own, { master, slave := slave.serve own })
        else (0xFF, { master, slave })
      else (master.vectorBase ||| BitVec.ofNat 8 line, { pair with master })

/-- Lines 0 to 7 are those of the master, 8 to 15 those of the slave. -/
def raise (pair : Pair) (line : Nat) : Pair :=
  if line < 8 then { pair with master := pair.master.raise line }
  else { pair with slave := pair.slave.raise (line - 8) }

def withdraw (pair : Pair) (line : Nat) : Pair :=
  if line < 8 then { pair with master := pair.master.withdraw line }
  else { pair with slave := pair.slave.withdraw (line - 8) }

/-- No line is in service. -/
structure Quiet (pair : Pair) : Prop where
  master : pair.master.inService = 0
  slave : pair.slave.inService = 0

/-- The pair of a PC, with the vectors of the master from `low` on and those of the slave from
`high` on. -/
structure Cascaded (low high : Register) (pair : Pair) : Prop where
  master : pair.master.Configured low (bit cascade)
  slave : pair.slave.Configured high (BitVec.ofNat 8 cascade)

def requested (pair : Pair) (line : Nat) : Bool :=
  if line < 8 then isSet pair.master.requests line else isSet pair.slave.requests (line - 8)

def masked (pair : Pair) (line : Nat) : Bool :=
  if line < 8 then isSet pair.master.mask line else isSet pair.slave.mask (line - 8)

/-- A device requests the line and nothing masks it: a line of the slave reaches the CPU
through the cascade line. -/
def Deliverable (pair : Pair) (line : Nat) : Prop :=
  pair.requested line = true ∧ pair.masked line = false ∧
    (line < 8 → line ≠ cascade) ∧ (8 ≤ line → pair.masked cascade = false)

/-- The lines of the slave rank where the cascade line does. -/
def rank (line : Nat) : Nat := if line < 8 then 8 * line else 8 * cascade + (line - 8)

/-- The pairs differ in what is requested and in nothing else. -/
def SameSetup (pair pair' : Pair) : Prop :=
  ∃ requests requests', pair' =
    { master := { pair.master with requests := requests }
      slave := { pair.slave with requests := requests' } }

/-- The vector of a line. -/
def vectorOf (low high : Register) (line : Nat) : Register :=
  if line < 8 then low ||| BitVec.ofNat 8 line else high ||| BitVec.ofNat 8 (line - 8)

/-- The end of an interrupt on a line: that of the slave too when it is one of its lines. -/
def ended (pair : Pair) (line : Nat) : Pair :=
  { master := pair.master.endOfInterrupt
    slave := if 8 ≤ line then pair.slave.endOfInterrupt else pair.slave }

/-- An interrupt was taken on a line and has ended: either the line was offered and its request
is spent, or a chip found no request and answered for its last line. -/
inductive Taken (pair : Pair) (dropped : Register) : Nat → Pair → Prop where
  | master {line : Nat} : pair.offered = some line → line ≠ cascade →
      Taken pair dropped line { pair with master := pair.master.withdraw line }
  | slave {own : Nat} : pair.offered = some cascade → (pair.slave.drop dropped).offered = some own →
      Taken pair dropped (own + 8)
        { master := pair.master.withdraw cascade, slave := (pair.slave.drop dropped).withdraw own }
  | spurious : pair.offered = none → Taken pair dropped 7 pair
  | spuriousSlave : pair.offered = some cascade → (pair.slave.drop dropped).offered = none →
      Taken pair dropped 15
        { master := pair.master.withdraw cascade, slave := pair.slave.drop dropped }

section Facts

variable {pair pair' : Pair} {low high dropped : Register} {line : Nat}

theorem Quiet.seen (quiet : pair.Quiet) : pair.seen.inService = 0 := by
  unfold Pair.seen
  split <;> exact quiet.master

theorem offered_lt (offered : pair.offered = some line) : line < 8 := Chip.offered_lt offered

theorem Cascaded.wired (cascaded : pair.Cascaded low high) (line : Nat) :
    isSet (pair.master.serve line).wiring line = decide (line = cascade) := by
  change isSet pair.master.wiring line = _
  rw [cascaded.master.wired, isSet_bit (by decide)]

theorem acknowledge_master (cascaded : pair.Cascaded low high) (offered : pair.offered = some line)
    (own : line ≠ cascade) : pair.acknowledge dropped =
      (low ||| BitVec.ofNat 8 line, { pair with master := pair.master.serve line }) := by
  simp only [acknowledge, offered, cascaded.wired, own, decide_false, Bool.false_eq_true, if_false]
  simp only [Chip.serve, cascaded.master.vectorBase]

theorem acknowledge_cascade (cascaded : pair.Cascaded low high)
    (offered : pair.offered = some cascade) : pair.acknowledge dropped =
      match (pair.slave.drop dropped).offered with
      | none => (high ||| 7,
          { master := pair.master.serve cascade, slave := pair.slave.drop dropped })
      | some own => (high ||| BitVec.ofNat 8 own,
          { master := pair.master.serve cascade, slave := (pair.slave.drop dropped).serve own }) := by
  have named : (pair.slave.drop dropped).wiring &&& 7 = BitVec.ofNat 8 cascade := by
    change pair.slave.wiring &&& 7 = _
    rw [cascaded.slave.wired]
    decide
  have base : (pair.slave.drop dropped).vectorBase = high := cascaded.slave.vectorBase
  simp only [acknowledge, offered, cascaded.wired, decide_true, if_true, named, base]

/-- The end of interrupt for the line of the vector ends what the acknowledgement began. -/
theorem acknowledge_taken (cascaded : pair.Cascaded low high) (quiet : pair.Quiet)
    (dropped : Register) :
    ∃ line < 16, (pair.acknowledge dropped).1 = vectorOf low high line ∧
      Taken pair dropped line ((pair.acknowledge dropped).2.ended line) := by
  cases offered : pair.offered with
  | none =>
      have same : pair.ended 7 = pair := by
        simp [ended, Chip.endOfInterrupt_quiet quiet.master]
      simp only [acknowledge, offered, cascaded.master.vectorBase]
      exact ⟨7, by decide, rfl, by simpa only [same] using Taken.spurious offered⟩
  | some line =>
      have small := offered_lt offered
      have served := Chip.serve_ends cascaded.master quiet.master small
      by_cases through : line = cascade
      · subst through
        have slaveQuiet : (pair.slave.drop dropped).inService = 0 := quiet.slave
        have configured : (pair.slave.drop dropped).Configured high (BitVec.ofNat 8 cascade) :=
          ⟨cascaded.slave.ready, cascaded.slave.vectorBase, cascaded.slave.wired, cascaded.slave.mode⟩
        rw [acknowledge_cascade cascaded offered]
        cases own : (pair.slave.drop dropped).offered with
        | none =>
            refine ⟨15, by decide, rfl, ?_⟩
            simpa [ended, served, Chip.endOfInterrupt_quiet slaveQuiet] using
              Taken.spuriousSlave offered own
        | some own' =>
            have inside := Chip.offered_lt own
            have slaveServed := Chip.serve_ends configured slaveQuiet inside
            refine ⟨own' + 8, by omega, by simp [vectorOf], ?_⟩
            simpa [ended, served, slaveServed] using Taken.slave offered own
      · rw [acknowledge_master cascaded offered through]
        have notSlave : ¬ 8 ≤ line := Nat.not_le.mpr small
        refine ⟨line, by omega, by simp [vectorOf, small], ?_⟩
        simpa [ended, served, notSlave] using @Taken.master pair dropped line offered through

theorem seen_requests {other : Nat} : isSet pair.seen.requests other =
    if other = cascade then pair.slave.offered.isSome else isSet pair.master.requests other := by
  have through : isSet (bit cascade) other = decide (other = cascade) := isSet_bit (by decide)
  unfold seen
  cases pair.slave.offered <;> simp only [Option.isSome_none, Option.isSome_some, if_true,
    Bool.false_eq_true, if_false, Chip.raise, Chip.withdraw, isSet_or, isSet_and_not, through]
  all_goals by_cases own : other = cascade <;> simp [own]

theorem seen_mask : pair.seen.mask = pair.master.mask := by
  unfold seen
  split <;> rfl

/-! ### What stays -/

namespace SameSetup

variable (same : pair.SameSetup pair')
include same

theorem quiet (quiet : pair.Quiet) : pair'.Quiet := by
  obtain ⟨requests, requests', rfl⟩ := same
  exact ⟨quiet.master, quiet.slave⟩

theorem cascaded (cascaded : pair.Cascaded low high) : pair'.Cascaded low high := by
  obtain ⟨requests, requests', rfl⟩ := same
  obtain ⟨⟨ready, base, wired, mode⟩, ⟨ready', base', wired', mode'⟩⟩ := cascaded
  exact ⟨⟨ready, base, wired, mode⟩, ⟨ready', base', wired', mode'⟩⟩

theorem masked : pair'.masked = pair.masked := by
  obtain ⟨requests, requests', rfl⟩ := same
  rfl

theorem trans {pair'' : Pair} (next : pair'.SameSetup pair'') : pair.SameSetup pair'' := by
  obtain ⟨requests, requests', rfl⟩ := same
  exact next

end SameSetup

theorem raise_same (pair : Pair) (line : Nat) : pair.SameSetup (pair.raise line) := by
  unfold Pair.raise
  split
  · exact ⟨pair.master.requests ||| bit line, pair.slave.requests, rfl⟩
  · exact ⟨pair.master.requests, pair.slave.requests ||| bit (line - 8), rfl⟩

theorem withdraw_same (pair : Pair) (line : Nat) : pair.SameSetup (pair.withdraw line) := by
  unfold Pair.withdraw
  split
  · exact ⟨pair.master.requests &&& ~~~bit line, pair.slave.requests, rfl⟩
  · exact ⟨pair.master.requests, pair.slave.requests &&& ~~~bit (line - 8), rfl⟩

theorem Taken.same (taken : Taken pair dropped line pair') : pair.SameSetup pair' := by
  cases taken <;> exact ⟨_, _, rfl⟩

theorem ended_same (same : pair.SameSetup pair') (line : Nat) :
    (pair.ended line).SameSetup (pair'.ended line) := by
  obtain ⟨requests, requests', rfl⟩ := same
  refine ⟨requests, requests', ?_⟩
  simp only [Pair.ended, Chip.endOfInterrupt_asking]
  split <;> rfl

/-! ### What is requested -/

@[simp] theorem requested_ended (line : Nat) : (pair.ended line).requested = pair.requested := by
  have kept : ∀ chip : Chip, chip.endOfInterrupt.requests = chip.requests := fun chip => by
    unfold Chip.endOfInterrupt
    split <;> rfl
  unfold Pair.requested Pair.ended
  dsimp only
  split <;> simp only [kept]

theorem requested_raise (inside : line < 16) (other : Nat) :
    (pair.raise line).requested other = (pair.requested other || decide (other = line)) := by
  cases Nat.lt_or_ge line 8 with
  | inl small =>
      by_cases own : other < 8
      · simp [Pair.raise, requested, Chip.raise, small, own, isSet_bit small]
      · have apart : other ≠ line := by omega
        simp [Pair.raise, requested, small, own, apart]
  | inr large =>
      have notMaster : ¬ line < 8 := Nat.not_lt.mpr large
      by_cases own : other < 8
      · have apart : other ≠ line := by omega
        simp [Pair.raise, requested, notMaster, own, apart]
      · have shifted : other - 8 = line - 8 ↔ other = line := by omega
        have low : line - 8 < 8 := by omega
        simp [Pair.raise, requested, Chip.raise, notMaster, own, isSet_bit low, shifted]

theorem requested_withdraw (inside : line < 16) (other : Nat) :
    (pair.withdraw line).requested other = (pair.requested other && decide (other ≠ line)) := by
  cases Nat.lt_or_ge line 8 with
  | inl small =>
      by_cases own : other < 8
      · simp [Pair.withdraw, requested, Chip.withdraw, small, own, isSet_bit small]
      · have apart : other ≠ line := by omega
        simp [Pair.withdraw, requested, small, own, apart]
  | inr large =>
      have notMaster : ¬ line < 8 := Nat.not_lt.mpr large
      by_cases own : other < 8
      · have apart : other ≠ line := by omega
        simp [Pair.withdraw, requested, notMaster, own, apart]
      · have shifted : other - 8 = line - 8 ↔ other = line := by omega
        have low : line - 8 < 8 := by omega
        simp [Pair.withdraw, requested, Chip.withdraw, notMaster, own, isSet_bit low, shifted]

/-- Of the lines of the master, the one that is taken loses its request, except that a spurious
interrupt has none to lose. -/
theorem Taken.requested (taken : Taken pair dropped line pair') {other : Nat} (small : other < 8)
    (own : other ≠ cascade) (real : other = line → line ≠ 7) :
    pair'.requested other = (pair.requested other && decide (other ≠ line)) := by
  unfold Pair.requested
  cases taken with
  | @master line offered through =>
      simp [small, Chip.withdraw, isSet_bit (offered_lt offered)]
  | @slave line offered ownOffered =>
      have through : isSet (bit cascade) other = decide (other = cascade) := isSet_bit (by decide)
      have apart : other ≠ line + 8 := by omega
      simp [small, Chip.withdraw, through, own, apart]
  | spurious offered =>
      have apart : other ≠ 7 := fun same => real same rfl
      simp [small, apart]
  | spuriousSlave offered ownOffered =>
      have through : isSet (bit cascade) other = decide (other = cascade) := isSet_bit (by decide)
      have apart : other ≠ 15 := by omega
      simp [small, Chip.withdraw, through, own, apart]

theorem deliverable_master (quiet : pair.Quiet) (offered : pair.offered = some line)
    (own : line ≠ cascade) : pair.Deliverable line := by
  have small := offered_lt offered
  obtain ⟨requested, unmasked, -⟩ := (Chip.offered_eq_some_iff quiet.seen).mp offered
  refine ⟨?_, ?_, fun _ => own, fun large => by omega⟩
  · simpa [Pair.requested, small, seen_requests, own] using requested
  · simpa [Pair.masked, small, seen_mask] using unmasked

theorem deliverable_slave {own : Nat} (quiet : pair.Quiet) (offered : pair.offered = some cascade)
    (ownOffered : (pair.slave.drop dropped).offered = some own) : pair.Deliverable (own + 8) := by
  have slaveQuiet : (pair.slave.drop dropped).inService = 0 := quiet.slave
  obtain ⟨requested, unmasked, -⟩ := (Chip.offered_eq_some_iff slaveQuiet).mp ownOffered
  obtain ⟨-, openCascade, -⟩ := (Chip.offered_eq_some_iff quiet.seen).mp offered
  have standing : isSet pair.slave.requests own = true ∧ isSet dropped own = false := by
    simpa [Chip.drop] using requested
  have openOwn : isSet pair.slave.mask own = false := unmasked
  refine ⟨?_, ?_, fun small => by omega, fun _ => ?_⟩
  · simpa [Pair.requested] using standing.1
  · simpa [Pair.masked] using openOwn
  · simpa [Pair.masked, seen_mask, cascade] using openCascade

/-- A line other than the last ones of the chips is taken only when it is deliverable. -/
theorem Taken.deliverable (taken : Taken pair dropped line pair') (quiet : pair.Quiet)
    (real : line ≠ 7) (real' : line ≠ 15) : pair.Deliverable line := by
  cases taken with
  | master offered own => exact deliverable_master quiet offered own
  | slave offered ownOffered => exact deliverable_slave quiet offered ownOffered
  | spurious offered => exact absurd rfl real
  | spuriousSlave offered ownOffered => exact absurd rfl real'

/-! ### Which line is taken -/

theorem Deliverable.master (deliverable : pair.Deliverable line) (small : line < 8) :
    isSet pair.seen.requests line = true ∧ isSet pair.master.mask line = false := by
  obtain ⟨requested, unmasked, own, -⟩ := deliverable
  simp only [Pair.requested, small, if_true] at requested
  simp only [Pair.masked, small, if_true] at unmasked
  exact ⟨by simp [seen_requests, own small, requested], unmasked⟩

theorem Deliverable.slave (deliverable : pair.Deliverable line) (large : 8 ≤ line) :
    isSet pair.slave.requests (line - 8) = true ∧ isSet pair.slave.mask (line - 8) = false ∧
      isSet pair.master.mask cascade = false := by
  obtain ⟨requested, unmasked, -, through⟩ := deliverable
  have notMaster : ¬ line < 8 := Nat.not_lt.mpr large
  simp only [Pair.requested, notMaster, if_false] at requested
  simp only [Pair.masked, notMaster, if_false] at unmasked
  exact ⟨requested, unmasked, through large⟩

/-- A deliverable line of the slave raises the cascade line. -/
theorem Deliverable.through (deliverable : pair.Deliverable line) (quiet : pair.Quiet)
    (large : 8 ≤ line) : isSet pair.seen.requests cascade = true := by
  obtain ⟨requested, unmasked, -⟩ := deliverable.slave large
  obtain ⟨own, -, offered⟩ := Chip.offered_le quiet.slave requested unmasked
  simp [seen_requests, offered]

/-- No deliverable line comes before the one that is offered. -/
theorem offered_first (quiet : pair.Quiet) (offered : pair.offered = some line) {other : Nat}
    (deliverable : pair.Deliverable other) :
    if other < 8 then line ≤ other else line ≤ cascade := by
  obtain ⟨-, -, least⟩ := (Chip.offered_eq_some_iff quiet.seen).mp offered
  simp only [seen_mask] at least
  split
  · next small =>
    obtain ⟨requested, unmasked⟩ := deliverable.master small
    by_contra past
    simp [least other (Nat.not_le.mp past) requested] at unmasked
  · next large =>
    obtain ⟨-, -, openCascade⟩ := deliverable.slave (Nat.not_lt.mp large)
    by_contra past
    simp [least cascade (Nat.not_le.mp past) (deliverable.through quiet (Nat.not_lt.mp large))]
      at openCascade

theorem offered_none (quiet : pair.Quiet) (offered : pair.offered = none) (other : Nat) :
    ¬ pair.Deliverable other := by
  intro deliverable
  have nothing : ∀ line, isSet pair.seen.requests line = true →
      isSet pair.master.mask line = true := by
    intro line waiting
    by_contra openLine
    obtain ⟨found, -, offered'⟩ := Chip.offered_le quiet.seen waiting
      (by simpa [seen_mask] using openLine)
    exact Option.some_ne_none found (offered'.symm.trans offered)
  cases Nat.lt_or_ge other 8 with
  | inl small =>
      obtain ⟨requested, unmasked⟩ := deliverable.master small
      simp [nothing other requested] at unmasked
  | inr large =>
      obtain ⟨-, -, openCascade⟩ := deliverable.slave large
      simp [nothing cascade (deliverable.through quiet large)] at openCascade

theorem rank_master (small : line < 8) : rank line = 8 * line := if_pos small

theorem rank_slave (line : Nat) : rank (line + 8) = 16 + line := by simp [rank, cascade]

/-- When no request goes away, the line that is taken is the deliverable one of the highest
priority, and it is a spurious one only when no line is deliverable. -/
theorem Taken.first (quiet : pair.Quiet) (taken : Taken pair 0 line pair') :
    (pair.Deliverable line ∧ ∀ other < 16, pair.Deliverable other → rank line ≤ rank other) ∨
      (line = 7 ∧ pair' = pair ∧ ∀ other, ¬ pair.Deliverable other) := by
  have undropped : pair.slave.drop 0 = pair.slave := Chip.drop_zero _
  cases taken with
  | master offered own =>
      have small := offered_lt offered
      refine .inl ⟨deliverable_master quiet offered own, fun other inside deliverable => ?_⟩
      have before := offered_first quiet offered deliverable
      rw [rank_master small]
      unfold rank
      unfold cascade at before own ⊢
      split
      · next small' =>
        simp only [small', if_true] at before
        omega
      · next large =>
        simp only [large, if_false] at before
        omega
  | @slave own offered ownOffered =>
      refine .inl ⟨deliverable_slave quiet offered ownOffered, fun other inside deliverable => ?_⟩
      rw [undropped] at ownOffered
      obtain ⟨-, -, least⟩ := (Chip.offered_eq_some_iff quiet.slave).mp ownOffered
      have before := offered_first quiet offered deliverable
      have ownSmall := Chip.offered_lt ownOffered
      rw [rank_slave]
      cases Nat.lt_or_ge other 8 with
      | inl small =>
          have notCascade := deliverable.2.2.1 small
          simp only [small, if_true, cascade] at before notCascade
          rw [rank_master small]
          omega
      | inr large =>
          obtain ⟨asked, unmasked, -⟩ := deliverable.slave large
          have ordered : own ≤ other - 8 := by
            by_contra past
            simp [least _ (Nat.not_le.mp past) asked] at unmasked
          obtain ⟨low, rfl⟩ := Nat.exists_eq_add_of_le' large
          rw [rank_slave]
          omega
  | spurious offered => exact .inr ⟨rfl, rfl, offered_none quiet offered⟩
  | spuriousSlave offered ownOffered =>
      obtain ⟨requested, -, -⟩ := (Chip.offered_eq_some_iff quiet.seen).mp offered
      rw [undropped] at ownOffered
      simp [seen_requests, ownOffered] at requested

end Facts

end Pair

end ScrapOS.Pic8259
