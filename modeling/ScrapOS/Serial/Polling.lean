import ScrapOS.Serial.Text
import ScrapOS.Uart16550.Basic

/-! `serial_init` and the polling of `serial_putc`, with the UART running beside them. The
handler of an interrupt prints too, and it can come between the poll of the interrupted kernel
and the byte that the poll is for. Every byte still leaves on the line once, in the order of
the writes. -/

set_option autoImplicit false

namespace ScrapOS.Serial

open Uart16550

abbrev Port := BitVec 16

def com1 : Port := 0x3F8

def outb (chip : Chip) (port : Port) (value : Byte) : Chip :=
  if port - com1 < 8 then chip.write (port - com1).toNat value else chip

/-- The only port that the driver reads is the line status register. -/
def inbStatus (chip : Chip) : Byte × Chip := chip.readStatus

/-- The writes of `serial_init`. -/
def serialInit : List (Port × Byte) :=
  [(com1 + 1, 0x00), (com1 + 3, 0x80), (com1 + 0, 0x01), (com1 + 1, 0x00), (com1 + 3, 0x03),
    (com1 + 2, 0xC7), (com1 + 4, 0x0B)]

/-! ## Who prints -/

inductive Sender where
  | kernel | handler
deriving DecidableEq

/-- The bytes that the calls of a sender stand for, what is to come of the call that is going
on, and whether its loop saw the bit it waits for. -/
structure Caller where
  asked : Output
  pending : List Byte
  ready : Bool

inductive Request where
  | putc (c : Byte)
  | write (s : List Byte)

/-- What a request adds to an output. -/
def Request.run : Request → Output → Output
  | .putc c, out => serialPutc out c
  | .write s, out => serialWrite out s

/-- A state of a run: the chip, the rest of `serial_init`, the callers, the one that has the
CPU, and the writes to the transmitter so far. -/
structure Config where
  chip : Chip
  ahead : List (Port × Byte)
  callers : Sender → Caller
  running : Sender
  written : List (Sender × Byte)

namespace Config

def caller (c : Config) : Caller := c.callers c.running

/-- The caller that has the CPU goes on. -/
def goesOn (c : Config) (caller : Caller) : Config :=
  { c with callers := Function.update c.callers c.running caller }

end Config

inductive Step : Config → Config → Prop where
  | chip {c : Config} {chip' : Chip} : Chip.Runs c.chip chip' → Step c { c with chip := chip' }
  | serialInit {c : Config} {port : Port} {value : Byte} {rest : List (Port × Byte)} :
      c.ahead = (port, value) :: rest →
      Step c { c with chip := outb c.chip port value, ahead := rest }
  | call {c : Config} (request : Request) : c.ahead = [] → c.caller.pending = [] →
      Step c
        (c.goesOn
          { asked := request.run c.caller.asked, pending := request.run [], ready := false })
  /-- A turn of the loop of `serial_putc`. -/
  | poll {c : Config} : c.caller.pending ≠ [] → c.caller.ready = false →
      Step c
        { c.goesOn { c.caller with ready := decide ((inbStatus c.chip).1 &&& 0x20 ≠ 0) } with
          chip := (inbStatus c.chip).2 }
  | put {c : Config} {b : Byte} {rest : List Byte} : c.caller.pending = b :: rest →
      c.caller.ready = true →
      Step c
        { c.goesOn { c.caller with pending := rest, ready := false } with
          chip := outb c.chip com1 b
          written := c.written ++ [(c.running, b)] }
  /-- A handler is not interrupted. -/
  | interrupt {c : Config} : c.ahead = [] → c.running = .kernel →
      Step c { c with running := .handler }
  | iretq {c : Config} : c.running = .handler → c.caller.pending = [] →
      Step c { c with running := .kernel }

abbrev Run : Config → Config → Prop := Relation.ReflTransGen Step

/-- Before `serial_init`, whatever the firmware did to the chip. -/
def start (chip : Chip) : Config where
  chip := chip
  ahead := serialInit
  callers := fun _ => { asked := [], pending := [], ready := false }
  running := .kernel
  written := []

def sentBy (sender : Sender) (written : List (Sender × Byte)) : List Byte :=
  (written.filter fun put => put.1 = sender).map Prod.snd

/-- 115200 baud, 8 data bits, no parity, 1 stop bit. -/
def onLine (put : Sender × Byte) : Frame where
  divisor := 1
  format := 0x03
  byte := put.2

/-! ## The setup -/

/-- What `serial_init` makes of the chip. -/
def configured (interrupts : Byte) : Setup where
  interrupts := interrupts
  format := 0x03
  divisor := 1
  fifos := true
  modem := 0x0B

def setupAfter (ahead : List (Port × Byte)) (setup : Setup) : Setup :=
  ahead.foldl (fun setup write => setup.write (write.1 - com1).toNat write.2) setup

/-- The first write is for the interrupt enables, but it goes to the divisor when the firmware
left the latch open. -/
theorem serialInit_configures (setup : Setup) :
    setupAfter serialInit setup = configured (if setup.latch then setup.interrupts else 0x00) := by
  have divisor (old : Byte) : 0#8 ++ (old ++ 1#8).extractLsb' 0 8 = 1#16 := by
    rw [BitVec.extractLsb'_append_eq_right]
    rfl
  cases latch : setup.format[7] <;>
    simp [setupAfter, serialInit, Setup.write, configured, com1, latch, Setup.latch, divisor]

@[simp] theorem configured_latch (interrupts : Byte) : (configured interrupts).latch = false := by
  simp [configured, Setup.latch]

@[simp] theorem configured_loopback (interrupts : Byte) :
    (configured interrupts).loopback = false := by
  simp [configured, Setup.loopback]

@[simp] theorem configured_capacity (interrupts : Byte) : (configured interrupts).capacity = 16 := rfl

/-- The write that empties the FIFO. -/
def clearing : Port × Byte := (com1 + 2, 0xC7)

/-- Only one write comes after the FIFO was emptied, and it is for the modem control. -/
theorem clearing_cases {write : Port × Byte} {rest : List (Port × Byte)}
    (suffix : write :: rest <:+ serialInit) : write.1 - com1 < 8 ∧
      (clearing ∈ rest ∨ write = clearing ∨ (clearing ∉ write :: rest ∧ write.1 = com1 + 4)) := by
  have member := (List.mem_tails _ _).mpr suffix
  simp only [serialInit, List.tails, List.mem_cons, List.cons.injEq, List.not_mem_nil, or_false,
    reduceCtorEq] at member
  rcases member with ⟨rfl, rfl⟩ | ⟨rfl, rfl⟩ | ⟨rfl, rfl⟩ | ⟨rfl, rfl⟩ | ⟨rfl, rfl⟩ | ⟨rfl, rfl⟩ |
    ⟨rfl, rfl⟩ <;> decide

/-! ## Bookkeeping -/

section Bookkeeping

variable {c : Config} {caller : Caller} {sender : Sender} {written : List (Sender × Byte)} {b : Byte}

@[simp] theorem goesOn_callers : (c.goesOn caller).callers sender =
    if sender = c.running then caller else c.callers sender := by
  simp [Config.goesOn, Function.update_apply]

@[simp] theorem sentBy_put : sentBy sender (written ++ [(c.running, b)]) =
    sentBy sender written ++ if sender = c.running then [b] else [] := by
  by_cases same : sender = c.running
  · simp [sentBy, same]
  · have other : ¬ c.running = sender := fun eq => same eq.symm
    simp [sentBy, same, other]

theorem Request.run_eq (request : Request) (out : Output) :
    request.run out = out ++ request.run [] := by
  cases request with
  | putc c => rfl
  | write s => simp only [Request.run, serialWrite_eq, List.nil_append]

end Bookkeeping

/-! ## The invariant -/

/-- How many bytes can wait when a caller saw an empty FIFO: the handler can have put one since
the kernel looked. -/
def slack : Sender → Nat
  | .kernel => 1
  | .handler => 0

structure Valid (interrupts : Byte) (c : Config) : Prop where
  suffix : c.ahead <:+ serialInit
  setup : setupAfter c.ahead c.chip.setup = configured interrupts
  asked : ∀ sender,
    sentBy sender c.written ++ (c.callers sender).pending = (c.callers sender).asked
  busy : ∀ sender, (c.callers sender).ready = true → (c.callers sender).pending ≠ []
  early : c.ahead ≠ [] → c.written = [] ∧ ∀ sender, (c.callers sender).pending = []
  idle : c.running = .kernel → (c.callers .handler).pending = []
  fresh : clearing ∉ c.ahead → c.chip.waiting.length ≤ c.written.length
  bounded : clearing ∉ c.ahead → c.chip.waiting.length ≤ 2
  room : ∀ sender, (c.callers sender).ready = true → c.chip.waiting.length ≤ slack sender

section Valid

variable {interrupts : Byte} {c c' : Config}

theorem start_valid (chip : Chip) :
    Valid (if chip.setup.latch then chip.setup.interrupts else 0x00) (start chip) where
  suffix := List.suffix_rfl
  setup := serialInit_configures chip.setup
  asked := fun _ => rfl
  busy := fun _ ready => absurd ready (by simp [start])
  early := fun _ => ⟨rfl, fun _ => rfl⟩
  idle := fun _ => rfl
  fresh := fun cleared => absurd (by simp [start, serialInit, clearing]) cleared
  bounded := fun cleared => absurd (by simp [start, serialInit, clearing]) cleared
  room := fun _ ready => absurd ready (by simp [start])

theorem Valid.calm (valid : Valid interrupts c) (more : c.caller.pending ≠ []) : c.ahead = [] := by
  by_contra early
  exact more ((valid.early early).2 c.running)

theorem Valid.configured (valid : Valid interrupts c) (initialised : c.ahead = []) :
    c.chip.setup = configured interrupts := by
  have setup := valid.setup
  rwa [initialised] at setup

theorem Valid.slack_le (valid : Valid interrupts c) (sender : Sender) (other : sender ≠ c.running) (alsoReady : (c.callers sender).ready = true) :
    slack c.running + 1 ≤ slack sender := by
  have pending := valid.busy sender alsoReady
  cases sender with
  | handler =>
      cases running : c.running with
      | handler => exact absurd running.symm other
      | kernel => exact absurd (valid.idle running) pending
  | kernel =>
      cases running : c.running with
      | handler => exact Nat.le_refl _
      | kernel => exact absurd running.symm other

/-- With the FIFOs on there is room for what is put. -/
theorem Valid.put (valid : Valid interrupts c) (initialised : c.ahead = [])
    (ready : c.caller.ready = true) (b : Byte) :
    outb c.chip com1 b = { c.chip with waiting := c.chip.waiting ++ [b] } := by
  have setup := valid.configured initialised
  have few := valid.room c.running ready
  have small : slack c.running ≤ 1 := by cases c.running <;> decide
  have capacity : c.chip.setup.capacity = 16 := by simp [setup]
  have data : c.chip.setup.latch = false := by simp [setup]
  have transmitted : c.chip.write 0 b = _ := Chip.write_transmits (by omega) data
  simpa [outb] using transmitted

/-- A write of `serial_init`. The FIFO is empty once nothing is left that empties it. -/
theorem Valid.init (valid : Valid interrupts c) {write : Port × Byte} {rest : List (Port × Byte)}
    (ahead : c.ahead = write :: rest) :
    (outb c.chip write.1 write.2).setup = c.chip.setup.write (write.1 - com1).toNat write.2 ∧
      (clearing ∉ rest → (outb c.chip write.1 write.2).waiting = []) := by
  have suffix := valid.suffix
  rw [ahead] at suffix
  obtain ⟨inside, last⟩ := clearing_cases suffix
  simp only [outb, inside, if_true]
  refine ⟨rfl, fun cleared => ?_⟩
  rcases last with later | now | ⟨before, modem⟩
  · exact absurd later cleared
  · subst now
    simp [Chip.write, clearing, com1, Setup.Transmits, Setup.Clears]
  · have empty : c.chip.waiting = [] := by
      have few := valid.fresh (ahead ▸ before)
      rw [(valid.early (by simp [ahead])).1] at few
      exact List.eq_nil_of_length_eq_zero (Nat.le_zero.mp few)
    simp [Chip.write, modem, com1, Setup.Transmits, Setup.Clears, empty]

/-- What is left to show when the caller that has the CPU goes on. -/
theorem Valid.goesOn (valid : Valid interrupts c) (initialised : c.ahead = []) {chip : Chip}
    {caller : Caller} {written : List (Sender × Byte)} (setup : chip.setup = c.chip.setup)
    (asked : sentBy c.running written ++ caller.pending = caller.asked)
    (others : ∀ sender, sender ≠ c.running → sentBy sender written = sentBy sender c.written)
    (busy : caller.ready = true → caller.pending ≠ [])
    (fresh : chip.waiting.length ≤ written.length) (bounded : chip.waiting.length ≤ 2)
    (room : caller.ready = true → chip.waiting.length ≤ slack c.running)
    (roomElse : ∀ sender, sender ≠ c.running → (c.callers sender).ready = true →
      chip.waiting.length ≤ slack sender) :
    Valid interrupts { c.goesOn caller with chip := chip, written := written } where
  suffix := valid.suffix
  setup := by
    rw [← valid.setup]
    exact congrArg _ setup
  asked := fun sender => by
    by_cases same : sender = c.running
    · simpa [same] using asked
    · simpa [same, others sender same] using valid.asked sender
  busy := fun sender => by
    by_cases same : sender = c.running
    · simpa [same] using busy
    · simpa [same] using valid.busy sender
  early := fun ahead => absurd initialised ahead
  idle := fun kernel => by
    have other : Sender.handler ≠ c.running := by
      change c.running = .kernel at kernel
      simp [kernel]
    simpa [other] using valid.idle kernel
  fresh := fun _ => fresh
  bounded := fun _ => bounded
  room := fun sender => by
    by_cases same : sender = c.running
    · simpa [same] using room
    · simpa [same] using roomElse sender same

theorem Valid.step (valid : Valid interrupts c) (stepped : Step c c') : Valid interrupts c' := by
  cases stepped with
  | chip ran =>
      have fewer := ran.waiting_suffix.length_le
      exact
        { valid with
          setup := ran.setup ▸ valid.setup
          fresh := fun cleared => fewer.trans (valid.fresh cleared)
          bounded := fun cleared => fewer.trans (valid.bounded cleared)
          room := fun sender ready => fewer.trans (valid.room sender ready) }
  | @serialInit port value rest ahead =>
      obtain ⟨written, emptied⟩ := valid.init ahead
      have none := valid.early (by simp [ahead])
      have setup := valid.setup
      refine
        { valid with
          suffix := .trans (List.suffix_cons _ _) (ahead ▸ valid.suffix)
          setup := ?_
          early := fun _ => none
          fresh := fun cleared => ?_
          bounded := fun cleared => ?_
          room := fun sender ready => absurd (none.2 sender) (valid.busy sender ready) }
      · rw [written]
        rwa [ahead] at setup
      · simp [emptied cleared]
      · simp [emptied cleared]
  | call request initialised done =>
      have cleared : clearing ∉ c.ahead := by simp [initialised]
      have before := valid.asked c.running
      have answered : sentBy c.running c.written = c.caller.asked := by
        rwa [show (c.callers c.running).pending = [] from done, List.append_nil] at before
      exact valid.goesOn initialised rfl (by rw [answered, ← request.run_eq]) (fun _ _ => rfl)
        (by simp) (valid.fresh cleared) (valid.bounded cleared) (by simp)
        (fun sender _ => valid.room sender)
  | poll more unready =>
      have initialised := valid.calm more
      have cleared : clearing ∉ c.ahead := by simp [initialised]
      refine valid.goesOn initialised rfl (valid.asked c.running) (fun _ _ => rfl) (fun _ => more)
        (valid.fresh cleared) (valid.bounded cleared) (fun seen => ?_)
        (fun sender _ => valid.room sender)
      have empty : c.chip.waiting = [] := by
        by_contra waits
        have status := Chip.status_empty_iff.mpr waits
        exact of_decide_eq_true seen status
      simp [inbStatus, Chip.readStatus, empty]
  | @put b rest next ready =>
      have initialised := valid.calm (by simp [next])
      have put := valid.put initialised ready b
      have cleared : clearing ∉ c.ahead := by simp [initialised]
      have few := valid.room c.running ready
      have small : slack c.running ≤ 1 := by cases c.running <;> decide
      have asked := valid.asked c.running
      refine valid.goesOn initialised (by rw [put]) ?_ (fun sender other => ?_) (by simp) ?_ ?_
        (by simp) (fun sender other alsoReady => ?_)
      · simpa [Config.caller, show (c.callers c.running).pending = b :: rest from next] using asked
      · simp [other]
      · simpa [put] using valid.fresh cleared
      · simp only [put, List.length_append, List.length_singleton]
        omega
      · have more := valid.slack_le sender other alsoReady
        simp only [put, List.length_append, List.length_singleton]
        omega
  | interrupt initialised kernel => exact { valid with idle := by simp }
  | iretq handler done =>
      refine { valid with idle := fun _ => ?_ }
      simpa [Config.caller, handler] using done

theorem Valid.run (valid : Valid interrupts c) (ran : Run c c') : Valid interrupts c' := by
  induction ran with
  | refl => exact valid
  | tail _ stepped ih => exact ih.step stepped

theorem Step.initialised (stepped : Step c c') (initialised : c.ahead = []) : c'.ahead = [] := by
  cases stepped with
  | serialInit ahead => simp [initialised] at ahead
  | _ => exact initialised

/-! ## What the line carries -/

/-- One step after `serial_init`: what is put is what the line will carry besides. -/
theorem Valid.carried (valid : Valid interrupts c) (initialised : c.ahead = [])
    (stepped : Step c c') : ∃ more, c'.written = c.written ++ more ∧
      c'.chip.carried = c.chip.carried ++ more.map onLine := by
  have setup := valid.configured initialised
  cases stepped with
  | chip ran =>
      have same := ran.carried (by simp [setup])
      exact ⟨[], by simp, by simp [same]⟩
  | serialInit ahead => simp [initialised] at ahead
  | put next ready =>
      refine ⟨[(c.running, _)], rfl, ?_⟩
      change (outb c.chip com1 _).carried = _
      rw [valid.put initialised ready, Chip.carried_transmits, setup]
      rfl
  | poll more unready =>
      exact ⟨[], by simp [Config.goesOn], by simp [inbStatus, Chip.readStatus, Chip.carried, Chip.inFlight]⟩
  | _ => exact ⟨[], by simp [Config.goesOn], by simp [Config.goesOn]⟩

theorem Valid.run_carried (valid : Valid interrupts c) (initialised : c.ahead = [])
    (ran : Run c c') : c'.ahead = [] ∧ ∃ more, c'.written = c.written ++ more ∧
      c'.chip.carried = c.chip.carried ++ more.map onLine := by
  induction ran with
  | refl => exact ⟨initialised, [], by simp, by simp⟩
  | tail before stepped ih =>
      obtain ⟨still, more, written, carried⟩ := ih
      obtain ⟨last, written', carried'⟩ := (valid.run before).carried still stepped
      refine ⟨stepped.initialised still, more ++ last, ?_, ?_⟩
      · rw [written', written, List.append_assoc]
      · rw [carried', carried, List.map_append, List.append_assoc]

end Valid

/-! ## What was asked for can always be sent -/

/-- The caller that has the CPU goes on, and the other one stays where it is. -/
structure GoesOn (c c' : Config) : Prop where
  ran : Run c c'
  ahead : c'.ahead = c.ahead
  running : c'.running = c.running
  asked : c'.caller.asked = c.caller.asked
  other : ∀ sender, sender ≠ c.running → c'.callers sender = c.callers sender

section Progress

variable {c c' c'' : Config} {b : Byte} {rest : List Byte}

theorem GoesOn.trans (first : GoesOn c c') (second : GoesOn c' c'') : GoesOn c c'' where
  ran := first.ran.trans second.ran
  ahead := second.ahead.trans first.ahead
  running := second.running.trans first.running
  asked := second.asked.trans first.asked
  other := fun sender apart =>
    (second.other sender (first.running ▸ apart)).trans (first.other sender apart)

theorem drained (c : Config) : ∃ chip, GoesOn c { c with chip := chip } ∧ chip.inFlight = [] := by
  obtain ⟨chip, drains, empty⟩ := c.chip.drains
  have ran : Run { c with chip := c.chip } { c with chip := chip } :=
    drains.lift (fun chip => { c with chip := chip }) fun _ _ ran => .chip ran
  exact ⟨chip, ⟨ran, rfl, rfl, rfl, fun _ _ => rfl⟩, empty⟩

theorem put_ready (next : c.caller.pending = b :: rest) (ready : c.caller.ready = true) :
    ∃ c', GoesOn c c' ∧ c'.caller.pending = rest := by
  refine ⟨_, ⟨.single (.put next ready), rfl, rfl, ?_, fun sender other => ?_⟩, ?_⟩
  · simp [Config.caller, Config.goesOn]
  · simp [Config.goesOn, other]
  · simp [Config.caller, Config.goesOn]

/-- A poll of an empty chip lets the next byte through. -/
theorem poll_ready (more : c.caller.pending ≠ []) (unready : c.caller.ready = false)
    (empty : c.chip.waiting = []) :
    ∃ c', GoesOn c c' ∧ c'.caller.pending = c.caller.pending ∧ c'.caller.ready = true := by
  have seen : c.chip.status &&& 0x20 ≠ 0 := fun zero => Chip.status_empty_iff.mp zero empty
  refine ⟨_, ⟨.single (.poll more unready), rfl, rfl, ?_, fun sender other => ?_⟩, ?_, ?_⟩
  · simp [Config.caller, Config.goesOn]
  · simp [Config.goesOn, other]
  · simp [Config.caller, Config.goesOn]
  · have saw : decide ((inbStatus c.chip).1 &&& 0x20 ≠ 0) = true := decide_eq_true seen
    simpa [Config.caller, Config.goesOn] using saw

theorem put_next (next : c.caller.pending = b :: rest) :
    ∃ c', GoesOn c c' ∧ c'.caller.pending = rest := by
  cases ready : c.caller.ready with
  | true => exact put_ready next ready
  | false =>
      obtain ⟨chip, went, empty⟩ := drained c
      have more : c.caller.pending ≠ [] := by simp [next]
      obtain ⟨polled, wentOn, pending, ready'⟩ :=
        @poll_ready { c with chip := chip } more ready (List.append_eq_nil_iff.mp empty).2
      obtain ⟨c', put, done⟩ := put_ready (pending.trans next) ready'
      exact ⟨c', (went.trans wentOn).trans put, done⟩

/-- The call that is going on returns. -/
theorem call_returns (c : Config) : ∃ c', GoesOn c c' ∧ c'.caller.pending = [] := by
  generalize left : c.caller.pending = pending
  induction pending generalizing c with
  | nil => exact ⟨c, ⟨.refl, rfl, rfl, rfl, fun _ _ => rfl⟩, left⟩
  | cons b rest ih =>
      obtain ⟨c', went, pending⟩ := put_next left
      obtain ⟨c'', wentOn, done⟩ := ih c' pending
      exact ⟨c'', went.trans wentOn, done⟩

/-- What a sender asked for was put. -/
def Done (c c' : Config) (sender : Sender) : Prop :=
  (c'.callers sender).pending = [] ∧ (c'.callers sender).asked = (c.callers sender).asked

theorem GoesOn.done (went : GoesOn c c') (pending : c'.caller.pending = []) :
    Done c c' c.running := by
  have asked := went.asked
  simp only [Config.caller, went.running] at pending asked
  exact ⟨pending, asked⟩

theorem GoesOn.done_other (went : GoesOn c c') {sender : Sender} (other : sender ≠ c.running)
    (pending : (c.callers sender).pending = []) : Done c c' sender := by
  unfold Done
  rw [went.other sender other]
  exact ⟨pending, rfl⟩

theorem kernel_finishes (kernel : c.running = .kernel) (idle : (c.callers .handler).pending = []) :
    ∃ c', Run c c' ∧ c'.chip.inFlight = [] ∧ ∀ sender, Done c c' sender := by
  obtain ⟨returned, went, pending⟩ := call_returns c
  obtain ⟨chip, wentOn, empty⟩ := drained returned
  have whole := went.trans wentOn
  refine ⟨_, whole.ran, empty, fun sender => ?_⟩
  cases sender with
  | kernel => exact kernel ▸ whole.done pending
  | handler => exact whole.done_other (by simp [kernel]) idle

/-- The handler finishes and returns, and then the kernel finishes. -/
theorem Valid.finishes {interrupts : Byte} (valid : Valid interrupts c) :
    ∃ c', Run c c' ∧ c'.chip.inFlight = [] ∧ ∀ sender, Done c c' sender := by
  cases running : c.running with
  | kernel => exact kernel_finishes running (valid.idle running)
  | handler =>
      obtain ⟨returned, went, pending⟩ := call_returns c
      have handler := went.running.trans running
      have ended : Step returned { returned with running := .kernel } := .iretq handler pending
      have handlerDone := went.done pending
      rw [running] at handlerDone
      obtain ⟨c', ran, empty, done⟩ :=
        @kernel_finishes { returned with running := .kernel } rfl handlerDone.1
      refine ⟨c', (went.ran.tail ended).trans ran, empty, fun sender => ?_⟩
      cases sender with
      | handler => exact ⟨(done .handler).1, (done .handler).2.trans handlerDone.2⟩
      | kernel =>
          have kept := went.other .kernel (by simp [running])
          exact ⟨(done .kernel).1, (done .kernel).2.trans (congrArg Caller.asked kept)⟩

end Progress

/-! ## No byte is lost -/

/-- Whatever the firmware left in the chip and however the chip, the kernel and its interrupt
handlers take turns: after `serial_init` at most one byte of the firmware is still to be sent, and
from then on the line carries what is put, once and in order, at 115200 baud and 8N1. Each sender's
bytes are put in the order it asked for them. Never more than two bytes wait, and all that was asked
for can always be sent. The interrupts of the chip are off unless the firmware left the latch open. -/
theorem serial_loses_nothing (chip : Chip) {c₀ c : Config} (ran : Run (start chip) c₀)
    (initialised : c₀.ahead = []) (onward : Run c₀ c) :
    c.chip.setup = configured (if chip.setup.latch then chip.setup.interrupts else 0x00) ∧
    c.chip.waiting.length ≤ 2 ∧
    (c₀.written = [] → c₀.chip.inFlight.length ≤ 1) ∧
    (∃ more, c.written = c₀.written ++ more ∧
      c.chip.carried = c₀.chip.carried ++ more.map onLine) ∧
    (∀ sender, sentBy sender c.written ++ (c.callers sender).pending = (c.callers sender).asked) ∧
    ∃ c', Run c c' ∧ c'.chip.inFlight = [] ∧ ∀ sender, Done c c' sender := by
  have valid₀ := (start_valid chip).run ran
  have valid := valid₀.run onward
  obtain ⟨still, carried⟩ := valid₀.run_carried initialised onward
  refine ⟨valid.configured still, valid.bounded (by simp [still]), fun unused => ?_, carried,
    valid.asked, valid.finishes⟩
  have few := valid₀.fresh (by simp [initialised])
  rw [unused] at few
  have shifting : c₀.chip.shifting.toList.length ≤ 1 := by
    cases c₀.chip.shifting <;> simp
  simp only [Chip.inFlight, List.length_append]
  simp only [List.length_nil] at few
  omega

/-- `serial_init` goes through. -/
def Config.initialised (c : Config) : Config :=
  { c with chip := c.ahead.foldl (fun chip write => outb chip write.1 write.2) c.chip, ahead := [] }

theorem run_initialised (c : Config) : Run c c.initialised := by
  obtain ⟨chip, ahead, callers, running, written⟩ := c
  induction ahead generalizing chip with
  | nil => exact .refl
  | cons write rest ih => exact .head (.serialInit rfl) (ih (outb chip write.1 write.2))

/-- A chip that the firmware left with a byte in its FIFO. -/
def leftOver : Chip where
  setup := { interrupts := 0, format := 0, divisor := 12, fifos := false, modem := 0 }
  waiting := [0x55]
  shifting := none
  received := 0x60
  line := []

/-- The kernel is interrupted between its poll and its write. -/
theorem serial_loses_nothing_interrupted : ∃ c, Run (start leftOver).initialised c ∧
    c.written = [(.handler, ascii 'B'), (.kernel, ascii 'A')] ∧
    c.chip.carried = (start leftOver).initialised.chip.carried ++ c.written.map onLine := by
  have polled : Run (start leftOver).initialised _ :=
    .tail (.tail .refl (.call (.putc (ascii 'A')) rfl rfl)) (.poll (by decide) rfl)
  have handled : Run (start leftOver).initialised _ := .tail (.tail (.tail (.tail polled
    (.interrupt rfl rfl)) (.call (.putc (ascii 'B')) rfl rfl)) (.poll (by decide) rfl)) (.put rfl rfl)
  have onward : Run (start leftOver).initialised _ := .tail (.tail handled (.iretq rfl rfl))
    (.put rfl rfl)
  obtain ⟨-, -, -, ⟨more, written, carried⟩, -⟩ :=
    serial_loses_nothing leftOver (run_initialised _) rfl onward
  refine ⟨_, onward, rfl, ?_⟩
  rw [carried, written]
  rfl

end ScrapOS.Serial
