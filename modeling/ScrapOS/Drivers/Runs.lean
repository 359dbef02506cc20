import ScrapOS.Console.Runs
import ScrapOS.Drivers.Handlers

/-! The kernel from `pic_remap` on: what `kmain` still does and prints, and interrupts as the devices
request them. Every byte of the keyboard is echoed once and in order, the heartbeat lines count the
seconds, and the lines of `kmain` come out in between.

The last line of `kmain` is printed while interrupts come. The bytes on the serial line interleave.
The console is another matter: its statics are shared between `kmain` and the keyboard handler, and
an echo may come in the middle of a call of `console_putc`. What the console then does is left
open. -/

set_option autoImplicit false

namespace ScrapOS.Drivers

open Console (Globals Fits consolePutc putAll consoleInit Geometry)
open Irq (Devices Handlers noHandlers irqInstallHandler picUnmaskIrq masterBase slaveBase)
open Pic8259 (Pair Register)

/-! ## The calls of `kmain` -/

inductive Action where
  | serialPutc (c : Byte)
  | consolePutc (c : Byte)
  | timerInit (frequency : BitVec 32)
  | keyboardInit
  | picUnmaskIrq (irq : Byte)
  | sti
deriving DecidableEq

namespace Action

/-- `serial_write` -/
def serialWrite (s : List Byte) : List Action := (ScrapOS.serialWrite [] s).map .serialPutc

/-- `console_write` stops at the first NUL. -/
def consoleWrite (s : List Byte) : List Action := (s.takeWhile (· ≠ 0)).map .consolePutc

def kprint (s : List Byte) : List Action := serialWrite s ++ consoleWrite s

end Action

/-- `arch_enable_irqs` -/
def archEnableIrqs : List Action := [.picUnmaskIrq 0, .picUnmaskIrq 1, .sti]

/-- The calls of `kmain` after `arch_init`, in their order. Between the handlers and the interrupts
it brings the memory managers up; all that this does here is to put the bytes of `report` on the
serial line. A `kmain` that halts there makes no further call. -/
def kmain (report : List Byte) : List Action :=
  Action.kprint (text "ScrapOS: arch initialised (GDT, IDT, PIC, IRQs)\n") ++
  [.timerInit 100, .keyboardInit] ++
  Action.kprint (text "ScrapOS: timer + keyboard handlers installed\n") ++
  report.map .serialPutc ++
  archEnableIrqs ++
  Action.kprint (text "ScrapOS: interrupts enabled - idling, type to echo\n")

/-- What happened: an interrupt was served, or a call of `kmain` put a byte on the serial line or a
character on the console. -/
inductive Event where
  | tick
  | key (scancode : Byte)
  | other
  | said (c : Byte)
  | wrote (c : Byte)
deriving DecidableEq

/-- The characters that the console gets. -/
def Event.shown : Event → List Byte
  | .key scancode => echo scancode
  | .wrote c => [c]
  | _ => []

/-- The event is one of `kmain`. -/
def Event.own : Event → Bool
  | .said _ => true
  | .wrote _ => true
  | _ => false

def Action.events : Action → List Event
  | .serialPutc c => [.said c]
  | .consolePutc c => [.wrote c]
  | _ => []

/-! ## The machine -/

/-- A state of a run: the calls that `kmain` has still to make, whether the CPU accepts interrupts,
whether `kmain` is in the middle of a call of `console_putc`, whether an echo came in the middle of
one, the bytes that the keyboard sent so far, and what happened. -/
structure Config where
  irq : Irq.Config Handler State
  ahead : List Action
  enabled : Bool
  drawing : Bool
  torn : Bool
  sent : List Byte
  history : List Event

namespace Config

abbrev world (c : Config) : World := c.irq.world

def withWorld (c : Config) (world : World) : Config := { c with irq := { c.irq with world } }

def withDevices (c : Config) (devices : Devices) : Config := c.withWorld { c.world with devices }

/-- An interrupt was served. -/
def served (c : Config) (world : World) (event : Event) : Config :=
  { c.withWorld world with
    torn := c.torn || c.drawing && !event.shown.isEmpty
    history := c.history ++ [event] }

/-- `kmain` has put a byte on the serial line or a character on the console. -/
def told (c : Config) (rest : State) (event : Event) : Config :=
  { c.withWorld { c.world with rest } with history := c.history ++ [event] }

@[simp] theorem served_world (c : Config) (world : World) (event : Event) :
    (c.served world event).world = world := rfl

@[simp] theorem served_history (c : Config) (world : World) (event : Event) :
    (c.served world event).history = c.history ++ [event] := rfl

@[simp] theorem served_sent (c : Config) (world : World) (event : Event) :
    (c.served world event).sent = c.sent := rfl

@[simp] theorem served_ahead (c : Config) (world : World) (event : Event) :
    (c.served world event).ahead = c.ahead := rfl

end Config

/-- One call of `kmain`; `none` when it traps or does not return. -/
def Action.run (putc : Putc) : Action → Config → Option Config
  | .serialPutc ch, c =>
      some (c.told { c.world.rest with out := ScrapOS.serialPutc c.world.rest.out ch } (.said ch))
  | .consolePutc ch, c =>
      (putc c.world.rest.console ch).map fun (console, events) =>
        c.told { c.world.rest with console, drawn := c.world.rest.drawn ++ events } (.wrote ch)
  | .timerInit frequency, c =>
      (Drivers.timerInit frequency c.irq.handlers c.world).map fun (handlers, world) =>
        { c with irq := { c.irq with handlers, world } }
  | .keyboardInit, c => some { c with irq := { c.irq with handlers := Drivers.keyboardInit c.irq.handlers } }
  | .picUnmaskIrq irq, c =>
      some
        { c with
          irq :=
            { c.irq with
              world := { c.world with devices := Irq.picUnmaskIrq irq c.world.devices }
              opened := irq.toNat :: c.irq.opened } }
  | .sti, c => some { c with enabled := true }

/-- What an interrupt with this vector is for, when it comes to these devices. -/
def eventOf (vector : Register) (devices : Devices) : Event :=
  if vector = 32 then .tick else if vector = 33 then .key devices.readKeyboard.1 else .other

inductive Step : Config → Config → Prop where
  | keySent {c : Config} (scancode : Byte) :
      Step c
        { c.withDevices (c.world.devices.keySent scancode) with sent := c.sent ++ [scancode] }
  /-- A line rises. The keyboard raises line 1 by itself. -/
  | raise {c : Config} {line : Nat} : line < 16 → line ≠ 1 →
      Step c (c.withDevices (c.world.devices.raise line))
  | withdraw {c : Config} {line : Nat} : line < 16 → line ≠ 1 →
      Step c (c.withDevices (c.world.devices.withdraw line))
  /-- Until an echo has come in the middle of a call, `console_putc` does what it does alone. -/
  | kmain {c c' : Config} {putc : Putc} {action : Action} {rest : List Action} :
      (c.torn = false → putc = consolePutc) → c.ahead = action :: rest →
      action.run putc c = some c' → Step c { c' with ahead := rest, drawing := false }
  /-- A call of `console_putc` has begun, and interrupts may come before it is over. -/
  | enter {c : Config} {ch : Byte} {rest : List Action} : c.ahead = .consolePutc ch :: rest →
      Step c { c with drawing := true }
  | interrupt {c : Config} {putc : Putc} {buf : Vector Byte 20} {dropped : Register}
      {interrupted : Arch.Machine} {world' : World} : c.enabled = true →
      (c.drawing = false → putc = consolePutc) →
      Irq.interrupt (call putc buf) c.irq.handlers dropped interrupted c.world = some world' →
      Step c (c.served world' (eventOf (c.world.pics.acknowledge dropped).1 c.world.devices))

abbrev Run : Config → Config → Prop := Relation.ReflTransGen Step

/-- After `pic_remap`, with whatever the devices and the console were left in. -/
def start (report : List Byte) (devices : Devices) (rest : State) : Config where
  irq := Irq.start devices rest
  ahead := kmain report
  enabled := false
  drawing := false
  torn := false
  sent := []
  history := []

/-! ## What the history says -/

def keys (history : List Event) : List Byte :=
  history.filterMap fun
    | .key scancode => some scancode
    | _ => none

def tickCount (history : List Event) : Nat := history.count .tick

/-- The characters that the console gets. -/
def displayed (history : List Event) : List Byte := history.flatMap Event.shown

/-- The bytes that are put on the serial line, from a tick count on. -/
def printed (hz : BitVec 32) (ticks : Word) : List Event → List Byte
  | [] => []
  | .tick :: rest => wire (heartbeat hz (ticks + 1)) ++ printed hz (ticks + 1) rest
  | .key scancode :: rest => wire (echo scancode) ++ printed hz ticks rest
  | .said c :: rest => c :: printed hz ticks rest
  | _ :: rest => printed hz ticks rest

section History

variable {history more : List Event} {hz : BitVec 32} {ticks : Word} {scancode c : Byte}

@[simp] theorem keys_append : keys (history ++ more) = keys history ++ keys more :=
  List.filterMap_append

@[simp] theorem keys_tick : keys [.tick] = [] := rfl

@[simp] theorem keys_key : keys [.key scancode] = [scancode] := rfl

@[simp] theorem keys_other : keys [.other] = [] := rfl

@[simp] theorem keys_said : keys [.said c] = [] := rfl

@[simp] theorem keys_wrote : keys [.wrote c] = [] := rfl

@[simp] theorem tickCount_append : tickCount (history ++ more) = tickCount history + tickCount more :=
  List.count_append

@[simp] theorem displayed_append : displayed (history ++ more) = displayed history ++ displayed more :=
  List.flatMap_append

@[simp] theorem displayed_singleton (event : Event) : displayed [event] = event.shown :=
  List.flatMap_singleton Event.shown event

theorem printed_append : printed hz ticks (history ++ more) =
    printed hz ticks history ++ printed hz (ticks + BitVec.ofNat 64 (tickCount history)) more := by
  induction history generalizing ticks with
  | nil => simp [printed, tickCount]
  | cons event rest ih =>
      by_cases tick : event = .tick
      · subst tick
        have moved : ticks + BitVec.ofNat 64 (tickCount (.tick :: rest)) =
            ticks + 1 + BitVec.ofNat 64 (tickCount rest) := by
          simp only [tickCount, List.count_cons_self, BitVec.ofNat_add]
          rw [BitVec.add_comm (BitVec.ofNat 64 _), ← BitVec.add_assoc]
          rfl
        simp only [List.cons_append, printed, ih, List.append_assoc, moved]
      · have same : tickCount (event :: rest) = tickCount rest := by simp [tickCount, tick]
        cases event with
        | tick => exact absurd rfl tick
        | key => simp only [List.cons_append, printed, ih, List.append_assoc, same]
        | other => simp only [List.cons_append, printed, ih, same]
        | said => simp only [List.cons_append, printed, ih, same]
        | wrote => simp only [List.cons_append, printed, ih, same]

end History

/-! ## How far the initialisation is -/

/-- What the initialisation sets, apart from the controllers. -/
structure Setup where
  handlers : Handlers Handler
  opened : List Nat
  tickHz : BitVec 32
  enabled : Bool

def Config.setup (c : Config) : Setup where
  handlers := c.irq.handlers
  opened := c.irq.opened
  tickHz := c.world.rest.tickHz
  enabled := c.enabled

def Action.effect (setup : Setup) : Action → Setup
  | .timerInit frequency =>
      { setup with
        handlers := irqInstallHandler 0 (some .timerIrq) setup.handlers, tickHz := frequency }
  | .keyboardInit => { setup with handlers := Drivers.keyboardInit setup.handlers }
  | .picUnmaskIrq irq => { setup with opened := irq.toNat :: setup.opened }
  | .sti => { setup with enabled := true }
  | _ => setup

/-- The call puts nothing on the serial line or on the console. -/
def Action.mute (action : Action) : Bool := action.events.isEmpty

/-- The setup is the one that the calls made so far lead to, and these have printed what they had
to. -/
def Progress (report : List Byte) (hz : BitVec 32) (c : Config) : Prop :=
  ∃ made, made ++ c.ahead = kmain report ∧
    c.setup = made.foldl Action.effect
      { handlers := noHandlers, opened := [], tickHz := hz, enabled := false } ∧
    c.history.filter Event.own = made.flatMap Action.events

/-- The setup that the kernel lives with. -/
def liveSetup : Setup where
  handlers := keyboardInit (irqInstallHandler 0 (some .timerIrq) noHandlers)
  opened := [1, 0]
  tickHz := 100
  enabled := true

section Calls

variable {s : List Byte} {report : List Byte} {putc : Putc} {action : Action} {c c' : Config}

/-- Prints set nothing up. -/
theorem foldl_mute (setup : Setup) (actions : List Action) :
    (actions.filter Action.mute).foldl Action.effect setup = actions.foldl Action.effect setup := by
  have same : (fun setup action => if Action.mute action then Action.effect setup action else setup) =
      Action.effect := by
    funext setup action
    cases action <;> rfl
  rw [List.foldl_filter, same]

theorem filter_serial (s : List Byte) : (s.map Action.serialPutc).filter Action.mute = [] := by
  simp [Action.mute, Action.events]

theorem filter_kprint (s : List Byte) : (Action.kprint s).filter Action.mute = [] := by
  simp [Action.kprint, Action.serialWrite, Action.consoleWrite, Action.mute, Action.events]

/-- What is left of `kmain` without its prints. -/
theorem kmain_mute (report : List Byte) : (kmain report).filter Action.mute =
    [Action.timerInit 100, Action.keyboardInit] ++ archEnableIrqs := by
  simp only [kmain, List.filter_append, filter_kprint, filter_serial, List.nil_append,
    List.append_nil]
  rfl

theorem mem_kmain {action : Action} (member : action ∈ kmain report) (mute : action.mute = true) :
    action ∈ [Action.timerInit 100, Action.keyboardInit] ++ archEnableIrqs := by
  rw [← kmain_mute report]
  exact List.mem_filter.mpr ⟨member, mute⟩

end Calls

section Progress

variable {report : List Byte} {hz : BitVec 32} {putc : Putc} {c c' : Config}

/-- Interrupts are accepted only when the initialisation is complete. -/
theorem Progress.live (progress : Progress report hz c) (enabled : c.enabled = true) :
    c.setup = liveSetup := by
  obtain ⟨made, whole, setup, -⟩ := progress
  have accepted := congrArg Setup.enabled setup
  rw [show c.setup.enabled = true from enabled] at accepted
  rw [← foldl_mute] at setup accepted
  have mute := congrArg (List.filter Action.mute) whole
  rw [List.filter_append, kmain_mute] at mute
  generalize made.filter Action.mute = made at setup accepted mute
  have short : made.length ≤ 5 := by
    have lengths := congrArg List.length mute
    simp only [List.length_append, archEnableIrqs, List.length_cons, List.length_nil] at lengths
    omega
  have prefixed : made =
      ([Action.timerInit 100, Action.keyboardInit] ++ archEnableIrqs).take made.length := by
    rw [← mute, List.take_left]
  generalize made.length = length at short prefixed
  subst prefixed
  interval_cases length <;> first | exact setup | exact absurd accepted Bool.false_ne_true.symm

/-- What a call of `kmain` does outside the devices. -/
structure Made (putc : Putc) (action : Action) (c c' : Config) : Prop where
  setup : c'.setup = Action.effect c.setup action
  ahead : c'.ahead = c.ahead
  history : c'.history = c.history ++ action.events
  ticks : c'.world.rest.ticks = c.world.rest.ticks
  out : ∀ hz ticks, c'.world.rest.out = c.world.rest.out ++ printed hz ticks action.events
  shown : ∃ events, putEach putc c.world.rest.console (displayed action.events) =
    some (c'.world.rest.console, events) ∧ c'.world.rest.drawn = c.world.rest.drawn ++ events
  sent : c'.sent = c.sent
  torn : c'.torn = c.torn

/-- A call that prints nothing. -/
theorem Made.mute {action : Action} (events : action.events = []) (ahead : c'.ahead = c.ahead)
    (setup : c'.setup = Action.effect c.setup action) (history : c'.history = c.history)
    (rest : c'.world.rest = { c.world.rest with tickHz := c'.world.rest.tickHz })
    (sent : c'.sent = c.sent) (torn : c'.torn = c.torn) : Made putc action c c' where
  setup := setup
  ahead := ahead
  history := by rw [history, events, List.append_nil]
  ticks := by rw [rest]
  out := fun hz ticks => by rw [rest, events, printed, List.append_nil]
  shown := ⟨[], by rw [rest, events]; rfl, by rw [rest, List.append_nil]⟩
  sent := sent
  torn := torn

theorem Action.run_made {action : Action} (ran : action.run putc c = some c') :
    Made putc action c c' := by
  cases action with
  | serialPutc ch =>
      cases ran
      exact ⟨rfl, rfl, rfl, rfl, fun _ _ => rfl, ⟨[], rfl, (List.append_nil _).symm⟩, rfl, rfl⟩
  | consolePutc ch =>
      simp only [Action.run, Option.map_eq_some_iff] at ran
      obtain ⟨drawn, put, rfl⟩ := ran
      have shown : putEach putc c.world.rest.console [ch] = some (drawn.1, drawn.2) := by
        simp [putEach, put]
      exact ⟨rfl, rfl, rfl, rfl, fun _ _ => (List.append_nil _).symm, ⟨drawn.2, shown, rfl⟩, rfl, rfl⟩
  | timerInit frequency =>
      rw [Action.run, Drivers.timerInit] at ran
      split at ran
      · cases ran
      · cases ran
        exact .mute rfl rfl rfl rfl rfl rfl rfl
  | keyboardInit => cases ran; exact .mute rfl rfl rfl rfl rfl rfl rfl
  | picUnmaskIrq irq => cases ran; exact .mute rfl rfl rfl rfl rfl rfl rfl
  | sti => cases ran; exact .mute rfl rfl rfl rfl rfl rfl rfl

/-- When nothing is left to do, everything is set up. -/
theorem Progress.complete (progress : Progress report hz c) (done : c.ahead = []) :
    c.setup = liveSetup := by
  obtain ⟨made, whole, setup, -⟩ := progress
  rw [done, List.append_nil] at whole
  rw [setup, whole, ← foldl_mute, kmain_mute]
  rfl

theorem Action.events_own (action : Action) : action.events.filter Event.own = action.events := by
  cases action <;> rfl

theorem Progress.act {action : Action} {rest : List Action} (progress : Progress report hz c)
    (ahead : c.ahead = action :: rest) (ran : action.run putc c = some c') :
    Progress report hz { c' with ahead := rest, drawing := false } := by
  obtain ⟨made, whole, setup, told⟩ := progress
  have did := Action.run_made ran
  refine ⟨made ++ [action], ?_, ?_, ?_⟩
  · simpa [ahead] using whole
  · rw [List.foldl_append, ← setup]
    exact did.setup
  · rw [List.flatMap_append, List.flatMap_singleton, ← told]
    simp only [did.history, List.filter_append, action.events_own]

theorem Progress.of_setup (progress : Progress report hz c) (same : c'.setup = c.setup)
    (ahead : c'.ahead = c.ahead)
    (told : c'.history.filter Event.own = c.history.filter Event.own) : Progress report hz c' := by
  obtain ⟨made, whole, setup, before⟩ := progress
  exact ⟨made, ahead ▸ whole, same.trans setup, told.trans before⟩

theorem Progress.member {action : Action} {later : List Action} (progress : Progress report hz c)
    (ahead : c.ahead = action :: later) : action ∈ kmain report := by
  obtain ⟨made, whole, -⟩ := progress
  simp [← whole, ahead]

/-- What `kmain` has printed, and what it will print. -/
theorem Progress.told (progress : Progress report hz c) :
    c.history.filter Event.own ++ c.ahead.flatMap Action.events =
      (kmain report).flatMap Action.events := by
  obtain ⟨made, whole, -, told⟩ := progress
  rw [told, ← whole, List.flatMap_append]

end Progress

/-- What the calls of `kmain` leave alone of the devices. -/
structure Untouched (c c' : Config) : Prop where
  irq : Irq.Valid c'.irq
  keyboard : c'.world.devices.keyboard = c.world.devices.keyboard
  requested : c'.world.pics.requested = c.world.pics.requested

/-- A call that leaves the controllers and the keyboard where they are. -/
theorem Untouched.of_devices {c c' : Config} (valid : Irq.Valid c.irq)
    (devices : c'.world.devices.pics = c.world.devices.pics)
    (keyboard : c'.world.devices.keyboard = c.world.devices.keyboard)
    (opened : c'.irq.opened = c.irq.opened) : Untouched c c' := by
  have pics : c'.world.pics = c.world.pics := devices
  refine ⟨⟨?_, ?_, ?_⟩, keyboard, congrArg Pair.requested pics⟩
  · exact pics ▸ valid.cascaded
  · exact pics ▸ valid.quiet
  · rw [opened]
    exact pics ▸ valid.masked

theorem Action.untouched {report : List Byte} {putc : Putc} {c c' : Config} {action : Action}
    (member : action ∈ kmain report) (valid : Irq.Valid c.irq) (ran : action.run putc c = some c') :
    Untouched c c' := by
  cases action with
  | serialPutc ch =>
      cases ran
      exact .of_devices valid rfl rfl rfl
  | consolePutc ch =>
      simp only [Action.run, Option.map_eq_some_iff] at ran
      obtain ⟨drawn, -, rfl⟩ := ran
      exact .of_devices valid rfl rfl rfl
  | timerInit frequency =>
      rw [Action.run, Drivers.timerInit] at ran
      split at ran
      · cases ran
      · cases ran
        exact .of_devices valid rfl rfl rfl
  | keyboardInit =>
      cases ran
      exact .of_devices valid rfl rfl rfl
  | picUnmaskIrq irq =>
      cases ran
      have inside : irq.toNat < 16 := by
        have setsUp := mem_kmain member rfl
        simp only [archEnableIrqs, List.cons_append, List.nil_append, List.mem_cons,
          reduceCtorEq, Action.picUnmaskIrq.injEq, List.not_mem_nil, or_false, false_or] at setsUp
        cases setsUp with
        | inl zero => simp [zero]
        | inr one => simp [one]
      have stepped : Irq.Step (call putc (Vector.replicate 20 0)) c.irq _ := .unmask _ inside
      refine ⟨valid.step (call_modest _ _) stepped, ?_, ?_⟩
      · exact Irq.picUnmaskIrq_keyboard valid.cascaded inside
      · exact Irq.picUnmaskIrq_requested valid.cascaded inside
  | sti =>
      cases ran
      exact .of_devices valid rfl rfl rfl

/-! ## The invariant -/

/-- The keyboard is heard when nothing waited at first. A byte that waited then was announced
before `pic_remap` forgot it, and it keeps line 1 from rising again. -/
def Heard (stale : List Byte) (devices : Devices) : Prop :=
  if stale = [] then devices.KeyboardHeard else devices.pics.requested 1 = false

/-- The state after what the history says, when the bytes `stale` were waiting at first. -/
structure Valid (report stale : List Byte) (rest : State) (c : Config) : Prop where
  irq : Irq.Valid c.irq
  heard : Heard stale c.world.devices
  conveyed : stale ++ c.sent = keys c.history ++ c.world.devices.keyboard.waiting
  unread : stale ≠ [] → keys c.history = []
  progress : Progress report rest.tickHz c
  busy : c.drawing = true → ∃ ch later, c.ahead = .consolePutc ch :: later
  ticks : c.world.rest.ticks = rest.ticks + BitVec.ofNat 64 (tickCount c.history)
  out : c.world.rest.out = rest.out ++ printed 100 rest.ticks c.history
  shown : c.torn = false →
    ∃ events, putAll rest.console (displayed c.history) = some (c.world.rest.console, events) ∧
      c.world.rest.drawn = rest.drawn ++ events

section Heard

variable {stale : List Byte} {devices devices' : Devices}

theorem Heard.congr (heard : Heard stale devices)
    (requested : devices'.pics.requested 1 = devices.pics.requested 1)
    (keyboard : devices'.keyboard = devices.keyboard) : Heard stale devices' := by
  unfold Heard Devices.KeyboardHeard at *
  rwa [requested, keyboard]

/-- Line 1 interrupts only for a byte that nobody has read, and only when none was left over. -/
theorem Heard.asked (heard : Heard stale devices) (requested : devices.pics.requested 1 = true) :
    stale = [] ∧ devices.keyboard.waiting ≠ [] := by
  unfold Heard at heard
  split at heard
  · next fresh => exact ⟨fresh, heard.mp requested⟩
  · simp [requested] at heard

theorem Heard.keySent (heard : Heard stale devices)
    (waiting : stale ≠ [] → devices.keyboard.waiting ≠ []) (scancode : Byte) :
    Heard stale (devices.keySent scancode) := by
  unfold Heard at *
  split at heard
  · next fresh =>
    rw [if_pos fresh]
    exact Devices.KeyboardHeard.keySent heard scancode
  · next left =>
    rw [if_neg left]
    simpa [Devices.keySent, waiting left] using heard

end Heard

section Interrupt

variable {report stale : List Byte} {rest : State} {putc : Putc} {c : Config} {line : Nat}

/-- The handlers that the kernel lives with. -/
theorem liveSetup_serve (putc : Putc) (buf : Vector Byte 20) (inside : line < 16) (world : World) :
    Irq.serve (call putc buf) liveSetup.handlers line world =
      if line = 0 then timerIrq buf world else if line = 1 then keyboardIrq putc world
      else some world := by
  interval_cases line <;> rfl

theorem eventOf_line {vector : Register} (number : vector.toNat = 32 + line) (devices : Devices) :
    eventOf vector devices =
      if line = 0 then .tick else if line = 1 then .key devices.readKeyboard.1 else .other := by
  have tick : vector = 32 ↔ line = 0 := by
    constructor <;> intro same <;> bv_omega
  have key : vector = 33 ↔ line = 1 := by
    constructor <;> intro same <;> bv_omega
  simp only [eventOf, tick, key]

theorem readKeyboard_code (devices : Devices) (pics : Pair) :
    ({ devices with pics } : Devices).readKeyboard.1 = devices.readKeyboard.1 ∧
      ({ devices with pics } : Devices).readKeyboard.2.keyboard =
        devices.readKeyboard.2.keyboard := by
  unfold Devices.readKeyboard
  dsimp only
  cases devices.keyboard.waiting with
  | nil => exact ⟨rfl, rfl⟩
  | cons code rest => cases rest <;> exact ⟨rfl, rfl⟩

/-- An interrupt calls the timer, the keyboard or nothing, and after it line 1 is requested as
before unless it was its own. -/
theorem interrupt_line {hz : BitVec 32} (valid : Irq.Valid c.irq) (progress : Progress report hz c)
    (enabled : c.enabled = true) (putc : Putc) (buf : Vector Byte 20) (dropped : Register)
    (interrupted : Arch.Machine) :
    ∃ line < 16, (c.world.pics.acknowledge dropped).1.toNat = 32 + line ∧
      (c.world.pics.acknowledge dropped).2.requested 1 =
        (c.world.pics.requested 1 && decide (1 ≠ line)) ∧
      (line = 1 → c.world.pics.requested 1 = true) ∧
      Irq.interrupt (call putc buf) c.irq.handlers dropped interrupted c.world =
        (if line = 0 then timerIrq buf (c.world.withPics (c.world.pics.acknowledge dropped).2)
          else if line = 1 then
            keyboardIrq putc (c.world.withPics (c.world.pics.acknowledge dropped).2)
          else some (c.world.withPics (c.world.pics.acknowledge dropped).2)).map
            fun world => world.withPics (world.pics.ended line) := by
  obtain ⟨line, inside, number, taken, ran⟩ :=
    Irq.interrupt_eq (call putc buf) c.irq.handlers valid.cascaded valid.quiet
      dropped interrupted
  have handlers : c.irq.handlers = liveSetup.handlers :=
    congrArg Setup.handlers (progress.live enabled)
  rw [handlers, liveSetup_serve putc buf inside] at ran
  have requested := taken.requested (by decide : 1 < 8) (by decide) (fun same => same ▸ by decide)
  rw [Pair.requested_ended] at requested
  refine ⟨line, inside, number, requested, fun own => ?_, handlers ▸ ran⟩
  subst own
  exact (taken.deliverable valid.quiet (by decide) (by decide)).1

/-- What an interrupt does outside the controllers. -/
inductive Outcome (putc : Putc) (world : World) : Event → World → Prop where
  | tick {world' : World} : world'.devices.keyboard = world.devices.keyboard →
      world'.rest =
        { world.rest with
          ticks := world.rest.ticks + 1
          out := world.rest.out ++ wire (heartbeat world.rest.tickHz (world.rest.ticks + 1)) } →
      Outcome putc world .tick world'
  | key {world' : World} {scancode : Byte} {drawn : Globals × List Console.Event} :
      world.devices.keyboard.waiting = scancode :: world'.devices.keyboard.waiting →
      putEach putc world.rest.console (echo scancode) = some drawn →
      world'.rest =
        { world.rest with
          console := drawn.1
          drawn := world.rest.drawn ++ drawn.2
          out := world.rest.out ++ wire (echo scancode) } →
      Outcome putc world (.key scancode) world'
  | other {world' : World} : world'.devices.keyboard = world.devices.keyboard →
      world'.rest = world.rest → Outcome putc world .other world'

theorem Valid.outcome (valid : Valid report stale rest c) (enabled : c.enabled = true)
    {buf : Vector Byte 20} {dropped : Register} {interrupted : Arch.Machine} {world' : World}
    (returned : Irq.interrupt (call putc buf) c.irq.handlers dropped interrupted c.world =
      some world') :
    Outcome putc c.world (eventOf (c.world.pics.acknowledge dropped).1 c.world.devices) world' ∧
      Heard stale world'.devices ∧
      (stale ≠ [] → keys [eventOf (c.world.pics.acknowledge dropped).1 c.world.devices] = []) := by
  obtain ⟨line, inside, number, requested, asked, ran⟩ :=
    interrupt_line valid.irq valid.progress enabled putc buf dropped interrupted
  rw [ran] at returned
  rw [eventOf_line number]
  by_cases tick : line = 0
  · subst tick
    simp only [if_true, timerIrq_eq, Option.map_some, Option.some.injEq] at returned
    subst returned
    refine ⟨.tick rfl rfl, valid.heard.congr ?_ rfl, fun _ => rfl⟩
    simpa [Irq.World.withPics] using requested
  · by_cases key : line = 1
    · subst key
      obtain ⟨fresh, waiting⟩ := valid.heard.asked (asked rfl)
      obtain ⟨code, keyboard⟩ := readKeyboard_code c.world.devices (c.world.pics.acknowledge dropped).2
      have heard := @Devices.readKeyboard_heard
        { c.world.devices with pics := (c.world.pics.acknowledge dropped).2 } waiting
      simp only [one_ne_zero, if_false, if_true, keyboardIrq_eq, Option.map_map,
        Option.map_eq_some_iff] at returned
      obtain ⟨drawn, drawnEq, rfl⟩ := returned
      simp only [Irq.World.withPics, code] at drawnEq
      simp only [one_ne_zero, if_false, if_true]
      refine ⟨@Outcome.key _ _ _ _ drawn ?_ drawnEq ?_, ?_, fun left => absurd fresh left⟩
      · cases found : c.world.devices.keyboard.waiting with
        | nil => exact absurd found waiting
        | cons first more =>
            obtain ⟨head, tail⟩ := Devices.readKeyboard_cons found
            simp only [Function.comp, Irq.World.withPics, keyboard, head, tail]
      · simp only [Function.comp, Irq.World.withPics, code]
      · rw [Heard, if_pos fresh]
        simpa [Devices.KeyboardHeard, Irq.World.withPics, Function.comp] using heard
    · simp only [tick, key, if_false, Option.map_some, Option.some.injEq] at returned
      subst returned
      simp only [tick, key, if_false]
      refine ⟨.other rfl rfl, valid.heard.congr ?_ rfl, fun _ => rfl⟩
      have kept : decide (1 ≠ line) = true := decide_eq_true (Ne.symm key)
      rw [kept, Bool.and_true] at requested
      simpa [Irq.World.withPics] using requested

end Interrupt

section Steps

variable {report stale : List Byte} {rest : State} {putc : Putc} {c c' : Config}

theorem start_valid (report : List Byte) (devices : Devices) (rest : State) :
    Valid report devices.keyboard.waiting rest (start report devices rest) where
  irq := Irq.start_valid devices rest
  heard := by
    have silent : (start report devices rest).world.devices.pics.requested 1 = false :=
      Irq.picRemap_requested devices 1
    have same : (start report devices rest).world.devices.keyboard = devices.keyboard := rfl
    unfold Heard
    split
    · next fresh => simp [Devices.KeyboardHeard, silent, same, fresh]
    · exact silent
  conveyed := List.append_nil _
  unread := fun _ => rfl
  progress := ⟨[], rfl, rfl, rfl⟩
  busy := fun inside => absurd inside Bool.false_ne_true
  ticks := by simp [start, Irq.start, tickCount]
  out := by simp [start, Irq.start, printed]
  shown := fun _ => ⟨[], rfl, by simp [start, Irq.start]⟩

/-- The devices request and withdraw, and the keyboard sends. -/
theorem Valid.devices (valid : Valid report stale rest c) {devices : Devices} {sent : List Byte}
    (same : c.world.pics.SameSetup devices.pics) (heard : Heard stale devices)
    (conveyed : stale ++ sent = keys c.history ++ devices.keyboard.waiting) :
    Valid report stale rest { c.withDevices devices with sent } where
  irq := valid.irq.same same
  heard := heard
  conveyed := conveyed
  unread := valid.unread
  progress := valid.progress.of_setup rfl rfl rfl
  busy := valid.busy
  ticks := valid.ticks
  out := valid.out
  shown := valid.shown

/-- More characters on the console. -/
theorem displayed_more {g g' g'' : Globals} {before after : List Event}
    {drawn drawn' drawn'' : List Console.Event}
    (first : ∃ events, putAll g (displayed before) = some (g', events) ∧ drawn' = drawn ++ events)
    (second : ∃ events, putAll g' (displayed after) = some (g'', events) ∧ drawn'' = drawn' ++ events) :
    ∃ events, putAll g (displayed (before ++ after)) = some (g'', events) ∧ drawn'' = drawn ++ events := by
  obtain ⟨events, put, rfl⟩ := first
  obtain ⟨more, putMore, rfl⟩ := second
  refine ⟨events ++ more, ?_, List.append_assoc _ _ _⟩
  rw [displayed_append, Console.putAll_append put, putMore]
  rfl

theorem keys_events (action : Action) : keys action.events = [] := by
  cases action <;> rfl

theorem tickCount_events (action : Action) : tickCount action.events = 0 := by
  cases action <;> rfl

theorem Valid.act (valid : Valid report stale rest c) {action : Action} {later : List Action}
    (alone : c.torn = false → putc = consolePutc) (ahead : c.ahead = action :: later)
    (ran : action.run putc c = some c') :
    Valid report stale rest { c' with ahead := later, drawing := false } := by
  have untouched := Action.untouched (valid.progress.member ahead) valid.irq ran
  have did := Action.run_made ran
  have sameKeys : keys c'.history = keys c.history := by
    rw [did.history, keys_append, keys_events, List.append_nil]
  exact {
    irq := untouched.irq
    heard := valid.heard.congr (congrFun untouched.requested 1) untouched.keyboard
    conveyed := by
      have conveyed := valid.conveyed
      rwa [← did.sent, ← sameKeys, ← untouched.keyboard] at conveyed
    unread := fun left => sameKeys.trans (valid.unread left)
    progress := valid.progress.act ahead ran
    busy := fun inside => absurd inside Bool.false_ne_true
    ticks := by
      have sameCount : tickCount c'.history = tickCount c.history := by
        rw [did.history, tickCount_append, tickCount_events, Nat.add_zero]
      exact sameCount ▸ did.ticks.trans valid.ticks
    out := by
      have line := did.out 100 (rest.ticks + BitVec.ofNat 64 (tickCount c.history))
      rw [valid.out, List.append_assoc, ← printed_append, ← did.history] at line
      exact line
    shown := fun whole => by
      have intact : c.torn = false := did.torn.symm.trans whole
      have drawn := did.shown
      rw [alone intact] at drawn
      simp only [putEach_consolePutc] at drawn
      have both := displayed_more (valid.shown intact) drawn
      rwa [← did.history] at both }

/-- An echo that did not come in the middle of a call of `kmain` is on the console whole. -/
theorem Outcome.shown {world world' : World} {event : Event}
    (outcome : Outcome putc world event world')
    (alone : event.shown ≠ [] → putc = consolePutc) :
    ∃ events, putAll world.rest.console (displayed [event]) = some (world'.rest.console, events) ∧
      world'.rest.drawn = world.rest.drawn ++ events := by
  rw [displayed_singleton]
  cases outcome with
  | tick _ after => exact ⟨[], by rw [after]; rfl, by rw [after, List.append_nil]⟩
  | @key _ scancode drawn _ put after =>
      refine ⟨drawn.2, ?_, by rw [after]⟩
      rw [after, Event.shown]
      rw [Event.shown] at alone
      cases characters : echo scancode with
      | nil =>
          rw [characters] at put
          exact put
      | cons c more =>
          rw [alone (by simp [characters]), characters, putEach_consolePutc] at put
          exact put
  | other _ after => exact ⟨[], by rw [after]; rfl, by rw [after, List.append_nil]⟩

theorem eventOf_own (vector : Register) (devices : Devices) :
    (eventOf vector devices).own = false := by
  unfold eventOf
  split
  · rfl
  · split <;> rfl

theorem Valid.interrupt (valid : Valid report stale rest c) (enabled : c.enabled = true)
    (alone : c.drawing = false → putc = consolePutc) {buf : Vector Byte 20} {dropped : Register}
    {interrupted : Arch.Machine} {world' : World}
    (returned : Irq.interrupt (call putc buf) c.irq.handlers dropped interrupted c.world =
      some world') :
    Valid report stale rest
      (c.served world' (eventOf (c.world.pics.acknowledge dropped).1 c.world.devices)) := by
  have irq : Irq.Valid { c.irq with world := world' } :=
    valid.irq.same (Irq.interrupt_same (call_modest putc buf) valid.irq.cascaded valid.irq.quiet returned)
  have hz : c.world.rest.tickHz = 100 := congrArg Setup.tickHz (valid.progress.live enabled)
  have foreign := eventOf_own (c.world.pics.acknowledge dropped).1 c.world.devices
  obtain ⟨outcome, heard, silent⟩ := valid.outcome enabled returned
  generalize eventOf (c.world.pics.acknowledge dropped).1 c.world.devices = event
    at outcome silent foreign
  have progress : world'.rest.tickHz = c.world.rest.tickHz →
      Progress report rest.tickHz (c.served world' event) := fun same =>
    valid.progress.of_setup (by simp [Config.setup, same]; exact ⟨rfl, rfl, rfl⟩) rfl
      (by simp [foreign])
  have unread : stale ≠ [] → keys (c.served world' event).history = [] := fun left => by
    simp [valid.unread left, silent left]
  have drawn : (c.served world' event).torn = false →
      ∃ events, putAll rest.console (displayed (c.served world' event).history) =
        some ((c.served world' event).world.rest.console, events) ∧
          (c.served world' event).world.rest.drawn = rest.drawn ++ events := fun whole => by
    simp only [Config.served, Bool.or_eq_false_iff, Bool.and_eq_false_imp, Bool.not_eq_false',
      List.isEmpty_iff] at whole
    refine displayed_more (valid.shown whole.1) (outcome.shown fun loud => alone ?_)
    cases inside : c.drawing with
    | false => rfl
    | true => exact absurd (whole.2 inside) loud
  cases outcome with
  | tick keyboard after =>
      refine ⟨irq, heard, ?_, unread, progress (by rw [after]), valid.busy, ?_, ?_, drawn⟩
      · simpa [keyboard] using valid.conveyed
      · simp only [Config.served_world, Config.served_history, after, tickCount_append,
          BitVec.ofNat_add, ← BitVec.add_assoc, ← valid.ticks]
        rfl
      · simp only [Config.served_world, Config.served_history, after, printed_append, printed,
          valid.out, hz, valid.ticks, List.append_assoc, List.append_nil]
  | key waiting put after =>
      refine ⟨irq, heard, ?_, unread, progress (by rw [after]), valid.busy, ?_, ?_, drawn⟩
      · simp [valid.conveyed, waiting]
      · simpa [after, tickCount] using valid.ticks
      · simp only [Config.served_world, Config.served_history, after, printed_append, printed,
          valid.out, List.append_assoc, List.append_nil]
  | other keyboard after =>
      refine ⟨irq, heard, ?_, unread, progress (by rw [after]), valid.busy, ?_, ?_, drawn⟩
      · simpa [keyboard] using valid.conveyed
      · simpa [after, tickCount] using valid.ticks
      · simp only [Config.served_world, Config.served_history, after, printed_append, printed,
          valid.out, List.append_nil]

theorem Valid.step (valid : Valid report stale rest c) (stepped : Step c c') :
    Valid report stale rest c' := by
  cases stepped with
  | keySent scancode =>
      refine valid.devices (Devices.keySent_same _ scancode) (valid.heard.keySent ?_ scancode) ?_
      · intro left nothing
        have conveyed := valid.conveyed
        simp [valid.unread left, nothing, left] at conveyed
      · simp [Devices.keySent_waiting, ← List.append_assoc, valid.conveyed]
  | raise inside own =>
      refine valid.devices (Pair.raise_same _ _) (valid.heard.congr ?_ rfl) valid.conveyed
      simp [Devices.raise, Pair.requested_raise inside, own.symm]
  | withdraw inside own =>
      refine valid.devices (Pair.withdraw_same _ _) (valid.heard.congr ?_ rfl) valid.conveyed
      simp [Devices.withdraw, Pair.requested_withdraw inside, own.symm]
  | kmain alone ahead ran => exact valid.act alone ahead ran
  | enter ahead =>
      exact { valid with progress := valid.progress.of_setup rfl rfl rfl, busy := fun _ => ⟨_, _, ahead⟩ }
  | interrupt enabled alone returned => exact valid.interrupt enabled alone returned

theorem Valid.run (valid : Valid report stale rest c) (ran : Run c c') :
    Valid report stale rest c' := by
  induction ran with
  | refl => exact valid
  | tail _ stepped ih => exact ih.step stepped

/-- Once `kmain` has printed everything, no echo comes in the middle of its calls. -/
theorem Valid.settled (valid : Valid report stale rest c) (done : c.ahead = []) (ran : Run c c') :
    c'.ahead = [] ∧ c'.drawing = false ∧ c'.torn = c.torn := by
  induction ran with
  | refl =>
      refine ⟨done, ?_, rfl⟩
      cases inside : c.drawing with
      | false => rfl
      | true =>
          obtain ⟨ch, later, ahead⟩ := valid.busy inside
          rw [done] at ahead
          cases ahead
  | tail _ stepped ih =>
      obtain ⟨done, between, torn⟩ := ih
      cases stepped with
      | keySent | raise | withdraw => exact ⟨done, between, torn⟩
      | kmain _ ahead => rw [done] at ahead; cases ahead
      | enter ahead => rw [done] at ahead; cases ahead
      | interrupt => exact ⟨done, between, by simpa [Config.served, between] using torn⟩

end Steps

/-! ## The initialisation completes -/

section Completion

variable {report stale : List Byte} {rest : State} {c : Config}

theorem Valid.fits (valid : Valid report stale rest c) (fits : Fits rest.console)
    (whole : c.torn = false) : Fits c.world.rest.console := by
  obtain ⟨events, drawn, -⟩ := valid.shown whole
  obtain ⟨result, put, moved⟩ := Console.putAll_moved fits (displayed c.history)
  cases put.symm.trans drawn
  exact moved.fits

/-- The next call of `kmain` returns. -/
theorem Valid.returns (valid : Valid report stale rest c) (fits : Fits rest.console)
    (whole : c.torn = false) {action : Action} {later : List Action}
    (ahead : c.ahead = action :: later) : ∃ c', action.run consolePutc c = some c' := by
  cases action with
  | consolePutc ch =>
      obtain ⟨result, put, -⟩ := Console.consolePutc_moved (valid.fits fits whole) ch
      exact ⟨_, by rw [Action.run, put]; rfl⟩
  | timerInit frequency =>
      have setsUp := mem_kmain (valid.progress.member ahead) rfl
      have hundred : frequency = 100 := by
        simpa [archEnableIrqs] using setsUp
      exact ⟨_, by rw [hundred, Action.run, Drivers.timerInit, if_neg (by decide)]; rfl⟩
  | serialPutc ch => exact ⟨_, rfl⟩
  | keyboardInit => exact ⟨_, rfl⟩
  | picUnmaskIrq irq => exact ⟨_, rfl⟩
  | sti => exact ⟨_, rfl⟩

/-- When no more interrupts come, `kmain` gets to its end. -/
theorem Valid.completes (valid : Valid report stale rest c) (fits : Fits rest.console)
    (whole : c.torn = false) (between : c.drawing = false) :
    ∃ c', Run c c' ∧ c'.ahead = [] ∧ c'.torn = false ∧ c'.drawing = false ∧ c'.sent = c.sent ∧
      keys c'.history = keys c.history ∧ tickCount c'.history = tickCount c.history := by
  generalize left : c.ahead = actions
  induction actions generalizing c with
  | nil => exact ⟨c, .refl, left, whole, between, rfl, rfl, rfl⟩
  | cons action later ih =>
      obtain ⟨next, ran⟩ := valid.returns fits whole left
      have did := Action.run_made ran
      have stepped : Step c { next with ahead := later, drawing := false } :=
        .kmain (fun _ => rfl) left ran
      obtain ⟨c', onward, done, whole', between', sent, keys', ticks⟩ :=
        ih (valid.step stepped) (did.torn.trans whole) rfl rfl
      refine ⟨c', .head stepped onward, done, whole', between', sent.trans did.sent, ?_, ?_⟩
      · rw [keys', did.history, keys_append, keys_events, List.append_nil]
      · rw [ticks, did.history, tickCount_append, tickCount_events, Nat.add_zero]

/-- The initialisation goes through. -/
theorem kmain_completes (report : List Byte) (devices : Devices) (fits : Fits rest.console) :
    ∃ c, Run (start report devices rest) c ∧ c.enabled = true ∧ c.torn = false ∧
      c.drawing = false ∧ c.world.devices.keyboard.waiting = devices.keyboard.waiting ∧
      keys c.history = [] ∧ tickCount c.history = 0 := by
  have valid := start_valid report devices rest
  obtain ⟨c, ran, done, whole, between, sent, unread, ticks⟩ := valid.completes fits rfl rfl
  have valid' := valid.run ran
  have conveyed := valid'.conveyed
  have enabled : c.enabled = true := congrArg Setup.enabled (valid'.progress.complete done)
  rw [sent, unread, show (start report devices rest).sent = [] from rfl, List.append_nil] at conveyed
  exact ⟨c, ran, enabled, whole, between, conveyed.symm, unread, ticks⟩

end Completion

end ScrapOS.Drivers
