import ScrapOS.Drivers.Runs

/-! What the devices' interrupts come to over any run: the keys that were sent are echoed once
and in order, a byte left in the keyboard controller silences the keyboard, and the heartbeat
lines number the seconds. -/

set_option autoImplicit false

namespace ScrapOS.Drivers

open Console (Fits consolePutc putAll consoleInit)
open Irq (Devices)
open Pic8259 (Pair Register)

/-! ## The next interrupt -/

section Next

variable {report stale : List Byte} {rest : State} {c : Config}

theorem Valid.waiting (valid : Valid report stale rest c) (enabled : c.enabled = true) {line : Nat} :
    Irq.Waiting c.irq line ↔ c.world.pics.requested line = true ∧ (line = 0 ∨ line = 1) := by
  have opened : c.irq.opened = [1, 0] := congrArg Setup.opened (valid.progress.live enabled)
  constructor
  · intro ⟨requested, member, _, _⟩
    refine ⟨requested, ?_⟩
    simpa [opened, or_comm] using member
  · intro ⟨requested, which⟩
    refine ⟨requested, by simpa [opened, or_comm] using which, ?_, fun large => by omega⟩
    unfold Pair.cascade
    omega

/-- While a byte waits, the next interrupt returns, and it is for the timer if that asks, and
otherwise for the first byte. -/
theorem Valid.next (valid : Valid report [] rest c) (fits : Fits rest.console)
    (whole : c.torn = false) (enabled : c.enabled = true) {scancode : Byte} {more : List Byte}
    (waiting : c.world.devices.keyboard.waiting = scancode :: more) (buf : Vector Byte 20)
    (interrupted : Arch.Machine) :
    ∃ world', Irq.interrupt (call consolePutc buf) c.irq.handlers 0 interrupted c.world = some world' ∧
      eventOf (c.world.pics.acknowledge 0).1 c.world.devices =
        if c.world.pics.requested 0 = true then .tick else .key scancode := by
  have asked : c.world.pics.requested 1 = true := by
    have heard := valid.heard
    rw [Heard, if_pos rfl] at heard
    exact heard.mpr (by simp [waiting])
  obtain ⟨line, inside, number, -, -, ran⟩ :=
    interrupt_line valid.irq valid.progress enabled consolePutc buf 0 interrupted
  obtain ⟨line', inside', vector, taken⟩ :=
    Pair.acknowledge_taken valid.irq.cascaded valid.irq.quiet 0
  have same : line' = line := by
    rw [vector, Irq.vectorOf_toNat inside'] at number
    omega
  subst same
  have key : Irq.Waiting c.irq 1 := (valid.waiting enabled).mpr ⟨asked, .inr rfl⟩
  have keyDeliverable := (valid.irq.waiting_iff (by decide : 1 < 16)).mp key
  have own : Irq.Waiting c.irq line' ∧ (c.world.pics.requested 0 = true → line' = 0) := by
    cases taken.first valid.irq.quiet with
    | inl best =>
        obtain ⟨deliverable, least⟩ := best
        refine ⟨(valid.irq.waiting_iff inside).mpr deliverable, fun timer => ?_⟩
        have tick : Irq.Waiting c.irq 0 := (valid.waiting enabled).mpr ⟨timer, .inl rfl⟩
        have before := least 0 (by decide) ((valid.irq.waiting_iff (by decide)).mp tick)
        simp only [Pair.rank, Pair.cascade, Nat.ofNat_pos, if_true, Nat.mul_zero] at before
        split at before <;> omega
    | inr spurious => exact absurd keyDeliverable (spurious.2.2 1)
  obtain ⟨requested, which⟩ := (valid.waiting enabled).mp own.1
  rw [ran, eventOf_line number]
  cases which with
  | inl zero =>
      subst zero
      simp only [if_true, timerIrq_eq, Option.map_some, requested]
      exact ⟨_, rfl, trivial⟩
  | inr one =>
      subst one
      have quiet : ¬ c.world.pics.requested 0 = true := fun timer => by
        cases own.2 timer
      have head := (Devices.readKeyboard_cons waiting).1
      obtain ⟨result, put, -⟩ := Console.putAll_moved (valid.fits fits whole)
        (echo ((c.world.withPics (c.world.pics.acknowledge 0).2).devices.readKeyboard.1))
      have put' : putAll (c.world.withPics (c.world.pics.acknowledge 0).2).rest.console
        (echo ((c.world.withPics (c.world.pics.acknowledge 0).2).devices.readKeyboard.1)) =
          some result := put
      simp only [one_ne_zero, if_false, if_true, keyboardIrq_eq, putEach_consolePutc, put',
        Option.map_some, quiet, head]
      exact ⟨_, rfl, rfl⟩

end Next

/-! ## The keyboard -/

section Keyboard

variable {rest : State} {c : Config}

/-- When no byte waits at `pic_remap`, the bytes of the keyboard are read once and in order. The
serial line carries their characters, the heartbeats and the lines of `kmain` in the order in which
they were put, and those of `kmain` are the ones that it has to print. As long as no echo comes in
the middle of a `console_putc` of `kmain`, the console shows its characters and the echoes in that
order too, and a byte that still waits comes with the next interrupt that the timer leaves. After
the last line of `kmain` no echo comes so. -/
theorem keys_echoed_in_order (report : List Byte) (devices : Devices)
    (empty : devices.keyboard.waiting = []) (fits : Fits rest.console)
    (ran : Run (start report devices rest) c) :
    c.sent = keys c.history ++ c.world.devices.keyboard.waiting ∧
    c.world.rest.out = rest.out ++ printed 100 rest.ticks c.history ∧
    c.history.filter Event.own ++ c.ahead.flatMap Action.events =
      (kmain report).flatMap Action.events ∧
    (c.torn = false →
      (∃ events, putAll rest.console (displayed c.history) = some (c.world.rest.console, events) ∧
        c.world.rest.drawn = rest.drawn ++ events) ∧
      (c.enabled = true → c.drawing = false → ∀ scancode more,
        c.world.devices.keyboard.waiting = scancode :: more → ∀ buf interrupted, ∃ world',
          Irq.interrupt (call consolePutc buf) c.irq.handlers 0 interrupted c.world = some world' ∧
          eventOf (c.world.pics.acknowledge 0).1 c.world.devices =
            if c.world.pics.requested 0 = true then .tick else .key scancode)) ∧
    (c.ahead = [] → ∀ c', Run c c' → c'.torn = c.torn) := by
  have valid := (start_valid report devices rest).run ran
  rw [empty] at valid
  refine ⟨valid.conveyed, valid.out, valid.progress.told, fun whole => ⟨valid.shown whole, ?_⟩,
    fun done c' onward => (valid.settled done onward).2.2⟩
  intro enabled _ scancode more waiting buf interrupted
  exact valid.next fits whole enabled waiting buf interrupted

/-- A screen of two cells by two, on which nothing was printed. -/
def blankState : State where
  ticks := 0
  tickHz := 0
  console := (consoleInit Console.bootGlobals 0xffff800000000000 20 20 96 32).1
  drawn := []
  out := []

theorem blankState_fits : Fits blankState.console :=
  Console.consoleInit_fits Console.bootGlobals 0xffff800000000000 Console.smallScreen_geometry

/-- What `kmain` writes on the console before `arch_init`. -/
def banner : List Byte :=
  text "ScrapOS\n" ++ text "framebuffer text console up - type and it echoes here\n\n"

theorem keys_echoed_in_order_letter : ∃ rest c,
    putAll blankState.console banner = some (rest.console, rest.drawn) ∧
    Run (start [] Irq.powerOn rest) c ∧ c.torn = false ∧
    ∀ buf interrupted, ∃ world',
      Irq.interrupt (call consolePutc buf) c.irq.handlers 0 interrupted c.world = some world' ∧
      eventOf (c.world.pics.acknowledge 0).1 c.world.devices =
        if c.world.pics.requested 0 = true then .tick else .key 0x1e := by
  obtain ⟨⟨console, drawn⟩, printed, moved⟩ := Console.putAll_moved blankState_fits banner
  have fits : Fits { blankState with console, drawn : State }.console := moved.fits
  obtain ⟨c, ran, enabled, whole, between, keyboard, -⟩ := kmain_completes [] Irq.powerOn fits
  have sent := ran.tail (.keySent 0x1e)
  have waiting : (c.world.devices.keySent 0x1e).keyboard.waiting = [0x1e] := by
    rw [Devices.keySent_waiting, keyboard]
    rfl
  obtain ⟨-, -, -, next, -⟩ := keys_echoed_in_order [] Irq.powerOn rfl fits sent
  exact ⟨_, _, printed, sent, whole, (next whole).2 enabled between 0x1e [] waiting⟩

end Keyboard

/-- A byte that waits in the keyboard controller at `pic_remap` silences it: whatever is typed
afterwards waits behind that byte, and the keyboard never interrupts. -/
theorem stale_byte_silences_keyboard (report : List Byte) (devices : Devices) (rest : State)
    (stale : devices.keyboard.waiting ≠ []) {c : Config} (ran : Run (start report devices rest) c) :
    keys c.history = [] ∧ c.world.devices.keyboard.waiting = devices.keyboard.waiting ++ c.sent ∧
      ∀ dropped, c.enabled = true →
        keys [eventOf (c.world.pics.acknowledge dropped).1 c.world.devices] = [] := by
  have valid := (start_valid report devices rest).run ran
  have unread := valid.unread stale
  refine ⟨unread, ?_, fun dropped enabled => ?_⟩
  · simpa [unread] using valid.conveyed.symm
  · obtain ⟨line, -, number, -, asked, -⟩ :=
      interrupt_line valid.irq valid.progress enabled consolePutc (Vector.replicate 20 0) dropped
        Arch.idle
    have own : line ≠ 1 := fun same => stale (valid.heard.asked (asked same)).1
    rw [eventOf_line number]
    by_cases tick : line = 0 <;> simp [tick, own]

/-- A controller in which the release of a key was never read. -/
def leftOver : Devices := { Irq.powerOn with keyboard := { waiting := [0x9c], last := 0 } }

theorem stale_byte_silences_letter : ∃ c, Run (start [] leftOver blankState) c ∧
    c.enabled = true ∧ keys c.history = [] ∧
      c.world.devices.keyboard.waiting = leftOver.keyboard.waiting ++ c.sent := by
  obtain ⟨c, ran, enabled, -⟩ := kmain_completes [] leftOver blankState_fits
  have sent := ran.tail (.keySent 0x1e)
  obtain ⟨unread, waiting, -⟩ := stale_byte_silences_keyboard [] leftOver blankState (by decide) sent
  exact ⟨_, sent, enabled, unread, waiting⟩

/-! ## The timer -/

/-- The line at the end of a second. -/
def secondLine (second : Nat) : List Byte :=
  text "[timer] tick " ++ decimal.numeral second ++ text "s\n"

section Timer

variable {hz : BitVec 32} {history : List Event}

theorem heartbeat_ofNat (positive : hz ≠ 0) {n : Nat} (bounded : n < 2 ^ 64) :
    heartbeat hz (BitVec.ofNat 64 n) = if hz.toNat ∣ n then secondLine (n / hz.toNat) else [] := by
  have wide : (hz.setWidth 64).toNat = hz.toNat := by
    rw [BitVec.toNat_setWidth, Nat.mod_eq_of_lt (Nat.lt_trans hz.isLt (by decide))]
  have count : (BitVec.ofNat 64 n).toNat = n := by
    rw [BitVec.toNat_ofNat, Nat.mod_eq_of_lt bounded]
  have whole : BitVec.ofNat 64 n % hz.setWidth 64 = 0 ↔ hz.toNat ∣ n := by
    rw [← BitVec.toNat_inj, BitVec.toNat_umod, wide, count]
    exact Nat.dvd_iff_mod_eq_zero.symm
  unfold heartbeat secondLine
  simp only [positive, ne_eq, not_false_eq_true, true_and, whole, BitVec.toNat_udiv, wide, count]

/-- The lines of a run of ticks are those of the seconds that passed. -/
theorem printed_ticks (positive : hz ≠ 0) {n : Nat} (bounded : n < 2 ^ 64) :
    printed hz 0 (List.replicate n .tick) =
      wire ((List.range (n / hz.toNat)).flatMap fun second => secondLine (second + 1)) := by
  induction n with
  | zero => simp [printed, wire]
  | succ n ih =>
      have counted : tickCount (List.replicate n Event.tick) = n := List.count_replicate_self
      have next : (0 : Word) + BitVec.ofNat 64 n + 1 = BitVec.ofNat 64 (n + 1) := by
        rw [BitVec.ofNat_add]
        exact congrArg (· + 1) (BitVec.zero_add _)
      rw [List.replicate_succ', printed_append, ih (by omega), counted, printed, next,
        heartbeat_ofNat positive bounded, Nat.succ_div]
      split
      · next whole =>
        simp [List.range_succ, printed]
      · simp [printed, wire]

/-- The ticks of a history print what a run of as many ticks prints. -/
theorem printed_filter_tick : printed hz 0 (history.filter (· = .tick)) =
    printed hz 0 (List.replicate (tickCount history) .tick) := by
  rw [List.filter_eq, tickCount]

/-- The tick count is the number of timer interrupts, and the lines that they print number the
seconds: one for each hundred ticks, and none left out or repeated. Between them the serial line
carries the echoes and what `kmain` prints. -/
theorem heartbeats_count_seconds (report : List Byte) (devices : Devices) (rest : State)
    (zero : rest.ticks = 0) {c : Config} (ran : Run (start report devices rest) c)
    (bounded : tickCount c.history < 2 ^ 64) :
    c.world.rest.ticks.toNat = tickCount c.history ∧
      c.world.rest.out = rest.out ++ printed 100 0 c.history ∧
      printed 100 0 (c.history.filter (· = .tick)) =
        wire ((List.range (tickCount c.history / 100)).flatMap fun second =>
          secondLine (second + 1)) ∧
      c.history.filter Event.own ++ c.ahead.flatMap Action.events =
        (kmain report).flatMap Action.events := by
  have valid := (start_valid report devices rest).run ran
  have ticks := valid.ticks
  have out := valid.out
  rw [zero] at ticks out
  refine ⟨?_, out, ?_, valid.progress.told⟩
  · rw [ticks, BitVec.toNat_add, BitVec.toNat_ofNat, Nat.mod_eq_of_lt bounded]
    exact (congrArg (· % 2 ^ 64) (Nat.zero_add _)).trans (Nat.mod_eq_of_lt bounded)
  · rw [printed_filter_tick, printed_ticks (by decide) bounded]
    rfl

theorem heartbeats_count_seconds_start : ∃ c, Run (start [] Irq.powerOn blankState) c ∧
    c.enabled = true ∧ c.world.rest.ticks.toNat = tickCount c.history := by
  obtain ⟨c, ran, enabled, -, -, -, -, none⟩ := kmain_completes [] Irq.powerOn blankState_fits
  have few : tickCount c.history < 2 ^ 64 := by
    rw [none]
    decide
  exact ⟨c, ran, enabled, (heartbeats_count_seconds [] Irq.powerOn blankState rfl ran few).1⟩

/-! ## The rate of the timer -/

end Timer

end ScrapOS.Drivers
