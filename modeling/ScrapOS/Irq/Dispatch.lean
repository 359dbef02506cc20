import ScrapOS.Arch.Interrupt
import ScrapOS.Irq.Pic
import ScrapOS.Simulation.Basic

/-! `irq.c`: the table of handlers, the dispatch of an interrupt, and runs of a machine whose
devices request interrupts at any time. The handlers are function pointers: a type of names
and what a call of each one does. -/

set_option autoImplicit false

namespace ScrapOS.Irq

open Pic8259

/-- The devices, and whatever else the handlers act on. -/
structure World (Rest : Type) where
  devices : Devices
  rest : Rest

namespace World

variable {Rest : Type}

abbrev pics (world : World Rest) : Pair := world.devices.pics

def withPics (world : World Rest) (pics : Pair) : World Rest :=
  { world with devices := { world.devices with pics := pics } }

@[simp] theorem withPics_pics (world : World Rest) (pics : Pair) :
    (world.withPics pics).pics = pics := rfl

end World

def irqCount : Byte := 16

def irqVectorBase : Word := 32

section Source

variable {Handler Rest : Type}

/-- `handlers`: a line without a handler has the null pointer. -/
abbrev Handlers (Handler : Type) := Vector (Option Handler) 16

def noHandlers : Handlers Handler := Vector.replicate 16 none

def irqInstallHandler (irq : Byte) (handler : Option Handler) (handlers : Handlers Handler) :
    Handlers Handler :=
  if inside : irq < irqCount then handlers.set irq.toNat handler inside else handlers

/-- `none` when the handler does not return. -/
def irqDispatch (call : Handler → World Rest → Option (World Rest)) (handlers : Handlers Handler)
    (f : Arch.InterruptFrame) (world : World Rest) : Option (World Rest) :=
  let irq : Byte := (f.vector - irqVectorBase).setWidth 8
  let served :=
    if inside : irq < irqCount then
      match handlers.get ⟨irq.toNat, inside⟩ with
      | some handler => call handler world
      | none => some world
    else some world
  served.map fun world => { world with devices := picSendEoi irq world.devices }

/-- The CPU reads a vector from the controllers, the stub of the vector builds the frame of the
interrupted machine, and `irq_dispatch` is called with it. -/
def interrupt (call : Handler → World Rest → Option (World Rest)) (handlers : Handlers Handler)
    (dropped : Register) (interrupted : Arch.Machine) (world : World Rest) :
    Option (World Rest) :=
  irqDispatch call handlers
    (Arch.snapshot interrupted (world.pics.acknowledge dropped).1.toNat 0)
    (world.withPics (world.pics.acknowledge dropped).2)

/-- The call of the handler of a line, if it has one. -/
def serve (call : Handler → World Rest → Option (World Rest)) (handlers : Handlers Handler)
    (line : Nat) (world : World Rest) : Option (World Rest) :=
  match handlers[line]? with
  | some (some handler) => call handler world
  | _ => some world

end Source

/-! ## What one interrupt does -/

section Interrupt

variable {Handler Rest : Type} {call : Handler → World Rest → Option (World Rest)}
  {handlers : Handlers Handler} {world world' : World Rest} {line : Nat}

/-- The byte that `irq_dispatch` computes is the line that the vector stands for. -/
theorem dispatched_line (inside : line < 16) :
    ((BitVec.ofNat 64 (32 + line) - irqVectorBase).setWidth 8 : Byte) = BitVec.ofNat 8 line := by
  interval_cases line <;> rfl

theorem irqDispatch_eq (inside : line < 16) (interrupted : Arch.Machine) (errorCode : Word) :
    irqDispatch call handlers (Arch.snapshot interrupted (32 + line) errorCode) world =
      (serve call handlers line world).map fun world => world.withPics (world.pics.ended line) := by
  have line8 : (BitVec.ofNat 8 line).toNat = line := by
    rw [BitVec.toNat_ofNat, Nat.mod_eq_of_lt (by omega)]
  have known : BitVec.ofNat 8 line < irqCount := by
    change (BitVec.ofNat 8 line).toNat < 16
    rwa [line8]
  unfold irqDispatch
  simp only [Arch.snapshot, dispatched_line inside, known, dite_true, picSendEoi_eq, line8]
  have found : handlers[line]? = some handlers[line] := Vector.getElem?_eq_getElem inside
  unfold serve
  rw [found]
  have same : handlers.get ⟨line, inside⟩ = handlers[line] := rfl
  cases handler : handlers[line] with
  | none => simp [same, handler, World.withPics]
  | some handler => simp [same, handler, World.withPics]

/-- The line of an interrupt, the call of its handler, and its end. -/
theorem interrupt_eq (call : Handler → World Rest → Option (World Rest))
    (handlers : Handlers Handler) (cascaded : world.pics.Cascaded masterBase slaveBase)
    (quiet : world.pics.Quiet) (dropped : Register) (interrupted : Arch.Machine) :
    ∃ line < 16, (world.pics.acknowledge dropped).1.toNat = 32 + line ∧
      Pair.Taken world.pics dropped line ((world.pics.acknowledge dropped).2.ended line) ∧
      interrupt call handlers dropped interrupted world =
        (serve call handlers line (world.withPics (world.pics.acknowledge dropped).2)).map
          fun world => world.withPics (world.pics.ended line) := by
  obtain ⟨line, inside, vector, taken⟩ := Pair.acknowledge_taken cascaded quiet dropped
  have number : (world.pics.acknowledge dropped).1.toNat = 32 + line := by
    rw [vector, vectorOf_toNat inside]
  refine ⟨line, inside, number, taken, ?_⟩
  unfold interrupt
  rw [number, irqDispatch_eq inside]

/-- A handler may change what the devices request. It does not set up a controller, and it does
not end its interrupt: `irq_dispatch` does that. -/
def Modest (call : Handler → World Rest → Option (World Rest)) : Prop :=
  ∀ handler world world', call handler world = some world' → world.pics.SameSetup world'.pics

theorem serve_same (modest : Modest call) (served : serve call handlers line world = some world') :
    world.pics.SameSetup world'.pics := by
  unfold serve at served
  split at served
  · exact modest _ _ _ served
  · cases served
    exact ⟨_, _, rfl⟩

/-- The controllers are left as they were, apart from what is requested. -/
theorem interrupt_same (modest : Modest call)
    (cascaded : world.pics.Cascaded masterBase slaveBase) (quiet : world.pics.Quiet)
    {dropped : Register} {interrupted : Arch.Machine}
    (returned : interrupt call handlers dropped interrupted world = some world') :
    world.pics.SameSetup world'.pics := by
  obtain ⟨line, -, -, taken, ran⟩ :=
    interrupt_eq call handlers cascaded quiet dropped interrupted
  rw [ran, Option.map_eq_some_iff] at returned
  obtain ⟨served, handled, rfl⟩ := returned
  exact taken.same.trans (Pair.ended_same (serve_same modest handled) line)

end Interrupt

/-! ## Runs -/

/-- A state of a run; `opened` are the lines that were unmasked so far. -/
structure Config (Handler Rest : Type) where
  world : World Rest
  handlers : Handlers Handler
  opened : List Nat

section Runs

variable {Handler Rest : Type} (call : Handler → World Rest → Option (World Rest))

inductive Step : Config Handler Rest → Config Handler Rest → Prop where
  /-- The devices request what they like and withdraw it, and the rest goes on. -/
  | devices {c : Config Handler Rest} {world' : World Rest} :
      c.world.pics.SameSetup world'.pics → Step c { c with world := world' }
  | unmask {c : Config Handler Rest} (irq : Byte) : irq.toNat < 16 →
      Step c
        { c with
          world := { c.world with devices := picUnmaskIrq irq c.world.devices }
          opened := irq.toNat :: c.opened }
  | install {c : Config Handler Rest} (irq : Byte) (handler : Option Handler) :
      Step c { c with handlers := irqInstallHandler irq handler c.handlers }
  | interrupt {c : Config Handler Rest} {dropped : Register} {interrupted : Arch.Machine}
      {world' : World Rest} :
      interrupt call c.handlers dropped interrupted c.world = some world' →
      Step c { c with world := world' }

abbrev Run : Config Handler Rest → Config Handler Rest → Prop := Relation.ReflTransGen (Step call)

/-- After `pic_remap`, whatever the controllers were doing before. -/
def start (devices : Devices) (rest : Rest) : Config Handler Rest where
  world := { devices := picRemap devices, rest }
  handlers := noHandlers
  opened := []

/-- The controllers are set up, no interrupt is unfinished, and exactly the lines that were not
unmasked are masked. -/
structure Valid (c : Config Handler Rest) : Prop where
  cascaded : c.world.pics.Cascaded masterBase slaveBase
  quiet : c.world.pics.Quiet
  masked : ∀ line < 16, c.world.pics.masked line = decide (line ∉ c.opened)

variable {call} {c c' : Config Handler Rest}

theorem start_valid (devices : Devices) (rest : Rest) :
    Valid (start devices rest : Config Handler Rest) where
  cascaded := picRemap_cascaded devices
  quiet := picRemap_quiet devices
  masked := fun line inside => by simp [start, picRemap_masked devices inside]

theorem Valid.same (valid : Valid c) {world' : World Rest}
    (same : c.world.pics.SameSetup world'.pics) : Valid { c with world := world' } where
  cascaded := same.cascaded valid.cascaded
  quiet := same.quiet valid.quiet
  masked := fun line inside => by
    rw [same.masked]
    exact valid.masked line inside

theorem Valid.step (modest : Modest call) (valid : Valid c) (stepped : Step call c c') :
    Valid c' := by
  cases stepped with
  | devices same => exact valid.same same
  | unmask irq inside =>
      refine ⟨picUnmaskIrq_cascaded valid.cascaded inside,
        picUnmaskIrq_quiet valid.cascaded inside valid.quiet, fun line small => ?_⟩
      have one := picUnmaskIrq_masked valid.cascaded inside line
      simp only [valid.masked line small] at one
      simp [one, Bool.and_comm]
  | install => exact ⟨valid.cascaded, valid.quiet, valid.masked⟩
  | interrupt returned =>
      exact valid.same (interrupt_same modest valid.cascaded valid.quiet returned)

theorem Valid.run (modest : Modest call) (valid : Valid c) (ran : Run call c c') : Valid c' := by
  induction ran with
  | refl => exact valid
  | tail _ stepped ih => exact ih.step modest stepped

/-- A device waits on the line, and the line was unmasked: on the slave together with the line
of the master that the slave stands on. -/
structure Waiting (c : Config Handler Rest) (line : Nat) : Prop where
  requested : c.world.pics.requested line = true
  opened : line ∈ c.opened
  own : line ≠ Pair.cascade
  through : 8 ≤ line → Pair.cascade ∈ c.opened

theorem Valid.opened_iff (valid : Valid c) {line : Nat} (inside : line < 16) :
    line ∈ c.opened ↔ c.world.pics.masked line = false := by
  rw [valid.masked line inside]
  simp

theorem Valid.waiting_iff (valid : Valid c) {line : Nat} (inside : line < 16) :
    Waiting c line ↔ c.world.pics.Deliverable line := by
  have cascadeOpened := valid.opened_iff (by decide : Pair.cascade < 16)
  constructor
  · intro ⟨requested, opened, own, through⟩
    exact ⟨requested, (valid.opened_iff inside).mp opened, fun _ => own,
      fun large => cascadeOpened.mp (through large)⟩
  · intro ⟨requested, unmasked, own, through⟩
    refine ⟨requested, (valid.opened_iff inside).mpr unmasked, fun same => ?_,
      fun large => cascadeOpened.mpr (through large)⟩
    exact own (same ▸ by decide) same

end Runs

section Served

variable {Handler Rest : Type} {call : Handler → World Rest → Option (World Rest)}
  {c : Config Handler Rest}

/-- However requests, unmasking, handlers and interrupts follow one another, no interrupt is left
unfinished, and every interrupt calls the handler of one line: the waiting one of the highest
priority, unless the request went away while the CPU asked for it. -/
theorem irqs_never_wedge (modest : Modest call) (devices : Devices) (rest : Rest)
    (ran : Run call (start devices rest) c) (dropped : Register) (interrupted : Arch.Machine) :
    c.world.pics.Quiet ∧
    ∃ line < 16, (c.world.pics.acknowledge dropped).1.toNat = 32 + line ∧
      interrupt call c.handlers dropped interrupted c.world =
        (serve call c.handlers line (c.world.withPics (c.world.pics.acknowledge dropped).2)).map
          (fun world => world.withPics (world.pics.ended line)) ∧
      (line ≠ 7 → line ≠ 15 → Waiting c line) ∧
      (dropped = 0 →
        (Waiting c line ∧ ∀ other < 16, Waiting c other → Pair.rank line ≤ Pair.rank other) ∨
          (line = 7 ∧ ∀ other < 16, ¬ Waiting c other)) := by
  have valid := (start_valid devices rest).run modest ran
  obtain ⟨line, inside, vector, taken, served⟩ :=
    interrupt_eq call c.handlers valid.cascaded valid.quiet dropped
      interrupted
  refine ⟨valid.quiet, line, inside, vector, served, fun real real' => ?_, fun none => ?_⟩
  · exact (valid.waiting_iff inside).mpr (taken.deliverable valid.quiet real real')
  · subst none
    cases taken.first valid.quiet with
    | inl best =>
        obtain ⟨deliverable, least⟩ := best
        exact .inl ⟨(valid.waiting_iff inside).mpr deliverable, fun other small waiting =>
          least other small ((valid.waiting_iff small).mp waiting)⟩
    | inr spurious =>
        obtain ⟨last, -, nothing⟩ := spurious
        exact .inr ⟨last, fun other small waiting =>
          nothing other ((valid.waiting_iff small).mp waiting)⟩

/-- A handler that only counts. -/
def counting : Unit → World Nat → Option (World Nat) :=
  fun _ world => some { world with rest := world.rest + 1 }

theorem counting_modest : Modest counting := by
  intro handler world world' counted
  cases counted
  exact ⟨_, _, rfl⟩

/-- Controllers that nobody set up yet. -/
def unset : Chip where
  stage := .vectors
  single := true
  fourth := false
  vectorBase := 8
  wiring := 0
  mode := 0
  mask := 0
  requests := 0x82
  inService := 1

def powerOn : Devices where
  pics := { master := unset, slave := unset }
  pit := { control := 0, low := none, reload := 0 }
  keyboard := { waiting := [], last := 0 }

/-- Line 1 has a handler, it is open, and its device waits. -/
def waitingKey : Config Unit Nat :=
  let begun : Config Unit Nat := start powerOn 0
  let devices := picUnmaskIrq 1 begun.world.devices
  { world := { devices := devices.raise 1, rest := 0 }
    handlers := irqInstallHandler 1 (some ()) begun.handlers
    opened := [1] }

theorem waitingKey_run : Run counting (start powerOn 0) waitingKey := by
  refine .tail (.tail (.tail .refl (.install 1 (some ()))) (.unmask 1 (by decide))) ?_
  exact .devices (Pair.raise_same _ 1)

theorem irqs_never_wedge_key : waitingKey.world.pics.Quiet ∧
    ∃ line < 16, (waitingKey.world.pics.acknowledge 0).1.toNat = 32 + line ∧
      (Waiting waitingKey line ∨ line = 7) := by
  obtain ⟨quiet, line, inside, vector, -, -, best⟩ :=
    irqs_never_wedge counting_modest powerOn 0 waitingKey_run 0 Arch.idle
  refine ⟨quiet, line, inside, vector, ?_⟩
  cases best rfl with
  | inl best => exact .inl best.1
  | inr last => exact .inr last.1

end Served

end ScrapOS.Irq
