import HeaterLink.Registry
import HeaterLink.Session.Course

/-!
# Fleets

A fleet is a registry in time, with the course of every device that it ever made
and a log of everything it answered. Whoever registers a configuration in the
place of another keeps the registry to himself until the old device is
disconnected, so nobody sees the place in between. Whoever removes a device lets
go of the registry and waits then.
In between the devices take their steps in any order, those that were displaced
or removed as well, and the radio answers what it likes.
-/

set_option autoImplicit false

namespace HeaterLink

abbrev DeviceNumber := Nat

def Effect.outcomeOf? (c : CallId) : Effect → Option Outcome
  | .returned c' o => if c' = c then some o else none
  | _ => none

def Course.outcome? (x : Course) (c : CallId) : Option Outcome :=
  x.effects.findSome? (Effect.outcomeOf? c)

inductive Deed
  /-- A call of an old device disconnects it, so that a new one can take its place. -/
  | displacing (config : Config) (old : DeviceNumber) (call : CallId)
  | registered (config : Config) (device : DeviceNumber)
  | found (address : String) (device : Option DeviceNumber)
  /-- The device that is removed, and its call that disconnects it. -/
  | removed (address : String) (leaving : Option (DeviceNumber × CallId))
  | listed (addresses : List String)
  | counted (n : Nat)
  deriving DecidableEq

/-- A configuration that waits for the device in its place to be disconnected. -/
structure Displacement where
  config : Config
  old : DeviceNumber
  call : CallId
  deriving DecidableEq

structure Fleet where
  registry : Registry DeviceNumber
  courses : Table DeviceNumber Course
  next : DeviceNumber
  waiting : Option Displacement
  /-- Oldest first. -/
  log : List Deed

namespace Fleet

inductive Query
  | register (config : Config)
  | get (address : String)
  | remove (address : String)
  | list
  | count
  deriving DecidableEq

inductive Move
  | device (d : DeviceNumber) (a : Action)
  | ask (q : Query)
  /-- The device that was displaced is disconnected, and a new one takes its place. -/
  | place
  deriving DecidableEq

def empty : Fleet := ⟨[], [], 0, none, []⟩

def note (x : Fleet) (deed : Deed) : Fleet := { x with log := x.log ++ [deed] }

def onCourse (x : Fleet) (d : DeviceNumber) (c : Course) : Fleet :=
  { x with courses := x.courses.insert d c }

/-- Something happens to a device. Every device has a time of its own, which begins when it is
made, and a clock on the wall. -/
def drive? (walls : DeviceNumber → Nat → Clock) (x : Fleet) (d : DeviceNumber) (a : Action) :
    Option Fleet :=
  (x.courses.get? d).bind fun c => (c.take? (walls d) a).map (x.onCourse d)

def disconnect? (walls : DeviceNumber → Nat → Clock) (x : Fleet) (d : DeviceNumber) :
    Option (Fleet × CallId) :=
  (x.courses.get? d).bind fun c =>
    (x.drive? walls d (.invoke c.nextCall .disconnect)).map fun y => (y, c.nextCall)

def place (x : Fleet) (config : Config) : Fleet :=
  { x with
    registry := (x.registry.register config x.next).1
    courses := x.courses.insert x.next (Course.start config)
    next := x.next + 1
    waiting := none }.note (.registered config x.next)

def register? (walls : DeviceNumber → Nat → Clock) (x : Fleet) (config : Config) : Option Fleet :=
  match (x.registry.register config x.next).2 with
  | .kept d =>
    (x.drive? walls d (.setRatedPower config.ratedPower)).map (·.note (.registered config d))
  | .placed none => some (x.place config)
  | .placed (some old) =>
    (x.disconnect? walls old).map fun (y, call) =>
      { y with waiting := some ⟨config, old, call⟩ }.note (.displacing config old call)

def remove? (walls : DeviceNumber → Nat → Clock) (x : Fleet) (address : String) : Option Fleet :=
  match x.registry.remove address with
  | (_, none) => some (x.note (.removed address none))
  | (registry, some d) =>
    (x.disconnect? walls d).map fun (y, call) =>
      { y with registry := registry }.note (.removed address (some (d, call)))

def ask? (walls : DeviceNumber → Nat → Clock) (x : Fleet) : Query → Option Fleet
  | .register config => x.register? walls config
  | .get address => some (x.note (.found address ((x.registry.find? address).map (·.device))))
  | .remove address => x.remove? walls address
  | .list => some (x.note (.listed x.registry.addresses))
  | .count => some (x.note (.counted x.registry.length))

/-- The fleet behind a move, or nothing where it is not possible. While somebody keeps the
registry to himself nobody else gets at it. -/
def take? (walls : DeviceNumber → Nat → Clock) (x : Fleet) : Move → Option Fleet
  | .device d a => x.drive? walls d a
  | .ask q => if x.waiting.isSome then none else x.ask? walls q
  | .place =>
    x.waiting.bind fun w =>
      ((x.courses.get? w.old).bind (·.outcome? w.call)).map fun _ => x.place w.config

def run? (walls : DeviceNumber → Nat → Clock) (x : Fleet) : List Move → Option Fleet
  | [] => some x
  | m :: rest => (x.take? walls m).bind fun next => next.run? walls rest

def Reached (walls : DeviceNumber → Nat → Clock) (x : Fleet) : Prop :=
  ∃ moves, empty.run? walls moves = some x

theorem run?_append (walls : DeviceNumber → Nat → Clock) (x : Fleet) (first later : List Move) :
    x.run? walls (first ++ later) = (x.run? walls first).bind fun y => y.run? walls later := by
  induction first generalizing x with
  | nil => rfl
  | cons m rest ih => cases h : x.take? walls m <;> simp [run?, h, ih]

theorem reached_take? {walls : DeviceNumber → Nat → Clock} {x y : Fleet} {m : Move}
    (h : Reached walls x) (step : x.take? walls m = some y) : Reached walls y := by
  obtain ⟨moves, h⟩ := h
  exact ⟨moves ++ [m], by simp [run?_append, h, run?, step]⟩

theorem reached_induction {walls : DeviceNumber → Nat → Clock} {P : Fleet → Prop} (base : P empty)
    (step : ∀ x m y, Reached walls x → P x → x.take? walls m = some y → P y) :
    ∀ x, Reached walls x → P x := by
  suffices h : ∀ moves x y, Reached walls x → P x → x.run? walls moves = some y → P y by
    rintro x ⟨moves, hx⟩
    exact h moves _ x ⟨[], rfl⟩ base hx
  intro moves
  induction moves with
  | nil => intro x y _ hx hy; simp [run?] at hy; exact hy ▸ hx
  | cons m rest ih =>
    intro x y hr hx hy
    simp only [run?, Option.bind_eq_some_iff] at hy
    obtain ⟨z, hz, hy⟩ := hy
    exact ih z y (reached_take? hr hz) (step x m z hr hx hz) hy

/-- What the caller that removed a device is answered, once the disconnect has returned. -/
def removal? (x : Fleet) : Option (DeviceNumber × CallId) → Option (Except Fault Bool)
  | none => some (.ok false)
  | some (d, call) =>
    ((x.courses.get? d).bind (·.outcome? call)).map fun
      | .fault f => .error f
      | _ => .ok true

end Fleet

end HeaterLink
