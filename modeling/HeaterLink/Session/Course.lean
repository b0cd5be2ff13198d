import HeaterLink.Session.Poll

/-!
# Courses of a session

A course is a session in time, together with everything that happened to it
and everything it did. Its calls and listeners take their steps in any order,
the radio answers what it likes and when it likes, and fragments arrive while
there is room for them. A property of every run of a session is a property of
every course that is reached from a new one, however the steps and the passing
of time are mixed. On a clock that waits, time passes only while no step is
possible, and never beyond the next alarm.
-/

set_option autoImplicit false

namespace HeaterLink

inductive Action
  | invoke (call : CallId) (request : Request)
  | poll (call : CallId)
  | listen (stream : StreamId)
  /-- The lookup of a call finds a new handle, or nothing. -/
  | resolve (call : CallId) (found : Option Handle)
  /-- Any other radio call ends, well or with a fault. -/
  | complete (call : CallId) (fault : Option Fault)
  | deliver (stream : StreamId) (data : Bytes)
  | closeStream (stream : StreamId)
  | report (handle : Handle) (up : Bool)
  | setRatedPower (watts : UInt32)
  | pass (ms : Nat)
  deriving DecidableEq

structure Entry where
  time : Nat
  action : Action
  before : Session
  effects : List Effect

structure Course where
  now : Nat
  nextCall : CallId
  nextHandle : Handle
  session : Session
  /-- Oldest first. -/
  history : List Entry

namespace Course

def start (config : Config) : Course where
  now := 0
  nextCall := 0
  nextHandle := 0
  session := Session.new config
  history := []

def effects (x : Course) : List Effect := x.history.flatMap Entry.effects

def moment (wall : Nat → Clock) (x : Course) : Moment := ⟨x.now, x.history.length, wall x.now⟩

/-- The stage of a call whose radio call has not been answered yet. -/
def unanswered? (x : Course) (c : CallId) : Option Stage :=
  (x.session.calls.get? c).bind fun call =>
    if call.answer = none ∧ call.stage.awaitsRadio = true then some call.stage else none

def hasRoom (x : Course) (i : StreamId) : Bool :=
  (x.session.streams.get? i).any fun s => s.fed && s.fragments.length < Stream.capacity

def react? (wall : Nat → Clock) (x : Course) : Action → Option (Session × List Effect)
  | .invoke c r => if c = x.nextCall then some (x.session.invoke c r, []) else none
  | .poll c => x.session.poll (x.moment wall) c
  | .listen i => x.session.listen i
  | .resolve c found =>
    match x.unanswered? c with
    | some (.seeking _) =>
      if found.all (· = x.nextHandle) then some (x.session.answer c (.found found), []) else none
    | _ => none
  | .complete c fault =>
    match x.unanswered? c with
    | none => none
    | some (.seeking _) => none
    | some _ => some (x.session.answer c (.finished fault), [])
  | .deliver i data => if x.hasRoom i then some (x.session.deliver i data, []) else none
  | .closeStream i => some (x.session.closeStream i, [])
  | .report h up => some (x.session.report h up, [])
  | .setRatedPower watts => some (x.session.setRatedPower watts, [])
  | .pass _ => some (x.session, [])

def advance (x : Course) : Action → Course
  | .invoke c _ => { x with nextCall := c + 1 }
  | .resolve _ (some h) => { x with nextHandle := h + 1 }
  | .pass ms => { x with now := x.now + ms }
  | _ => x

def take? (wall : Nat → Clock) (x : Course) (a : Action) : Option Course :=
  (x.react? wall a).map fun after =>
    { x.advance a with
      session := after.1
      history := x.history ++ [⟨x.now, a, x.session, after.2⟩] }

def run? (wall : Nat → Clock) (x : Course) : List Action → Option Course
  | [] => some x
  | a :: rest => (x.take? wall a).bind fun next => next.run? wall rest

def Reached (wall : Nat → Clock) (config : Config) (x : Course) : Prop :=
  ∃ actions, (start config).run? wall actions = some x

/-- Whether a call or a listener can take a step now. A lookup takes no time. -/
def busy (wall : Nat → Clock) (x : Course) : Bool :=
  x.session.calls.any (fun (c, call) =>
      (x.session.poll (x.moment wall) c).isSome || call.stage matches .seeking _) ||
    x.session.streams.keys.any fun i => (x.session.listen i).isSome

def calmUntil (x : Course) (time : Nat) : Bool :=
  x.session.calls.all fun (_, call) => call.stage.alarm?.all fun a => time ≤ a.due

def inTime (wall : Nat → Clock) (x : Course) : Action → Bool
  | .pass ms => !x.busy wall && x.calmUntil (x.now + ms)
  | _ => true

def runInTime? (wall : Nat → Clock) (x : Course) : List Action → Option Course
  | [] => some x
  | a :: rest =>
    if x.inTime wall a then (x.take? wall a).bind fun next => next.runInTime? wall rest else none

/-- The courses that a new session can take on a clock that waits. -/
def ReachedInTime (wall : Nat → Clock) (config : Config) (x : Course) : Prop :=
  ∃ actions, (start config).runInTime? wall actions = some x

theorem run?_append (wall : Nat → Clock) (x : Course) (first later : List Action) :
    x.run? wall (first ++ later) = (x.run? wall first).bind fun y => y.run? wall later := by
  induction first generalizing x with
  | nil => rfl
  | cons a rest ih => cases h : x.take? wall a <;> simp [run?, h, ih]

theorem reached_start (wall : Nat → Clock) (config : Config) : Reached wall config (start config) :=
  ⟨[], rfl⟩

theorem reached_take? {wall : Nat → Clock} {config : Config} {x y : Course} {a : Action}
    (h : Reached wall config x) (step : x.take? wall a = some y) : Reached wall config y := by
  obtain ⟨actions, h⟩ := h
  exact ⟨actions ++ [a], by simp [run?_append, h, run?, step]⟩

theorem reached_induction {wall : Nat → Clock} {config : Config} {P : Course → Prop}
    (base : P (start config))
    (step : ∀ x a y, Reached wall config x → P x → x.take? wall a = some y → P y) :
    ∀ x, Reached wall config x → P x := by
  suffices h : ∀ actions x y, Reached wall config x → P x → x.run? wall actions = some y → P y by
    rintro x ⟨actions, hx⟩
    exact h actions _ x (reached_start wall config) base hx
  intro actions
  induction actions with
  | nil => intro x y _ hx hy; simp [run?] at hy; exact hy ▸ hx
  | cons a rest ih =>
    intro x y hr hx hy
    simp only [run?, Option.bind_eq_some_iff] at hy
    obtain ⟨z, hz, hy⟩ := hy
    exact ih z y (reached_take? hr hz) (step x a z hr hx hz) hy

theorem take?_eq_some {wall : Nat → Clock} {x y : Course} {a : Action}
    (h : x.take? wall a = some y) :
    ∃ s effects, x.react? wall a = some (s, effects) ∧
      y = { x.advance a with
        session := s
        history := x.history ++ [⟨x.now, a, x.session, effects⟩] } := by
  obtain ⟨⟨s, effects⟩, hr, hy⟩ := Option.map_eq_some_iff.mp h
  exact ⟨s, effects, hr, hy.symm⟩

theorem run?_of_runInTime? {wall : Nat → Clock} {x y : Course} {actions : List Action}
    (h : x.runInTime? wall actions = some y) : x.run? wall actions = some y := by
  induction actions generalizing x with
  | nil => exact h
  | cons a rest ih =>
    simp only [runInTime?] at h
    split at h
    · obtain ⟨z, hz, hy⟩ := Option.bind_eq_some_iff.mp h
      simp [run?, hz, ih hy]
    · cases h

theorem reached_of_inTime {wall : Nat → Clock} {config : Config} {x : Course}
    (h : ReachedInTime wall config x) : Reached wall config x :=
  h.imp fun _ => run?_of_runInTime?

end Course

end HeaterLink
