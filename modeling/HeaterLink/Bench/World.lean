import HeaterLink.Bench.Script
import HeaterLink.Broadcast
import HeaterLink.Registry
import HeaterLink.Session.Poll

/-!
# The world of the bench

Devices and their subscribers, radio handles, everything that is on its way,
and the tasks that take turns. One task runs at a time and goes on until it
has to wait; tasks that can go on wait in a queue, in the order in which they
were woken. The task that the operator of the bench waits for stands beside
the queue. The clock moves only when nothing can go on.
-/

set_option autoImplicit false

namespace HeaterLink.Bench

abbrev DeviceId := Nat

structure Device where
  session : Session
  events : Broadcast Event
  retired : Bool

structure RadioLink where
  address : String
  device : DeviceId
  sender : Option StreamId

/-- Items that are still to be delivered through a handle. A delivery that
found its stream full is stuck on that stream until there is room. -/
structure Delivery where
  handle : Handle
  items : List Item
  stuck : Option StreamId

inductive Progress
  | hanging
  | pausing (alarm : Alarm) (fault : Option Fault)
  | delivering (delivery : Delivery)
  | over (answer : RadioAnswer)

structure Play where
  request : RadioRequest
  progress : Progress

structure Courier where
  delivery : Delivery
  alarm : Option Alarm

structure Watcher where
  device : DeviceId
  wanted : LinkState
  alarm : Alarm

inductive Task
  | call (device : DeviceId) (call : CallId)
  | listener (device : DeviceId) (stream : StreamId)
  | courier (number : Nat)
  | watcher (number : Nat)
  deriving DecidableEq, Repr

inductive Result
  | outcome (o : Outcome)
  | became (b : Bool)
  | delivered
  deriving DecidableEq

structure Name where
  device : DeviceId
  held : Bool
  position : Nat

structure World where
  now : Nat
  turn : Nat
  nextNumber : Nat
  nextHandle : Handle
  devices : Table DeviceId Device
  names : Table String Name
  registry : Registry DeviceId
  scripts : Table String Script
  radio : Table Handle RadioLink
  plays : Table CallId Play
  couriers : Table Nat Courier
  watchers : Table Nat Watcher
  lines : Table (DeviceId × StreamId) (List Task)
  queue : List Task
  /-- The task that the operator waits for, and whether it can go on. -/
  awaited : Option Task
  awaitedReady : Bool
  labels : Table Task String
  results : Table Task Result
  finished : List (Nat × String × Result)
  log : List (Nat × Line)

namespace World

def initial : World where
  now := 0
  turn := 0
  nextNumber := 0
  nextHandle := 1
  devices := []
  names := []
  registry := []
  scripts := []
  radio := []
  plays := []
  couriers := []
  watchers := []
  lines := []
  queue := []
  awaited := none
  awaitedReady := false
  labels := []
  results := []
  finished := []
  log := []

/-- No answer shows the time of day, so the clock on the wall stands still. -/
def wallClock : Clock := ⟨⟨2000, 1, 1⟩, ⟨0, 0, 0⟩⟩

def moment (w : World) : Moment := ⟨w.now, w.turn, wallClock⟩

def wake (w : World) (t : Task) : World :=
  if w.awaited = some t then { w with awaitedReady := true }
  else if t ∈ w.queue then w
  else { w with queue := w.queue ++ [t] }

def wakeAll (w : World) (ts : List Task) : World := ts.foldl wake w

def write (w : World) (l : Line) : World := { w with log := w.log ++ [(w.now, l)] }

def onSession (w : World) (d : DeviceId) (f : Session → Session) : World :=
  { w with devices := w.devices.modify d fun v => { v with session := f v.session } }

def session? (w : World) (d : DeviceId) : Option Session := (w.devices.get? d).map (·.session)

def script (w : World) (address : String) : Script := (w.scripts.get? address).getD .empty

def setScript (w : World) (address : String) (s : Script) : World :=
  { w with scripts := w.scripts.insert address s }

def line (w : World) (d : DeviceId) (i : StreamId) : List Task := (w.lines.get? (d, i)).getD []

def setLine (w : World) (d : DeviceId) (i : StreamId) (l : List Task) : World :=
  { w with lines := w.lines.insert (d, i) l }

/-- Room left on a stream; a stream that nobody listens to has none to speak of. -/
def room? (w : World) (d : DeviceId) (i : StreamId) : Option Nat :=
  (w.session? d).bind fun s => (s.streams.get? i).map fun stream =>
    Stream.capacity - stream.fragments.length

/-- A stream is closed once no handle sends to it and nothing is stuck on it. -/
def closeIfUnfed (w : World) (d : DeviceId) (i : StreamId) : World :=
  if w.line d i = [] ∧ w.radio.all (fun (_, r) => ¬(r.device = d ∧ r.sender = some i)) then
    (w.onSession d (·.closeStream i)).wake (.listener d i)
  else w

def dropSender (w : World) (h : Handle) : World :=
  match w.radio.get? h with
  | none => w
  | some r =>
    let dropped := { w with radio := w.radio.insert h { r with sender := none } }
    match r.sender with
    | none => dropped
    | some i => dropped.closeIfUnfed r.device i

def loseLink (w : World) (h : Handle) : World :=
  match w.radio.get? h with
  | none => w
  | some r => w.onSession r.device (·.report h false)

/-- A task leaves the line of a stream. If room was kept for it, the first
task behind that room gets it. -/
def leaveLine (w : World) (d : DeviceId) (i : StreamId) (t : Task) : World :=
  let before := w.line d i
  let left := w.setLine d i (before.filter (· ≠ t))
  let room := (w.room? d i).getD 0
  let woken :=
    if before.idxOf t < room then
      match (left.line d i)[room - 1]? with
      | some next => left.wake next
      | none => left
    else left
  woken.closeIfUnfed d i

end World

end HeaterLink.Bench
