import HeaterLink.Bench.Tasks

/-!
# Taking turns

Tasks run in the order in which they were woken, each until it has to wait.
The task that the operator waits for runs when none of them is left. When it
has to wait too, the clock moves to the next alarm and wakes the tasks whose
alarms ring, in the order in which these were set; of those the operator's
comes first.
-/

set_option autoImplicit false

namespace HeaterLink.Bench

inductive Goal
  | nothing
  | task (t : Task)
  | time (alarm : Alarm)
  | label (name : String)

namespace World

/-- Runs one task until it has to wait; the bound only makes this a definition. -/
def runTask (w : World) (t : Task) : Nat → World
  | 0 => w
  | bound + 1 =>
    match w.step t with
    | none => w
    | some next => runTask next t bound

def isHeld (w : World) (d : DeviceId) : Bool :=
  (w.names.any fun (_, n) => n.held && n.device == d) ||
  (w.registry.any fun (_, r) => r.device == d) ||
  (w.watchers.any fun (_, v) => v.device == d) ||
  (w.session? d).any fun s => !s.calls.isEmpty

def retireIdle (w : World) : World :=
  (w.devices.filter fun (d, v) => !v.retired && !w.isHeld d).foldl
    (fun w (d, v) =>
      let (s, effects) := v.session.retire
      let gone := { w with devices := w.devices.modify d fun v => { v with
        retired := true
        events := v.events.dropHandle } }
      gone.absorbAll d s effects) w

def giveTurn (w : World) (t : Task) (bound : Nat) : World := (w.runTask t bound).retireIdle

def awaitedNow (w : World) : Option Task := if w.awaitedReady then w.awaited else none

def attend (w : World) (bound : Nat) : World :=
  match w.awaitedNow with
  | none => w
  | some t => { w with awaitedReady := false }.giveTurn t bound

def settle (w : World) : Nat → World
  | 0 => w
  | bound + 1 =>
    match w.queue with
    | t :: rest => settle ({ w with queue := rest }.giveTurn t bound) bound
    | [] => if w.awaitedNow.isSome then settle (w.attend bound) bound else w

def alarms (w : World) : List (Alarm × Task) :=
  (w.devices.flatMap fun (d, v) => v.session.calls.filterMap fun (c, call) =>
    call.stage.alarm?.map fun a => (a, .call d c)) ++
  (w.devices.flatMap fun (d, v) => v.session.calls.filterMap fun (c, _) =>
    match w.plays.get? c with
    | some ⟨_, .pausing a _⟩ => some (a, Task.call d c)
    | _ => none) ++
  (w.couriers.filterMap fun (n, v) => v.alarm.map fun a => (a, .courier n)) ++
  (w.watchers.map fun (n, v) => (v.alarm, .watcher n))

def advance (w : World) (due : Nat) : World :=
  let ringing := (w.alarms.filter fun (a, _) => a.due == due).mergeSort
    fun (a, _) (b, _) => a.order ≤ b.order
  { w with now := due }.wakeAll (ringing.map Prod.snd)

/-- The operator waits for a task beside the queue and looks at it at once. -/
def await (w : World) : Goal → World
  | .task t => { w with
      awaited := some t
      awaitedReady := true
      queue := w.queue.filter (· ≠ t) }
  | _ => { w with awaited := none, awaitedReady := false }

def reached (w : World) : Goal → Bool
  | .nothing => true
  | .task t => (w.results.get? t).isSome
  | .time alarm => alarm.rings w.now
  | .label name => !w.labels.any fun (_, n) => n == name

def nextDue (w : World) (goal : Goal) : Option Nat :=
  let dues := w.alarms.map fun (a, _) => a.due
  let all := match goal with
    | .time alarm => alarm.due :: dues
    | _ => dues
  all.min?

def runUntil (w : World) (goal : Goal) : Nat → World
  | 0 => w
  | bound + 1 =>
    let settled := w.settle bound
    if settled.reached goal then settled
    else
      match settled.nextDue goal with
      | none => settled
      | some due => runUntil ((settled.advance due).attend bound) goal bound

end World

end HeaterLink.Bench
