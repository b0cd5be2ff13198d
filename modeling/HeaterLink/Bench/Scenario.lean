import HeaterLink.Bench.Schedule

/-!
# Scenarios

A scenario is a list of steps: it sets up devices and the script of the
radio, makes calls, and lets time pass. After every step everything that can
happen at that instant happens, and a record is taken.
-/

set_option autoImplicit false

namespace HeaterLink.Bench

inductive Errand
  | call (request : Request)
  | watch (state : LinkState) (limit : Nat)
  deriving DecidableEq

inductive Step
  | new (name : String) (config : Config)
  | register (name : String) (config : Config)
  | get (address : String)
  | remove (address : String)
  | listRegistry
  | drop (name : String)
  | script (address : String) (change : Script.Change)
  | notify (address : String) (items : List Item)
  | sleep (ms : Nat)
  | spawn (name : String) (label : String) (errand : Errand)
  | join (label : String)
  | errand (name : String) (errand : Errand)
  | lastReading (name : String)
  | setRatedPower (name : String) (watts : UInt32)
  | info (name : String)

inductive Answer
  | nothing
  | result (r : Result)
  | reading (r : Option Reading)
  | power (watts : UInt32)
  | info (address : String) (rated configured : UInt32)
  | registered (sameAs : List String)
  | found (address : String) (sameAs : List String)
  | removed (b : Bool)
  | registry (addresses : List String)

structure Record where
  answer : Answer
  time : Nat
  states : List (String × LinkState)
  events : List (String × List Event × Bool)
  log : List (Nat × String)
  finished : List (Nat × String × Result)

inductive Conclusion
  | say (answer : Answer)
  | resultOf (task : Task)
  | keep (name : String) (device : DeviceId)
  | place (name : String) (config : Config)

namespace World

def eventCapacity : Nat := 64

def emptyChannel : Broadcast Event := ⟨eventCapacity, [], 0, 1⟩

def addDevice (w : World) (config : Config) : World × DeviceId :=
  let d := w.nextNumber
  ({ w with
    nextNumber := d + 1
    devices := w.devices.insert d ⟨Session.new config, emptyChannel, false⟩ }, d)

def nameDevice (w : World) (name : String) (d : DeviceId) : World :=
  let sent := ((w.devices.get? d).map (·.events.sent)).getD 0
  { w with names := w.names.insert name ⟨d, true, sent⟩ }

def namesOf (w : World) (d : DeviceId) : List String :=
  ((w.names.filter fun (_, n) => n.held && n.device == d).map (·.1)).mergeSort (· ≤ ·)

def deviceOf (w : World) (name : String) : Option DeviceId :=
  (w.names.get? name).bind fun n => if n.held then some n.device else none

def startCall (w : World) (d : DeviceId) (r : Request) : World × Task :=
  let c := w.nextNumber
  let t := Task.call d c
  (({ w with nextNumber := c + 1 }.onSession d (·.invoke c r)).wake t, t)

def startErrand (w : World) (d : DeviceId) : Errand → World × Task
  | .call r => w.startCall d r
  | .watch state limit =>
    let n := w.nextNumber
    let t := Task.watcher n
    ({ w with
      nextNumber := n + 1
      watchers := w.watchers.insert n ⟨d, state, w.moment.alarm limit⟩ }.wake t, t)

def latestHandle (w : World) (address : String) : Option Handle :=
  ((w.radio.filter fun (_, r) => r.address == address).getLast?).map (·.1)

def begin (w : World) : Step → World × Goal × Conclusion
  | .new name config =>
    let (w, d) := w.addDevice config
    (w.nameDevice name d, .nothing, .say .nothing)
  | .register name config =>
    match (w.registry.register config w.nextNumber).2 with
    | .kept d => (w.onSession d (·.setRatedPower config.ratedPower), .nothing, .keep name d)
    | .placed none => (w, .nothing, .place name config)
    | .placed (some old) =>
      let (w, t) := w.startCall old .disconnect
      (w, .task t, .place name config)
  | .get address =>
    match w.registry.find? address with
    | none => (w, .nothing, .say .nothing)
    | some r => (w, .nothing, .say (.found r.config.address (w.namesOf r.device)))
  | .remove address =>
    let (registry, removed) := w.registry.remove address
    let w := { w with registry := registry }
    match removed with
    | none => (w, .nothing, .say (.removed false))
    | some d =>
      let (w, t) := w.startCall d .disconnect
      (w, .task t, .say (.removed true))
  | .listRegistry => (w, .nothing, .say (.registry (w.registry.addresses.mergeSort (· ≤ ·))))
  | .drop name =>
    ({ w with names := w.names.modify name ({ · with held := false }) }, .nothing, .say .nothing)
  | .script address change =>
    (w.setScript address ((w.script address).change change), .nothing, .say .nothing)
  | .notify address items =>
    match w.latestHandle address with
    | none => (w, .nothing, .say .nothing)
    | some h => (w.sendCourier h items, .task (.courier w.nextNumber), .say .nothing)
  | .sleep ms => (w, .time (w.moment.pause ms), .say .nothing)
  | .spawn name label errand =>
    match w.deviceOf name with
    | none => (w, .nothing, .say .nothing)
    | some d =>
      let (w, t) := w.startErrand d errand
      ({ w with labels := w.labels.insert t label }, .nothing, .say .nothing)
  | .join label => (w, .label label, .say .nothing)
  | .errand name errand =>
    match w.deviceOf name with
    | none => (w, .nothing, .say .nothing)
    | some d =>
      let (w, t) := w.startErrand d errand
      (w, .task t, .resultOf t)
  | .lastReading name =>
    (w, .nothing, .say (.reading
      (((w.deviceOf name).bind w.session?).bind (·.inbound.lastReading))))
  | .setRatedPower name watts =>
    match w.deviceOf name with
    | none => (w, .nothing, .say .nothing)
    | some d => (w.onSession d (·.setRatedPower watts), .nothing, .say (.power watts))
  | .info name =>
    match (w.deviceOf name).bind w.session? with
    | none => (w, .nothing, .say .nothing)
    | some s =>
      (w, .nothing, .say (.info s.config.address s.ratedPower s.config.ratedPower))

def conclude (w : World) : Conclusion → World × Answer
  | .say a => (w, a)
  | .resultOf t =>
    match w.results.get? t with
    | some r => (w, .result r)
    | none => (w, .nothing)
  | .keep name d => (w.nameDevice name d, .registered (w.namesOf d))
  | .place name config =>
    let (w, d) := w.addDevice config
    let same := w.namesOf d
    ({ w with registry := (w.registry.register config d).1 }.nameDevice name d, .registered same)

def readEvents (w : World) : World × List (String × List Event × Bool) :=
  let read := w.names.map fun (name, n) =>
    match w.devices.get? n.device with
    | none => ((name, n), (name, [], false))
    | some v =>
      let (events, position) := v.events.receiveAll n.position
      ((name, { n with position := position }), (name, events, v.events.handles == 0))
  ({ w with names := read.map (·.1) }, read.map (·.2))

def record (w : World) (answer : Answer) : World × Record :=
  let (after, events) := w.readEvents
  ({ after with log := [], finished := [], results := [] }, {
    answer := answer
    time := w.now
    states := w.names.filterMap fun (name, n) =>
      if n.held then (w.session? n.device).map fun s => (name, s.state) else none
    events := events
    log := w.log.map fun (t, l) => (t, l.text)
    finished := w.finished.mergeSort fun (t, a, _) (u, b, _) =>
      t < u || (t == u && decide (a ≤ b)) })

def take (w : World) (bound : Nat) (s : Step) : World × Record :=
  let (started, goal, conclusion) := w.begin s
  let (concluded, answer) := ((started.await goal).runUntil goal bound).conclude conclusion
  (concluded.retireIdle.settle bound).record answer

def takeAll (w : World) (bound : Nat) : List Step → List Record
  | [] => []
  | s :: rest =>
    let (next, r) := w.take bound s
    r :: takeAll next bound rest

end World

/-- Far more turns than any step of a scenario takes. -/
def patience : Nat := 1000000000

def run (steps : List Step) : List Record := World.initial.takeAll patience steps

end HeaterLink.Bench
