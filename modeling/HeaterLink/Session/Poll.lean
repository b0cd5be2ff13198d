import HeaterLink.Session.Act

/-!
# Steps of a session

A call or a listener takes one step at a time, between two points at which it
may have to wait. `poll` and `listen` give the step that is possible now, or
nothing while there is nothing to do but wait. What an operation has finished
counts before the alarm that limits it.
-/

set_option autoImplicit false

namespace HeaterLink

open Act Act.Turn

def Act.Turn.resume (t : Turn) (s : Session) (answer : Option RadioAnswer) : Stage → Option Act
  | .opening r => some (follow t (r.start s.inbound.lastReading))
  | .ready operation => some (begin t operation)
  | .queued use =>
    if s.queue.holder = some t.call then some (proceed t use)
    else
      match use with
      | .write w =>
        if w.alarm.rings t.moment.now then
          some (all [change fun s => { s with queue := s.queue.leave t.call }, expired t w])
        else none
      | _ => none
  | .releasing next =>
    match answer with
    | some (.finished _) => some (released t next)
    | _ => none
  | .seeking made =>
    match answer with
    | some (.found (some h)) => some (all [
        request t (.connect h s.config.connect.limit),
        goto t (.connecting made h (t.moment.alarm s.config.connect.limit))])
    | some (.found none) => some (tryConnect t (made + 1) (.deviceNotFound s.config.address))
    | _ => none
  | .connecting made h alarm =>
    match answer with
    | some (.finished none) => some (connected t h)
    | some (.finished (some f)) => some (discard t made h f)
    | _ =>
      if alarm.rings t.moment.now then
        some (all [tell (.abandoned t.call),
          discard t made h (.connectTimeout (Fault.stated s.config.connect.limit))])
      else none
  | .discarding made fault =>
    match answer with
    | some (.finished _) => some (tryConnect t (made + 1) fault)
    | _ => none
  | .subscribing made stream alarm =>
    match answer with
    | some (.finished none) => some (subscribed t stream)
    | some (.finished (some f)) => some (subscribeFailed t made stream f)
    | _ =>
      if alarm.rings t.moment.now then
        some (all [tell (.abandoned t.call),
          subscribeFailed t made stream (.subscribeTimeout s.config.subscribe.limit)])
      else none
  | .pausing made fault alarm =>
    if alarm.rings t.moment.now then some (trySubscribe t made fault) else none
  | .writing w =>
    match answer with
    | some (.finished fault) => some (written t w fault)
    | _ =>
      if w.alarm.rings t.moment.now then
        some (all [tell (.abandoned t.call), releaseLink, expired t w])
      else none
  | .awaiting k alarm =>
    match s.inbound.replies.get? k with
    | some r => some (all [withdraw k, finish t (.response (.fresh r))])
    | none =>
      if s.inbound.pendingToken = k then
        if alarm.rings t.moment.now then some (all [withdraw k, fallBack t]) else none
      else some (fallBack t)

namespace Session

def poll (s : Session) (m : Moment) (c : CallId) : Option (Session × List Effect) :=
  match s.calls.get? c with
  | none => none
  | some call => (resume ⟨m, c, call.plan⟩ s call.answer call.stage).map fun act => act s

/-- One step of the listener of a stream. It starts with a clean reassembler,
takes fragments one by one, and takes the link down when its stream has ended. -/
def listen (s : Session) (i : StreamId) : Option (Session × List Effect) :=
  match s.streams.get? i with
  | none => none
  | some stream =>
    match stream.phase with
    | .offered => none
    | .waiting => some (all [resetInbound,
        change fun s => { s with streams := s.streams.insert i { stream with phase := .listening } }] s)
    | .listening =>
      match stream.fragments with
      | data :: rest =>
        let (inbound, effects) := s.inbound.take s.config.profile.layout s.ratedPower data
        some ({ s with
          inbound := inbound
          streams := s.streams.insert i { stream with fragments := rest } },
          .took i data :: effects)
      | [] =>
        if stream.fed then none
        else some (all [change fun s => { s with streams := s.streams.erase i },
          tell (.ended i), resetInbound, goDown] s)
    | .cancelled => some (all [change fun s => { s with streams := s.streams.erase i },
        tell (.ended i)] s)

/-! What happens to a session from outside. -/

def invoke (s : Session) (c : CallId) (r : Request) : Session :=
  { s with calls := s.calls.insert c ⟨.finish, .opening r, none⟩ }

def answer (s : Session) (c : CallId) (a : RadioAnswer) : Session :=
  { s with calls := s.calls.modify c fun call =>
      if call.stage.awaitsRadio then { call with answer := some a } else call }

/-- A fragment reaches a stream, which must have room for it. -/
def deliver (s : Session) (i : StreamId) (data : Bytes) : Session :=
  { s with streams := s.streams.modify i fun stream =>
      { stream with fragments := stream.fragments ++ [data] } }

def closeStream (s : Session) (i : StreamId) : Session :=
  { s with streams := s.streams.modify i ({ · with fed := false }) }

def report (s : Session) (h : Handle) (up : Bool) : Session :=
  { s with held := s.held.map fun held => if held.handle = h then { held with up := up } else held }

def setRatedPower (s : Session) (watts : UInt32) : Session := { s with ratedPower := watts }

/-- Nobody holds the session any more: its listener is cancelled. -/
def retire (s : Session) : Session × List Effect := cancelListener s

end Session

end HeaterLink
