import HeaterLink.Session.State

/-!
# Acts of a call

An act changes the session and tells what it did. The acts here are those of
a call that holds the link, wants it, or waits for a status. Each ends with
the call at its next stage or with its return.
-/

set_option autoImplicit false

namespace HeaterLink

abbrev Act := Session → Session × List Effect

namespace Act

def change (f : Session → Session) : Act := fun s => (f s, [])

def tell (e : Effect) : Act := fun s => (s, [e])

def choose (f : Session → Act) : Act := fun s => f s s

def all : List Act → Act
  | [] => fun s => (s, [])
  | a :: rest => fun s =>
    let (s', first) := a s
    let (s'', later) := all rest s'
    (s'', first ++ later)

def enter (state : LinkState) : Act := all [change ({ · with state := state }), tell (.entered state)]

/-- The link is down; it is told only of a link that was not known to be. -/
def goDown : Act :=
  choose fun s => all [enter .disconnected,
    if s.state = .disconnected then all [] else tell (.emitted .disconnected)]

def resetInbound : Act :=
  all [change fun s => { s with inbound := s.inbound.reset }, tell .cleared]

def cancelListener : Act :=
  choose fun s =>
    all [change ({ · with listener := none }),
      match s.runningListener with
      | none => all []
      | some i => all [
          change fun s => { s with streams := s.streams.modify i ({ · with phase := .cancelled }) },
          tell (.cancelled i)]]

def releaseLink : Act :=
  choose fun s => all [
    change ({ · with queue := s.queue.release }),
    match s.queue.release.holder with
    | some c => tell (.granted c)
    | none => all []]

def withdraw (k : Token) : Act := change fun s => { s with inbound := s.inbound.withdraw k }

structure Turn where
  moment : Moment
  call : CallId
  plan : Plan

namespace Turn

def goto (t : Turn) (stage : Stage) : Act :=
  change fun s => { s with calls := s.calls.insert t.call ⟨t.plan, stage, none⟩ }

def request (t : Turn) (r : RadioRequest) : Act := tell (.requested t.call r)

def follow (t : Turn) : Verdict → Act
  | .finished o => all [
      change fun s => { s with calls := s.calls.erase t.call }, tell (.returned t.call o)]
  | .run operation plan => goto { t with plan := plan } (.ready operation)

def finish (t : Turn) (o : Outcome) : Act := all [
  tell (.finished t.call o),
  choose fun s => follow t (t.plan.next s.config t.moment.clock o)]

/-- A connecting sequence ends: its failure is kept for the calls that queued behind it. -/
def endSequence (t : Turn) (failure : Option Fault) : Act := all [
  change fun s => { s with lastFailure := failure, sequences := s.sequences + 1 },
  tell (.settled t.call failure), releaseLink, finish t (.ofFault failure)]

def trySubscribe (t : Turn) (made : Nat) (last : Fault) : Act :=
  choose fun s =>
    match s.held with
    | none => endSequence t (some .notConnected)
    | some held =>
      if made < s.config.subscribe.attempts then all [
        change fun s => { s with
          nextStream := s.nextStream + 1
          streams := s.streams.insert s.nextStream ⟨.offered, [], true⟩ },
        request t (.subscribe held.handle s.nextStream),
        goto t (.subscribing made s.nextStream (t.moment.alarm s.config.subscribe.limit))]
      else endSequence t (some (.subscribeFailed s.config.subscribe.attempts last))

def subscribeFailed (t : Turn) (made : Nat) (stream : StreamId) (fault : Fault) : Act :=
  choose fun s => all [
    change fun s => { s with streams := s.streams.erase stream },
    if made + 1 < s.config.subscribe.attempts then
      goto t (.pausing (made + 1) fault (t.moment.pause s.config.retryDelay))
    else trySubscribe t (made + 1) fault]

def subscribed (t : Turn) (stream : StreamId) : Act := all [
  change fun s => { s with
    listener := some stream
    streams := s.streams.modify stream ({ · with phase := .waiting }) },
  tell (.started stream), enter .subscribed, endSequence t none]

def startSubscribe (t : Turn) : Act := all [cancelListener, trySubscribe t 0 .notConnected]

def tryConnect (t : Turn) (made : Nat) (last : Fault) : Act :=
  choose fun s =>
    if made < s.config.connect.attempts then
      all [enter .connecting, request t (.find s.config.address), goto t (.seeking made)]
    else all [enter .disconnected,
      endSequence t (some (.connectFailed s.config.connect.attempts last))]

def connected (t : Turn) (handle : Handle) : Act := all [
  change ({ · with held := some ⟨handle, true⟩ }), enter .connected, tell (.emitted .connected),
  startSubscribe t]

/-- A handle whose connect failed is released before anything else is tried. -/
def discard (t : Turn) (made : Nat) (handle : Handle) (fault : Fault) : Act :=
  all [request t (.disconnect handle), goto t (.discarding made fault)]

def released (t : Turn) (next : Release) : Act := all [
  resetInbound, goDown,
  match next with
  | .reconnect => tryConnect t 0 .notConnected
  | .rest => all [change ({ · with lastFailure := none }), releaseLink, finish t .done]]

def release (t : Turn) (next : Release) : Act := all [
  cancelListener,
  choose fun s =>
    match s.held with
    | none => released t next
    | some held => all [change ({ · with held := none }), request t (.disconnect held.handle),
        goto t (.releasing next)]]

/-- A link that is up and listening is used as it is; one that is up is only
subscribed to again; all else begins with a new handle. -/
def establish (t : Turn) : Act :=
  choose fun s =>
    match s.held with
    | none => tryConnect t 0 .notConnected
    | some held =>
      if held.up then
        if s.isListening && s.state.isReady then endSequence t none else startSubscribe t
      else release t .reconnect

def written (t : Turn) (w : Write) (fault : Option Fault) : Act := all [
  releaseLink,
  match w.token with
  | none => finish t (.ofFault fault)
  | some k =>
    match fault with
    | some f => all [withdraw k, finish t (.fault f)]
    | none => goto t (.awaiting k ⟨w.alarm.due, t.moment.order⟩)]

def fallBack (t : Turn) : Act :=
  choose fun s => finish t (.response (Response.fallback s.inbound.lastReading))

def expired (t : Turn) (w : Write) : Act :=
  match w.token with
  | none => choose fun s => finish t (.fault (.writeTimeout s.config.writeLimit))
  | some k => all [withdraw k, fallBack t]

def write (t : Turn) (w : Write) : Act :=
  choose fun s =>
    match s.held with
    | none => written t w (some .notConnected)
    | some held =>
      if held.up then all [request t (.write held.handle w.frame), goto t (.writing w)]
      else written t w (some .linkLost)

/-- The call has got the link. A connecting call that waited behind a sequence
that failed takes over its failure. -/
def proceed (t : Turn) : Use → Act
  | .connect seen => choose fun s =>
      match s.lastFailure with
      | some f => if s.sequences = seen then establish t else all [releaseLink, finish t (.fault f)]
      | none => establish t
  | .write w => write t w
  | .disconnect => release t .rest

def enqueue (t : Turn) (use : Use) : Act :=
  all [change fun s => { s with queue := s.queue.join t.call }, goto t (.queued use)]

/-- A request is registered before its frame is written. -/
def prepare (t : Turn) : Operation → Act
  | .connect => choose fun s => enqueue t (.connect s.sequences)
  | .disconnect => enqueue t .disconnect
  | .send frame => choose fun s =>
      enqueue t (.write ⟨frame, t.moment.alarm s.config.writeLimit, none⟩)
  | .ask frame limit => choose fun s => all [
      fun s =>
        let (inbound, effects) := s.inbound.register ⟨s.nextToken, t.call⟩
        ({ s with nextToken := s.nextToken + 1, inbound := inbound }, effects),
      enqueue t (.write ⟨frame, t.moment.alarm limit, some s.nextToken⟩)]

def begin (t : Turn) (operation : Operation) : Act :=
  all [tell (.began t.call operation), prepare t operation]

end Turn

end Act

end HeaterLink
