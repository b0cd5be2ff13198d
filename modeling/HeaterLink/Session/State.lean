import HeaterLink.Session.Inbound
import HeaterLink.Session.Plan

/-!
# The state of a session

A session owns one link: the radio handle it holds, the stream of
notifications and the calls that share them. A call is at a stage, which says
what it waits for; nothing else is kept about it but its plan.
-/

set_option autoImplicit false

namespace HeaterLink

/-- Alarms due at the same time ring in the order in which they were set. -/
structure Alarm where
  due : Nat
  order : Nat
  deriving DecidableEq, Repr

def Alarm.rings (a : Alarm) (now : Nat) : Bool := a.due ≤ now

structure Moment where
  now : Nat
  order : Nat
  clock : Clock
  deriving DecidableEq, Repr

def Moment.alarm (m : Moment) (delay : Nat) : Alarm := ⟨m.now + delay, m.order⟩

/-- Thirty years of 365 days. -/
def longestPause : Nat := 30 * 365 * 24 * 3600 * 1000

/-- The end of a pause. A longer one ends after `longestPause`; limits of time are
not cut. -/
def Moment.pause (m : Moment) (delay : Nat) : Alarm := m.alarm (min delay longestPause)

/-- A frame on its way. A token stands for the request that the frame makes. -/
structure Write where
  frame : Bytes
  alarm : Alarm
  token : Option Token
  deriving DecidableEq, Repr

/-- What a call wants the link for. A connecting call remembers how many
connecting sequences had ended when it came. -/
inductive Use
  | connect (seen : Nat)
  | write (w : Write)
  | disconnect
  deriving DecidableEq, Repr

inductive Release
  | reconnect
  | rest
  deriving DecidableEq, Repr

/-- `made` counts the attempts that have failed before. -/
inductive Stage
  | opening (request : Request)
  | ready (operation : Operation)
  | queued (use : Use)
  | releasing (next : Release)
  | seeking (made : Nat)
  | connecting (made : Nat) (handle : Handle) (alarm : Alarm)
  | discarding (made : Nat) (fault : Fault)
  | subscribing (made : Nat) (stream : StreamId) (alarm : Alarm)
  | pausing (made : Nat) (fault : Fault) (alarm : Alarm)
  | writing (w : Write)
  | awaiting (token : Token) (alarm : Alarm)
  deriving DecidableEq

def Stage.awaitsRadio : Stage → Bool
  | .releasing _ => true
  | .seeking _ => true
  | .connecting _ _ _ => true
  | .discarding _ _ => true
  | .subscribing _ _ _ => true
  | .writing _ => true
  | _ => false

def Stage.alarm? : Stage → Option Alarm
  | .queued (.write w) => some w.alarm
  | .connecting _ _ a => some a
  | .subscribing _ _ a => some a
  | .pausing _ _ a => some a
  | .writing w => some w.alarm
  | .awaiting _ a => some a
  | _ => none

structure Call where
  plan : Plan
  stage : Stage
  /-- What the radio has answered and the call has not looked at yet. -/
  answer : Option RadioAnswer
  deriving DecidableEq

/-- A stream is offered with a subscription; once that succeeds a listener
waits for its first turn and then listens. A cancelled one takes nothing more. -/
inductive StreamPhase
  | offered
  | waiting
  | listening
  | cancelled
  deriving DecidableEq, Repr

structure Stream where
  phase : StreamPhase
  fragments : List Bytes
  /-- Whether the radio may still send on it. -/
  fed : Bool
  deriving DecidableEq, Repr

def Stream.capacity : Nat := 64

def Stream.unfinished (s : Stream) : Bool := s.phase = .waiting || s.phase = .listening

structure Held where
  handle : Handle
  up : Bool
  deriving DecidableEq, Repr

structure Session where
  config : Config
  ratedPower : UInt32
  state : LinkState
  held : Option Held
  listener : Option StreamId
  /-- Fault of the last connecting sequence, until another one succeeds or a
  disconnect is asked for. -/
  lastFailure : Option Fault
  sequences : Nat
  nextToken : Token
  nextStream : StreamId
  queue : LinkQueue
  inbound : Inbound
  streams : Table StreamId Stream
  calls : Table CallId Call

namespace Session

def new (config : Config) : Session where
  config := config
  ratedPower := config.ratedPower
  state := LinkState.initial
  held := none
  listener := none
  lastFailure := none
  sequences := 0
  nextToken := 1
  nextStream := 0
  queue := LinkQueue.idle
  inbound := Inbound.new config.profile
  streams := []
  calls := []

def runningListener (s : Session) : Option StreamId :=
  s.listener.filter fun i => (s.streams.get? i).any Stream.unfinished

def isListening (s : Session) : Bool := s.runningListener.isSome

end Session

end HeaterLink
