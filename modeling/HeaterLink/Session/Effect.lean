import HeaterLink.Event
import HeaterLink.Radio
import HeaterLink.Session.Queue

/-!
# Effects of a session

Everything a session does that someone else can notice, in the order in which
it happens. A history of a session is a list of effects.
-/

set_option autoImplicit false

namespace HeaterLink

/-- Tokens number the requests for a status; zero belongs to none. -/
abbrev Token := Nat

inductive Outcome
  | done
  | response (response : Response)
  | temperature (applied : Float)
  | fault (fault : Fault)
  deriving DecidableEq

def Outcome.ofFault : Option Fault → Outcome
  | none => .done
  | some f => .fault f

inductive Operation
  | connect
  | send (frame : Bytes)
  | ask (frame : Bytes) (limit : Nat)
  | disconnect
  deriving DecidableEq, Repr

inductive Effect
  | began (call : CallId) (operation : Operation)
  | requested (call : CallId) (request : RadioRequest)
  | abandoned (call : CallId)
  | granted (call : CallId)
  | entered (state : LinkState)
  | emitted (event : Event)
  | registered (call : CallId) (token : Token)
  | displaced (call : CallId) (token : Token)
  | answered (call : CallId) (token : Token)
  | started (stream : StreamId)
  | cancelled (stream : StreamId)
  | took (stream : StreamId) (data : Bytes)
  | cleared
  | ended (stream : StreamId)
  | settled (call : CallId) (failure : Option Fault)
  | finished (call : CallId) (outcome : Outcome)
  | returned (call : CallId) (outcome : Outcome)
  deriving DecidableEq

end HeaterLink
