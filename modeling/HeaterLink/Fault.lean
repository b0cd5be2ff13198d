import HeaterLink.Decimal.Positional

/-!
# Faults

What can go wrong with a frame, with the radio link, or with a request. A
fault that gives up after several attempts carries the fault of the last one;
`Fault.sources` lists the messages along that chain, outermost first.
-/

set_option autoImplicit false

namespace HeaterLink

inductive FrameFault
  | malformedHeader (code : Option UInt8)
  | tooShort (expected got : Nat)
  | temperatureOutOfRange (value : Float)
  deriving DecidableEq

def FrameFault.message : FrameFault → String
  | .malformedHeader none => "malformed header: unknown length code None"
  | .malformedHeader (some c) =>
    "malformed header: unknown length code Some(" ++ toString c.toNat ++ ")"
  | .tooShort expected got =>
    "payload too short: expected " ++ toString expected ++ " bytes, got " ++ toString got
  | .temperatureOutOfRange v =>
    "temperature " ++ Decimal.positional v ++ " does not fit the command field"

inductive Fault
  | connectTimeout (ms : Nat)
  | connectFailed (attempts : Nat) (source : Fault)
  | subscribeFailed (attempts : Nat) (source : Fault)
  | responseTimeout (ms : Nat)
  | linkLost
  | deviceNotFound (address : String)
  | notConnected
  | radio (text : String)
  | frame (fault : FrameFault)
  deriving DecidableEq

namespace Fault

def message : Fault → String
  | .connectTimeout ms => "connect attempt timed out after " ++ toString ms ++ "ms"
  | .connectFailed n _ => "could not connect after " ++ toString n ++ " attempts"
  | .subscribeFailed n _ =>
    "could not subscribe to notifications after " ++ toString n ++ " attempts"
  | .responseTimeout ms => "no status response within " ++ toString ms ++ "ms"
  | .linkLost => "transport connection lost"
  | .deviceNotFound address => "no device found at address " ++ address
  | .notConnected => "not connected"
  | .radio text => "transport error: " ++ text
  | .frame f => "frame error: " ++ f.message

def sources : Fault → List String
  | .connectFailed _ s => s.message :: s.sources
  | .subscribeFailed _ s => s.message :: s.sources
  | .frame f => [f.message]
  | _ => []

/-- A fault states a time limit in 64 bits. One that does not fit is stated as the greatest that
does. -/
def stated (limit : Nat) : Nat := min limit (UInt64.size - 1)

def subscribeTimeout (limit : Nat) : Fault :=
  .radio ("subscribe timed out after " ++ toString (stated limit) ++ "ms")

def writeTimeout (limit : Nat) : Fault :=
  .radio ("write timed out after " ++ toString (stated limit) ++ "ms")

end Fault

end HeaterLink
