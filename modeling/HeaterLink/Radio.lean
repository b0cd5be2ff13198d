import HeaterLink.Fault
import HeaterLink.Wire.Fragment

/-!
# The radio

What a session asks of the radio and what it gets back. The radio resolves an
address into a handle; everything else is asked of a handle. Notifications
arrive on a stream that is offered with the subscription.
-/

set_option autoImplicit false

namespace HeaterLink

inductive LinkState
  | disconnected
  | connecting
  | connected
  | subscribed
  deriving DecidableEq, Repr

namespace LinkState

def initial : LinkState := .disconnected

def all : List LinkState := [.disconnected, .connecting, .connected, .subscribed]

/-- Commands are answered only while notifications flow. -/
def isReady (s : LinkState) : Bool := s = .subscribed

end LinkState

def writeCharacteristic : String := "d973f2e2-b19e-11e2-9e96-0800200c9a66"

def notifyCharacteristic : String := "d973f2e1-b19e-11e2-9e96-0800200c9a66"

abbrev Handle := Nat

abbrev StreamId := Nat

inductive RadioRequest
  | find (address : String)
  | connect (handle : Handle) (limit : Nat)
  | subscribe (handle : Handle) (stream : StreamId)
  | write (handle : Handle) (frame : Bytes)
  | disconnect (handle : Handle)
  deriving DecidableEq, Repr

/-- A lookup yields a handle or nothing, everything else succeeds or fails. -/
inductive RadioAnswer
  | found (handle : Option Handle)
  | finished (fault : Option Fault)
  deriving DecidableEq

end HeaterLink
