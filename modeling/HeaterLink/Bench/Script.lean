import HeaterLink.Session.Plan
import HeaterLink.Wire.Hex

/-!
# Scripts of the bench

The bench runs devices against a radio that follows a script. For each
address the script says how the next calls of every kind behave and what is
delivered once a frame has been written.
-/

set_option autoImplicit false

namespace HeaterLink.Bench

inductive Behaviour
  | hang
  | finish (delay : Nat) (fault : Option Fault)
  deriving DecidableEq

def Behaviour.ok : Behaviour := .finish 0 none

inductive Item
  | fragment (data : Bytes)
  | wait (ms : Nat)
  /-- The link goes down and the stream ends. -/
  | dropLink
  /-- The link goes down, but the stream stays open. -/
  | loseLink
  /-- The stream ends while the link stays up. -/
  | endStream
  deriving DecidableEq, Repr

structure Script where
  finds : List Bool
  connects : List Behaviour
  subscribes : List Behaviour
  writes : List Behaviour
  disconnects : List Behaviour
  replies : List (List Item)

namespace Script

def empty : Script := ⟨[], [], [], [], [], []⟩

/-- Changes to a script: lists that are given replace the old ones, and
replies are added behind those that are left. -/
structure Change where
  finds : Option (List Bool)
  connects : Option (List Behaviour)
  subscribes : Option (List Behaviour)
  writes : Option (List Behaviour)
  disconnects : Option (List Behaviour)
  replies : List (List Item)
  clearReplies : Bool

def change (s : Script) (c : Change) : Script where
  finds := c.finds.getD s.finds
  connects := c.connects.getD s.connects
  subscribes := c.subscribes.getD s.subscribes
  writes := c.writes.getD s.writes
  disconnects := c.disconnects.getD s.disconnects
  replies := (if c.clearReplies then [] else s.replies) ++ c.replies

def nextFind (s : Script) : Bool × Script := (s.finds.headD true, { s with finds := s.finds.tail })

def nextConnect (s : Script) : Behaviour × Script :=
  (s.connects.headD .ok, { s with connects := s.connects.tail })

def nextSubscribe (s : Script) : Behaviour × Script :=
  (s.subscribes.headD .ok, { s with subscribes := s.subscribes.tail })

def nextWrite (s : Script) : Behaviour × Script :=
  (s.writes.headD .ok, { s with writes := s.writes.tail })

def nextDisconnect (s : Script) : Behaviour × Script :=
  (s.disconnects.headD .ok, { s with disconnects := s.disconnects.tail })

def nextReply (s : Script) : List Item × Script :=
  (s.replies.headD [], { s with replies := s.replies.tail })

end Script

inductive Line
  | missed (address : String)
  | found (address : String) (handle : Handle)
  | connect (handle : Handle) (limit : Nat)
  | subscribe (handle : Handle)
  | write (handle : Handle) (frame : Bytes)
  | disconnect (handle : Handle)
  deriving DecidableEq, Repr

namespace Line

def handleText (h : Handle) : String := "T" ++ toString h

/-- The hello shows the time of day, which no log can repeat. -/
def frameText (frame : Bytes) : String :=
  let opening := magic ++ [0x0B, 0, 0, Opcode.hello.byte]
  if frame.length = 15 ∧ opening.isPrefixOf frame = true then hexText opening ++ "<clock>"
  else hexText frame

def text : Line → String
  | .missed address => "find " ++ address ++ " miss"
  | .found address h => "find " ++ address ++ " " ++ handleText h
  | .connect h limit => handleText h ++ " connect " ++ toString limit
  | .subscribe h => handleText h ++ " subscribe " ++ notifyCharacteristic
  | .write h frame => handleText h ++ " write " ++ writeCharacteristic ++ " " ++ frameText frame
  | .disconnect h => handleText h ++ " disconnect"

end Line

end HeaterLink.Bench
