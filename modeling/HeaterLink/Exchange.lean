import HeaterLink.Broadcast

/-!
# Exchanges

A channel for events together with its dispatchers and subscriptions, both
numbered from zero in the order in which they are made. All dispatchers share
one sender, which goes away with the last of them. `Exchange.run` answers a
whole list of steps.
-/

set_option autoImplicit false

namespace HeaterLink

structure Exchange {α : Type} (C : Channel α) where
  channel : C.State
  held : List Bool
  listening : List Bool

namespace Exchange

variable {α : Type} {C : Channel α}

inductive Step (α : Type)
  | subscribe
  | clone
  | drop (dispatcher : Nat)
  | unsubscribe (subscription : Nat)
  | send (value : α) (times : Nat)
  | receive (subscription : Nat)

inductive Answer (α : Type)
  | number (n : Nat)
  | nothing
  | received (r : Received α)
  deriving DecidableEq

def over? (C : Channel α) (capacity : Nat) : Option (Exchange C) :=
  (C.create? capacity).map fun s => ⟨s, [true], []⟩

def new? (capacity : Nat) : Option (Exchange (Ring.channel α)) := over? _ capacity

def isOpen (x : Exchange C) : Bool := x.held.contains true

def sendTimes (C : Channel α) (s : C.State) (a : α) : Nat → C.State
  | 0 => s
  | n + 1 => sendTimes C (C.send s a) a n

/-- A step of a dispatcher or a subscription that is gone does nothing. -/
def step (x : Exchange C) : Step α → Exchange C × Answer α
  | .subscribe =>
    if x.isOpen then
      ({ x with channel := C.subscribe x.channel, listening := x.listening ++ [true] },
        .number x.listening.length)
    else (x, .nothing)
  | .clone =>
    if x.isOpen then ({ x with held := x.held ++ [true] }, .number x.held.length)
    else (x, .nothing)
  | .drop d =>
    if x.held[d]? = some true then
      let held := x.held.set d false
      ({ x with
        held := held
        channel := if held.contains true then x.channel else C.close x.channel }, .nothing)
    else (x, .nothing)
  | .unsubscribe i =>
    if x.listening[i]? = some true then
      ({ x with channel := C.release x.channel i, listening := x.listening.set i false }, .nothing)
    else (x, .nothing)
  | .send a n =>
    if x.isOpen then ({ x with channel := sendTimes C x.channel a n }, .nothing)
    else (x, .nothing)
  | .receive i =>
    if x.listening[i]? = some true then
      let (r, s) := C.receive x.channel i
      ({ x with channel := s }, .received r)
    else (x, .nothing)

def run (x : Exchange C) : List (Step α) → List (Answer α)
  | [] => []
  | s :: rest =>
    let (next, a) := x.step s
    a :: next.run rest

end Exchange

end HeaterLink
