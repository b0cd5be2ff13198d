import HeaterLink.Wire.Fragment

/-!
# Reassembly of messages

A header starts a message, later fragments fill it, and it is sealed once
enough payload bytes have been counted. Nothing numbers the fragments, so
order is trusted. The buffer has a fixed length and is overwritten from its
start by every status message; bytes past its end are counted and not kept.
-/

set_option autoImplicit false

namespace HeaterLink

inductive Completion
  | status (payload : Bytes)
  | other (kind : MessageKind)
  deriving DecidableEq, Repr

structure Reassembler where
  table : LengthTable
  dropRepeats : Bool
  active : MessageKind
  buffer : Bytes
  received : Nat
  last : Option Bytes
  malformed : Nat
  deriving DecidableEq, Repr

def overwrite (buffer : Bytes) (start : Nat) (data : Bytes) : Bytes :=
  (buffer.take start ++ data ++ buffer.drop (start + data.length)).take buffer.length

namespace Reassembler

def new (table : LengthTable) (dropRepeats : Bool) : Reassembler where
  table := table
  dropRepeats := dropRepeats
  active := .none
  buffer := List.replicate (table.payloadLength .status) 0
  received := 0
  last := Option.none
  malformed := 0

def reset (r : Reassembler) : Reassembler :=
  { r with active := .none, received := 0, last := Option.none }

/-- Adds payload to the message in progress. Only a status message keeps its
bytes, and only there is a repeated fragment dropped. -/
def extend (r : Reassembler) (data : Bytes) : Reassembler :=
  if r.active = .status then
    if r.dropRepeats = true ∧ r.last = some data then r
    else { r with
      buffer := overwrite r.buffer r.received data
      received := r.received + data.length
      last := some data }
  else { r with received := r.received + data.length }

def start (r : Reassembler) (kind : MessageKind) (payload : Bytes) : Reassembler :=
  { r.reset with active := kind }.extend payload

def sealed? (r : Reassembler) : Option Completion :=
  if r.received < r.table.payloadLength r.active then Option.none
  else if r.active = .status then some (.status r.buffer)
  else some (.other r.active)

def finish (r : Reassembler) : Reassembler × Option Completion :=
  match r.sealed? with
  | Option.none => (r, Option.none)
  | some c => (r.reset, some c)

/-- A malformed header is counted and then read as payload of the message in
progress. Outside a message payload is ignored and seals nothing. -/
def feed (r : Reassembler) (data : Bytes) : Reassembler × Option Completion :=
  match r.table.classify data with
  | .header k _ payload => (r.start k payload).finish
  | .continuation =>
    if r.active = .none then (r, Option.none) else (r.extend data).finish
  | .malformed _ =>
    let counted := { r with malformed := r.malformed + 1 }
    if r.active = .none then (counted, Option.none) else (counted.extend data).finish

inductive Input
  | fragment (data : Bytes)
  | reset
  deriving DecidableEq, Repr

def step (r : Reassembler) : Input → Reassembler × Option Completion
  | .fragment data => r.feed data
  | .reset => (r.reset, Option.none)

def run (r : Reassembler) : List Input → Reassembler × List (Option Completion)
  | [] => (r, [])
  | i :: rest =>
    let (next, done) := r.step i
    let (final, later) := next.run rest
    (final, done :: later)

def trace (r : Reassembler) : List Input → List (Option Completion × Reassembler)
  | [] => []
  | i :: rest =>
    let (next, done) := r.step i
    (done, next) :: next.trace rest

end Reassembler

theorem overwrite_length (buffer : Bytes) (start : Nat) (data : Bytes) :
    (overwrite buffer start data).length = buffer.length := by
  simp only [overwrite, List.length_take, List.length_append, List.length_drop]
  omega

end HeaterLink
