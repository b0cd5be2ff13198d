import HeaterLink.Config
import HeaterLink.Session.Effect
import HeaterLink.Table
import HeaterLink.Wire.Reassembly

/-!
# Inbound messages

Fragments are reassembled, status messages become readings, and a reading may
answer the request that is pending. A status answers it only if its header
came while that same request was pending, so what began before a request
never answers it.
-/

set_option autoImplicit false

namespace HeaterLink

structure Pending where
  token : Token
  caller : CallId
  deriving DecidableEq, Repr

structure Inbound where
  reassembler : Reassembler
  pending : Option Pending
  /-- Token of the request that was pending when the latest header came. -/
  headerToken : Token
  lastReading : Option Reading
  /-- Readings given to requests whose calls have not picked them up yet. -/
  replies : Table Token Reading

namespace Inbound

def new (profile : Profile) : Inbound where
  reassembler := Reassembler.new profile.lengths profile.dropRepeats
  pending := none
  headerToken := 0
  lastReading := none
  replies := []

def reset (i : Inbound) : Inbound := { i with reassembler := i.reassembler.reset }

def pendingToken (i : Inbound) : Token :=
  match i.pending with
  | some p => p.token
  | none => 0

def mark (i : Inbound) (data : Bytes) : Inbound :=
  match i.reassembler.table.classify data with
  | .header _ _ _ => { i with headerToken := i.pendingToken }
  | .malformed _ => i
  | .continuation => i

/-- A new reading. It answers the pending request if the header carries its token. -/
def record (i : Inbound) (r : Reading) : Inbound × List Effect :=
  match i.pending with
  | some p =>
    if p.token = i.headerToken then
      ({ i with lastReading := some r, pending := none, replies := i.replies.insert p.token r },
        [.answered p.caller p.token, .emitted (.reading r)])
    else ({ i with lastReading := some r }, [.emitted (.reading r)])
  | none => ({ i with lastReading := some r }, [.emitted (.reading r)])

/-- A status that does not parse leaves no trace. -/
def complete (layout : StatusLayout) (watts : UInt32) (i : Inbound) :
    Completion → Inbound × List Effect
  | .other k => (i, [.emitted (.message k)])
  | .status payload =>
    match layout.parse watts payload with
    | .error _ => (i, [])
    | .ok r => i.record r

def take (layout : StatusLayout) (watts : UInt32) (i : Inbound) (data : Bytes) :
    Inbound × List Effect :=
  let marked := i.mark data
  let (r, done) := marked.reassembler.feed data
  let fed := { marked with reassembler := r }
  let warning := if r.malformed = i.reassembler.malformed then [] else [.emitted .malformedHeader]
  match done with
  | none => (fed, warning)
  | some c =>
    let (after, effects) := fed.complete layout watts c
    (after, warning ++ effects)

/-- A new request takes the place of the one that is pending. -/
def register (i : Inbound) (p : Pending) : Inbound × List Effect :=
  ({ i with pending := some p },
    match i.pending with
    | some old => [.displaced old.caller old.token, .registered p.caller p.token]
    | none => [.registered p.caller p.token])

def withdraw (i : Inbound) (k : Token) : Inbound :=
  { i with
    pending := i.pending.filter (·.token ≠ k)
    replies := i.replies.erase k }

end Inbound

end HeaterLink
