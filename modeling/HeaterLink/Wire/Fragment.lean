/-!
# Fragments of the notification stream

The element answers in messages that the radio cuts into fragments. The first
fragment of a message opens with four magic bytes and a length code; every
other fragment is bare payload. The code counts itself and the payload, so a
length table fixes both the kind of a message and the bytes that seal it.
-/

set_option autoImplicit false

namespace HeaterLink

abbrev Bytes := List UInt8

inductive MessageKind
  | acknowledge
  | status
  | schedule
  | none
  deriving DecidableEq, Repr

def MessageKind.all : List MessageKind := [.acknowledge, .status, .schedule, .none]

/-- One length code per kind. Codes may be shared: the first kind in the order
of `MessageKind.all` then owns the code. -/
structure LengthTable where
  acknowledge : UInt8
  status : UInt8
  schedule : UInt8
  none : UInt8
  deriving DecidableEq, Repr

namespace LengthTable

def standard : LengthTable := ⟨2, 49, 149, 1⟩

def code (t : LengthTable) : MessageKind → UInt8
  | .acknowledge => t.acknowledge
  | .status => t.status
  | .schedule => t.schedule
  | .none => t.none

/-- Payload bytes that seal a message; the codes zero and one both ask for none. -/
def payloadLength (t : LengthTable) (k : MessageKind) : Nat := (t.code k).toNat - 1

def kindOf? (t : LengthTable) (c : UInt8) : Option MessageKind :=
  MessageKind.all.find? fun k => t.code k == c

end LengthTable

def magic : Bytes := [0xAA, 0xAA, 0xAA, 0xAA]

def headerLength : Nat := magic.length + 1

inductive Fragment
  | header (kind : MessageKind) (code : UInt8) (payload : Bytes)
  | malformed (code : Option UInt8)
  | continuation
  deriving DecidableEq, Repr

/-- A fragment with the magic bytes is a header if the table knows its code.
It is malformed if the code is unknown, or missing because the fragment ends
behind the magic bytes. -/
def LengthTable.classify (t : LengthTable) (data : Bytes) : Fragment :=
  if magic.isPrefixOf data then
    match data.drop magic.length with
    | [] => .malformed Option.none
    | c :: payload =>
      match t.kindOf? c with
      | some k => .header k c payload
      | Option.none => .malformed (some c)
  else .continuation

theorem code_of_kindOf? {t : LengthTable} {c : UInt8} {k : MessageKind}
    (h : t.kindOf? c = some k) : t.code k = c := by
  simpa using List.find?_some h

theorem classify_nil (t : LengthTable) : t.classify [] = .continuation := rfl

theorem classify_message (t : LengthTable) (c : UInt8) (payload : Bytes) :
    t.classify (magic ++ c :: payload) =
      match t.kindOf? c with
      | some k => .header k c payload
      | Option.none => .malformed (some c) := by
  simp [LengthTable.classify, magic]

end HeaterLink
