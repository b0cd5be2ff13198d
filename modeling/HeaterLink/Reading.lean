import HeaterLink.Wire.Fragment

/-!
# Readings

A reading is the snapshot that one complete status message carries. A
response tells whether a request got its own status, has to be content with
the last one known, or finds that none was ever received.
-/

set_option autoImplicit false

namespace HeaterLink

inductive Mode
  | off
  | on
  deriving DecidableEq, Repr

structure Reading where
  stateCode : UInt8
  current : Float
  target : Float
  lower : Float
  upper : Float
  minutes : UInt16
  energy : Float
  deriving DecidableEq

/-- The larger operand, or the one that is a number. Of equal operands the second is kept. -/
def larger (a b : Float) : Float :=
  if b.isNaN then a else if b < a then a else b

def smaller (a b : Float) : Float :=
  if b.isNaN then a else if a < b then a else b

namespace Reading

def mode (r : Reading) : Mode := if r.stateCode = 0 then .off else .on

/-- The upper limit is applied last, so it wins over a lower limit above it. -/
def clamp (r : Reading) (temperature : Float) : Float :=
  smaller (larger temperature r.lower) r.upper

/-- Equality of measured values: a field that is not a number equals nothing,
and the two zeros are equal. -/
def sameValues (a b : Reading) : Bool :=
  a.stateCode == b.stateCode && a.current == b.current && a.target == b.target &&
    a.lower == b.lower && a.upper == b.upper && a.minutes == b.minutes && a.energy == b.energy

end Reading

inductive Response
  | fresh (reading : Reading)
  | stale (reading : Reading)
  | noData
  deriving DecidableEq

namespace Response

def reading? : Response → Option Reading
  | .fresh r => some r
  | .stale r => some r
  | .noData => none

def isFresh : Response → Bool
  | .fresh _ => true
  | .stale _ => false
  | .noData => false

def carries (s : Response) (r : Reading) : Bool :=
  match s.reading? with
  | some own => own.sameValues r
  | none => false

def fallback : Option Reading → Response
  | some r => .stale r
  | none => .noData

end Response

end HeaterLink
