import HeaterLink.Fault
import HeaterLink.Reading

/-!
# Status payloads

A status payload is a block of single-byte fields at fixed offsets and one
two-byte minute counter, most significant byte first. The offsets differ
between firmware revisions. A payload is read whole or refused: one check of
its length covers every field.
-/

set_option autoImplicit false

namespace HeaterLink

structure StatusLayout where
  stateCode : Nat
  current : Nat
  target : Nat
  lower : Nat
  upper : Nat
  minutes : Nat
  deriving DecidableEq, Repr

namespace StatusLayout

def standard : StatusLayout := ⟨1, 4, 5, 6, 7, 35⟩

def minLength (l : StatusLayout) : Nat :=
  [l.stateCode + 1, l.current + 1, l.target + 1, l.lower + 1, l.upper + 1, l.minutes + 2].foldl max 0

def field (payload : Bytes) (offset : Nat) : UInt8 := payload.getD offset 0

def minuteCount (l : StatusLayout) (payload : Bytes) : UInt16 :=
  (field payload l.minutes).toUInt16 * 256 + (field payload (l.minutes + 1)).toUInt16

end StatusLayout

/-- Energy in kilowatt-hours: minutes times watts, then divided by the
watt-minutes of a kilowatt-hour, each step rounded. -/
def energyUsed (minutes : UInt16) (watts : UInt32) : Float :=
  minutes.toFloat * watts.toFloat / 60000.0

open StatusLayout in
def StatusLayout.parse (l : StatusLayout) (watts : UInt32) (payload : Bytes) :
    Except FrameFault Reading :=
  if payload.length < l.minLength then .error (.tooShort l.minLength payload.length)
  else .ok {
    stateCode := field payload l.stateCode
    current := (field payload l.current).toFloat
    target := (field payload l.target).toFloat
    lower := (field payload l.lower).toFloat
    upper := (field payload l.upper).toFloat
    minutes := l.minuteCount payload
    energy := energyUsed (l.minuteCount payload) watts }

end HeaterLink
