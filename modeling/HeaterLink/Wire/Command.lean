import HeaterLink.Calendar
import HeaterLink.Fault
import HeaterLink.Wire.Fragment

/-!
# Command frames

A command frame is the magic bytes, a length code that counts itself and
everything behind it, two reserved zero bytes, an opcode and its arguments.
The hello carries the local time as seven bytes of two decimal digits each.
-/

set_option autoImplicit false

namespace HeaterLink

inductive Opcode
  | noOp
  | turnOff
  | hello
  | turnOn
  deriving DecidableEq, Repr

def Opcode.byte : Opcode → UInt8
  | .noOp => 0x0D
  | .turnOff => 0x82
  | .hello => 0x83
  | .turnOn => 0x84

inductive Command
  | noOp
  | turnOff
  | hello (clock : Clock)
  | turnOn (degrees : UInt8)
  deriving DecidableEq, Repr

def packDigits (n : Nat) : UInt8 := UInt8.ofNat (n % 100 / 10 * 16 + n % 10)

/-- Second, minute, hour, day, weekday, month and the last two digits of the year. -/
def Clock.bytes (c : Clock) : Bytes :=
  [c.time.second, c.time.minute, c.time.hour, c.date.day, c.date.weekday, c.date.month,
    (c.date.year % 100).toNat].map packDigits

namespace Command

def opcode : Command → Opcode
  | .noOp => .noOp
  | .turnOff => .turnOff
  | .hello _ => .hello
  | .turnOn _ => .turnOn

def arguments : Command → Bytes
  | .noOp => []
  | .turnOff => [0]
  | .hello c => c.bytes
  | .turnOn d => [d]

def frame (c : Command) : Bytes :=
  magic ++ UInt8.ofNat (4 + c.arguments.length) :: 0 :: 0 :: c.opcode.byte :: c.arguments

end Command

def roundHalfUp (m : Nat) (e : Int) : Nat :=
  let scale := Nat.pow 2 (-e).toNat
  (2 * m * Nat.pow 2 e.toNat + scale) / (2 * scale)

open Float.Model in
/-- The whole number of degrees nearest to a temperature, halves away from
zero, if it fits into a byte. -/
def wholeDegrees? (temperature : Float) : Option UInt8 :=
  match temperature.toModel.unpack with
  | .notANumber => none
  | .infinity _ => none
  | .zero _ => some 0
  | .finite .positive m e _ =>
    if roundHalfUp m e ≤ 255 then some (UInt8.ofNat (roundHalfUp m e)) else none
  | .finite .negative m e _ => if roundHalfUp m e = 0 then some 0 else none

def Command.turnOnAt (temperature : Float) : Except FrameFault Command :=
  match wholeDegrees? temperature with
  | some degrees => .ok (.turnOn degrees)
  | none => .error (.temperatureOutOfRange temperature)

end HeaterLink
