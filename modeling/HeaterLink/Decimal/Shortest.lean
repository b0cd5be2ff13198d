/-!
# Shortest decimals

A positive binary number `m * 2^q` is surrounded by the numbers that round to
it. `shortest` gives the decimal with the fewest digits among them, and of
those the nearest; an exact tie goes up. Everything is compared in natural
numbers, so nothing is rounded on the way.
-/

set_option autoImplicit false

namespace HeaterLink

structure Decimal where
  digits : Nat
  exponent : Int
  deriving DecidableEq, Repr

namespace Decimal

/-- A positive binary number with its neighbours: `mantissa * 2^exponent`. The
gap below is half as wide when the mantissa is the least of its binade. -/
structure Binary where
  mantissa : Nat
  exponent : Int
  narrowBelow : Bool
  deriving DecidableEq, Repr

namespace Binary

structure Scaled where
  low : Nat
  value : Nat
  high : Nat
  unit : Nat

def scaled (b : Binary) : Scaled :=
  let up := Nat.pow 2 b.exponent.toNat
  let half := if b.narrowBelow then 1 else 2
  { low := (4 * b.mantissa - half) * up
    value := 4 * b.mantissa * up
    high := (4 * b.mantissa + 2) * up
    unit := 4 * Nat.pow 2 (-b.exponent).toNat }

/-- The ends of the interval round to a number with an even mantissa. -/
def covers (b : Binary) (s : Scaled) (numerator : Nat) : Bool :=
  if b.mantissa % 2 = 0 then s.low ≤ numerator && numerator ≤ s.high
  else s.low < numerator && numerator < s.high

end Binary

def leadingZeros (num den : Nat) : Nat → Nat
  | 0 => 0
  | bound + 1 => if den ≤ num then 0 else leadingZeros (num * 10) den bound + 1

def order (num den : Nat) : Int :=
  if den ≤ num then ((Nat.toDigits 10 (num / den)).length : Int) - 1
  else -(leadingZeros num den 400 : Int)

/-- The two neighbours of the value on the grid of multiples of `10^p`, if the
interval holds one of them; of both the nearer, a tie up. -/
def onGrid (b : Binary) (p : Int) : Option Decimal :=
  let s := b.scaled
  let tens := Nat.pow 10 p.toNat
  let tenths := Nat.pow 10 (-p).toNat
  let step := tens * s.unit
  let floor := s.value * tenths / step
  let below := floor * step
  let above := (floor + 1) * step
  let grown : Binary.Scaled := ⟨s.low * tenths, s.value * tenths, s.high * tenths, s.unit⟩
  match b.covers grown below, b.covers grown above with
  | true, true =>
    if grown.value - below < above - grown.value then some ⟨floor, p⟩ else some ⟨floor + 1, p⟩
  | true, false => some ⟨floor, p⟩
  | false, true => some ⟨floor + 1, p⟩
  | false, false => none

def trim (d : Decimal) : Nat → Decimal
  | 0 => d
  | bound + 1 =>
    if d.digits % 10 = 0 ∧ d.digits ≠ 0 then trim ⟨d.digits / 10, d.exponent + 1⟩ bound else d

/-- Seventeen digits always tell a double from its neighbours. -/
def shortest (b : Binary) : Decimal :=
  let s := b.scaled
  let lead := order s.value s.unit
  match (List.range 17).findSome? fun (k : Nat) => onGrid b (lead - k) with
  | some d => trim d 17
  | none => ⟨0, 0⟩

end Decimal

end HeaterLink
