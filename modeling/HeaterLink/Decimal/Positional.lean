import HeaterLink.Decimal.Shortest

/-!
# Positional text of a double

A double is written with the fewest digits that read back as the same double,
without exponent and without a fraction of zero. The sign of zero is written.
-/

set_option autoImplicit false

namespace HeaterLink.Decimal

/-- The mantissa of a double has fifty-three bits and its exponent ends at -1074. -/
def Binary.ofParts (mantissa : Nat) (exponent : Int) : Binary :=
  ⟨mantissa, exponent, mantissa = Nat.pow 2 52 ∧ -1074 < exponent⟩

def text (d : Decimal) : String :=
  let digits := Nat.toDigits 10 d.digits
  let zeros (n : Nat) := List.replicate n '0'
  if 0 ≤ d.exponent then String.ofList (digits ++ zeros d.exponent.toNat)
  else
    let places := (-d.exponent).toNat
    if places < digits.length then
      String.ofList (digits.take (digits.length - places) ++ '.' :: digits.drop (digits.length - places))
    else String.ofList ('0' :: '.' :: (zeros (places - digits.length) ++ digits))

open Float.Model in
def signText : UnpackedFloat.Sign → String
  | .negative => "-"
  | .positive => ""

open Float.Model in
def positional (x : Float) : String :=
  match x.toModel.unpack with
  | .notANumber => "NaN"
  | .infinity s => signText s ++ "inf"
  | .zero s => signText s ++ "0"
  | .finite s m e _ => signText s ++ (shortest (Binary.ofParts m e)).text

end HeaterLink.Decimal
