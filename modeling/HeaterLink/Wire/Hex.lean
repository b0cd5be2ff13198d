import HeaterLink.Wire.Fragment

/-!
# Hexadecimal text

Bytes are written with two lower-case digits each.
-/

set_option autoImplicit false

namespace HeaterLink

def hexByte (b : UInt8) : List Char :=
  [Nat.digitChar (b.toNat / 16), Nat.digitChar (b.toNat % 16)]

def hexText (data : Bytes) : String := String.ofList (data.flatMap hexByte)

end HeaterLink
