import HeaterLink.Text.UpperCase
import HeaterLink.Wire.Status

/-!
# Configuration of a device

Budgets, time limits in milliseconds, and the profile of the firmware. The
address given by a user is put into upper case once, here.
-/

set_option autoImplicit false

namespace HeaterLink

structure Budget where
  attempts : Nat
  limit : Nat
  deriving DecidableEq, Repr

structure Profile where
  lengths : LengthTable
  layout : StatusLayout
  dropRepeats : Bool
  deriving DecidableEq, Repr

namespace Profile

def standard : Profile := ⟨LengthTable.standard, StatusLayout.standard, false⟩

/-- Firmware that announces its schedules with the code 153. -/
def schedule153 : Profile := { standard with lengths := ⟨2, 49, 153, 1⟩ }

end Profile

structure Config where
  address : String
  ratedPower : UInt32
  connect : Budget
  subscribe : Budget
  retryDelay : Nat
  responseLimit : Nat
  writeLimit : Nat
  profile : Profile
  deriving DecidableEq, Repr

namespace Config

def forAddress (address : String) : Config where
  address := Text.upperCase address
  ratedPower := 400
  connect := ⟨8, 12000⟩
  subscribe := ⟨4, 5000⟩
  retryDelay := 1000
  responseLimit := 2000
  writeLimit := 5000
  profile := Profile.standard

inductive Change
  | ratedPower (watts : UInt32)
  | connect (budget : Budget)
  | subscribe (budget : Budget)
  | retryDelay (ms : Nat)
  | responseLimit (ms : Nat)
  | writeLimit (ms : Nat)
  | profile (profile : Profile)
  | address (exact : String)
  deriving DecidableEq, Repr

def change (c : Config) : Change → Config
  | .ratedPower w => { c with ratedPower := w }
  | .connect b => { c with connect := b }
  | .subscribe b => { c with subscribe := b }
  | .retryDelay ms => { c with retryDelay := ms }
  | .responseLimit ms => { c with responseLimit := ms }
  | .writeLimit ms => { c with writeLimit := ms }
  | .profile p => { c with profile := p }
  | .address a => { c with address := a }

def changes (c : Config) : List Change → List Config
  | [] => []
  | x :: rest => c.change x :: (c.change x).changes rest

/-- Equal in every setting but the rated power. -/
def sameLink (a b : Config) : Bool := { a with ratedPower := b.ratedPower } = b

end Config

end HeaterLink
