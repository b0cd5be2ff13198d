import HeaterLink.Config
import HeaterLink.Table

/-!
# The registry

One device per address. A configuration that differs from the registered one
in the rated power alone keeps the device; any other change takes its place.
-/

set_option autoImplicit false

namespace HeaterLink

structure Registered (δ : Type) where
  config : Config
  device : δ
  deriving DecidableEq

abbrev Registry (δ : Type) := Table String (Registered δ)

inductive Registration (δ : Type)
  /-- The device that was registered stays, and takes the new rated power. -/
  | kept (device : δ)
  /-- The new device is registered; the one it displaces is to be disconnected. -/
  | placed (displaced : Option δ)
  deriving DecidableEq

namespace Registry

variable {δ : Type}

def register (r : Registry δ) (config : Config) (device : δ) : Registry δ × Registration δ :=
  match r.get? config.address with
  | none => (r.insert config.address ⟨config, device⟩, .placed none)
  | some old =>
    if old.config.sameLink config then (r, .kept old.device)
    else (r.insert config.address ⟨config, device⟩, .placed (some old.device))

/-- Any spelling of an address finds what is registered under its upper-case form. -/
def find? (r : Registry δ) (address : String) : Option (Registered δ) :=
  r.get? (Text.upperCase address)

/-- The device that is removed is to be disconnected. -/
def remove (r : Registry δ) (address : String) : Registry δ × Option δ :=
  (r.erase (Text.upperCase address), (r.find? address).map (·.device))

def addresses (r : Registry δ) : List String := r.keys

end Registry

end HeaterLink
