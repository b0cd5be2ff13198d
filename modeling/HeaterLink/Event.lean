import HeaterLink.Reading

/-!
# Events

What a session tells its subscribers.
-/

set_option autoImplicit false

namespace HeaterLink

inductive Event
  | connected
  | disconnected
  | reading (reading : Reading)
  | message (kind : MessageKind)
  | malformedHeader
  deriving DecidableEq

end HeaterLink
