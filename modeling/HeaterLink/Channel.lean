/-!
# Channels for events

A channel brings whatever is sent to everyone who subscribed before, and keeps
only the latest values. Here stand the operations of it that events need; how a
channel does them is left open. It numbers its receivers from zero in the order
in which they subscribe.
-/

set_option autoImplicit false

namespace HeaterLink

/-- What one try to take the next value gives. A receiver that fell behind is told
how many values it has missed. -/
inductive Pulled (α : Type)
  | value (a : α)
  | lagged (skipped : Nat)
  | empty
  | closed
  deriving DecidableEq

structure Channel (α : Type) where
  State : Type
  /-- A channel that is asked for room of some size, with one sender and no receivers. -/
  create? : Nat → Option State
  send : State → α → State
  subscribe : State → State
  /-- A receiver goes away. -/
  release : State → Nat → State
  /-- The sender goes away. -/
  close : State → State
  pull : State → Nat → Pulled α × State
  /-- Values that a receiver has missed and was not told of. -/
  missed : State → Nat → Nat
  told : ∀ {s i n s'}, pull s i = (.lagged n, s') → missed s' i < missed s i

inductive Received (α : Type)
  | value (a : α)
  | pending
  | closed
  deriving DecidableEq

/-- Receives the next value. Word of missed values is no answer: the receiver tries
again. -/
def Channel.receive {α : Type} (C : Channel α) (s : C.State) (i : Nat) :
    Received α × C.State :=
  match _ : C.pull s i with
  | (.value a, s') => (.value a, s')
  | (.lagged _, s') => C.receive s' i
  | (.empty, s') => (.pending, s')
  | (.closed, s') => (.closed, s')
termination_by C.missed s i
decreasing_by exact C.told ‹_›

theorem Channel.receive_eq {α : Type} (C : Channel α) (s : C.State) (i : Nat) :
    C.receive s i =
      match C.pull s i with
      | (.value a, s') => (.value a, s')
      | (.lagged _, s') => C.receive s' i
      | (.empty, s') => (.pending, s')
      | (.closed, s') => (.closed, s') := by
  rw [receive]
  split <;> rename_i pulled <;> rw [pulled]

end HeaterLink
