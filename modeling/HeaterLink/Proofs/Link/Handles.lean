import HeaterLink.Session.Course
import Mathlib.Data.List.Basic
import Mathlib.Tactic.Common

/-!
# Handles

What a session asks of a handle, and when the radio is done with it, as one
list of signals. A handle is connected first, serves subscriptions and writes
one at a time if that succeeded, and is disconnected at most once, behind which
nothing comes. A lookup is in order only when no handle is in use.
-/

set_option autoImplicit false

namespace HeaterLink

/-- Whatever passes between a session and the radio, as far as handles go. A request
that is dropped is one whose time was over before the radio was done. -/
inductive Signal
  | found (handle : Handle)
  | asked (call : CallId) (request : RadioRequest)
  | ended (call : CallId) (ok : Bool)
  | dropped (call : CallId)
  deriving DecidableEq, Repr

inductive Phase
  | unknown
  | found
  | connecting (call : CallId)
  | refused
  | idle
  | serving (call : CallId)
  | closing (call : CallId)
  | closed
  deriving DecidableEq, Repr

def RadioRequest.handle? : RadioRequest → Option Handle
  | .find _ => none
  | .connect h _ => some h
  | .subscribe h _ => some h
  | .write h _ => some h
  | .disconnect h => some h

namespace Phase

def live : Phase → Bool
  | .unknown => false
  | .closed => false
  | _ => true

def ask (c : CallId) (p : Phase) : RadioRequest → Phase
  | .find _ => p
  | .connect _ _ => .connecting c
  | .subscribe _ _ => .serving c
  | .write _ _ => .serving c
  | .disconnect _ => .closing c

def answered (c : CallId) (ok : Bool) : Phase → Phase
  | .connecting c' => if c' = c then if ok then .idle else .refused else .connecting c'
  | .serving c' => if c' = c then .idle else .serving c'
  | .closing c' => if c' = c then .closed else .closing c'
  | p => p

def next (h : Handle) (p : Phase) : Signal → Phase
  | .found h' => if h' = h then .found else p
  | .asked c r => if r.handle? = some h then p.ask c r else p
  | .ended c ok => p.answered c ok
  | .dropped c => p.answered c false

def Takes (p : Phase) : RadioRequest → Prop
  | .find _ => False
  | .connect _ _ => p = .found
  | .subscribe _ _ => p = .idle
  | .write _ _ => p = .idle
  | .disconnect _ => p = .idle ∨ p = .refused

def Allows (h : Handle) (p : Phase) : Signal → Prop
  | .found h' => h' = h → p = .unknown
  | .asked _ (.find _) => p.live = false
  | .asked _ r => r.handle? = some h → p.Takes r
  | .ended _ _ => True
  | .dropped c => p ≠ .closing c

end Phase

def phase (h : Handle) : List Signal → Phase → Phase
  | [], p => p
  | s :: rest, p => phase h rest (p.next h s)

def Orderly (h : Handle) : List Signal → Phase → Prop
  | [], _ => True
  | s :: rest, p => p.Allows h s ∧ Orderly h rest (p.next h s)

theorem phase_append (h : Handle) (first later : List Signal) (p : Phase) :
    phase h (first ++ later) p = phase h later (phase h first p) := by
  induction first generalizing p with
  | nil => rfl
  | cons s rest ih => exact ih (p.next h s)

theorem orderly_append (h : Handle) (first later : List Signal) (p : Phase) :
    Orderly h (first ++ later) p ↔ Orderly h first p ∧ Orderly h later (phase h first p) := by
  induction first generalizing p with
  | nil => simp [Orderly, phase]
  | cons s rest ih => simp [Orderly, phase, ih, and_assoc]

theorem Phase.answered_ne_unknown {p : Phase} (hp : p ≠ .unknown) (c : CallId) (ok : Bool) :
    p.answered c ok ≠ .unknown := by
  cases p with
  | connecting c' => by_cases e : c' = c <;> cases ok <;> simp [answered, e]
  | serving c' => by_cases e : c' = c <;> simp [answered, e]
  | closing c' => by_cases e : c' = c <;> simp [answered, e]
  | _ => exact hp

theorem Phase.next_ne_unknown {h : Handle} {p : Phase} (hp : p ≠ .unknown) (s : Signal) :
    p.next h s ≠ .unknown := by
  cases s with
  | found h' => by_cases e : h' = h <;> simp [next, e, hp]
  | asked c r =>
    by_cases e : r.handle? = some h
    · cases r <;> simp_all [next, ask]
    · simp [next, e, hp]
  | ended c ok => exact answered_ne_unknown hp c ok
  | dropped c => exact answered_ne_unknown hp c false

theorem phase_ne_unknown {h : Handle} {signals : List Signal} {p : Phase} (hp : p ≠ .unknown) :
    phase h signals p ≠ .unknown := by
  induction signals generalizing p with
  | nil => exact hp
  | cons s rest ih => exact ih (Phase.next_ne_unknown hp s)

/-- A handle that was handed out does not become unknown again. -/
theorem phase_ne_unknown_of_found {h : Handle} {signals : List Signal} (p : Phase)
    (found : .found h ∈ signals) : phase h signals p ≠ .unknown := by
  obtain ⟨first, later, rfl⟩ := List.append_of_mem found
  rw [phase_append]
  refine phase_ne_unknown (p := (phase h first p).next h (.found h)) ?_
  simp [Phase.next]

/-- When a handle is looked up, all that were handed out before have been released. -/
theorem closed_of_find {h : Handle} {first later : List Signal} {c : CallId} {address : String}
    {p : Phase} (orderly : Orderly h (first ++ .asked c (.find address) :: later) p)
    (found : .found h ∈ first) : phase h first p = .closed := by
  have idle : (phase h first p).live = false := ((orderly_append h _ _ p).mp orderly).2.1
  have known := phase_ne_unknown_of_found p found
  cases hphase : phase h first p <;> simp_all [Phase.live]

def Action.signal? : Action → Option Signal
  | .resolve _ found => found.map .found
  | .complete c fault => some (.ended c fault.isNone)
  | _ => none

def Effect.signal? : Effect → Option Signal
  | .requested c r => some (.asked c r)
  | .abandoned c => some (.dropped c)
  | _ => none

def Entry.signals (e : Entry) : List Signal :=
  e.action.signal?.toList ++ e.effects.filterMap Effect.signal?

namespace Course

def signals (x : Course) : List Signal := x.history.flatMap Entry.signals

def phase (x : Course) (h : Handle) : Phase := HeaterLink.phase h x.signals .unknown

theorem signals_snoc {x y : Course} {last : Entry} (hy : y.history = x.history ++ [last]) :
    y.signals = x.signals ++ last.signals := by
  simp [signals, hy]

end Course

end HeaterLink
