import HeaterLink.Session.Course
import Mathlib.Data.List.Basic
import Mathlib.Tactic.Common

/-!
# Notices of the link

What a session tells of its link, read off its effects together with the state
that they enter. One change is not told: a subscription that succeeds over a
link that had been told to be lost. With that change counted, links come and go
in turns; without it, the events do so only while it has not happened.
-/

set_option autoImplicit false

namespace HeaterLink

def LinkState.isUp : LinkState → Bool
  | .connected => true
  | .subscribed => true
  | _ => false

/-- A change of the link. `resumed` is the one that no event tells. -/
inductive Notice
  | connected
  | resumed
  | disconnected
  deriving DecidableEq, Repr

namespace Notice

def isUp : Notice → Bool
  | .disconnected => false
  | _ => true

def event? : Notice → Option Event
  | .connected => some .connected
  | .resumed => none
  | .disconnected => some .disconnected

end Notice

def Event.opens : Event → Bool
  | .connected => true
  | _ => false

def Effect.linkEvent? : Effect → Option Event
  | .emitted .connected => some .connected
  | .emitted .disconnected => some .disconnected
  | _ => none

namespace LinkState

def follow (state : LinkState) : Effect → LinkState
  | .entered next => next
  | _ => state

def notice? (state : LinkState) : Effect → Option Notice
  | .emitted .connected => some .connected
  | .emitted .disconnected => some .disconnected
  | .entered .subscribed => if state = .disconnected then some .resumed else none
  | _ => none

def followAll : LinkState → List Effect → LinkState
  | state, [] => state
  | state, e :: rest => followAll (state.follow e) rest

def notices : LinkState → List Effect → List Notice
  | _, [] => []
  | state, e :: rest => (state.notice? e).toList ++ notices (state.follow e) rest

theorem followAll_append (state : LinkState) (first later : List Effect) :
    state.followAll (first ++ later) = (state.followAll first).followAll later := by
  induction first generalizing state with
  | nil => rfl
  | cons e rest ih => exact ih (state.follow e)

theorem notices_append (state : LinkState) (first later : List Effect) :
    state.notices (first ++ later) =
      state.notices first ++ (state.followAll first).notices later := by
  induction first generalizing state with
  | nil => rfl
  | cons e rest ih => simp [notices, followAll, ih, List.append_assoc]

/-- The events of a session are its notices, but for what is not told. -/
theorem linkEvents_eq (state : LinkState) (effects : List Effect) :
    effects.filterMap Effect.linkEvent? = (state.notices effects).filterMap Notice.event? := by
  induction effects generalizing state with
  | nil => rfl
  | cons e rest ih =>
    have head : e.linkEvent?.toList = (state.notice? e).toList.filterMap Notice.event? := by
      cases e with
      | emitted event => cases event <;> rfl
      | entered next =>
        cases next with
        | subscribed =>
          by_cases h : state = .disconnected <;>
            simp [notice?, h, Effect.linkEvent?, Notice.event?]
        | _ => rfl
      | _ => rfl
    rw [notices, List.filterMap_append, ← head, ← ih]
    cases h : e.linkEvent? <;> simp [h]

end LinkState

def Alternating : Bool → List Bool → Prop
  | _, [] => True
  | up, next :: rest => next = !up ∧ Alternating next rest

def lastUp : Bool → List Bool → Bool
  | up, [] => up
  | _, next :: rest => lastUp next rest

theorem alternating_append (up : Bool) (first later : List Bool) :
    Alternating up (first ++ later) ↔
      Alternating up first ∧ Alternating (lastUp up first) later := by
  induction first generalizing up with
  | nil => simp [Alternating, lastUp]
  | cons next rest ih => simp [Alternating, lastUp, ih, and_assoc]

theorem lastUp_append (up : Bool) (first later : List Bool) :
    lastUp up (first ++ later) = lastUp (lastUp up first) later := by
  induction first generalizing up with
  | nil => rfl
  | cons next rest ih => exact ih next

def Truthful (events : List Event) (up : Bool) : Prop :=
  Alternating false (events.map Event.opens) ∧ (events.getLast? = some .connected ↔ up)

theorem lastUp_opens (up : Bool) (events : List Event) :
    lastUp up (events.map Event.opens) = (events.getLast?.map Event.opens).getD up := by
  induction events generalizing up with
  | nil => rfl
  | cons e rest ih =>
    rw [List.map_cons, lastUp, ih, List.getLast?_cons]
    cases rest.getLast? <;> rfl

theorem lastUp_opens_iff (events : List Event) :
    lastUp false (events.map Event.opens) ↔ events.getLast? = some .connected := by
  rw [lastUp_opens]
  cases events.getLast? with
  | none => simp
  | some e => cases e <;> simp [Event.opens]

theorem events_of_told {notices : List Notice} (told : .resumed ∉ notices) :
    (notices.filterMap Notice.event?).map Event.opens = notices.map Notice.isUp := by
  induction notices with
  | nil => rfl
  | cons n rest ih =>
    have ih := ih fun h => told (List.mem_cons_of_mem n h)
    cases n with
    | resumed => exact absurd List.mem_cons_self told
    | connected => simp [Notice.event?, Notice.isUp, Event.opens, ih]
    | disconnected => simp [Notice.event?, Notice.isUp, Event.opens, ih]

/-- A change that is not told leaves the events out of turn, or the last of them behind. -/
theorem told_of_events {notices : List Notice} {up : Bool}
    (turns : Alternating up (notices.map Notice.isUp))
    (events : Alternating up ((notices.filterMap Notice.event?).map Event.opens))
    (last : lastUp up ((notices.filterMap Notice.event?).map Event.opens) =
      lastUp up (notices.map Notice.isUp)) : .resumed ∉ notices := by
  induction notices generalizing up with
  | nil => simp
  | cons n rest ih =>
    obtain ⟨turn, turns⟩ := turns
    cases n with
    | resumed =>
      obtain rfl : up = false := by simpa [Notice.isUp] using turn.symm
      cases rest with
      | nil => cases last
      | cons m rest =>
        cases m with
        | disconnected => cases events.1
        | connected => cases turns.1
        | resumed => cases turns.1
    | connected => simpa using ih turns events.2 last
    | disconnected => simpa using ih turns events.2 last

/-- Of changes that come in turns, the events are truthful exactly if all of them are told. -/
theorem truthful_iff {notices : List Notice} {up : Bool}
    (turns : Alternating false (notices.map Notice.isUp))
    (last : lastUp false (notices.map Notice.isUp) = up) :
    Truthful (notices.filterMap Notice.event?) up ↔ .resumed ∉ notices := by
  rw [Truthful, ← lastUp_opens_iff, ← last]
  constructor
  · rintro ⟨events, same⟩
    exact told_of_events turns events (Bool.eq_iff_iff.mpr same)
  · intro told
    rw [events_of_told told]
    exact ⟨turns, Iff.rfl⟩

end HeaterLink
