import HeaterLink.Proofs.Session.Turns
import HeaterLink.Session.Course

/-!
# Invariants of sessions

What can happen to a session is a step of a call, a step of a listener, or
something from outside. A property of a new session that all of these keep is
a property of every session that a course reaches. A new call is always one
that the session does not know yet.
-/

set_option autoImplicit false

namespace HeaterLink

structure Session.Keeps (P : Session → Prop) : Prop where
  poll : ∀ {s m c after}, P s → s.poll m c = some after → P after.1
  listen : ∀ {s i after}, P s → s.Listens i after → P after.1
  invoke : ∀ {s c} (r : Request), P s → s.calls.get? c = none → P (s.invoke c r)
  answer : ∀ {s} (c : CallId) (a : RadioAnswer), P s → P (s.answer c a)
  deliver : ∀ {s} (i : StreamId) (data : Bytes), P s → P (s.deliver i data)
  closeStream : ∀ {s} (i : StreamId), P s → P (s.closeStream i)
  report : ∀ {s} (h : Handle) (up : Bool), P s → P (s.report h up)
  setRatedPower : ∀ {s} (watts : UInt32), P s → P (s.setRatedPower watts)

namespace Session

variable {s : Session} {c c' : CallId} {call : Call}

theorem answer_get? (s : Session) (c : CallId) (a : RadioAnswer) (c' : CallId) :
    ((s.answer c a).calls.get? c').map (fun call => (call.plan, call.stage)) =
      (s.calls.get? c').map fun call => (call.plan, call.stage) := by
  rw [answer, Table.get?_modify]
  split
  · cases s.calls.get? c' with
    | none => rfl
    | some call => by_cases h : call.stage.awaitsRadio <;> simp [h]
  · rfl

theorem get?_of_answer {a : RadioAnswer} (h : (s.answer c' a).calls.get? c = some call) :
    ∃ old, s.calls.get? c = some old ∧ old.plan = call.plan ∧ old.stage = call.stage := by
  have := answer_get? s c' a c
  rw [h] at this
  simpa using this.symm

theorem get?_answer (h : s.calls.get? c = some call) (a : RadioAnswer) :
    ∃ kept, (s.answer c' a).calls.get? c = some kept ∧ kept.plan = call.plan ∧
      kept.stage = call.stage := by
  have := answer_get? s c' a c
  rw [h] at this
  simpa using this

end Session

namespace Course

inductive Reacts (wall : Nat → Clock) (x : Course) : Action → Session × List Effect → Prop
  | invoke {r : Request} : Reacts wall x (.invoke x.nextCall r) (x.session.invoke x.nextCall r, [])
  | poll {c : CallId} {after : Session × List Effect} :
      x.session.poll (x.moment wall) c = some after → Reacts wall x (.poll c) after
  | listen {i : StreamId} {after : Session × List Effect} :
      x.session.Listens i after → Reacts wall x (.listen i) after
  | resolve {c : CallId} {made : Nat} {found : Option Handle} :
      x.unanswered? c = some (.seeking made) → found.all (· = x.nextHandle) →
      Reacts wall x (.resolve c found) (x.session.answer c (.found found), [])
  | complete {c : CallId} {st : Stage} {fault : Option Fault} :
      x.unanswered? c = some st → (∀ made, st ≠ .seeking made) →
      Reacts wall x (.complete c fault) (x.session.answer c (.finished fault), [])
  | deliver {i : StreamId} {data : Bytes} : x.hasRoom i →
      Reacts wall x (.deliver i data) (x.session.deliver i data, [])
  | closeStream {i : StreamId} : Reacts wall x (.closeStream i) (x.session.closeStream i, [])
  | report {h : Handle} {up : Bool} : Reacts wall x (.report h up) (x.session.report h up, [])
  | setRatedPower {watts : UInt32} :
      Reacts wall x (.setRatedPower watts) (x.session.setRatedPower watts, [])
  | pass {ms : Nat} : Reacts wall x (.pass ms) (x.session, [])

variable {wall : Nat → Clock} {config : Config} {x y : Course} {a : Action}

theorem react?_reacts {after : Session × List Effect} (h : x.react? wall a = some after) :
    x.Reacts wall a after := by
  cases a with
  | invoke c r =>
    simp only [react?] at h
    split at h
    · rename_i hc
      obtain rfl := Option.some.inj h
      exact hc ▸ .invoke
    · cases h
  | poll c => exact .poll h
  | listen i => exact .listen (Session.listen_listens h)
  | resolve c found =>
    simp only [react?] at h
    split at h
    · rename_i hu
      split at h
      · rename_i hf
        obtain rfl := Option.some.inj h
        exact .resolve hu hf
      · cases h
    · cases h
  | complete c fault =>
    simp only [react?] at h
    split at h
    · cases h
    · cases h
    · rename_i st hst hu
      obtain rfl := Option.some.inj h
      exact .complete hu hst
  | deliver i data =>
    simp only [react?] at h
    split at h
    · rename_i hi
      obtain rfl := Option.some.inj h
      exact .deliver hi
    · cases h
  | closeStream i =>
    obtain rfl := Option.some.inj h
    exact .closeStream
  | report handle up =>
    obtain rfl := Option.some.inj h
    exact .report
  | setRatedPower watts =>
    obtain rfl := Option.some.inj h
    exact .setRatedPower
  | pass ms =>
    obtain rfl := Option.some.inj h
    exact .pass

theorem take?_reacts (h : x.take? wall a = some y) :
    ∃ after, x.Reacts wall a after ∧
      y = { x.advance a with
        session := after.1
        history := x.history ++ [⟨x.now, a, x.session, after.2⟩] } := by
  obtain ⟨s, effects, hr, hy⟩ := take?_eq_some h
  exact ⟨(s, effects), react?_reacts hr, hy⟩

theorem Reacts.turn {after : Session × List Effect} (h : x.Reacts wall a after) :
    (∃ c, a = .poll c ∧ x.session.poll (x.moment wall) c = some after) ∨ ∀ c, a ≠ .poll c := by
  cases h with
  | @poll c _ hp => exact .inl ⟨c, rfl, hp⟩
  | _ => exact .inr (by simp)

/-- A call is as it was but for an answer of the radio, has taken its turn, or is new. -/
theorem Reacts.call {after : Session × List Effect} (h : x.Reacts wall a after) {c : CallId}
    {call : Call} (hc : after.1.calls.get? c = some call) :
    (∃ old, x.session.calls.get? c = some old ∧ old.plan = call.plan ∧ old.stage = call.stage ∧
        a ≠ .poll c) ∨
      (∃ old, x.session.calls.get? c = some old ∧ a = .poll c ∧
        Act.Turn.Leads ⟨x.moment wall, c, old.plan⟩ x.session old.stage after) ∨
      ∃ r, a = .invoke c r ∧ call = ⟨.finish, .opening r, none⟩ := by
  cases h with
  | @poll c' _ hp =>
    by_cases e : c = c'
    · subst e
      obtain ⟨old, hold, hl⟩ := Session.poll_leads hp
      exact .inr (.inl ⟨old, hold, rfl, hl⟩)
    · rw [Session.poll_get?_other hp e] at hc
      exact .inl ⟨call, hc, rfl, rfl, by simpa using Ne.symm e⟩
  | @invoke r =>
    rw [Session.invoke, Table.get?_insert] at hc
    split at hc
    · rename_i e
      exact .inr (.inr ⟨r, by rw [e], (Option.some.inj hc).symm⟩)
    · exact .inl ⟨call, hc, rfl, rfl, by simp⟩
  | listen hl => exact .inl ⟨call, hl.calls ▸ hc, rfl, rfl, by simp⟩
  | resolve _ _ =>
    obtain ⟨old, hold, hplan, hstage⟩ := Session.get?_of_answer hc
    exact .inl ⟨old, hold, hplan, hstage, by simp⟩
  | complete _ _ =>
    obtain ⟨old, hold, hplan, hstage⟩ := Session.get?_of_answer hc
    exact .inl ⟨old, hold, hplan, hstage, by simp⟩
  | _ => exact .inl ⟨call, hc, rfl, rfl, by simp⟩

/-- A known call stays at its stage until it takes a turn. -/
theorem Reacts.stays {after : Session × List Effect} (h : x.Reacts wall a after)
    (known : ∀ c, x.nextCall ≤ c → x.session.calls.get? c = none) {c : CallId} {call : Call}
    (hc : x.session.calls.get? c = some call) (other : a ≠ .poll c) :
    ∃ kept, after.1.calls.get? c = some kept ∧ kept.plan = call.plan ∧
      kept.stage = call.stage := by
  cases h with
  | @poll c' _ hp =>
    have hne : c ≠ c' := fun e => other (e ▸ rfl)
    exact ⟨call, (Session.poll_get?_other hp hne).trans hc, rfl, rfl⟩
  | invoke =>
    have hne : x.nextCall ≠ c := by
      rintro rfl
      rw [known _ (Nat.le_refl _)] at hc
      cases hc
    exact ⟨call, ((Table.get?_insert _ _ _ _).trans (if_neg hne)).trans hc, rfl, rfl⟩
  | listen hl => exact ⟨call, hl.calls ▸ hc, rfl, rfl⟩
  | resolve _ _ => exact Session.get?_answer hc _
  | complete _ _ => exact Session.get?_answer hc _
  | _ => exact ⟨call, hc, rfl, rfl⟩

theorem Reacts.nextCall_le {after : Session × List Effect} (h : x.Reacts wall a after) :
    x.nextCall ≤ (x.advance a).nextCall := by
  cases h with
  | invoke => exact Nat.le_succ _
  | @resolve _ _ found _ _ => cases found <;> exact Nat.le_refl _
  | _ => exact Nat.le_refl _

def Numbered (x : Course) : Prop := ∀ c, x.nextCall ≤ c → x.session.calls.get? c = none

theorem numbered_take? (h : x.Numbered) (step : x.take? wall a = some y) : y.Numbered := by
  obtain ⟨after, hr, rfl⟩ := take?_reacts step
  intro c hc
  have hx : x.session.calls.get? c = none := h c (Nat.le_trans hr.nextCall_le hc)
  show after.1.calls.get? c = none
  cases hget : after.1.calls.get? c with
  | none => rfl
  | some call =>
    rcases hr.call hget with ⟨old, hold, -⟩ | ⟨old, hold, -⟩ | ⟨r, rfl, -⟩
    · rw [hx] at hold
      cases hold
    · rw [hx] at hold
      cases hold
    · exact absurd hc (Nat.not_succ_le_self c)

theorem reached_numbered : ∀ x, Reached wall config x → x.Numbered :=
  reached_induction (fun _ _ => rfl) fun _ _ _ _ h step => numbered_take? h step

theorem reached_keeps {P : Session → Prop} (base : P (Session.new config))
    (keeps : Session.Keeps P) :
    ∀ x, Reached wall config x → P x.session := by
  refine reached_induction base fun x a y hx h step => ?_
  obtain ⟨after, hr, rfl⟩ := take?_reacts step
  show P after.1
  cases hr with
  | invoke => exact keeps.invoke _ h (reached_numbered x hx _ (Nat.le_refl _))
  | poll hp => exact keeps.poll h hp
  | listen hl => exact keeps.listen h hl
  | resolve => exact keeps.answer _ _ h
  | complete => exact keeps.answer _ _ h
  | deliver => exact keeps.deliver _ _ h
  | closeStream => exact keeps.closeStream _ h
  | report => exact keeps.report _ _ h
  | setRatedPower => exact keeps.setRatedPower _ h
  | pass => exact h

/-! Courses on a clock that waits. -/

theorem runInTime?_append (wall : Nat → Clock) (x : Course) (first later : List Action) :
    x.runInTime? wall (first ++ later) =
      (x.runInTime? wall first).bind fun y => y.runInTime? wall later := by
  induction first generalizing x with
  | nil => rfl
  | cons a rest ih =>
    by_cases timely : x.inTime wall a
    · cases h : x.take? wall a <;> simp [runInTime?, timely, h, ih]
    · simp [runInTime?, timely]

theorem inTime_take? (h : ReachedInTime wall config x) (timely : x.inTime wall a)
    (step : x.take? wall a = some y) : ReachedInTime wall config y := by
  obtain ⟨actions, h⟩ := h
  exact ⟨actions ++ [a], by simp [runInTime?_append, h, runInTime?, timely, step]⟩

/-- What a new session has and every action that a clock that waits allows keeps. -/
theorem inTime_induction {P : Course → Prop} (base : P (start config))
    (step : ∀ x a y, ReachedInTime wall config x → P x → x.inTime wall a → x.take? wall a = some y →
      P y) : ∀ x, ReachedInTime wall config x → P x := by
  suffices h : ∀ actions x y, ReachedInTime wall config x → P x →
      x.runInTime? wall actions = some y → P y by
    rintro x ⟨actions, hx⟩
    exact h actions _ x ⟨[], rfl⟩ base hx
  intro actions
  induction actions with
  | nil => exact fun x y _ hx hy => Option.some.inj hy ▸ hx
  | cons a rest ih =>
    intro x y hr hx hy
    simp only [runInTime?] at hy
    split at hy
    · rename_i timely
      obtain ⟨z, hz, hy⟩ := Option.bind_eq_some_iff.mp hy
      exact ih z y (inTime_take? hr timely hz) (step x a z hr hx timely hz) hy
    · cases hy

/-! A short course on which results are tried. -/

def noon (_ : Nat) : Clock := ⟨⟨2024, 2, 29⟩, ⟨12, 0, 0⟩⟩

def oneAttempt : Config := ⟨"C0FFEE", 400, ⟨1, 100⟩, ⟨1, 100⟩, 10, 2000, 5000, Profile.standard⟩

def opening : List Action :=
  [.invoke 0 .ensureConnected, .poll 0, .poll 0, .poll 0, .resolve 0 (some 0), .poll 0,
    .complete 0 none, .poll 0, .complete 0 none, .poll 0, .listen 0]

end Course

end HeaterLink
