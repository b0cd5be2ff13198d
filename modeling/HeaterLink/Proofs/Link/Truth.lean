import HeaterLink.Proofs.Link.Custody
import HeaterLink.Proofs.Link.Telling

/-!
# The truth about the link

Along every course links come and go in turns, if a link that is resumed counts
as one that comes. No event tells of that: the stream of a link ends, the link
is told to be lost, and the next connecting call only subscribes again. Courses
without it, and only these, are told of truthfully.
-/

set_option autoImplicit false

namespace HeaterLink

theorem Inbound.Takes.still {layout : StatusLayout} {watts : UInt32} {i : Inbound} {data : Bytes}
    {after : Inbound × List Effect} (h : i.Takes layout watts data after) :
    ∀ e ∈ after.2, e.still := by
  have warning (e : Effect) (he : e ∈ i.warning data) : e.still := by
    unfold Inbound.warning at he
    split at he
    · cases he
    · obtain rfl := List.mem_singleton.mp he
      rfl
  intro e he
  cases h with
  | short _ => exact warning e he
  | refused _ _ => exact warning e he
  | other _ =>
    rcases List.mem_append.mp he with he | he
    · exact warning e he
    · obtain rfl := List.mem_singleton.mp he
      rfl
  | noted _ _ _ =>
    rcases List.mem_append.mp he with he | he
    · exact warning e he
    · obtain rfl := List.mem_singleton.mp he
      rfl
  | answers _ _ _ _ =>
    rcases List.mem_append.mp he with he | he
    · exact warning e he
    · simp only [List.mem_cons, List.not_mem_nil, or_false] at he
      rcases he with rfl | rfl <;> rfl

theorem Session.Listens.told {s : Session} {i : StreamId} {after : Session × List Effect}
    (h : s.Agrees) (step : s.Listens i after) : Told s.state after.2 after.1.state := by
  cases step with
  | wakes _ _ => exact told_still _ (by simp [Effect.still])
  | @takes stream data rest _ _ _ =>
    refine told_still _ fun e he => ?_
    rcases List.mem_cons.mp he with rfl | he
    · rfl
    · exact (Inbound.take_takes _ _ _ _).still e he
  | @ends stream hs hp _ _ =>
    have runs : s.runs i := by simp [Session.runs, hs, Stream.unfinished, hp]
    have first : Told s.state [.ended i, .cleared] s.state :=
      told_still _ (by simp [Effect.still])
    exact first.trans (told_down (h.settled (h.idle_of_runs runs)).notConnecting)
  | drops _ _ => exact told_still _ (by simp [Effect.still])

namespace Course

variable {wall : Nat → Clock} {config : Config} {x y : Course} {a : Action}

def notices (x : Course) : List Notice := LinkState.initial.notices x.effects

def linkEvents (x : Course) : List Event := x.effects.filterMap Effect.linkEvent?

theorem effects_snoc {last : Entry} (hy : y.history = x.history ++ [last]) :
    y.effects = x.effects ++ last.effects := by
  simp [effects, hy]

structure InTurns (x : Course) : Prop where
  told : Told .initial x.effects x.session.state
  suits : ∀ c call, x.session.calls.get? c = some call → call.stage.Suits x.session.state

theorem InTurns.take {last : Entry} (hx : x.InTurns) (hy : y.history = x.history ++ [last])
    (told : Told x.session.state last.effects y.session.state)
    (suits : ∀ c call, y.session.calls.get? c = some call → call.stage.Suits y.session.state) :
    y.InTurns :=
  ⟨by rw [effects_snoc hy]; exact hx.told.trans told, suits⟩

theorem InTurns.still {last : Entry} (hx : x.InTurns) (hy : y.history = x.history ++ [last])
    (silent : last.effects = []) (state : y.session.state = x.session.state)
    (calls : ∀ c call, y.session.calls.get? c = some call →
      ∃ old, x.session.calls.get? c = some old ∧ old.stage = call.stage) : y.InTurns := by
  refine hx.take hy (by rw [silent, state]; exact told_still _ (by simp)) fun c call hc => ?_
  obtain ⟨old, hold, e⟩ := calls c call hc
  exact state ▸ e ▸ hx.suits c old hold

theorem suits_of_poll {c : CallId} {after : Session × List Effect} (h : x.session.Agrees)
    (hx : x.InTurns) (hp : x.session.poll (x.moment wall) c = some after) (c' : CallId)
    (call : Call) (hc : after.1.calls.get? c' = some call) (other : c' ≠ c) :
    call.stage.Suits after.1.state := by
  rw [Session.poll_get?_other hp other] at hc
  by_cases hu : call.stage.underway
  · obtain ⟨⟨plan, st, answer⟩, act, hcall, hm, rfl⟩ := Session.poll_moves hp
    have holder := h.exclusive c' call hc (Stage.holds_of_underway hu)
    have waits : x.session.queue.holder ≠ some c := by
      rw [holder]
      simpa using other
    have idle : ¬st.holds := fun hh => waits (h.exclusive c _ hcall hh)
    obtain ⟨_, _, _, _, e⟩ := hm.aside idle fun _ _ => waits
    rw [e]
    exact hx.suits c' call hc
  · exact Stage.suits_of_not_underway hu _

theorem inTurns_take? (reached : Reached wall config x) (hx : x.InTurns)
    (step : x.take? wall a = some y) : y.InTurns := by
  obtain ⟨after, hr, rfl⟩ := take?_reacts step
  have agrees := reached_agrees reached
  cases hr with
  | @invoke r =>
    refine hx.take rfl (told_still _ (by simp)) fun c call hc => ?_
    have hc : (x.session.invoke x.nextCall r).calls.get? c = some call := hc
    rw [Session.invoke, Table.get?_insert] at hc
    split at hc
    · obtain rfl := Option.some.inj hc
      trivial
    · exact hx.suits c call hc
  | @poll c _ hp =>
    obtain ⟨⟨plan, st, answer⟩, act, hcall, hm, e⟩ := Session.poll_moves hp
    have tells := Act.Turn.moves_tells agrees (hx.suits c _ hcall) hcall hm
    rw [← e] at tells
    refine hx.take rfl tells.1 fun c' call hc => ?_
    by_cases other : c' = c
    · exact tells.2 call (other ▸ hc)
    · exact suits_of_poll agrees hx hp c' call hc other
  | @listen i _ hl =>
    refine hx.take rfl (hl.told agrees) fun c call hc => ?_
    have hc : x.session.calls.get? c = some call := hl.calls ▸ hc
    cases hl with
    | @ends stream hs hp _ _ =>
      have runs : x.session.runs i := by simp [Session.runs, hs, Stream.unfinished, hp]
      exact Stage.suits_of_not_underway (agrees.idle_of_runs runs c call hc) _
    | _ => exact hx.suits c call hc
  | resolve _ _ =>
    refine hx.still rfl rfl rfl fun c call hc => ?_
    obtain ⟨old, hold, -, e⟩ := Session.get?_of_answer hc
    exact ⟨old, hold, e⟩
  | complete _ _ =>
    refine hx.still rfl rfl rfl fun c call hc => ?_
    obtain ⟨old, hold, -, e⟩ := Session.get?_of_answer hc
    exact ⟨old, hold, e⟩
  | _ => exact hx.still rfl rfl rfl fun c call hc => ⟨call, hc, rfl⟩

theorem reached_inTurns : ∀ x, Reached wall config x → x.InTurns :=
  reached_induction ⟨⟨rfl, trivial, rfl⟩, by simp [start, Session.new]⟩
    fun _ _ _ reached hx step => inTurns_take? reached hx step

/-- Links come and go in turns and the last change says whether there is one. The events tell
the truth about it exactly as long as no link was resumed. -/
theorem reached_notices (reached : Reached wall config x) :
    Alternating false (x.notices.map Notice.isUp) ∧
      lastUp false (x.notices.map Notice.isUp) = x.session.state.isUp ∧
      (Truthful x.linkEvents x.session.state.isUp ↔ .resumed ∉ x.notices) := by
  have told := (reached_inTurns x reached).told
  refine ⟨told.turns, told.last, ?_⟩
  rw [linkEvents, LinkState.linkEvents_eq .initial]
  exact truthful_iff told.turns told.last

def resuming : List Action :=
  opening ++ [.closeStream 0, .listen 0, .invoke 1 .ensureConnected, .poll 1, .poll 1, .poll 1,
    .complete 1 none, .poll 1]

theorem notices_after_reopening :
    ∃ x, Reached noon oneAttempt x ∧ x.notices = [.connected, .disconnected, .connected] ∧
      Truthful x.linkEvents true := by
  have h : ((start oneAttempt).run? noon reopening).map (fun x => (x.notices, x.session.state)) =
      some ([.connected, .disconnected, .connected], .subscribed) := by
    decide +kernel
  obtain ⟨x, hx, e⟩ := Option.map_eq_some_iff.mp h
  obtain ⟨hnotices, hstate⟩ := Prod.mk.inj e
  have truthful := (reached_notices ⟨reopening, hx⟩).2.2
  rw [hnotices, hstate] at truthful
  exact ⟨x, ⟨reopening, hx⟩, hnotices, truthful.mpr (by simp)⟩

/-- A link that is resumed stays told to be lost, and is told to be lost again. -/
theorem resumed_link_untold :
    (∃ x, Reached noon oneAttempt x ∧ x.session.queue.holder = none ∧
      x.session.state = .subscribed ∧ x.linkEvents = [.connected, .disconnected] ∧
      ¬Truthful x.linkEvents x.session.state.isUp) ∧
    ∃ x, Reached noon oneAttempt x ∧ x.session.queue.holder = none ∧
      x.linkEvents = [.connected, .disconnected, .disconnected] ∧
      ¬Alternating false (x.linkEvents.map Event.opens) := by
  constructor
  · have h : ((start oneAttempt).run? noon resuming).map
        (fun x => (x.session.queue.holder, x.session.state, x.linkEvents)) =
          some (none, .subscribed, [.connected, .disconnected]) := by
      decide +kernel
    obtain ⟨x, hx, e⟩ := Option.map_eq_some_iff.mp h
    simp only [Prod.mk.injEq] at e
    obtain ⟨free, state, events⟩ := e
    refine ⟨x, ⟨resuming, hx⟩, free, state, events, fun truthful => ?_⟩
    have last := truthful.2
    rw [events, state] at last
    simp [LinkState.isUp] at last
  · have h : ((start oneAttempt).run? noon
        (resuming ++ [.listen 1, .closeStream 1, .listen 1])).map
        (fun x => (x.session.queue.holder, x.linkEvents)) =
          some (none, [.connected, .disconnected, .disconnected]) := by
      decide +kernel
    obtain ⟨x, hx, e⟩ := Option.map_eq_some_iff.mp h
    obtain ⟨free, events⟩ := Prod.mk.inj e
    refine ⟨x, ⟨_, hx⟩, free, events, ?_⟩
    rw [events]
    simp [Alternating, Event.opens]

end Course

end HeaterLink
