import HeaterLink.Proofs.Link.Turns

/-!
# The state agrees with the link

Every step of a call or a listener, and everything from outside, keeps the
agreement. So whenever no call holds the link, its state says what it has.
-/

set_option autoImplicit false

namespace HeaterLink

namespace Act.Turn

open Session

variable {t : Turn} {s : Session}

/-- Every way of going on keeps the agreement. -/
theorem moves_agrees {answer : Option RadioAnswer} {st : Stage} {a : Act} {plan : Plan}
    (h : s.Agrees) (hc : s.calls.get? t.call = some ⟨plan, st, answer⟩)
    (step : Moves t s answer st a) : (a s).1.Agrees := by
  have before (hu : ¬st.underway) (call : Call) (hcall : s.calls.get? t.call = some call) :
      ¬call.stage.underway := by
    rw [hc] at hcall
    exact Option.some.inj hcall ▸ hu
  have holder (hh : st.holds) : s.queue.holder = some t.call := h.exclusive _ _ hc hh
  have alone (hh : s.queue.holder = some t.call) : s.Alone t.call := h.alone hh
  have settled (hh : s.queue.holder = some t.call) (hu : ¬st.underway) : s.Settled :=
    h.settled_of_not_underway (alone hh) hc hu
  have fits : s.Fits st := h.fits _ _ hc
  cases step with
  | opens => exact follow_aside h (before (by simp [Stage.underway])) _
  | begins => exact begin_aside h (before (by simp [Stage.underway])) _
  | proceeds hh => exact proceed_agrees (alone hh) hh (settled hh (by simp [Stage.underway])) _
  | leaves _ _ =>
    simp only [all_cons, all_nil, change_apply]
    apply expired_aside
    · exact h.congr (sameLink_of_eq rfl rfl rfl rfl) rfl fun _ e => e
    · exact before (by simp [Stage.underway])
  | released => exact released_agrees (alone (holder rfl)) (holder rfl) fits _
  | finds =>
    simp only [all_cons, all_nil]
    apply goto_agrees
    · exact alone (holder rfl)
    · exact fits
    · exact fun _ => holder rfl
    · simp [Stage.underway]
  | misses => exact tryConnect_agrees (alone (holder rfl)) (holder rfl) fits _ _
  | connected => exact connected_agrees (alone (holder rfl)) (holder rfl) fits _
  | connectFails => exact discard_agrees (alone (holder rfl)) (holder rfl) fits _ _ _
  | connectLate _ =>
    simp only [all_cons, all_nil, tell_apply]
    exact discard_agrees (alone (holder rfl)) (holder rfl) fits _ _ _
  | discarded => exact tryConnect_agrees (alone (holder rfl)) (holder rfl) fits _ _
  | subscribed => exact subscribed_agrees (alone (holder rfl)) fits.1 fits.2
  | subscribeFails => exact subscribeFailed_agrees (alone (holder rfl)) (holder rfl) fits.1 _ _ _
  | subscribeLate _ =>
    simp only [all_cons, all_nil, tell_apply]
    exact subscribeFailed_agrees (alone (holder rfl)) (holder rfl) fits.1 _ _ _
  | pauses _ => exact trySubscribe_agrees (alone (holder rfl)) (holder rfl) fits _ _
  | written =>
    exact written_agrees (alone (holder rfl)) (settled (holder rfl) (by simp [Stage.underway])) _ _
  | writeLate _ =>
    simp only [all_cons, all_nil, tell_apply, releaseLink_fst]
    apply expired_agrees
    · exact alone (holder rfl)
    · exact (settled (holder rfl) (by simp [Stage.underway])).congr
        (sameLink_of_eq rfl rfl rfl rfl)
  | answered _ =>
    exact withdraw_aside h (before (by simp [Stage.underway])) _ fun _ h' b => finish_aside h' b _
  | silent _ _ _ =>
    exact withdraw_aside h (before (by simp [Stage.underway])) _ fun _ h' b => fallBack_aside h' b
  | displaced _ _ => exact fallBack_aside h (before (by simp [Stage.underway]))

end Act.Turn

namespace Session

theorem sameLink_insert {s s' : Session} {i : StreamId} {stream stream' : Stream}
    (hs : s.streams.get? i = some stream) (streams : s'.streams = s.streams.insert i stream')
    (unfinished : stream'.unfinished = stream.unfinished)
    (offered : stream.phase = .offered → stream'.phase = .offered) (state : s'.state = s.state)
    (held : s'.held = s.held) (listener : s'.listener = s.listener) : SameLink s s' := by
  have hget (j : StreamId) :
      s'.streams.get? j = if i = j then some stream' else s.streams.get? j := by
    rw [streams, Table.get?_insert]
  refine ⟨state, by rw [held], listener, fun j => ?_, fun j hj => ?_⟩
  · rw [runs, runs, hget]
    by_cases e : i = j
    · subst e
      simp [hs, unfinished]
    · rw [if_neg e]
  · rw [offers, hget]
    by_cases e : i = j
    · subst e
      simp [offers, hs] at hj
      simp [offered hj]
    · rwa [if_neg e]

theorem sameLink_modify (s : Session) (i : StreamId) {f : Stream → Stream}
    (phase : ∀ stream, (f stream).phase = stream.phase) :
    SameLink s { s with streams := s.streams.modify i f } := by
  have hget (j : StreamId) : ((s.streams.modify i f).get? j).map Stream.phase =
      (s.streams.get? j).map Stream.phase := by
    rw [Table.get?_modify]
    split
    · simp [Option.map_map, Function.comp_def, phase]
    · rfl
  have hany (j : StreamId) (p : StreamPhase → Bool) :
      ((s.streams.modify i f).get? j).any (fun st => p st.phase) =
        (s.streams.get? j).any (fun st => p st.phase) := by
    have := congrArg (Option.any p) (hget j)
    simpa [Option.any_map, Function.comp_def] using this
  refine ⟨rfl, rfl, rfl, fun j => ?_, fun j hj => ?_⟩
  · exact hany j (fun p => p = .waiting || p = .listening)
  · exact (hany j (fun p => p = .offered)).trans hj

theorem sameLink_erase {s : Session} {i : StreamId} {stream : Stream}
    (hs : s.streams.get? i = some stream) (hp : stream.phase = .cancelled) :
    SameLink s { s with streams := s.streams.erase i } := by
  refine ⟨rfl, rfl, rfl, fun j => ?_, fun j hj => ?_⟩
  · show ((s.streams.erase i).get? j).any Stream.unfinished = (s.streams.get? j).any _
    rw [Table.get?_erase]
    split
    · rename_i e
      subst e
      simp [hs, Stream.unfinished, hp]
    · rfl
  · show ((s.streams.erase i).get? j).any _ = true
    rw [Table.get?_erase]
    split
    · rename_i e
      subst e
      simp [offers, hs, hp] at hj
    · exact hj

theorem Listens.of_silent {s : Session} {i : StreamId} {after : Session × List Effect}
    (h : s.Listens i after) (silent : s.runs i = false) :
    after = ({ s with streams := s.streams.erase i }, [.ended i]) ∧ SameLink s after.1 := by
  cases h with
  | wakes hs hp => simp [runs, hs, Stream.unfinished, hp] at silent
  | takes hs hp _ => simp [runs, hs, Stream.unfinished, hp] at silent
  | ends hs hp _ _ => simp [runs, hs, Stream.unfinished, hp] at silent
  | drops hs hp => exact ⟨rfl, sameLink_erase hs hp⟩

theorem Fits.silent {s : Session} {st : Stage} (h : s.Fits st) (hu : st.underway) (i : StreamId) :
    s.runs i = false := by
  cases st with
  | releasing next => exact Unlinked.silent h i
  | seeking made => exact Unlinked.silent h i
  | connecting made handle a => exact Unlinked.silent h i
  | discarding made f => exact Unlinked.silent h i
  | subscribing made j a => exact h.1.silent i
  | pausing made f a => exact Mute.silent h i
  | _ => simp [Stage.underway] at hu

theorem Agrees.idle_of_runs {s : Session} {i : StreamId} (h : s.Agrees) (runs : s.runs i)
    (c : CallId) (call : Call) (hc : s.calls.get? c = some call) : ¬call.stage.underway := by
  intro hu
  rw [(h.fits c call hc).silent hu i] at runs
  cases runs

/-- A listener that comes to its end takes the link down, for a call that changes
the link has cancelled it before. -/
theorem Listens.agrees {s : Session} {i : StreamId} {after : Session × List Effect}
    (h : s.Agrees) (step : s.Listens i after) : after.1.Agrees := by
  cases step with
  | wakes hs hp =>
    refine h.congr (sameLink_insert hs rfl ?_ ?_ rfl rfl rfl) rfl fun _ e => e
    · simp [Stream.unfinished, hp]
    · simp [hp]
  | takes hs hp _ =>
    refine h.congr (sameLink_insert hs rfl ?_ ?_ rfl rfl rfl) rfl fun _ e => e
    · rfl
    · exact fun e => e
  | ends hs hp _ _ =>
    have runs : s.runs i := by simp [Session.runs, hs, Stream.unfinished, hp]
    have idle := h.idle_of_runs runs
    have settled := h.settled idle
    obtain ⟨-, listener⟩ := settled.running i runs
    refine ⟨h.exclusive, fun c call hc => fits_of_not_underway (idle c call hc), fun _ => ?_⟩
    refine ⟨by simp, by simp, by simp, fun j hj => ?_, fun hh => ?_⟩
    · have hj : ((s.streams.erase i).get? j).any Stream.unfinished := hj
      rw [Table.get?_erase] at hj
      split at hj
      · cases hj
      · rename_i e
        rw [(settled.running j hj).2] at listener
        exact absurd (Option.some.inj listener).symm e
    · rw [(settled.unheld hh).2] at listener
      cases listener
  | drops hs hp => exact h.congr (sameLink_erase hs hp) rfl fun _ e => e

theorem answer_agrees {s : Session} (h : s.Agrees) (c : CallId) (a : RadioAnswer) :
    (s.answer c a).Agrees := by
  have link : SameLink s (s.answer c a) := sameLink_of_eq rfl rfl rfl rfl
  refine ⟨fun c' call hc hh => ?_, fun c' call hc => ?_, fun hn => ?_⟩
  · obtain ⟨old, hold, -, e⟩ := get?_of_answer hc
    exact h.exclusive c' old hold (e ▸ hh)
  · obtain ⟨old, hold, -, e⟩ := get?_of_answer hc
    exact link.fits (e ▸ h.fits c' old hold)
  · refine (h.settled fun c' call hc hu => ?_).congr link
    obtain ⟨kept, hkept, -, e⟩ := get?_answer hc a
    exact hn c' kept hkept (e ▸ hu)

theorem agrees_new (config : Config) : (Session.new config).Agrees := by
  refine ⟨fun c call hc => ?_, fun c call hc => ?_, fun _ => ?_⟩
  · simp [Session.new] at hc
  · simp [Session.new] at hc
  · exact Unlinked.settled ⟨rfl, rfl, fun _ => rfl⟩ rfl

theorem agrees_keeps : Keeps Agrees where
  poll := by
    intro s m c after h step
    obtain ⟨⟨plan, st, answer⟩, a, hc, hm, rfl⟩ := poll_moves step
    exact Act.Turn.moves_agrees h hc hm
  listen := fun h step => step.agrees h
  invoke := by
    intro s c r h hc
    refine h.aside (c := c) (sameLink_of_eq rfl rfl rfl rfl) ?_ ?_ ?_ fun _ _ e => e
    · simp [hc]
    · intro call hcall
      rw [invoke, Table.get?_insert, if_pos rfl] at hcall
      obtain rfl := Option.some.inj hcall
      simp [Stage.holds, Stage.underway]
    · intro c' hne
      exact (Table.get?_insert _ _ _ _).trans (if_neg (Ne.symm hne))
  answer := fun c a h => answer_agrees h c a
  deliver := fun i data h => h.congr (sameLink_modify _ i fun _ => rfl) rfl fun _ e => e
  closeStream := fun i h => h.congr (sameLink_modify _ i fun _ => rfl) rfl fun _ e => e
  report := by
    intro s handle up h
    refine h.congr ⟨rfl, ?_, rfl, fun _ => rfl, fun _ e => e⟩ rfl fun _ e => e
    simp [report]
  setRatedPower := fun watts h => h.congr (sameLink_of_eq rfl rfl rfl rfl) rfl fun _ e => e

end Session

namespace Course

variable {wall : Nat → Clock} {config : Config} {x : Course}

theorem reached_agrees (h : Reached wall config x) : x.session.Agrees :=
  reached_keeps (Session.agrees_new config) Session.agrees_keeps x h

/-- Whenever no call holds the link, the state of the session agrees with it. -/
theorem reached_settled (h : Reached wall config x) (free : x.session.queue.holder = none) :
    x.session.Settled := by
  have agrees := reached_agrees h
  refine agrees.settled fun c call hc hu => ?_
  have := agrees.exclusive c call hc (Stage.holds_of_underway hu)
  rw [free] at this
  cases this

theorem settled_after_opening :
    ∃ x, Reached noon oneAttempt x ∧ x.session.queue.holder = none ∧
      x.session.state = .subscribed ∧ x.session.Settled := by
  have h : ((start oneAttempt).run? noon opening).map
      (fun x => (x.session.state, x.session.queue.holder)) = some (.subscribed, none) := by
    decide +kernel
  obtain ⟨x, hx, e⟩ := Option.map_eq_some_iff.mp h
  obtain ⟨hstate, hholder⟩ := Prod.mk.inj e
  exact ⟨x, ⟨opening, hx⟩, hholder, hstate, reached_settled ⟨opening, hx⟩ hholder⟩

end Course

end HeaterLink
