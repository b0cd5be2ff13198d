import HeaterLink.Proofs.Link.Agreement
import HeaterLink.Proofs.Link.Notices
import HeaterLink.Proofs.Requests.Tokens

/-!
# Telling of the link

A session tells of its link when it gets one and when it has lost one. Every
turn tells in turn, for the stage of the call that changes the link says which
state it finds. So the only change that goes untold is a subscription over a
link that had been told to be lost because its stream had ended.
-/

set_option autoImplicit false

namespace HeaterLink

structure Told (state : LinkState) (effects : List Effect) (state' : LinkState) : Prop where
  leads : state.followAll effects = state'
  turns : Alternating state.isUp ((state.notices effects).map Notice.isUp)
  last : lastUp state.isUp ((state.notices effects).map Notice.isUp) = state'.isUp

theorem Told.trans {s₁ s₂ s₃ : LinkState} {first later : List Effect} (h : Told s₁ first s₂)
    (h' : Told s₂ later s₃) : Told s₁ (first ++ later) s₃ where
  leads := by rw [LinkState.followAll_append, h.leads, h'.leads]
  turns := by
    rw [LinkState.notices_append, List.map_append, alternating_append, h.last, h.leads]
    exact ⟨h.turns, h'.turns⟩
  last := by
    rw [LinkState.notices_append, List.map_append, lastUp_append, h.last, h.leads, h'.last]

def Effect.still : Effect → Bool
  | .entered _ => false
  | .emitted .connected => false
  | .emitted .disconnected => false
  | _ => true

theorem LinkState.follow_still (state : LinkState) {e : Effect} (h : e.still) :
    state.follow e = state ∧ state.notice? e = none := by
  cases e with
  | entered next => cases h
  | emitted event =>
    cases event with
    | connected => cases h
    | disconnected => cases h
    | _ => exact ⟨rfl, rfl⟩
  | _ => exact ⟨rfl, rfl⟩

theorem told_still (state : LinkState) {effects : List Effect} (h : ∀ e ∈ effects, e.still) :
    Told state effects state := by
  induction effects with
  | nil => exact ⟨rfl, trivial, rfl⟩
  | cons e rest ih =>
    obtain ⟨hf, hn⟩ := state.follow_still (h e (by simp))
    have ih := ih fun e' he' => h e' (by simp [he'])
    exact ⟨by rw [LinkState.followAll, hf]; exact ih.leads,
      by rw [LinkState.notices, hf, hn]; exact ih.turns,
      by rw [LinkState.notices, hf, hn]; exact ih.last⟩

/-- The link goes down, which is told if there was one. -/
theorem told_down {state : LinkState} (settled : state ≠ .connecting) :
    Told state (.entered .disconnected ::
      if state = .disconnected then [] else [.emitted .disconnected]) .disconnected := by
  cases state with
  | connecting => exact absurd rfl settled
  | _ => exact ⟨rfl, by simp [LinkState.notices, LinkState.notice?, LinkState.follow, Alternating,
      LinkState.isUp, Notice.isUp], rfl⟩

theorem told_trying {state next : LinkState} (down : state.isUp = false)
    (trying : next = .connecting ∨ next = .disconnected) : Told state [.entered next] next := by
  rcases trying with rfl | rfl <;>
    exact ⟨rfl, by simp [LinkState.notices, LinkState.notice?, Alternating], down⟩

theorem told_connected {state : LinkState} (down : state.isUp = false) :
    Told state [.entered .connected, .emitted .connected] .connected :=
  ⟨rfl, by simp [LinkState.notices, LinkState.notice?, Alternating, down, Notice.isUp], rfl⟩

/-- A subscription is told of only by the link that it is made over. -/
theorem told_subscribed {state : LinkState} (mute : state = .connected ∨ state = .disconnected) :
    Told state [.entered .subscribed] .subscribed := by
  rcases mute with rfl | rfl <;>
    exact ⟨rfl, by simp [LinkState.notices, LinkState.notice?, Alternating, LinkState.isUp,
      Notice.isUp], rfl⟩

def Stage.Suits (state : LinkState) : Stage → Prop
  | .releasing _ => state ≠ .connecting
  | .seeking _ => state = .connecting
  | .connecting _ _ _ => state = .connecting
  | .discarding _ _ => state = .connecting
  | _ => True

theorem Stage.suits_of_not_underway {st : Stage} (h : ¬st.underway) (state : LinkState) :
    st.Suits state := by
  cases st <;> simp_all [Stage.underway, Stage.Suits]

namespace Act.Turn

open Session

variable {t : Turn} {s : Session} {state : LinkState}

def Tells (t : Turn) (state : LinkState) (after : Session × List Effect) : Prop :=
  Told state after.2 after.1.state ∧
    ∀ call, after.1.calls.get? t.call = some call → call.stage.Suits after.1.state

theorem tells_behind {s' : Session} {first later : List Effect} {state' : LinkState}
    (told : Told state first state') (h : Tells t state' (s', later)) :
    Tells t state (s', first ++ later) :=
  ⟨told.trans h.1, h.2⟩

theorem tells_still {s' : Session} {first later : List Effect} (still : ∀ e ∈ first, e.still)
    (h : Tells t state (s', later)) : Tells t state (s', first ++ later) :=
  tells_behind (told_still state still) h

theorem releaseLink_still (s : Session) : ∀ e ∈ (releaseLink s).2, e.still := by
  intro e he
  obtain ⟨c, rfl⟩ := mem_releaseLink he
  rfl

theorem request_still (r : RadioRequest) (s : Session) : ∀ e ∈ (t.request r s).2, e.still := by
  simp [request, Effect.still]

theorem cancelListener_still (s : Session) : ∀ e ∈ (cancelListener s).2, e.still := by
  intro e he
  obtain ⟨i, rfl⟩ := mem_cancelListener he
  rfl

theorem goDown_told (settled : s.state ≠ .connecting) :
    Told s.state (goDown s).2 .disconnected := by
  have := told_down settled
  by_cases h : s.state = .disconnected <;> simpa [goDown, h] using this

theorem goto_tells (found : s.state = state) {st : Stage} (suits : st.Suits state) :
    Tells t state (t.goto st s) := by
  subst found
  refine ⟨told_still _ (by simp [goto]), fun call hc => ?_⟩
  rw [goto_get?, if_pos rfl] at hc
  obtain rfl := Option.some.inj hc
  exact suits

theorem follow_tells (found : s.state = state) (v : Verdict) :
    Tells t state (t.follow v s) := by
  subst found
  constructor
  · rw [follow_fst]
    refine told_still _ fun e he => ?_
    obtain ⟨o, rfl⟩ := mem_follow he
    rfl
  · intro call hc
    rw [follow_get?, if_pos rfl] at hc
    obtain ⟨operation, e⟩ := stage_of_call? hc
    exact e ▸ trivial

theorem finish_tells (found : s.state = state) (o : Outcome) : Tells t state (t.finish o s) := by
  simp only [finish, all_cons, all_nil, tell_apply, choose_apply, List.append_nil]
  apply tells_still (by simp [Effect.still])
  exact follow_tells found _

theorem endSequence_tells (found : s.state = state) (failure : Option Fault) :
    Tells t state (t.endSequence failure s) := by
  simp only [endSequence, all_cons, all_nil, change_apply, tell_apply, List.append_nil]
  apply tells_still (by simp)
  apply tells_still (by simp [Effect.still])
  apply tells_still (releaseLink_still _)
  rw [releaseLink_fst]
  apply finish_tells
  exact found

theorem trySubscribe_tells (found : s.state = state) (made : Nat) (last : Fault) :
    Tells t state (t.trySubscribe made last s) := by
  rw [trySubscribe, choose_apply]
  cases s.held with
  | none => exact endSequence_tells found _
  | some held =>
    by_cases hm : made < s.config.subscribe.attempts
    · simp only [hm, if_true, all_cons, all_nil, change_apply, List.append_nil]
      apply tells_still (by simp)
      apply tells_still (request_still _ _)
      apply goto_tells
      · exact found
      · trivial
    · simp only [hm, if_false]
      exact endSequence_tells found _

theorem subscribeFailed_tells (found : s.state = state) (made : Nat) (stream : StreamId)
    (fault : Fault) : Tells t state (t.subscribeFailed made stream fault s) := by
  rw [subscribeFailed, choose_apply]
  by_cases hm : made + 1 < s.config.subscribe.attempts
  · simp only [hm, if_true, all_cons, all_nil, change_apply, List.append_nil]
    apply tells_still (by simp)
    apply goto_tells
    · exact found
    · trivial
  · simp only [hm, if_false, all_cons, all_nil, change_apply, List.append_nil]
    apply tells_still (by simp)
    apply trySubscribe_tells
    exact found

theorem subscribed_tells (mute : s.state = .connected ∨ s.state = .disconnected)
    (stream : StreamId) : Tells t s.state (t.subscribed stream s) := by
  simp only [subscribed, all_cons, all_nil, change_apply, tell_apply, enter_apply, List.append_nil]
  apply tells_still (by simp)
  apply tells_still (by simp [Effect.still])
  apply tells_behind (told_subscribed mute)
  apply endSequence_tells
  rfl

theorem startSubscribe_tells (found : s.state = state) :
    Tells t state (t.startSubscribe s) := by
  simp only [startSubscribe, all_cons, all_nil, List.append_nil]
  apply tells_still (cancelListener_still s)
  rw [cancelListener_fst]
  apply trySubscribe_tells
  exact found

theorem tryConnect_tells (down : state.isUp = false) (made : Nat) (last : Fault) :
    Tells t state (t.tryConnect made last s) := by
  rw [tryConnect, choose_apply]
  by_cases hm : made < s.config.connect.attempts
  · simp only [hm, if_true, all_cons, all_nil, enter_apply, List.append_nil]
    apply tells_behind (told_trying down (.inl rfl))
    apply tells_still (request_still _ _)
    apply goto_tells
    · rfl
    · rfl
  · simp only [hm, if_false, all_cons, all_nil, enter_apply, List.append_nil]
    apply tells_behind (told_trying down (.inr rfl))
    apply endSequence_tells
    rfl

theorem connected_tells (down : s.state.isUp = false) (h : Handle) :
    Tells t s.state (t.connected h s) := by
  simp only [connected, all_cons, all_nil, change_apply, tell_apply, enter_apply, List.append_nil]
  show Tells t s.state (_, [.entered .connected, .emitted .connected] ++ _)
  apply tells_behind (told_connected down)
  apply startSubscribe_tells
  rfl

theorem discard_tells (connecting : s.state = .connecting) (made : Nat) (h : Handle)
    (fault : Fault) : Tells t .connecting (t.discard made h fault s) := by
  simp only [discard, all_cons, all_nil, List.append_nil]
  apply tells_still (request_still _ _)
  apply goto_tells
  · exact connecting
  · rfl

theorem released_tells (found : s.state = state) (settled : state ≠ .connecting)
    (next : Release) : Tells t state (t.released next s) := by
  subst found
  simp only [released, all_cons, all_nil, resetInbound_apply, List.append_nil]
  apply tells_still (by simp [Effect.still])
  apply tells_behind (goDown_told (s := { s with inbound := s.inbound.reset }) settled)
  rw [goDown_fst]
  cases next with
  | reconnect =>
    apply tryConnect_tells
    rfl
  | rest =>
    simp only [all_cons, all_nil, change_apply, List.append_nil]
    apply tells_still (by simp)
    apply tells_still (releaseLink_still _)
    rw [releaseLink_fst]
    apply finish_tells
    rfl

theorem release_tells (settled : s.state ≠ .connecting) (next : Release) :
    Tells t s.state (t.release next s) := by
  simp only [release, all_cons, all_nil, List.append_nil]
  apply tells_still (cancelListener_still s)
  rw [cancelListener_fst, choose_apply]
  cases hh : s.held with
  | none =>
    apply released_tells
    · rfl
    · exact settled
  | some held =>
    simp only [all_cons, all_nil, change_apply, List.append_nil]
    apply tells_still (by simp)
    apply tells_still (request_still _ _)
    apply goto_tells
    · rfl
    · exact settled

theorem establish_tells (settled : s.Settled) : Tells t s.state (t.establish s) := by
  rw [establish, choose_apply]
  cases hh : s.held with
  | none =>
    apply tryConnect_tells
    rw [(settled.unheld hh).1]
    rfl
  | some held =>
    by_cases hu : held.up
    · by_cases hl : s.isListening && s.state.isReady
      · simp only [hu, hl, if_true]
        exact endSequence_tells rfl none
      · simp only [hu, hl, if_true]
        exact startSubscribe_tells rfl
    · simp only [hu]
      exact release_tells settled.notConnecting .reconnect

theorem expired_tells (found : s.state = state) (w : Write) :
    Tells t state (t.expired w s) := by
  rw [expired]
  cases w.token with
  | none => exact finish_tells found _
  | some k =>
    simp only [all_cons, all_nil, withdraw_apply, List.append_nil]
    apply tells_still (by simp)
    apply finish_tells
    exact found

theorem written_tells (found : s.state = state) (w : Write) (fault : Option Fault) :
    Tells t state (t.written w fault s) := by
  simp only [written, all_cons, all_nil, List.append_nil]
  apply tells_still (releaseLink_still s)
  rw [releaseLink_fst]
  cases w.token with
  | none =>
    apply finish_tells
    exact found
  | some k =>
    cases fault with
    | none =>
      apply goto_tells
      · exact found
      · trivial
    | some f =>
      simp only [all_cons, all_nil, withdraw_apply, List.append_nil]
      apply tells_still (by simp)
      apply finish_tells
      exact found

theorem write_tells (found : s.state = state) (w : Write) : Tells t state (t.write w s) := by
  rw [write, choose_apply]
  cases s.held with
  | none => exact written_tells found w _
  | some held =>
    by_cases hu : held.up
    · simp only [hu, if_true, all_cons, all_nil, List.append_nil]
      apply tells_still (request_still _ _)
      apply goto_tells
      · exact found
      · trivial
    · simp only [hu]
      exact written_tells found w _

theorem proceed_tells (settled : s.Settled) (use : Use) : Tells t s.state (t.proceed use s) := by
  cases use with
  | connect seen =>
    rw [proceed, choose_apply]
    cases s.lastFailure with
    | none => exact establish_tells settled
    | some f =>
      by_cases hs : s.sequences = seen
      · simp only [hs, if_true]
        exact establish_tells settled
      · simp only [hs, if_false, all_cons, all_nil, List.append_nil]
        apply tells_still (releaseLink_still s)
        rw [releaseLink_fst]
        apply finish_tells
        rfl
  | write w => exact write_tells rfl w
  | disconnect => exact release_tells settled.notConnecting .rest

theorem begin_tells (operation : Operation) : Tells t s.state (t.begin operation s) := by
  constructor
  · have same : (t.begin operation s).1.state = s.state := by cases operation <;> rfl
    rw [same]
    refine told_still _ fun e he => ?_
    rcases mem_begin he with rfl | rfl | ⟨old, rfl⟩ <;> rfl
  · intro call hc
    obtain rfl := Option.some.inj ((begin_get? operation).symm.trans hc)
    trivial

/-- Every way of going on tells of the link in turn. -/
theorem moves_tells {answer : Option RadioAnswer} {st : Stage} {a : Act} {plan : Plan}
    (h : s.Agrees) (suits : st.Suits s.state)
    (hc : s.calls.get? t.call = some ⟨plan, st, answer⟩) (step : Moves t s answer st a) :
    Tells t s.state (a s) := by
  have fits : s.Fits st := h.fits _ _ hc
  have down (connecting : s.state = .connecting) : s.state.isUp = false := by
    rw [connecting]
    rfl
  cases step with
  | opens => exact follow_tells rfl _
  | begins => exact begin_tells _
  | proceeds hh =>
    exact proceed_tells (h.settled_of_not_underway (h.alone hh) hc (by simp [Stage.underway])) _
  | leaves _ _ =>
    simp only [all_cons, all_nil, change_apply, List.append_nil]
    apply tells_still (by simp)
    apply expired_tells
    rfl
  | released => exact released_tells rfl suits _
  | finds =>
    simp only [all_cons, all_nil, List.append_nil]
    apply tells_still (request_still _ _)
    apply goto_tells
    · rfl
    · exact suits
  | misses => exact tryConnect_tells (down suits) _ _
  | connected => exact connected_tells (down suits) _
  | connectFails => exact suits ▸ discard_tells suits _ _ _
  | connectLate _ =>
    simp only [all_cons, all_nil, tell_apply, List.append_nil]
    apply tells_still (by simp [Effect.still])
    exact suits ▸ discard_tells suits _ _ _
  | discarded => exact tryConnect_tells (down suits) _ _
  | subscribed => exact subscribed_tells fits.1.state _
  | subscribeFails => exact subscribeFailed_tells rfl _ _ _
  | subscribeLate _ =>
    simp only [all_cons, all_nil, tell_apply, List.append_nil]
    apply tells_still (by simp [Effect.still])
    exact subscribeFailed_tells rfl _ _ _
  | pauses _ => exact trySubscribe_tells rfl _ _
  | written => exact written_tells rfl _ _
  | writeLate _ =>
    simp only [all_cons, all_nil, tell_apply, List.append_nil]
    apply tells_still (by simp [Effect.still])
    apply tells_still (releaseLink_still s)
    rw [releaseLink_fst]
    apply expired_tells
    rfl
  | answered _ =>
    simp only [all_cons, all_nil, withdraw_apply, List.append_nil]
    apply tells_still (by simp)
    apply finish_tells
    rfl
  | silent _ _ _ =>
    simp only [all_cons, all_nil, withdraw_apply, List.append_nil]
    apply tells_still (by simp)
    apply finish_tells
    rfl
  | displaced _ _ => exact finish_tells rfl _

end Act.Turn

end HeaterLink
