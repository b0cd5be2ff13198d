import HeaterLink.Proofs.Link.Logs

/-!
# Strides of a connecting sequence

A connecting sequence begins when its call has the link and has no failure to
take over. From there on it goes stride by stride: what one turn of its call
adds to the log, what the link has behind it, and the stage the call comes to or
the failure its sequence ends with, said once for every stage and every answer.
-/

set_option autoImplicit false

namespace HeaterLink

structure Session.Starts (s : Session) (c : CallId) : Prop where
  holder : s.queue.holder = some c
  call : ∃ call seen, s.calls.get? c = some call ∧ call.stage = .queued (.connect seen) ∧
    (s.lastFailure = none ∨ s.sequences = seen)

namespace Act.Turn

inductive Seeks (t : Turn) (s : Session) (made : Nat) (last : Fault) :
    List Mark → Session → Finale → Prop
  | asks : made < s.config.connect.attempts → Seeks t s made last
      [.did (.entered .connecting), .did (.requested t.call (.find s.config.address))]
      { s with state := .connecting } (.goto (.seeking made))
  | ends : ¬made < s.config.connect.attempts → Seeks t s made last
      [.did (.entered .disconnected)] { s with state := .disconnected }
      (.settle (some (.connectFailed s.config.connect.attempts last)))

inductive Offers (t : Turn) (s : Session) (made : Nat) (last : Fault) :
    List Mark → Session → Finale → Prop
  | asks {held : Held} : s.held = some held → made < s.config.subscribe.attempts →
      Offers t s made last [.did (.requested t.call (.subscribe held.handle s.nextStream))]
        { s with
          nextStream := s.nextStream + 1
          streams := s.streams.insert s.nextStream ⟨.offered, [], true⟩ }
        (.goto (.subscribing made s.nextStream (t.moment.alarm s.config.subscribe.limit)))
  | ends {held : Held} : s.held = some held → ¬made < s.config.subscribe.attempts →
      Offers t s made last [] s
        (.settle (some (.subscribeFailed s.config.subscribe.attempts last)))
  | unheld : s.held = none → Offers t s made last [] s (.settle (some .notConnected))

inductive Fails (t : Turn) (a : Alarm) (late : Fault) :
    Option RadioAnswer → List Mark → Fault → Prop
  | refused {f : Fault} : Fails t a late (some (.finished (some f))) [] f
  | late {answer : Option RadioAnswer} : (∀ fault, answer ≠ some (.finished fault)) →
      a.rings t.moment.now → Fails t a late answer [.did (.abandoned t.call)] late

inductive Strides (t : Turn) (s : Session) :
    Stage → Option RadioAnswer → List Mark → Session → Finale → Prop
  | anew {seen : Nat} {answer : Option RadioAnswer} {ms : List Mark} {s' : Session}
      {finale : Finale} : s.held = none → Seeks t s 0 .notConnected ms s' finale →
      Strides t s (.queued (.connect seen)) answer ms s' finale
  | reuses {seen : Nat} {answer : Option RadioAnswer} {held : Held} : s.held = some held →
      held.up → s.isListening → s.state.isReady →
      Strides t s (.queued (.connect seen)) answer [] s (.settle none)
  | again {seen : Nat} {answer : Option RadioAnswer} {held : Held} {ms : List Mark}
      {s' : Session} {finale : Finale} : s.held = some held → held.up →
      ¬(s.isListening ∧ s.state.isReady) →
      Offers t (cancelListener s).1 0 .notConnected ms s' finale →
      Strides t s (.queued (.connect seen)) answer (noted (cancelListener s).2 ++ ms) s' finale
  | lost {seen : Nat} {answer : Option RadioAnswer} {held : Held} : s.held = some held →
      ¬held.up → Strides t s (.queued (.connect seen)) answer
        (noted (cancelListener s).2 ++ [.did (.requested t.call (.disconnect held.handle))])
        { (cancelListener s).1 with held := none } (.goto (.releasing .reconnect))
  | released {fault : Option Fault} {ms : List Mark} {s' : Session} {finale : Finale} :
      Seeks t { s with inbound := s.inbound.reset, state := .disconnected } 0 .notConnected ms
        s' finale →
      Strides t s (.releasing .reconnect) (some (.finished fault)) (noted (goDown s).2 ++ ms)
        s' finale
  | finds {made : Nat} {h : Handle} : Strides t s (.seeking made) (some (.found (some h)))
      [.did (.requested t.call (.connect h s.config.connect.limit))] s
      (.goto (.connecting made h (t.moment.alarm s.config.connect.limit)))
  | misses {made : Nat} {ms : List Mark} {s' : Session} {finale : Finale} :
      Seeks t s (made + 1) (.deviceNotFound s.config.address) ms s' finale →
      Strides t s (.seeking made) (some (.found none)) ms s' finale
  | connects {made : Nat} {h : Handle} {a : Alarm} {ms : List Mark} {s' : Session}
      {finale : Finale} :
      Offers t (cancelListener { s with held := some ⟨h, true⟩, state := .connected }).1 0
        .notConnected ms s' finale →
      Strides t s (.connecting made h a) (some (.finished none))
        ([.did (.entered .connected), .did (.emitted .connected)] ++
          noted (cancelListener { s with held := some ⟨h, true⟩, state := .connected }).2 ++ ms)
        s' finale
  | discards {made : Nat} {h : Handle} {a : Alarm} {answer : Option RadioAnswer}
      {ms : List Mark} {f : Fault} :
      Fails t a (.connectTimeout (Fault.stated s.config.connect.limit)) answer ms f →
      Strides t s (.connecting made h a) answer (ms ++ [.did (.requested t.call (.disconnect h))])
        s (.goto (.discarding made f))
  | discarded {made : Nat} {f : Fault} {fault : Option Fault} {ms : List Mark} {s' : Session}
      {finale : Finale} : Seeks t s (made + 1) f ms s' finale →
      Strides t s (.discarding made f) (some (.finished fault)) ms s' finale
  | subscribes {made : Nat} {i : StreamId} {a : Alarm} :
      Strides t s (.subscribing made i a) (some (.finished none))
        [.did (.started i), .did (.entered .subscribed)]
        { s with
          listener := some i
          streams := s.streams.modify i ({ · with phase := .waiting })
          state := .subscribed } (.settle none)
  | pauses {made : Nat} {i : StreamId} {a : Alarm} {answer : Option RadioAnswer}
      {ms : List Mark} {f : Fault} :
      Fails t a (.subscribeTimeout s.config.subscribe.limit) answer ms f →
      made + 1 < s.config.subscribe.attempts → Strides t s (.subscribing made i a) answer ms
        { s with streams := s.streams.erase i }
        (.goto (.pausing (made + 1) f (t.moment.pause s.config.retryDelay)))
  | exhausts {made : Nat} {i : StreamId} {a : Alarm} {answer : Option RadioAnswer}
      {first ms : List Mark} {f : Fault} {s' : Session} {finale : Finale} :
      Fails t a (.subscribeTimeout s.config.subscribe.limit) answer first f →
      ¬made + 1 < s.config.subscribe.attempts →
      Offers t { s with streams := s.streams.erase i } (made + 1) f ms s' finale →
      Strides t s (.subscribing made i a) answer (first ++ ms) s' finale
  | retries {made : Nat} {f : Fault} {a : Alarm} {answer : Option RadioAnswer} {ms : List Mark}
      {s' : Session} {finale : Finale} : a.rings t.moment.now → Offers t s made f ms s' finale →
      Strides t s (.pausing made f a) answer ms s' finale

theorem Seeks.finale {t : Turn} {s s' : Session} {made : Nat} {last : Fault} {ms : List Mark}
    {finale : Finale} (h : Seeks t s made last ms s' finale) : Finale.Of .reconnect finale := by
  cases h with
  | asks _ => exact .goto rfl rfl
  | ends _ => exact .settle

theorem Offers.finale {t : Turn} {s s' : Session} {made : Nat} {last : Fault} {ms : List Mark}
    {finale : Finale} (h : Offers t s made last ms s' finale) : Finale.Of .reconnect finale := by
  cases h with
  | asks _ _ => exact .goto rfl rfl
  | ends _ _ => exact .settle
  | unheld _ => exact .settle

/-- A stride comes to another stage of the sequence, or ends it. -/
theorem Strides.finale {t : Turn} {s s' : Session} {st : Stage} {answer : Option RadioAnswer}
    {ms : List Mark} {finale : Finale} (h : Strides t s st answer ms s' finale) :
    Finale.Of .reconnect finale := by
  cases h with
  | anew _ seeks => exact seeks.finale
  | reuses _ _ _ _ => exact .settle
  | again _ _ _ offers => exact offers.finale
  | released seeks => exact seeks.finale
  | misses seeks => exact seeks.finale
  | connects offers => exact offers.finale
  | discarded seeks => exact seeks.finale
  | subscribes => exact .settle
  | exhausts _ _ offers => exact offers.finale
  | retries _ offers => exact offers.finale
  | _ => exact .goto rfl rfl

def Comes (t : Turn) (after : Session × List Effect) (ms : List Mark) (s' : Session)
    (finale : Finale) : Prop :=
  ∃ first, noted first = ms ∧ after = ((finale.act t s').1, first ++ (finale.act t s').2)

variable {t : Turn} {s s' : Session} {after : Session × List Effect} {first : List Effect}
  {ms : List Mark} {finale : Finale} {st : Stage} {answer : Option RadioAnswer} {a : Act}

theorem comes_finale (t : Turn) (s : Session) (finale : Finale) :
    Comes t (finale.act t s) [] s finale :=
  ⟨[], rfl, rfl⟩

theorem Comes.behind (h : Comes t after ms s' finale) (first : List Effect) :
    Comes t (after.1, first ++ after.2) (noted first ++ ms) s' finale := by
  obtain ⟨later, rfl, rfl⟩ := h
  exact ⟨first ++ later, noted_append _ _, by rw [List.append_assoc]⟩

theorem tryConnect_comes (t : Turn) (made : Nat) (last : Fault) (s : Session) :
    ∃ ms s' finale, Seeks t s made last ms s' finale ∧
      Comes t (t.tryConnect made last s) ms s' finale := by
  rw [tryConnect, choose_apply]
  by_cases h : made < s.config.connect.attempts
  · refine ⟨_, _, _, .asks h, [.entered .connecting, .requested t.call (.find s.config.address)],
      rfl, ?_⟩
    simp [h, request, Finale.act]
  · refine ⟨_, _, _, .ends h, [.entered .disconnected], rfl, ?_⟩
    simp [h, Finale.act]

theorem trySubscribe_comes (t : Turn) (made : Nat) (last : Fault) (s : Session) :
    ∃ ms s' finale, Offers t s made last ms s' finale ∧
      Comes t (t.trySubscribe made last s) ms s' finale := by
  rw [trySubscribe, choose_apply]
  cases hh : s.held with
  | none => exact ⟨_, _, _, .unheld hh, comes_finale t s (.settle _)⟩
  | some held =>
    by_cases h : made < s.config.subscribe.attempts
    · refine ⟨_, _, _, .asks hh h, [.requested t.call (.subscribe held.handle s.nextStream)],
        rfl, ?_⟩
      simp [h, request, Finale.act]
    · refine ⟨_, _, _, .ends hh h, [], rfl, ?_⟩
      simp [h, Finale.act]

theorem startSubscribe_comes (t : Turn) (s : Session) :
    ∃ ms s' finale, Offers t (cancelListener s).1 0 .notConnected ms s' finale ∧
      Comes t (t.startSubscribe s) (noted (cancelListener s).2 ++ ms) s' finale := by
  obtain ⟨ms, s', finale, offers, comes⟩ :=
    t.trySubscribe_comes 0 .notConnected (cancelListener s).1
  refine ⟨ms, s', finale, offers, ?_⟩
  simpa [startSubscribe] using comes.behind (cancelListener s).2

theorem proceed_of_own {seen : Nat} (own : s.lastFailure = none ∨ s.sequences = seen) :
    t.proceed (.connect seen) s = t.establish s := by
  rw [proceed, choose_apply]
  cases hf : s.lastFailure with
  | none => rfl
  | some f =>
    have same : s.sequences = seen := own.resolve_left (by simp [hf])
    simp [same]

theorem establish_strides {seen : Nat} (answer : Option RadioAnswer) :
    ∃ ms s' finale, Strides t s (.queued (.connect seen)) answer ms s' finale ∧
      Comes t (t.establish s) ms s' finale := by
  rw [establish, choose_apply]
  cases hh : s.held with
  | none =>
    obtain ⟨ms, s', finale, seeks, comes⟩ := t.tryConnect_comes 0 .notConnected s
    exact ⟨ms, s', finale, .anew hh seeks, comes⟩
  | some held =>
    by_cases hu : held.up
    · by_cases hr : s.isListening ∧ s.state.isReady
      · refine ⟨[], s, _, .reuses hh hu hr.1 hr.2, [], rfl, ?_⟩
        simp [hu, hr.1, hr.2, Finale.act]
      · obtain ⟨ms, s', finale, offers, comes⟩ := t.startSubscribe_comes s
        refine ⟨_, s', finale, .again hh hu hr offers, ?_⟩
        simpa [hu, hr] using comes
    · refine ⟨_, _, _, .lost hh hu,
        (cancelListener s).2 ++ [.requested t.call (.disconnect held.handle)],
        noted_append _ _, ?_⟩
      simp [hu, release, hh, request, Finale.act]

theorem released_strides (fault : Option Fault) :
    ∃ ms s' finale, Strides t s (.releasing .reconnect) (some (.finished fault)) ms s' finale ∧
      Comes t (t.released .reconnect s) ms s' finale := by
  obtain ⟨ms, s', finale, seeks, comes⟩ := t.tryConnect_comes 0 .notConnected
    { s with inbound := s.inbound.reset, state := .disconnected }
  refine ⟨_, s', finale, .released seeks, ?_⟩
  have told : (goDown { s with inbound := s.inbound.reset }).2 = (goDown s).2 := by
    simp only [goDown, choose_apply, all_cons, all_nil, enter_apply, List.append_nil]
    split <;> rfl
  have := comes.behind (.cleared :: (goDown s).2)
  simpa [released, told, Effect.logged] using this

theorem connected_strides {made : Nat} {h : Handle} {alarm : Alarm} :
    ∃ ms s' finale, Strides t s (.connecting made h alarm) (some (.finished none)) ms s' finale ∧
      Comes t (t.connected h s) ms s' finale := by
  obtain ⟨ms, s', finale, offers, comes⟩ :=
    t.startSubscribe_comes { s with held := some ⟨h, true⟩, state := .connected }
  refine ⟨_, s', finale, .connects offers, ?_⟩
  have := comes.behind [.entered .connected, .emitted .connected]
  simpa [connected, Effect.logged] using this

theorem discard_strides {made : Nat} {h : Handle} {alarm : Alarm} {f : Fault}
    (fails : Fails t alarm (.connectTimeout (Fault.stated s.config.connect.limit)) answer
      (noted first) f) :
    ∃ ms s' finale, Strides t s (.connecting made h alarm) answer ms s' finale ∧
      Comes t ((t.discard made h f s).1, first ++ (t.discard made h f s).2) ms s' finale := by
  refine ⟨_, _, _, .discards fails, first ++ [.requested t.call (.disconnect h)],
    noted_append _ _, ?_⟩
  simp [discard, request, Finale.act]

theorem subscribeFailed_strides {made : Nat} {i : StreamId} {alarm : Alarm} {f : Fault}
    (fails : Fails t alarm (.subscribeTimeout s.config.subscribe.limit) answer (noted first) f) :
    ∃ ms s' finale, Strides t s (.subscribing made i alarm) answer ms s' finale ∧
      Comes t ((t.subscribeFailed made i f s).1, first ++ (t.subscribeFailed made i f s).2)
        ms s' finale := by
  by_cases hm : made + 1 < s.config.subscribe.attempts
  · refine ⟨_, _, _, .pauses fails hm, first, rfl, ?_⟩
    simp [subscribeFailed, hm, Finale.act]
  · obtain ⟨ms, s', finale, offers, comes⟩ :=
      t.trySubscribe_comes (made + 1) f { s with streams := s.streams.erase i }
    refine ⟨_, s', finale, .exhausts fails hm offers, ?_⟩
    simpa [subscribeFailed, hm] using comes.behind first

theorem subscribed_strides {made : Nat} {i : StreamId} {alarm : Alarm} :
    ∃ ms s' finale, Strides t s (.subscribing made i alarm) (some (.finished none)) ms s' finale ∧
      Comes t (t.subscribed i s) ms s' finale := by
  refine ⟨_, _, _, .subscribes, [.started i, .entered .subscribed], rfl, ?_⟩
  simp [subscribed, Finale.act]

/-- A turn of a call that connects, and takes over no failure, is a stride of its sequence. -/
theorem resume_strides (h : t.resume s answer st = some a) (aim : st.aim? = some .reconnect)
    (own : ∀ seen, st = .queued (.connect seen) → s.lastFailure = none ∨ s.sequences = seen) :
    ∃ ms s' finale, Strides t s st answer ms s' finale ∧ Comes t (a s) ms s' finale := by
  cases st with
  | queued use =>
    cases use with
    | connect seen =>
      simp only [resume] at h
      split at h
      · obtain rfl := Option.some.inj h
        rw [proceed_of_own (own seen rfl)]
        exact establish_strides answer
      · cases h
    | _ => cases aim
  | releasing next =>
    obtain rfl := Option.some.inj aim
    simp only [resume] at h
    split at h
    · obtain rfl := Option.some.inj h
      exact released_strides _
    · cases h
  | seeking made =>
    simp only [resume] at h
    split at h
    · obtain rfl := Option.some.inj h
      exact ⟨_, _, _, .finds, [.requested t.call _], rfl, by simp [request, Finale.act]⟩
    · obtain rfl := Option.some.inj h
      obtain ⟨ms, s', finale, seeks, comes⟩ := t.tryConnect_comes (made + 1) _ s
      exact ⟨ms, s', finale, .misses seeks, comes⟩
    · cases h
  | connecting made handle alarm =>
    simp only [resume] at h
    split at h
    · obtain rfl := Option.some.inj h
      exact connected_strides
    · obtain rfl := Option.some.inj h
      exact @discard_strides _ _ [] _ _ _ _ _ .refused
    · rename_i unconnected unrefused
      split at h
      · rename_i rings
        obtain rfl := Option.some.inj h
        have silent (fault : Option Fault) : answer ≠ some (.finished fault) := by
          cases fault with
          | none => exact unconnected
          | some f => exact unrefused f
        simpa using @discard_strides _ _ [.abandoned t.call] _ made handle _ _ (.late silent rings)
      · cases h
  | discarding made fault =>
    simp only [resume] at h
    split at h
    · obtain rfl := Option.some.inj h
      obtain ⟨ms, s', finale, seeks, comes⟩ := t.tryConnect_comes (made + 1) fault s
      exact ⟨ms, s', finale, .discarded seeks, comes⟩
    · cases h
  | subscribing made i alarm =>
    simp only [resume] at h
    split at h
    · obtain rfl := Option.some.inj h
      exact subscribed_strides
    · obtain rfl := Option.some.inj h
      exact @subscribeFailed_strides _ _ [] _ _ _ _ _ .refused
    · rename_i unsubscribed unrefused
      split at h
      · rename_i rings
        obtain rfl := Option.some.inj h
        have silent (fault : Option Fault) : answer ≠ some (.finished fault) := by
          cases fault with
          | none => exact unsubscribed
          | some f => exact unrefused f
        simpa using
          @subscribeFailed_strides _ _ [.abandoned t.call] _ made i _ _ (.late silent rings)
      · cases h
  | pausing made fault alarm =>
    simp only [resume] at h
    split at h
    · rename_i rings
      obtain rfl := Option.some.inj h
      obtain ⟨ms, s', finale, offers, comes⟩ := t.trySubscribe_comes made fault s
      exact ⟨ms, s', finale, .retries rings offers, comes⟩
    · cases h
  | _ => cases aim

theorem Comes.goto (h : Comes t after ms s' (.goto st)) :
    after.1 = { s' with calls := s'.calls.insert t.call ⟨t.plan, st, none⟩ } ∧
      noted after.2 = ms := by
  obtain ⟨first, rfl, rfl⟩ := h
  exact ⟨rfl, by simp [Finale.act, Turn.goto]⟩

theorem noted_releaseLink (s : Session) : noted (releaseLink s).2 = [] := by
  refine noted_eq_nil fun e he => ?_
  obtain ⟨c, rfl⟩ := mem_releaseLink he
  rfl

/-- A turn that ends the sequence. A failure is also what the call returns. -/
theorem Comes.settle {failure : Option Fault} (h : Comes t after ms s' (.settle failure)) :
    (∃ queue calls, after.1 = { s' with
      lastFailure := failure
      sequences := s'.sequences + 1
      queue := queue
      calls := calls }) ∧
      noted after.2 = ms ++ [.did (.settled t.call failure)] ∧ ¬after.1.InLine t.call ∧
      ∀ f, failure = some f → .returned t.call (.fault f) ∈ after.2 := by
  obtain ⟨first, rfl, rfl⟩ := h
  simp only [Finale.act, endSequence, all_cons, all_nil, change_apply, tell_apply,
    releaseLink_fst, List.append_nil, List.nil_append, List.singleton_append]
  refine ⟨⟨_, _, (finish_fst _).trans (follow_fst _ _ _)⟩, ?_, finish_gone _ _, ?_⟩
  · have unnoted := noted_eq_nil fun e => unlogged_of_finish (t := t) (e := e)
      (s := { s' with lastFailure := failure, sequences := s'.sequences + 1,
                      queue := s'.queue.release }) (o := .ofFault failure)
    simp [noted_releaseLink, unnoted, Effect.logged]
  · rintro f rfl
    simp [finish_snd, Outcome.ofFault, Plan.next, follow]

end Act.Turn

namespace Session

variable {s : Session} {m : Moment} {c : CallId} {call : Call} {after : Session × List Effect}

theorem poll_strides (hp : s.poll m c = some after) (hc : s.calls.get? c = some call)
    (begun : (call.stage.underway ∧ call.stage.aim? = some .reconnect) ∨ s.Starts c) :
    ∃ ms s' finale, Act.Turn.Strides ⟨m, c, call.plan⟩ s call.stage call.answer ms s' finale ∧
      Act.Turn.Comes ⟨m, c, call.plan⟩ after ms s' finale := by
  rw [poll, hc] at hp
  obtain ⟨a, ha, rfl⟩ := Option.map_eq_some_iff.mp hp
  rcases begun with ⟨hu, aim⟩ | ⟨-, call', seen, hc', hst, own⟩
  · refine Act.Turn.resume_strides ha aim fun seen e => ?_
    rw [e] at hu
    cases hu
  · obtain rfl := Option.some.inj (hc.symm.trans hc')
    refine Act.Turn.resume_strides ha (by rw [hst]; rfl) fun seen' e => ?_
    cases hst.symm.trans e
    exact own

/-- A call that has heard from the radio can go on. -/
theorem poll_isSome_of_answer (m : Moment) {answer : RadioAnswer} (hc : s.calls.get? c = some call)
    (hu : call.stage.underway) (ha : call.answer = some answer) (hears : call.stage.hears answer) :
    (s.poll m c).isSome := by
  obtain ⟨plan, st, answer'⟩ := call
  obtain rfl : answer' = some answer := ha
  rw [poll, hc, Option.isSome_map]
  cases st with
  | seeking made =>
    cases answer with
    | found found => cases found <;> rfl
    | finished fault => cases hears
  | connecting made h a =>
    cases answer with
    | found found => cases hears
    | finished fault => cases fault <;> rfl
  | subscribing made i a =>
    cases answer with
    | found found => cases hears
    | finished fault => cases fault <;> rfl
  | releasing next =>
    cases answer with
    | found found => cases hears
    | finished fault => rfl
  | discarding made f =>
    cases answer with
    | found found => cases hears
    | finished fault => rfl
  | pausing made f a => cases answer <;> cases hears
  | _ => cases hu

theorem poll_isSome_of_rings {made : Nat} {f : Fault} {a : Alarm}
    (hc : s.calls.get? c = some call) (hst : call.stage = .pausing made f a)
    (rings : a.rings m.now) : (s.poll m c).isSome := by
  simp [poll, hc, hst, Act.Turn.resume, rings]

end Session

end HeaterLink
