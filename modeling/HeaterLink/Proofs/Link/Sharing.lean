import HeaterLink.Proofs.Link.Inheriting

/-!
# Shared failures

A call that connects and does not run a sequence of its own returns the failure
of one that ended while it waited, with no disconnect in between. Whoever waits
when a sequence fails returns its failure and asks nothing of the radio, unless
a disconnect gets the link before. On a clock that waits it has returned by the
time at which the writes ahead of it must be over. A call that finds the link
as it should be returns without touching it.
-/

set_option autoImplicit false

namespace HeaterLink

namespace Session

theorem exists_writesWithin (s : Session) (c : CallId) : ∃ limit, s.WritesWithin c limit := by
  unfold WritesWithin
  generalize s.queue.ahead c = l
  induction l with
  | nil => exact ⟨0, by simp⟩
  | cons d rest ih =>
    obtain ⟨limit, within⟩ := ih
    have dueOf : ∃ due, ∀ call w, s.calls.get? d = some call → call.stage = .queued (.write w) →
        w.alarm.due ≤ due := by
      cases hd : s.calls.get? d with
      | none => exact ⟨0, by simp⟩
      | some call =>
        refine ⟨((call.stage.write?).map (·.alarm.due)).getD 0, fun call' w e hst => ?_⟩
        obtain rfl := Option.some.inj e
        simp [hst, Stage.write?]
    obtain ⟨due, hdue⟩ := dueOf
    refine ⟨max due limit, fun e he call w hc hst => ?_⟩
    rcases List.mem_cons.mp he with rfl | he
    · exact Nat.le_trans (hdue call w hc hst) (Nat.le_max_left _ _)
    · exact Nat.le_trans (within e he call w hc hst) (Nat.le_max_right _ _)

variable {s : Session} {c : CallId} {f : Fault} {limit : Nat}

theorem poll_isSome_of_holder (m : Moment) {call : Call} {use : Use}
    (holder : s.queue.holder = some c) (hc : s.calls.get? c = some call)
    (hst : call.stage = .queued use) : (s.poll m c).isSome := by
  simp [Session.poll, hc, hst, Act.Turn.resume, holder]

theorem Inherits.inLine (h : s.Inherits c f limit) : s.InLine c := by
  obtain ⟨call, seen, hc, hst, -⟩ := h.waits
  exact ⟨call, hc, by rw [hst]; rfl⟩

theorem Inherits.waiting (h : s.Inherits c f limit) (lined : s.Lined) (hd : s.Disconnecting) :
    c ∈ s.queue.waiting := by
  refine lined.waiting_of_inLine h.inLine fun holder => ?_
  obtain ⟨call, seen, hc, hst, -⟩ := h.waits
  obtain ⟨d, other, holder', hother, aim⟩ := hd
  obtain rfl := Option.some.inj (holder.symm.trans holder')
  obtain rfl := Option.some.inj (hc.symm.trans hother)
  rw [hst] at aim
  cases aim

structure Reuses (s : Session) (c : CallId) (plan : Plan) (after : Session × List Effect) :
    Prop where
  finished : .finished c .done ∈ after.2
  returned : plan = .finish → .returned c .done ∈ after.2
  effects : ∀ e ∈ after.2, e = .settled c none ∨ (∃ d, e = .granted d) ∨ e = .finished c .done ∨
    ∃ o, e = .returned c o
  state : after.1.state = s.state
  held : after.1.held = s.held
  listener : after.1.listener = s.listener
  streams : after.1.streams = s.streams

structure Ready (s : Session) : Prop where
  up : ∃ handle, s.held = some ⟨handle, true⟩
  listening : s.isListening
  state : s.state = .subscribed

theorem endSequence_reuses (t : Act.Turn) (s : Session) :
    s.Reuses t.call t.plan (t.endSequence none s) := by
  simp only [Act.Turn.endSequence, Act.all_cons, Act.all_nil, Act.change_apply, Act.tell_apply,
    Act.releaseLink_fst, List.append_nil, List.nil_append, List.singleton_append]
  refine ⟨?_, fun hplan => ?_, fun e he => ?_, ?_, ?_, ?_, ?_⟩
  · simp [Act.Turn.finish_snd, Outcome.ofFault]
  · simp [Act.Turn.finish_snd, Outcome.ofFault, hplan, Plan.next, Act.Turn.follow]
  · rcases List.mem_cons.mp he with rfl | he
    · exact .inl rfl
    · rcases List.mem_append.mp he with he | he
      · exact .inr (.inl (Act.mem_releaseLink he))
      · rw [Act.Turn.finish_snd] at he
        rcases List.mem_cons.mp he with rfl | he
        · exact .inr (.inr (.inl rfl))
        · exact .inr (.inr (.inr (Act.Turn.mem_follow he)))
  · rw [Act.Turn.finish_fst, Act.Turn.follow_fst]
  · rw [Act.Turn.finish_fst, Act.Turn.follow_fst]
  · rw [Act.Turn.finish_fst, Act.Turn.follow_fst]
  · rw [Act.Turn.finish_fst, Act.Turn.follow_fst]

/-- A call that gets a link that is ready takes over a failure, or succeeds without touching it. -/
theorem Ready.poll (ready : s.Ready) (m : Moment) {call : Call} {seen : Nat}
    (holder : s.queue.holder = some c) (hc : s.calls.get? c = some call)
    (hst : call.stage = .queued (.connect seen)) :
    ∃ after, s.poll m c = some after ∧ (s.Reuses c call.plan after ∨
      ∃ f, s.lastFailure = some f ∧ s.sequences ≠ seen ∧ .returned c (.fault f) ∈ after.2 ∧
        ∀ d r, .settled d r ∉ after.2) := by
  obtain ⟨handle, hheld⟩ := ready.up
  let t : Act.Turn := ⟨m, c, call.plan⟩
  have hpoll : s.poll m c = some (t.proceed (.connect seen) s) := by
    simp [Session.poll, hc, hst, Act.Turn.resume, holder, t]
  have established : t.establish s = t.endSequence none s := by
    simp [Act.Turn.establish, hheld, ready.listening, ready.state, LinkState.isReady]
  have reuses : s.Reuses c call.plan (t.establish s) := by
    rw [established]
    exact endSequence_reuses t s
  refine ⟨_, hpoll, ?_⟩
  simp only [Act.Turn.proceed, Act.choose_apply]
  cases hf : s.lastFailure with
  | none => exact .inl reuses
  | some f =>
    by_cases hs : s.sequences = seen
    · simp only [hs, if_true]
      exact .inl reuses
    · simp only [hs, if_false]
      exact .inr ⟨f, rfl, hs, Act.Turn.mem_share.mpr (.inr (.inr rfl)),
        (Act.Turn.share_apart f s).unsettled⟩

end Session

namespace Course

variable {wall : Nat → Clock} {config : Config} {x y : Course} {c : CallId} {f : Fault}
  {n limit : Nat}

structure Overhears (x : Course) (n : Nat) (c : CallId) (f : Fault) : Prop where
  failed : ∃ d, x.Did n (.settled d (some f))
  waiting : c ∈ (x.sessionAt n).queue.waiting
  connects : ∃ call seen, (x.sessionAt n).calls.get? c = some call ∧
    call.stage = .queued (.connect seen)

def Overtaken (x : Course) (n : Nat) (c : CallId) : Prop :=
  ∃ j, n < j ∧ j ≤ x.history.length ∧ (x.sessionAt j).Disconnecting ∧
    c ∈ (x.sessionAt j).queue.waiting

def TookOver (x : Course) (n : Nat) (c : CallId) (f : Fault) : Prop :=
  ∃ m, n < m ∧ x.Did m (.returned c (.fault f)) ∧
    ∀ k r, n ≤ k → k ≤ m → ¬x.Did k (.requested c r)

theorem Begins.overhears (h : x.Begins y) (hn : n < x.history.length) :
    y.Overhears n c f ↔ x.Overhears n c f := by
  have session := h.sessionAt (Nat.le_of_lt hn)
  constructor
  · rintro ⟨⟨d, failed⟩, waiting, connects⟩
    exact ⟨⟨d, (h.did_iff hn).mp failed⟩, session ▸ waiting, session ▸ connects⟩
  · rintro ⟨⟨d, failed⟩, waiting, connects⟩
    exact ⟨⟨d, h.did failed⟩, session.symm ▸ waiting, session.symm ▸ connects⟩

theorem Begins.overtaken (h : x.Begins y) (ho : x.Overtaken n c) : y.Overtaken n c := by
  obtain ⟨j, hj, hle, hd, hw⟩ := ho
  have session := h.sessionAt hle
  exact ⟨j, hj, Nat.le_trans hle h.length_le, session.symm ▸ hd, session.symm ▸ hw⟩

theorem Begins.tookOver (h : x.Begins y) (ht : x.TookOver n c f) : y.TookOver n c f := by
  obtain ⟨m, hm, hd, quiet⟩ := ht
  have hlt := did_lt hd
  exact ⟨m, hm, h.did hd, fun k r hk hle hr =>
    quiet k r hk hle ((h.did_iff (Nat.lt_of_le_of_lt hle hlt)).mp hr)⟩

/-- Whoever waits when a sequence fails takes over its failure, is overtaken by a disconnect, or
still waits to take it over. -/
theorem reached_inherits : ∀ x, Reached wall config x → ∀ n c f limit, x.Overhears n c f →
    (x.sessionAt n).WritesWithin c limit → x.Overtaken n c ∨ x.TookOver n c f ∨
      x.session.Inherits c f limit ∧ ∀ k r, n ≤ k → ¬x.Did k (.requested c r) := by
  refine reached_induction ?_ fun x a y hx ih step => ?_
  · rintro n c f limit ⟨⟨d, entry, hn, -⟩, -, -⟩
    simp [start] at hn
  · obtain ⟨after, hr, grows⟩ := take?_grows step
    have begins := grows.begins
    have hlen := grows.length
    have session := grows.session
    intro n c f limit overhears within
    obtain ⟨d, failed⟩ := overhears.failed
    rcases grows.did_iff.mp failed with failed | ⟨rfl, now⟩
    · have hn := did_lt failed
      rw [begins.sessionAt (Nat.le_of_lt hn)] at within
      rcases ih n c f limit ((begins.overhears hn).mp overhears) within with h | h | ⟨hi, quiet⟩
      · exact .inl (begins.overtaken h)
      · exact .inr (.inl (begins.tookOver h))
      · by_cases idle : x.session.Disconnecting
        · have waiting := hi.waiting (reached_lined x hx) idle
          exact .inl ⟨x.history.length, hn, by omega, begins.session.symm ▸ idle,
            begins.session.symm ▸ waiting⟩
        · obtain ⟨next, unasked⟩ := hr.inherits hx hi idle
          have quiet (k : Nat) (r : RadioRequest) (hk : n ≤ k) : ¬y.Did k (.requested c r) := by
            intro hd
            rcases grows.did_iff.mp hd with hd | ⟨-, hd⟩
            · exact quiet k r hk hd
            · exact unasked r hd
          rcases next with hi | returned
          · exact .inr (.inr ⟨session ▸ hi, quiet⟩)
          · exact .inr (.inl ⟨x.history.length, hn, grows.did returned, fun k r hk _ =>
              quiet k r hk⟩)
    · rw [begins.session] at within
      obtain ⟨-, waiting, call, seen, hc, hst⟩ := overhears
      rw [begins.session] at waiting hc
      obtain ⟨hi, unasked⟩ := hr.fails hx now waiting hc hst within
      refine .inr (.inr ⟨session ▸ hi, fun k r hk hd => ?_⟩)
      rcases grows.did_iff.mp hd with hd | ⟨-, hd⟩
      · exact absurd (did_lt hd) (Nat.not_lt_of_le hk)
      · exact unasked r hd

theorem poll_of_inherits (hi : x.session.Inherits c f limit)
    (holder : x.session.queue.holder = some c) :
    ∃ after, x.session.poll (x.moment wall) c = some after ∧ .returned c (.fault f) ∈ after.2 ∧
      ∀ r, .requested c r ∉ after.2 := by
  obtain ⟨call, seen, hc, hst, -⟩ := hi.waits
  obtain ⟨after, hp⟩ := Option.isSome_iff_exists.mp
    (Session.poll_isSome_of_holder (x.moment wall) holder hc hst)
  exact ⟨after, hp, returns_of_poll hi hp⟩

theorem busy_of_holder {call : Call} {use : Use} (holder : x.session.queue.holder = some c)
    (hc : x.session.calls.get? c = some call) (hst : call.stage = .queued use) : x.busy wall := by
  simp only [busy, Bool.or_eq_true, List.any_eq_true]
  exact .inl ⟨(c, call), Table.mem_of_get? hc,
    .inl (Session.poll_isSome_of_holder (x.moment wall) holder hc hst)⟩

theorem within_of_pass (reached : Reached wall config x) (hi : x.session.Inherits c f limit)
    {ms : Nat} (timely : x.inTime wall (.pass ms)) : x.now + ms ≤ limit := by
  have calm : ¬x.busy wall := by
    simp only [inTime, Bool.and_eq_true, Bool.not_eq_true'] at timely
    simp [timely.1]
  obtain ⟨d, holder⟩ := (reached_lined x reached).held hi.inLine
  by_cases own : d = c
  · subst own
    obtain ⟨call, seen, hc, hst, -⟩ := hi.waits
    exact absurd (busy_of_holder holder hc hst) calm
  · obtain ⟨call, hc, yields⟩ := hi.yields d (LinkQueue.holder_mem_ahead holder own)
    generalize hst : call.stage = st at yields
    cases st with
    | queued use => exact absurd (busy_of_holder holder hc hst) calm
    | writing w => exact Nat.le_trans (due_of_pass timely hc (by rw [hst]; rfl)) yields
    | _ => exact yields.elim

/-- On a clock that waits, a call that overhears a failure has returned it by the time at which the
writes ahead of it must be over, unless it is overtaken. -/
theorem inTime_overhears : ∀ x, ReachedInTime wall config x → ∀ n c f limit, x.Overhears n c f →
    (x.sessionAt n).WritesWithin c limit → x.timeAt n ≤ limit → ¬x.Overtaken n c →
    ¬x.TookOver n c f → x.now ≤ limit := by
  refine inTime_induction ?_ fun x a y hx ih timely step => ?_
  · exact fun _ _ _ _ _ _ _ _ _ => Nat.zero_le _
  · have hx := reached_of_inTime hx
    have hy := reached_take? hx step
    obtain ⟨after, hr, grows⟩ := take?_grows step
    have begins := grows.begins
    have hnow := grows.now_eq
    intro n c f limit overhears within early kept waits
    obtain ⟨d, failed⟩ := overhears.failed
    rcases grows.did_iff.mp failed with failed | ⟨rfl, now⟩
    · have hn := did_lt failed
      have overhears := (begins.overhears hn).mp overhears
      rw [begins.sessionAt (Nat.le_of_lt hn)] at within
      rw [begins.timeAt hx hy (Nat.le_of_lt hn)] at early
      have kept : ¬x.Overtaken n c := fun h => kept (begins.overtaken h)
      have waits : ¬x.TookOver n c f := fun h => waits (begins.tookOver h)
      obtain ⟨hi, -⟩ := ((reached_inherits x hx n c f limit overhears within).resolve_left kept
        ).resolve_left waits
      cases a with
      | pass ms =>
        rw [hnow]
        exact within_of_pass hx hi timely
      | _ => exact hnow ▸ ih n c f limit overhears within early kept waits
    · rw [begins.timeAt hx hy (Nat.le_refl _), timeAt_length] at early
      cases a with
      | pass ms =>
        cases hr with
        | pass => cases now
      | _ => exact hnow ▸ early

/-- Calls that connect share failures, and only those of sequences that ended while they waited. -/
theorem reached_sharing (reached : Reached wall config x) :
    (∀ c g n f, x.Ran c .connect g n (.fault f) →
      (∀ k r, g ≤ k → k ≤ n → ¬x.Did k (.settled c r)) →
      ∃ m d, g < m ∧ m < n ∧ x.Did m (.settled d (some f)) ∧
        ∀ j, m < j → j ≤ n → ¬(x.sessionAt j).Disconnecting) ∧
    (∀ c n f, x.Overhears n c f → x.Overtaken n c ∨ x.TookOver n c f ∨
      ((∀ k r, n ≤ k → ¬x.Did k (.requested c r)) ∧ x.session.InLine c ∧
        (x.session.queue.holder = some c → ∃ after, x.session.poll (x.moment wall) c = some after ∧
          .returned c (.fault f) ∈ after.2 ∧ ∀ r, .requested c r ∉ after.2) ∧
        ∀ limit, ReachedInTime wall config x → (x.sessionAt n).WritesWithin c limit →
          x.timeAt n ≤ limit → x.now ≤ limit)) ∧
    ∀ c call seen, x.session.queue.holder = some c → x.session.calls.get? c = some call →
      call.stage = .queued (.connect seen) → x.session.Ready →
      ∃ after, x.session.poll (x.moment wall) c = some after ∧
        (x.session.Reuses c call.plan after ∨
          ∃ f, x.session.lastFailure = some f ∧ x.session.sequences ≠ seen ∧
            .returned c (.fault f) ∈ after.2 ∧ ∀ d r, .settled d r ∉ after.2) := by
  refine ⟨fun c g n f ran alone => failure_of_ran reached ran alone, fun c n f overhears => ?_,
    fun c call seen holder hc hst ready => ready.poll _ holder hc hst⟩
  obtain ⟨some_limit, within⟩ := (x.sessionAt n).exists_writesWithin c
  by_cases overtaken : x.Overtaken n c
  · exact .inl overtaken
  by_cases tookOver : x.TookOver n c f
  · exact .inr (.inl tookOver)
  obtain ⟨hi, quiet⟩ := ((reached_inherits x reached n c f some_limit overhears within).resolve_left
    overtaken).resolve_left tookOver
  refine .inr (.inr ⟨quiet, hi.inLine, poll_of_inherits hi, ?_⟩)
  exact fun limit timed within early =>
    inTime_overhears x timed n c f limit overhears within early overtaken tookOver

def failing : List Action :=
  [.invoke 0 .ensureConnected, .poll 0, .poll 0, .invoke 1 .ensureConnected, .poll 1, .poll 1,
    .poll 0, .resolve 0 none, .poll 0, .poll 1]

def notFound : Fault := .connectFailed 1 (.deviceNotFound "C0FFEE")

theorem did_iff_effects {e : Effect} :
    x.Did n e ↔ ∃ effects, (x.history.map Entry.effects)[n]? = some effects ∧ e ∈ effects := by
  simp [Did, List.getElem?_map]

/-- The second call shares the failure; on a link that is ready it shares the link. -/
theorem sharing_after_failing :
    (∃ x, Reached noon oneAttempt x ∧ x.Ran 1 .connect 5 9 (.fault notFound) ∧
      (∃ m d, 5 < m ∧ m < 9 ∧ x.Did m (.settled d (some notFound)) ∧
        ∀ j, m < j → j ≤ 9 → ¬(x.sessionAt j).Disconnecting) ∧
      x.Overhears 8 1 notFound ∧ x.TookOver 8 1 notFound) ∧
    ∃ x after, Reached noon oneAttempt x ∧ x.session.queue.holder = some 1 ∧ x.session.Ready ∧
      x.session.poll (x.moment noon) 1 = some after ∧ x.session.Reuses 1 .finish after := by
  constructor
  · have h : ((start oneAttempt).run? noon failing).map (fun x => (x.history.map Entry.effects,
        [8, 9, 10].map fun n => (x.sessionAt n).queue.waiting,
        ((x.sessionAt 8).calls.get? 1).map Call.stage, x.session.calls.get? 1)) =
        some ([[], [], [.began 0 .connect], [], [], [.began 1 .connect],
          [.entered .connecting, .requested 0 (.find "C0FFEE")], [],
          [.entered .disconnected, .settled 0 (some notFound), .granted 1,
            .finished 0 (.fault notFound), .returned 0 (.fault notFound)],
          [.finished 1 (.fault notFound), .returned 1 (.fault notFound)]],
          [[1], [], []], some (.queued (.connect 0)), none) := by
      decide +kernel
    obtain ⟨x, hx, h⟩ := Option.map_eq_some_iff.mp h
    simp only [Prod.mk.injEq, List.map_cons, List.map_nil, List.cons.injEq, and_true] at h
    obtain ⟨effects, ⟨waiting, free, later⟩, stage, gone⟩ := h
    have did (n : Nat) (e : Effect) : x.Did n e ↔ _ := did_iff_effects
    simp only [effects] at did
    have ran : x.Ran 1 .connect 5 9 (.fault notFound) := by
      refine ⟨by simp [did], by decide, by simp [did], fun k o hk hlt hd => ?_⟩
      obtain rfl | rfl | rfl | rfl : k = 5 ∨ k = 6 ∨ k = 7 ∨ k = 8 := by omega
      all_goals simp [did] at hd
    have alone (k : Nat) (r : Option Fault) (hk : 5 ≤ k) (hle : k ≤ 9) :
        ¬x.Did k (.settled 1 r) := by
      intro hd
      obtain rfl | rfl | rfl | rfl | rfl : k = 5 ∨ k = 6 ∨ k = 7 ∨ k = 8 ∨ k = 9 := by omega
      all_goals simp [did] at hd
    have overhears : x.Overhears 8 1 notFound := by
      obtain ⟨call, hc, hst⟩ := Option.map_eq_some_iff.mp stage
      exact ⟨⟨0, by simp [did]⟩, by simp [waiting], call, 0, hc, hst⟩
    obtain ⟨shared, others, -⟩ := reached_sharing ⟨failing, hx⟩
    refine ⟨x, ⟨failing, hx⟩, ran, shared 1 5 9 notFound ran alone, overhears, ?_⟩
    rcases others 1 8 notFound overhears with ⟨j, hj, hle, -, hw⟩ | tookOver | ⟨-, ⟨call, hc, -⟩, -⟩
    · have length : x.history.length = 10 := by simpa using congrArg List.length effects
      obtain rfl | rfl : j = 9 ∨ j = 10 := by omega
      · simp [free] at hw
      · simp [later] at hw
    · exact tookOver
    · simp [gone] at hc
  · have h : ((start oneAttempt).run? noon
        (opening ++ [.invoke 1 .ensureConnected, .poll 1, .poll 1])).any (fun x =>
        decide (x.session.queue.holder = some 1 ∧
          x.session.calls.get? 1 = some ⟨.finish, .queued (.connect 1), none⟩ ∧
          x.session.held = some ⟨0, true⟩ ∧ x.session.isListening ∧
          x.session.state = .subscribed ∧ x.session.lastFailure = none)) = true := by
      decide +kernel
    obtain ⟨x, hx, h⟩ := (Option.any_eq_true _ _).mp h
    obtain ⟨holder, call, held, listening, state, clean⟩ := of_decide_eq_true h
    have ready : x.session.Ready := ⟨⟨0, held⟩, listening, state⟩
    obtain ⟨after, hpoll, reuses | ⟨f, hf, -⟩⟩ :=
      (reached_sharing ⟨_, hx⟩).2.2 1 _ 1 holder call rfl ready
    · exact ⟨x, after, ⟨_, hx⟩, holder, ready, hpoll, reuses⟩
    · rw [clean] at hf
      cases hf

end Course

end HeaterLink
