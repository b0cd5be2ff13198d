import HeaterLink.Proofs.Session.Acts

/-!
# Turns of calls and listeners

Everything a call can do in one step, said once: it chooses what to run,
begins an operation, hands a frame to the radio, or does something steady and
ends its turn in one of the ways that its stage allows. A listener forgets the
message in progress, takes one fragment, or comes to its end.
-/

set_option autoImplicit false

namespace HeaterLink

def Verdict.call? : Verdict → Option Call
  | .finished _ => none
  | .run operation plan => some ⟨plan, .ready operation, none⟩

namespace Stage

def write? : Stage → Option Write
  | .queued (.write w) => some w
  | .writing w => some w
  | _ => none

def token? : Stage → Option Token
  | .queued (.write w) => w.token
  | .writing w => w.token
  | .awaiting k _ => some k
  | _ => none

def onLink : Stage → Bool
  | .queued (.connect _) => true
  | .queued .disconnect => true
  | st => st.underway

inductive Ends (i : Inbound) : Stage → Ending → Prop
  | link {st : Stage} {e : Ending} : st.onLink → e.OnLink → Ends i st e
  | written {w : Write} : w.token = none → Ends i (.writing w) (.finish .done)
  | failed {st : Stage} {w : Write} {f : Fault} :
      st.write? = some w → w.token = none → Ends i st (.finish (.fault f))
  | refused {st : Stage} {w : Write} {k : Token} {f : Fault} :
      st.write? = some w → w.token = some k → Ends i st (.withdraw k (.fault f))
  | sent {w : Write} {k : Token} {a : Alarm} :
      w.token = some k → Ends i (.writing w) (.goto (.awaiting k a))
  | late {st : Stage} {k : Token} :
      st.token? = some k → Ends i st (.withdraw k (.response (Response.fallback i.lastReading)))
  | answered {k : Token} {a : Alarm} {r : Reading} : i.replies.get? k = some r →
      Ends i (.awaiting k a) (.withdraw k (.response (.fresh r)))
  | displaced {k : Token} {a : Alarm} : i.replies.get? k = none → i.pendingToken ≠ k →
      Ends i (.awaiting k a) (.finish (.response (Response.fallback i.lastReading)))

theorem token?_eq_of_write? {st : Stage} {w : Write} (h : st.write? = some w) :
    st.token? = w.token := by
  cases st with
  | queued use => cases use <;> simp_all [write?, token?]
  | writing w' => simp_all [write?, token?]
  | _ => simp [write?] at h

theorem token?_eq_none_of_onLink {st : Stage} (h : st.onLink) : st.token? = none := by
  cases st with
  | queued use => cases use <;> simp_all [onLink, token?, underway]
  | _ => simp_all [onLink, token?, underway]

theorem onLink_of_underway {st : Stage} (h : st.underway) : st.onLink := by
  cases st <;> simp_all [onLink, underway]

theorem onLink_of_aim? {st : Stage} {next : Release} (h : st.aim? = some next) : st.onLink := by
  cases st with
  | queued use => cases use <;> simp_all [onLink, aim?]
  | _ => simp_all [onLink, aim?, underway]

end Stage

namespace Act.Turn

inductive Moves (t : Turn) (s : Session) : Option RadioAnswer → Stage → Act → Prop
  | opens {answer : Option RadioAnswer} {r : Request} :
      Moves t s answer (.opening r) (t.follow (r.start s.inbound.lastReading))
  | begins {answer : Option RadioAnswer} {operation : Operation} :
      Moves t s answer (.ready operation) (t.begin operation)
  | proceeds {answer : Option RadioAnswer} {use : Use} : s.queue.holder = some t.call →
      Moves t s answer (.queued use) (t.proceed use)
  | leaves {answer : Option RadioAnswer} {w : Write} : s.queue.holder ≠ some t.call →
      w.alarm.rings t.moment.now → Moves t s answer (.queued (.write w))
        (all [change fun s => { s with queue := s.queue.leave t.call }, t.expired w])
  | released {next : Release} {fault : Option Fault} :
      Moves t s (some (.finished fault)) (.releasing next) (t.released next)
  | finds {made : Nat} {h : Handle} :
      Moves t s (some (.found (some h))) (.seeking made)
        (all [t.request (.connect h s.config.connect.limit),
          t.goto (.connecting made h (t.moment.alarm s.config.connect.limit))])
  | misses {made : Nat} : Moves t s (some (.found none)) (.seeking made)
      (t.tryConnect (made + 1) (.deviceNotFound s.config.address))
  | connected {made : Nat} {h : Handle} {a : Alarm} :
      Moves t s (some (.finished none)) (.connecting made h a) (t.connected h)
  | connectFails {made : Nat} {h : Handle} {a : Alarm} {f : Fault} :
      Moves t s (some (.finished (some f))) (.connecting made h a) (t.discard made h f)
  | connectLate {answer : Option RadioAnswer} {made : Nat} {h : Handle} {a : Alarm} :
      a.rings t.moment.now → Moves t s answer (.connecting made h a)
        (all [tell (.abandoned t.call),
          t.discard made h (.connectTimeout (Fault.stated s.config.connect.limit))])
  | discarded {made : Nat} {f : Fault} {fault : Option Fault} :
      Moves t s (some (.finished fault)) (.discarding made f) (t.tryConnect (made + 1) f)
  | subscribed {made : Nat} {i : StreamId} {a : Alarm} :
      Moves t s (some (.finished none)) (.subscribing made i a) (t.subscribed i)
  | subscribeFails {made : Nat} {i : StreamId} {a : Alarm} {f : Fault} :
      Moves t s (some (.finished (some f))) (.subscribing made i a) (t.subscribeFailed made i f)
  | subscribeLate {answer : Option RadioAnswer} {made : Nat} {i : StreamId} {a : Alarm} :
      a.rings t.moment.now → Moves t s answer (.subscribing made i a)
        (all [tell (.abandoned t.call),
          t.subscribeFailed made i (.subscribeTimeout s.config.subscribe.limit)])
  | pauses {answer : Option RadioAnswer} {made : Nat} {f : Fault} {a : Alarm} :
      a.rings t.moment.now → Moves t s answer (.pausing made f a) (t.trySubscribe made f)
  | written {w : Write} {fault : Option Fault} :
      Moves t s (some (.finished fault)) (.writing w) (t.written w fault)
  | writeLate {answer : Option RadioAnswer} {w : Write} : w.alarm.rings t.moment.now →
      Moves t s answer (.writing w) (all [tell (.abandoned t.call), releaseLink, t.expired w])
  | answered {answer : Option RadioAnswer} {k : Token} {a : Alarm} {r : Reading} :
      s.inbound.replies.get? k = some r →
      Moves t s answer (.awaiting k a) (all [withdraw k, t.finish (.response (.fresh r))])
  | silent {answer : Option RadioAnswer} {k : Token} {a : Alarm} :
      s.inbound.replies.get? k = none → s.inbound.pendingToken = k → a.rings t.moment.now →
      Moves t s answer (.awaiting k a) (all [withdraw k, t.fallBack])
  | displaced {answer : Option RadioAnswer} {k : Token} {a : Alarm} :
      s.inbound.replies.get? k = none → s.inbound.pendingToken ≠ k →
      Moves t s answer (.awaiting k a) t.fallBack

/-- A call that does not have to wait goes on in one of the ways its stage allows. -/
theorem resume_moves {t : Turn} {s : Session} {answer : Option RadioAnswer} {st : Stage} {a : Act}
    (h : t.resume s answer st = some a) : Moves t s answer st a := by
  unfold resume at h
  split at h
  · obtain rfl := Option.some.inj h
    exact .opens
  · obtain rfl := Option.some.inj h
    exact .begins
  · split at h
    · rename_i holds
      obtain rfl := Option.some.inj h
      exact .proceeds holds
    · rename_i waits
      split at h
      · split at h
        · rename_i rings
          obtain rfl := Option.some.inj h
          exact .leaves waits rings
        · cases h
      · cases h
  · split at h
    · obtain rfl := Option.some.inj h
      exact .released
    · cases h
  · split at h
    · obtain rfl := Option.some.inj h
      exact .finds
    · obtain rfl := Option.some.inj h
      exact .misses
    · cases h
  · split at h
    · obtain rfl := Option.some.inj h
      exact .connected
    · obtain rfl := Option.some.inj h
      exact .connectFails
    · split at h
      · rename_i rings
        obtain rfl := Option.some.inj h
        exact .connectLate rings
      · cases h
  · split at h
    · obtain rfl := Option.some.inj h
      exact .discarded
    · cases h
  · split at h
    · obtain rfl := Option.some.inj h
      exact .subscribed
    · obtain rfl := Option.some.inj h
      exact .subscribeFails
    · split at h
      · rename_i rings
        obtain rfl := Option.some.inj h
        exact .subscribeLate rings
      · cases h
  · split at h
    · rename_i rings
      obtain rfl := Option.some.inj h
      exact .pauses rings
    · cases h
  · split at h
    · obtain rfl := Option.some.inj h
      exact .written
    · split at h
      · rename_i rings
        obtain rfl := Option.some.inj h
        exact .writeLate rings
      · cases h
  · split at h
    · rename_i hr
      obtain rfl := Option.some.inj h
      exact .answered hr
    · rename_i hr
      split at h
      · rename_i hk
        split at h
        · rename_i rings
          obtain rfl := Option.some.inj h
          exact .silent hr hk rings
        · cases h
      · rename_i hk
        obtain rfl := Option.some.inj h
        exact .displaced hr hk

end Act.Turn

/-- A step of a call is one of the ways to go on from the stage it is at. -/
theorem Session.poll_moves {s : Session} {m : Moment} {c : CallId} {after : Session × List Effect}
    (h : s.poll m c = some after) :
    ∃ call a, s.calls.get? c = some call ∧
      Act.Turn.Moves ⟨m, c, call.plan⟩ s call.answer call.stage a ∧ after = a s := by
  unfold poll at h
  cases hc : s.calls.get? c with
  | none => simp [hc] at h
  | some call =>
    simp only [hc, Option.map_eq_some_iff] at h
    obtain ⟨a, ha, rfl⟩ := h
    exact ⟨call, a, rfl, Act.Turn.resume_moves ha, rfl⟩

namespace Act.Turn

inductive Leads (t : Turn) (s : Session) : Stage → Session × List Effect → Prop
  | opened {r : Request} :
      Leads t s (.opening r) (t.follow (r.start s.inbound.lastReading) s)
  | begun {operation : Operation} : Leads t s (.ready operation) (t.begin operation s)
  | writes {w : Write} {held : Held} :
      s.queue.holder = some t.call → s.held = some held → held.up →
      Leads t s (.queued (.write w))
        (all [t.request (.write held.handle w.frame), t.goto (.writing w)] s)
  | ended {st : Stage} {after : Session × List Effect} :
      Closed t (st.Ends s.inbound) s after → Leads t s st after

variable {t : Turn} {s s₀ : Session} {st : Stage} {w : Write}

theorem closed_mono {allowed allowed' : Ending → Prop} {after : Session × List Effect}
    (h : ∀ e, allowed e → allowed' e) : Closed t allowed s after → Closed t allowed' s after := by
  rintro ⟨s₁, effects, ending, hs, hp, he⟩
  exact ⟨s₁, effects, ending, hs, h _ hp, he⟩

theorem leads_of_link (hst : st.onLink) {after : Session × List Effect}
    (h : Closed t Ending.OnLink s after) : Leads t s st after :=
  .ended (closed_mono (fun _ he => .link hst he) h)

theorem written_failed (hw : st.write? = some w) (f : Fault) :
    Closes t (st.Ends s₀.inbound) (t.written w (some f)) := by
  refine closes_cons steady_releaseLink (closes_single ?_)
  cases hk : w.token with
  | none => exact closes_finish (.failed hw hk)
  | some k => exact fun s => closed_ending (e := .withdraw k (.fault f)) (.refused hw hk)

theorem written_done : Closes t ((Stage.writing w).Ends s₀.inbound) (t.written w none) := by
  refine closes_cons steady_releaseLink (closes_single ?_)
  cases hk : w.token with
  | none => exact closes_finish (.written hk)
  | some k => exact closes_goto (.sent hk)

theorem expired_closed (hw : st.write? = some w)
    (h : s.inbound.lastReading = s₀.inbound.lastReading) :
    Closed t (st.Ends s₀.inbound) s (t.expired w s) := by
  unfold expired
  cases hk : w.token with
  | none => exact closed_ending (e := .finish _) (.failed hw hk)
  | some k =>
    refine closed_ending (e := .withdraw k (.response (Response.fallback s.inbound.lastReading))) ?_
    rw [h]
    exact .late (Stage.token?_eq_of_write? hw ▸ hk)

theorem expired_closed_behind {a : Act} (hw : st.write? = some w) (ha : IsSteady t.call a) :
    Closed t (st.Ends s.inbound) s (all [a, t.expired w] s) := by
  refine closed_steady (ha s) (expired_closed hw ?_)
  rw [(ha s).inbound]

theorem write_leads (holds : s.queue.holder = some t.call) :
    Leads t s (.queued (.write w)) (t.write w s) := by
  rw [write, choose_apply]
  cases hh : s.held with
  | none => exact .ended (written_failed rfl _ s)
  | some held =>
    by_cases hu : held.up
    · simp only [hu, if_true]
      exact .writes holds hh hu
    · simp only [hu]
      exact .ended (written_failed rfl _ s)

/-- A turn of a call that connects the link or leaves it at rest: it pursues its aim, or takes
over the failure of a sequence that has ended since the call came. -/
theorem Moves.pursues {answer : Option RadioAnswer} {a : Act} {next : Release}
    (h : Moves t s answer st a) (aim : st.aim? = some next) :
    Pursued t next s (a s) ∨ ∃ seen f, st = .queued (.connect seen) ∧
      s.queue.holder = some t.call ∧ s.lastFailure = some f ∧ s.sequences ≠ seen ∧
      a s = all [releaseLink, t.finish (.fault f)] s := by
  cases h with
  | @proceeds _ use holds =>
    cases use with
    | connect seen =>
      obtain rfl := Option.some.inj aim
      simp only [proceed, choose_apply]
      cases hf : s.lastFailure with
      | none => exact .inl (t.establish_pursues s)
      | some f =>
        by_cases hs : s.sequences = seen
        · simp only [hs, if_true]
          exact .inl (t.establish_pursues s)
        · simp only [hs, if_false]
          exact .inr ⟨seen, f, rfl, holds, rfl, hs, rfl⟩
    | disconnect =>
      obtain rfl := Option.some.inj aim
      exact .inl (t.release_pursues .rest s)
    | write w => cases aim
  | released =>
    obtain rfl := Option.some.inj aim
    exact .inl (t.released_pursues _ s)
  | finds =>
    obtain rfl := Option.some.inj aim
    exact .inl (pursues_cons (t.works_request (by simp)) (pursues_single (pursues_goto rfl rfl)) s)
  | misses =>
    obtain rfl := Option.some.inj aim
    exact .inl (t.tryConnect_pursues _ _ s)
  | connected =>
    obtain rfl := Option.some.inj aim
    exact .inl (t.connected_pursues _ s)
  | connectFails =>
    obtain rfl := Option.some.inj aim
    exact .inl (t.discard_pursues _ _ _ s)
  | connectLate _ =>
    obtain rfl := Option.some.inj aim
    exact .inl (pursues_cons t.works_abandon (pursues_single (t.discard_pursues _ _ _)) s)
  | discarded =>
    obtain rfl := Option.some.inj aim
    exact .inl (t.tryConnect_pursues _ _ s)
  | subscribed =>
    obtain rfl := Option.some.inj aim
    exact .inl (t.subscribed_pursues _ s)
  | subscribeFails =>
    obtain rfl := Option.some.inj aim
    exact .inl (t.subscribeFailed_pursues _ _ _ s)
  | subscribeLate _ =>
    obtain rfl := Option.some.inj aim
    exact .inl (pursues_cons t.works_abandon (pursues_single (t.subscribeFailed_pursues _ _ _)) s)
  | pauses _ =>
    obtain rfl := Option.some.inj aim
    exact .inl (t.trySubscribe_pursues _ _ s)
  | _ => cases aim

theorem share_closes (f : Fault) :
    Closes t Ending.OnLink (all [releaseLink, t.finish (.fault f)]) :=
  closes_cons steady_releaseLink (closes_single (closes_finish Ending.OnLink.fault))

theorem steady_leave : IsSteady t.call (change fun s => { s with queue := s.queue.leave t.call }) :=
  steady_change fun _ => ⟨rfl, rfl, rfl, rfl, rfl⟩

/-- Whatever a call does next is what its stage leads to. -/
theorem leads_of_moves {answer : Option RadioAnswer} {a : Act} (h : Moves t s answer st a) :
    Leads t s st (a s) := by
  cases aim : st.aim? with
  | some next =>
    refine leads_of_link (Stage.onLink_of_aim? aim) ?_
    rcases h.pursues aim with h | ⟨seen, f, -, -, -, -, h⟩
    · exact h.closed
    · exact h ▸ share_closes f s
  | none =>
  cases h with
  | opens => exact .opened
  | begins => exact .begun
  | @proceeds _ use holds =>
    cases use with
    | write w => exact write_leads holds
    | _ => cases aim
  | leaves _ _ => exact .ended (expired_closed_behind rfl steady_leave)
  | @written w fault =>
    cases fault with
    | none => exact .ended (written_done s)
    | some f => exact .ended (written_failed rfl f s)
  | @writeLate _ w _ =>
    have ha : IsSteady t.call (all [tell (.abandoned t.call), releaseLink]) := by
      refine steady_all fun a ha => ?_
      simp only [List.mem_cons, List.not_mem_nil, or_false] at ha
      rcases ha with rfl | rfl
      · exact steady_tell rfl rfl
      · exact steady_releaseLink
    refine .ended ?_
    simpa using expired_closed_behind (w := w) rfl ha
  | @answered _ k _ r hr =>
    exact .ended (closed_ending (e := .withdraw k (.response (.fresh r))) (.answered hr))
  | @silent _ k _ _ _ _ =>
    exact .ended (closed_ending
      (e := .withdraw k (.response (Response.fallback s.inbound.lastReading))) (.late rfl))
  | displaced hr hk =>
    exact .ended (closed_ending
      (e := .finish (.response (Response.fallback s.inbound.lastReading))) (.displaced hr hk))
  | _ => cases aim

theorem goto_get? (t : Turn) (st : Stage) (s : Session) (c : CallId) :
    (t.goto st s).1.calls.get? c =
      if t.call = c then some ⟨t.plan, st, none⟩ else s.calls.get? c :=
  Table.get?_insert _ _ _ _

theorem writes_get? (t : Turn) (r : RadioRequest) (w : Write) (s : Session) :
    (all [t.request r, t.goto (.writing w)] s).1.calls.get? t.call =
      some ⟨t.plan, .writing w, none⟩ :=
  (goto_get? t (.writing w) s t.call).trans (if_pos rfl)

theorem follow_get? (t : Turn) (v : Verdict) (s : Session) (c : CallId) :
    (t.follow v s).1.calls.get? c = if t.call = c then v.call? else s.calls.get? c := by
  cases v with
  | finished o => exact Table.get?_erase _ _ _
  | run operation plan => exact Table.get?_insert _ _ _ _

/-- A verdict changes nothing but the call it is about. -/
theorem follow_fst (t : Turn) (v : Verdict) (s : Session) :
    (t.follow v s).1 = { s with calls := (t.follow v s).1.calls } := by
  cases v <;> rfl

theorem finish_fst (o : Outcome) :
    (t.finish o s).1 = (t.follow (t.plan.next s.config t.moment.clock o) s).1 := by
  simp [finish]

theorem finish_snd (o : Outcome) :
    (t.finish o s).2 =
      .finished t.call o :: (t.follow (t.plan.next s.config t.moment.clock o) s).2 := by
  simp [finish]

theorem ending_get?_other (e : Ending) {c : CallId} (h : c ≠ t.call) :
    (e.act t s).1.calls.get? c = s.calls.get? c := by
  cases e with
  | goto st => exact (goto_get? t st s c).trans (if_neg (Ne.symm h))
  | finish o => rw [Ending.act, finish_fst, follow_get?, if_neg (Ne.symm h)]
  | withdraw k o =>
    simp only [Ending.act, all_cons, all_nil, withdraw_apply, finish_fst]
    rw [follow_get?, if_neg (Ne.symm h)]

def wants (t : Turn) (s : Session) : Operation → Use
  | .connect => .connect s.sequences
  | .disconnect => .disconnect
  | .send frame => .write ⟨frame, t.moment.alarm s.config.writeLimit, none⟩
  | .ask frame limit => .write ⟨frame, t.moment.alarm limit, some s.nextToken⟩

theorem begin_calls (t : Turn) (s : Session) (operation : Operation) :
    (t.begin operation s).1.calls =
      s.calls.insert t.call ⟨t.plan, .queued (t.wants s operation), none⟩ := by
  cases operation <;> rfl

theorem begin_queue (t : Turn) (s : Session) (operation : Operation) :
    (t.begin operation s).1.queue = s.queue.join t.call := by
  cases operation <;> rfl

theorem begin_get? (operation : Operation) :
    (t.begin operation s).1.calls.get? t.call =
      some ⟨t.plan, .queued (t.wants s operation), none⟩ := by
  rw [begin_calls, Table.get?_insert, if_pos rfl]

theorem begin_get?_other (operation : Operation) {c : CallId} (h : c ≠ t.call) :
    (t.begin operation s).1.calls.get? c = s.calls.get? c := by
  cases operation <;> exact (Table.get?_insert _ _ _ _).trans (if_neg (Ne.symm h))

/-- A turn leaves all other calls as they are. -/
theorem Leads.get?_other {after : Session × List Effect} (h : Leads t s st after) {c : CallId}
    (hc : c ≠ t.call) : after.1.calls.get? c = s.calls.get? c := by
  cases h with
  | opened => rw [follow_get?, if_neg (Ne.symm hc)]
  | begun => exact begin_get?_other _ hc
  | writes _ _ _ => exact (Table.get?_insert _ _ _ _).trans (if_neg (Ne.symm hc))
  | ended h =>
    obtain ⟨s₁, effects, e, hs, -, rfl⟩ := h
    rw [ending_get?_other e hc, hs.calls]

end Act.Turn

theorem Session.poll_leads {s : Session} {m : Moment} {c : CallId} {after : Session × List Effect}
    (h : s.poll m c = some after) :
    ∃ call, s.calls.get? c = some call ∧ Act.Turn.Leads ⟨m, c, call.plan⟩ s call.stage after := by
  obtain ⟨call, a, hc, hm, rfl⟩ := poll_moves h
  exact ⟨call, hc, Act.Turn.leads_of_moves hm⟩

theorem Session.poll_get?_other {s : Session} {m : Moment} {c c' : CallId}
    {after : Session × List Effect} (h : s.poll m c = some after) (hc : c' ≠ c) :
    after.1.calls.get? c' = s.calls.get? c' := by
  obtain ⟨call, -, hl⟩ := poll_leads h
  exact hl.get?_other hc

inductive Session.Listens (s : Session) (i : StreamId) : Session × List Effect → Prop
  | wakes {stream : Stream} : s.streams.get? i = some stream → stream.phase = .waiting →
      Listens s i ({ s with
        inbound := s.inbound.reset
        streams := s.streams.insert i { stream with phase := .listening } }, [.cleared])
  | takes {stream : Stream} {data : Bytes} {rest : List Bytes} :
      s.streams.get? i = some stream → stream.phase = .listening →
      stream.fragments = data :: rest →
      Listens s i ({ s with
        inbound := (s.inbound.take s.config.profile.layout s.ratedPower data).1
        streams := s.streams.insert i { stream with fragments := rest } },
        .took i data :: (s.inbound.take s.config.profile.layout s.ratedPower data).2)
  | ends {stream : Stream} : s.streams.get? i = some stream → stream.phase = .listening →
      stream.fragments = [] → stream.fed = false →
      Listens s i ({ s with
        inbound := s.inbound.reset
        streams := s.streams.erase i
        state := .disconnected },
        [.ended i, .cleared, .entered .disconnected] ++
          if s.state = .disconnected then [] else [.emitted .disconnected])
  | drops {stream : Stream} : s.streams.get? i = some stream → stream.phase = .cancelled →
      Listens s i ({ s with streams := s.streams.erase i }, [.ended i])

theorem Session.listen_listens {s : Session} {i : StreamId} {after : Session × List Effect}
    (h : s.listen i = some after) : s.Listens i after := by
  unfold listen at h
  cases hs : s.streams.get? i with
  | none => simp [hs] at h
  | some stream =>
    simp only [hs] at h
    split at h
    · cases h
    · rename_i hp
      obtain rfl := Option.some.inj h
      exact .wakes hs hp
    · rename_i hp
      split at h
      · rename_i data rest hf
        obtain rfl := Option.some.inj h
        exact .takes hs hp hf
      · rename_i hf
        split at h
        · cases h
        · rename_i hfed
          obtain rfl := Option.some.inj h
          have := Listens.ends hs hp hf (by simpa using hfed)
          by_cases hd : s.state = .disconnected <;> simpa [Act.goDown, hd] using this
    · rename_i hp
      obtain rfl := Option.some.inj h
      exact .drops hs hp

theorem Session.Listens.calls {s : Session} {i : StreamId} {after : Session × List Effect}
    (h : s.Listens i after) : after.1.calls = s.calls := by
  cases h <;> rfl

end HeaterLink
