import HeaterLink.Proofs.Session.Invariants

/-!
# Requests, one step at a time

What a single step can do to the requests: a token is given out by the call
that registers it, it stays with that call until the operation has a result,
and only a fragment that completes a status message answers it.
-/

set_option autoImplicit false

namespace HeaterLink

def Effect.aboutRequest : Effect → Bool
  | .registered _ _ => true
  | .displaced _ _ => true
  | .answered _ _ => true
  | .took _ _ => true
  | .cleared => true
  | .finished _ _ => true
  | .emitted (.reading _) => true
  | _ => false

def Ending.outcome? : Ending → Option Outcome
  | .goto _ => none
  | .finish o => some o
  | .withdraw _ o => some o

theorem Response.fallback_ne_fresh (last : Option Reading) (r : Reading) :
    Response.fallback last ≠ .fresh r := by
  cases last <;> simp [Response.fallback]

/-- A response is fresh only if it is the reply to the request of the call. -/
theorem Stage.Ends.fresh {i : Inbound} {st : Stage} {e : Ending} {r : Reading} (h : st.Ends i e)
    (ho : e.outcome? = some (.response (.fresh r))) :
    ∃ k, st.token? = some k ∧ i.replies.get? k = some r := by
  have hfallback : some (Outcome.response (Response.fallback i.lastReading)) ≠
      some (.response (.fresh r)) := by
    simpa using Response.fallback_ne_fresh i.lastReading r
  cases h with
  | link _ he => cases he <;> cases ho
  | @answered k a r' hr =>
    obtain rfl : r' = r := by simpa [Ending.outcome?] using ho
    exact ⟨k, rfl, hr⟩
  | late _ => exact absurd ho hfallback
  | displaced _ _ => exact absurd ho hfallback
  | _ => cases ho

namespace Act.Turn

variable {t : Turn} {s : Session} {st : Stage} {after : Session × List Effect}

theorem begin_ask (t : Turn) (s : Session) (frame : Bytes) (limit : Nat) :
    t.begin (.ask frame limit) s =
      ({ s with
          nextToken := s.nextToken + 1
          inbound := (s.inbound.register ⟨s.nextToken, t.call⟩).1
          queue := s.queue.join t.call
          calls := s.calls.insert t.call
            ⟨t.plan, .queued (.write ⟨frame, t.moment.alarm limit, some s.nextToken⟩), none⟩ },
        .began t.call (.ask frame limit) :: (s.inbound.register ⟨s.nextToken, t.call⟩).2) := by
  simp [begin, prepare, enqueue, goto]

theorem begin_other (t : Turn) (s : Session) (operation : Operation)
    (h : ∀ frame limit, operation ≠ .ask frame limit) :
    ∃ use, (Stage.queued use).token? = none ∧ t.begin operation s =
      ({ s with
          queue := s.queue.join t.call
          calls := s.calls.insert t.call ⟨t.plan, .queued use, none⟩ },
        [.began t.call operation]) := by
  cases operation with
  | connect => exact ⟨.connect s.sequences, rfl, rfl⟩
  | send frame => exact ⟨.write ⟨frame, t.moment.alarm s.config.writeLimit, none⟩, rfl, rfl⟩
  | ask frame limit => exact absurd rfl (h frame limit)
  | disconnect => exact ⟨.disconnect, rfl, rfl⟩

theorem mem_follow {v : Verdict} {e : Effect} (h : e ∈ (t.follow v s).2) :
    ∃ o, e = .returned t.call o := by
  cases v with
  | finished o => exact ⟨o, List.mem_singleton.mp h⟩
  | run operation plan => cases h

theorem mem_ending {ending : Ending} {e : Effect} (h : e ∈ (ending.act t s).2) :
    (∃ o, ending.outcome? = some o ∧ e = .finished t.call o) ∨ ∃ o, e = .returned t.call o := by
  cases ending with
  | goto stage => cases h
  | finish o =>
    rw [Ending.act, finish_snd] at h
    rcases List.mem_cons.mp h with rfl | h
    · exact .inl ⟨o, rfl, rfl⟩
    · exact .inr (mem_follow h)
  | withdraw k o =>
    simp only [Ending.act, all_cons, all_nil, withdraw_apply, finish_snd, List.nil_append,
      List.append_nil] at h
    rcases List.mem_cons.mp h with rfl | h
    · exact .inl ⟨o, rfl, rfl⟩
    · exact .inr (mem_follow h)

theorem mem_closed {allowed : Ending → Prop} {e : Effect} (h : Closed t allowed s after)
    (he : e ∈ after.2) : e.Plain t.call ∨
      (∃ ending o, allowed ending ∧ ending.outcome? = some o ∧ e = .finished t.call o) ∨
      ∃ o, e = .returned t.call o := by
  obtain ⟨s₁, effects, ending, hs, hallowed, rfl⟩ := h
  rcases List.mem_append.mp he with he | he
  · exact .inl (hs.plain e he)
  · rcases mem_ending he with ⟨o, ho, rfl⟩ | h
    · exact .inr (.inl ⟨ending, o, hallowed, ho, rfl⟩)
    · exact .inr (.inr h)

theorem mem_closed_about {allowed : Ending → Prop} {e : Effect} (h : Closed t allowed s after)
    (he : e ∈ after.2) (about : e.aboutRequest) : e = .cleared ∨
      ∃ ending o, allowed ending ∧ ending.outcome? = some o ∧ e = .finished t.call o := by
  rcases mem_closed h he with plain | finished | ⟨o, rfl⟩
  · cases e with
    | cleared => exact .inl rfl
    | emitted event => rcases plain with rfl | rfl <;> cases about
    | _ => simp_all [Effect.Plain, Effect.aboutRequest]
  · exact .inr finished
  · cases about

structure Withdraws (i i' : Inbound) : Prop where
  lastReading : i'.lastReading = i.lastReading
  headerToken : i'.headerToken = i.headerToken
  reassembler : i'.reassembler = i.reassembler
  pending : ∀ p, i'.pending = some p → i.pending = some p
  replies : ∀ k r, i'.replies.get? k = some r → i.replies.get? k = some r

theorem withdraws_withdraw (i : Inbound) (k : Token) : Withdraws i (i.withdraw k) where
  lastReading := rfl
  headerToken := rfl
  reassembler := rfl
  pending := fun p h => (Option.filter_eq_some_iff.mp h).1
  replies := by
    intro k' r h
    rw [Inbound.withdraw, Table.get?_erase] at h
    split at h
    · cases h
    · exact h

theorem ending_fst (ending : Ending) : ∃ inbound, (ending.act t s).1 =
      { s with inbound := inbound, calls := (ending.act t s).1.calls } ∧
    Withdraws s.inbound inbound := by
  have same : Withdraws s.inbound s.inbound := ⟨rfl, rfl, rfl, fun p h => h, fun k r h => h⟩
  cases ending with
  | goto stage => exact ⟨s.inbound, rfl, same⟩
  | finish o =>
    refine ⟨s.inbound, ?_, same⟩
    rw [Ending.act, finish_fst, follow_fst]
  | withdraw k o =>
    refine ⟨s.inbound.withdraw k, ?_, withdraws_withdraw _ k⟩
    simp only [Ending.act, all_cons, all_nil, withdraw_apply, finish_fst]
    rw [follow_fst]

/-- Behind an ending a call is at the stage it went to, or its plan has run on from the result. -/
theorem ending_get? {ending : Ending} {call : Call}
    (h : (ending.act t s).1.calls.get? t.call = some call) :
    (∃ stage, ending = .goto stage ∧ call = ⟨t.plan, stage, none⟩) ∨
      ∃ o config, ending.outcome? = some o ∧
        (t.plan.next config t.moment.clock o).call? = some call := by
  cases ending with
  | goto stage =>
    rw [Ending.act, goto_get?, if_pos rfl] at h
    exact .inl ⟨stage, rfl, (Option.some.inj h).symm⟩
  | finish o =>
    rw [Ending.act, finish_fst, follow_get?, if_pos rfl] at h
    exact .inr ⟨o, _, rfl, h⟩
  | withdraw k o =>
    simp only [Ending.act, all_cons, all_nil, withdraw_apply, finish_fst] at h
    rw [follow_get?, if_pos rfl] at h
    exact .inr ⟨o, _, rfl, h⟩

theorem stage_of_call? {v : Verdict} {call : Call} (h : v.call? = some call) :
    ∃ operation, call.stage = .ready operation := by
  cases v with
  | finished o => cases h
  | run operation plan =>
    obtain rfl := Option.some.inj h
    exact ⟨operation, rfl⟩

theorem token?_of_goto {i : Inbound} {st' : Stage} (h : st.Ends i (.goto st')) :
    st'.token? = none ∨ st'.token? = st.token? := by
  cases h with
  | link _ he =>
    cases he with
    | goto hu => exact .inl (Stage.token?_eq_none_of_onLink (Stage.onLink_of_underway hu))
  | sent hw => exact .inr hw.symm

structure OnRequests (t : Turn) (s : Session) (st : Stage) (after : Session × List Effect) :
    Prop where
  config : after.1.config = s.config
  ratedPower : after.1.ratedPower = s.ratedPower
  nextToken : s.nextToken ≤ after.1.nextToken
  registered : ∀ c k, .registered c k ∈ after.2 →
    c = t.call ∧ k = s.nextToken ∧ after.1.nextToken = s.nextToken + 1
  token : ∀ call k, after.1.calls.get? t.call = some call → call.stage.token? = some k →
    (st.token? = some k ∨ .registered t.call k ∈ after.2) ∧ ∀ o, .finished t.call o ∉ after.2
  pending : ∀ p, after.1.inbound.pending = some p →
    s.inbound.pending = some p ∨ .registered p.caller p.token ∈ after.2
  replies : ∀ k r, after.1.inbound.replies.get? k = some r → s.inbound.replies.get? k = some r
  headerToken : after.1.inbound.headerToken = s.inbound.headerToken
  lastReading : after.1.inbound.lastReading = s.inbound.lastReading
  reassembler : after.1.inbound.reassembler =
    (s.inbound.reassembler.run (after.2.filterMap Effect.input?)).1
  took : ∀ i data, .took i data ∉ after.2
  answered : ∀ c k, .answered c k ∉ after.2
  quiet : ∀ r, .emitted (.reading r) ∉ after.2
  finished : ∀ c o, .finished c o ∈ after.2 →
    c = t.call ∧ ∃ ending, st.Ends s.inbound ending ∧ ending.outcome? = some o

theorem OnRequests.resets (h : OnRequests t s st after) :
    ∀ i ∈ after.2.filterMap Effect.input?, i = .reset := by
  intro i hi
  obtain ⟨e, he, hin⟩ := List.mem_filterMap.mp hi
  cases e with
  | took stream data => exact absurd he (h.took stream data)
  | cleared => exact (Option.some.inj hin).symm
  | _ => cases hin

theorem run_nil (r : Reassembler) : (r.run []).1 = r := rfl

/-- A turn that tells nothing about requests and does nothing to the inbound side. -/
theorem onRequests_of_quiet (config : after.1.config = s.config)
    (ratedPower : after.1.ratedPower = s.ratedPower) (nextToken : after.1.nextToken = s.nextToken)
    (inbound : after.1.inbound = s.inbound)
    (token : ∀ call, after.1.calls.get? t.call = some call →
      call.stage.token? = none ∨ call.stage.token? = st.token?)
    (quiet : ∀ e ∈ after.2, e.aboutRequest = false) : OnRequests t s st after where
  config := config
  ratedPower := ratedPower
  nextToken := Nat.le_of_eq nextToken.symm
  registered := fun c k h => by simpa [Effect.aboutRequest] using quiet _ h
  token := by
    intro call k hc hk
    refine ⟨.inl ?_, fun o h => by simpa [Effect.aboutRequest] using quiet _ h⟩
    rcases token call hc with h | h
    · rw [hk] at h
      cases h
    · rw [← h, hk]
  pending := fun p h => .inl (inbound ▸ h)
  replies := fun k r h => inbound ▸ h
  headerToken := by rw [inbound]
  lastReading := by rw [inbound]
  reassembler := by
    have : after.2.filterMap Effect.input? = [] := by
      refine List.filterMap_eq_nil_iff.mpr fun e he => ?_
      have := quiet e he
      cases e <;> simp_all [Effect.aboutRequest, Effect.input?]
    rw [this, inbound, run_nil]
  took := fun i data h => by simpa [Effect.aboutRequest] using quiet _ h
  answered := fun c k h => by simpa [Effect.aboutRequest] using quiet _ h
  quiet := fun r h => by simpa [Effect.aboutRequest] using quiet _ h
  finished := fun c o h => by simpa [Effect.aboutRequest] using quiet _ h

theorem follow_onRequests (v : Verdict) : OnRequests t s st (t.follow v s) := by
  have hfst := follow_fst t v s
  refine onRequests_of_quiet ?_ ?_ ?_ ?_ ?_ ?_
  · rw [hfst]
  · rw [hfst]
  · rw [hfst]
  · rw [hfst]
  · intro call hc
    rw [follow_get?, if_pos rfl] at hc
    cases v with
    | finished o => cases hc
    | run operation plan =>
      obtain rfl := Option.some.inj hc
      exact .inl rfl
  · intro e he
    obtain ⟨o, rfl⟩ := mem_follow he
    rfl

theorem mem_register {i : Inbound} {p : Pending} {e : Effect} (h : e ∈ (i.register p).2) :
    e = .registered p.caller p.token ∨ ∃ old : Pending, e = .displaced old.caller old.token := by
  cases hp : i.pending with
  | none =>
    simp only [Inbound.register, hp, List.mem_singleton] at h
    exact .inl h
  | some old =>
    simp only [Inbound.register, hp, List.mem_cons, List.not_mem_nil, or_false] at h
    rcases h with rfl | rfl
    · exact .inr ⟨old, rfl⟩
    · exact .inl rfl

theorem registered_mem_register (i : Inbound) (p : Pending) :
    .registered p.caller p.token ∈ (i.register p).2 := by
  cases hp : i.pending <;> simp [Inbound.register, hp]

theorem mem_begin {operation : Operation} {e : Effect} (he : e ∈ (t.begin operation s).2) :
    e = .began t.call operation ∨ e = .registered t.call s.nextToken ∨
      ∃ old : Pending, e = .displaced old.caller old.token := by
  by_cases h : ∃ frame limit, operation = .ask frame limit
  · obtain ⟨frame, limit, rfl⟩ := h
    rw [begin_ask] at he
    rcases List.mem_cons.mp he with rfl | he
    · exact .inl rfl
    · exact .inr (mem_register he)
  · obtain ⟨use, -, hbegin⟩ :=
      begin_other t s operation fun frame limit e => h ⟨frame, limit, e⟩
    rw [hbegin] at he
    exact .inl (List.mem_singleton.mp he)

theorem ask_onRequests (frame : Bytes) (limit : Nat) :
    OnRequests t s st (t.begin (.ask frame limit) s) := by
  have hmem (e : Effect) (he : e ∈ (t.begin (.ask frame limit) s).2) := mem_begin he
  rw [begin_ask] at hmem ⊢
  have hreg := List.mem_cons_of_mem (Effect.began t.call (.ask frame limit))
    (registered_mem_register s.inbound ⟨s.nextToken, t.call⟩)
  constructor
  case config => rfl
  case ratedPower => rfl
  case nextToken => exact Nat.le_succ _
  case registered =>
    intro c k h
    rcases hmem _ h with h | h | ⟨old, h⟩
    · cases h
    · cases h
      exact ⟨rfl, rfl, rfl⟩
    · cases h
  case token =>
    intro call k hc hk
    rw [Table.get?_insert, if_pos rfl] at hc
    obtain rfl := Option.some.inj hc
    obtain rfl : s.nextToken = k := Option.some.inj hk
    refine ⟨.inr hreg, fun o h => ?_⟩
    rcases hmem _ h with h | h | ⟨old, h⟩ <;> cases h
  case pending =>
    intro p hp
    obtain rfl : (⟨s.nextToken, t.call⟩ : Pending) = p := Option.some.inj hp
    exact .inr hreg
  case replies => exact fun k r h => h
  case headerToken => rfl
  case lastReading => rfl
  case reassembler =>
    have : (Effect.began t.call (.ask frame limit) ::
        (s.inbound.register ⟨s.nextToken, t.call⟩).2).filterMap Effect.input? = [] := by
      refine List.filterMap_eq_nil_iff.mpr fun e he => ?_
      rcases hmem e he with rfl | rfl | ⟨old, rfl⟩ <;> rfl
    rw [this, run_nil]
    rfl
  case took =>
    intro i data h
    rcases hmem _ h with h | h | ⟨old, h⟩ <;> cases h
  case answered =>
    intro c k h
    rcases hmem _ h with h | h | ⟨old, h⟩ <;> cases h
  case quiet =>
    intro r h
    rcases hmem _ h with h | h | ⟨old, h⟩ <;> cases h
  case finished =>
    intro c o h
    rcases hmem _ h with h | h | ⟨old, h⟩ <;> cases h

theorem begin_onRequests (operation : Operation) : OnRequests t s st (t.begin operation s) := by
  by_cases h : ∃ frame limit, operation = .ask frame limit
  · obtain ⟨frame, limit, rfl⟩ := h
    exact ask_onRequests frame limit
  · obtain ⟨use, huse, hbegin⟩ :=
      begin_other t s operation fun frame limit e => h ⟨frame, limit, e⟩
    rw [hbegin]
    refine onRequests_of_quiet rfl rfl rfl rfl ?_ ?_
    · intro call hc
      rw [Table.get?_insert, if_pos rfl] at hc
      obtain rfl := Option.some.inj hc
      exact .inl huse
    · intro e he
      obtain rfl := List.mem_singleton.mp he
      rfl

theorem ended_onRequests (h : Closed t (st.Ends s.inbound) s after) :
    OnRequests t s st after := by
  have habout (e : Effect) (he : e ∈ after.2) := mem_closed_about h he
  obtain ⟨s₁, effects, ending, hs, hends, rfl⟩ := h
  obtain ⟨inbound, hfst, hwithdraws⟩ := ending_fst (t := t) (s := s₁) ending
  rw [hs.inbound] at hwithdraws
  constructor
  case config => rw [hfst]; exact hs.config
  case ratedPower => rw [hfst]; exact hs.ratedPower
  case nextToken => rw [hfst]; exact Nat.le_of_eq hs.nextToken.symm
  case registered =>
    intro c k h
    rcases habout _ h rfl with e | ⟨ending, o, -, -, e⟩ <;> cases e
  case token =>
    intro call k hc hk
    rcases ending_get? hc with ⟨stage, rfl, rfl⟩ | ⟨o, config, -, hv⟩
    · refine ⟨.inl ?_, fun o h => ?_⟩
      · rcases token?_of_goto hends with h | h
        · rw [hk] at h
          cases h
        · rw [← h, hk]
      · rcases List.mem_append.mp h with h | h
        · cases hs.plain _ h
        · cases h
    · obtain ⟨operation, e⟩ := stage_of_call? hv
      rw [e] at hk
      cases hk
  case pending =>
    intro p hp
    rw [hfst] at hp
    exact .inl (hwithdraws.pending p hp)
  case replies =>
    intro k r h
    rw [hfst] at h
    exact hwithdraws.replies k r h
  case headerToken => rw [hfst]; exact hwithdraws.headerToken
  case lastReading => rw [hfst]; exact hwithdraws.lastReading
  case reassembler =>
    have hnil : (ending.act t s₁).2.filterMap Effect.input? = [] := by
      refine List.filterMap_eq_nil_iff.mpr fun e he => ?_
      rcases mem_ending he with ⟨o, -, rfl⟩ | ⟨o, rfl⟩ <;> rfl
    rw [hfst, List.filterMap_append, hnil, List.append_nil]
    exact hwithdraws.reassembler
  case took =>
    intro i data h
    rcases habout _ h rfl with e | ⟨ending, o, -, -, e⟩ <;> cases e
  case answered =>
    intro c k h
    rcases habout _ h rfl with e | ⟨ending, o, -, -, e⟩ <;> cases e
  case quiet =>
    intro r h
    rcases habout _ h rfl with e | ⟨ending, o, -, -, e⟩ <;> cases e
  case finished =>
    intro c o h
    rcases habout _ h rfl with e | ⟨ending, o', hends, ho, e⟩
    · cases e
    · cases e
      exact ⟨rfl, ending, hends, ho⟩

/-- What every step of a call does to the requests. -/
theorem Leads.onRequests (h : Leads t s st after) : OnRequests t s st after := by
  cases h with
  | opened => exact follow_onRequests _
  | begun => exact begin_onRequests _
  | @writes w held _ _ _ =>
    refine onRequests_of_quiet rfl rfl rfl rfl ?_ ?_
    · intro call hc
      rw [writes_get?] at hc
      obtain rfl := Option.some.inj hc
      exact .inr rfl
    · intro e he
      obtain rfl : e = .requested t.call (.write held.handle w.frame) := by
        simpa [request, goto] using he
      rfl
  | ended h => exact ended_onRequests h

/-- A frame is handed over by a call that has queued for the link with it, and that then is at its
write. -/
theorem Leads.hands (h : Leads t s st after) {c : CallId} {handle : Handle} {frame : Bytes}
    (hw : .requested c (.write handle frame) ∈ after.2) :
    c = t.call ∧ ∃ w, st = .queued (.write w) ∧ w.frame = frame ∧
      after.1.calls.get? t.call = some ⟨t.plan, .writing w, none⟩ := by
  cases h with
  | opened =>
    obtain ⟨o, e⟩ := mem_follow hw
    cases e
  | begun => rcases mem_begin hw with e | e | ⟨old, e⟩ <;> cases e
  | @writes w held _ _ _ =>
    obtain ⟨rfl, -, rfl⟩ : c = t.call ∧ handle = held.handle ∧ frame = w.frame := by
      simpa [request, goto] using hw
    exact ⟨rfl, w, rfl, rfl, writes_get? _ _ _ _⟩
  | ended h =>
    rcases mem_closed h hw with ⟨-, plain⟩ | ⟨ending, o, -, -, e⟩ | ⟨o, e⟩
    · exact absurd rfl (plain handle frame)
    · cases e
    · cases e

end Act.Turn

end HeaterLink
