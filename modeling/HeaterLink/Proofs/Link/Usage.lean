import HeaterLink.Proofs.Link.Agreement
import HeaterLink.Proofs.Link.Handles
import HeaterLink.Proofs.Requests.Steps

/-!
# The handle in use

At most one handle is in use. Which one it is and what is asked of it can be
read off the call that has the link, or off the link while no call does
anything with it. Every turn asks only what the handle in use allows, and
leaves it as the next turn expects it.
-/

set_option autoImplicit false

namespace HeaterLink

abbrev Current := Option (Handle × Phase)

namespace Current

def phase (n h : Handle) : Current → Phase
  | some (h', p) => if h' = h then p else if h < n then .closed else .unknown
  | none => if h < n then .closed else .unknown

structure Leads (n : Handle) (cur : Current) (signals : List Signal) (cur' : Current) : Prop where
  orderly : ∀ h, Orderly h signals (cur.phase n h)
  phases : ∀ h, HeaterLink.phase h signals (cur.phase n h) = cur'.phase n h
  same : ∀ h p, cur' = some (h, p) → ∃ q, cur = some (h, q)

variable {n h : Handle} {cur cur₁ cur₂ : Current} {c : CallId} {p : Phase}

theorem leads_nil (cur : Current) : Leads n cur [] cur where
  orderly := fun _ => trivial
  phases := fun _ => rfl
  same := fun _ p e => ⟨p, e⟩

theorem Leads.trans {first later : List Signal} (h₁ : Leads n cur first cur₁)
    (h₂ : Leads n cur₁ later cur₂) : Leads n cur (first ++ later) cur₂ where
  orderly := by
    intro h
    rw [orderly_append, h₁.phases]
    exact ⟨h₁.orderly h, h₂.orderly h⟩
  phases := by
    intro h
    rw [phase_append, h₁.phases, h₂.phases]
  same := by
    intro h p e
    obtain ⟨q, e⟩ := h₂.same h p e
    exact h₁.same h q e

/-- Nothing that is over matters to the handles that are not in use. -/
theorem phase_none_answered (n h : Handle) (c : CallId) (ok : Bool) :
    (phase n h none).answered c ok = phase n h none := by
  by_cases e : h < n <;> simp [phase, Phase.answered, e]

theorem leads_find (n : Handle) (c : CallId) (address : String) :
    Leads n none [.asked c (.find address)] none where
  orderly := by
    intro h
    refine ⟨?_, trivial⟩
    show (phase n h none).live = false
    by_cases e : h < n <;> simp [phase, Phase.live, e]
  phases := fun _ => rfl
  same := by simp

theorem leads_asked {r : RadioRequest} (handle : r.handle? = some h) (takes : p.Takes r) :
    Leads n (some (h, p)) [.asked c r] (some (h, p.ask c r)) where
  orderly := by
    intro h'
    refine ⟨?_, trivial⟩
    cases r with
    | find address => cases handle
    | _ =>
      intro e
      obtain rfl : h = h' := Option.some.inj (handle.symm.trans e)
      simpa [phase] using takes
  phases := by
    intro h'
    by_cases e : h = h' <;> simp [HeaterLink.phase, phase, Phase.next, handle, e]
  same := by simp

theorem leads_dropped (held : p ≠ .closing c) :
    Leads n (some (h, p)) [.dropped c] (some (h, p.answered c false)) where
  orderly := by
    intro h'
    refine ⟨?_, trivial⟩
    show phase n h' _ ≠ _
    by_cases e : h = h'
    · simpa [phase, e] using held
    · by_cases e' : h' < n <;> simp [phase, e, e']
  phases := by
    intro h'
    show (phase n h' _).answered c false = _
    by_cases e : h = h'
    · simp [phase, e]
    · simpa [phase, e] using phase_none_answered n h' c false
  same := by simp

theorem leads_ended (c : CallId) (ok : Bool) :
    Leads n (some (h, p)) [.ended c ok] (some (h, p.answered c ok)) where
  orderly := fun _ => ⟨trivial, trivial⟩
  phases := by
    intro h'
    show (phase n h' _).answered c ok = _
    by_cases e : h = h'
    · simp [phase, e]
    · simpa [phase, e] using phase_none_answered n h' c ok
  same := by simp

/-- A handle that has been released is as good as none. -/
theorem leads_forget (old : h < n) : Leads n (some (h, .closed)) [] none where
  orderly := fun _ => trivial
  phases := by
    intro h'
    show phase n h' (some (h, .closed)) = phase n h' none
    by_cases e : h = h'
    · subst e
      simp [phase, old]
    · simp [phase, e]
  same := by simp

end Current

def Phase.seen (p : Phase) (c : CallId) : Option RadioAnswer → Phase
  | some (.finished fault) => p.answered c fault.isNone
  | _ => p

theorem Phase.seen_connecting (c : CallId) (answer : Option RadioAnswer) :
    (Phase.connecting c).seen c answer ≠ .closing c ∧
      (((Phase.connecting c).seen c answer).answered c false = .idle ∨
        ((Phase.connecting c).seen c answer).answered c false = .refused) := by
  rcases answer with _ | ⟨found⟩ | ⟨_ | fault⟩ <;> simp [Phase.seen, Phase.answered]

theorem Phase.seen_serving (c : CallId) (answer : Option RadioAnswer) :
    (Phase.serving c).seen c answer ≠ .closing c ∧
      ((Phase.serving c).seen c answer).answered c false = .idle := by
  rcases answer with _ | ⟨found⟩ | ⟨_ | fault⟩ <;> simp [Phase.seen, Phase.answered]

def Session.handle? (s : Session) : Option Handle := s.held.map Held.handle

def Session.resting (s : Session) : Current := s.handle?.map fun h => (h, .idle)

theorem Session.resting_of_none {s : Session} (h : s.held = none) : s.resting = none := by
  rw [resting, handle?, h]
  rfl

theorem Session.resting_of_handle {s : Session} {h : Handle} (hh : s.handle? = some h) :
    s.resting = some (h, .idle) := by
  rw [resting, hh]
  rfl

theorem Session.resting_of_some {s : Session} {held : Held} (h : s.held = some held) :
    s.resting = some (held.handle, .idle) :=
  resting_of_handle (congrArg (Option.map Held.handle) h)

def Stage.Uses (c : CallId) (s : Session) (answer : Option RadioAnswer) (cur : Current) :
    Stage → Prop
  | .releasing _ => ∃ h, cur = some (h, (Phase.closing c).seen c answer)
  | .discarding _ _ => ∃ h, cur = some (h, (Phase.closing c).seen c answer)
  | .seeking _ => cur =
      match answer with
      | some (.found (some h)) => some (h, .found)
      | _ => none
  | .connecting _ h _ => cur = some (h, (Phase.connecting c).seen c answer)
  | .subscribing _ _ _ =>
      ∃ h, s.handle? = some h ∧ cur = some (h, (Phase.serving c).seen c answer)
  | .writing _ =>
      ∃ h, s.handle? = some h ∧ cur = some (h, (Phase.serving c).seen c answer)
  | .pausing _ _ _ => cur = s.resting
  | _ => True

structure Session.Uses (s : Session) (cur : Current) : Prop where
  working : ∀ c call, s.calls.get? c = some call → call.stage.holds →
    call.stage.Uses c s call.answer cur
  resting : (∀ c call, s.calls.get? c = some call → ¬call.stage.holds) → cur = s.resting

namespace Session

variable {s s' : Session} {cur : Current}

theorem Stage.Uses.congr {c : CallId} {answer : Option RadioAnswer} {st : Stage}
    (handle : s'.handle? = s.handle?) (h : st.Uses c s answer cur) : st.Uses c s' answer cur := by
  cases st with
  | subscribing made i a => exact h.imp fun _ hg => ⟨handle.trans hg.1, hg.2⟩
  | writing w => exact h.imp fun _ hg => ⟨handle.trans hg.1, hg.2⟩
  | pausing made f a => exact h.trans (by rw [resting, resting, handle])
  | _ => exact h

theorem Uses.congr (h : s.Uses cur) (calls : s'.calls = s.calls)
    (handle : s'.handle? = s.handle?) : s'.Uses cur where
  working := by
    rw [calls]
    exact fun c call hc hh => Stage.Uses.congr handle (h.working c call hc hh)
  resting := by
    rw [calls]
    exact fun hn => (h.resting hn).trans (by rw [Session.resting, Session.resting, handle])

/-- A call that needs no link changes nothing about the handle in use. -/
theorem Uses.aside {c : CallId} (h : s.Uses cur) (handle : s'.handle? = s.handle?)
    (before : ∀ call, s.calls.get? c = some call → ¬call.stage.holds)
    (idle : ∀ call, s'.calls.get? c = some call → ¬call.stage.holds)
    (others : ∀ c', c' ≠ c → s'.calls.get? c' = s.calls.get? c') : s'.Uses cur where
  working := by
    intro c' call hc hh
    by_cases e : c' = c
    · subst e
      exact absurd hh (idle call hc)
    · exact Stage.Uses.congr handle (h.working c' call (others c' e ▸ hc) hh)
  resting := by
    intro hn
    rw [Session.resting, handle]
    refine h.resting fun c' call hc hh => ?_
    by_cases e : c' = c
    · subst e
      exact before call hc hh
    · exact hn c' call (others c' e ▸ hc) hh

end Session

namespace Act.Turn

open Session

variable {t : Turn} {s : Session} {n : Handle} {cur : Current}

def Serves (n : Handle) (cur : Current) (after : Session × List Effect) : Prop :=
  ∃ cur', cur.Leads n (after.2.filterMap Effect.signal?) cur' ∧ after.1.Uses cur'

theorem serves_behind {s' : Session} {first later : List Effect} {cur₁ : Current}
    (lead : cur.Leads n (first.filterMap Effect.signal?) cur₁) (h : Serves n cur₁ (s', later)) :
    Serves n cur (s', first ++ later) := by
  obtain ⟨cur₂, h₂, uses⟩ := h
  exact ⟨cur₂, by rw [List.filterMap_append]; exact lead.trans h₂, uses⟩

theorem serves_quiet {s' : Session} {first later : List Effect}
    (quiet : first.filterMap Effect.signal? = []) (h : Serves n cur (s', later)) :
    Serves n cur (s', first ++ later) := by
  have lead : cur.Leads n (first.filterMap Effect.signal?) cur := by
    rw [quiet]
    exact Current.leads_nil cur
  exact serves_behind lead h

theorem goDown_quiet (s : Session) : (goDown s).2.filterMap Effect.signal? = [] := by
  by_cases h : s.state = .disconnected <;> simp [goDown, h, Effect.signal?]

theorem releaseLink_quiet (s : Session) : (releaseLink s).2.filterMap Effect.signal? = [] := by
  refine List.filterMap_eq_nil_iff.mpr fun e he => ?_
  obtain ⟨c, rfl⟩ := mem_releaseLink he
  rfl

theorem cancelListener_quiet (s : Session) :
    (cancelListener s).2.filterMap Effect.signal? = [] := by
  refine List.filterMap_eq_nil_iff.mpr fun e he => ?_
  obtain ⟨i, rfl⟩ := mem_cancelListener he
  rfl

theorem follow_quiet (v : Verdict) (s : Session) :
    (t.follow v s).2.filterMap Effect.signal? = [] := by
  refine List.filterMap_eq_nil_iff.mpr fun e he => ?_
  obtain ⟨o, rfl⟩ := mem_follow he
  rfl

theorem finish_quiet (o : Outcome) (s : Session) :
    (t.finish o s).2.filterMap Effect.signal? = [] := by
  rw [finish_snd, List.filterMap_cons, follow_quiet]
  rfl

theorem goto_serves (alone : s.Alone t.call) {st : Stage}
    (working : st.holds → st.Uses t.call s none cur) (resting : ¬st.holds → cur = s.resting) :
    Serves n cur (t.goto st s) := by
  refine ⟨cur, Current.leads_nil cur, fun c call hc hh => ?_, fun hn => resting fun hh => ?_⟩
  · rw [goto_get?] at hc
    split at hc
    · rename_i e
      obtain rfl := Option.some.inj hc
      subst e
      have := working hh
      cases st <;> exact this
    · rename_i e
      exact absurd hh (alone c call hc (Ne.symm e))
  · exact hn t.call ⟨t.plan, st, none⟩ (by rw [goto_get?, if_pos rfl]) hh

theorem finish_serves (alone : s.Alone t.call) (resting : cur = s.resting) (o : Outcome) :
    Serves n cur (t.finish o s) := by
  refine ⟨cur, by rw [finish_quiet]; exact Current.leads_nil cur, fun c call hc hh => ?_,
    fun _ => ?_⟩
  · rw [finish_fst, follow_get?] at hc
    split at hc
    · obtain ⟨operation, e⟩ := stage_of_call? hc
      rw [e] at hh
      cases hh
    · rename_i e
      exact absurd hh (alone c call hc (Ne.symm e))
  · rw [finish_fst, follow_fst]
    exact resting

theorem endSequence_serves (alone : s.Alone t.call) (resting : cur = s.resting)
    (failure : Option Fault) : Serves n cur (t.endSequence failure s) := by
  simp only [endSequence, all_cons, all_nil, change_apply, tell_apply, List.append_nil]
  apply serves_quiet rfl
  apply serves_quiet rfl
  apply serves_quiet (releaseLink_quiet _)
  rw [releaseLink_fst]
  apply finish_serves
  · exact alone
  · exact resting

theorem trySubscribe_serves (alone : s.Alone t.call) (resting : cur = s.resting) (made : Nat)
    (last : Fault) : Serves n cur (t.trySubscribe made last s) := by
  rw [trySubscribe, choose_apply]
  cases hh : s.held with
  | none => exact endSequence_serves alone resting _
  | some held =>
    by_cases hm : made < s.config.subscribe.attempts
    · obtain rfl := resting.trans (Session.resting_of_some hh)
      simp only [hm, if_true, all_cons, all_nil, change_apply, List.append_nil]
      apply serves_quiet rfl
      apply serves_behind (Current.leads_asked (r := .subscribe _ _) rfl rfl)
      apply goto_serves
      · exact alone
      · exact fun _ => ⟨held.handle, congrArg (Option.map Held.handle) hh, rfl⟩
      · simp [Stage.holds, Stage.underway]
    · simp only [hm]
      exact endSequence_serves alone resting _

theorem subscribeFailed_serves (alone : s.Alone t.call) (resting : cur = s.resting) (made : Nat)
    (stream : StreamId) (fault : Fault) :
    Serves n cur (t.subscribeFailed made stream fault s) := by
  rw [subscribeFailed, choose_apply]
  by_cases hm : made + 1 < s.config.subscribe.attempts
  · simp only [hm, if_true, all_cons, all_nil, change_apply, List.append_nil]
    apply serves_quiet rfl
    apply goto_serves
    · exact alone
    · exact fun _ => resting
    · simp [Stage.holds, Stage.underway]
  · simp only [hm, all_cons, all_nil, change_apply, List.append_nil]
    apply serves_quiet rfl
    apply trySubscribe_serves
    · exact alone
    · exact resting

theorem subscribed_serves (alone : s.Alone t.call) (resting : cur = s.resting)
    (stream : StreamId) : Serves n cur (t.subscribed stream s) := by
  simp only [subscribed, all_cons, all_nil, change_apply, tell_apply, enter_apply, List.append_nil]
  apply serves_quiet rfl
  apply serves_quiet rfl
  apply serves_quiet rfl
  apply endSequence_serves
  · exact alone
  · exact resting

theorem startSubscribe_serves (alone : s.Alone t.call) (resting : cur = s.resting) :
    Serves n cur (t.startSubscribe s) := by
  simp only [startSubscribe, all_cons, all_nil, List.append_nil]
  apply serves_quiet (cancelListener_quiet s)
  rw [cancelListener_fst]
  apply trySubscribe_serves
  · exact alone
  · exact resting

theorem tryConnect_serves (alone : s.Alone t.call) (held : s.held = none) (made : Nat)
    (last : Fault) : Serves n none (t.tryConnect made last s) := by
  have resting : none = s.resting := (Session.resting_of_none held).symm
  rw [tryConnect, choose_apply]
  by_cases hm : made < s.config.connect.attempts
  · simp only [hm, if_true, all_cons, all_nil, enter_apply, List.append_nil]
    apply serves_quiet rfl
    apply serves_behind (Current.leads_find n t.call s.config.address)
    apply goto_serves
    · exact alone
    · exact fun _ => rfl
    · simp [Stage.holds, Stage.underway]
  · simp only [hm, if_false, all_cons, all_nil, enter_apply, List.append_nil]
    apply serves_quiet rfl
    apply endSequence_serves
    · exact alone
    · exact resting

theorem connected_serves (alone : s.Alone t.call) (h : Handle) :
    Serves n (some (h, .idle)) (t.connected h s) := by
  simp only [connected, all_cons, all_nil, change_apply, tell_apply, enter_apply, List.append_nil]
  apply serves_quiet rfl
  apply serves_quiet rfl
  apply serves_quiet rfl
  apply startSubscribe_serves
  · exact alone
  · rfl

theorem discard_serves (alone : s.Alone t.call) {h : Handle} {p : Phase}
    (takes : p = .idle ∨ p = .refused) (made : Nat) (fault : Fault) :
    Serves n (some (h, p)) (t.discard made h fault s) := by
  simp only [discard, all_cons, all_nil, List.append_nil]
  apply serves_behind (Current.leads_asked (r := .disconnect _) rfl takes)
  apply goto_serves
  · exact alone
  · exact fun _ => ⟨h, rfl⟩
  · simp [Stage.holds, Stage.underway]

theorem released_serves (alone : s.Alone t.call) (held : s.held = none) (next : Release) :
    Serves n none (t.released next s) := by
  simp only [released, all_cons, all_nil, resetInbound_apply, List.append_nil]
  apply serves_quiet rfl
  apply serves_quiet (goDown_quiet _)
  rw [goDown_fst]
  cases next with
  | reconnect =>
    apply tryConnect_serves
    · exact alone
    · exact held
  | rest =>
    simp only [all_cons, all_nil, change_apply, List.append_nil]
    apply serves_quiet rfl
    apply serves_quiet (releaseLink_quiet _)
    rw [releaseLink_fst]
    apply finish_serves
    · exact alone
    · show none = (s.held.map Held.handle).map _
      rw [held]
      rfl

theorem release_serves (alone : s.Alone t.call) (resting : cur = s.resting) (next : Release) :
    Serves n cur (t.release next s) := by
  simp only [release, all_cons, all_nil, List.append_nil]
  apply serves_quiet (cancelListener_quiet s)
  rw [cancelListener_fst, choose_apply]
  cases hh : s.held with
  | none =>
    obtain rfl := resting.trans (Session.resting_of_none hh)
    apply released_serves
    · exact alone
    · rfl
  | some held =>
    obtain rfl := resting.trans (Session.resting_of_some hh)
    simp only [all_cons, all_nil, change_apply, List.append_nil]
    apply serves_quiet rfl
    apply serves_behind (Current.leads_asked (r := .disconnect _) rfl (Or.inl rfl))
    apply goto_serves
    · exact alone
    · exact fun _ => ⟨held.handle, rfl⟩
    · simp [Stage.holds, Stage.underway]

theorem establish_serves (alone : s.Alone t.call) (resting : cur = s.resting) :
    Serves n cur (t.establish s) := by
  rw [establish, choose_apply]
  cases hh : s.held with
  | none =>
    obtain rfl := resting.trans (Session.resting_of_none hh)
    exact tryConnect_serves alone hh _ _
  | some held =>
    cases hu : held.up with
    | false =>
      simp only [hu]
      exact release_serves alone resting .reconnect
    | true =>
      by_cases hl : s.isListening && s.state.isReady
      · simp only [hu, hl, if_true]
        exact endSequence_serves alone resting none
      · simp only [hu, hl, if_true]
        exact startSubscribe_serves alone resting

theorem expired_serves (alone : s.Alone t.call) (resting : cur = s.resting) (w : Write) :
    Serves n cur (t.expired w s) := by
  rw [expired]
  cases w.token with
  | none => exact finish_serves alone resting _
  | some k =>
    simp only [all_cons, all_nil, withdraw_apply, List.append_nil]
    apply serves_quiet rfl
    apply finish_serves
    · exact alone
    · exact resting

theorem written_serves (alone : s.Alone t.call) (resting : cur = s.resting) (w : Write)
    (fault : Option Fault) : Serves n cur (t.written w fault s) := by
  simp only [written, all_cons, all_nil, List.append_nil]
  apply serves_quiet (releaseLink_quiet s)
  rw [releaseLink_fst]
  cases w.token with
  | none =>
    apply finish_serves
    · exact alone
    · exact resting
  | some k =>
    cases fault with
    | none =>
      apply goto_serves
      · exact alone
      · simp [Stage.holds, Stage.underway]
      · exact fun _ => resting
    | some f =>
      simp only [all_cons, all_nil, withdraw_apply, List.append_nil]
      apply serves_quiet rfl
      apply finish_serves
      · exact alone
      · exact resting

theorem write_serves (alone : s.Alone t.call) (resting : cur = s.resting) (w : Write) :
    Serves n cur (t.write w s) := by
  rw [write, choose_apply]
  cases hh : s.held with
  | none => exact written_serves alone resting w _
  | some held =>
    cases hu : held.up with
    | false =>
      simp only [hu]
      exact written_serves alone resting w _
    | true =>
      obtain rfl := resting.trans (Session.resting_of_some hh)
      simp only [hu, if_true, all_cons, all_nil, List.append_nil]
      apply serves_behind (Current.leads_asked (r := .write _ _) rfl rfl)
      apply goto_serves
      · exact alone
      · exact fun _ => ⟨held.handle, congrArg (Option.map Held.handle) hh, rfl⟩
      · simp [Stage.holds]

theorem proceed_serves (alone : s.Alone t.call) (resting : cur = s.resting) (use : Use) :
    Serves n cur (t.proceed use s) := by
  cases use with
  | connect seen =>
    rw [proceed, choose_apply]
    cases s.lastFailure with
    | none => exact establish_serves alone resting
    | some f =>
      by_cases hs : s.sequences = seen
      · simp only [hs, if_true]
        exact establish_serves alone resting
      · simp only [hs, if_false, all_cons, all_nil, List.append_nil]
        apply serves_quiet (releaseLink_quiet s)
        rw [releaseLink_fst]
        apply finish_serves
        · exact alone
        · exact resting
  | write w => exact write_serves alone resting w
  | disconnect => exact release_serves alone resting .rest

/-! The acts of a call that has nothing to do with the link. -/

theorem aside_serves {after : Session × List Effect}
    (quiet : after.2.filterMap Effect.signal? = []) (uses : after.1.Uses cur) :
    Serves n cur after :=
  ⟨cur, by rw [quiet]; exact Current.leads_nil cur, uses⟩

section Aside

variable (uses : s.Uses cur)
  (before : ∀ call, s.calls.get? t.call = some call → ¬call.stage.holds)

include uses before

theorem follow_aside_serves (v : Verdict) {s' : Session} (held : s'.held = s.held)
    (calls : s'.calls = s.calls) : Serves n cur (t.follow v s') := by
  refine aside_serves (follow_quiet v s') (uses.aside (c := t.call) ?_ before ?_ ?_)
  · rw [follow_fst, handle?, handle?, ← held]
  · intro call hc
    rw [follow_get?, if_pos rfl] at hc
    obtain ⟨operation, e⟩ := stage_of_call? hc
    simp [e, Stage.holds, Stage.underway]
  · intro c hc
    rw [follow_get?, if_neg (Ne.symm hc), calls]

theorem finish_aside_serves (o : Outcome) {s' : Session} (held : s'.held = s.held)
    (calls : s'.calls = s.calls) : Serves n cur (t.finish o s') := by
  simp only [finish, all_cons, all_nil, tell_apply, choose_apply, List.append_nil]
  apply serves_quiet rfl
  exact follow_aside_serves uses before _ held calls

theorem expired_aside_serves (w : Write) {s' : Session} (held : s'.held = s.held)
    (calls : s'.calls = s.calls) : Serves n cur (t.expired w s') := by
  rw [expired]
  cases w.token with
  | none => exact finish_aside_serves uses before _ held calls
  | some k =>
    simp only [all_cons, all_nil, withdraw_apply, List.append_nil]
    apply serves_quiet rfl
    exact finish_aside_serves uses before _ held calls

theorem begin_aside_serves (operation : Operation) : Serves n cur (t.begin operation s) := by
  refine aside_serves ?_ (uses.aside (c := t.call) ?_ before ?_ ?_)
  · refine List.filterMap_eq_nil_iff.mpr fun e he => ?_
    rcases mem_begin he with rfl | rfl | ⟨old, rfl⟩ <;> rfl
  · cases operation <;> rfl
  · intro call hc
    obtain rfl := Option.some.inj ((begin_get? operation).symm.trans hc)
    simp [Stage.holds, Stage.underway]
  · exact fun c hc => begin_get?_other operation hc

end Aside

/-- A released handle is given up for good. -/
theorem serves_forget {after : Session × List Effect} {h : Handle} (old : h < n)
    (serves : Serves n none after) : Serves n (some (h, .closed)) after := by
  have lead : Current.Leads n (some (h, .closed)) ([].filterMap Effect.signal?) none :=
    Current.leads_forget old
  exact serves_behind lead serves

/-- Every way of going on uses the handle in order. -/
theorem moves_serves {answer : Option RadioAnswer} {st : Stage} {a : Act} {plan : Plan}
    (h : s.Agrees) (uses : s.Uses cur) (old : ∀ h p, cur = some (h, p) → h < n)
    (hc : s.calls.get? t.call = some ⟨plan, st, answer⟩) (step : Moves t s answer st a) :
    Serves n cur (a s) := by
  have before (hn : ¬st.holds) (call : Call) (hcall : s.calls.get? t.call = some call) :
      ¬call.stage.holds := by
    rw [hc] at hcall
    exact Option.some.inj hcall ▸ hn
  have alone (hh : st.holds) : s.Alone t.call := h.alone (h.exclusive _ _ hc hh)
  have working (hh : st.holds) : st.Uses t.call s answer cur := uses.working _ _ hc hh
  have fits : s.Fits st := h.fits _ _ hc
  cases step with
  | opens =>
    exact follow_aside_serves uses (before (by simp [Stage.holds, Stage.underway])) _ rfl rfl
  | begins => exact begin_aside_serves uses (before (by simp [Stage.holds, Stage.underway])) _
  | proceeds hh =>
    have lone : s.Alone t.call := h.alone hh
    refine proceed_serves lone (uses.resting fun c call hcall => ?_) _
    by_cases e : c = t.call
    · subst e
      exact before (by simp [Stage.holds, Stage.underway]) call hcall
    · exact lone c call hcall e
  | leaves _ _ =>
    simp only [all_cons, all_nil, change_apply, List.append_nil]
    apply serves_quiet rfl
    exact expired_aside_serves uses (before (by simp [Stage.holds, Stage.underway])) _ rfl rfl
  | @released next fault =>
    obtain ⟨g, rfl⟩ := working rfl
    simp only [Phase.seen, Phase.answered, if_true] at old ⊢
    exact serves_forget (old g _ rfl) (released_serves (alone rfl) fits.held _)
  | @finds made g =>
    obtain rfl : cur = some (g, .found) := working rfl
    simp only [all_cons, all_nil, List.append_nil]
    apply serves_behind (Current.leads_asked (r := .connect _ _) rfl rfl)
    apply goto_serves
    · exact alone rfl
    · exact fun _ => rfl
    · simp [Stage.holds, Stage.underway]
  | misses =>
    obtain rfl : cur = none := working rfl
    exact tryConnect_serves (alone rfl) fits.held _ _
  | @connected made g alarm =>
    obtain rfl : cur = some (g, .idle) := by
      simpa [Stage.Uses, Phase.seen, Phase.answered] using working rfl
    exact connected_serves (alone rfl) g
  | @connectFails made g alarm f =>
    obtain rfl : cur = some (g, .refused) := by
      simpa [Stage.Uses, Phase.seen, Phase.answered] using working rfl
    exact discard_serves (alone rfl) (.inr rfl) _ _
  | @connectLate _ made g alarm _ =>
    obtain rfl := working rfl
    obtain ⟨held, takes⟩ := Phase.seen_connecting t.call answer
    simp only [all_cons, all_nil, tell_apply, List.append_nil]
    apply serves_behind (Current.leads_dropped held)
    exact discard_serves (alone rfl) takes _ _
  | discarded =>
    obtain ⟨g, rfl⟩ := working rfl
    simp only [Phase.seen, Phase.answered, if_true] at old ⊢
    exact serves_forget (old g _ rfl) (tryConnect_serves (alone rfl) fits.held _ _)
  | subscribed =>
    obtain ⟨g, hg, rfl⟩ := working rfl
    refine subscribed_serves (alone rfl) ?_ _
    simp [Session.resting_of_handle hg, Phase.seen, Phase.answered]
  | subscribeFails =>
    obtain ⟨g, hg, rfl⟩ := working rfl
    refine subscribeFailed_serves (alone rfl) ?_ _ _ _
    simp [Session.resting_of_handle hg, Phase.seen, Phase.answered]
  | subscribeLate _ =>
    obtain ⟨g, hg, rfl⟩ := working rfl
    obtain ⟨held, idle⟩ := Phase.seen_serving t.call answer
    simp only [all_cons, all_nil, tell_apply, List.append_nil]
    apply serves_behind (Current.leads_dropped held)
    refine subscribeFailed_serves (alone rfl) ?_ _ _ _
    simp [Session.resting_of_handle hg, idle]
  | pauses _ => exact trySubscribe_serves (alone rfl) (working rfl) _ _
  | written =>
    obtain ⟨g, hg, rfl⟩ := working rfl
    refine written_serves (alone rfl) ?_ _ _
    simp [Session.resting_of_handle hg, Phase.seen, Phase.answered]
  | writeLate _ =>
    obtain ⟨g, hg, rfl⟩ := working rfl
    obtain ⟨held, idle⟩ := Phase.seen_serving t.call answer
    simp only [all_cons, all_nil, tell_apply, List.append_nil]
    apply serves_behind (Current.leads_dropped held)
    apply serves_quiet (releaseLink_quiet s)
    rw [releaseLink_fst, idle]
    apply expired_serves
    · exact alone rfl
    · exact (Session.resting_of_handle hg).symm
  | answered _ =>
    simp only [all_cons, all_nil, withdraw_apply, List.append_nil]
    apply serves_quiet rfl
    exact finish_aside_serves uses (before (by simp [Stage.holds, Stage.underway])) _ rfl rfl
  | silent _ _ _ =>
    simp only [all_cons, all_nil, withdraw_apply, List.append_nil]
    apply serves_quiet rfl
    exact finish_aside_serves uses (before (by simp [Stage.holds, Stage.underway])) _ rfl rfl
  | displaced _ _ =>
    exact finish_aside_serves uses (before (by simp [Stage.holds, Stage.underway])) _ rfl rfl

end Act.Turn

end HeaterLink
