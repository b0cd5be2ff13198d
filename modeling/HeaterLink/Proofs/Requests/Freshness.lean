import HeaterLink.Proofs.Calls.Responses
import HeaterLink.Proofs.Requests.Tokens

/-!
# Fresh responses

A fresh response carries the reading of a status message whose header came
after the call had registered its request and while that request was pending,
and which was complete before the call returned. No status message gives its
reading to two calls. A call of several operations returns a fresh response only
where its last request got it.
-/

set_option autoImplicit false

namespace HeaterLink

namespace Course

/-- The request with token `k`, registered by entry `g`, is answered by the status message
that entry `h` started and entry `e` completed. -/
structure Answers (config : Config) (x : Course) (c : CallId) (k : Token) (r : Reading)
    (g h e : Nat) : Prop where
  registered : x.Did g (.registered c k)
  later : g < h
  spans : h ≤ e
  pending : (x.sessionAt h).inbound.pending = some ⟨k, c⟩
  message : ∃ header first rest payload, (∃ i, x.Did h (.took i header)) ∧
    (∃ i data, x.Did e (.took i data)) ∧
    x.inputsBetween h e = (header :: rest).map .fragment ∧
    StatusMessage config.profile header first rest payload ∧
    config.profile.layout.parse (x.sessionAt e).ratedPower payload = .ok r
  answered : x.Did e (.answered c k)
  known : (x.sessionAt (e + 1)).inbound.lastReading = some r

structure FreshFrom (config : Config) (x : Course) (n : Nat) (c : CallId) (r : Reading)
    (e : Nat) : Prop where
  fresh : x.Did n (.finished c (.response (.fresh r)))
  completed : e < n
  answers : ∃ k g h, x.Answers config c k r g h e ∧
    ∀ m o, g ≤ m → m < n → ¬x.Did m (.finished c o)

variable {wall : Nat → Clock} {config : Config} {x y : Course} {a : Action}
  {after : Session × List Effect} {c : CallId} {k : Token} {r : Reading} {g h e : Nat}

theorem Begins.answers (b : x.Begins y) (ha : x.Answers config c k r g h e) :
    y.Answers config c k r g h e := by
  have he := did_lt ha.answered
  obtain ⟨header, first, rest, payload, ⟨i, hi⟩, ⟨j, data, hj⟩, hin, hmessage, hparse⟩ := ha.message
  have hh := did_lt hi
  constructor
  case registered => exact b.did ha.registered
  case later => exact ha.later
  case spans => exact ha.spans
  case pending => rw [b.sessionAt (Nat.le_of_lt hh)]; exact ha.pending
  case message =>
    refine ⟨header, first, rest, payload, ⟨i, b.did hi⟩, ⟨j, data, b.did hj⟩, ?_, hmessage, ?_⟩
    · rw [b.inputsBetween he, hin]
    · rw [b.sessionAt (Nat.le_of_lt he), hparse]
  case answered => exact b.did ha.answered
  case known => rw [b.sessionAt he]; exact ha.known

theorem registered_before (reached : Reached wall config y) (hk : 1 ≤ k)
    (hh : h < y.history.length) (token : (y.sessionAt h).inbound.pendingToken = k) :
    ∃ c g, g < h ∧ y.Did g (.registered c k) ∧
      (y.sessionAt h).inbound.pending = some ⟨k, c⟩ := by
  unfold Inbound.pendingToken at token
  split at token
  · rename_i p hp
    obtain ⟨g, hlt, hg⟩ := pending_at reached hh hp
    subst token
    exact ⟨p.caller, g, hlt, hg, hp⟩
  · subst token
    cases hk

/-- A fragment that completes a status message answers the request that was pending when the
message started. -/
theorem Feeds.answers {last : Entry} {i : StreamId} {data payload : Bytes}
    (f : x.Feeds y last i data) (hx : Reached wall config x) (hy : Reached wall config y)
    (pending : x.session.inbound.pending = some ⟨k, c⟩)
    (marked : k = (x.session.inbound.mark data).headerToken)
    (done : (x.session.inbound.reassembler.feed data).2 = some (.status payload))
    (parsed : config.profile.layout.parse x.session.ratedPower payload = .ok r)
    (answered : .answered c k ∈ last.effects)
    (known : y.session.inbound.lastReading = some r) :
    ∃ g h, y.Answers config c k r g h x.history.length := by
  have hlen : y.history.length = x.history.length + 1 := by simp [f.history]
  obtain ⟨-, completed⟩ := f.tracked (reached_setUp x hx) (reached_tracked x hx)
  obtain ⟨h, header, first, rest, tracks, message⟩ := completed payload done
  obtain ⟨j, hj⟩ := tracks.took
  have hh : h < y.history.length := did_lt hj
  obtain ⟨g₀, hg₀⟩ := reached_pending x hx _ pending
  have hpos : 1 ≤ k := ((reached_registered x hx).2 g₀ c k hg₀).1
  have started : (y.sessionAt h).inbound.pendingToken = k := by
    rw [← tracks.token, f.token, marked]
  obtain ⟨c', g, hlt, hg, hpending⟩ := registered_before hy hpos hh started
  obtain ⟨-, rfl⟩ := registered_unique hy hg (f.begins.did hg₀)
  refine ⟨g, h, ?_⟩
  constructor
  case registered => exact hg
  case later => exact hlt
  case spans => omega
  case pending => exact hpending
  case message =>
    refine ⟨header, first, rest, payload, ⟨j, hj⟩, ⟨i, data, ?_⟩, ?_, message, ?_⟩
    · exact (did_snoc_iff f.history).mpr (.inr ⟨rfl, f.took⟩)
    · rw [inputsBetween_last f.history, tracks.inputs]
    · rw [f.begins.session, parsed]
  case answered => exact (did_snoc_iff f.history).mpr (.inr ⟨rfl, answered⟩)
  case known => rw [← hlen, sessionAt_length, known]

/-- Every reply that waits for its call answers the request with its token. -/
theorem reached_replies : ∀ x, Reached wall config x → ∀ k r,
    x.session.inbound.replies.get? k = some r → ∃ c g h e, x.Answers config c k r g h e := by
  refine reached_induction ?_ fun x a y hx ih step => ?_
  · intro k r hr
    cases hr
  · obtain ⟨after, hr, hy⟩ := take?_reacts step
    have hist : y.history = x.history ++ [⟨x.now, a, x.session, after.2⟩] := by rw [hy]
    have kept (k : Token) (r : Reading) (hk : x.session.inbound.replies.get? k = some r) :
        ∃ c g h e, y.Answers config c k r g h e := by
      obtain ⟨c, g, h, e, ha⟩ := ih k r hk
      exact ⟨c, g, h, e, (begins_snoc hist rfl).answers ha⟩
    intro k r hk
    rw [hy] at hk
    cases hr with
    | poll hp =>
      obtain ⟨call, -, hl⟩ := Session.poll_leads hp
      exact kept k r (hl.onRequests.replies k r hk)
    | @listen i _ hl =>
      cases hl with
      | @takes _ data _ _ _ _ =>
        have takes := Inbound.take_takes x.session.config.profile.layout x.session.ratedPower
          x.session.inbound data
        rcases takes.replies hk with
          hk | ⟨c, payload, pending, marked, done, parsed, answered, known⟩
        · exact kept k r hk
        · have feeds := feeds_of_take _ _ hist rfl rfl (by rw [hy])
          rw [(reached_setUp x hx).settings] at parsed
          obtain ⟨g, h, answers⟩ := feeds.answers hx (reached_take? hx step) pending marked done
            parsed (List.mem_cons_of_mem _ answered) (by rw [hy]; exact known)
          exact ⟨c, g, h, x.history.length, answers⟩
      | _ => exact kept k r hk
    | _ => exact kept k r hk

theorem answered_unique (reached : Reached wall config x) {n : Nat} {c c' : CallId} {k k' : Token}
    (ha : x.Did n (.answered c k)) (ha' : x.Did n (.answered c' k')) : c = c' ∧ k = k' := by
  obtain ⟨y, a, after, -, -, -, hr, he, did, -⟩ := reached_did reached ha
  have hp := hr.answered he
  have hp' := hr.answered ((did _).mp ha')
  rw [hp] at hp'
  cases hp'
  exact ⟨rfl, rfl⟩

theorem freshFrom_of_fresh (reached : Reached wall config x) {n : Nat}
    (fresh : x.Did n (.finished c (.response (.fresh r)))) : ∃ e, x.FreshFrom config n c r e := by
  obtain ⟨y, a, after, hy, begins, rfl, hr, he, -⟩ := reached_did reached fresh
  obtain ⟨call, k, hc, hk, hreply⟩ := hr.fresh he
  obtain ⟨g, hg, hopen⟩ := reached_token y hy c call k hc hk
  obtain ⟨c', g', h, e, ha⟩ := reached_replies y hy k r hreply
  obtain ⟨rfl, rfl⟩ := registered_unique hy hg ha.registered
  refine ⟨e, fresh, did_lt ha.answered, k, g, h, begins.answers ha, fun m o hm hlt hd => ?_⟩
  exact hopen m o hm ((begins.did_iff hlt).mp hd)

/-- Every fresh response comes from a status message that started while the request of its
call was pending, and no status message makes two calls return fresh. -/
theorem reached_fresh (reached : Reached wall config x) :
    (∀ n c r, x.Responds n c (.fresh r) → ∃ e, x.FreshFrom config n c r e) ∧
      ∀ n n' c c' r r' e, x.FreshFrom config n c r e → x.FreshFrom config n' c' r' e →
        n = n' ∧ c = c' := by
  refine ⟨fun n c r h => freshFrom_of_fresh reached (h.finished reached),
    fun n n' c c' r r' e hf hf' => ?_⟩
  obtain ⟨k, g, h, ha, hopen⟩ := hf.answers
  obtain ⟨k', g', h', ha', hopen'⟩ := hf'.answers
  obtain ⟨rfl, rfl⟩ := answered_unique reached ha.answered ha'.answered
  obtain ⟨rfl, -⟩ := registered_unique reached ha.registered ha'.registered
  have hgn : g < n := Nat.lt_trans (Nat.lt_of_lt_of_le ha.later ha.spans) hf.completed
  have hgn' : g < n' := Nat.lt_trans (Nat.lt_of_lt_of_le ha'.later ha'.spans) hf'.completed
  rcases Nat.lt_trichotomy n n' with hlt | rfl | hlt
  · exact absurd hf.fresh (hopen' n _ (Nat.le_of_lt hgn) hlt)
  · exact ⟨rfl, rfl⟩
  · exact absurd hf'.fresh (hopen n' _ (Nat.le_of_lt hgn') hlt)

def asking : List Action :=
  let header := magic ++ 49 :: List.replicate 10 1
  let rest := List.replicate 38 2
  opening ++ [.deliver 0 header, .listen 0, .invoke 1 (.ask [1] 1000), .poll 1, .poll 1, .poll 1,
    .complete 1 none, .poll 1, .deliver 0 rest, .listen 0, .deliver 0 header, .listen 0,
    .deliver 0 rest, .listen 0, .poll 1]

/-- A status is under way when the second call asks for one. The rest of it does not answer
that call, the next status does. -/
theorem fresh_after_asking :
    ∃ x r, Reached noon oneAttempt x ∧ x.Did 25 (.finished 1 (.response (.fresh r))) ∧
      x.Did 25 (.returned 1 (.response (.fresh r))) ∧ ∃ e, x.FreshFrom oneAttempt 25 1 r e := by
  have h : ((start oneAttempt).run? noon asking).any (fun x => (x.history[25]?).any fun entry =>
      entry.effects.any fun e => (e.returned? 1).any Response.isFresh) = true := by
    decide +kernel
  obtain ⟨x, hx, h⟩ := (Option.any_eq_true _ _).mp h
  obtain ⟨entry, hn, h⟩ := (Option.any_eq_true _ _).mp h
  obtain ⟨e, he, h⟩ := List.any_eq_true.mp h
  obtain ⟨response, hresponse, fresh⟩ := (Option.any_eq_true _ _).mp h
  obtain rfl := Effect.eq_of_returned? hresponse
  have returned : x.Did 25 (.returned 1 (.response response)) := ⟨entry, hn, he⟩
  have reached : Reached noon oneAttempt x := ⟨asking, hx⟩
  cases response with
  | fresh r =>
    exact ⟨x, r, reached, finished_of_returned reached returned, returned,
      (reached_fresh reached).1 25 1 r (.inr returned)⟩
  | noData => cases fresh
  | stale r => cases fresh

end Course

end HeaterLink
