import HeaterLink.Proofs.Calls.Responses
import HeaterLink.Proofs.Temperature.Encoding
import HeaterLink.Proofs.Temperature.Setting

/-!
# Faults of calls

A call returns a fault because one of its operations ended with it, because it
has no reading to switch on by, or because its request names a temperature that
cannot be sent. The last kind is found out before anything is done: such a call
does nothing but return. What a call makes of a reading can always be sent.
-/

set_option autoImplicit false

namespace HeaterLink

inductive Request.Refused : Request → Float → Prop
  | turnOn {t : Float} : ¬RoundsToByte t → Refused (.turnOn t) t
  | setTemperature {t : Float} : ¬t.isFinite → Refused (.setTemperature t) t

section Verdict

variable {t : Float} {o : Outcome} {f : Fault} {r : Reading}

theorem Verdict.turnOnAt_fault (h : Verdict.turnOnAt t o = .finished (.fault f)) :
    ¬RoundsToByte t ∧ f = .frame (.temperatureOutOfRange t) := by
  unfold Verdict.turnOnAt at h
  split at h
  · cases h
  · rename_i e he
    obtain ⟨outside, rfl⟩ := Command.turnOnAt_eq_error.mp he
    cases h
    exact ⟨outside, rfl⟩

theorem Verdict.adjust_accepts (whole : r.Whole) (ht : t.isFinite) :
    Verdict.adjust t r ≠ .finished (.fault f) := by
  intro h
  obtain ⟨d, hd⟩ := whole.encodes_clamp ht
  unfold Verdict.adjust Verdict.turnOnAt at h
  cases hm : r.mode <;> simp only [hm, hd] at h <;> cases h

theorem Request.start_fault {request : Request} {last : Option Reading}
    (whole : ∀ r, last = some r → r.Whole) (h : request.start last = .finished (.fault f)) :
    ∃ t, request.Refused t ∧ f = .frame (.temperatureOutOfRange t) := by
  cases request with
  | turnOn t =>
    obtain ⟨outside, rfl⟩ := Verdict.turnOnAt_fault h
    exact ⟨t, .turnOn outside, rfl⟩
  | setMode mode => cases mode <;> cases h
  | setTemperature t =>
    simp only [start] at h
    split at h
    · rename_i finite
      cases last with
      | none => cases h
      | some r => exact absurd h (Verdict.adjust_accepts (whole r rfl) finite)
    · rename_i infinite
      cases h
      exact ⟨t, .setTemperature infinite, rfl⟩
  | _ => cases h

theorem Request.Refused.start {request : Request} (h : request.Refused t)
    (last : Option Reading) :
    request.start last = .finished (.fault (.frame (.temperatureOutOfRange t))) := by
  cases h with
  | turnOn outside =>
    have he := Command.turnOnAt_eq_error.mpr ⟨outside, rfl⟩
    simp only [Request.start, Verdict.turnOnAt, he]
  | setTemperature infinite => simp only [Request.start, if_neg infinite]

end Verdict

def Purpose.Suits (request : Request) : Purpose → Prop
  | .report => True
  | .command _ o => ∀ f, o ≠ .fault f
  | .resume => request = .setMode .on
  | .adjust t => t.isFinite

def Plan.Suits (request : Request) : Plan → Prop
  | .finish => True
  | .greet p => p.Suits request
  | .use p => p.Suits request
  | .confirm o => ∀ f, o ≠ .fault f

section Suits

variable {request : Request} {t : Float} {o : Outcome} {f : Fault} {r : Reading} {plan : Plan}
  {call : Call}

theorem Verdict.turnOnAt_suits (ho : ∀ f, o ≠ .fault f)
    (hv : (Verdict.turnOnAt t o).call? = some call) : call.plan.Suits request := by
  unfold Verdict.turnOnAt at hv
  split at hv
  · obtain rfl := Option.some.inj hv
    exact ho
  · cases hv

theorem Verdict.adjust_suits (hv : (Verdict.adjust t r).call? = some call) :
    call.plan.Suits request := by
  unfold Verdict.adjust at hv
  cases hm : r.mode with
  | on =>
    rw [hm] at hv
    exact turnOnAt_suits (by simp) hv
  | off =>
    rw [hm] at hv
    cases hv

theorem Request.start_suits {last : Option Reading}
    (hv : (request.start last).call? = some call) : call.plan.Suits request := by
  have settles : ∀ f, Outcome.done ≠ .fault f := by simp
  cases request with
  | turnOn t => exact Verdict.turnOnAt_suits settles hv
  | turnOff =>
    obtain rfl := Option.some.inj hv
    exact settles
  | noOp =>
    obtain rfl := Option.some.inj hv
    exact settles
  | setMode mode =>
    cases mode with
    | off =>
      obtain rfl := Option.some.inj hv
      exact settles
    | on =>
      obtain rfl := Option.some.inj hv
      exact rfl
  | setTemperature t =>
    simp only [start] at hv
    split at hv
    · rename_i finite
      cases last with
      | none =>
        obtain rfl := Option.some.inj hv
        exact finite
      | some r => exact Verdict.adjust_suits hv
    · cases hv
  | _ =>
    obtain rfl := Option.some.inj hv
    trivial

theorem Purpose.next_suits {p : Purpose} {limit : Nat} {response : Response}
    (suits : p.Suits request) (hv : (p.next limit response).call? = some call) :
    call.plan.Suits request := by
  cases p with
  | report => cases hv
  | command frame o =>
    obtain rfl := Option.some.inj hv
    exact suits
  | resume =>
    simp only [next] at hv
    split at hv
    · cases hv
    · split at hv
      · obtain rfl := Option.some.inj hv
        exact fun f h => by cases h
      · cases hv
  | adjust t =>
    simp only [next] at hv
    split at hv
    · cases hv
    · exact Verdict.adjust_suits hv

theorem Plan.next_suits {config : Config} {clock : Clock} (suits : plan.Suits request)
    (hv : (plan.next config clock o).call? = some call) : call.plan.Suits request := by
  cases o with
  | fault f => cases hv
  | temperature t => cases hv
  | done =>
    cases plan with
    | greet p =>
      obtain rfl := Option.some.inj hv
      exact suits
    | _ => cases hv
  | response response =>
    cases plan with
    | use p => exact Purpose.next_suits suits hv
    | _ => cases hv

/-- A plan makes no fault of a response but that there is no reading to switch on by. -/
theorem Purpose.next_fault {p : Purpose} {limit : Nat} {response : Response}
    (suits : p.Suits request) (whole : ∀ r, response.reading? = some r → r.Whole)
    (h : p.next limit response = .finished (.fault f)) :
    request = .setMode .on ∧ f = .responseTimeout (Fault.stated limit) ∧ response = .noData := by
  cases p with
  | report => cases h
  | command frame o => cases h
  | resume =>
    cases response with
    | noData =>
      cases h
      exact ⟨suits, rfl, rfl⟩
    | fresh r =>
      obtain ⟨d, hd⟩ := (whole r rfl).encodes_target
      simp only [next, Response.reading?, hd] at h
      cases h
    | stale r =>
      obtain ⟨d, hd⟩ := (whole r rfl).encodes_target
      simp only [next, Response.reading?, hd] at h
      cases h
  | adjust t =>
    simp only [next] at h
    split at h
    · cases h
    · rename_i r hr
      exact absurd h (Verdict.adjust_accepts (whole r hr) suits)

theorem Plan.next_fault {config : Config} {clock : Clock} (suits : plan.Suits request)
    (whole : ∀ response r, o = .response response → response.reading? = some r → r.Whole)
    (h : plan.next config clock o = .finished (.fault f)) : o = .fault f ∨
      request = .setMode .on ∧ f = .responseTimeout (Fault.stated config.responseLimit) ∧
        o = .response .noData := by
  cases o with
  | fault f' =>
    cases h
    exact .inl rfl
  | temperature t => cases h
  | done =>
    cases plan with
    | confirm o =>
      cases h
      exact absurd rfl (suits f)
    | _ => cases h
  | response response =>
    cases plan with
    | use p =>
      obtain ⟨on, limit, rfl⟩ := Purpose.next_fault suits (fun r => whole response r rfl) h
      exact .inr ⟨on, limit, rfl⟩
    | _ => cases h

end Suits

theorem Stage.worksOn_of_begun {st : Stage} (h : st.begun) : ∃ operation, st.WorksOn operation := by
  cases st with
  | opening r => cases h
  | ready operation => cases h
  | queued use =>
    cases use with
    | connect seen => exact ⟨_, .connects rfl⟩
    | disconnect => exact ⟨_, .disconnects rfl⟩
    | write w =>
      cases hk : w.token with
      | none => exact ⟨_, .sends rfl hk⟩
      | some k => exact ⟨.ask w.frame 0, .asks rfl hk⟩
  | releasing next =>
    cases next with
    | reconnect => exact ⟨_, .connects rfl⟩
    | rest => exact ⟨_, .disconnects rfl⟩
  | writing w =>
    cases hk : w.token with
    | none => exact ⟨_, .sends rfl hk⟩
    | some k => exact ⟨.ask w.frame 0, .asks rfl hk⟩
  | awaiting k a => exact ⟨.ask [] 0, .waits⟩
  | _ => exact ⟨_, .connects rfl⟩

namespace Act.Turn

variable {t : Turn} {s : Session} {st : Stage} {after : Session × List Effect} {call : Call}

/-- No turn leads back to the request. -/
theorem Advances.unopened (h : Advances t s st after)
    (hc : after.1.calls.get? t.call = some call) (r : Request) : call.stage ≠ .opening r := by
  have followed {v : Verdict} (hv : v.call? = some call) : call.stage ≠ .opening r := by
    obtain ⟨operation, e⟩ := stage_of_call? hv
    simp [e]
  cases h with
  | opens =>
    rw [follow_get?, if_pos rfl] at hc
    exact followed hc
  | begins =>
    rw [begin_get?] at hc
    obtain rfl := Option.some.inj hc
    simp
  | @goes _ stage _ begun get continues _ _ =>
    rw [get] at hc
    obtain rfl := Option.some.inj hc
    obtain ⟨operation, worksOn⟩ := Stage.worksOn_of_begun begun
    rintro e
    obtain rfl : stage = .opening r := e
    cases (continues.worksOn _ worksOn).begun
  | ends _ _ get _ =>
    rw [get] at hc
    exact followed hc

end Act.Turn

namespace Course

def Held (x : Course) (r : Reading) : Prop :=
  (∃ n, (x.sessionAt n).inbound.lastReading = some r ∨
    ∃ k, (x.sessionAt n).inbound.replies.get? k = some r) ∨
  ∃ n c response, x.Did n (.finished c (.response response)) ∧ response.reading? = some r

structure OnlyReturns (wall : Nat → Clock) (x : Course) (c : CallId) (o : Outcome) : Prop where
  ready : x.Unreturned c → x.session.poll (x.moment wall) c =
    some ({ x.session with calls := x.session.calls.erase c }, [.returned c o])
  entry : ∀ n entry, x.history[n]? = some entry → entry.action = .poll c →
    entry.effects = [.returned c o] ∧
      x.sessionAt (n + 1) = { entry.before with calls := entry.before.calls.erase c }

variable {wall : Nat → Clock} {config : Config} {x : Course} {c : CallId} {request : Request}
  {j n : Nat} {f : Fault} {r : Reading} {t : Float}

theorem reached_suits (reached : Reached wall config x) (hj : x.Invoked j c request) {call : Call}
    (hc : x.session.calls.get? c = some call) :
    (∀ r, call.stage = .opening r → r = request) ∧ call.plan.Suits request := by
  refine reached_call (P := fun plan st => (∀ r, st = .opening r → r = request) ∧
      plan.Suits request) ⟨fun _ e => (Stage.opening.inj e).symm, trivial⟩
    (fun {t s st after call} _ advances suits hc => ?_) x reached j c call hj hc
  refine ⟨fun r e => absurd e (advances.unopened hc r), ?_⟩
  rcases advances.plan hc with e | ⟨r, rfl, hv⟩ | ⟨o, -, -, hv⟩
  · rw [e]
    exact suits.2
  · obtain rfl := suits.1 r rfl
    exact Request.start_suits hv
  · exact Plan.next_suits suits.2 hv

theorem last_whole (reached : Reached wall config x)
    (hlast : x.session.inbound.lastReading = some r) : r.Whole :=
  reached_whole (n := x.history.length) reached (by rw [sessionAt_length, hlast])

theorem hears_whole (reached : Reached wall config x) {st : Stage}
    (h : st.Hears x.session.inbound r) : r.Whole := by
  rcases h with hlast | ⟨k, -, hreply⟩
  · exact last_whole reached hlast
  · obtain ⟨c, g, h, e, answers⟩ := reached_replies x reached k r hreply
    exact reached_whole reached answers.known

theorem response_whole (reached : Reached wall config x) {response : Response}
    (hn : x.Did n (.finished c (.response response))) (hr : response.reading? = some r) :
    r.Whole := by
  obtain ⟨y, a, after, hy, -, -, hreacts, he, -⟩ := reached_did reached hn
  obtain ⟨call, ending, -, -, hends, ho⟩ := hreacts.finished he
  exact hears_whole hy (hends.hears ho hr)

theorem held_whole (reached : Reached wall config x) (h : x.Held r) : r.Whole := by
  rcases h with ⟨n, hlast | ⟨k, hreply⟩⟩ | ⟨n, c, response, hn, hr⟩
  · exact reached_whole reached hlast
  · refine reached_sessionAt (P := fun s => s.inbound.replies.get? k = some r → r.Whole)
      (fun y hy hreply => ?_) reached n hreply
    obtain ⟨c, g, h, e, answers⟩ := reached_replies y hy k r hreply
    exact reached_whole hy answers.known
  · exact response_whole reached hn hr

theorem fault_of_returned (reached : Reached wall config x) (hj : x.Invoked j c request)
    (hn : x.Did n (.returned c (.fault f))) :
    x.Did n (.finished c (.fault f)) ∨
      (∃ t, request.Refused t ∧ f = .frame (.temperatureOutOfRange t)) ∨
      request = .setMode .on ∧ f = .responseTimeout (Fault.stated config.responseLimit) ∧
        x.Did n (.finished c (.response .noData)) := by
  obtain ⟨y, call, hy, begins, hc, source⟩ := returned_at reached hn
  obtain ⟨hopening, suits⟩ := reached_suits hy (begins.invoked_of_known hy reached hj hc) hc
  rcases source with ⟨r, hst, start⟩ | ⟨o, finished, next⟩
  · obtain rfl := hopening r hst
    exact .inr (.inl (Request.start_fault (fun r => last_whole hy) start))
  · have whole (response : Response) (r : Reading) (e : o = .response response)
        (hreading : response.reading? = some r) : r.Whole :=
      response_whole reached (e ▸ finished) hreading
    rcases Plan.next_fault suits whole next with rfl | ⟨on, limit, rfl⟩
    · exact .inl finished
    · rw [(reached_setUp y hy).settings] at limit
      exact .inr (.inr ⟨on, limit, finished⟩)

theorem reached_refused (reached : Reached wall config x) (hj : x.Invoked j c request)
    (refused : request.Refused t) {call : Call} (hc : x.session.calls.get? c = some call) :
    call.stage = .opening request := by
  refine reached_call (P := fun _ st => st = .opening request) rfl
    (fun {t' s st after call} _ advances hst hc => ?_) x reached j c call hj hc
  subst hst
  cases advances with
  | opens =>
    rw [Act.Turn.follow_get?, if_pos rfl, refused.start] at hc
    cases hc
  | goes begun _ _ _ _ => cases begun
  | ends begun _ _ _ => cases begun

theorem onlyReturns_of_refused (reached : Reached wall config x) (hj : x.Invoked j c request)
    (refused : request.Refused t) :
    x.OnlyReturns wall c (.fault (.frame (.temperatureOutOfRange t))) where
  ready := by
    intro unreturned
    obtain ⟨call, hc⟩ := reached_known x reached j c request hj unreturned
    have hst := reached_refused reached hj refused hc
    simp only [Session.poll, hc, hst, Act.Turn.resume, Option.map_some, refused.start]
    rfl
  entry := by
    intro n entry hentry turn
    obtain ⟨y, after, hy, begins, rfl, hsession, hr, heffects, hnext⟩ :=
      reached_entry x reached n entry hentry
    have hj' := (begins.invoked_iff (poll_later reached hentry turn hj)).mp hj
    rw [turn] at hr
    cases hr with
    | poll hp =>
      obtain ⟨call, hc, advances⟩ := advances_of_poll hp
      rw [reached_refused hy hj' refused hc] at advances
      cases advances with
      | opens =>
        rw [refused.start] at heffects hnext
        rw [heffects, hnext, ← hsession]
        exact ⟨rfl, rfl⟩
      | goes begun _ _ _ _ => cases begun
      | ends begun _ _ _ => cases begun

/-- Whatever a session has read can be sent, as it is and as a limit, so a call returns a fault
over a temperature only if its own request names it, and then it does nothing else. -/
theorem reached_sends (reached : Reached wall config x) :
    (∀ r, x.Held r → r.Whole ∧ (∃ d, Command.turnOnAt r.target = .ok (.turnOn d)) ∧
      ∀ t, t.isFinite → smaller r.lower r.upper ≤ r.clamp t ∧ r.clamp t ≤ r.upper ∧
        ∃ d, Command.turnOnAt (r.clamp t) = .ok (.turnOn d)) ∧
    (∀ j c request n f, x.Invoked j c request → x.Did n (.returned c (.fault f)) →
      x.Did n (.finished c (.fault f)) ∨
        (∃ t, request.Refused t ∧ f = .frame (.temperatureOutOfRange t)) ∨
        request = .setMode .on ∧ f = .responseTimeout (Fault.stated config.responseLimit) ∧
          x.Did n (.finished c (.response .noData))) ∧
    ∀ j c request t, x.Invoked j c request → request.Refused t →
      x.OnlyReturns wall c (.fault (.frame (.temperatureOutOfRange t))) := by
  refine ⟨fun r held => ?_, fun j c request n f => fault_of_returned reached,
    fun j c request t => onlyReturns_of_refused reached⟩
  have whole := held_whole reached held
  refine ⟨whole, whole.encodes_target, fun t ht => ?_⟩
  obtain ⟨hlow, hhigh⟩ := whole.clamp_bounds ht
  exact ⟨hlow, hhigh, whole.encodes_clamp ht⟩

def tooHot : Float := .ofBits 0x4072C00000000000

def overheating : List Action :=
  let header := magic ++ 49 :: [0, 1, 0, 0, 42, 60, 70, 30, 0, 0]
  opening ++ [.deliver 0 header, .listen 0, .deliver 0 (List.replicate 38 0), .listen 0,
    .invoke 1 (.turnOn tooHot), .poll 1]

/-- Fifty degrees come down to the upper limit, and three hundred are refused. -/
theorem sends_while_overheating : ∃ x r, Reached noon oneAttempt x ∧ x.Held r ∧
    r.upper < r.lower ∧ (∃ d, Command.turnOnAt (r.clamp fifty) = .ok (.turnOn d)) ∧
    (∃ t, Request.Refused (.turnOn tooHot) t) ∧
    x.OnlyReturns noon 1 (.fault (.frame (.temperatureOutOfRange tooHot))) := by
  have h : ((start oneAttempt).run? noon overheating).any (fun x =>
      x.session.inbound.lastReading.any (fun r => r.upper < r.lower) &&
        decide (x.Invoked 15 1 (.turnOn tooHot)) &&
        decide (x.Did 16 (.returned 1 (.fault (.frame (.temperatureOutOfRange tooHot))))) &&
        decide (¬x.Did 16 (.finished 1 (.fault (.frame (.temperatureOutOfRange tooHot)))))) =
      true := by
    decide +kernel
  obtain ⟨x, hx, h⟩ := (Option.any_eq_true _ _).mp h
  simp only [Bool.and_eq_true, decide_eq_true_eq] at h
  obtain ⟨⟨⟨hreading, hasked⟩, hreturned⟩, unfinished⟩ := h
  obtain ⟨r, hr, hlimits⟩ := (Option.any_eq_true _ _).mp hreading
  have reached : Reached noon oneAttempt x := ⟨overheating, hx⟩
  have held : x.Held r := .inl ⟨x.history.length, .inl (by rw [sessionAt_length, hr])⟩
  obtain ⟨sends, faults, refuses⟩ := reached_sends reached
  have refused : Request.Refused (.turnOn tooHot) tooHot :=
    .turnOn fun rounds => absurd ((wholeDegrees?_isSome_iff_rounds tooHot).mpr rounds)
      (by decide +kernel)
  refine ⟨x, r, reached, held, by simpa using hlimits,
    ((sends r held).2.2 fifty (by decide +kernel)).2.2, ?_, refuses 15 1 _ _ hasked refused⟩
  rcases faults 15 1 _ 16 _ hasked hreturned with failed | ⟨t, ht, -⟩ | ⟨e, -⟩
  · exact absurd failed unfinished
  · exact ⟨t, ht⟩
  · cases e

end Course

end HeaterLink
