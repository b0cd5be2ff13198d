import HeaterLink.Proofs.Calls.Returns

/-!
# Responses of calls

A call that returns a response got it from its last request. No plan keeps a
response for later, and no verdict makes one up: what is to be returned behind
a command is fixed before, and it is none.
-/

set_option autoImplicit false

namespace HeaterLink

def Purpose.outcome? : Purpose → Option Outcome
  | .command _ o => some o
  | _ => none

def Plan.outcome? : Plan → Option Outcome
  | .finish => none
  | .greet p => p.outcome?
  | .use p => p.outcome?
  | .confirm o => some o

def Outcome.response? : Outcome → Option Response
  | .done => none
  | .response given => some given
  | .temperature _ => none
  | .fault _ => none

def Plan.Plain (plan : Plan) : Prop := plan.outcome?.bind Outcome.response? = none

inductive Verdict.Passes (heard : Option Response) : Verdict → Prop
  | finished {o : Outcome} : (∀ response, o = .response response → heard = some response) →
      Passes heard (.finished o)
  | run {operation : Operation} {plan : Plan} : plan.Plain → Passes heard (.run operation plan)

namespace Verdict

variable {heard : Option Response}

theorem turnOnAt_passes (t : Float) {o : Outcome} (h : o.response? = none) :
    (turnOnAt t o).Passes heard := by
  unfold turnOnAt
  split
  · exact .run h
  · exact .finished (by simp)

theorem adjust_passes (t : Float) (r : Reading) : (adjust t r).Passes heard := by
  unfold adjust
  cases r.mode with
  | on => exact turnOnAt_passes _ rfl
  | off => exact .finished (by simp)

end Verdict

theorem Request.start_passes (r : Request) (last : Option Reading) :
    (r.start last).Passes none := by
  cases r with
  | turnOn t => exact Verdict.turnOnAt_passes t rfl
  | setMode mode => cases mode <;> exact .run rfl
  | setTemperature t =>
    simp only [start]
    split
    · cases last with
      | none => exact .run rfl
      | some r => exact Verdict.adjust_passes t r
    · exact .finished (by simp)
  | _ => exact .run rfl

theorem Purpose.next_passes {p : Purpose} (plain : p.outcome?.bind Outcome.response? = none)
    (limit : Nat) (response : Response) : (p.next limit response).Passes (some response) := by
  cases p with
  | report => exact .finished fun response' h => congrArg some (Outcome.response.inj h)
  | command frame o => exact .run plain
  | resume =>
    simp only [next]
    split
    · exact .finished (by simp)
    · split
      · exact .run rfl
      · exact .finished (by simp)
  | adjust t =>
    simp only [next]
    split
    · exact .finished (by simp)
    · exact Verdict.adjust_passes _ _

theorem Plan.next_passes {plan : Plan} (plain : plan.Plain) (config : Config) (clock : Clock)
    (o : Outcome) : (plan.next config clock o).Passes o.response? := by
  cases o with
  | fault f => exact .finished (by simp)
  | temperature t => exact .finished (by simp)
  | done =>
    cases plan with
    | finish => exact .finished (by simp)
    | greet p => exact .run plain
    | use p => exact .finished (by simp)
    | confirm o =>
      refine .finished fun response h => ?_
      rw [h] at plain
      cases plain
  | response response =>
    cases plan with
    | use p => exact Purpose.next_passes plain config.responseLimit response
    | _ => exact .finished fun response' h => congrArg some (Outcome.response.inj h)

def Effect.returned? (c : CallId) : Effect → Option Response
  | .returned c' o => if c' = c then o.response? else none
  | _ => none

theorem Effect.eq_of_returned? {c : CallId} {e : Effect} {response : Response}
    (h : e.returned? c = some response) : e = .returned c (.response response) := by
  cases e with
  | returned c' o =>
    simp only [returned?] at h
    split at h
    · rename_i hc
      subst hc
      cases o with
      | response given => rw [Option.some.inj h]
      | _ => cases h
    · cases h
  | _ => cases h

namespace Course

variable {wall : Nat → Clock} {config : Config} {x : Course} {c : CallId} {n : Nat}
  {response : Response}

theorem reached_plain (hx : Reached wall config x) {call : Call}
    (hc : x.session.calls.get? c = some call) : call.plan.Plain := by
  obtain ⟨j, r, hj⟩ := reached_invoked x hx c call hc
  refine reached_call (P := fun plan _ => plan.Plain) rfl
    (fun {t s st after call} _ advances plain hc => ?_) x hx j c call hj hc
  have passed {heard : Option Response} {v : Verdict} (hv : v.call? = some call)
      (passes : v.Passes heard) : call.plan.Plain := by
    cases passes with
    | finished _ => cases hv
    | run plain =>
      obtain rfl := Option.some.inj hv
      exact plain
  rcases advances.plan hc with e | ⟨r, -, hv⟩ | ⟨o, -, -, hv⟩
  · rwa [e]
  · exact passed hv (r.start_passes s.inbound.lastReading)
  · exact passed hv (Plan.next_passes plain s.config t.moment.clock o)

/-- A call returns a response only as the result of a request. -/
theorem finished_of_returned (hx : Reached wall config x)
    (hn : x.Did n (.returned c (.response response))) :
    x.Did n (.finished c (.response response)) := by
  obtain ⟨y, call, hy, -, hc, ⟨r, -, start⟩ | ⟨o, finished, next⟩⟩ := returned_at hx hn
  · have passes := r.start_passes y.session.inbound.lastReading
    rw [start] at passes
    cases passes with
    | finished h => cases h _ rfl
  · have passes := Plan.next_passes (reached_plain hy hc) y.session.config (y.moment wall).clock o
    rw [next] at passes
    cases passes with
    | finished h =>
      cases o with
      | response given =>
        obtain rfl := Option.some.inj (h _ rfl)
        exact finished
      | _ => cases h _ rfl

def Responds (x : Course) (n : Nat) (c : CallId) (response : Response) : Prop :=
  x.Did n (.finished c (.response response)) ∨ x.Did n (.returned c (.response response))

theorem Responds.finished (h : x.Responds n c response) (hx : Reached wall config x) :
    x.Did n (.finished c (.response response)) :=
  h.elim id (finished_of_returned hx)

end Course

end HeaterLink
