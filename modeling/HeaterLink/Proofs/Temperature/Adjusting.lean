import HeaterLink.Proofs.Requests.Steps
import HeaterLink.Proofs.Temperature.Degrees

/-!
# Setting a temperature, one step at a time

A call that sets a temperature decides once, on the reading that it hears of
first. If the element was on then, the call carries the frame for the clamped
temperature from there on, through the hello that goes out before it, and looks
at no reading again.
-/

set_option autoImplicit false

namespace HeaterLink

def Stage.frame? : Stage → Option Bytes
  | .ready (.send frame) => some frame
  | .ready (.ask frame _) => some frame
  | st => st.write?.map Write.frame

def Plan.purpose? : Plan → Option Purpose
  | .greet p => some p
  | .use p => some p
  | _ => none

def Stage.Hears (i : Inbound) (st : Stage) (r : Reading) : Prop :=
  i.lastReading = some r ∨ ∃ k, st.token? = some k ∧ i.replies.get? k = some r

structure Reading.Sets (r : Reading) (t : Float) (degrees : UInt8) : Prop where
  on : r.mode = .on
  finite : t.isFinite
  degrees : wholeDegrees? (r.clamp t) = some degrees

inductive Purpose.Adjusts (allowed : UInt8 → Prop) (t : Float) : Purpose → Prop
  | undecided : t.isFinite → Adjusts allowed t (.adjust t)
  | decided {d : UInt8} {o : Outcome} :
      allowed d → Adjusts allowed t (.command (Command.turnOn d).frame o)

structure Adjusts (allowed : UInt8 → Prop) (t : Float) (plan : Plan) (st : Stage) : Prop where
  request : ∀ r, st = .opening r → r = .setTemperature t
  frame : ∀ f, st.frame? = some f → (∃ clock, f = (Command.hello clock).frame) ∨
    ∃ d, allowed d ∧ f = (Command.turnOn d).frame
  purpose : ∀ p, plan.purpose? = some p → p.Adjusts allowed t

namespace Adjusts

variable {allowed allowed' : UInt8 → Prop} {t : Float} {plan : Plan} {st : Stage} {call : Call}

theorem mono (h : Adjusts allowed t plan st) (weaker : ∀ d, allowed d → allowed' d) :
    Adjusts allowed' t plan st where
  request := h.request
  frame := by
    intro f hf
    rcases h.frame f hf with hello | ⟨d, hd, e⟩
    · exact .inl hello
    · exact .inr ⟨d, weaker d hd, e⟩
  purpose := by
    intro p hp
    cases h.purpose p hp with
    | undecided finite => exact .undecided finite
    | decided hd => exact .decided (weaker _ hd)

theorem of_silent (request : ∀ r, st ≠ .opening r) (frame : st.frame? = none)
    (purpose : ∀ p, plan.purpose? = some p → p.Adjusts allowed t) :
    Adjusts allowed t plan st where
  request := fun r e => absurd e (request r)
  frame := by
    intro f hf
    rw [frame] at hf
    cases hf
  purpose := purpose

theorem of_opening : Adjusts allowed t .finish (.opening (.setTemperature t)) where
  request := fun r e => (Stage.opening.inj e).symm
  frame := fun f hf => by cases hf
  purpose := fun p hp => by cases hp

theorem of_connect {p : Purpose} (h : p.Adjusts allowed t) :
    Adjusts allowed t (.greet p) (.ready .connect) := by
  refine of_silent (by simp) rfl fun p' hp => ?_
  obtain rfl := Option.some.inj hp
  exact h

theorem of_adjust {r : Reading} (finite : t.isFinite) (hears : ∀ d, r.Sets t d → allowed d)
    (hv : (Verdict.adjust t r).call? = some call) : Adjusts allowed t call.plan call.stage := by
  unfold Verdict.adjust Verdict.turnOnAt Command.turnOnAt at hv
  cases hon : r.mode with
  | off =>
    rw [hon] at hv
    cases hv
  | on =>
    rw [hon] at hv
    cases hd : wholeDegrees? (r.clamp t) with
    | none =>
      simp only [hd] at hv
      cases hv
    | some d =>
      simp only [hd] at hv
      obtain rfl := Option.some.inj hv
      exact of_connect (.decided (hears d ⟨hon, finite, hd⟩))

theorem of_start {last : Option Reading}
    (hears : ∀ r d, last = some r → r.Sets t d → allowed d)
    (hv : ((Request.setTemperature t).start last).call? = some call) :
    Adjusts allowed t call.plan call.stage := by
  simp only [Request.start] at hv
  split at hv
  · rename_i finite
    cases last with
    | none =>
      obtain rfl := Option.some.inj hv
      exact of_connect (.undecided finite)
    | some r => exact of_adjust finite (fun d => hears r d rfl) hv
  · cases hv

/-- What a plan runs on to, once an operation has a result. -/
theorem of_next {config : Config} {clock : Clock} {o : Outcome} (h : Adjusts allowed t plan st)
    (hears : ∀ response r d, o = .response response → response.reading? = some r → r.Sets t d →
      allowed d) (hv : (plan.next config clock o).call? = some call) :
    Adjusts allowed t call.plan call.stage := by
  cases o with
  | fault f => cases hv
  | temperature applied => cases hv
  | done =>
    cases plan with
    | greet p =>
      obtain rfl := Option.some.inj hv
      refine ⟨by simp, fun f hf => ?_, fun p' hp => h.purpose p' hp⟩
      obtain rfl := Option.some.inj hf
      exact .inl ⟨clock, rfl⟩
    | _ => cases hv
  | response response =>
    cases plan with
    | use p =>
      cases h.purpose p rfl with
      | undecided finite =>
        simp only [Plan.next, Purpose.next] at hv
        cases hr : response.reading? with
        | none =>
          rw [hr] at hv
          cases hv
        | some r =>
          rw [hr] at hv
          exact of_adjust finite (fun d => hears response r d rfl hr) hv
      | @decided d o hd =>
        obtain rfl := Option.some.inj hv
        refine ⟨by simp, fun f hf => ?_, fun p hp => by cases hp⟩
        obtain rfl := Option.some.inj hf
        exact .inr ⟨d, hd, rfl⟩
    | _ => cases hv

end Adjusts

/-- A response carries a reading that the call could hear of. -/
theorem Stage.Ends.hears {i : Inbound} {st : Stage} {e : Ending} {response : Response}
    {r : Reading} (h : st.Ends i e) (ho : e.outcome? = some (.response response))
    (hr : response.reading? = some r) : st.Hears i r := by
  have hfallback (last : Option Reading) : (Response.fallback last).reading? = last := by
    cases last <;> rfl
  have heard (last : Option Reading)
      (ho : some (Outcome.response (Response.fallback last)) = some (.response response)) :
      last = some r := by
    obtain rfl : Response.fallback last = response := by simpa using ho
    rw [← hfallback last, hr]
  cases h with
  | link _ he => cases he <;> cases ho
  | late _ => exact .inl (heard _ ho)
  | displaced _ _ => exact .inl (heard _ ho)
  | @answered k a r' hreply =>
    obtain rfl : Response.fresh r' = response := by simpa [Ending.outcome?] using ho
    obtain rfl := Option.some.inj hr
    exact .inr ⟨k, rfl, hreply⟩
  | _ => cases ho

theorem Stage.Ends.silent {i : Inbound} {st st' : Stage} (h : st.Ends i (.goto st')) :
    (∀ r, st' ≠ .opening r) ∧ st'.frame? = none := by
  cases h with
  | link _ he =>
    cases he with
    | goto underway =>
      refine ⟨fun r e => ?_, ?_⟩
      · rw [e] at underway
        cases underway
      · cases st' <;> first | rfl | cases underway
  | sent _ => exact ⟨by simp, rfl⟩

namespace Act.Turn

variable {τ : Turn} {s : Session} {st : Stage} {after : Session × List Effect}
  {allowed : UInt8 → Prop} {t : Float} {call : Call}

theorem wants_frame? (operation : Operation) :
    (Stage.queued (τ.wants s operation)).frame? = (Stage.ready operation).frame? := by
  cases operation <;> rfl

theorem Leads.adjusts (h : Leads τ s st after) (adjusts : Adjusts allowed t τ.plan st)
    (hears : ∀ r d, st.Hears s.inbound r → r.Sets t d → allowed d)
    (hc : after.1.calls.get? τ.call = some call) : Adjusts allowed t call.plan call.stage := by
  cases h with
  | @opened r =>
    obtain rfl := adjusts.request r rfl
    rw [follow_get?, if_pos rfl] at hc
    exact .of_start (fun r d hr => hears r d (.inl hr)) hc
  | @begun operation =>
    rw [begin_get?] at hc
    obtain rfl := Option.some.inj hc
    exact ⟨by simp, fun f hf => adjusts.frame f (wants_frame? operation ▸ hf), adjusts.purpose⟩
  | @writes w held _ _ _ =>
    rw [writes_get?] at hc
    obtain rfl := Option.some.inj hc
    exact ⟨by simp, adjusts.frame, adjusts.purpose⟩
  | ended h =>
    obtain ⟨s₁, effects, ending, -, hends, rfl⟩ := h
    rcases ending_get? hc with ⟨stage, rfl, rfl⟩ | ⟨o, config, ho, hv⟩
    · obtain ⟨hopening, hframe⟩ := hends.silent
      exact .of_silent hopening hframe adjusts.purpose
    · refine adjusts.of_next ?_ hv
      rintro response r d rfl hr sets
      exact hears r d (hends.hears ho hr) sets

theorem Leads.wrote (h : Leads τ s st after) {c : CallId} {handle : Handle} {frame : Bytes}
    (hw : .requested c (.write handle frame) ∈ after.2) :
    c = τ.call ∧ st.frame? = some frame := by
  obtain ⟨rfl, w, rfl, rfl, -⟩ := h.hands hw
  exact ⟨rfl, rfl⟩

end Act.Turn

end HeaterLink
