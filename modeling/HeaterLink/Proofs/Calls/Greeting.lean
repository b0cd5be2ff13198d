import HeaterLink.Proofs.Calls.Frames

/-!
# Hellos of calls, one step at a time

A call for more than one operation connects, says hello and goes on with the
response to that, with a frame that it sends or with another hello. What it is
about can be told from its plan and its stage.
-/

set_option autoImplicit false

namespace HeaterLink

theorem Command.opcode_eq {command command' : Command} (h : command.frame = command'.frame) :
    command.opcode = command'.opcode := by
  have bytes : command.opcode.byte = command'.opcode.byte := by
    simpa [frame] using congrArg (fun f : Bytes => f[magic.length + 3]?) h
  generalize command.opcode = o at bytes
  generalize command'.opcode = o' at bytes
  revert bytes
  cases o <;> cases o' <;> decide

def Stage.On (operation : Operation) (st : Stage) : Prop :=
  st = .ready operation ∨ st.WorksOn operation

inductive Greets (config : Config) : Plan → Stage → Prop
  | opening {r : Request} : r.operation? = none → Greets config .finish (.opening r)
  | connects {p : Purpose} {st : Stage} : st.On .connect → Greets config (.greet p) st
  | hello {p : Purpose} {st : Stage} {clock : Clock} :
      st.On (.ask (Command.hello clock).frame config.responseLimit) → Greets config (.use p) st
  | sends {o : Outcome} {frame : Bytes} {st : Stage} : st.On (.send frame) →
      Greets config (.confirm o) st

namespace Stage

variable {operation operation' : Operation} {st : Stage} {w : Write}

theorem On.of_ready (h : (Stage.ready operation').On operation) : operation' = operation := by
  rcases h with e | worksOn
  · exact Stage.ready.inj e
  · cases worksOn.begun

theorem On.worksOn (h : st.On operation) (begun : st.begun) : st.WorksOn operation := by
  rcases h with rfl | worksOn
  · cases begun
  · exact worksOn

theorem On.unopened {r : Request} : ¬(Stage.opening r).On operation := by
  rintro (e | worksOn)
  · cases e
  · cases worksOn.begun

theorem WorksOn.not_connect (h : st.WorksOn .connect) (hw : st.write? = some w) : False := by
  cases h with
  | connects e => cases (aim?_of_write? hw).symm.trans e

theorem WorksOn.frame_eq {frame : Bytes} {limit : Nat} (h : st.WorksOn (.ask frame limit))
    (hw : st.write? = some w) : w.frame = frame ∧ ∃ k, w.token = some k := by
  cases h with
  | asks e hk =>
    obtain rfl := Option.some.inj (hw.symm.trans e)
    exact ⟨rfl, _, hk⟩
  | waits => cases hw

theorem WorksOn.token? {frame : Bytes} {limit : Nat} (h : st.WorksOn (.ask frame limit)) :
    ∃ k, st.token? = some k := by
  cases h with
  | asks hw hk => exact ⟨_, (token?_eq_of_write? hw).trans hk⟩
  | waits => exact ⟨_, rfl⟩

theorem WorksOn.not_ask {frame frame' : Bytes} {limit : Nat} (h : st.WorksOn (.send frame))
    (h' : st.WorksOn (.ask frame' limit)) : False := by
  cases h with
  | sends hw hn =>
    obtain ⟨-, k, hk⟩ := h'.frame_eq hw
    cases hn.symm.trans hk

end Stage

def Call.Connects (call : Call) : Prop := ∃ p, call = ⟨.greet p, .ready .connect, none⟩

section Verdict

variable {call : Call} {t : Float} {o : Outcome}

theorem Verdict.turnOnAt_connects (h : (Verdict.turnOnAt t o).call? = some call) :
    call.Connects := by
  unfold Verdict.turnOnAt at h
  split at h
  · exact ⟨_, (Option.some.inj h).symm⟩
  · cases h

theorem Verdict.adjust_connects {r : Reading} (h : (Verdict.adjust t r).call? = some call) :
    call.Connects := by
  unfold Verdict.adjust at h
  cases hm : r.mode with
  | on =>
    rw [hm] at h
    exact turnOnAt_connects h
  | off =>
    rw [hm] at h
    cases h

/-- A call for more than one operation begins with a link and a hello. -/
theorem Request.start_connects {r : Request} {last : Option Reading} (h : r.operation? = none)
    (hv : (r.start last).call? = some call) : call.Connects := by
  cases r with
  | turnOn t => exact Verdict.turnOnAt_connects hv
  | turnOff => exact ⟨_, (Option.some.inj hv).symm⟩
  | noOp => exact ⟨_, (Option.some.inj hv).symm⟩
  | updateStatus => exact ⟨_, (Option.some.inj hv).symm⟩
  | setMode mode => cases mode <;> exact ⟨_, (Option.some.inj hv).symm⟩
  | setTemperature t =>
    simp only [Request.start] at hv
    split at hv
    · cases last with
      | none => exact ⟨_, (Option.some.inj hv).symm⟩
      | some r => exact Verdict.adjust_connects hv
    · cases hv
  | _ => cases h

/-- A response is followed by a frame, or by another hello. -/
theorem Purpose.next_sends {p : Purpose} {limit : Nat} {response : Response}
    (h : (p.next limit response).call? = some call) :
    (∃ frame o, call = ⟨.confirm o, .ready (.send frame), none⟩) ∨ call.Connects := by
  cases p with
  | report => cases h
  | command frame o => exact .inl ⟨frame, o, (Option.some.inj h).symm⟩
  | resume =>
    simp only [next] at h
    split at h
    · cases h
    · split at h
      · exact .inl ⟨_, _, (Option.some.inj h).symm⟩
      · cases h
  | adjust t =>
    simp only [next] at h
    split at h
    · cases h
    · exact .inr (Verdict.adjust_connects h)

end Verdict

namespace Greets

variable {config : Config} {plan : Plan} {st : Stage} {call : Call}

theorem of_connects (h : call.Connects) : Greets config call.plan call.stage := by
  obtain ⟨p, rfl⟩ := h
  exact .connects (.inl rfl)

theorem composed {r : Request} (h : Greets config plan (.opening r)) : r.operation? = none := by
  cases h with
  | opening hr => exact hr
  | connects hon => exact absurd hon Stage.On.unopened
  | hello hon => exact absurd hon Stage.On.unopened
  | sends hon => exact absurd hon Stage.On.unopened

/-- Only the response to a hello takes a call to the frame of its command. -/
theorem next (h : Greets config plan st) {clock : Clock} {o : Outcome}
    (hv : (plan.next config clock o).call? = some call) :
    Greets config call.plan call.stage ∧ ∀ o', call.plan = .confirm o' →
      ∃ p response, plan = .use p ∧ o = .response response := by
  cases o with
  | fault f => cases hv
  | temperature t => cases hv
  | done =>
    cases h with
    | connects _ =>
      obtain rfl := Option.some.inj hv
      exact ⟨.hello (.inl rfl), fun o' e => by cases e⟩
    | _ => cases hv
  | response response =>
    cases h with
    | @hello p _ _ _ =>
      rcases Purpose.next_sends hv with ⟨frame, o, rfl⟩ | connects
      · exact ⟨.sends (.inl rfl), fun _ _ => ⟨p, response, rfl, rfl⟩⟩
      · exact ⟨.of_connects connects, fun _ _ => ⟨p, response, rfl, rfl⟩⟩
    | _ => cases hv

/-- The frame of a command is in the queue only behind the hello. -/
theorem confirms {w : Write} {command : Command} (h : Greets config plan st)
    (hw : st.write? = some w) (frame : w.frame = command.frame)
    (notHello : command.opcode ≠ .hello) : ∃ o, plan = .confirm o := by
  have begun := Stage.begun_of_write? hw
  cases h with
  | opening _ => cases begun
  | connects hon => exact ((hon.worksOn begun).not_connect hw).elim
  | hello hon =>
    -- The opcode tells the two frames apart, whatever else they say.
    obtain ⟨e, -⟩ := (hon.worksOn begun).frame_eq hw
    exact absurd (Command.opcode_eq (frame.symm.trans e)) notHello
  | @sends o _ _ _ => exact ⟨o, rfl⟩

theorem sending {o : Outcome} {operation : Operation} (h : Greets config (.confirm o) st)
    (hst : st.WorksOn operation) : ∃ frame, operation = .send frame := by
  cases h with
  | @sends _ frame _ hon =>
    have worksOn := hon.worksOn hst.begun
    cases hst with
    | connects e =>
      cases worksOn with
      | sends hw _ => cases (Stage.aim?_of_write? hw).symm.trans e
    | disconnects e =>
      cases worksOn with
      | sends hw _ => cases (Stage.aim?_of_write? hw).symm.trans e
    | @sends _ w _ _ => exact ⟨w.frame, rfl⟩
    | @asks _ w k limit hw hk =>
      have asks : st.WorksOn (.ask w.frame limit) := .asks hw hk
      exact (worksOn.not_ask asks).elim
    | waits => cases worksOn with | sends hw _ => cases hw

theorem mono {st' : Stage} (h : Greets config plan st) (unopened : ∀ r, st ≠ .opening r)
    (on : ∀ operation, st.On operation → st'.On operation) : Greets config plan st' := by
  cases h with
  | opening _ => exact absurd rfl (unopened _)
  | connects hon => exact .connects (on _ hon)
  | hello hon => exact .hello (on _ hon)
  | sends hon => exact .sends (on _ hon)

end Greets

namespace Act.Turn

variable {t : Turn} {s : Session} {st : Stage} {after : Session × List Effect} {call : Call}

theorem Advances.greets (h : Advances t s st after) (greets : Greets s.config t.plan st)
    (hc : after.1.calls.get? t.call = some call) : Greets s.config call.plan call.stage := by
  cases h with
  | @opens r =>
    rw [follow_get?, if_pos rfl] at hc
    exact .of_connects (Request.start_connects greets.composed hc)
  | @begins operation =>
    rw [begin_get?] at hc
    obtain rfl := Option.some.inj hc
    refine greets.mono (by simp) fun operation' hon => .inr ?_
    obtain rfl := hon.of_ready
    exact t.wants_worksOn s operation
  | goes begun get continues _ _ =>
    rw [get] at hc
    obtain rfl := Option.some.inj hc
    refine greets.mono (fun r e => ?_) fun operation hon =>
      .inr (continues.worksOn _ (hon.worksOn begun))
    rw [e] at begun
    cases begun
  | ends _ _ get _ =>
    rw [get] at hc
    exact (greets.next hc).1

end Act.Turn

end HeaterLink
