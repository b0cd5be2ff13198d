import HeaterLink.Proofs.Link.Sequences
import HeaterLink.Proofs.Requests.Calls
import HeaterLink.Proofs.Requests.Messages

/-!
# Operations of calls

A call looks at its request, begins an operation and stays with it until it has
a result, on which its plan runs on. So while an operation has no result its
call is at a stage that works on it, with the plan that it had when the
operation began, and a write or a wait for a status keeps the deadline that it
got then.
-/

set_option autoImplicit false

namespace HeaterLink

inductive Stage.WorksOn : Operation → Stage → Prop
  | connects {st : Stage} : st.aim? = some .reconnect → WorksOn .connect st
  | disconnects {st : Stage} : st.aim? = some .rest → WorksOn .disconnect st
  | sends {st : Stage} {w : Write} : st.write? = some w → w.token = none →
      WorksOn (.send w.frame) st
  | asks {st : Stage} {w : Write} {k : Token} {limit : Nat} : st.write? = some w →
      w.token = some k → WorksOn (.ask w.frame limit) st
  | waits {frame : Bytes} {limit : Nat} {k : Token} {a : Alarm} :
      WorksOn (.ask frame limit) (.awaiting k a)

def Stage.begun : Stage → Bool
  | .opening _ => false
  | .ready _ => false
  | _ => true

def Operation.limit? (config : Config) : Operation → Option Nat
  | .connect => none
  | .send _ => some config.writeLimit
  | .ask _ limit => some limit
  | .disconnect => none

structure Stage.Continues (st st' : Stage) : Prop where
  worksOn : ∀ operation, st.WorksOn operation → st'.WorksOn operation
  due : st.aim? = none → st'.due? = st.due?

theorem Stage.begun_of_aim? {st : Stage} {next : Release} (h : st.aim? = some next) :
    st.begun := by
  cases st <;> first | rfl | cases h

theorem Stage.begun_of_write? {st : Stage} {w : Write} (h : st.write? = some w) : st.begun := by
  cases st <;> first | rfl | cases h

theorem Stage.WorksOn.begun {operation : Operation} {st : Stage} (h : st.WorksOn operation) :
    st.begun := by
  cases h with
  | connects aim => exact begun_of_aim? aim
  | disconnects aim => exact begun_of_aim? aim
  | sends hw _ => exact begun_of_write? hw
  | asks hw _ => exact begun_of_write? hw
  | waits => rfl

theorem Stage.aim?_of_write? {st : Stage} {w : Write} (h : st.write? = some w) :
    st.aim? = none := by
  cases haim : st.aim? with
  | none => rfl
  | some next =>
    rw [Stage.write?_of_aim? haim] at h
    cases h

theorem Stage.WorksOn.aim? {operation : Operation} {st : Stage} {config : Config} {limit : Nat}
    (h : st.WorksOn operation) (hl : operation.limit? config = some limit) : st.aim? = none := by
  cases h with
  | connects _ => cases hl
  | disconnects _ => cases hl
  | sends hw _ => exact aim?_of_write? hw
  | asks hw _ => exact aim?_of_write? hw
  | waits => rfl

theorem Stage.WorksOn.of_aim? {operation : Operation} {st st' : Stage} {next : Release}
    (h : st.WorksOn operation) (aim : st.aim? = some next) (aim' : st'.aim? = some next) :
    st'.WorksOn operation := by
  cases h with
  | connects e => exact .connects (aim'.trans (aim.symm.trans e))
  | disconnects e => exact .disconnects (aim'.trans (aim.symm.trans e))
  | sends hw _ => cases (aim?_of_write? hw).symm.trans aim
  | asks hw _ => cases (aim?_of_write? hw).symm.trans aim
  | waits => cases aim

theorem Stage.WorksOn.of_write? {operation : Operation} {st st' : Stage} {w : Write}
    (h : st.WorksOn operation) (hw : st.write? = some w) (hw' : st'.write? = some w) :
    st'.WorksOn operation := by
  cases h with
  | connects e => cases (aim?_of_write? hw).symm.trans e
  | disconnects e => cases (aim?_of_write? hw).symm.trans e
  | sends e hk =>
    obtain rfl := Option.some.inj (hw.symm.trans e)
    exact .sends hw' hk
  | asks e hk =>
    obtain rfl := Option.some.inj (hw.symm.trans e)
    exact .asks hw' hk
  | waits => cases hw

theorem Stage.WorksOn.awaits {operation : Operation} {w : Write} {k : Token} {a : Alarm}
    (h : (Stage.writing w).WorksOn operation) (hk : w.token = some k) :
    (Stage.awaiting k a).WorksOn operation := by
  cases h with
  | connects e => cases e
  | disconnects e => cases e
  | sends e hn =>
    obtain rfl := Option.some.inj e
    cases hk.symm.trans hn
  | asks _ _ => exact .waits

namespace Act.Turn

open Session

inductive Advances (t : Turn) (s : Session) : Stage → Session × List Effect → Prop
  | opens {r : Request} : Advances t s (.opening r) (t.follow (r.start s.inbound.lastReading) s)
  | begins {operation : Operation} : Advances t s (.ready operation) (t.begin operation s)
  | goes {st stage : Stage} {after : Session × List Effect} : st.begun →
      after.1.calls.get? t.call = some ⟨t.plan, stage, none⟩ → st.Continues stage →
      (∀ o, .finished t.call o ∉ after.2) → (∀ o, .returned t.call o ∉ after.2) →
      Advances t s st after
  | ends {st : Stage} {o : Outcome} {after : Session × List Effect} : st.begun →
      (∀ o', .finished t.call o' ∈ after.2 ↔ o' = o) →
      after.1.calls.get? t.call = (t.plan.next s.config t.moment.clock o).call? →
      (∀ o', .returned t.call o' ∈ after.2 ↔
        t.plan.next s.config t.moment.clock o = .finished o') →
      Advances t s st after

variable {t : Turn} {s : Session} {st : Stage}

theorem returned_mem_follow {v : Verdict} {o : Outcome} :
    .returned t.call o ∈ (t.follow v s).2 ↔ v = .finished o := by
  cases v with
  | finished o' => simp [follow, eq_comm]
  | run operation plan => simp [follow, goto]

/-- A turn keeps the plan of its call, unless it looks at the request or has a result. -/
theorem Advances.plan {after : Session × List Effect} {call : Call} (h : Advances t s st after)
    (hc : after.1.calls.get? t.call = some call) :
    call.plan = t.plan ∨
      (∃ r, st = .opening r ∧ (r.start s.inbound.lastReading).call? = some call) ∨
      ∃ o, st.begun ∧ .finished t.call o ∈ after.2 ∧
        (t.plan.next s.config t.moment.clock o).call? = some call := by
  cases h with
  | @opens r =>
    rw [follow_get?, if_pos rfl] at hc
    exact .inr (.inl ⟨r, rfl, hc⟩)
  | begins =>
    rw [begin_get?] at hc
    obtain rfl := Option.some.inj hc
    exact .inl rfl
  | goes _ get _ _ _ =>
    rw [get] at hc
    obtain rfl := Option.some.inj hc
    exact .inl rfl
  | @ends _ o _ begun finished get _ =>
    rw [get] at hc
    exact .inr (.inr ⟨o, begun, (finished o).mpr rfl, hc⟩)

theorem Advances.of_finished {after : Session × List Effect} {o : Outcome}
    (h : Advances t s st after) (ho : .finished t.call o ∈ after.2) :
    st.begun ∧ ∀ o', .returned t.call o' ∈ after.2 ↔
      t.plan.next s.config t.moment.clock o = .finished o' := by
  cases h with
  | opens =>
    obtain ⟨o', e⟩ := mem_follow ho
    cases e
  | begins => rcases mem_begin ho with e | e | ⟨old, e⟩ <;> cases e
  | goes _ _ _ unfinished _ => exact absurd ho (unfinished o)
  | ends begun finished _ returned =>
    obtain rfl := (finished o).mp ho
    exact ⟨begun, returned⟩

theorem Advances.of_returned {after : Session × List Effect} {o : Outcome}
    (h : Advances t s st after) (ho : .returned t.call o ∈ after.2) :
    (∃ r, st = .opening r ∧ r.start s.inbound.lastReading = .finished o) ∨
      ∃ o', .finished t.call o' ∈ after.2 ∧
        t.plan.next s.config t.moment.clock o' = .finished o := by
  cases h with
  | @opens r => exact .inl ⟨r, rfl, returned_mem_follow.mp ho⟩
  | begins => rcases mem_begin ho with e | e | ⟨old, e⟩ <;> cases e
  | goes _ _ _ _ unreturned => exact absurd ho (unreturned o)
  | @ends _ o' _ _ finished _ returned =>
    exact .inr ⟨o', (finished o').mpr rfl, (returned o).mp ho⟩

theorem finish_advances (begun : st.begun) (s₁ : Session) (first : List Effect) (o : Outcome)
    (config : s₁.config = s.config) (unfinished : ∀ o', .finished t.call o' ∉ first)
    (unreturned : ∀ o', .returned t.call o' ∉ first) :
    Advances t s st ((t.finish o s₁).1, first ++ (t.finish o s₁).2) := by
  refine .ends (o := o) begun (fun o' => ?_) ?_ fun o' => ?_
  · rw [List.mem_append, finished_mem_finish]
    exact or_iff_right (unfinished o')
  · rw [finish_fst, follow_get?, if_pos rfl, config]
  · rw [List.mem_append, finish_snd, List.mem_cons, returned_mem_follow, config]
    simp [unreturned o']

theorem releaseLink_unreturned (s : Session) (c : CallId) (o : Outcome) :
    .returned c o ∉ (releaseLink s).2 := by
  intro h
  obtain ⟨d, e⟩ := mem_releaseLink h
  cases e

theorem expired_advances (begun : st.begun) (s₁ : Session) (first : List Effect) (w : Write)
    (config : s₁.config = s.config) (unfinished : ∀ o', .finished t.call o' ∉ first)
    (unreturned : ∀ o', .returned t.call o' ∉ first) :
    Advances t s st ((t.expired w s₁).1, first ++ (t.expired w s₁).2) := by
  rw [expired]
  cases w.token with
  | none => exact finish_advances begun s₁ first _ config unfinished unreturned
  | some k =>
    simp only [all_cons, all_nil, withdraw_apply, List.nil_append, List.append_nil]
    exact finish_advances begun { s₁ with inbound := s₁.inbound.withdraw k } first _ config
      unfinished unreturned

theorem written_failed_advances (begun : st.begun) (w : Write) (f : Fault) (s : Session) :
    Advances t s st (t.written w (some f) s) := by
  have unfinished := releaseLink_unfinished s t.call
  have unreturned := releaseLink_unreturned s t.call
  simp only [written, all_cons, all_nil, releaseLink_fst, List.append_nil]
  cases w.token with
  | none =>
    exact finish_advances begun { s with queue := s.queue.release } _ _ rfl unfinished unreturned
  | some k =>
    simp only [all_cons, all_nil, withdraw_apply, List.nil_append, List.append_nil]
    exact finish_advances begun { s with
      queue := s.queue.release
      inbound := s.inbound.withdraw k } _ _ rfl unfinished unreturned

theorem written_done_advances (w : Write) (s : Session) :
    Advances t s (.writing w) (t.written w none s) := by
  have unfinished := releaseLink_unfinished s t.call
  have unreturned := releaseLink_unreturned s t.call
  simp only [written, all_cons, all_nil, releaseLink_fst, List.append_nil]
  cases hk : w.token with
  | none =>
    exact finish_advances rfl { s with queue := s.queue.release } _ _ rfl unfinished unreturned
  | some k =>
    refine .goes rfl ((goto_get? _ _ _ _).trans (if_pos rfl))
      ⟨fun _ h => h.awaits hk, fun _ => rfl⟩ ?_ ?_
    · simpa [goto] using unfinished
    · simpa [goto] using unreturned

/-- A turn for an aim keeps it, or has the result of its finale. -/
theorem Pursued.advances {next : Release} {after : Session × List Effect}
    (h : Pursued t next s after) (aim : st.aim? = some next) : Advances t s st after := by
  have begun := Stage.begun_of_aim? aim
  obtain ⟨s₁, effects, finale, hw, hof, rfl⟩ := h
  have unfinished (o : Outcome) : .finished t.call o ∉ effects := hw.plain (.finished t.call o)
  have unreturned (o : Outcome) : .returned t.call o ∉ effects := hw.plain (.returned t.call o)
  cases hof with
  | @goto stage _ _ haim =>
    refine .goes begun ((goto_get? _ _ _ _).trans (if_pos rfl))
      ⟨fun _ h => h.of_aim? aim haim, ?_⟩ ?_ ?_
    · rw [aim]
      exact fun e => by cases e
    · simpa [Finale.act, goto] using unfinished
    · simpa [Finale.act, goto] using unreturned
  | @settle failure =>
    simp only [Finale.act, endSequence, all_cons, all_nil, change_apply, tell_apply,
      releaseLink_fst, List.append_nil, List.nil_append, List.singleton_append]
    rw [← List.cons_append, ← List.append_assoc]
    refine finish_advances begun { s₁ with
      lastFailure := failure
      sequences := s₁.sequences + 1
      queue := s₁.queue.release } _ _ hw.config (fun o ho => ?_) fun o ho => ?_
    · simp [releaseLink_unfinished] at ho
      exact unfinished o ho
    · simp [releaseLink_unreturned] at ho
      exact unreturned o ho
  | rest =>
    simp only [Finale.act, leaveAtRest, all_cons, all_nil, change_apply, releaseLink_fst,
      List.append_nil, List.nil_append]
    rw [← List.append_assoc]
    refine finish_advances begun { s₁ with
      lastFailure := none
      queue := s₁.queue.release } _ _ hw.config (fun o ho => ?_) fun o ho => ?_
    · simp [releaseLink_unfinished] at ho
      exact unfinished o ho
    · simp [releaseLink_unreturned] at ho
      exact unreturned o ho

theorem share_advances (begun : st.begun) (f : Fault) (s : Session) :
    Advances t s st (all [releaseLink, t.finish (.fault f)] s) := by
  simp only [all_cons, all_nil, releaseLink_fst, List.append_nil]
  exact finish_advances begun { s with queue := s.queue.release } _ _ rfl
    (releaseLink_unfinished s t.call) (releaseLink_unreturned s t.call)

/-- A turn looks at the request, begins an operation, goes on with it or has its result. -/
theorem Moves.advances {answer : Option RadioAnswer} {a : Act} (step : Moves t s answer st a) :
    Advances t s st (a s) := by
  cases aim : st.aim? with
  | some next =>
    rcases step.pursues aim with h | ⟨_, f, -, -, -, -, h⟩
    · exact Pursued.advances h aim
    · exact h ▸ share_advances (Stage.begun_of_aim? aim) f s
  | none =>
  -- What is left is no work on the link, so the other cases of `Moves` have no such stage.
  cases step with
  | opens => exact .opens
  | begins => exact .begins
  | @proceeds _ use _ =>
    cases use with
    | write w =>
      simp only [proceed, write, choose_apply]
      cases s.held with
      | none => exact written_failed_advances rfl w _ s
      | some held =>
        by_cases hu : held.up
        · simp only [hu, if_true]
          exact .goes rfl (writes_get? _ _ _ _) ⟨fun _ h => h.of_write? rfl rfl, fun _ => rfl⟩
            (by simp [request, goto]) (by simp [request, goto])
        · simp only [hu]
          exact written_failed_advances rfl w _ s
    | _ => cases aim
  | @leaves _ w _ _ =>
    simp only [all_cons, all_nil, change_apply, List.append_nil]
    exact expired_advances rfl { s with queue := s.queue.leave t.call } [] w rfl (by simp) (by simp)
  | @written w fault =>
    cases fault with
    | none => exact written_done_advances w s
    | some f => exact written_failed_advances rfl w f s
  | @writeLate _ w _ =>
    simp only [all_cons, all_nil, tell_apply, releaseLink_fst, List.append_nil]
    rw [← List.append_assoc]
    refine expired_advances rfl { s with queue := s.queue.release } _ w rfl ?_ ?_
    · simpa using releaseLink_unfinished s t.call
    · simpa using releaseLink_unreturned s t.call
  | @answered _ k _ r _ =>
    simp only [all_cons, all_nil, withdraw_apply, List.append_nil]
    exact finish_advances rfl { s with inbound := s.inbound.withdraw k } [] _ rfl (by simp)
      (by simp)
  | @silent _ k _ _ _ _ =>
    simp only [all_cons, all_nil, withdraw_apply, fallBack, choose_apply, List.append_nil]
    exact finish_advances rfl { s with inbound := s.inbound.withdraw k } [] _ rfl (by simp)
      (by simp)
  | displaced _ _ =>
    simp only [fallBack, choose_apply]
    exact finish_advances rfl s [] _ rfl (by simp) (by simp)
  | _ => cases aim

theorem wants_worksOn (t : Turn) (s : Session) (operation : Operation) :
    (Stage.queued (t.wants s operation)).WorksOn operation := by
  cases operation with
  | connect => exact .connects rfl
  | send frame => exact .sends (w := ⟨frame, t.moment.alarm s.config.writeLimit, none⟩) rfl rfl
  | ask frame limit =>
    exact .asks (w := ⟨frame, t.moment.alarm limit, some s.nextToken⟩) rfl rfl
  | disconnect => exact .disconnects rfl

theorem wants_due? {operation : Operation} {limit : Nat}
    (h : operation.limit? s.config = some limit) :
    (Stage.queued (t.wants s operation)).due? = some (t.moment.now + limit) := by
  cases operation with
  | connect => cases h
  | send frame =>
    obtain rfl := Option.some.inj h
    rfl
  | ask frame limit' =>
    obtain rfl := Option.some.inj h
    rfl
  | disconnect => cases h

end Act.Turn

namespace Course

variable {wall : Nat → Clock} {config : Config} {x y : Course} {a : Action}
  {after : Session × List Effect} {c : CallId} {operation : Operation} {g n : Nat} {o : Outcome}

theorem advances_of_poll (hp : x.session.poll (x.moment wall) c = some after) :
    ∃ call, x.session.calls.get? c = some call ∧
      Act.Turn.Advances ⟨x.moment wall, c, call.plan⟩ x.session call.stage after := by
  obtain ⟨call, act, hc, hm, rfl⟩ := Session.poll_moves hp
  exact ⟨call, hc, hm.advances⟩

/-- A call at a stage of an operation has begun one that has no result yet. -/
theorem reached_begun : ∀ x, Reached wall config x → ∀ c call,
    x.session.calls.get? c = some call → call.stage.begun →
    ∃ g operation, x.Did g (.began c operation) ∧ x.Open g c := by
  refine reached_induction ?_ fun x a y hx ih step => ?_
  · intro c call hc
    cases hc
  · obtain ⟨after, hr, grows⟩ := take?_grows step
    intro c call hc begun
    rw [grows.session] at hc
    have before {old : Call} (hold : x.session.calls.get? c = some old) (hb : old.stage.begun)
        (unfinished : ∀ o, .finished c o ∉ after.2) :
        ∃ g operation, y.Did g (.began c operation) ∧ y.Open g c := by
      obtain ⟨g, operation, hg, hopen⟩ := ih c old hold hb
      exact ⟨g, operation, grows.begins.did hg, grows.open hopen unfinished⟩
    have unbegun {v : Verdict} (hv : v.call? = some call) : ¬call.stage.begun := by
      obtain ⟨operation, hst⟩ := Act.Turn.stage_of_call? hv
      simp [hst, Stage.begun]
    by_cases turn : a = .poll c
    · subst turn
      cases hr with
      | poll hp =>
        obtain ⟨old, hold, advances⟩ := advances_of_poll hp
        generalize hst : old.stage = st at advances
        cases advances with
        | opens =>
          rw [Act.Turn.follow_get?, if_pos rfl] at hc
          exact absurd begun (unbegun hc)
        | @begins operation =>
          refine ⟨x.history.length, operation, grows.did (by simp [Act.Turn.begin]),
            grows.open (open_length x c) fun o hd => ?_⟩
          rcases Act.Turn.mem_begin hd with e | e | ⟨p, e⟩ <;> cases e
        | goes hb _ _ unfinished _ => exact before hold (hst ▸ hb) unfinished
        | ends _ _ get _ =>
          rw [get] at hc
          exact absurd begun (unbegun hc)
    · have unfinished (o : Outcome) : .finished c o ∉ after.2 := by
        intro ho
        obtain ⟨-, -, e, -⟩ := hr.finished ho
        exact turn e
      rcases hr.call hc with ⟨old, hold, -, hstage, -⟩ | ⟨-, -, e, -⟩ | ⟨r, -, rfl⟩
      · exact before hold (hstage ▸ begun) unfinished
      · exact absurd e turn
      · cases begun

structure Engaged (config : Config) (x : Course) (g : Nat) (c : CallId) (operation : Operation)
    (call : Call) : Prop where
  get : x.session.calls.get? c = some call
  worksOn : call.stage.WorksOn operation
  due : ∀ limit, operation.limit? config = some limit →
    call.stage.due? = some (x.timeAt g + limit)
  plan : ∃ old, (x.sessionAt g).calls.get? c = some old ∧ old.stage = .ready operation ∧
    old.plan = call.plan

theorem engaged_of_began (hx : Reached wall config x) (hy : Reached wall config y)
    (hr : x.Reacts wall a after) (grows : x.Grows a after y)
    (hb : .began c operation ∈ after.2) :
    ∃ call, y.Engaged config x.history.length c operation call := by
  have begins := grows.begins
  obtain ⟨old, -, hold, hst, rfl⟩ := hr.began hb
  let t : Act.Turn := ⟨x.moment wall, c, old.plan⟩
  refine ⟨⟨old.plan, .queued (t.wants x.session operation), none⟩, ?_,
    t.wants_worksOn x.session operation, fun limit hl => ?_, old, ?_, hst, rfl⟩
  · rw [grows.session]
    exact t.begin_get? operation
  · rw [begins.timeAt hx hy (Nat.le_refl _), timeAt_length]
    exact t.wants_due? ((reached_setUp x hx).settings ▸ hl)
  · rw [begins.session, hold]

/-- While its operation has no result a call works on it. -/
theorem reached_engaged : ∀ x, Reached wall config x → ∀ g c operation,
    x.Did g (.began c operation) → x.Open g c → ∃ call, x.Engaged config g c operation call := by
  refine reached_induction ?_ fun x a y hx ih step => ?_
  · exact fun g c operation hg => (not_did_start hg).elim
  · have hy := reached_take? hx step
    obtain ⟨after, hr, grows⟩ := take?_grows step
    have begins := grows.begins
    intro g c operation hg hopen
    rcases grows.did_iff.mp hg with hg | ⟨rfl, hb⟩
    · have hlt := Nat.le_of_lt (did_lt hg)
      obtain ⟨call, engaged⟩ := ih g c operation hg (begins.open hopen)
      -- Another stage that continues the one before keeps everything else.
      have still {kept : Call} (get : after.1.calls.get? c = some kept)
          (worksOn : kept.stage.WorksOn operation)
          (due : ∀ limit, operation.limit? config = some limit →
            kept.stage.due? = call.stage.due?)
          (plan : kept.plan = call.plan) : y.Engaged config g c operation kept := by
        refine ⟨grows.session ▸ get, worksOn, fun limit hl => ?_, ?_⟩
        · rw [due limit hl, engaged.due limit hl, begins.timeAt hx hy hlt]
        · obtain ⟨old, hold, hst, hplan⟩ := engaged.plan
          exact ⟨old, (begins.sessionAt hlt).symm ▸ hold, hst, hplan.trans plan.symm⟩
      by_cases turn : a = .poll c
      · subst turn
        cases hr with
        | poll hp =>
          obtain ⟨old, hold, advances⟩ := advances_of_poll hp
          obtain rfl := Option.some.inj (engaged.get.symm.trans hold)
          have worksOn := engaged.worksOn
          generalize hst : call.stage = st at advances worksOn
          cases advances with
          | opens => cases worksOn <;> contradiction
          | begins => cases worksOn <;> contradiction
          | goes _ get continues _ _ =>
            exact ⟨_, still get (continues.worksOn _ worksOn)
              (fun limit hl => (continues.due (worksOn.aim? hl)).trans (by rw [hst])) rfl⟩
          | @ends _ o _ _ finished _ _ =>
            exact absurd (grows.did ((finished o).mpr rfl)) (hopen _ o hlt)
      · obtain ⟨kept, hkept, hplan, hstage⟩ := hr.stays (reached_numbered x hx) engaged.get turn
        exact ⟨kept, still hkept (hstage ▸ engaged.worksOn) (fun _ _ => by rw [hstage]) hplan⟩
    · exact engaged_of_began hx hy hr grows hb

end Course

end HeaterLink
