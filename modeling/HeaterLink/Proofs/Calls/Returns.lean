import HeaterLink.Proofs.Calls.Operations

/-!
# Calls and their returns

A call that has been made stays in the session until it returns. Most requests
of a session are for a single operation: such a call begins it once, and the
entry in which that has its result is the one in which the call returns.
-/

set_option autoImplicit false

namespace HeaterLink

def Request.operation? : Request → Option Operation
  | .ensureConnected => some .connect
  | .send frame => some (.send frame)
  | .ask frame limit => some (.ask frame limit)
  | .disconnect => some .disconnect
  | _ => none

theorem Request.start_eq {r : Request} {operation : Operation}
    (h : r.operation? = some operation) (last : Option Reading) :
    r.start last = .run operation .finish := by
  cases r <;> cases h <;> rfl

theorem Plan.finish_next (config : Config) (clock : Clock) (o : Outcome) :
    Plan.next config clock .finish o = .finished o := by
  cases o <;> rfl

inductive Call.Single (r : Request) (operation : Operation) (call : Call) : Prop
  | opening : call.stage = .opening r → Single r operation call
  | ready : call.plan = .finish → call.stage = .ready operation → Single r operation call
  | working : call.plan = .finish → call.stage.WorksOn operation → Single r operation call

theorem Call.Single.plan {r : Request} {operation : Operation} {call : Call}
    (h : call.Single r operation) (begun : call.stage.begun) : call.plan = .finish := by
  cases h with
  | opening hst =>
    rw [hst] at begun
    cases begun
  | ready hplan _ => exact hplan
  | working hplan _ => exact hplan

theorem Call.Single.worksOn {r : Request} {operation : Operation} {call : Call}
    (h : call.Single r operation) (begun : call.stage.begun) : call.stage.WorksOn operation := by
  cases h with
  | opening hst =>
    rw [hst] at begun
    cases begun
  | ready _ hst =>
    rw [hst] at begun
    cases begun
  | working _ worksOn => exact worksOn

theorem Call.Single.of_same {r : Request} {operation : Operation} {call call' : Call}
    (h : call.Single r operation) (plan : call'.plan = call.plan)
    (stage : call'.stage = call.stage) : call'.Single r operation := by
  cases h with
  | opening hst => exact .opening (stage.trans hst)
  | ready hplan hst => exact .ready (plan.trans hplan) (stage.trans hst)
  | working hplan worksOn => exact .working (plan.trans hplan) (stage ▸ worksOn)

namespace Act.Turn

variable {t : Turn} {s : Session} {st : Stage} {after : Session × List Effect} {call : Call}
  {r : Request} {operation : Operation}

/-- A call that its turn has taken out of the session has returned. -/
theorem Advances.gone (h : Advances t s st after) (gone : after.1.calls.get? t.call = none) :
    ∃ o, .returned t.call o ∈ after.2 := by
  cases h with
  | @opens r =>
    rw [follow_get?, if_pos rfl] at gone
    cases hv : r.start s.inbound.lastReading with
    | finished o => exact ⟨o, returned_mem_follow.mpr rfl⟩
    | run operation plan =>
      rw [hv] at gone
      cases gone
  | @begins operation =>
    rw [begin_get?] at gone
    cases gone
  | goes _ get _ _ _ =>
    rw [get] at gone
    cases gone
  | @ends _ o _ _ _ get returned =>
    rw [get] at gone
    cases hv : t.plan.next s.config t.moment.clock o with
    | finished o' => exact ⟨o', (returned o').mpr hv⟩
    | run operation plan =>
      rw [hv] at gone
      cases gone

theorem Advances.single {answer : Option RadioAnswer} (h : Advances t s st after)
    (single : Call.Single r operation ⟨t.plan, st, answer⟩)
    (hr : r.operation? = some operation)
    (hc : after.1.calls.get? t.call = some call) : call.Single r operation := by
  cases h with
  | @opens r' =>
    cases single with
    | opening hst =>
      obtain rfl := Stage.opening.inj hst
      rw [follow_get?, if_pos rfl, Request.start_eq hr] at hc
      obtain rfl := Option.some.inj hc
      exact .ready rfl rfl
    | ready _ hst => cases hst
    | working _ worksOn => cases worksOn.begun
  | @begins operation' =>
    cases single with
    | opening hst => cases hst
    | ready hplan hst =>
      obtain rfl := Stage.ready.inj hst
      rw [begin_get?] at hc
      obtain rfl := Option.some.inj hc
      exact .working hplan (t.wants_worksOn s operation')
    | working _ worksOn => cases worksOn.begun
  | goes begun get continues _ _ =>
    rw [get] at hc
    obtain rfl := Option.some.inj hc
    exact .working (single.plan begun) (continues.worksOn _ (single.worksOn begun))
  | @ends _ o _ begun _ get _ =>
    have hplan : t.plan = .finish := single.plan begun
    rw [get, hplan, Plan.finish_next] at hc
    cases hc

theorem Leads.returned {after : Session × List Effect} {c : CallId} {o : Outcome}
    (h : Leads t s st after) (ho : .returned c o ∈ after.2) : c = t.call := by
  cases h with
  | opened =>
    obtain ⟨o', e⟩ := mem_follow ho
    exact (Effect.returned.inj e).1
  | begun => rcases mem_begin ho with e | e | ⟨old, e⟩ <;> cases e
  | writes _ _ _ => simp [request, goto] at ho
  | ended h =>
    rcases mem_closed h ho with plain | ⟨_, _, _, _, e⟩ | ⟨_, e⟩
    · cases plain
    · cases e
    · exact (Effect.returned.inj e).1

theorem Advances.gone_of_returned {o : Outcome} (h : Advances t s st after)
    (ho : .returned t.call o ∈ after.2) : after.1.calls.get? t.call = none := by
  cases h with
  | @opens r =>
    rw [follow_get?, if_pos rfl, returned_mem_follow.mp ho]
    rfl
  | begins => rcases mem_begin ho with e | e | ⟨old, e⟩ <;> cases e
  | goes _ _ _ _ unreturned => exact absurd ho (unreturned o)
  | ends _ _ get returned =>
    rw [get, (returned o).mp ho]
    rfl

end Act.Turn

def Effect.returner? : Effect → Option CallId
  | .returned c _ => some c
  | _ => none

namespace Course

def Unreturned (x : Course) (c : CallId) : Prop := ∀ n o, ¬x.Did n (.returned c o)

variable {wall : Nat → Clock} {config : Config} {x y : Course} {a : Action}
  {after : Session × List Effect} {c : CallId} {r : Request} {operation : Operation}
  {j g n : Nat} {o : Outcome} {call : Call}

theorem unreturned_iff (x : Course) (c : CallId) :
    x.Unreturned c ↔ ∀ entry ∈ x.history, ∀ e ∈ entry.effects, e.returner? ≠ some c := by
  constructor
  · intro h entry hentry e he hc
    obtain ⟨n, hn⟩ := List.mem_iff_getElem?.mp hentry
    cases e with
    | returned c' o =>
      obtain rfl := Option.some.inj hc
      exact h n o ⟨entry, hn, he⟩
    | _ => cases hc
  · rintro h n o ⟨entry, hn, he⟩
    exact h entry (List.mem_of_getElem? hn) _ he rfl

instance (x : Course) (c : CallId) : Decidable (x.Unreturned c) :=
  decidable_of_iff _ (unreturned_iff x c).symm

instance (x : Course) (j : Nat) (c : CallId) (r : Request) : Decidable (x.Invoked j c r) :=
  decidable_of_iff ((x.history[j]?).any fun entry => entry.action = .invoke c r) (by
    simp [Invoked, Option.any_eq_true])

theorem Begins.unreturned (b : x.Begins y) (h : y.Unreturned c) : x.Unreturned c :=
  fun n o hd => h n o (b.did hd)

theorem Reacts.returned (h : x.Reacts wall a after) (ho : .returned c o ∈ after.2) :
    a = .poll c := by
  cases h with
  | poll hp =>
    obtain ⟨call, -, hl⟩ := Session.poll_leads hp
    exact congrArg Action.poll (hl.returned ho).symm
  | listen hl => cases (hl.mem ho).1
  | _ => cases ho

theorem finished_at (reached : Reached wall config x) (hn : x.Did n (.finished c o)) :
    ∃ y call, Reached wall config y ∧ y.Begins x ∧ y.session.calls.get? c = some call ∧
      call.stage.begun ∧ ∀ o', x.Did n (.returned c o') ↔
        call.plan.next y.session.config (y.moment wall).clock o = .finished o' := by
  obtain ⟨y, a, after, hy, begins, -, hr, ho, did, -⟩ := reached_did reached hn
  obtain ⟨-, -, rfl, -⟩ := hr.finished ho
  cases hr with
  | poll hp =>
    obtain ⟨call, hc, advances⟩ := advances_of_poll hp
    obtain ⟨begun, returned⟩ := advances.of_finished ho
    exact ⟨y, call, hy, begins, hc, begun, fun o' => (did _).trans (returned o')⟩

theorem returned_at (reached : Reached wall config x) (hn : x.Did n (.returned c o)) :
    ∃ y call, Reached wall config y ∧ y.Begins x ∧ y.session.calls.get? c = some call ∧
      ((∃ r, call.stage = .opening r ∧ r.start y.session.inbound.lastReading = .finished o) ∨
        ∃ o', x.Did n (.finished c o') ∧
          call.plan.next y.session.config (y.moment wall).clock o' = .finished o) := by
  obtain ⟨y, a, after, hy, begins, -, hr, ho, did, -⟩ := reached_did reached hn
  obtain rfl := hr.returned ho
  cases hr with
  | poll hp =>
    obtain ⟨call, hc, advances⟩ := advances_of_poll hp
    refine ⟨y, call, hy, begins, hc, (advances.of_returned ho).imp_right ?_⟩
    rintro ⟨o', finished, next⟩
    exact ⟨o', (did _).mpr finished, next⟩

/-- A call that has returned is out of the session for good. -/
theorem gone_of_returned : ∀ x, Reached wall config x → ∀ n c o, x.Did n (.returned c o) →
    ∀ m, n < m → m ≤ x.history.length → (x.sessionAt m).calls.get? c = none := by
  refine reached_induction ?_ fun x a y hx ih step => ?_
  · exact fun n c o hn => (not_did_start hn).elim
  · obtain ⟨after, hr, grows⟩ := take?_grows step
    have begins := grows.begins
    intro n c o hn m hlt hm
    rw [grows.length] at hm
    rcases grows.did_iff.mp hn with hn | ⟨rfl, now⟩
    · rcases Nat.lt_or_eq_of_le hm with hm | rfl
      · rw [begins.sessionAt (Nat.le_of_lt_succ hm)]
        exact ih n c o hn m hlt (Nat.le_of_lt_succ hm)
      · rw [← grows.length, sessionAt_length, grows.session]
        have gone := ih n c o hn x.history.length (did_lt hn) (Nat.le_refl _)
        rw [sessionAt_length] at gone
        refine Option.eq_none_iff_forall_ne_some.mpr fun call hc => ?_
        rcases hr.call hc with ⟨old, hold, -⟩ | ⟨old, hold, -⟩ | ⟨r, rfl, -⟩
        · cases gone.symm.trans hold
        · cases gone.symm.trans hold
        · -- The call that returned was made under this number, which is not given out again.
          obtain ⟨entry, hentry, ho⟩ := hn
          obtain ⟨z, after', -, -, -, -, hr', heffects, -⟩ := reached_entry x hx n entry hentry
          obtain ⟨j, r', hj, -⟩ := polled_invoked hx hentry (hr'.returned (heffects ▸ ho))
          exact hr.uninvoked hx hj
    · obtain rfl : m = x.history.length + 1 := by omega
      rw [← grows.length, sessionAt_length, grows.session]
      obtain rfl := hr.returned now
      cases hr with
      | poll hp =>
        obtain ⟨call, -, advances⟩ := advances_of_poll hp
        exact advances.gone_of_returned now

/-- What the plan and the stage of a call have from its request on, and keep in its turns. -/
theorem reached_call {P : Plan → Stage → Prop} (opening : P .finish (.opening r))
    (turn : ∀ {t : Act.Turn} {s : Session} {st : Stage} {after : Session × List Effect}
      {call : Call}, s.config = config → Act.Turn.Advances t s st after → P t.plan st →
      after.1.calls.get? t.call = some call → P call.plan call.stage) :
    ∀ x, Reached wall config x → ∀ j c call, x.Invoked j c r →
      x.session.calls.get? c = some call → P call.plan call.stage := by
  refine reached_induction ?_ fun x a y hx ih step => ?_
  · exact fun j c call hj => (not_invoked_start hj).elim
  · have hy := reached_take? hx step
    obtain ⟨after, hr, grows⟩ := take?_grows step
    intro j c call hj hc
    rw [grows.session] at hc
    have before {old : Call} (hold : x.session.calls.get? c = some old) : P old.plan old.stage :=
      ih j c old (grows.begins.invoked_of_known hx hy hj hold) hold
    by_cases own : a = .poll c
    · subst own
      cases hr with
      | poll hp =>
        obtain ⟨old, hold, advances⟩ := advances_of_poll hp
        exact turn (reached_setUp x hx).settings advances (before hold) hc
    · rcases hr.call hc with ⟨old, hold, hplan, hstage, -⟩ | ⟨-, -, e, -⟩ | ⟨r', rfl, rfl⟩
      · rw [← hplan, ← hstage]
        exact before hold
      · exact absurd e own
      · have hnew : y.Invoked x.history.length c r' :=
          (invoked_snoc_iff grows.history).mpr (.inr ⟨rfl, rfl⟩)
        obtain ⟨rfl, rfl⟩ := invoked_unique hy hj hnew
        exact opening

/-- A call that has not returned is known to the session. -/
theorem reached_known : ∀ x, Reached wall config x → ∀ j c r, x.Invoked j c r →
    x.Unreturned c → ∃ call, x.session.calls.get? c = some call := by
  refine reached_induction ?_ fun x a y hx ih step => ?_
  · exact fun j c r hj => (not_invoked_start hj).elim
  · obtain ⟨after, hr, grows⟩ := take?_grows step
    intro j c r hj unreturned
    rw [grows.session]
    rcases (invoked_snoc_iff grows.history).mp hj with hj | ⟨-, rfl⟩
    · obtain ⟨call, hc⟩ := ih j c r hj (grows.begins.unreturned unreturned)
      by_cases turn : a = .poll c
      · subst turn
        cases hr with
        | poll hp =>
          obtain ⟨old, -, advances⟩ := advances_of_poll hp
          refine Option.ne_none_iff_exists'.mp fun gone => ?_
          obtain ⟨o, ho⟩ := advances.gone gone
          exact unreturned _ o (grows.did ho)
      · obtain ⟨kept, hkept, -⟩ := hr.stays (reached_numbered x hx) hc turn
        exact ⟨kept, hkept⟩
    · cases hr with
      | invoke => exact ⟨_, (Table.get?_insert _ _ _ _).trans (if_pos rfl)⟩

theorem reached_single (reached : Reached wall config x) (hj : x.Invoked j c r)
    (ho : r.operation? = some operation) (hc : x.session.calls.get? c = some call) :
    call.Single r operation := by
  have single : Call.Single r operation ⟨call.plan, call.stage, none⟩ :=
    reached_call (P := fun plan st => Call.Single r operation ⟨plan, st, none⟩) (.opening rfl)
      (fun _ advances single hc => (advances.single single ho hc).of_same rfl rfl) x reached j c
      call hj hc
  exact single.of_same rfl rfl

theorem returned_of_finished (reached : Reached wall config x) (hj : x.Invoked j c r)
    (ho : r.operation? = some operation) (hn : x.Did n (.finished c o)) :
    x.Did n (.returned c o) := by
  obtain ⟨y, call, hy, begins, hc, begun, returned⟩ := finished_at reached hn
  have single := reached_single hy (begins.invoked_of_known hy reached hj hc) ho hc
  rw [returned, single.plan begun, Plan.finish_next]

theorem open_of_unreturned (reached : Reached wall config x) (hj : x.Invoked j c r)
    (ho : r.operation? = some operation) (unreturned : x.Unreturned c) (g : Nat) : x.Open g c := by
  intro m o _ hm
  exact unreturned m o (returned_of_finished reached hj ho hm)

theorem began_of_single (reached : Reached wall config x) (hj : x.Invoked j c r)
    (ho : r.operation? = some operation) {operation' : Operation}
    (hg : x.Did g (.began c operation')) : operation' = operation ∧ j < g := by
  obtain ⟨entry, hentry, hb⟩ := hg
  obtain ⟨y, after, hy, begins, rfl, -, hr, heffects, -⟩ := reached_entry x reached g entry hentry
  rw [heffects] at hb
  obtain ⟨call, turn, hc, hst, -⟩ := hr.began hb
  have hlt := poll_later reached hentry turn hj
  refine ⟨?_, hlt⟩
  cases reached_single hy ((begins.invoked_iff hlt).mp hj) ho hc with
  | opening e => cases hst.symm.trans e
  | ready _ e => exact Stage.ready.inj (hst.symm.trans e)
  | working _ worksOn =>
    rw [hst] at worksOn
    cases worksOn.begun

end Course

end HeaterLink
