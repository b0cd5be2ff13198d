import HeaterLink.Proofs.Calls.Returns
import HeaterLink.Proofs.Link.Sharing

/-!
# Limits of time

A write and a request for a status have a limit of time, which runs from the
moment at which their call is made: on a clock that waits a call begins at
once. The deadline is an alarm of the call from there on, wherever it stands in
the line for the link. So the clock never passes the deadline of such a call
before the call has returned.
-/

set_option autoImplicit false

namespace HeaterLink

namespace Course

variable {wall : Nat → Clock} {config : Config} {x y : Course} {a : Action}
  {after : Session × List Effect} {c : CallId} {r : Request} {operation : Operation}
  {j g limit ms : Nat} {call : Call}

theorem calm_of_pass (timely : x.inTime wall (.pass ms)) : ¬x.busy wall := by
  simp only [inTime, Bool.and_eq_true, Bool.not_eq_true'] at timely
  simp [timely.1]

theorem idle_of_pass (timely : x.inTime wall (.pass ms))
    (hc : x.session.calls.get? c = some call) :
    ¬(x.session.poll (x.moment wall) c).isSome := by
  refine fun h => calm_of_pass timely ?_
  simp only [busy, Bool.or_eq_true, List.any_eq_true]
  exact .inl ⟨(c, call), Table.mem_of_get? hc, .inl h⟩

theorem begun_of_pass (timely : x.inTime wall (.pass ms))
    (hc : x.session.calls.get? c = some call) : call.stage.begun := by
  have idle := idle_of_pass timely hc
  cases hst : call.stage with
  | opening r => simp [Session.poll, hc, hst, Act.Turn.resume] at idle
  | ready operation => simp [Session.poll, hc, hst, Act.Turn.resume] at idle
  | _ => rfl

theorem inTime_open : ∀ x, ReachedInTime wall config x → ∀ g c operation limit,
    x.Did g (.began c operation) → x.Open g c → operation.limit? config = some limit →
    x.now ≤ x.timeAt g + limit := by
  refine inTime_induction ?_ fun x a y hx ih timely step => ?_
  · exact fun _ _ _ _ _ _ _ => Nat.zero_le _
  · have hx := reached_of_inTime hx
    have hy := reached_take? hx step
    obtain ⟨after, hr, grows⟩ := take?_grows step
    have begins := grows.begins
    have hnow := grows.now_eq
    intro g c operation limit hg hopen hl
    rcases grows.did_iff.mp hg with hg | ⟨rfl, hb⟩
    · have hopen := begins.open hopen
      rw [begins.timeAt hx hy (Nat.le_of_lt (did_lt hg))]
      cases a with
      | pass ms =>
        -- The deadline is an alarm of the call, and time passes up to the next alarm only.
        obtain ⟨call, engaged⟩ := reached_engaged x hx g c operation hg hopen
        rw [hnow]
        exact due_of_pass timely engaged.get (engaged.due limit hl)
      | _ => exact hnow ▸ ih g c operation limit hg hopen hl
    · obtain ⟨-, rfl, -⟩ := hr.began hb
      rw [hnow, begins.timeAt hx hy (Nat.le_refl _), timeAt_length]
      exact Nat.add_le_add_left (Nat.zero_le limit) _

theorem Reacts.unbegun (reached : Reached wall config x) (h : x.Reacts wall a after)
    (hj : x.Invoked j c r) (ho : r.operation? = some operation)
    (hc : after.1.calls.get? c = some call) (unbegun : call.stage.begun = false) :
    ∃ old, x.session.calls.get? c = some old ∧ old.stage.begun = false := by
  rcases h.call hc with ⟨old, hold, -, hstage, -⟩ | ⟨old, hold, rfl, -⟩ | ⟨r', rfl, -⟩
  · exact ⟨old, hold, hstage ▸ unbegun⟩
  · refine ⟨old, hold, ?_⟩
    cases h with
    | poll hp =>
      obtain ⟨old', hold', advances⟩ := advances_of_poll hp
      obtain rfl := Option.some.inj (hold.symm.trans hold')
      have single := reached_single reached hj ho hold
      generalize hst : old.stage = st at advances ⊢
      cases advances with
      | opens => rfl
      | begins => rfl
      | goes begun get continues _ _ =>
        rw [get] at hc
        obtain rfl := Option.some.inj hc
        have := (continues.worksOn _ (hst ▸ single.worksOn (hst ▸ begun))).begun
        rw [this] at unbegun
        cases unbegun
      | @ends _ o _ begun _ get _ =>
        rw [get, single.plan (hst ▸ begun), Plan.finish_next] at hc
        cases hc
  · exact absurd hj (h.uninvoked reached)

theorem inTime_prompt : ∀ x, ReachedInTime wall config x → ∀ j c r operation, x.Invoked j c r →
    r.operation? = some operation →
    (∀ call, x.session.calls.get? c = some call → call.stage.begun = false →
      x.now = x.timeAt j) ∧
    ∀ g, x.Did g (.began c operation) → x.timeAt g = x.timeAt j := by
  refine inTime_induction ?_ fun x a y hx ih timely step => ?_
  · exact fun j c r operation hj => (not_invoked_start hj).elim
  · have hx := reached_of_inTime hx
    have hy := reached_take? hx step
    obtain ⟨after, hr, grows⟩ := take?_grows step
    have begins := grows.begins
    have hnow := grows.now_eq
    intro j c r operation hj ho
    rcases (invoked_snoc_iff grows.history).mp hj with hj | ⟨rfl, rfl⟩
    · obtain ⟨waits, began⟩ := ih j c r operation hj ho
      have hjtime := begins.timeAt hx hy (Nat.le_of_lt (invoked_lt hj))
      refine ⟨fun call hc unbegun => ?_, fun g hg => ?_⟩
      · rw [grows.session] at hc
        obtain ⟨old, hold, hunbegun⟩ := hr.unbegun hx hj ho hc unbegun
        have same := waits old hold hunbegun
        rw [hjtime, hnow, ← same]
        cases a with
        | pass ms =>
          -- No time passes while the call could take a turn.
          rw [begun_of_pass timely hold] at hunbegun
          cases hunbegun
        | _ => rfl
      · rw [hjtime]
        rcases grows.did_iff.mp hg with hg | ⟨rfl, hb⟩
        · rw [begins.timeAt hx hy (Nat.le_of_lt (did_lt hg)), began g hg]
        · obtain ⟨old, -, hold, hst, -⟩ := hr.began hb
          rw [begins.timeAt hx hy (Nat.le_refl _), timeAt_length]
          exact waits old hold (by rw [hst]; rfl)
    · rw [begins.timeAt hx hy (Nat.le_refl _), timeAt_length]
      refine ⟨fun _ _ _ => hnow, fun g hg => ?_⟩
      rcases grows.did_iff.mp hg with hg | ⟨-, hb⟩
      · exact absurd (did_lt hg) (Nat.lt_asymm (began_of_single hy
          ((invoked_snoc_iff grows.history).mpr (.inr ⟨rfl, rfl⟩)) ho (begins.did hg)).2)
      · obtain ⟨-, turn, -⟩ := hr.began hb
        cases turn

theorem inTime_unreturned (reached : ReachedInTime wall config x) (hj : x.Invoked j c r)
    (ho : r.operation? = some operation) (hl : operation.limit? config = some limit)
    (unreturned : x.Unreturned c) : x.now ≤ x.timeAt j + limit := by
  have hx := reached_of_inTime reached
  obtain ⟨waits, began⟩ := inTime_prompt x reached j c r operation hj ho
  obtain ⟨call, hc⟩ := reached_known x hx j c r hj unreturned
  by_cases begun : call.stage.begun
  · obtain ⟨g, operation', hg, hopen⟩ := reached_begun x hx c call hc begun
    obtain ⟨rfl, -⟩ := began_of_single hx hj ho hg
    rw [← began g hg]
    exact inTime_open x reached g c _ limit hg hopen hl
  · rw [waits call hc (by simpa using begun)]
    exact Nat.le_add_right _ _

/-- In no course on a clock that waits has the clock passed the deadline of a request for a status
or of a write that has not returned, be it a call of its own or an operation of another call. -/
theorem inTime_deadlines (reached : ReachedInTime wall config x) :
    (∀ j c frame limit, x.Invoked j c (.ask frame limit) → x.Unreturned c →
      x.now ≤ x.timeAt j + limit) ∧
    (∀ j c frame, x.Invoked j c (.send frame) → x.Unreturned c →
      x.now ≤ x.timeAt j + config.writeLimit) ∧
    ∀ g c operation limit, operation.limit? config = some limit → x.Did g (.began c operation) →
      x.Open g c → x.now ≤ x.timeAt g + limit :=
  ⟨fun _ _ _ _ hj unreturned => inTime_unreturned reached hj rfl rfl unreturned,
    fun _ _ _ hj unreturned => inTime_unreturned reached hj rfl rfl unreturned,
    fun g c operation limit hl hg hopen => inTime_open x reached g c operation limit hg hopen hl⟩

def stuck : List Action :=
  opening ++ [.invoke 1 (.ask [1] 1000), .poll 1, .poll 1, .poll 1, .invoke 2 (.send [2]), .poll 2,
    .poll 2, .pass 1000]

/-- At the deadline of the request neither call has returned. -/
theorem deadlines_while_stuck : ∃ x, ReachedInTime noon oneAttempt x ∧ x.Unreturned 1 ∧
    x.Unreturned 2 ∧ x.now = 1000 ∧ x.now ≤ x.timeAt 11 + 1000 ∧ x.now ≤ x.timeAt 15 + 5000 ∧
    x.now ≤ x.timeAt 13 + 1000 := by
  have h : ((start oneAttempt).runInTime? noon stuck).any (fun x =>
      x.Invoked 11 1 (.ask [1] 1000) ∧ x.Invoked 15 2 (.send [2]) ∧ x.Unreturned 1 ∧
      x.Unreturned 2 ∧ x.now = 1000 ∧ x.Did 13 (.began 1 (.ask [1] 1000))) = true := by
    decide +kernel
  obtain ⟨x, hx, h⟩ := (Option.any_eq_true _ _).mp h
  obtain ⟨asked, sent, first, second, now, began⟩ := of_decide_eq_true h
  obtain ⟨asks, sends, opens⟩ := inTime_deadlines ⟨stuck, hx⟩
  exact ⟨x, ⟨stuck, hx⟩, first, second, now, asks 11 1 [1] 1000 asked first,
    sends 15 2 [2] sent second, opens 13 1 _ 1000 rfl began
      (open_of_unreturned (reached_of_inTime ⟨stuck, hx⟩) asked rfl first 13)⟩

end Course

end HeaterLink
