import HeaterLink.Proofs.Calls.Limits
import HeaterLink.Proofs.Link.Budget

/-!
# Time for connecting

On a clock that waits, a connecting call that finds the link free has its
result within the time that its configuration gives to the attempts and to the
pauses between them, and the time that passes while it waits for the radio to
disconnect. That last part has no limit: a handle that failed or was lost is
released without one.
-/

set_option autoImplicit false

namespace HeaterLink

def Stage.awaitsDisconnect : Stage → Bool
  | .releasing _ => true
  | .discarding _ _ => true
  | _ => false

def Entry.disconnecting (c : CallId) (e : Entry) : Nat :=
  if (e.before.calls.get? c).any (·.stage.awaitsDisconnect) then e.passed else 0

theorem LinkQueue.holder_join {q : LinkQueue} {c : CallId} (h : q.holder = none) :
    (q.join c).holder = some c := by
  simp [join, h]

theorem Session.Shifts.holder {s s' : Session} {c c' : CallId} (shift : s.Shifts c' s')
    (hne : c' ≠ c) (h : s.queue.holder = some c) : s'.queue.holder = some c := by
  cases shift with
  | stays queue _ => rw [queue, h]
  | joins queue _ _ => simp [queue, LinkQueue.join, h]
  | leaves queue _ _ => simp [queue, LinkQueue.leave, h]
  | releases _ holder _ => exact absurd (Option.some.inj (holder.symm.trans h)) hne

namespace Course

def disconnecting (x : Course) (c : CallId) : Nat :=
  (x.history.map (Entry.disconnecting c)).sum

def connectDue (config : Config) (x : Course) (g : Nat) (c : CallId) : Nat :=
  x.timeAt g + config.connectTime 0 + x.disconnecting c

structure Connecting (config : Config) (x : Course) (g : Nat) (c : CallId) (call : Call) :
    Prop where
  get : x.session.calls.get? c = some call
  holder : x.session.queue.holder = some c
  stage : (∃ seen, call.stage = .queued (.connect seen) ∧
      x.now + config.connectTime 0 ≤ x.connectDue config g c) ∨
    call.stage.Within config x.now (x.connectDue config g c)

variable {wall : Nat → Clock} {config : Config} {x y : Course} {a : Action}
  {after : Session × List Effect} {c : CallId} {call old : Call} {j g ms : Nat}

theorem Reacts.holder (reached : Reached wall config x) (hr : x.Reacts wall a after)
    (other : a ≠ .poll c) (h : x.session.queue.holder = some c) :
    after.1.queue.holder = some c := by
  rcases hr.turn with ⟨c', rfl, hp⟩ | outside
  · obtain ⟨call, hc, lock⟩ := locks_of_poll reached hp
    exact (lock.shifts hc).holder (fun e => other (e ▸ rfl)) h
  · rw [(hr.outside outside).1, h]

theorem Grows.disconnecting (grows : x.Grows a after y) (c : CallId) :
    y.disconnecting c =
      x.disconnecting c + Entry.disconnecting c ⟨x.now, a, x.session, after.2⟩ := by
  simp [Course.disconnecting, grows.history]

theorem connectDue_grows (hx : Reached wall config x) (hy : Reached wall config y)
    (grows : x.Grows a after y) (hg : g ≤ x.history.length) :
    y.connectDue config g c = x.connectDue config g c +
      Entry.disconnecting c ⟨x.now, a, x.session, after.2⟩ := by
  rw [connectDue, connectDue, grows.begins.timeAt hx hy hg, grows.disconnecting,
    ← Nat.add_assoc]

theorem connecting_of_began (hx : Reached wall config x) (hy : Reached wall config y)
    (hr : x.Reacts wall a after) (grows : x.Grows a after y)
    (hb : .began c .connect ∈ after.2) (free : x.session.queue.holder = none) :
    ∃ call, y.Connecting config x.history.length c call := by
  obtain ⟨old, rfl, -, -, rfl⟩ := hr.began hb
  have begins := grows.begins
  have hnow := grows.now_eq
  refine ⟨⟨old.plan, .queued (.connect x.session.sequences), none⟩, ?_, ?_,
    .inl ⟨x.session.sequences, rfl, ?_⟩⟩
  · rw [grows.session]
    exact Act.Turn.begin_get? .connect
  · rw [grows.session, Act.Turn.begin_queue]
    exact LinkQueue.holder_join free
  · rw [connectDue, begins.timeAt hx hy (Nat.le_refl _), timeAt_length, hnow]
    exact Nat.le_add_right _ _

theorem Connecting.polled (hx : Reached wall config x) (hy : Reached wall config y)
    (hp : x.session.poll (x.moment wall) c = some after) (grows : x.Grows (.poll c) after y)
    (connecting : x.Connecting config g c old) (hg : g ≤ x.history.length)
    (hc : y.session.calls.get? c = some call) (begun : call.stage.begun) :
    y.Connecting config g c call := by
  have settings := (reached_setUp x hx).settings
  obtain ⟨found, act, hfound, hm, rfl⟩ := Session.poll_moves hp
  obtain rfl := Option.some.inj (connecting.get.symm.trans hfound)
  have other (operation : Operation) : call.stage ≠ .ready operation := by
    intro e
    rw [e] at begun
    cases begun
  have within : call.stage.Within config x.now (x.connectDue config g c) := by
    rw [grows.session] at hc
    generalize hst : old.stage = st at hm
    generalize old.answer = answer at hm
    rcases connecting.stage with ⟨seen, hqueued, time⟩ | within
    · rw [hst] at hqueued
      subst hqueued
      cases hm with
      | proceeds _ => exact Act.Turn.proceed_lands seen time _ settings call hc other
    · rw [hst] at within
      exact settings ▸ hm.within (settings.symm ▸ within) x.session rfl call hc other
  have holder := (reached_agrees hy).exclusive c call hc (Stage.holds_of_underway within.underway)
  refine ⟨hc, holder, .inr ?_⟩
  rw [grows.now_eq, connectDue_grows hx hy grows hg]
  exact within.mono (Nat.le_add_right _ _)

theorem Connecting.passes (hx : Reached wall config x) (hy : Reached wall config y)
    (grows : x.Grows (.pass ms) after y) (same : y.session = x.session)
    (connecting : x.Connecting config g c call) (hg : g ≤ x.history.length)
    (timely : x.inTime wall (.pass ms)) : y.Connecting config g c call := by
  have hnow : y.now = x.now + ms := grows.now_eq
  have hdue := connectDue_grows (c := c) hx hy grows hg
  have alarm {due : Nat} (h : call.stage.due? = some due) : x.now + ms ≤ due :=
    due_of_pass timely connecting.get h
  have disconnects (h : call.stage.awaitsDisconnect) :
      y.connectDue config g c = x.connectDue config g c + ms := by
    rw [hdue, Entry.disconnecting, connecting.get]
    simp [h, Entry.passed]
  have busy (h : x.busy wall) : False := calm_of_pass timely h
  refine ⟨same ▸ connecting.get, same ▸ connecting.holder, .inr ?_⟩
  -- In its queue or at a lookup the call does not wait, at an alarm the time is its own, and what
  -- passes in a disconnect moves the end with it.
  rw [hnow]
  have stage := connecting.stage
  have later : x.connectDue config g c ≤ y.connectDue config g c := hdue ▸ Nat.le_add_right _ _
  generalize hst : call.stage = st at stage alarm disconnects
  rcases stage with ⟨seen, rfl, -⟩ | within
  · exact (busy (busy_of_holder connecting.holder connecting.get hst)).elim
  · cases within with
    | releasing h =>
      refine .releasing ?_
      rw [disconnects rfl]
      omega
    | seeking _ _ =>
      refine (busy ?_).elim
      simp only [Course.busy, Bool.or_eq_true, List.any_eq_true]
      exact .inl ⟨(c, call), Table.mem_of_get? connecting.get, .inr (by simp [hst])⟩
    | connecting _ h => exact .connecting (alarm rfl) (Nat.le_trans h later)
    | discarding h =>
      refine .discarding ?_
      rw [disconnects rfl]
      omega
    | subscribing _ h => exact .subscribing (alarm rfl) (Nat.le_trans h later)
    | pausing _ h => exact .pausing (alarm rfl) (Nat.le_trans h later)

theorem Connecting.stays (hx : Reached wall config x) (hy : Reached wall config y)
    (hr : x.Reacts wall a after) (grows : x.Grows a after y)
    (connecting : x.Connecting config g c old) (hg : g ≤ x.history.length) (turn : a ≠ .poll c)
    (passes : ∀ ms, a ≠ .pass ms) : ∃ call, y.Connecting config g c call := by
  obtain ⟨kept, hkept, -, hstage⟩ := hr.stays (reached_numbered x hx) connecting.get turn
  have holder := hr.holder hx turn connecting.holder
  rw [← grows.session] at hkept holder
  have hnow : y.now = x.now := by
    rw [grows.now_eq]
    cases a with
    | pass ms => exact absurd rfl (passes ms)
    | _ => rfl
  have later : x.connectDue config g c ≤ y.connectDue config g c :=
    connectDue_grows (c := c) hx hy grows hg ▸ Nat.le_add_right _ _
  refine ⟨kept, hkept, holder, ?_⟩
  rw [hstage, hnow]
  rcases connecting.stage with ⟨seen, e, time⟩ | within
  · exact .inl ⟨seen, e, Nat.le_trans time later⟩
  · exact .inr (within.mono later)

theorem inTime_connecting : ∀ x, ReachedInTime wall config x → ∀ g c,
    x.Did g (.began c .connect) → (x.sessionAt g).queue.holder = none → x.Open g c →
    ∃ call, x.Connecting config g c call := by
  refine inTime_induction ?_ fun x a y hx ih timely step => ?_
  · exact fun g c hg => (not_did_start hg).elim
  · have hx := reached_of_inTime hx
    have hy := reached_take? hx step
    obtain ⟨after, hr, grows⟩ := take?_grows step
    have begins := grows.begins
    intro g c hg free hopen
    rcases grows.did_iff.mp hg with hg | ⟨rfl, hb⟩
    · have hlt := Nat.le_of_lt (did_lt hg)
      rw [begins.sessionAt hlt] at free
      obtain ⟨old, connecting⟩ := ih g c hg free (begins.open hopen)
      by_cases turn : a = .poll c
      · subst turn
        obtain ⟨call, engaged⟩ := reached_engaged y hy g c .connect (begins.did hg) hopen
        cases hr with
        | poll hp =>
          exact ⟨call, connecting.polled hx hy hp grows hlt engaged.get engaged.worksOn.begun⟩
      · by_cases passes : ∃ ms, a = .pass ms
        · obtain ⟨ms, rfl⟩ := passes
          cases hr with
          | pass => exact ⟨old, connecting.passes hx hy grows grows.session hlt timely⟩
        · exact connecting.stays hx hy hr grows hlt turn fun ms e => passes ⟨ms, e⟩
    · rw [begins.session] at free
      exact connecting_of_began hx hy hr grows hb free

/-- On a clock that waits, a call that connects with a free link has returned before the clock
passes the time of its attempts and pauses, and of its disconnects. -/
theorem inTime_connects (reached : ReachedInTime wall config x)
    (hj : x.Invoked j c .ensureConnected) (unreturned : x.Unreturned c)
    (free : ∀ g, x.Did g (.began c .connect) → (x.sessionAt g).queue.holder = none) :
    x.now ≤ x.timeAt j + (config.connect.attempts * config.connect.limit +
      (config.subscribe.attempts * config.subscribe.limit +
        (config.subscribe.attempts - 1) * config.retryDelay)) + x.disconnecting c := by
  have hx := reached_of_inTime reached
  obtain ⟨waits, began⟩ := inTime_prompt x reached j c _ .connect hj rfl
  obtain ⟨call, hc⟩ := reached_known x hx j c _ hj unreturned
  by_cases begun : call.stage.begun
  · obtain ⟨g, operation, hg, hopen⟩ := reached_begun x hx c call hc begun
    obtain ⟨rfl, -⟩ := began_of_single hx hj rfl hg
    obtain ⟨call', connecting⟩ := inTime_connecting x reached g c hg (free g hg) hopen
    have due : x.now ≤ x.connectDue config g c := by
      rcases connecting.stage with ⟨-, -, time⟩ | within
      · omega
      · exact within.now_le
    rwa [connectDue, began g hg] at due
  · have := waits call hc (by simpa using begun)
    omega

def twoAttempts : Config := { oneAttempt with connect := ⟨2, 100⟩, subscribe := ⟨2, 100⟩ }

def slow : List Action :=
  [.invoke 0 .ensureConnected, .poll 0, .poll 0, .poll 0, .resolve 0 (some 0), .poll 0, .pass 100,
    .poll 0, .complete 0 none, .poll 0, .resolve 0 (some 1), .poll 0, .pass 100, .complete 0 none,
    .poll 0, .pass 100, .poll 0, .pass 10, .poll 0, .pass 100]

def held : List Action :=
  [.invoke 0 .ensureConnected, .poll 0, .poll 0, .poll 0, .resolve 0 (some 0), .poll 0, .pass 100,
    .poll 0, .pass 1000]

theorem free_of_entries (h : ∀ g ∈ List.range x.history.length, x.Did g (.began c .connect) →
    (x.sessionAt g).queue.holder = none) (g : Nat) (hg : x.Did g (.began c .connect)) :
    (x.sessionAt g).queue.holder = none :=
  h g (List.mem_range.mpr (did_lt hg)) hg

/-- Two attempts to connect and two to subscribe, with a pause, can take 410 ms, and no more. -/
theorem connects_slowly : ∃ x, ReachedInTime noon twoAttempts x ∧ x.Unreturned 0 ∧ x.now = 410 ∧
    x.now ≤ x.timeAt 0 + (2 * 100 + (2 * 100 + (2 - 1) * 10)) + x.disconnecting 0 := by
  have h : ((start twoAttempts).runInTime? noon slow).any (fun x =>
      x.Invoked 0 0 .ensureConnected ∧ x.Unreturned 0 ∧ x.now = 410 ∧
      ∀ g ∈ List.range x.history.length, x.Did g (.began 0 .connect) →
        (x.sessionAt g).queue.holder = none) = true := by
    decide +kernel
  obtain ⟨x, hx, h⟩ := (Option.any_eq_true _ _).mp h
  obtain ⟨invoked, unreturned, now, free⟩ := of_decide_eq_true h
  exact ⟨x, ⟨slow, hx⟩, unreturned, now,
    inTime_connects ⟨slow, hx⟩ invoked unreturned (free_of_entries free)⟩

/-- The link was free, and the call has not returned long after its attempts are over. -/
theorem connects_while_held : ∃ x, ReachedInTime noon oneAttempt x ∧
    x.Invoked 0 0 .ensureConnected ∧ x.Unreturned 0 ∧
    (∀ g, x.Did g (.began 0 .connect) → (x.sessionAt g).queue.holder = none) ∧
    ¬x.now ≤ x.timeAt 0 + (oneAttempt.connect.attempts * oneAttempt.connect.limit +
      (oneAttempt.subscribe.attempts * oneAttempt.subscribe.limit +
        (oneAttempt.subscribe.attempts - 1) * oneAttempt.retryDelay)) := by
  have h : ((start oneAttempt).runInTime? noon held).any (fun x =>
      x.Invoked 0 0 .ensureConnected ∧ x.Unreturned 0 ∧
      (∀ g ∈ List.range x.history.length, x.Did g (.began 0 .connect) →
        (x.sessionAt g).queue.holder = none) ∧
      ¬x.now ≤ x.timeAt 0 + (oneAttempt.connect.attempts * oneAttempt.connect.limit +
        (oneAttempt.subscribe.attempts * oneAttempt.subscribe.limit +
          (oneAttempt.subscribe.attempts - 1) * oneAttempt.retryDelay))) = true := by
    decide +kernel
  obtain ⟨x, hx, h⟩ := (Option.any_eq_true _ _).mp h
  obtain ⟨invoked, unreturned, free, late⟩ := of_decide_eq_true h
  exact ⟨x, ⟨held, hx⟩, invoked, unreturned, free_of_entries free, late⟩

end Course

end HeaterLink
