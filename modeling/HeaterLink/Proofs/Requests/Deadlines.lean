import HeaterLink.Proofs.Requests.Tokens
import Mathlib.Algebra.Ring.Nat

/-!
# Deadlines of requests

A request that has no result yet belongs to a call at a stage with its token,
and that stage keeps the deadline: the time of the registration and the limit
that was asked for. A clock that waits never passes the deadline of a request
without a result.
-/

set_option autoImplicit false

namespace HeaterLink

def Stage.due? (st : Stage) : Option Nat := st.alarm?.map Alarm.due

theorem Stage.due?_of_write? {st : Stage} {w : Write} (h : st.write? = some w) :
    st.due? = some w.alarm.due := by
  cases st with
  | queued use =>
    cases use with
    | write w' =>
      obtain rfl := Option.some.inj h
      rfl
    | _ => cases h
  | writing w' =>
    obtain rfl := Option.some.inj h
    rfl
  | _ => cases h

inductive Stage.Results (i : Inbound) (now : Nat) (k : Token) : Stage → Outcome → Prop
  | failed {st : Stage} {w : Write} {f : Fault} : st.write? = some w → Results i now k st (.fault f)
  | late {st : Stage} {w : Write} : st.write? = some w → w.alarm.rings now →
      Results i now k st (.response (Response.fallback i.lastReading))
  | answered {a : Alarm} {r : Reading} : i.replies.get? k = some r →
      Results i now k (.awaiting k a) (.response (.fresh r))
  | silent {a : Alarm} : i.replies.get? k = none → i.pendingToken = k → a.rings now →
      Results i now k (.awaiting k a) (.response (Response.fallback i.lastReading))
  | displaced {a : Alarm} : i.replies.get? k = none → i.pendingToken ≠ k →
      Results i now k (.awaiting k a) (.response (Response.fallback i.lastReading))

namespace Act.Turn

open Session

variable {t : Turn} {s : Session} {k : Token}

inductive Asks (t : Turn) (s : Session) (k : Token) (st : Stage) (after : Session × List Effect) :
    Prop
  | goes {st' : Stage} : after.1.calls.get? t.call = some ⟨t.plan, st', none⟩ →
      st'.token? = some k → st'.due? = st.due? → after.1.inbound = s.inbound →
      (∀ o, .finished t.call o ∉ after.2) → Asks t s k st after
  | ends {o : Outcome} : st.Results s.inbound t.moment.now k o →
      (∀ o', .finished t.call o' ∈ after.2 ↔ o' = o) →
      (∀ p, after.1.inbound.pending = some p → p.token ≠ k) → Asks t s k st after

theorem finished_mem_finish {o o' : Outcome} :
    .finished t.call o' ∈ (t.finish o s).2 ↔ o' = o := by
  rw [finish_snd, List.mem_cons]
  constructor
  · rintro (e | h)
    · exact (Effect.finished.inj e).2
    · obtain ⟨o'', e⟩ := mem_follow h
      cases e
  · rintro rfl
    exact .inl rfl

theorem pending_of_withdraw {i : Inbound} {p : Pending} (h : (i.withdraw k).pending = some p) :
    p.token ≠ k := by
  simpa using (Option.filter_eq_some_iff.mp h).2

theorem asks_withdraw (s₁ : Session) (first : List Effect) {st : Stage} {o : Outcome}
    (results : st.Results s.inbound t.moment.now k o) (quiet : ∀ o', .finished t.call o' ∉ first) :
    Asks t s k st ((t.finish o { s₁ with inbound := s₁.inbound.withdraw k }).1,
      first ++ (t.finish o { s₁ with inbound := s₁.inbound.withdraw k }).2) := by
  refine .ends results (fun o' => ?_) fun p hp => ?_
  · rw [List.mem_append, finished_mem_finish]
    exact or_iff_right (quiet o')
  · rw [finish_fst, follow_fst] at hp
    exact pending_of_withdraw hp

theorem releaseLink_unfinished (s : Session) (c : CallId) (o : Outcome) :
    .finished c o ∉ (releaseLink s).2 := by
  intro h
  obtain ⟨d, e⟩ := mem_releaseLink h
  cases e

theorem written_asks {st : Stage} {w : Write} (hw : st.write? = some w) (hk : w.token = some k)
    (f : Fault) : Asks t s k st (t.written w (some f) s) := by
  simp only [written, all_cons, all_nil, releaseLink_fst, hk, withdraw_apply, List.append_nil,
    List.nil_append]
  exact asks_withdraw { s with queue := s.queue.release } _ (.failed hw)
    (releaseLink_unfinished s t.call)

/-- A turn at a stage with a request goes on with that request or has its result. -/
theorem Moves.asks {answer : Option RadioAnswer} {st : Stage} {a : Act}
    (step : Moves t s answer st a) (hk : st.token? = some k) : Asks t s k st (a s) := by
  cases step with
  | @proceeds _ use _ =>
    cases use with
    | write w =>
      have hk : w.token = some k := hk
      simp only [proceed, write, choose_apply]
      cases s.held with
      | none => exact written_asks rfl hk _
      | some held =>
        by_cases hu : held.up
        · simp only [hu, if_true]
          exact .goes (writes_get? _ _ _ _) hk rfl rfl (by simp [request, goto])
        · simp only [hu]
          exact written_asks rfl hk _
    | _ => cases hk
  | @leaves _ w _ rings =>
    have hk : w.token = some k := hk
    simp only [all_cons, all_nil, change_apply, expired, hk, withdraw_apply, fallBack, choose_apply,
      List.append_nil, List.nil_append]
    exact asks_withdraw { s with queue := s.queue.leave t.call } [] (.late rfl rings) (by simp)
  | @written w fault =>
    have hk : w.token = some k := hk
    cases fault with
    | none =>
      simp only [Turn.written, all_cons, all_nil, releaseLink_fst, hk]
      refine .goes
        ((goto_get? t (.awaiting k ⟨w.alarm.due, t.moment.order⟩) _ _).trans (if_pos rfl))
        rfl rfl rfl fun o => ?_
      simpa [goto] using releaseLink_unfinished s t.call o
    | some f => exact written_asks rfl hk f
  | @writeLate _ w rings =>
    have hk : w.token = some k := hk
    simp only [all_cons, all_nil, tell_apply, releaseLink_fst, expired, hk, withdraw_apply,
      fallBack, choose_apply, List.append_nil, List.nil_append]
    rw [← List.append_assoc]
    refine asks_withdraw { s with queue := s.queue.release } _ (.late rfl rings) fun o => ?_
    simpa using releaseLink_unfinished s t.call o
  | answered hr =>
    obtain rfl := Option.some.inj hk
    simp only [all_cons, all_nil, withdraw_apply, List.append_nil]
    exact asks_withdraw s [] (.answered hr) (by simp)
  | silent hr hp rings =>
    obtain rfl := Option.some.inj hk
    simp only [all_cons, all_nil, withdraw_apply, fallBack, choose_apply, List.append_nil]
    exact asks_withdraw s [] (.silent hr hp rings) (by simp)
  | displaced hr hp =>
    obtain rfl := Option.some.inj hk
    simp only [fallBack, choose_apply]
    refine .ends (.displaced hr hp) (fun o' => finished_mem_finish) fun p hpending => ?_
    rw [finish_fst, follow_fst] at hpending
    have hpending : s.inbound.pending = some p := hpending
    exact fun e => hp (by simp [Inbound.pendingToken, hpending, e])
  | _ => cases hk

end Act.Turn

def Entry.passed (e : Entry) : Nat :=
  match e.action with
  | .pass ms => ms
  | _ => 0

namespace Course

variable {wall : Nat → Clock} {config : Config} {x y : Course} {a : Action}
  {after : Session × List Effect} {c : CallId} {k : Token} {g n m due : Nat}

def timeAt (x : Course) (n : Nat) : Nat :=
  match x.history[n]? with
  | some entry => entry.time
  | none => x.now

@[simp]
theorem timeAt_length (x : Course) : x.timeAt x.history.length = x.now := by
  simp [timeAt]

theorem advance_now (x : Course) (a : Action) (s : Session) (effects : List Effect) :
    (x.advance a).now = x.now + Entry.passed ⟨x.now, a, s, effects⟩ := by
  cases a with
  | resolve c found => cases found <;> rfl
  | _ => rfl

theorem Grows.now_eq (h : x.Grows a after y) :
    y.now = x.now + Entry.passed ⟨x.now, a, x.session, after.2⟩ :=
  h.now.trans (advance_now x a _ _)

theorem reached_time : ∀ x, Reached wall config x → ∀ n ≤ x.history.length,
    x.timeAt n = ((x.history.take n).map Entry.passed).sum := by
  refine reached_induction ?_ fun x a y _ ih step => ?_
  · intro n hn
    obtain rfl : n = 0 := Nat.le_zero.mp hn
    rfl
  · obtain ⟨after, -, rfl⟩ := take?_reacts step
    intro n hn
    have hnow : x.now = (x.history.map Entry.passed).sum := by
      simpa using ih x.history.length (Nat.le_refl _)
    simp only [List.length_append, List.length_singleton] at hn
    rcases Nat.lt_trichotomy n x.history.length with hlt | rfl | hgt
    · have hentry := List.getElem?_eq_getElem hlt
      simpa [timeAt, List.getElem?_append_left hlt, hentry,
        List.take_append_of_le_length (Nat.le_of_lt hlt)] using ih n (Nat.le_of_lt hlt)
    · simpa [timeAt] using hnow
    · obtain rfl : n = x.history.length + 1 := by omega
      simp [timeAt, hnow, advance_now x a x.session after.2, List.take_of_length_le]

theorem timeAt_mono (reached : Reached wall config x) (hnm : n ≤ m) (hm : m ≤ x.history.length) :
    x.timeAt n ≤ x.timeAt m := by
  rw [reached_time x reached n (Nat.le_trans hnm hm), reached_time x reached m hm,
    ← List.take_append_drop n (x.history.take m), List.take_take, Nat.min_eq_left hnm]
  simp

theorem Begins.timeAt (hx : Reached wall config x) (hy : Reached wall config y) (h : x.Begins y)
    (hn : n ≤ x.history.length) : y.timeAt n = x.timeAt n := by
  obtain ⟨later, e⟩ := h.history
  rw [reached_time x hx n hn, reached_time y hy n (Nat.le_trans hn h.length_le), e,
    List.take_append_of_le_length hn]

def Open (x : Course) (g : Nat) (c : CallId) : Prop := ∀ m o, g ≤ m → ¬x.Did m (.finished c o)

structure Asked (x : Course) (g : Nat) (c : CallId) (k : Token) (due : Nat) : Prop where
  registered : x.Did g (.registered c k)
  began : ∃ frame limit, x.Did g (.began c (.ask frame limit)) ∧ due = x.timeAt g + limit

theorem Grows.open (h : x.Grows a after y) (ho : x.Open g c)
    (unfinished : ∀ o, .finished c o ∉ after.2) : y.Open g c := by
  intro m o hm hd
  rcases h.did_iff.mp hd with hd | ⟨-, hd⟩
  · exact ho m o hm hd
  · exact unfinished o hd

theorem open_length (x : Course) (c : CallId) : x.Open x.history.length c :=
  fun _ _ hm hd => Nat.not_lt_of_le hm (did_lt hd)

theorem Begins.open (h : x.Begins y) (ho : y.Open g c) : x.Open g c :=
  fun m o hm hd => ho m o hm (h.did hd)

theorem Begins.asked (hx : Reached wall config x) (hy : Reached wall config y) (h : x.Begins y)
    (hg : g < x.history.length) : y.Asked g c k due ↔ x.Asked g c k due := by
  have htime := h.timeAt hx hy (Nat.le_of_lt hg)
  constructor
  · rintro ⟨hr, frame, limit, hb, rfl⟩
    exact ⟨(h.did_iff hg).mp hr, frame, limit, (h.did_iff hg).mp hb, by rw [htime]⟩
  · rintro ⟨hr, frame, limit, hb, rfl⟩
    exact ⟨h.did hr, frame, limit, h.did hb, by rw [htime]⟩

/-- A call that registers a request queues for the link with it. -/
theorem Reacts.registers (h : x.Reacts wall a after) (hk : .registered c k ∈ after.2) :
    ∃ plan frame limit, after.1.calls.get? c =
        some ⟨plan, .queued (.write ⟨frame, (x.moment wall).alarm limit, some k⟩), none⟩ ∧
      ∀ operation, .began c operation ∈ after.2 → operation = .ask frame limit := by
  obtain ⟨rfl, rfl, -⟩ := h.registered hk
  cases h with
  | poll hp =>
    obtain ⟨⟨plan, st, answer⟩, hc, hl⟩ := Session.poll_leads hp
    cases hl with
    | opened =>
      obtain ⟨o, e⟩ := Act.Turn.mem_follow hk
      cases e
    | @begun operation =>
      cases operation with
      | ask frame limit =>
        refine ⟨_, _, _, Act.Turn.begin_get? _, fun operation hb => ?_⟩
        rcases Act.Turn.mem_begin hb with e | e | ⟨old, e⟩
        · exact (Effect.began.inj e).2
        · cases e
        · cases e
      | _ =>
        exact absurd hk
          (by simp [Act.Turn.begin, Act.Turn.prepare, Act.Turn.enqueue, Act.Turn.goto])
    | writes _ _ _ => simp [Act.Turn.request, Act.Turn.goto] at hk
    | ended hclosed =>
      rcases Act.Turn.mem_closed_about hclosed hk rfl with e | ⟨_, _, _, _, e⟩ <;> cases e

/-- A request without a result belongs to a call at a stage with its token and its deadline. -/
theorem reached_asked : ∀ x, Reached wall config x → ∀ g c k due, x.Asked g c k due →
    x.Open g c → ∃ call, x.session.calls.get? c = some call ∧ call.stage.token? = some k ∧
      call.stage.due? = some due := by
  refine reached_induction ?_ fun x a y hx ih step => ?_
  · intro g c k due hasked
    obtain ⟨entry, hg, -⟩ := hasked.registered
    simp [start] at hg
  · have hy := reached_take? hx step
    obtain ⟨after, hr, grows⟩ := take?_grows step
    have begins := grows.begins
    intro g c k due hasked hopen
    rw [grows.session]
    rcases grows.did_iff.mp hasked.registered with hreg | ⟨rfl, hreg⟩
    · have hg := did_lt hreg
      obtain ⟨call, hc, hk, hdue⟩ := ih g c k due ((begins.asked hx hy hg).mp hasked)
        (begins.open hopen)
      by_cases turn : a = .poll c
      · subst turn
        cases hr with
        | poll hp =>
          obtain ⟨old, act, hold, hm, rfl⟩ := Session.poll_moves hp
          obtain rfl := Option.some.inj (hc.symm.trans hold)
          cases hm.asks hk with
          | goes hget hk' hdue' _ _ => exact ⟨_, hget, hk', hdue'.trans hdue⟩
          | @ends o _ hfinished _ =>
            exact absurd (grows.did ((hfinished o).mpr rfl)) (hopen _ o (Nat.le_of_lt hg))
      · obtain ⟨kept, hkept, -, hstage⟩ := hr.stays (reached_numbered x hx) hc turn
        exact ⟨kept, hkept, by rw [hstage, hk], by rw [hstage, hdue]⟩
    · obtain ⟨frame, limit, hb, rfl⟩ := hasked.began
      rcases grows.did_iff.mp hb with hb | ⟨-, hb⟩
      · exact absurd (did_lt hb) (Nat.lt_irrefl _)
      · obtain ⟨plan, frame', limit', hget, hbegan⟩ := hr.registers hreg
        obtain ⟨rfl, rfl⟩ := Operation.ask.inj (hbegan _ hb)
        refine ⟨_, hget, rfl, ?_⟩
        rw [begins.timeAt hx hy (Nat.le_refl _), timeAt_length]
        rfl

theorem due_of_pass {ms : Nat} (timely : x.inTime wall (.pass ms)) {call : Call}
    (hc : x.session.calls.get? c = some call) (hdue : call.stage.due? = some due) :
    x.now + ms ≤ due := by
  simp only [inTime, Bool.and_eq_true] at timely
  have calm := List.all_eq_true.mp timely.2 (c, call) (Table.mem_of_get? hc)
  obtain ⟨alarm, ha, rfl⟩ := Option.map_eq_some_iff.mp hdue
  simpa [ha] using calm

/-- A clock that waits does not pass the deadline of a request without a result. -/
theorem inTime_asked : ∀ x, ReachedInTime wall config x → ∀ g c k due, x.Asked g c k due →
    x.Open g c → x.now ≤ due := by
  refine inTime_induction ?_ fun x a y hx ih timely step => ?_
  · exact fun _ _ _ _ _ _ => Nat.zero_le _
  · have hx := reached_of_inTime hx
    have hy := reached_take? hx step
    obtain ⟨after, hr, grows⟩ := take?_grows step
    have begins := grows.begins
    have hnow := grows.now_eq
    intro g c k due hasked hopen
    rcases grows.did_iff.mp hasked.registered with hreg | ⟨rfl, hreg⟩
    · have hasked := (begins.asked hx hy (did_lt hreg)).mp hasked
      have hopen := begins.open hopen
      cases a with
      | pass ms =>
        obtain ⟨call, hc, -, hdue⟩ := reached_asked x hx g c k due hasked hopen
        rw [hnow]
        exact due_of_pass timely hc hdue
      | _ => exact hnow ▸ ih g c k due hasked hopen
    · obtain ⟨frame, limit, -, rfl⟩ := hasked.began
      obtain ⟨rfl, -, -⟩ := hr.registered hreg
      rw [hnow, begins.timeAt hx hy (Nat.le_refl _), timeAt_length]
      exact Nat.add_le_add_left (Nat.zero_le limit) _

end Course

end HeaterLink
