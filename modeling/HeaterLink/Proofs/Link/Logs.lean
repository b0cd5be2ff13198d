import HeaterLink.Proofs.Link.Custody
import HeaterLink.Proofs.Link.Line

/-!
# The log of the link

What is asked of the radio, what a call hears from it, and what is done about
the link, in the order and at the times at which it happened: the log between
two entries of a history. While a call changes the link nobody else does
anything that the log would note, and nothing that the call goes by changes but
whether the radio reports the link as up.
-/

set_option autoImplicit false

namespace HeaterLink

inductive Mark
  | heard (call : CallId) (answer : RadioAnswer)
  | did (effect : Effect)
  deriving DecidableEq

def Effect.logged : Effect → Bool
  | .requested _ _ => true
  | .abandoned _ => true
  | .entered _ => true
  | .emitted _ => true
  | .started _ => true
  | .cancelled _ => true
  | .settled _ _ => true
  | _ => false

def Action.heard? : Action → Option Mark
  | .resolve c found => some (.heard c (.found found))
  | .complete c fault => some (.heard c (.finished fault))
  | _ => none

def noted (effects : List Effect) : List Mark := (effects.filter Effect.logged).map .did

def Entry.marks (e : Entry) : List Mark := e.action.heard?.toList ++ noted e.effects

def Stage.hears : Stage → RadioAnswer → Bool
  | .seeking _, .found _ => true
  | .seeking _, .finished _ => false
  | _, .found _ => false
  | st, .finished _ => st.awaitsRadio

theorem Stage.awaitsRadio_of_hears {st : Stage} {answer : RadioAnswer} (h : st.hears answer) :
    st.awaitsRadio := by
  cases st <;> cases answer <;> simp_all [hears, awaitsRadio]

@[simp]
theorem noted_nil : noted [] = [] := rfl

@[simp]
theorem noted_cons (e : Effect) (later : List Effect) :
    noted (e :: later) = if e.logged then .did e :: noted later else noted later := by
  by_cases h : e.logged <;> simp [noted, h]

@[simp]
theorem noted_append (first later : List Effect) :
    noted (first ++ later) = noted first ++ noted later := by
  simp [noted]

theorem noted_eq_nil {effects : List Effect} (h : ∀ e ∈ effects, e.logged = false) :
    noted effects = [] := by
  simpa [noted] using h

theorem mem_of_noted {effects : List Effect} {e : Effect} (h : .did e ∈ noted effects) :
    e ∈ effects := by
  obtain ⟨e', he, same⟩ := List.mem_map.mp h
  obtain rfl := Mark.did.inj same
  exact List.mem_of_mem_filter he

namespace Course

def log (x : Course) (n m : Nat) : List (Nat × Mark) :=
  ((x.history.take m).drop n).flatMap fun e => e.marks.map (e.time, ·)

def marks (x : Course) (n m : Nat) : List Mark := (x.log n m).map Prod.snd

section Log

variable {x y : Course} {a : Action} {after : Session × List Effect} {n m k : Nat}

theorem log_self (x : Course) (n : Nat) : x.log n n = [] := by
  rw [log, List.drop_eq_nil_of_le (List.length_take_le _ _), List.flatMap_nil]

theorem marks_self (x : Course) (n : Nat) : x.marks n n = [] := by
  rw [marks, log_self, List.map_nil]

theorem Begins.log (h : x.Begins y) (hm : m ≤ x.history.length) : y.log n m = x.log n m := by
  obtain ⟨later, hy⟩ := h.history
  rw [Course.log, Course.log, hy, List.take_append_of_le_length hm]

theorem Begins.marks (h : x.Begins y) (hm : m ≤ x.history.length) : y.marks n m = x.marks n m := by
  rw [Course.marks, h.log hm, Course.marks]

theorem log_append (x : Course) (hnm : n ≤ m) (hmk : m ≤ k) :
    x.log n k = x.log n m ++ x.log m k := by
  have split : (x.history.take k).drop n =
      (x.history.take m).drop n ++ (x.history.take k).drop m := by
    rw [← List.take_append_drop (m - n) ((x.history.take k).drop n), List.drop_drop,
      Nat.add_sub_cancel' hnm, List.take_drop, Nat.add_sub_cancel' hnm, List.take_take,
      Nat.min_eq_left hmk]
  rw [log, split, List.flatMap_append, log, log]

theorem Grows.log (h : x.Grows a after y) (hn : n ≤ x.history.length) :
    y.log n y.history.length = x.log n x.history.length ++
      (a.heard?.toList ++ noted after.2).map (x.now, ·) := by
  have last : y.log x.history.length y.history.length =
      (a.heard?.toList ++ noted after.2).map (x.now, ·) := by
    rw [Course.log, List.take_length, h.history, List.drop_left]
    simp [Entry.marks]
  rw [log_append y hn h.begins.length_le, last, h.begins.log (Nat.le_refl _)]

/-- An answer of the radio is all that an entry adds to the log. -/
theorem Grows.log_of_heard {s' : Session} {mark : Mark} (h : x.Grows a (s', []) y)
    (hn : n ≤ x.history.length) (heard : a.heard? = some mark) :
    y.log n y.history.length = x.log n x.history.length ++ [(x.now, mark)] := by
  rw [h.log hn, heard]
  rfl

theorem Grows.marks_of_heard {s' : Session} {mark : Mark} (h : x.Grows a (s', []) y)
    (hn : n ≤ x.history.length) (heard : a.heard? = some mark) :
    y.marks n y.history.length = x.marks n x.history.length ++ [mark] := by
  rw [Course.marks, h.log_of_heard hn heard, List.map_append]
  rfl

theorem Grows.log_of_unnoted (h : x.Grows a after y) (hn : n ≤ x.history.length)
    (unheard : a.heard? = none) (unnoted : noted after.2 = []) :
    y.log n y.history.length = x.log n x.history.length := by
  rw [h.log hn, unheard, unnoted]
  exact List.append_nil _

theorem Grows.marks_of_unnoted (h : x.Grows a after y) (hn : n ≤ x.history.length)
    (unheard : a.heard? = none) (unnoted : noted after.2 = []) :
    y.marks n y.history.length = x.marks n x.history.length := by
  rw [Course.marks, h.log_of_unnoted hn unheard unnoted, Course.marks]

end Log

end Course

namespace Act.Turn

open Session

variable {t : Turn} {s : Session} {st : Stage} {answer : Option RadioAnswer} {a : Act} {e : Effect}

theorem unlogged_of_finish {o : Outcome} (he : e ∈ (t.finish o s).2) : e.logged = false := by
  have he : e ∈ ((Ending.finish o).act t s).2 := he
  rcases mem_ending he with ⟨o', -, rfl⟩ | ⟨o', rfl⟩ <;> rfl

/-- The log notes nothing of a call that neither has the link nor takes it. -/
theorem Moves.unlogged (step : Moves t s answer st a) (idle : ¬st.holds)
    (waits : ∀ use, st = .queued use → s.queue.holder ≠ some t.call) (he : e ∈ (a s).2) :
    e.logged = false := by
  cases step with
  | opens =>
    obtain ⟨o, rfl⟩ := mem_follow he
    rfl
  | begins => rcases mem_begin he with rfl | rfl | ⟨old, rfl⟩ <;> rfl
  | proceeds holder => exact absurd holder (waits _ rfl)
  | @leaves _ w _ _ =>
    simp only [all_cons, all_nil, change_apply, List.nil_append, List.append_nil] at he
    unfold expired at he
    cases hk : w.token with
    | none =>
      rw [hk] at he
      exact unlogged_of_finish he
    | some k =>
      simp only [hk, all_cons, all_nil, withdraw_apply, List.nil_append, List.append_nil] at he
      exact unlogged_of_finish he
  | answered _ =>
    simp only [all_cons, all_nil, withdraw_apply, List.nil_append, List.append_nil] at he
    exact unlogged_of_finish he
  | silent _ _ _ =>
    simp only [all_cons, all_nil, withdraw_apply, List.nil_append, List.append_nil] at he
    exact unlogged_of_finish he
  | displaced _ _ => exact unlogged_of_finish he
  | _ => exact absurd rfl idle

end Act.Turn

namespace Session

structure Spares (s : Session) (c : CallId) (after : Session × List Effect) : Prop where
  call : after.1.calls.get? c = s.calls.get? c
  state : after.1.state = s.state
  handle : after.1.handle? = s.handle?
  nextStream : after.1.nextStream = s.nextStream
  unnoted : noted after.2 = []

end Session

namespace Course

variable {wall : Nat → Clock} {config : Config} {x : Course} {a : Action} {c : CallId} {call : Call}
  {after : Session × List Effect}

/-- What is not the turn of a call leaves a link on which nobody listens as it is, and the log
notes nothing of what is done. -/
theorem Reacts.sameLink (h : x.Reacts wall a after) (other : ∀ c, a ≠ .poll c)
    (silent : ∀ i, x.session.runs i = false) : Session.SameLink x.session after.1 ∧
      after.1.handle? = x.session.handle? ∧ ∀ e ∈ after.2, e.logged = false := by
  have still {s' : Session} (link : Session.SameLink x.session s')
      (handle : s'.handle? = x.session.handle?) : Session.SameLink x.session s' ∧
        s'.handle? = x.session.handle? ∧ ∀ e ∈ ([] : List Effect), e.logged = false :=
    ⟨link, handle, by simp⟩
  cases h with
  | @poll c _ _ => exact absurd rfl (other c)
  | @listen i _ hl =>
    obtain ⟨rfl, link⟩ := hl.of_silent (silent i)
    refine ⟨link, rfl, fun e he => ?_⟩
    obtain rfl := List.mem_singleton.mp he
    rfl
  | deliver _ => exact still (Session.sameLink_modify _ _ fun _ => rfl) rfl
  | closeStream => exact still (Session.sameLink_modify _ _ fun _ => rfl) rfl
  | report =>
    refine still ⟨rfl, ?_, rfl, fun _ => rfl, fun _ e => e⟩ (Session.report_handle? _ _ _)
    simp [Session.report]
  | _ => exact still (Session.sameLink_of_eq rfl rfl rfl rfl) rfl

/-- What happens while a call changes the link spares that call, is the answer of the radio to it,
or is its turn. -/
theorem Reacts.underway (reached : Reached wall config x) (h : x.Reacts wall a after)
    (hc : x.session.calls.get? c = some call) (hu : call.stage.underway) (turn : a ≠ .poll c) :
    (a.heard? = none ∧ x.session.Spares c after) ∨
      ∃ answer, call.answer = none ∧ call.stage.hears answer ∧ a.heard? = some (.heard c answer) ∧
        after = (x.session.answer c answer, []) := by
  have agrees := reached_agrees reached
  have holder := agrees.exclusive c call hc (Stage.holds_of_underway hu)
  have still {s' : Session} (calls : s'.calls.get? c = x.session.calls.get? c)
      (state : s'.state = x.session.state) (handle : s'.handle? = x.session.handle?)
      (nextStream : s'.nextStream = x.session.nextStream) : x.session.Spares c (s', []) :=
    ⟨calls, state, handle, nextStream, rfl⟩
  -- Only the call itself has the link, so only it can be answered.
  have answered {c' : CallId} {st : Stage} (hun : x.unanswered? c' = some st) :
      c' = c ∧ call.answer = none ∧ call.stage = st ∧ st.awaitsRadio := by
    obtain ⟨call', hc', none, awaits, hst⟩ := unanswered?_eq_some hun
    have holder' := agrees.exclusive c' call' hc' (Stage.holds_of_awaitsRadio awaits)
    obtain rfl := Option.some.inj (holder.symm.trans holder')
    obtain rfl := Option.some.inj (hc.symm.trans hc')
    exact ⟨rfl, none, hst, hst ▸ awaits⟩
  cases h with
  | @invoke r =>
    refine .inl ⟨rfl, still ((Table.get?_insert _ _ _ _).trans (if_neg ?_)) rfl rfl rfl⟩
    rintro rfl
    rw [reached_numbered x reached _ (Nat.le_refl _)] at hc
    cases hc
  | @poll c' _ hp =>
    have hne : c ≠ c' := fun e => turn (e ▸ rfl)
    obtain ⟨call', act, hc', hm, rfl⟩ := Session.poll_moves hp
    have waits : x.session.queue.holder ≠ some c' := by simpa [holder] using hne
    have idle : ¬call'.stage.holds := fun hh => waits (agrees.exclusive c' call' hc' hh)
    obtain ⟨nextToken, queue, inbound, calls, e⟩ := hm.aside idle fun _ _ => waits
    refine .inl ⟨rfl, Session.poll_get?_other hp hne, ?_, ?_, ?_, ?_⟩
    · rw [e]
    · rw [e, Session.handle?, Session.handle?]
    · rw [e]
    · exact noted_eq_nil fun _ he => hm.unlogged idle (fun _ _ => waits) he
  | @listen i _ hl =>
    obtain ⟨rfl, -⟩ := hl.of_silent ((agrees.fits c call hc).silent hu i)
    exact .inl ⟨rfl, ⟨rfl, rfl, rfl, rfl, rfl⟩⟩
  | resolve hun _ =>
    obtain ⟨rfl, none, hst, -⟩ := answered hun
    exact .inr ⟨_, none, by rw [hst]; rfl, rfl, rfl⟩
  | complete hun other =>
    obtain ⟨rfl, none, hst, awaits⟩ := answered hun
    refine .inr ⟨_, none, ?_, rfl, rfl⟩
    rw [hst]
    generalize call.stage = st' at hst
    subst hst
    cases st' with
    | seeking made => exact absurd rfl (other made)
    | _ => exact awaits
  | deliver _ => exact .inl ⟨rfl, still rfl rfl rfl rfl⟩
  | closeStream => exact .inl ⟨rfl, still rfl rfl rfl rfl⟩
  | report => exact .inl ⟨rfl, still rfl rfl (Session.report_handle? _ _ _) rfl⟩
  | setRatedPower => exact .inl ⟨rfl, still rfl rfl rfl rfl⟩
  | pass => exact .inl ⟨rfl, still rfl rfl rfl rfl⟩

end Course

end HeaterLink
