import HeaterLink.Proofs.Link.Strides

/-!
# Sequences in progress

A sequence that has begun, or has come as far as to subscribe, followed step by
step: its call strides on, the radio answers it, or something else happens that
spares it. Whatever holds of a sequence all along is shown over these steps.
Every sequence of every course is one of them, up to where the course has come
or up to the turn in which it ends.
-/

set_option autoImplicit false

namespace HeaterLink

def Finale.marks (c : CallId) : Finale → List Mark
  | .settle failure => [.did (.settled c failure)]
  | _ => []

def Finale.call? (plan : Plan) : Finale → Option Call
  | .goto st => some ⟨plan, st, none⟩
  | _ => none

structure Session.SameAs (s s' : Session) : Prop where
  state : s'.state = s.state
  held : s'.held = s.held
  listener : s'.listener = s.listener
  streams : s'.streams = s.streams
  nextStream : s'.nextStream = s.nextStream

def Session.Enters (s : Session) (c : CallId) : Prop :=
  s.Starts c ∨ ∃ call made h a, s.calls.get? c = some call ∧ call.stage = .connecting made h a ∧
    call.answer = some (.finished none)

namespace Course

def Turns (x : Course) (g : Nat) (c : CallId) (P : Session → Prop) : Prop :=
  ∃ entry, x.history[g]? = some entry ∧ entry.action = .poll c ∧ P entry.before

def Starts (x : Course) (g : Nat) (c : CallId) : Prop := x.Turns g c (·.Starts c)

def Throughout (x : Course) (g n : Nat) (P : Session → Prop) : Prop :=
  ∀ k, g < k → k < n → P (x.sessionAt k)

def FailsBefore (x : Course) (n : Nat) (c : CallId) (f : Fault) : Prop :=
  ∃ k, n = k + 1 ∧ x.Did k (.settled c (some f)) ∧ x.Did k (.returned c (.fault f))

structure Strode (wall : Nat → Clock) (x : Course) (c : CallId) (call : Call) (ms : List Mark)
    (s' : Session) (finale : Finale) (y : Course) : Prop where
  get : x.session.calls.get? c = some call
  step : x.take? wall (.poll c) = some y
  strides : Act.Turn.Strides ⟨x.moment wall, c, call.plan⟩ x.session call.stage call.answer ms s'
    finale
  comes : ∃ after, x.Grows (.poll c) after y ∧
    Act.Turn.Comes ⟨x.moment wall, c, call.plan⟩ after ms s' finale

inductive Sequence (wall : Nat → Clock) (config : Config) (g : Nat) (c : CallId) :
    Course → Option Call → Prop
  | begins {x y : Course} {call : Call} {ms : List Mark} {s' : Session} {finale : Finale} :
      Reached wall config x → x.history.length = g → x.session.Enters c →
      x.Strode wall c call ms s' finale y → Sequence wall config g c y (finale.call? call.plan)
  | goes {x y : Course} {call : Call} {ms : List Mark} {s' : Session} {finale : Finale} :
      Sequence wall config g c x (some call) → x.Strode wall c call ms s' finale y →
      Sequence wall config g c y (finale.call? call.plan)
  | hears {x y : Course} {call : Call} {a : Action} {answer : RadioAnswer} :
      Sequence wall config g c x (some call) → x.take? wall a = some y →
      x.Grows a (x.session.answer c answer, []) y → a.heard? = some (.heard c answer) →
      call.answer = none → call.stage.hears answer →
      Sequence wall config g c y (some { call with answer := some answer })
  | spares {x y : Course} {call : Call} {a : Action} {after : Session × List Effect} :
      Sequence wall config g c x (some call) → x.take? wall a = some y → x.Grows a after y →
      a.heard? = none → x.session.Spares c after → Sequence wall config g c y (some call)

variable {wall : Nat → Clock} {config : Config} {x y : Course} {a : Action} {c : CallId}
  {after : Session × List Effect} {g n : Nat} {call : Call} {ms : List Mark} {s' : Session}
  {finale : Finale} {o : Option Call} {P : Session → Prop}

theorem turns_lt (h : x.Turns g c P) : g < x.history.length := by
  obtain ⟨entry, hg, -⟩ := h
  exact (List.getElem?_eq_some_iff.mp hg).1

theorem Turns.sessionAt (h : x.Turns g c P) : P (x.sessionAt g) := by
  obtain ⟨entry, hg, -, before⟩ := h
  simpa [Course.sessionAt, hg] using before

theorem Begins.turns_iff (h : x.Begins y) (hg : g < x.history.length) :
    y.Turns g c P ↔ x.Turns g c P := by
  obtain ⟨later, hy⟩ := h.history
  simp [Turns, hy, List.getElem?_append_left hg]

theorem Grows.turns_iff (h : x.Grows a after y) : y.Turns g c P ↔
    x.Turns g c P ∨ g = x.history.length ∧ a = .poll c ∧ P x.session := by
  constructor
  · rintro ⟨entry, hg, ha, before⟩
    rw [h.history] at hg
    rcases getElem?_snoc hg with hg | ⟨rfl, rfl⟩
    · exact .inl ⟨entry, hg, ha, before⟩
    · exact .inr ⟨rfl, ha, before⟩
  · rintro (hg | ⟨rfl, ha, before⟩)
    · exact (h.begins.turns_iff (turns_lt hg)).mpr hg
    · exact ⟨_, by rw [h.history, List.getElem?_concat_length], ha, before⟩

theorem Begins.throughout (h : x.Begins y) (hn : n ≤ x.history.length + 1)
    (all : x.Throughout g n P) : y.Throughout g n P := by
  intro k hk hkn
  rw [h.sessionAt (Nat.le_of_lt_succ (Nat.lt_of_lt_of_le hkn hn))]
  exact all k hk hkn

theorem Throughout.current (h : x.Throughout g (x.history.length + 1) P)
    (hg : g < x.history.length) : P x.session :=
  sessionAt_length x ▸ h x.history.length hg (Nat.lt_succ_self _)

theorem Throughout.behind (h : x.Throughout g (x.history.length + 1) P) (begins : x.Begins y)
    (length : y.history.length = x.history.length + 1) : y.Throughout g y.history.length P :=
  length ▸ begins.throughout (Nat.le_refl _) h

theorem Throughout.snoc (h : x.Throughout g (x.history.length + 1) P) (begins : x.Begins y)
    (length : y.history.length = x.history.length + 1) (next : P y.session) :
    y.Throughout g (y.history.length + 1) P := by
  intro k hk hkn
  rcases Nat.lt_succ_iff_lt_or_eq.mp hkn with hkn | rfl
  · exact h.behind begins length k hk hkn
  · exact (sessionAt_length y).symm ▸ next

theorem Begins.failsBefore {f : Fault} (h : x.Begins y) (fails : x.FailsBefore n c f) :
    y.FailsBefore n c f := by
  obtain ⟨k, hk, settled, returned⟩ := fails
  exact ⟨k, hk, h.did settled, h.did returned⟩

section Strode

variable (h : x.Strode wall c call ms s' finale y)

include h

theorem Strode.begins : x.Begins y := by
  obtain ⟨after, grows, -⟩ := h.comes
  exact grows.begins

theorem Strode.length : y.history.length = x.history.length + 1 := by
  obtain ⟨after, grows, -⟩ := h.comes
  exact grows.length

theorem Strode.now : y.now = x.now := by
  obtain ⟨after, grows, -⟩ := h.comes
  exact grows.now

/-- What a stride adds to the log. -/
theorem Strode.log (hn : n ≤ x.history.length) : y.log n y.history.length =
    x.log n x.history.length ++ (ms ++ finale.marks c).map (x.now, ·) := by
  obtain ⟨after, grows, comes⟩ := h.comes
  rw [grows.log hn]
  cases h.strides.finale with
  | goto _ _ => simp [Action.heard?, comes.goto.2, Finale.marks]
  | settle => simp [Action.heard?, comes.settle.2.1, Finale.marks]

theorem Strode.marks (hn : n ≤ x.history.length) : y.marks n y.history.length =
    x.marks n x.history.length ++ (ms ++ finale.marks c) := by
  rw [Course.marks, h.log hn, List.map_append, List.map_map]
  simp [Course.marks, Function.comp_def]

/-- The link behind a stride is the one behind its marks. -/
theorem Strode.link : s'.SameAs y.session := by
  obtain ⟨after, grows, comes⟩ := h.comes
  rw [grows.session]
  cases h.strides.finale with
  | goto _ _ =>
    rw [comes.goto.1]
    exact ⟨rfl, rfl, rfl, rfl, rfl⟩
  | settle =>
    obtain ⟨⟨queue, calls, e⟩, -⟩ := comes.settle
    rw [e]
    exact ⟨rfl, rfl, rfl, rfl, rfl⟩

end Strode

/-- A stride that ends a sequence with a failure. -/
theorem Strode.failsBefore {f : Fault} (h : x.Strode wall c call ms s' (.settle (some f)) y) :
    y.FailsBefore y.history.length c f := by
  obtain ⟨after, grows, comes⟩ := h.comes
  obtain ⟨-, noted, -, returned⟩ := comes.settle
  have settled := mem_of_noted (noted ▸ List.mem_append_right _ (List.mem_singleton_self _))
  exact ⟨_, h.length, grows.did settled, grows.did (returned f rfl)⟩

theorem Sequence.reached (h : Sequence wall config g c y o) : Reached wall config y := by
  induction h with
  | begins hx _ _ strode => exact reached_take? hx strode.step
  | goes _ strode ih => exact reached_take? ih strode.step
  | hears _ step _ _ _ _ ih => exact reached_take? ih step
  | spares _ step _ _ _ ih => exact reached_take? ih step

theorem Sequence.lt (h : Sequence wall config g c y o) : g < y.history.length := by
  induction h with
  | begins _ hg _ strode => rw [strode.length, hg]; exact Nat.lt_succ_self g
  | goes _ strode ih => rw [strode.length]; exact Nat.lt_succ_of_lt ih
  | hears _ _ grows _ _ _ ih => rw [grows.length]; exact Nat.lt_succ_of_lt ih
  | spares _ _ grows _ _ ih => rw [grows.length]; exact Nat.lt_succ_of_lt ih

structure Connects (x : Course) (c : CallId) (call : Call) : Prop where
  get : x.session.calls.get? c = some call
  underway : call.stage.underway
  aim : call.stage.aim? = some .reconnect

theorem Strode.connects (h : x.Strode wall c call ms s' finale y) (next : Call)
    (hn : finale.call? call.plan = some next) : y.Connects c next := by
  obtain ⟨after, grows, comes⟩ := h.comes
  cases h.strides.finale with
  | goto underway aim =>
    obtain rfl := Option.some.inj hn
    refine ⟨?_, underway, aim⟩
    rw [grows.session, comes.goto.1]
    exact (Table.get?_insert _ _ _ _).trans (if_pos rfl)
  | settle => cases hn

theorem Sequence.connects (h : Sequence wall config g c y (some call)) : y.Connects c call := by
  generalize ho : some call = o at h
  induction h generalizing call with
  | begins _ _ _ strode => exact strode.connects call ho.symm
  | goes _ strode _ => exact strode.connects call ho.symm
  | hears _ _ grows _ none fit ih =>
    obtain rfl := Option.some.inj ho
    obtain ⟨hc, underway, aim⟩ := ih rfl
    have awaits : Stage.awaitsRadio _ := Stage.awaitsRadio_of_hears fit
    refine ⟨?_, underway, aim⟩
    rw [grows.session]
    exact Session.answer_get?_self hc awaits _
  | spares _ _ grows _ spares ih =>
    obtain rfl := Option.some.inj ho
    obtain ⟨hc, underway, aim⟩ := ih rfl
    exact ⟨by rw [grows.session, spares.call, hc], underway, aim⟩

theorem strode_of_poll {after : Session × List Effect} (hc : x.session.calls.get? c = some call)
    (hp : x.session.poll (x.moment wall) c = some after) (grows : x.Grows (.poll c) after y)
    (step : x.take? wall (.poll c) = some y)
    (begun : (call.stage.underway ∧ call.stage.aim? = some .reconnect) ∨ x.session.Starts c) :
    ∃ ms s' finale, x.Strode wall c call ms s' finale y := by
  obtain ⟨ms, s', finale, strides, comes⟩ := Session.poll_strides hp hc begun
  exact ⟨ms, s', finale, hc, step, strides, after, grows, comes⟩

/-- A sequence is in progress where the course has come, or has ended before. -/
theorem reached_sequence : ∀ x, Reached wall config x → ∀ g c, x.Turns g c (·.Enters c) →
    ∃ y o, Sequence wall config g c y o ∧ y.Begins x ∧ (o = none ∨ y = x) := by
  refine reached_induction ?_ fun x a y hx ih step => ?_
  · rintro g c ⟨entry, hg, -⟩
    simp [start] at hg
  · obtain ⟨after, hr, grows⟩ := take?_grows step
    intro g c hg
    rcases grows.turns_iff.mp hg with hg | ⟨rfl, rfl, enters⟩
    · obtain ⟨z, o, sequence, begins, ended⟩ := ih g c hg
      cases o with
      | none => exact ⟨z, none, sequence, begins.trans grows.begins, .inl rfl⟩
      | some call =>
        obtain rfl : z = x := ended.resolve_left (by simp)
        obtain ⟨hc, underway, aim⟩ := sequence.connects
        have current : y.Begins y := ⟨⟨[], by simp⟩, sessionAt_length y⟩
        by_cases turn : a = .poll c
        · subst turn
          cases hr with
          | poll hp =>
            obtain ⟨ms, s', finale, strode⟩ := strode_of_poll hc hp grows step
              (.inl ⟨underway, aim⟩)
            exact ⟨y, _, .goes sequence strode, current, .inr rfl⟩
        · rcases hr.underway hx hc underway turn with ⟨unheard, spares⟩ |
            ⟨answer, none, fit, heard, rfl⟩
          · exact ⟨y, _, .spares sequence step grows unheard spares, current, .inr rfl⟩
          · exact ⟨y, _, .hears sequence step grows heard none fit, current, .inr rfl⟩
    · cases hr with
      | poll hp =>
        have begun : ∃ call, x.session.calls.get? c = some call ∧
            ((call.stage.underway ∧ call.stage.aim? = some .reconnect) ∨ x.session.Starts c) := by
          rcases enters with starts | ⟨call, made, h, alarm, hc, hst, -⟩
          · obtain ⟨call, -, hc, -⟩ := starts.call
            exact ⟨call, hc, .inr starts⟩
          · exact ⟨call, hc, .inl (by rw [hst]; exact ⟨rfl, rfl⟩)⟩
        obtain ⟨call, hc, begun⟩ := begun
        obtain ⟨ms, s', finale, strode⟩ := strode_of_poll hc hp grows step begun
        exact ⟨y, _, .begins hx rfl enters strode, ⟨⟨[], by simp⟩, sessionAt_length y⟩, .inr rfl⟩

end Course

end HeaterLink
