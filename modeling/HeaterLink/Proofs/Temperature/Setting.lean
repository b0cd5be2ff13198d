import HeaterLink.Proofs.Readings.Known
import HeaterLink.Proofs.Requests.Calls
import HeaterLink.Proofs.Requests.Freshness
import HeaterLink.Proofs.Temperature.Adjusting

/-!
# Setting a temperature

A call that sets a temperature hands over a turn-on frame only if some reading
that was the last known one after the call was made is on, and the degrees are
those of that reading. The hello that goes out before the frame can bring
another reading, at which nobody looks: the frame goes out to an element that is
known to be off by then.
-/

set_option autoImplicit false

namespace HeaterLink

structure Reading.Admits (r : Reading) (degrees : UInt8) : Prop where
  on : r.mode = .on
  within : r.lower ≤ r.upper → r.lower ≤ degrees.toFloat ∧ degrees.toFloat ≤ r.upper

theorem Reading.Sets.admits {r : Reading} {t : Float} {d : UInt8} (h : r.Sets t d)
    (whole : r.Whole) : r.Admits d :=
  ⟨h.on, Reading.within_of_clamp whole h.finite h.degrees⟩

theorem Command.hello_frame_ne (clock : Clock) (d : UInt8) :
    (Command.hello clock).frame ≠ (Command.turnOn d).frame := by
  simp [Command.frame, Command.arguments, Command.opcode, Clock.bytes]

theorem Command.turnOn_frame_inj {d d' : UInt8}
    (h : (Command.turnOn d).frame = (Command.turnOn d').frame) : d = d' := by
  simpa [Command.frame, Command.arguments, Command.opcode] using h

namespace Course

structure Decided (x : Course) (j m : Nat) (t : Float) (r : Reading) (degrees : UInt8) : Prop where
  later : j < m
  before : m ≤ x.history.length
  known : (x.sessionAt m).inbound.lastReading = some r
  sets : r.Sets t degrees

variable {wall : Nat → Clock} {config : Config} {x y : Course} {a : Action}
  {after : Session × List Effect} {c : CallId} {t : Float} {r : Reading} {d : UInt8} {j m : Nat}

theorem Begins.decided (b : x.Begins y) (h : x.Decided j m t r d) : y.Decided j m t r d where
  later := h.later
  before := Nat.le_trans h.before b.length_le
  known := by rw [b.sessionAt h.before, h.known]
  sets := h.sets

theorem Reacts.wrote (h : x.Reacts wall a after) {handle : Handle} {frame : Bytes}
    (hw : .requested c (.write handle frame) ∈ after.2) :
    a = .poll c ∧ ∃ call, x.session.calls.get? c = some call ∧
      call.stage.frame? = some frame := by
  cases h with
  | poll hp =>
    obtain ⟨call, hcall, hl⟩ := Session.poll_leads hp
    obtain ⟨rfl, hframe⟩ := hl.wrote hw
    exact ⟨rfl, call, hcall, hframe⟩
  | listen hl => cases (hl.mem hw).1
  | _ => cases hw

theorem heard_later (reached : Reached wall config x) {call : Call}
    (hj : x.Invoked j c (.setTemperature t)) (hc : x.session.calls.get? c = some call)
    (hears : call.stage.Hears x.session.inbound r) (sets : r.Sets t d) :
    ∃ m, x.Decided j m t r d := by
  rcases hears with hlast | ⟨k, hk, hreply⟩
  · exact ⟨x.history.length, invoked_lt hj, Nat.le_refl _, by rw [sessionAt_length, hlast], sets⟩
  · obtain ⟨g, hg, -⟩ := reached_token x reached c call k hc hk
    obtain ⟨c', g', h, e, answers⟩ := reached_replies x reached k r hreply
    obtain ⟨rfl, rfl⟩ := registered_unique reached hg answers.registered
    have hlater := registered_later reached hg hj
    have hspan := Nat.lt_of_lt_of_le answers.later answers.spans
    exact ⟨e + 1, by omega, did_lt answers.answered, answers.known, sets⟩

theorem reached_adjusts : ∀ x, Reached wall config x → ∀ j c t call,
    x.Invoked j c (.setTemperature t) → x.session.calls.get? c = some call →
    Adjusts (fun d => ∃ m r, x.Decided j m t r d) t call.plan call.stage := by
  refine reached_induction ?_ fun x a y hx ih step => ?_
  · intro j c t call hj hc
    cases hc
  · obtain ⟨after, hr, hy⟩ := take?_reacts step
    have hhist : y.history = x.history ++ [⟨x.now, a, x.session, after.2⟩] := by rw [hy]
    have begins : x.Begins y := begins_snoc hhist rfl
    have hy' : Reached wall config y := reached_take? hx step
    have kept {j : Nat} {t : Float} (d : UInt8) (h : ∃ m r, x.Decided j m t r d) :
        ∃ m r, y.Decided j m t r d := by
      obtain ⟨m, r, h⟩ := h
      exact ⟨m, r, begins.decided h⟩
    intro j c t call hj hc
    have made {old : Call} (hold : x.session.calls.get? c = some old) :
        x.Invoked j c (.setTemperature t) := begins.invoked_of_known hx hy' hj hold
    rw [hy] at hc
    rcases hr.call hc with ⟨old, hold, hplan, hstage, -⟩ | ⟨old, hold, rfl, hl⟩ | ⟨r, rfl, rfl⟩
    · rw [← hplan, ← hstage]
      exact (ih j c t old (made hold) hold).mono kept
    · have adjusts := (ih j c t old (made hold) hold).mono kept
      refine hl.adjusts adjusts (fun r d hears sets => ?_) hc
      obtain ⟨m, decided⟩ := heard_later hx (made hold) hold hears sets
      exact ⟨m, r, begins.decided decided⟩
    · have hnew : y.Invoked x.history.length c r :=
        (invoked_snoc_iff hhist).mpr (.inr ⟨rfl, rfl⟩)
      obtain ⟨rfl, rfl⟩ := invoked_unique hy' hj hnew
      exact .of_opening

/-- A frame that switches the element on goes out under a reading that was known after the call
was made, is on and admits the degrees. The reading that is known when the frame goes out
admits them exactly if the newest reading told in between, if there is one, does. -/
theorem reached_switchesOn (reached : Reached wall config x) {n : Nat} {handle : Handle}
    (asked : x.Invoked j c (.setTemperature t))
    (wrote : x.Did n (.requested c (.write handle (Command.turnOn d).frame))) :
    ∃ m r, m ≤ n ∧ x.Decided j m t r d ∧ r.Admits d ∧
      ((∃ now, (x.sessionAt n).inbound.lastReading = some now ∧ now.Admits d) ↔
        ∀ newest, (x.readingsBetween m n).getLast? = some newest → newest.Admits d) := by
  obtain ⟨entry, hn, he⟩ := wrote
  obtain ⟨y, after, hy, begins, rfl, -, hr, heffects, -⟩ := reached_entry x reached n entry hn
  obtain ⟨ha, call, hcall, hframe⟩ := hr.wrote (heffects ▸ he)
  have hj := (begins.invoked_iff (poll_later reached hn ha asked)).mp asked
  rcases (reached_adjusts y hy j c t call hj hcall).frame _ hframe with ⟨clock, e⟩ | ⟨d', h, e⟩
  · exact absurd e.symm (Command.hello_frame_ne clock d)
  · obtain rfl := Command.turnOn_frame_inj e
    obtain ⟨m, r, decided⟩ := h
    have hdecided := begins.decided decided
    have admits : r.Admits d := decided.sets.admits (reached_whole reached hdecided.known)
    refine ⟨m, r, decided.before, hdecided, admits, ?_⟩
    rw [lastReading_between reached decided.before begins.length_le, hdecided.known]
    cases (x.readingsBetween m y.history.length).getLast? with
    | none => simpa using admits
    | some newest => simp

def fifty : Float := UInt8.toFloat 50

def setting (stateCode : UInt8) : List Action :=
  let header (code : UInt8) := magic ++ 49 :: [0, code, 0, 0, 42, 60, 30, 70, 0, 0]
  let rest := List.replicate 38 0
  opening ++ [.deliver 0 (header 1), .listen 0, .deliver 0 rest, .listen 0,
    .invoke 1 (.setTemperature fifty), .poll 1, .poll 1, .poll 1, .poll 1, .poll 1,
    .complete 1 none, .poll 1, .deliver 0 (header stateCode), .listen 0, .deliver 0 rest,
    .listen 0, .poll 1, .poll 1, .poll 1]

def switchesOn (x : Course) : Bool :=
  (x.history[15]?).any (fun entry => entry.action = .invoke 1 (.setTemperature fifty)) &&
    (x.history[29]?).any fun entry =>
      entry.effects.contains (.requested 1 (.write 0 (Command.turnOn 50).frame))

theorem switchesOn_did (h : x.switchesOn) : x.Invoked 15 1 (.setTemperature fifty) ∧
    x.Did 29 (.requested 1 (.write 0 (Command.turnOn 50).frame)) := by
  obtain ⟨hasked, hwrote⟩ := Bool.and_eq_true_iff.mp h
  obtain ⟨entry, hentry, ha⟩ := (Option.any_eq_true _ _).mp hasked
  obtain ⟨entry', hentry', he⟩ := (Option.any_eq_true _ _).mp hwrote
  exact ⟨⟨entry, hentry, by simpa using ha⟩, ⟨entry', hentry', by simpa using he⟩⟩

/-- The status says that the element is still on: the reading in between admits the degrees. -/
theorem switchesOn_while_on : ∃ x m r, Reached noon oneAttempt x ∧ m ≤ 29 ∧
    x.Decided 15 m fifty r 50 ∧ r.Admits 50 ∧
      ((∃ now, (x.sessionAt 29).inbound.lastReading = some now ∧ now.Admits 50) ↔
        ∀ newest, (x.readingsBetween m 29).getLast? = some newest → newest.Admits 50) := by
  have h : ((start oneAttempt).run? noon (setting 1)).any switchesOn = true := by
    decide +kernel
  obtain ⟨x, hx, h⟩ := (Option.any_eq_true _ _).mp h
  obtain ⟨asked, wrote⟩ := switchesOn_did h
  obtain ⟨m, r, hm, decided, admits, exactly⟩ := reached_switchesOn ⟨setting 1, hx⟩ asked wrote
  exact ⟨x, m, r, ⟨setting 1, hx⟩, hm, decided, admits, exactly⟩

/-- The status says that the element is off by now, and the frame goes out all the same. -/
theorem switchesOn_while_off : ∃ x now, (start oneAttempt).run? noon (setting 0) = some x ∧
    x.Invoked 15 1 (.setTemperature fifty) ∧
    x.Did 29 (.requested 1 (.write 0 (Command.turnOn 50).frame)) ∧
    (x.sessionAt 29).inbound.lastReading = some now ∧ ¬now.Admits 50 := by
  have h : ((start oneAttempt).run? noon (setting 0)).any (fun x => x.switchesOn &&
      (x.sessionAt 29).inbound.lastReading.any fun r => r.mode = .off) = true := by
    decide +kernel
  obtain ⟨x, hx, h⟩ := (Option.any_eq_true _ _).mp h
  obtain ⟨hswitches, hoff⟩ := Bool.and_eq_true_iff.mp h
  obtain ⟨asked, wrote⟩ := switchesOn_did hswitches
  obtain ⟨now, hnow, hmode⟩ := (Option.any_eq_true _ _).mp hoff
  refine ⟨x, now, hx, asked, wrote, hnow, fun admits => ?_⟩
  rw [admits.on] at hmode
  cases hmode

end Course

end HeaterLink
