import HeaterLink.Proofs.Readings.Known
import HeaterLink.Proofs.Requests.Messages

/-!
# Decoding apart from requests

A decoder is fed with the fragments, the resets and the rated power of a session
and knows nothing of its requests. What a session tells of a fragment, and the
reading that it knows from then on, is what the decoder makes of it. So two
sessions that are fed alike tell alike, whatever is asked of them in between.
-/

set_option autoImplicit false

namespace HeaterLink

def Event.reading? : Event → Option Reading
  | .reading r => some r
  | _ => none

def Effect.tiding? : Effect → Option Event
  | .emitted .connected => none
  | .emitted .disconnected => none
  | .emitted e => some e
  | _ => none

def Completion.event? (layout : StatusLayout) (watts : UInt32) : Completion → Option Event
  | .other k => some (.message k)
  | .status payload => (layout.parse watts payload).toOption.map .reading

structure Report where
  told : List Event
  known : Option Reading
  deriving DecidableEq

structure Decoder where
  reassembler : Reassembler
  watts : UInt32
  known : Option Reading

namespace Decoder

inductive Input
  | stream (input : Reassembler.Input)
  | power (watts : UInt32)
  deriving DecidableEq

def new (p : Profile) (watts : UInt32) : Decoder :=
  ⟨Reassembler.new p.lengths p.dropRepeats, watts, none⟩

def tells (p : Profile) (d : Decoder) (data : Bytes) : List Event :=
  (if p.lengths.isMalformed data then [.malformedHeader] else []) ++
    ((d.reassembler.feed data).2.bind (Completion.event? p.layout d.watts)).toList

def knows (p : Profile) (d : Decoder) (data : Bytes) : Option Reading :=
  ((d.tells p data).filterMap Event.reading?).getLast?.or d.known

def step (p : Profile) (d : Decoder) : Input → Decoder × Option Report
  | .power watts => ({ d with watts := watts }, none)
  | .stream .reset => ({ d with reassembler := d.reassembler.reset }, none)
  | .stream (.fragment data) =>
    (⟨(d.reassembler.feed data).1, d.watts, d.knows p data⟩,
      some ⟨d.tells p data, d.knows p data⟩)

def run (p : Profile) (d : Decoder) : List Input → Decoder × List Report
  | [] => (d, [])
  | i :: rest =>
    let (next, report) := d.step p i
    let (final, later) := next.run p rest
    (final, report.toList ++ later)

theorem run_append (p : Profile) (d : Decoder) (first later : List Input) :
    d.run p (first ++ later) = (((d.run p first).1.run p later).1,
      (d.run p first).2 ++ ((d.run p first).1.run p later).2) := by
  induction first generalizing d with
  | nil => rfl
  | cons i rest ih => simp only [List.cons_append, run, ih, List.append_assoc]

theorem run_resets (p : Profile) (d : Decoder) {inputs : List Reassembler.Input}
    (h : ∀ i ∈ inputs, i = .reset) :
    d.run p (inputs.map .stream) =
      ({ d with reassembler := (d.reassembler.run inputs).1 }, []) := by
  induction inputs generalizing d with
  | nil => rfl
  | cons i rest ih =>
    obtain rfl := h i (by simp)
    exact ih _ fun j hj => h j (by simp [hj])

end Decoder

def Config.reports (config : Config) (intake : List Decoder.Input) : List Report :=
  ((Decoder.new config.profile config.ratedPower).run config.profile intake).2

def Entry.intake (e : Entry) : List Decoder.Input :=
  match e.action with
  | .setRatedPower watts => [.power watts]
  | _ => e.inputs.map .stream

def Entry.tidings (e : Entry) : List Event := e.effects.filterMap Effect.tiding?

def Entry.isFed (e : Entry) : Bool := e.inputs.any fun i => i matches .fragment _

def Entry.report? (e : Entry) (known : Option Reading) : Option Report :=
  if e.isFed then some ⟨e.tidings, known⟩ else none

def intake (entries : List Entry) : List Decoder.Input := entries.flatMap Entry.intake

def tidings (entries : List Entry) : List Event := entries.flatMap Entry.tidings

def Course.reportAt? (x : Course) (n : Nat) : Option Report :=
  x.history[n]?.bind fun e => e.report? (x.sessionAt (n + 1)).inbound.lastReading

def Course.reports (x : Course) : List Report :=
  (List.range x.history.length).filterMap x.reportAt?

theorem readings_of_tidings (effects : List Effect) :
    effects.filterMap Effect.reading? =
      (effects.filterMap Effect.tiding?).filterMap Event.reading? := by
  rw [List.filterMap_filterMap]
  congr 1
  funext e
  cases e with
  | emitted event => cases event <;> rfl
  | _ => rfl

namespace Inbound

variable {layout : StatusLayout} {watts : UInt32} {i : Inbound} {data : Bytes}
  {after : Inbound × List Effect}

theorem warning_tidings (i : Inbound) (data : Bytes) :
    (i.warning data).filterMap Effect.tiding? =
      if i.reassembler.table.isMalformed data then [.malformedHeader] else [] := by
  rw [warning, Reassembler.feed_malformed]
  cases i.reassembler.table.isMalformed data <;> simp [Effect.tiding?]

theorem Takes.tidings (h : Takes layout watts i data after) :
    after.2.filterMap Effect.tiding? =
      (if i.reassembler.table.isMalformed data then [.malformedHeader] else []) ++
        ((i.reassembler.feed data).2.bind (Completion.event? layout watts)).toList := by
  rw [← warning_tidings]
  cases h with
  | short hdone => rw [hdone]; simp
  | other hdone => rw [List.filterMap_append, hdone]; rfl
  | refused hdone hparse => rw [hdone]; simp [Completion.event?, hparse, Except.toOption]
  | noted hdone hparse _ =>
    rw [List.filterMap_append, hdone]
    simp only [Option.bind_some, Completion.event?, hparse]
    rfl
  | answers hdone hparse _ _ =>
    rw [List.filterMap_append, hdone]
    simp only [Option.bind_some, Completion.event?, hparse]
    rfl

end Inbound

/-- The turn of a call tells of no fragment. -/
theorem Act.Turn.Leads.untold {t : Turn} {s : Session} {st : Stage}
    {after : Session × List Effect} (h : Leads t s st after) :
    after.2.filterMap Effect.tiding? = [] := by
  refine List.filterMap_eq_nil_iff.mpr fun e he => ?_
  cases h with
  | opened =>
    obtain ⟨o, rfl⟩ := mem_follow he
    rfl
  | begun => rcases mem_begin he with rfl | rfl | ⟨old, rfl⟩ <;> rfl
  | @writes w held _ _ _ =>
    obtain rfl : e = .requested t.call (.write held.handle w.frame) := by
      simpa [request, goto] using he
    rfl
  | ended h =>
    rcases mem_closed h he with plain | ⟨ending, o, -, -, rfl⟩ | ⟨o, rfl⟩
    · cases e with
      | emitted event => rcases plain with rfl | rfl <;> rfl
      | _ => rfl
    · rfl
    · rfl

def Session.decoder (s : Session) : Decoder where
  reassembler := s.inbound.reassembler
  watts := s.ratedPower
  known := s.inbound.lastReading

structure Entry.Decodes (p : Profile) (e : Entry) (s s' : Session) : Prop where
  run : s.decoder.run p e.intake = (s'.decoder, (e.report? s'.inbound.lastReading).toList)
  unfed : e.isFed = false → e.tidings = []

theorem Entry.Decodes.tidings {p : Profile} {e : Entry} {s s' : Session} (h : e.Decodes p s s') :
    e.tidings = (e.report? s'.inbound.lastReading).toList.flatMap Report.told := by
  cases hfed : e.isFed with
  | true => simp [Entry.report?, hfed]
  | false => simp [Entry.report?, hfed, h.unfed hfed]

theorem decodes_of_resets (p : Profile) {e : Entry} {s s' : Session}
    (intake : e.intake = e.inputs.map .stream) (resets : ∀ i ∈ e.inputs, i = .reset)
    (decoder : s'.decoder =
      { s.decoder with reassembler := (s.inbound.reassembler.run e.inputs).1 })
    (untold : e.tidings = []) : e.Decodes p s s' where
  run := by
    have hfed : e.isFed = false := by
      rw [Entry.isFed, List.any_eq_false]
      intro i hi
      rw [resets i hi]
      simp
    rw [intake, Decoder.run_resets p _ resets, decoder, Entry.report?, hfed]
    rfl
  unfed := fun _ => untold

namespace Course

variable {wall : Nat → Clock} {config : Config} {x y : Course} {a : Action}
  {after : Session × List Effect}

theorem decodes_of_take (setUp : x.session.SetUp config) (i : StreamId) (data : Bytes)
    (streams : Table StreamId Stream) :
    let taken := x.session.inbound.take x.session.config.profile.layout x.session.ratedPower data
    Entry.Decodes config.profile ⟨x.now, .listen i, x.session, .took i data :: taken.2⟩ x.session
      { x.session with inbound := taken.1, streams := streams } := by
  intro taken
  have takes := Inbound.take_takes x.session.config.profile.layout x.session.ratedPower
    x.session.inbound data
  have hinputs : (Effect.took i data :: taken.2).filterMap Effect.input? = [.fragment data] :=
    inputs_of_take _ _ _ _ _
  have hfed : Entry.isFed ⟨x.now, .listen i, x.session, .took i data :: taken.2⟩ = true := by
    rw [Entry.isFed, Entry.inputs, hinputs]
    rfl
  have htold : taken.2.filterMap Effect.tiding? =
      x.session.decoder.tells config.profile data := by
    rw [takes.tidings, setUp.table, setUp.settings]
    rfl
  have hknown : taken.1.lastReading = x.session.decoder.knows config.profile data := by
    rw [takes.lastReading, readings_of_tidings, htold]
    rfl
  refine ⟨?_, fun h => absurd (hfed.symm.trans h) (by decide)⟩
  have hintake : Entry.intake ⟨x.now, .listen i, x.session, .took i data :: taken.2⟩ =
      [.stream (.fragment data)] :=
    congrArg (List.map Decoder.Input.stream) hinputs
  have hdecoder : Session.decoder { x.session with inbound := taken.1, streams := streams } =
      ⟨(x.session.inbound.reassembler.feed data).1, x.session.ratedPower,
        x.session.decoder.knows config.profile data⟩ := by
    rw [Session.decoder, takes.fields.1, hknown]
  have hreport : Entry.report? ⟨x.now, .listen i, x.session, .took i data :: taken.2⟩
      taken.1.lastReading =
      some ⟨x.session.decoder.tells config.profile data,
        x.session.decoder.knows config.profile data⟩ := by
    rw [Entry.report?, if_pos hfed, hknown, ← htold]
    rfl
  rw [hintake, hdecoder, hreport]
  rfl

/-- A step is a run of the decoder. -/
theorem Reacts.decodes (h : x.Reacts wall a after) (setUp : x.session.SetUp config) :
    Entry.Decodes config.profile ⟨x.now, a, x.session, after.2⟩ x.session after.1 := by
  cases h with
  | @poll c _ hp =>
    obtain ⟨call, -, hl⟩ := Session.poll_leads hp
    have hreq := hl.onRequests
    refine decodes_of_resets _ rfl hreq.resets ?_ hl.untold
    simp only [Session.decoder, hreq.reassembler, hreq.ratedPower, hreq.lastReading]
    rfl
  | listen hl =>
    cases hl with
    | takes _ _ _ => exact decodes_of_take setUp _ _ _
    | wakes _ _ => exact decodes_of_resets _ rfl (by simp [Entry.inputs, Effect.input?]) rfl rfl
    | ends _ _ _ _ =>
      by_cases hd : x.session.state = .disconnected
      · rw [if_pos hd]
        exact decodes_of_resets _ rfl (by simp [Entry.inputs, Effect.input?]) rfl rfl
      · rw [if_neg hd]
        exact decodes_of_resets _ rfl (by simp [Entry.inputs, Effect.input?]) rfl rfl
    | drops _ _ => exact decodes_of_resets _ rfl (by simp [Entry.inputs, Effect.input?]) rfl rfl
  | setRatedPower => exact ⟨rfl, fun _ => rfl⟩
  | _ => exact decodes_of_resets _ rfl (by simp [Entry.inputs]) rfl rfl

theorem Grows.reports (h : x.Grows a after y) :
    y.reports = x.reports ++
      (Entry.report? ⟨x.now, a, x.session, after.2⟩ after.1.inbound.lastReading).toList := by
  have before : ∀ n ∈ List.range x.history.length, y.reportAt? n = x.reportAt? n := by
    intro n hn
    have hlt := List.mem_range.mp hn
    rw [reportAt?, reportAt?, h.begins.sessionAt hlt, h.history, List.getElem?_append_left hlt]
  have last : y.reportAt? x.history.length =
      Entry.report? ⟨x.now, a, x.session, after.2⟩ after.1.inbound.lastReading := by
    rw [reportAt?, ← h.length, sessionAt_length, h.session, h.history, List.getElem?_concat_length,
      Option.bind_some]
  rw [Course.reports, h.length, List.range_succ, List.filterMap_append,
    List.filterMap_congr before, Course.reports]
  simp only [List.filterMap_cons, List.filterMap_nil, last]
  cases Entry.report? ⟨x.now, a, x.session, after.2⟩ after.1.inbound.lastReading <;> rfl

/-- The intake of a history leads a new decoder to the one that the session has in it. -/
theorem reached_decoder : ∀ x, Reached wall config x →
    (Decoder.new config.profile config.ratedPower).run config.profile (intake x.history) =
        (x.session.decoder, x.reports) ∧
      tidings x.history = x.reports.flatMap Report.told := by
  refine reached_induction ⟨rfl, rfl⟩ fun x a y hx ih step => ?_
  obtain ⟨after, hr, grows⟩ := take?_grows step
  have decodes := hr.decodes (reached_setUp x hx)
  have hintake : intake y.history =
      intake x.history ++ Entry.intake ⟨x.now, a, x.session, after.2⟩ := grows.flatMap Entry.intake
  have htidings : tidings y.history =
      tidings x.history ++ Entry.tidings ⟨x.now, a, x.session, after.2⟩ :=
    grows.flatMap Entry.tidings
  constructor
  · rw [hintake, Decoder.run_append, ih.1, decodes.run, grows.reports, grows.session]
  · rw [htidings, grows.reports, List.flatMap_append, ih.2, decodes.tidings]

/-- What is told of the fragments, and what is known behind each of them, follows from the
fragments, the resets and the rated power. -/
theorem reached_reports (hx : Reached wall config x) :
    x.reports = config.reports (intake x.history) ∧
      tidings x.history = (config.reports (intake x.history)).flatMap Report.told ∧
      ∀ wall' config' y, Reached wall' config' y → config'.profile = config.profile →
        config'.ratedPower = config.ratedPower → intake y.history = intake x.history →
        y.reports = x.reports ∧ tidings y.history = tidings x.history ∧
          y.session.inbound.lastReading = x.session.inbound.lastReading := by
  obtain ⟨run, told⟩ := reached_decoder x hx
  refine ⟨?_, ?_, fun wall' config' y hy profile power same => ?_⟩
  · rw [Config.reports, run]
  · rw [Config.reports, run, told]
  · obtain ⟨run', told'⟩ := reached_decoder y hy
    rw [profile, power, same, run] at run'
    obtain ⟨hdecoder, hreports⟩ := Prod.mk.inj run'
    exact ⟨hreports.symm, by rw [told', told, hreports], (congrArg Decoder.known hdecoder).symm⟩

def oddStatus : List Bytes :=
  [magic ++ 49 :: List.replicate 10 1, magic ++ [9], List.replicate 33 2]

def unasked : List Action :=
  opening ++ .setRatedPower 600 :: oddStatus.flatMap fun data => [.deliver 0 data, .listen 0]

def askedTwice : List Action :=
  opening ++ [.setRatedPower 600, .invoke 1 (.ask [1] 1000), .poll 1, .poll 1, .poll 1,
    .deliver 0 (magic ++ 49 :: List.replicate 10 1), .listen 0, .complete 1 none, .poll 1,
    .invoke 2 (.ask [2] 10), .poll 2, .poll 2, .poll 2, .deliver 0 (magic ++ [9]), .listen 0,
    .poll 1, .pass 20, .poll 2, .deliver 0 (List.replicate 33 2), .listen 0]

/-- A status for another rated power comes unasked for, and it comes while a request is displaced and
another one gives up. -/
theorem reports_unasked_and_asked :
    ∃ x y, Reached noon oneAttempt x ∧ Reached noon oneAttempt y ∧
      intake y.history = intake x.history ∧ y.Did 22 (.displaced 1 1) ∧
      y.Did 28 (.finished 2 (.response .noData)) ∧
      (x.reports = oneAttempt.reports (intake x.history) ∧ x.reports.length = 3) ∧
      y.reports = x.reports ∧ tidings y.history = tidings x.history := by
  have h : ((start oneAttempt).run? noon unasked).any (fun x =>
      ((start oneAttempt).run? noon askedTwice).any fun y =>
        decide (intake y.history = intake x.history ∧ y.Did 22 (.displaced 1 1) ∧
          y.Did 28 (.finished 2 (.response .noData)) ∧ x.reports.length = 3)) = true := by
    decide +kernel
  obtain ⟨x, hx, h⟩ := (Option.any_eq_true _ _).mp h
  obtain ⟨y, hy, h⟩ := (Option.any_eq_true _ _).mp h
  obtain ⟨same, displaced, late, length⟩ := of_decide_eq_true h
  obtain ⟨projected, -, alike⟩ := reached_reports ⟨unasked, hx⟩
  obtain ⟨reports, told, -⟩ := alike noon oneAttempt y ⟨askedTwice, hy⟩ rfl rfl same
  exact ⟨x, y, ⟨unasked, hx⟩, ⟨askedTwice, hy⟩, same, displaced, late, ⟨projected, length⟩, reports,
    told⟩

end Course

end HeaterLink
