import HeaterLink.Proofs.Calls.Responses
import HeaterLink.Proofs.Readings.Decoding

/-!
# Responses without a status of their own

A request that gets no status gives the last known reading as a stale one, and
no data where nothing is known. What is known is the newest reading that was
decoded in the session, on whatever link, and nothing takes it away. So no data
means that nothing was decoded yet, and a call that returns the response of its
last request says the same.
-/

set_option autoImplicit false

namespace HeaterLink

def Report.readings (r : Report) : List Reading := r.told.filterMap Event.reading?

def Config.decoded (config : Config) (inputs : List Decoder.Input) : List Reading :=
  (config.reports inputs).flatMap Report.readings

theorem Decoder.run_known (p : Profile) (d : Decoder) (inputs : List Input) :
    (d.run p inputs).1.known =
      ((d.run p inputs).2.flatMap Report.readings).getLast?.or d.known := by
  induction inputs generalizing d with
  | nil => rfl
  | cons i rest ih =>
    have hstep : (d.step p i).1.known =
        ((d.step p i).2.toList.flatMap Report.readings).getLast?.or d.known := by
      cases i with
      | power watts => rfl
      | stream input =>
        cases input with
        | reset => rfl
        | fragment data => simp [step, knows, Report.readings]
    show ((d.step p i).1.run p rest).1.known = _
    rw [ih, hstep, run, List.flatMap_append, List.getLast?_append, Option.or_assoc]

theorem Config.decoded_prefix (config : Config) (first later : List Decoder.Input) :
    config.decoded first <+: config.decoded (first ++ later) := by
  rw [decoded, decoded, reports, reports, Decoder.run_append, List.flatMap_append]
  exact List.prefix_append _ _

theorem Response.fallback_eq_noData {last : Option Reading} :
    Response.fallback last = .noData ↔ last = none := by
  cases last <;> simp [Response.fallback]

theorem Response.fallback_eq_stale {last : Option Reading} {r : Reading} :
    Response.fallback last = .stale r ↔ last = some r := by
  cases last <;> simp [Response.fallback]

/-- A response to a request is fresh, or it is what falls back on the last reading. -/
theorem Stage.Ends.response {i : Inbound} {st : Stage} {e : Ending} {response : Response}
    (h : st.Ends i e) (ho : e.outcome? = some (.response response)) :
    (∃ r, response = .fresh r) ∨ response = Response.fallback i.lastReading := by
  cases h with
  | link _ he => cases he <;> cases ho
  | answered hr => exact .inl ⟨_, (Outcome.response.inj (Option.some.inj ho)).symm⟩
  | late _ => exact .inr (Outcome.response.inj (Option.some.inj ho)).symm
  | displaced _ _ => exact .inr (Outcome.response.inj (Option.some.inj ho)).symm
  | _ => cases ho

namespace Course

variable {wall : Nat → Clock} {config : Config} {x : Course} {c : CallId} {n m : Nat}
  {response : Response}

def decodedBefore (config : Config) (x : Course) (n : Nat) : List Reading :=
  config.decoded (intake (x.history.take n))

theorem decodedBefore_prefix (config : Config) (x : Course) (h : m ≤ n) :
    x.decodedBefore config m <+: x.decodedBefore config n := by
  obtain ⟨later, hlater⟩ : x.history.take m <+: x.history.take n :=
    List.take_prefix_take_left h
  rw [decodedBefore, decodedBefore, ← hlater, intake, intake, List.flatMap_append]
  exact config.decoded_prefix _ _

theorem lastReading_eq (hx : Reached wall config x) (hn : n ≤ x.history.length) :
    (x.sessionAt n).inbound.lastReading = (x.decodedBefore config n).getLast? := by
  obtain ⟨y, hy, begins, rfl⟩ := reached_prefix hx hn
  obtain ⟨later, hlater⟩ := begins.history
  have htake : x.history.take y.history.length = y.history := by rw [hlater, List.take_left]
  have hrun := (reached_decoder y hy).1
  have hknown := Decoder.run_known config.profile
    (Decoder.new config.profile config.ratedPower) (intake y.history)
  rw [hrun] at hknown
  rw [begins.session, decodedBefore, htake, Config.decoded, Config.reports, hrun]
  simpa [Session.decoder, Decoder.new] using hknown

theorem falls_back (hx : Reached wall config x) (hn : x.Responds n c response) :
    (∃ r, response = .fresh r) ∨
      response = Response.fallback (x.decodedBefore config n).getLast? := by
  have hn := hn.finished hx
  have hlen := did_lt hn
  obtain ⟨entry, hentry, hfinished⟩ := hn
  obtain ⟨y, after, hy, begins, rfl, -, hr, heffects, -⟩ := reached_entry x hx n entry hentry
  rw [heffects] at hfinished
  obtain ⟨call, ending, -, -, hends, ho⟩ := hr.finished hfinished
  rw [← lastReading_eq hx (Nat.le_of_lt hlen), begins.session]
  exact hends.response ho

/-- No data means that nothing was decoded so far, and a stale reading is the newest that was. Once
there is one, nobody gets no data any more. -/
theorem reached_honest (hx : Reached wall config x) :
    (∀ n c, x.Responds n c .noData → x.decodedBefore config n = []) ∧
      (∀ n c r, x.Responds n c (.stale r) → (x.decodedBefore config n).getLast? = some r) ∧
      ∀ m n c, m ≤ n → x.decodedBefore config m ≠ [] → ¬x.Responds n c .noData := by
  have silent (n : Nat) (c : CallId) (h : x.Responds n c .noData) :
      x.decodedBefore config n = [] := by
    rcases falls_back hx h with ⟨r, e⟩ | e
    · cases e
    · exact List.getLast?_eq_none_iff.mp (Response.fallback_eq_noData.mp e.symm)
  refine ⟨silent, fun n c r h => ?_, fun m n c hmn decoded h => ?_⟩
  · rcases falls_back hx h with ⟨r, e⟩ | e
    · cases e
    · exact Response.fallback_eq_stale.mp e.symm
  · have hprefix := decodedBefore_prefix config x hmn
    rw [silent n c h] at hprefix
    exact decoded (List.prefix_nil.mp hprefix)

def silence : List Action :=
  opening ++ [.invoke 1 (.ask [1] 10), .poll 1, .poll 1, .poll 1, .pass 10, .poll 1,
    .deliver 0 (magic ++ 49 :: List.replicate 48 1), .listen 0, .invoke 2 .updateStatus, .poll 2,
    .poll 2, .poll 2, .poll 2, .poll 2, .pass 5000, .poll 2]

/-- The first request finds a silent element and nothing known. A status comes that nobody waits
for, and then a call for the status gets no answer to its hello. -/
theorem honest_in_silence :
    ∃ x r, Reached noon oneAttempt x ∧
      (x.Responds 16 1 .noData ∧ x.decodedBefore oneAttempt 16 = []) ∧
      (x.Did 26 (.returned 2 (.response (.stale r))) ∧
        (x.decodedBefore oneAttempt 26).getLast? = some r) ∧
      (x.decodedBefore oneAttempt 19 ≠ [] ∧ ¬x.Responds 26 2 .noData) := by
  have h : ((start oneAttempt).run? noon silence).any (fun x =>
      decide (x.Did 16 (.finished 1 (.response .noData)) ∧ x.decodedBefore oneAttempt 19 ≠ []) &&
      (x.history[26]?).any fun entry => entry.effects.any fun e =>
        (e.returned? 2).any fun response => !response.isFresh) = true := by
    decide +kernel
  obtain ⟨x, hx, h⟩ := (Option.any_eq_true _ _).mp h
  simp only [Bool.and_eq_true, decide_eq_true_eq] at h
  obtain ⟨⟨silent, decoded⟩, hend⟩ := h
  obtain ⟨entry, hn, hend⟩ := (Option.any_eq_true _ _).mp hend
  obtain ⟨e, he, hend⟩ := List.any_eq_true.mp hend
  obtain ⟨response, hresponse, old⟩ := (Option.any_eq_true _ _).mp hend
  obtain rfl := Effect.eq_of_returned? hresponse
  obtain ⟨noData, stale, later⟩ := reached_honest ⟨silence, hx⟩
  have returned : x.Did 26 (.returned 2 (.response response)) := ⟨entry, hn, he⟩
  have heard : ¬x.Responds 26 2 .noData := later 19 26 2 (by decide) decoded
  cases response with
  | fresh r => cases old
  | noData => exact absurd (.inr returned) heard
  | stale r =>
    exact ⟨x, r, ⟨silence, hx⟩, ⟨.inl silent, noData 16 1 (.inl silent)⟩,
      ⟨returned, stale 26 2 r (.inr returned)⟩, decoded, heard⟩

end Course

end HeaterLink
