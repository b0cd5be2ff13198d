import HeaterLink.Proofs.Link.Usage
import HeaterLink.Proofs.Requests.Tokens

/-!
# Custody of handles

Along every course at most one handle is in use, and all others that were
handed out have been released. So handles are used in order, one request at a
time, and no link is left half open behind a new lookup.
-/

set_option autoImplicit false

namespace HeaterLink

theorem Stage.holds_of_awaitsRadio {st : Stage} (h : st.awaitsRadio) : st.holds := by
  cases st <;> simp_all [awaitsRadio, holds, underway]

namespace Session

variable {s : Session} {cur cur' : Current} {c : CallId} {call : Call}

theorem answer_get?_self (hc : s.calls.get? c = some call) (awaits : call.stage.awaitsRadio)
    (a : RadioAnswer) : (s.answer c a).calls.get? c = some { call with answer := some a } := by
  simp [answer, Table.get?_modify, hc, awaits]

theorem answer_get?_other {c' : CallId} (h : c' ≠ c) (a : RadioAnswer) :
    (s.answer c a).calls.get? c' = s.calls.get? c' := by
  rw [answer, Table.get?_modify, if_neg (Ne.symm h)]

theorem Uses.answer (agrees : s.Agrees) (hc : s.calls.get? c = some call)
    (awaits : call.stage.awaitsRadio) (a : RadioAnswer)
    (uses : call.stage.Uses c s (some a) cur') : (s.answer c a).Uses cur' := by
  have holds : call.stage.holds := Stage.holds_of_awaitsRadio awaits
  refine ⟨fun c' call' hc' hh => ?_, fun hn => ?_⟩
  · by_cases e : c' = c
    · subst e
      rw [answer_get?_self hc awaits] at hc'
      obtain rfl := Option.some.inj hc'
      exact Stage.Uses.congr rfl uses
    · rw [answer_get?_other e] at hc'
      exact absurd hh (agrees.alone (agrees.exclusive c call hc holds) c' call' hc' e)
  · exact absurd holds (hn c { call with answer := some a } (answer_get?_self hc awaits a))

/-- What the radio has finished is over for the handle in use. -/
theorem Stage.Uses.finished {st : Stage} (uses : st.Uses c s none cur) (awaits : st.awaitsRadio)
    (notSeeking : ∀ made, st ≠ .seeking made) (fault : Option Fault) :
    ∃ h p, cur = some (h, p) ∧
      st.Uses c s (some (.finished fault)) (some (h, p.answered c fault.isNone)) := by
  cases st with
  | releasing next =>
    obtain ⟨h, rfl⟩ := uses
    exact ⟨h, _, rfl, h, rfl⟩
  | discarding made f =>
    obtain ⟨h, rfl⟩ := uses
    exact ⟨h, _, rfl, h, rfl⟩
  | seeking made => exact absurd rfl (notSeeking made)
  | connecting made h a => exact ⟨h, _, uses, rfl⟩
  | subscribing made i a =>
    obtain ⟨h, hh, rfl⟩ := uses
    exact ⟨h, _, rfl, h, hh, rfl⟩
  | writing w =>
    obtain ⟨h, hh, rfl⟩ := uses
    exact ⟨h, _, rfl, h, hh, rfl⟩
  | _ => cases awaits

theorem Listens.quiet {i : StreamId} {after : Session × List Effect} (h : s.Listens i after) :
    after.2.filterMap Effect.signal? = [] := by
  refine List.filterMap_eq_nil_iff.mpr fun e he => ?_
  have := (h.mem he).1
  cases e <;> simp_all [Effect.ofListener, Effect.signal?]

theorem Listens.held {i : StreamId} {after : Session × List Effect} (h : s.Listens i after) :
    after.1.held = s.held := by
  cases h <;> rfl

theorem report_handle? (s : Session) (h : Handle) (up : Bool) :
    (s.report h up).handle? = s.handle? := by
  cases hs : s.held with
  | none => simp [report, handle?, hs]
  | some held => by_cases e : held.handle = h <;> simp [report, handle?, hs, e]

end Session

namespace Course

variable {wall : Nat → Clock} {config : Config} {x y : Course} {a : Action} {cur cur' : Current}

theorem unanswered?_eq_some {c : CallId} {st : Stage} (h : x.unanswered? c = some st) :
    ∃ call, x.session.calls.get? c = some call ∧ call.answer = none ∧ call.stage.awaitsRadio ∧
      call.stage = st := by
  obtain ⟨call, hc, hcall⟩ := Option.bind_eq_some_iff.mp h
  split at hcall
  · rename_i hh
    exact ⟨call, hc, hh.1, hh.2, Option.some.inj hcall⟩
  · cases hcall

structure InUse (x : Course) (cur : Current) : Prop where
  orderly : ∀ h, Orderly h x.signals .unknown
  phases : ∀ h, x.phase h = cur.phase x.nextHandle h
  uses : x.session.Uses cur
  old : ∀ h p, cur = some (h, p) → h < x.nextHandle

theorem InUse.take {last : Entry} (hx : x.InUse cur) (hy : y.history = x.history ++ [last])
    (same : y.nextHandle = x.nextHandle) (lead : cur.Leads x.nextHandle last.signals cur')
    (uses : y.session.Uses cur') : y.InUse cur' where
  orderly := by
    intro h
    have lead := lead.orderly h
    rw [← hx.phases h] at lead
    rw [signals_snoc hy, orderly_append]
    exact ⟨hx.orderly h, lead⟩
  phases := by
    intro h
    rw [phase, signals_snoc hy, phase_append, same, ← lead.phases h, ← hx.phases h]
    rfl
  uses := uses
  old := by
    intro h p e
    obtain ⟨q, e⟩ := lead.same h p e
    exact same ▸ hx.old h q e

theorem InUse.still {last : Entry} (hx : x.InUse cur) (hy : y.history = x.history ++ [last])
    (same : y.nextHandle = x.nextHandle) (quiet : last.signals = [])
    (uses : y.session.Uses cur) : y.InUse cur :=
  hx.take hy same (quiet ▸ Current.leads_nil cur) uses

/-- A lookup hands out the next handle while none is in use. -/
theorem InUse.find {last : Entry} (hx : x.InUse none) (hy : y.history = x.history ++ [last])
    (next : y.nextHandle = x.nextHandle + 1) (signals : last.signals = [.found x.nextHandle])
    (uses : y.session.Uses (some (x.nextHandle, .found))) :
    y.InUse (some (x.nextHandle, .found)) where
  orderly := by
    intro h
    rw [signals_snoc hy, orderly_append, signals]
    refine ⟨hx.orderly h, ?_, trivial⟩
    rintro rfl
    exact (hx.phases _).trans (by simp [Current.phase])
  phases := by
    intro h
    have hphase := hx.phases h
    rw [phase] at hphase
    rw [phase, signals_snoc hy, phase_append, signals, hphase, next]
    by_cases e : x.nextHandle = h
    · simp [HeaterLink.phase, Phase.next, Current.phase, e]
    · have : h < x.nextHandle + 1 ↔ h < x.nextHandle :=
        Nat.lt_succ_iff_lt_or_eq.trans (or_iff_left (Ne.symm e))
      simp [HeaterLink.phase, Phase.next, Current.phase, e, this]
  uses := uses
  old := by
    intro h p e
    obtain ⟨rfl, -⟩ := Prod.mk.inj (Option.some.inj e)
    exact next ▸ Nat.lt_succ_self _

theorem inUse_start (config : Config) : (start config).InUse none where
  orderly := fun _ => trivial
  phases := fun _ => rfl
  uses := ⟨fun c call hc => by simp [start, Session.new] at hc, fun _ => rfl⟩
  old := by simp

theorem inUse_take? (reached : Reached wall config x) (hx : x.InUse cur)
    (step : x.take? wall a = some y) : ∃ cur', y.InUse cur' := by
  obtain ⟨after, hr, rfl⟩ := take?_reacts step
  have agrees := reached_agrees reached
  cases hr with
  | invoke =>
    have unknown := reached_numbered x reached x.nextCall (Nat.le_refl _)
    refine ⟨cur, hx.still rfl rfl rfl (hx.uses.aside (c := x.nextCall) rfl ?_ ?_ ?_)⟩
    · simp [unknown]
    · intro call hcall
      rw [Session.invoke, Table.get?_insert, if_pos rfl] at hcall
      obtain rfl := Option.some.inj hcall
      simp [Stage.holds, Stage.underway]
    · intro c hne
      exact (Table.get?_insert _ _ _ _).trans (if_neg (Ne.symm hne))
  | poll hp =>
    obtain ⟨⟨plan, st, answer⟩, act, hc, hm, rfl⟩ := Session.poll_moves hp
    obtain ⟨cur', lead, uses⟩ := Act.Turn.moves_serves agrees hx.uses hx.old hc hm
    exact ⟨cur', hx.take rfl rfl lead uses⟩
  | listen hl =>
    refine ⟨cur, hx.still rfl rfl hl.quiet (hx.uses.congr hl.calls ?_)⟩
    exact congrArg (Option.map Held.handle) hl.held
  | @resolve c made found hu hf =>
    obtain ⟨call, hc, hanswer, awaits, hst⟩ := unanswered?_eq_some hu
    obtain rfl : cur = none := by
      have := hx.uses.working c call hc (Stage.holds_of_awaitsRadio awaits)
      rwa [hst, hanswer] at this
    cases found with
    | none =>
      refine ⟨none, hx.still rfl rfl rfl (Session.Uses.answer agrees hc awaits _ ?_)⟩
      rw [hst]
      rfl
    | some h =>
      obtain rfl : h = x.nextHandle := by simpa using hf
      refine ⟨_, hx.find rfl rfl rfl (Session.Uses.answer agrees hc awaits _ ?_)⟩
      rw [hst]
      rfl
  | @complete c st fault hu hst =>
    obtain ⟨call, hc, hanswer, awaits, rfl⟩ := unanswered?_eq_some hu
    have working := hx.uses.working c call hc (Stage.holds_of_awaitsRadio awaits)
    rw [hanswer] at working
    obtain ⟨h, p, rfl, uses⟩ := Session.Stage.Uses.finished working awaits hst fault
    exact ⟨_, hx.take rfl rfl (Current.leads_ended c fault.isNone)
      (Session.Uses.answer agrees hc awaits _ uses)⟩
  | deliver _ => exact ⟨cur, hx.still rfl rfl rfl (hx.uses.congr rfl rfl)⟩
  | closeStream => exact ⟨cur, hx.still rfl rfl rfl (hx.uses.congr rfl rfl)⟩
  | report =>
    exact ⟨cur, hx.still rfl rfl rfl (hx.uses.congr rfl (Session.report_handle? _ _ _))⟩
  | setRatedPower => exact ⟨cur, hx.still rfl rfl rfl (hx.uses.congr rfl rfl)⟩
  | pass => exact ⟨cur, hx.still rfl rfl rfl (hx.uses.congr rfl rfl)⟩

theorem reached_inUse : ∀ x, Reached wall config x → ∃ cur, x.InUse cur :=
  reached_induction ⟨none, inUse_start config⟩ fun _ _ _ hx ih step =>
    ih.elim fun _ h => inUse_take? hx h step

theorem InUse.eq_of_live {h : Handle} (hx : x.InUse cur) (live : (x.phase h).live) :
    ∃ p, cur = some (h, p) := by
  rw [hx.phases] at live
  cases cur with
  | none => by_cases e : h < x.nextHandle <;> simp [Current.phase, e, Phase.live] at live
  | some use =>
    obtain ⟨g, p⟩ := use
    by_cases e : g = h
    · exact ⟨p, by rw [e]⟩
    · by_cases e' : h < x.nextHandle <;> simp [Current.phase, e, e', Phase.live] at live

/-- Every handle is connected once, then serves one request at a time if that succeeded, and is
disconnected at most once, with nothing behind it. A lookup finds all handles before it
released, and at most one handle is live. -/
theorem reached_handles (reached : Reached wall config x) :
    (∀ h, Orderly h x.signals .unknown) ∧
      (∀ first later c address h, x.signals = first ++ .asked c (.find address) :: later →
        .found h ∈ first → HeaterLink.phase h first .unknown = .closed) ∧
      ∀ h h', (x.phase h).live → (x.phase h').live → h = h' := by
  obtain ⟨cur, hx⟩ := reached_inUse x reached
  refine ⟨hx.orderly, fun first later c address h signals found => ?_, fun h h' live live' => ?_⟩
  · exact closed_of_find (signals ▸ hx.orderly h) found
  · obtain ⟨p, e⟩ := hx.eq_of_live live
    obtain ⟨p', e'⟩ := hx.eq_of_live live'
    rw [e] at e'
    exact (Prod.mk.inj (Option.some.inj e')).1

def reopening : List Action :=
  opening ++ [.report 0 false, .invoke 1 .ensureConnected, .poll 1, .poll 1, .poll 1,
    .complete 1 none, .poll 1, .resolve 1 (some 1), .poll 1, .complete 1 none, .poll 1,
    .complete 1 none, .poll 1]

/-- The link is lost, and the next call releases the handle before it looks for another. -/
theorem handles_after_reopening :
    ∃ x, Reached noon oneAttempt x ∧ x.phase 0 = .closed ∧ x.phase 1 = .idle ∧
      (∀ h, Orderly h x.signals .unknown) ∧ ∀ h, (x.phase h).live → h = 1 := by
  have h : ((start oneAttempt).run? noon reopening).map (fun x => (x.phase 0, x.phase 1)) =
      some (.closed, .idle) := by
    decide +kernel
  obtain ⟨x, hx, e⟩ := Option.map_eq_some_iff.mp h
  obtain ⟨hzero, hone⟩ := Prod.mk.inj e
  have reached : Reached noon oneAttempt x := ⟨reopening, hx⟩
  obtain ⟨orderly, -, unique⟩ := reached_handles reached
  exact ⟨x, reached, hzero, hone, orderly, fun h live => unique h 1 live (by rw [hone]; rfl)⟩

end Course

end HeaterLink
