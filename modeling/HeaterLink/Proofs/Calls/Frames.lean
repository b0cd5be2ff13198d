import HeaterLink.Proofs.Calls.Returns

/-!
# Frames of calls

A call that has the link hands its frame to the radio and stays at that write
until the radio is through with it or its time is over. A request goes on from
there to wait for its status only if the radio has said that the frame is
written.
-/

set_option autoImplicit false

namespace HeaterLink

namespace Act.Turn

variable {t : Turn} {s : Session} {st : Stage} {after : Session × List Effect} {call : Call}
  {answer : Option RadioAnswer} {a : Act} {w : Write}

inductive Leaves (t : Turn) (st : Stage) (effects : List Effect) : Stage → Prop
  | ready {operation : Operation} : Leaves t st effects (.ready operation)
  | queued {use : Use} : Leaves t st effects (.queued use)
  | writing {w : Write} {h : Handle} : .requested t.call (.write h w.frame) ∈ effects →
      Leaves t st effects (.writing w)
  | underway {stage : Stage} : stage.underway → Leaves t st effects stage
  | awaiting {w : Write} {k : Token} {alarm : Alarm} : st = .writing w → w.token = some k →
      Leaves t st effects (.awaiting k alarm)

theorem Leads.leaves (h : Leads t s st after) (hc : after.1.calls.get? t.call = some call) :
    Leaves t st after.2 call.stage := by
  have ready {v : Verdict} (hv : v.call? = some call) : Leaves t st after.2 call.stage := by
    obtain ⟨operation, e⟩ := stage_of_call? hv
    exact e ▸ .ready
  cases h with
  | opened =>
    rw [follow_get?, if_pos rfl] at hc
    exact ready hc
  | begun =>
    rw [begin_get?] at hc
    obtain rfl := Option.some.inj hc
    exact .queued
  | @writes w held _ _ _ =>
    rw [writes_get?] at hc
    obtain rfl := Option.some.inj hc
    exact Leaves.writing (h := held.handle) (by simp [request])
  | ended closed =>
    obtain ⟨s₁, effects, ending, -, hends, rfl⟩ := closed
    rcases ending_get? hc with ⟨stage, rfl, rfl⟩ | ⟨o, config, -, hv⟩
    · cases hends with
      | link _ he =>
        cases he with
        | goto underway => exact .underway underway
      | sent hk => exact .awaiting rfl hk
    · exact ready hv

theorem Leads.writing (h : Leads t s st after) (hc : after.1.calls.get? t.call = some call)
    (hst : call.stage = .writing w) :
    ∃ handle, .requested t.call (.write handle w.frame) ∈ after.2 := by
  have leaves := h.leaves hc
  rw [hst] at leaves
  cases leaves with
  | writing he => exact ⟨_, he⟩
  | underway underway => cases underway

/-- A call has heard all that the radio has answered once its turn is over. -/
theorem Advances.unanswered (h : Advances t s st after)
    (hc : after.1.calls.get? t.call = some call) : call.answer = none := by
  have followed {v : Verdict} (hv : v.call? = some call) : call.answer = none := by
    cases v with
    | finished o => cases hv
    | run operation plan =>
      obtain rfl := Option.some.inj hv
      rfl
  cases h with
  | opens =>
    rw [follow_get?, if_pos rfl] at hc
    exact followed hc
  | begins =>
    rw [begin_get?] at hc
    obtain rfl := Option.some.inj hc
    rfl
  | goes _ get _ _ _ =>
    rw [get] at hc
    obtain rfl := Option.some.inj hc
    rfl
  | ends _ _ get _ =>
    rw [get] at hc
    exact followed hc

theorem Advances.awaiting (h : Advances t s (.writing w) after) {k : Token} {alarm : Alarm}
    (hc : after.1.calls.get? t.call = some call) (hst : call.stage = .awaiting k alarm) :
    ∀ o, .finished t.call o ∉ after.2 := by
  cases h with
  | goes _ _ _ unfinished _ => exact unfinished
  | ends _ _ get _ =>
    rw [get] at hc
    obtain ⟨operation, e⟩ := stage_of_call? hc
    cases hst.symm.trans e

theorem Leads.awaiting (h : Leads t s st after) {k : Token} {alarm : Alarm}
    (hc : after.1.calls.get? t.call = some call) (hst : call.stage = .awaiting k alarm) :
    ∃ w, st = .writing w ∧ w.token = some k := by
  have leaves := h.leaves hc
  rw [hst] at leaves
  cases leaves with
  | underway underway => cases underway
  | awaiting hw hk => exact ⟨_, hw, hk⟩

theorem Moves.awaiting (h : Moves t s answer st a) {k : Token} {alarm : Alarm}
    (hc : (a s).1.calls.get? t.call = some call) (hst : call.stage = .awaiting k alarm) :
    ∃ w, st = .writing w ∧ w.token = some k ∧ answer = some (.finished none) := by
  obtain ⟨w, rfl, hk⟩ := (leads_of_moves h).awaiting hc hst
  have unfinished := h.advances.awaiting hc hst
  -- A write that failed, or whose time was over, would have given the operation a result.
  cases h with
  | @written _ fault =>
    cases fault with
    | none => exact ⟨w, rfl, hk, rfl⟩
    | some f =>
      refine absurd ?_ (unfinished (.fault f))
      simp [Turn.written, hk, finish_snd]
  | writeLate _ =>
    refine absurd ?_
      (unfinished (.response (Response.fallback (s.inbound.withdraw k).lastReading)))
    simp [expired, hk, fallBack, finish_snd, releaseLink_fst]

end Act.Turn

theorem Stage.WorksOn.ask_of_token {operation : Operation} {w : Write} {k : Token}
    (h : (Stage.writing w).WorksOn operation) (hk : w.token = some k) :
    ∃ limit, operation = .ask w.frame limit := by
  cases h with
  | connects e => cases e
  | disconnects e => cases e
  | sends e hn =>
    obtain rfl := Option.some.inj e
    cases hk.symm.trans hn
  | @asks _ _ _ limit e _ =>
    obtain rfl := Option.some.inj e
    exact ⟨limit, rfl⟩

namespace Course

structure Hands (x : Course) (c : CallId) (w : Write) (h m : Nat) : Prop where
  handed : ∃ handle, x.Did h (.requested c (.write handle w.frame))
  later : h < m
  since : ∀ n, h < n → n ≤ m →
    ∃ call, (x.sessionAt n).calls.get? c = some call ∧ call.stage = .writing w

structure Wrote (x : Course) (c : CallId) (frame : Bytes) (h s : Nat) : Prop where
  write : ∃ w, w.frame = frame ∧ x.Hands c w h s
  succeeded : ∃ entry, x.history[s]? = some entry ∧ entry.action = .complete c none

structure Progress (x : Course) (g : Nat) (c : CallId) (operation : Operation) (call : Call) :
    Prop where
  writing : ∀ w, call.stage = .writing w → ∃ h, g < h ∧ x.Hands c w h x.history.length
  written : ∀ w, call.stage = .writing w → call.answer = some (.finished none) →
    ∃ h s, g < h ∧ x.Wrote c w.frame h s
  awaiting : ∀ k a, call.stage = .awaiting k a →
    ∃ frame limit h s, operation = .ask frame limit ∧ g < h ∧ x.Wrote c frame h s

variable {wall : Nat → Clock} {config : Config} {x y : Course} {a : Action}
  {after : Session × List Effect} {c : CallId} {operation : Operation} {call old : Call}
  {w : Write} {frame : Bytes} {g h m n s : Nat} {o : Outcome}

theorem wrote_lt (h : x.Wrote c frame n s) : s < x.history.length := by
  obtain ⟨entry, hs, -⟩ := h.succeeded
  exact (List.getElem?_eq_some_iff.mp hs).1

theorem Begins.hands (b : x.Begins y) (hm : m ≤ x.history.length) (hands : x.Hands c w h m) :
    y.Hands c w h m where
  handed := hands.handed.imp fun _ => b.did
  later := hands.later
  since := by
    intro n hn hnm
    rw [b.sessionAt (Nat.le_trans hnm hm)]
    exact hands.since n hn hnm

theorem Begins.wrote (b : x.Begins y) (wrote : x.Wrote c frame h s) : y.Wrote c frame h s where
  write := by
    obtain ⟨w, e, hands⟩ := wrote.write
    exact ⟨w, e, b.hands (Nat.le_of_lt (wrote_lt wrote)) hands⟩
  succeeded := by
    obtain ⟨entry, hs, ha⟩ := wrote.succeeded
    obtain ⟨later, e⟩ := b.history
    exact ⟨entry, by rw [e, List.getElem?_append_left (wrote_lt wrote), hs], ha⟩

/-- What a call hears from the radio between its turns. -/
theorem Reacts.answer (hr : x.Reacts wall a after) (numbered : x.Numbered)
    (hold : x.session.calls.get? c = some old) (hc : after.1.calls.get? c = some call)
    (other : a ≠ .poll c) : call.answer = old.answer ∨
      (∃ fault, a = .complete c fault ∧ call.answer = some (.finished fault)) ∨
      ∃ found, call.answer = some (.found found) := by
  have same (e : after.1.calls.get? c = x.session.calls.get? c) : call.answer = old.answer := by
    rw [e, hold] at hc
    rw [Option.some.inj hc]
  have answered {c' : CallId} {ans : RadioAnswer} (e : after.1 = x.session.answer c' ans) :
      call.answer = old.answer ∨ c' = c ∧ call.answer = some ans := by
    rw [e, Session.answer, Table.get?_modify] at hc
    split at hc
    · rename_i hcc
      rw [hold, Option.map_some] at hc
      obtain rfl := Option.some.inj hc
      split
      · exact .inr ⟨hcc, rfl⟩
      · exact .inl rfl
    · rw [hold] at hc
      rw [Option.some.inj hc]
      exact .inl rfl
  cases hr with
  | @poll c' _ hp => exact .inl (same (Session.poll_get?_other hp fun e => other (e ▸ rfl)))
  | invoke =>
    refine .inl (same ((Table.get?_insert _ _ _ _).trans (if_neg ?_)))
    rintro rfl
    rw [numbered _ (Nat.le_refl _)] at hold
    cases hold
  | listen hl => exact .inl (same (hl.calls ▸ rfl))
  | @resolve c' _ found _ _ =>
    rcases answered rfl with e | ⟨-, e⟩
    · exact .inl e
    · exact .inr (.inr ⟨found, e⟩)
  | @complete c' _ fault _ _ =>
    rcases answered rfl with e | ⟨rfl, e⟩
    · exact .inl e
    · exact .inr (.inl ⟨fault, rfl, e⟩)
  | _ => exact .inl (same rfl)

theorem Progress.stays (hx : Reached wall config x) (hr : x.Reacts wall a after)
    (grows : x.Grows a after y) (progress : x.Progress g c operation old)
    (hold : x.session.calls.get? c = some old) (hc : y.session.calls.get? c = some call)
    (other : a ≠ .poll c) (same : call.stage = old.stage) : y.Progress g c operation call := by
  have begins := grows.begins
  have further {w : Write} (hst : call.stage = .writing w) :
      ∃ h, g < h ∧ x.Hands c w h x.history.length := progress.writing w (same ▸ hst)
  constructor
  case writing =>
    intro w hst
    obtain ⟨h, hlt, hands⟩ := further hst
    refine ⟨h, hlt, hands.handed.imp fun _ => begins.did, ?_, fun n hn hnm => ?_⟩
    · rw [grows.length]
      exact Nat.lt_succ_of_lt hands.later
    · rw [grows.length] at hnm
      rcases Nat.lt_or_eq_of_le hnm with hnm | rfl
      · rw [begins.sessionAt (Nat.le_of_lt_succ hnm)]
        exact hands.since n hn (Nat.le_of_lt_succ hnm)
      · rw [← grows.length, sessionAt_length]
        exact ⟨call, hc, hst⟩
  case written =>
    intro w hst ha
    rw [grows.session] at hc
    -- The success was known before, or it is this entry that tells of it.
    rcases hr.answer (reached_numbered x hx) hold hc other with e | ⟨fault, rfl, e⟩ | ⟨found, e⟩
    · obtain ⟨h, s, hlt, wrote⟩ := progress.written w (same ▸ hst) (e ▸ ha)
      exact ⟨h, s, hlt, begins.wrote wrote⟩
    · obtain rfl : fault = none := by simpa [ha] using e.symm
      obtain ⟨h, hlt, hands⟩ := further hst
      exact ⟨h, x.history.length, hlt, ⟨w, rfl, begins.hands (Nat.le_refl _) hands⟩,
        _, by rw [grows.history, List.getElem?_concat_length], rfl⟩
    · rw [e] at ha
      cases ha
  case awaiting =>
    intro k alarm hst
    obtain ⟨frame, limit, h, s, e, hlt, wrote⟩ := progress.awaiting k alarm (same ▸ hst)
    exact ⟨frame, limit, h, s, e, hlt, begins.wrote wrote⟩

theorem Progress.polled (hp : x.session.poll (x.moment wall) c = some after)
    (grows : x.Grows a after y) (progress : x.Progress g c operation old)
    (hold : x.session.calls.get? c = some old) (worksOn : old.stage.WorksOn operation)
    (hg : g < x.history.length) (hc : y.session.calls.get? c = some call) :
    y.Progress g c operation call := by
  obtain ⟨found, act, hfound, hm, rfl⟩ := Session.poll_moves hp
  obtain rfl := Option.some.inj (hold.symm.trans hfound)
  have hc' := hc
  rw [grows.session] at hc
  constructor
  case writing =>
    intro w hst
    obtain ⟨handle, he⟩ := (Act.Turn.leads_of_moves hm).writing hc hst
    refine ⟨x.history.length, hg, ⟨handle, grows.did he⟩, ?_, fun n hn hnm => ?_⟩
    · rw [grows.length]
      exact Nat.lt_succ_self _
    · obtain rfl : n = y.history.length := by
        have := grows.length
        omega
      rw [sessionAt_length]
      exact ⟨call, hc', hst⟩
  case written =>
    intro w _ ha
    cases (hm.advances.unanswered hc).symm.trans ha
  case awaiting =>
    intro k alarm hst
    obtain ⟨w, hw, hk, ha⟩ := hm.awaiting hc hst
    obtain ⟨h, s, hlt, wrote⟩ := progress.written w hw ha
    rw [hw] at worksOn
    obtain ⟨limit, e⟩ := worksOn.ask_of_token hk
    exact ⟨w.frame, limit, h, s, e, hlt, grows.begins.wrote wrote⟩

/-- While an operation has no result, its frame is where its call is. -/
theorem reached_progress : ∀ x, Reached wall config x → ∀ g c operation call,
    x.Did g (.began c operation) → x.Open g c → x.session.calls.get? c = some call →
    x.Progress g c operation call := by
  refine reached_induction ?_ fun x a y hx ih step => ?_
  · exact fun g c operation call hg => (not_did_start hg).elim
  · obtain ⟨after, hr, grows⟩ := take?_grows step
    intro g c operation call hg hopen hc
    rcases grows.did_iff.mp hg with hg | ⟨rfl, hb⟩
    · have hopen := grows.begins.open hopen
      obtain ⟨old, engaged⟩ := reached_engaged x hx g c operation hg hopen
      have progress := ih g c operation old hg hopen engaged.get
      by_cases turn : a = .poll c
      · subst turn
        cases hr with
        | poll hp =>
          exact progress.polled hp grows engaged.get engaged.worksOn (did_lt hg) hc
      · obtain ⟨kept, hkept, -, hstage⟩ := hr.stays (reached_numbered x hx) engaged.get turn
        rw [grows.session, hkept] at hc
        obtain rfl := Option.some.inj hc
        exact progress.stays hx hr grows engaged.get (grows.session ▸ hkept) turn hstage
    · -- An operation begins in the queue, with nothing handed over.
      obtain ⟨old, -, -, -, rfl⟩ := hr.began hb
      rw [grows.session, Act.Turn.begin_get?] at hc
      obtain rfl := Option.some.inj hc
      constructor
      · intro w hst
        cases hst
      · intro w hst
        cases hst
      · intro k alarm hst
        cases hst

end Course

end HeaterLink
