import HeaterLink.Proofs.Link.Sequences

/-!
# Inherited failures

When a sequence fails, every call that waits for the link to connect it takes
over the failure in its turn, unless a disconnect has the link before. Those
ahead of it do the same, write or disconnect, and nobody gets ahead of it.
-/

set_option autoImplicit false

namespace HeaterLink

def Stage.Yields (sequences limit : Nat) : Stage → Prop
  | .queued (.connect seen) => seen < sequences
  | .queued (.write w) => w.alarm.due ≤ limit
  | .queued .disconnect => True
  | .writing w => w.alarm.due ≤ limit
  | _ => False

namespace Session

structure Inherits (s : Session) (c : CallId) (f : Fault) (limit : Nat) : Prop where
  waits : ∃ call seen, s.calls.get? c = some call ∧ call.stage = .queued (.connect seen) ∧
    seen < s.sequences
  failure : s.lastFailure = some f
  yields : ∀ d ∈ s.queue.ahead c, ∃ call, s.calls.get? d = some call ∧
    call.stage.Yields s.sequences limit

def WritesWithin (s : Session) (c : CallId) (limit : Nat) : Prop :=
  ∀ d ∈ s.queue.ahead c, ∀ call w, s.calls.get? d = some call → call.stage = .queued (.write w) →
    w.alarm.due ≤ limit

end Session

namespace Act.Turn

open Session

variable {t : Turn} {s : Session} {st : Stage} {after : Session × List Effect} {f : Fault}

theorem Moves.shares {answer : Option RadioAnswer} {a : Act} {seen : Nat}
    (step : Moves t s answer (.queued (.connect seen)) a) (hf : s.lastFailure = some f)
    (hs : s.sequences ≠ seen) :
    s.queue.holder = some t.call ∧ a s = all [releaseLink, t.finish (.fault f)] s := by
  cases step with
  | proceeds holder => exact ⟨holder, by simp [proceed, hf, hs]⟩

theorem mem_share {e : Effect} : e ∈ (all [releaseLink, t.finish (.fault f)] s).2 ↔
    e ∈ (releaseLink s).2 ∨ e = .finished t.call (.fault f) ∨ e = .returned t.call (.fault f) := by
  simp [finish_snd, Plan.next, follow]

theorem unrequested_of_share {c : CallId} {r : RadioRequest} :
    .requested c r ∉ (all [releaseLink, t.finish (.fault f)] s).2 := by
  rw [mem_share]
  rintro (h | h | h)
  · obtain ⟨d, e⟩ := mem_releaseLink h
    cases e
  · cases h
  · cases h

/-- What a call that waits to write or writes leaves as it is; while it is in line, it writes. -/
theorem Locks.write {w : Write} (lock : Locks t s st after) (hw : st.write? = some w) :
    after.1.lastFailure = s.lastFailure ∧ after.1.sequences = s.sequences ∧
      (after.1.InLine t.call →
        after.1.calls.get? t.call = some ⟨t.plan, .writing w, none⟩) := by
  have apart {queue : LinkQueue} {after : Session × List Effect} (h : Apart t s queue after) :
      after.1.lastFailure = s.lastFailure ∧ after.1.sequences = s.sequences ∧
        (after.1.InLine t.call →
          after.1.calls.get? t.call = some ⟨t.plan, .writing w, none⟩) :=
    ⟨h.lastFailure, h.sequences, fun hl => absurd hl h.gone⟩
  have aimless {next : Release} (aim : st.aim? = some next) : False := by
    rw [Stage.write?_of_aim? aim] at hw
    cases hw
  cases lock with
  | aside _ h => exact apart h
  | leaves _ h => exact apart h
  | frees _ _ h => exact apart h
  | hands _ =>
    obtain rfl := Option.some.inj hw
    exact ⟨rfl, rfl, fun _ => writes_get? t _ _ s⟩
  | goes aim _ _ => exact (aimless aim).elim
  | settles aim _ _ => exact (aimless aim).elim
  | rests aim _ _ => exact (aimless aim).elim
  | _ => cases hw

theorem Locks.away (lock : Locks t s st after) (away : s.queue.holder ≠ some t.call) :
    after.1.lastFailure = s.lastFailure ∧ after.1.sequences = s.sequences := by
  cases lock with
  | aside _ h => exact ⟨h.lastFailure, h.sequences⟩
  | @joins operation => cases operation <;> exact ⟨rfl, rfl⟩
  | leaves _ h => exact ⟨h.lastFailure, h.sequences⟩
  | hands hh => exact absurd hh away
  | frees _ hh _ => exact absurd hh away
  | shares hh _ _ => exact absurd hh away
  | goes _ hh _ => exact absurd hh away
  | settles _ hh _ => exact absurd hh away
  | rests _ hh _ => exact absurd hh away

theorem Locks.settled {d : CallId} {failure : Option Fault} (lock : Locks t s st after)
    (hd : .settled d failure ∈ after.2) :
    s.queue.holder = some t.call ∧ Settles t s failure after := by
  cases lock with
  | aside _ h => exact absurd hd (h.unsettled d failure)
  | joins => exact absurd hd (begin_unsettled d failure)
  | leaves _ h => exact absurd hd (h.unsettled d failure)
  | hands _ => simp [request, goto] at hd
  | frees _ _ h => exact absurd hd (h.unsettled d failure)
  | @shares _ f _ _ _ => exact absurd hd ((share_apart f s).unsettled d failure)
  | goes _ _ h => exact absurd hd (h.unsettled d failure)
  | settles _ holder h =>
    obtain ⟨-, rfl⟩ := (h.settled d failure).mp hd
    exact ⟨holder, h⟩
  | rests _ _ h => exact absurd hd (h.unsettled d failure)

/-- Whom a turn leaves waiting to connect has just begun, or has not taken the turn. -/
theorem Locks.connecting {call : Call} {seen : Nat} (lock : Locks t s st after)
    (hc : after.1.calls.get? t.call = some call) (hst : call.stage = .queued (.connect seen)) :
    seen = s.sequences := by
  have inLine : after.1.InLine t.call := ⟨call, hc, by rw [hst]; rfl⟩
  cases lock with
  | aside _ h => exact absurd inLine h.gone
  | @joins operation =>
    obtain rfl := Option.some.inj ((begin_get? operation).symm.trans hc)
    cases operation <;> cases hst
    rfl
  | leaves _ h => exact absurd inLine h.gone
  | hands _ =>
    obtain rfl := Option.some.inj ((writes_get? t _ _ s).symm.trans hc)
    cases hst
  | frees _ _ h => exact absurd inLine h.gone
  | @shares _ f _ _ _ => exact absurd inLine (share_apart f s).gone
  | @goes _ stage _ _ _ _ h =>
    obtain rfl := Option.some.inj (h.get.symm.trans hc)
    obtain rfl : stage = .queued (.connect seen) := hst
    cases h.underway
  | settles _ _ h => exact absurd inLine h.gone
  | rests _ _ h => exact absurd inLine h.gone

theorem Leads.requested {c : CallId} {r : RadioRequest} (h : Leads t s st after)
    (hr : .requested c r ∈ after.2) : c = t.call := by
  cases h with
  | opened =>
    obtain ⟨o, e⟩ := mem_follow hr
    cases e
  | begun => rcases mem_begin hr with e | e | ⟨old, e⟩ <;> cases e
  | writes _ _ _ =>
    simp only [all_cons, all_nil, request, tell_apply, goto, change_apply, List.append_nil,
      List.mem_singleton] at hr
    exact (Effect.requested.inj hr).1
  | ended h =>
    rcases mem_closed h hr with plain | ⟨_, _, _, _, e⟩ | ⟨_, e⟩
    · exact plain.1
    · cases e
    · cases e

end Act.Turn

namespace Course

variable {wall : Nat → Clock} {config : Config} {x y : Course} {a : Action} {c d : CallId}
  {after : Session × List Effect} {f : Fault} {n m limit : Nat}

theorem Reacts.requested (h : x.Reacts wall a after) {r : RadioRequest}
    (hr : .requested c r ∈ after.2) : a = .poll c := by
  cases h with
  | poll hp =>
    obtain ⟨call, -, hl⟩ := Session.poll_leads hp
    rw [hl.requested hr]
  | listen hl => cases (hl.mem hr).1
  | _ => cases hr

theorem reached_seen : ∀ x, Reached wall config x → ∀ c call seen,
    x.session.calls.get? c = some call → call.stage = .queued (.connect seen) →
      seen ≤ x.session.sequences := by
  refine reached_induction ?_ fun x a y hx ih step => ?_
  · intro c call seen hc
    cases hc
  · obtain ⟨after, hr, rfl⟩ := take?_reacts step
    intro c call seen hc hst
    have mono : x.session.sequences ≤ after.1.sequences := by
      cases hr.learns hx with
      | nothing sequences _ _ => exact Nat.le_of_eq sequences.symm
      | ending sequences _ _ => exact sequences ▸ Nat.le_succ _
    refine Nat.le_trans ?_ mono
    rcases hr.call hc with ⟨old, hold, -, hstage, -⟩ | ⟨-, -, rfl, -⟩ | ⟨r, -, rfl⟩
    · exact ih c old seen hold (hstage.trans hst)
    · cases hr with
      | poll hp =>
        obtain ⟨old, -, lock⟩ := locks_of_poll hx hp
        exact Nat.le_of_eq (lock.connecting hc hst)
    · cases hst

theorem queued_of_waiting (reached : Reached wall config x) (hc : c ∈ x.session.queue.waiting) :
    ∃ call use, x.session.calls.get? c = some call ∧ call.stage = .queued use := by
  have lined := reached_lined x reached
  obtain ⟨call, hcall, hl⟩ := (lined.mem c).mp (LinkQueue.mem_line_of_waiting hc)
  have idle : ¬call.stage.holds := fun hh =>
    lined.holder_not_waiting hc ((reached_agrees reached).exclusive c call hcall hh)
  generalize hst : call.stage = st at hl idle
  cases st with
  | queued use => exact ⟨call, use, hcall, hst⟩
  | _ => exact absurd hl idle

/-- When a sequence fails, whoever waits to connect is to take over the failure. -/
theorem Reacts.fails (reached : Reached wall config x) (h : x.Reacts wall a after)
    (hd : .settled d (some f) ∈ after.2) (hw : c ∈ x.session.queue.waiting) {call : Call}
    {seen : Nat} (hc : x.session.calls.get? c = some call)
    (hst : call.stage = .queued (.connect seen)) (within : x.session.WritesWithin c limit) :
    after.1.Inherits c f limit ∧ ∀ r, .requested c r ∉ after.2 := by
  have lined := reached_lined x reached
  rcases h.turn with ⟨e, rfl, hp⟩ | other
  · obtain ⟨settler, hsettler, lock⟩ := locks_of_poll reached hp
    obtain ⟨holder, settles⟩ := lock.settled hd
    have hne : e ≠ c := by
      rintro rfl
      exact lined.holder_not_waiting hw holder
    have lined' := h.lined reached lined
    have inLine := (lined.mem c).mp (LinkQueue.mem_line_of_waiting hw)
    have started {e' : CallId} {call' : Call} {seen' : Nat}
        (he' : x.session.calls.get? e' = some call')
        (hst' : call'.stage = .queued (.connect seen')) : seen' < after.1.sequences := by
      rw [settles.sequences]
      exact Nat.lt_succ_of_le (reached_seen x reached e' call' seen' he' hst')
    refine ⟨⟨⟨call, seen, ?_, hst, started hc hst⟩, settles.lastFailure, fun e' he' => ?_⟩,
      fun r hr => ?_⟩
    · exact (Session.poll_get?_other hp (Ne.symm hne)).trans hc
    · -- Whoever is ahead now waited behind the sequence that has failed.
      have ahead := (lock.shifts hsettler).ahead lined inLine hne he'
      have hne' : e' ≠ e := by
        rintro rfl
        exact settles.gone ((lined'.mem _).mp (LinkQueue.mem_line_of_ahead he'))
      have inLine' := (lined.mem e').mp (LinkQueue.mem_line_of_ahead ahead)
      have waiting := lined.waiting_of_inLine inLine' (by simpa [holder] using Ne.symm hne')
      obtain ⟨call', use, hcall', hst'⟩ := queued_of_waiting reached waiting
      refine ⟨call', (Session.poll_get?_other hp hne').trans hcall', ?_⟩
      rw [hst']
      cases use with
      | connect seen' => exact started hcall' hst'
      | write w => exact within e' ahead call' w hcall' hst'
      | disconnect => trivial
    · exact hne (by simpa using h.requested hr)
  · obtain ⟨-, -, -, unsettled⟩ := h.outside other
    exact absurd hd (unsettled d (some f))

theorem yields_of_poll (reached : Reached wall config x)
    (hp : x.session.poll (x.moment wall) d = some after) {call : Call}
    (hc : x.session.calls.get? d = some call) (yields : call.stage.Yields x.session.sequences limit)
    (hf : x.session.lastFailure = some f) (idle : ¬x.session.Disconnecting) :
    after.1.lastFailure = x.session.lastFailure ∧ after.1.sequences = x.session.sequences ∧
      (after.1.InLine d → ∃ call, after.1.calls.get? d = some call ∧
        call.stage.Yields x.session.sequences limit) := by
  obtain ⟨old, hold, lock⟩ := locks_of_poll reached hp
  obtain rfl := Option.some.inj (hc.symm.trans hold)
  have writes {w : Write} (hw : call.stage.write? = some w) (hdue : w.alarm.due ≤ limit) :
      after.1.lastFailure = x.session.lastFailure ∧ after.1.sequences = x.session.sequences ∧
        (after.1.InLine d → ∃ call, after.1.calls.get? d = some call ∧
          call.stage.Yields x.session.sequences limit) := by
    obtain ⟨failure, sequences, stays⟩ := lock.write hw
    exact ⟨failure, sequences, fun hl => ⟨_, stays hl, hdue⟩⟩
  obtain ⟨old, act, hold, hm, rfl⟩ := Session.poll_moves hp
  obtain rfl := Option.some.inj (hc.symm.trans hold)
  generalize call.answer = answer at hm
  generalize hst : call.stage = st at hm yields writes
  cases st with
  | queued use =>
    cases use with
    | connect seen =>
      obtain ⟨-, e⟩ := hm.shares hf (Nat.ne_of_gt yields)
      have apart := Act.Turn.share_apart (t := ⟨x.moment wall, d, call.plan⟩) f x.session
      rw [e]
      exact ⟨apart.lastFailure, apart.sequences, fun hl => absurd hl apart.gone⟩
    | write w => exact writes rfl yields
    | disconnect =>
      cases hm with
      | proceeds holder => exact absurd ⟨d, call, holder, hc, by rw [hst]; rfl⟩ idle
  | writing w => exact writes rfl yields
  | _ => exact yields.elim

theorem returns_of_poll (hi : x.session.Inherits c f limit)
    (hp : x.session.poll (x.moment wall) c = some after) :
    .returned c (.fault f) ∈ after.2 ∧ ∀ r, .requested c r ∉ after.2 := by
  obtain ⟨call, seen, hc, hst, hseen⟩ := hi.waits
  obtain ⟨old, act, hold, hm, rfl⟩ := Session.poll_moves hp
  obtain rfl := Option.some.inj (hc.symm.trans hold)
  rw [hst] at hm
  obtain ⟨-, e⟩ := hm.shares hi.failure (Nat.ne_of_gt hseen)
  rw [e]
  exact ⟨Act.Turn.mem_share.mpr (.inr (.inr rfl)), fun _ => Act.Turn.unrequested_of_share⟩

theorem inherits_of_poll (reached : Reached wall config x) (hi : x.session.Inherits c f limit)
    (idle : ¬x.session.Disconnecting) (hp : x.session.poll (x.moment wall) d = some after)
    (other : d ≠ c) : after.1.Inherits c f limit := by
  have lined := reached_lined x reached
  have lined' := (Reacts.poll hp).lined reached lined
  obtain ⟨call, seen, hc, hst, hseen⟩ := hi.waits
  obtain ⟨turner, hturner, lock⟩ := locks_of_poll reached hp
  have inLine : x.session.InLine c := ⟨call, hc, by rw [hst]; rfl⟩
  obtain ⟨failure, sequences, yields⟩ : after.1.lastFailure = x.session.lastFailure ∧
      after.1.sequences = x.session.sequences ∧ (d ∈ x.session.queue.ahead c → after.1.InLine d →
        ∃ call, after.1.calls.get? d = some call ∧
          call.stage.Yields x.session.sequences limit) := by
    by_cases ahead : d ∈ x.session.queue.ahead c
    · obtain ⟨old, hold, yields⟩ := hi.yields d ahead
      obtain ⟨failure, sequences, stays⟩ := yields_of_poll reached hp hold yields hi.failure idle
      exact ⟨failure, sequences, fun _ => stays⟩
    · obtain ⟨failure, sequences⟩ :=
        lock.away fun holder => ahead (LinkQueue.holder_mem_ahead holder other)
      exact ⟨failure, sequences, fun h => absurd h ahead⟩
  refine ⟨⟨call, seen, ?_, hst, sequences ▸ hseen⟩, failure.trans hi.failure, fun e he => ?_⟩
  · exact (Session.poll_get?_other hp (Ne.symm other)).trans hc
  · have ahead := (lock.shifts hturner).ahead lined inLine other he
    rw [sequences]
    by_cases same : e = d
    · subst same
      exact yields ahead ((lined'.mem _).mp (LinkQueue.mem_line_of_ahead he))
    · obtain ⟨old, hold, yields⟩ := hi.yields e ahead
      exact ⟨old, (Session.poll_get?_other hp same).trans hold, yields⟩

theorem Reacts.inherits (reached : Reached wall config x) (h : x.Reacts wall a after)
    (hi : x.session.Inherits c f limit) (idle : ¬x.session.Disconnecting) :
    (after.1.Inherits c f limit ∨ .returned c (.fault f) ∈ after.2) ∧
      ∀ r, .requested c r ∉ after.2 := by
  rcases h.turn with ⟨d, rfl, hp⟩ | outside
  · by_cases own : d = c
    · subst own
      obtain ⟨returned, unasked⟩ := returns_of_poll hi hp
      exact ⟨.inr returned, unasked⟩
    · exact ⟨.inl (inherits_of_poll reached hi idle hp own),
        fun r hr => own (by simpa using h.requested hr)⟩
  · obtain ⟨queue, failure, sequences, -⟩ := h.outside outside
    have stays (d : CallId) (old : Call) (hd : x.session.calls.get? d = some old) :=
      h.stays (reached_numbered x reached) hd (outside d)
    obtain ⟨call, seen, hc, hst, hseen⟩ := hi.waits
    obtain ⟨kept, hkept, -, hstage⟩ := stays c call hc
    refine ⟨.inl ⟨⟨kept, seen, hkept, hstage.trans hst, sequences ▸ hseen⟩,
      failure.trans hi.failure, fun d hd => ?_⟩, fun r hr => outside c (h.requested hr)⟩
    rw [queue] at hd
    obtain ⟨old, hold, yields⟩ := hi.yields d hd
    obtain ⟨kept', hkept', -, hstage'⟩ := stays d old hold
    exact ⟨kept', hkept', by rw [hstage', sequences]; exact yields⟩

end Course

end HeaterLink
