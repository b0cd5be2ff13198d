import HeaterLink.Proofs.Link.Line
import HeaterLink.Proofs.Requests.Deadlines

/-!
# Sequences that have ended

A session counts the connecting sequences that have ended and keeps the
failure of the last one until a disconnect has had the link. So a failure that
is kept is that of the last sequence, and no disconnect came after it. A call
that connects remembers the count that it found when it began; it fails without
a sequence of its own only by the failure of a sequence that has ended since.
-/

set_option autoImplicit false

namespace HeaterLink

def Session.Disconnecting (s : Session) : Prop :=
  ∃ c call, s.queue.holder = some c ∧ s.calls.get? c = some call ∧ call.stage.aim? = some .rest

inductive Session.Learns (s : Session) (after : Session × List Effect) : Prop
  | nothing : after.1.sequences = s.sequences →
      (after.1.lastFailure = s.lastFailure ∨ after.1.lastFailure = none) →
      (∀ d r, .settled d r ∉ after.2) → Learns s after
  | ending {c : CallId} {failure : Option Fault} : after.1.sequences = s.sequences + 1 →
      after.1.lastFailure = failure → (∀ d r, .settled d r ∈ after.2 ↔ d = c ∧ r = failure) →
      Learns s after

theorem Stage.write?_of_aim? {st : Stage} {next : Release} (h : st.aim? = some next) :
    st.write? = none := by
  cases st with
  | queued use => cases use <;> simp_all [aim?, write?]
  | _ => simp_all [aim?, write?]

namespace Act.Turn

open Session

variable {t : Turn} {s : Session} {st : Stage} {after : Session × List Effect} {call : Call}

theorem Locks.learns (lock : Locks t s st after) : s.Learns after := by
  have apart {queue : LinkQueue} {after : Session × List Effect} (h : Apart t s queue after) :
      s.Learns after := .nothing h.sequences (.inl h.lastFailure) h.unsettled
  cases lock with
  | aside _ h => exact apart h
  | leaves _ h => exact apart h
  | frees _ _ h => exact apart h
  | @joins operation =>
    refine .nothing ?_ (.inl ?_) begin_unsettled
    · cases operation <;> rfl
    · cases operation <;> rfl
  | hands _ => exact .nothing rfl (.inl rfl) (by simp [request, goto])
  | @shares _ f _ _ _ => exact apart (share_apart f s)
  | goes _ _ h => exact .nothing h.sequences (.inl h.lastFailure) h.unsettled
  | settles _ _ h => exact .ending h.sequences h.lastFailure h.settled
  | rests _ _ h => exact .nothing h.sequences (.inr h.lastFailure) h.unsettled

theorem Locks.disconnecting (lock : Locks t s call.stage after)
    (hc : s.calls.get? t.call = some call)
    (others : ∀ c, c ≠ t.call → after.1.calls.get? c = s.calls.get? c) (h : s.Disconnecting) :
    after.1.Disconnecting ∨ after.1.lastFailure = none := by
  obtain ⟨d, other, holder, hd, aim⟩ := h
  by_cases e : d = t.call
  · subst e
    obtain rfl := Option.some.inj (hc.symm.trans hd)
    generalize call.stage = st at lock aim
    cases lock with
    | aside out _ => exact absurd (Stage.lined_of_aim? aim) out
    | frees hw _ _ =>
      rw [Stage.write?_of_aim? aim] at hw
      cases hw
    | goes aim' _ h =>
      obtain rfl := Option.some.inj (aim.symm.trans aim')
      exact .inl ⟨t.call, _, h.queue ▸ holder, h.get, h.aim⟩
    | settles aim' _ _ => cases aim.symm.trans aim'
    | rests _ _ h => exact .inr h.lastFailure
    | _ => cases aim
  · have away : s.queue.holder ≠ some t.call := by simpa [holder] using e
    have stays (queue : after.1.queue.holder = some d) : after.1.Disconnecting :=
      ⟨d, other, queue, (others d e).trans hd, aim⟩
    refine .inl (stays ?_)
    generalize call.stage = st at lock
    cases lock with
    | aside _ apart => rw [apart.queue, holder]
    | joins => simp [begin_queue, LinkQueue.join, holder]
    | leaves _ apart => rw [apart.queue, LinkQueue.leave, holder]
    | hands hh => exact absurd hh away
    | frees _ hh _ => exact absurd hh away
    | shares hh _ _ => exact absurd hh away
    | goes _ hh _ => exact absurd hh away
    | settles _ hh _ => exact absurd hh away
    | rests _ hh _ => exact absurd hh away

theorem Locks.connects (lock : Locks t s st after) (aim : st.aim? = some .reconnect) :
    (∃ seen f, st = .queued (.connect seen) ∧ s.queue.holder = some t.call ∧
        s.lastFailure = some f ∧ s.sequences ≠ seen ∧
        after = all [releaseLink, t.finish (.fault f)] s) ∨
      (∃ stage, GoesOn t s .reconnect stage after) ∨ ∃ failure, Settles t s failure after := by
  cases lock with
  | aside out _ => exact absurd (Stage.lined_of_aim? aim) out
  | frees hw _ _ =>
    rw [Stage.write?_of_aim? aim] at hw
    cases hw
  | shares holder hf hs => exact .inl ⟨_, _, rfl, holder, hf, hs, rfl⟩
  | goes aim' _ h =>
    obtain rfl := Option.some.inj (aim.symm.trans aim')
    exact .inr (.inl ⟨_, h⟩)
  | settles _ _ h => exact .inr (.inr ⟨_, h⟩)
  | rests aim' _ _ => cases aim.symm.trans aim'
  | _ => cases aim

theorem finished_mem_share {f : Fault} {o : Outcome} :
    .finished t.call o ∈ (all [releaseLink, t.finish (.fault f)] s).2 ↔ o = .fault f := by
  simp only [all_cons, all_nil, List.append_nil, List.mem_append, finished_mem_finish]
  exact or_iff_right (releaseLink_unfinished s t.call o)

end Act.Turn

namespace Course

variable {wall : Nat → Clock} {config : Config} {x y : Course} {a : Action} {c d : CallId}
  {after : Session × List Effect} {f : Fault} {g n m : Nat} {o : Outcome}

theorem Reacts.learns (reached : Reached wall config x) (h : x.Reacts wall a after) :
    x.session.Learns after := by
  rcases h.turn with ⟨c, rfl, hp⟩ | other
  · obtain ⟨call, -, lock⟩ := locks_of_poll reached hp
    exact lock.learns
  · obtain ⟨-, failure, sequences, unsettled⟩ := h.outside other
    exact .nothing sequences (.inl failure) unsettled

theorem Reacts.disconnecting (reached : Reached wall config x) (h : x.Reacts wall a after)
    (hd : x.session.Disconnecting) : after.1.Disconnecting ∨ after.1.lastFailure = none := by
  rcases h.turn with ⟨c, rfl, hp⟩ | other
  · obtain ⟨call, hc, lock⟩ := locks_of_poll reached hp
    exact lock.disconnecting hc (fun c' => Session.poll_get?_other hp) hd
  · obtain ⟨queue, -, -, -⟩ := h.outside other
    obtain ⟨c, call, holder, hc, aim⟩ := hd
    obtain ⟨kept, hkept, -, hstage⟩ := h.stays (reached_numbered x reached) hc (other c)
    exact .inl ⟨c, kept, queue ▸ holder, hkept, hstage ▸ aim⟩

theorem reached_sequences : ∀ x, Reached wall config x → ∀ n ≤ x.history.length,
    (∀ k d r, n ≤ k → ¬x.Did k (.settled d r)) →
      x.session.sequences = (x.sessionAt n).sequences := by
  refine reached_induction ?_ fun x a y hx ih step => ?_
  · intro n hn _
    obtain rfl : n = 0 := Nat.le_zero.mp hn
    rfl
  · obtain ⟨after, hr, grows⟩ := take?_grows step
    have begins := grows.begins
    intro n hn unsettled
    rcases Nat.lt_or_ge x.history.length n with hlt | hle
    · have hlen := grows.length
      obtain rfl : n = y.history.length := by omega
      rw [sessionAt_length]
    · rw [begins.sessionAt hle, grows.session,
        ← ih n hle fun k d r hk hd => unsettled k d r hk (begins.did hd)]
      cases hr.learns hx with
      | nothing sequences _ _ => exact sequences
      | @ending c failure _ _ settled =>
        exact absurd (grows.did ((settled c failure).mpr ⟨rfl, rfl⟩))
          (unsettled x.history.length c failure hle)

/-- A failure that is kept is that of the last sequence, and no disconnect has had the link since,
but for one that still has it. -/
theorem reached_failure : ∀ x, Reached wall config x → ∀ f, x.session.lastFailure = some f →
    ∃ m d, x.Did m (.settled d (some f)) ∧ (∀ k d' r, x.Did k (.settled d' r) → k ≤ m) ∧
      (x.session.Disconnecting ∨
        ∀ j, m < j → j ≤ x.history.length → ¬(x.sessionAt j).Disconnecting) := by
  refine reached_induction ?_ fun x a y hx ih step => ?_
  · intro f hf
    cases hf
  · obtain ⟨after, hr, grows⟩ := take?_grows step
    have begins := grows.begins
    have hlen := grows.length
    intro f hf
    rw [grows.session] at hf
    have calm {m : Nat} (idle : ¬y.session.Disconnecting)
        (before : ∀ j, m < j → j ≤ x.history.length → ¬(x.sessionAt j).Disconnecting) (j : Nat)
        (hj : m < j) (hle : j ≤ y.history.length) : ¬(y.sessionAt j).Disconnecting := by
      rcases Nat.lt_or_ge x.history.length j with hlt | hge
      · obtain rfl : j = y.history.length := by omega
        rwa [sessionAt_length]
      · rw [begins.sessionAt hge]
        exact before j hj hge
    cases hr.learns hx with
    | nothing _ failure unsettled =>
      rcases failure with same | none
      · obtain ⟨m, d, hm, hlast, hdis⟩ := ih f (same ▸ hf)
        refine ⟨m, d, begins.did hm, fun k d' r hk => ?_, ?_⟩
        · rcases grows.did_iff.mp hk with hk | ⟨-, hk⟩
          · exact hlast k d' r hk
          · exact absurd hk (unsettled d' r)
        · by_cases idle : y.session.Disconnecting
          · exact .inl idle
          · refine .inr (calm idle (hdis.resolve_left fun hd => ?_))
            rcases hr.disconnecting hx hd with h | h
            · exact idle (grows.session ▸ h)
            · rw [h] at hf
              cases hf
      · rw [none] at hf
        cases hf
    | @ending c failure _ last settled =>
      obtain rfl : failure = some f := last.symm.trans hf
      refine ⟨x.history.length, c, ?_, fun k d r hk => ?_, ?_⟩
      · exact grows.did ((settled c _).mpr ⟨rfl, rfl⟩)
      · have := did_lt hk
        omega
      · by_cases idle : y.session.Disconnecting
        · exact .inl idle
        · exact .inr (calm idle fun j hj hle => absurd hj (Nat.not_lt_of_le hle))

/-- A call begins an operation in a turn of its own, when it is ready for it. -/
theorem Reacts.began (h : x.Reacts wall a after) {operation : Operation}
    (hb : .began c operation ∈ after.2) : ∃ call, a = .poll c ∧
      x.session.calls.get? c = some call ∧ call.stage = .ready operation ∧
      after = Act.Turn.begin ⟨x.moment wall, c, call.plan⟩ operation x.session := by
  cases h with
  | @poll c' _ hp =>
    obtain ⟨call, hc, hl⟩ := Session.poll_leads hp
    generalize hst : call.stage = st at hl
    cases hl with
    | opened =>
      obtain ⟨o, e⟩ := Act.Turn.mem_follow hb
      cases e
    | @begun operation' =>
      rcases Act.Turn.mem_begin hb with e | e | ⟨old, e⟩
      · obtain ⟨rfl, rfl⟩ := Effect.began.inj e
        exact ⟨call, rfl, hc, hst, rfl⟩
      · cases e
      · cases e
    | writes _ _ _ => simp [Act.Turn.request, Act.Turn.goto] at hb
    | ended hclosed =>
      rcases Act.Turn.mem_closed hclosed hb with plain | ⟨_, _, _, _, e⟩ | ⟨_, e⟩
      · cases plain
      · cases e
      · cases e
  | listen hl => cases (hl.mem hb).1
  | _ => cases hb

theorem unsettled_of_began (reached : Reached wall config x) {operation : Operation}
    (hg : x.Did g (.began c operation)) {failure : Option Fault} :
    ¬x.Did g (.settled d failure) := by
  intro hd
  obtain ⟨y, a, after, -, -, -, hr, hb, did, -⟩ := reached_did reached hg
  obtain ⟨call, -, -, -, rfl⟩ := hr.began hb
  exact Act.Turn.begin_unsettled d failure ((did _).mp hd)

theorem reached_connecting : ∀ x, Reached wall config x → ∀ g c, x.Did g (.began c .connect) →
    x.Open g c → ∃ call, x.session.calls.get? c = some call ∧ call.stage.aim? = some .reconnect ∧
      ∀ seen, call.stage = .queued (.connect seen) → seen = (x.sessionAt g).sequences := by
  refine reached_induction ?_ fun x a y hx ih step => ?_
  · rintro g c ⟨entry, hg, -⟩
    simp [start] at hg
  · obtain ⟨after, hr, grows⟩ := take?_grows step
    have begins := grows.begins
    intro g c hg hopen
    rw [grows.session]
    rcases grows.did_iff.mp hg with hg | ⟨rfl, hb⟩
    · have unfinished (o : Outcome) (ho : .finished c o ∈ after.2) : False :=
        hopen x.history.length o (Nat.le_of_lt (did_lt hg)) (grows.did ho)
      obtain ⟨call, hc, aim, hseen⟩ := ih g c hg (begins.open hopen)
      rw [begins.sessionAt (Nat.le_of_lt (did_lt hg))]
      by_cases turn : a = .poll c
      · subst turn
        cases hr with
        | poll hp =>
          obtain ⟨old, hold, lock⟩ := locks_of_poll hx hp
          obtain rfl := Option.some.inj (hc.symm.trans hold)
          rcases lock.connects aim with ⟨_, f, _, -, -, -, rfl⟩ | ⟨stage, h⟩ | ⟨failure, h⟩
          · exact (unfinished _ (Act.Turn.finished_mem_share.mpr rfl)).elim
          · refine ⟨_, h.get, h.aim, fun seen hst => ?_⟩
            obtain rfl : stage = .queued (.connect seen) := hst
            cases h.underway
          · exact (unfinished _ h.finished).elim
      · obtain ⟨kept, hkept, -, hstage⟩ := hr.stays (reached_numbered x hx) hc turn
        exact ⟨kept, hkept, hstage ▸ aim, hstage ▸ hseen⟩
    · obtain ⟨call, -, -, -, rfl⟩ := hr.began hb
      refine ⟨_, Act.Turn.begin_get? _, rfl, fun seen hst => ?_⟩
      rw [begins.session]
      cases hst
      rfl

structure Ran (x : Course) (c : CallId) (operation : Operation) (g n : Nat) (o : Outcome) :
    Prop where
  began : x.Did g (.began c operation)
  order : g < n
  finished : x.Did n (.finished c o)
  first : ∀ k o', g ≤ k → k < n → ¬x.Did k (.finished c o')

theorem failure_of_ran (reached : Reached wall config x) (ran : x.Ran c .connect g n (.fault f))
    (alone : ∀ k r, g ≤ k → k ≤ n → ¬x.Did k (.settled c r)) :
    ∃ m d, g < m ∧ m < n ∧ x.Did m (.settled d (some f)) ∧
      ∀ j, m < j → j ≤ n → ¬(x.sessionAt j).Disconnecting := by
  obtain ⟨y, a, after, hy, begins, rfl, hr, hfinished, did, -⟩ := reached_did reached ran.finished
  obtain ⟨-, -, rfl, -, -, -⟩ := hr.finished hfinished
  have hg : y.Did g (.began c .connect) := (begins.did_iff ran.order).mp ran.began
  have hopen : y.Open g c := fun k o hk hd => ran.first k o hk (did_lt hd) (begins.did hd)
  obtain ⟨call, hc, aim, hseen⟩ := reached_connecting y hy g c hg hopen
  cases hr with
  | poll hp =>
    obtain ⟨old, hold, lock⟩ := locks_of_poll hy hp
    obtain rfl := Option.some.inj (hc.symm.trans hold)
    rcases lock.connects aim with ⟨seen, f', hst, holder, hf, hne, rfl⟩ | ⟨stage, h⟩ | ⟨failure, h⟩
    · obtain rfl : f = f' := Outcome.fault.inj (Act.Turn.finished_mem_share.mp hfinished)
      obtain ⟨m, d, hm, last, calm⟩ := reached_failure y hy f hf
      refine ⟨m, d, ?_, did_lt hm, begins.did hm, fun j hj hle => ?_⟩
      · -- The count has changed since the call began, so a sequence has ended since then.
        refine Nat.lt_of_not_le fun hle => hne ?_
        rw [hseen seen hst]
        refine reached_sequences y hy g (Nat.le_of_lt ran.order) fun k d' r hk hd => ?_
        obtain rfl : k = g := Nat.le_antisymm (Nat.le_trans (last k d' r hd) hle) hk
        exact unsettled_of_began hy hg hd
      · rw [begins.sessionAt hle]
        refine calm.resolve_left ?_ j hj hle
        rintro ⟨c', call', holder', hc', aim'⟩
        obtain rfl := Option.some.inj (holder.symm.trans holder')
        obtain rfl := Option.some.inj (hc.symm.trans hc')
        cases aim.symm.trans aim'
    · exact absurd hfinished (h.unfinished _)
    · exact absurd ((did _).mpr ((h.settled c failure).mpr ⟨rfl, rfl⟩))
        (alone _ failure (Nat.le_of_lt ran.order) (Nat.le_refl _))

end Course

end HeaterLink
