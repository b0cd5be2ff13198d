import HeaterLink.Proofs.Link.Inheriting
import HeaterLink.Proofs.Link.Progress
import HeaterLink.Proofs.Link.Rest

/-!
# What follows a sequence

Between one connecting sequence and the next the calls in line write, take over
a failure or disconnect. A link that a failed sequence has left with nothing
stays so, and nobody notices anything; one that it has left with a handle keeps
that until a disconnect gets it. The next sequence is that of a call that began
to connect behind the failure, unless a disconnect came between.
-/

set_option autoImplicit false

namespace HeaterLink

def Session.Vacant (s : Session) : Prop :=
  ∀ c call, s.calls.get? c = some call → ¬call.stage.underway

def Session.Unheld (s : Session) : Prop :=
  ∀ c call, s.calls.get? c = some call → ¬call.stage.holds

theorem Session.Unheld.vacant {s : Session} (unheld : s.Unheld) : s.Vacant :=
  fun c call hc hu => unheld c call hc (Stage.holds_of_underway hu)

theorem Session.Settled.atRest {s : Session} (settled : s.Settled) (unlinked : s.held = none) :
    s.AtRest := by
  obtain ⟨state, listener⟩ := settled.unheld unlinked
  refine ⟨⟨unlinked, listener, fun i => ?_⟩, state⟩
  cases runs : s.runs i with
  | false => rfl
  | true => cases state.symm.trans (settled.running i runs).1

namespace Act.Turn

open Session

variable {t : Turn} {s : Session} {st : Stage} {answer : Option RadioAnswer} {a : Act}
  {after : Session × List Effect} {plan : Plan}

theorem not_holds_of_gone (gone : ¬after.1.InLine t.call) (call : Call)
    (hc : after.1.calls.get? t.call = some call) : ¬call.stage.holds :=
  fun hh => gone ⟨call, hc, Stage.lined_of_holds hh⟩

theorem Locks.not_holds (lock : Locks t s st after) (idle : ¬st.holds)
    (waits : ∀ use, st = .queued use → s.queue.holder ≠ some t.call) (call : Call)
    (hc : after.1.calls.get? t.call = some call) : ¬call.stage.holds := by
  have aimless {next : Release} (aim : st.aim? = some next)
      (holder : s.queue.holder = some t.call) : False := by
    rcases Stage.underway_of_aim? aim with hu | ⟨use, rfl⟩
    · exact idle (Stage.holds_of_underway hu)
    · exact waits use rfl holder
  cases lock with
  | aside _ apart => exact not_holds_of_gone apart.gone call hc
  | joins =>
    obtain rfl := Option.some.inj ((begin_get? _).symm.trans hc)
    simp [Stage.holds, Stage.underway]
  | leaves _ apart => exact not_holds_of_gone apart.gone call hc
  | hands holder => exact absurd holder (waits _ rfl)
  | frees _ _ apart => exact not_holds_of_gone apart.gone call hc
  | shares holder _ _ => exact absurd holder (waits _ rfl)
  | goes aim holder _ => exact (aimless aim holder).elim
  | settles aim holder _ => exact (aimless aim holder).elim
  | rests aim holder _ => exact (aimless aim holder).elim

theorem proceed_of_shared {seen : Nat}
    (hc : s.calls.get? t.call = some ⟨plan, .queued (.connect seen), answer⟩)
    (holder : s.queue.holder = some t.call) (own : ¬s.Starts t.call) :
    ∃ f, s.lastFailure = some f ∧ s.sequences ≠ seen ∧
      t.proceed (.connect seen) s = all [releaseLink, t.finish (.fault f)] s := by
  have shared : ¬(s.lastFailure = none ∨ s.sequences = seen) := fun h =>
    own ⟨holder, _, seen, hc, rfl, h⟩
  obtain ⟨kept, ended⟩ := not_or.mp shared
  obtain ⟨f, hf⟩ := Option.ne_none_iff_exists'.mp kept
  exact ⟨f, hf, ended, by simp [proceed, hf, ended]⟩

theorem share_fst (f : Fault) (s : Session) : ∃ queue calls,
    (all [releaseLink, t.finish (.fault f)] s).1 = { s with queue := queue, calls := calls } := by
  simp only [all_cons, all_nil, releaseLink_fst]
  exact ⟨_, _, (finish_fst _).trans (follow_fst t _ _)⟩

theorem written_fst (w : Write) (fault : Option Fault) (s : Session) : ∃ queue inbound calls,
    (t.written w fault s).1 = { s with queue := queue, inbound := inbound, calls := calls } := by
  simp only [written, all_cons, all_nil, releaseLink_fst]
  cases w.token with
  | none => exact ⟨_, _, _, (finish_fst _).trans (follow_fst t _ _)⟩
  | some k =>
    cases fault with
    | none => exact ⟨_, _, _, rfl⟩
    | some f =>
      simp only [all_cons, all_nil, withdraw_apply]
      exact ⟨_, _, _, (finish_fst _).trans (follow_fst t _ _)⟩

theorem write_fst (w : Write) (s : Session) : ∃ queue inbound calls,
    (t.write w s).1 = { s with queue := queue, inbound := inbound, calls := calls } := by
  have writes : (∃ fault, t.write w s = t.written w fault s) ∨ ∃ h,
      t.write w s = all [t.request (.write h w.frame), t.goto (.writing w)] s := by
    cases hh : s.held with
    | none => exact .inl ⟨some .notConnected, by simp [write, hh]⟩
    | some held =>
      by_cases hu : held.up
      · exact .inr ⟨held.handle, by simp [write, hh, hu]⟩
      · exact .inl ⟨some .linkLost, by simp [write, hh, hu]⟩
  rcases writes with ⟨fault, e⟩ | ⟨h, e⟩
  · exact e ▸ written_fst w fault s
  · exact e ▸ ⟨_, _, _, rfl⟩

theorem expired_fst (w : Write) (s : Session) : ∃ inbound calls,
    (t.expired w s).1 = { s with inbound := inbound, calls := calls } := by
  unfold expired
  cases w.token with
  | none => exact ⟨_, _, (finish_fst _).trans (follow_fst t _ _)⟩
  | some k =>
    simp only [all_cons, all_nil, withdraw_apply]
    exact ⟨_, _, (finish_fst _).trans (follow_fst t _ _)⟩

theorem unlogged_of_releaseLink {e : Effect} (he : e ∈ (releaseLink s).2) : e.logged = false := by
  obtain ⟨d, rfl⟩ := mem_releaseLink he
  rfl

theorem unlogged_of_written {w : Write} {fault : Option Fault} {e : Effect}
    (he : e ∈ (t.written w fault s).2) : e.logged = false := by
  simp only [written, all_cons, all_nil, List.append_nil, List.mem_append] at he
  rcases he with he | he
  · exact unlogged_of_releaseLink he
  · cases hk : w.token with
    | none =>
      rw [hk] at he
      exact unlogged_of_finish he
    | some k =>
      cases fault with
      | none =>
        rw [hk] at he
        cases he
      | some f =>
        simp only [hk, all_cons, all_nil, withdraw_apply, List.nil_append, List.append_nil] at he
        exact unlogged_of_finish he

theorem disconnect_atRest (rest : s.AtRest) : (t.release .rest s).1.AtRest ∧
    ¬(t.release .rest s).1.InLine t.call ∧ ∀ e ∈ (t.release .rest s).2, e.Unnoticed := by
  have quiet : cancelListener s = (s, []) := by
    have silent : s.runningListener = none := by
      simp [runningListener, rest.unlinked.listener]
    have same : { s with listener := none } = s := by
      rw [← rest.unlinked.listener]
    simp [cancelListener, silent, same]
  have released : t.release .rest s = t.released .rest s := by
    simp [release, quiet, rest.unlinked.held]
  rw [released]
  refine ⟨released_atRest rest.unlinked, ?_, fun e he => ?_⟩
  · simp only [Act.Turn.released, all_cons, all_nil]
    exact finish_gone _ _
  · simp only [Act.Turn.released, all_cons, all_nil, resetInbound_apply, goDown, choose_apply,
      enter_apply, rest.state, if_true, change_apply, List.append_nil, List.nil_append,
      List.mem_append, List.mem_singleton] at he
    rcases he with rfl | rfl | he | he
    · trivial
    · trivial
    · exact Effect.unnoticed_of_unlogged (unlogged_of_releaseLink he)
    · exact Effect.unnoticed_of_unlogged (unlogged_of_finish he)

/-- A turn leaves a link at rest as it is, unless a sequence begins with it. -/
theorem Moves.rests (step : Moves t s answer st a) (rest : s.AtRest)
    (hc : s.calls.get? t.call = some ⟨plan, st, answer⟩) (idle : ¬st.holds)
    (own : ¬s.Starts t.call) : (a s).1.AtRest ∧
      (∀ call, (a s).1.calls.get? t.call = some call → ¬call.stage.holds) ∧
      ∀ e ∈ (a s).2, e.Unnoticed := by
  by_cases waits : ∀ use, st = .queued use → s.queue.holder ≠ some t.call
  · obtain ⟨nextToken, queue, inbound, calls, e⟩ := step.aside idle waits
    refine ⟨?_, (step.locks fun hh => absurd hh idle).not_holds idle waits,
      fun _ => step.unnoticed idle waits⟩
    have link : SameLink s (a s).1 := e ▸ sameLink_of_eq rfl rfl rfl rfl
    exact link.atRest rest
  · push Not at waits
    obtain ⟨use, rfl, holder⟩ := waits
    cases step with
    | leaves away _ => exact absurd holder away
    | proceeds _ =>
      cases use with
      | connect seen =>
        obtain ⟨f, -, -, e⟩ := proceed_of_shared hc holder own
        rw [e]
        obtain ⟨queue, calls, link⟩ := share_fst (t := t) f s
        refine ⟨?_, not_holds_of_gone (share_apart f s).gone, fun e he => ?_⟩
        · have same : SameLink s { s with queue := queue, calls := calls } :=
            sameLink_of_eq rfl rfl rfl rfl
          exact link ▸ same.atRest rest
        · rcases mem_share.mp he with he | rfl | rfl
          · exact Effect.unnoticed_of_unlogged (unlogged_of_releaseLink he)
          · trivial
          · trivial
      | write w =>
        have e : t.proceed (.write w) s = t.written w (some .notConnected) s := by
          simp [proceed, write, rest.unlinked.held]
        rw [e]
        obtain ⟨queue, inbound, calls, link⟩ := written_fst (t := t) w (some .notConnected) s
        refine ⟨?_, not_holds_of_gone (written_apart w _ s).gone, fun e he =>
          Effect.unnoticed_of_unlogged (unlogged_of_written he)⟩
        have same : SameLink s { s with queue := queue, inbound := inbound, calls := calls } :=
          sameLink_of_eq rfl rfl rfl rfl
        exact link ▸ same.atRest rest
      | disconnect =>
        obtain ⟨rest', gone, quiet⟩ := disconnect_atRest (t := t) rest
        exact ⟨rest', not_holds_of_gone gone, quiet⟩

theorem Locks.not_underway (lock : Locks t s st after) (aimless : st.aim? = none) (call : Call)
    (hc : after.1.calls.get? t.call = some call) : ¬call.stage.underway := by
  have not_underway_of_gone (gone : ¬after.1.InLine t.call) : ¬call.stage.underway :=
    fun hu => not_holds_of_gone gone call hc (Stage.holds_of_underway hu)
  cases lock with
  | aside _ apart => exact not_underway_of_gone apart.gone
  | joins =>
    obtain rfl := Option.some.inj ((begin_get? _).symm.trans hc)
    simp [Stage.underway]
  | leaves _ apart => exact not_underway_of_gone apart.gone
  | hands _ =>
    obtain rfl := Option.some.inj ((writes_get? t _ _ s).symm.trans hc)
    simp [Stage.underway]
  | frees _ _ apart => exact not_underway_of_gone apart.gone
  | shares _ _ _ => cases aimless
  | goes aim _ _ => cases aimless.symm.trans aim
  | settles aim _ _ => cases aimless.symm.trans aim
  | rests aim _ _ => cases aimless.symm.trans aim

/-- Who has no aim leaves the link as it is. -/
theorem Moves.beside (step : Moves t s answer st a) (aimless : st.aim? = none) :
    ∃ nextToken queue inbound calls, (a s).1 =
      { s with nextToken := nextToken, queue := queue, inbound := inbound, calls := calls } := by
  by_cases hh : st.holds
  · obtain ⟨w, rfl⟩ : ∃ w, st = .writing w := by
      cases st <;> simp_all [Stage.holds, Stage.underway, Stage.aim?]
    cases step with
    | @written _ fault =>
      obtain ⟨queue, inbound, calls, e⟩ := written_fst (t := t) w fault s
      exact ⟨_, queue, inbound, calls, e⟩
    | writeLate _ =>
      simp only [all_cons, all_nil, tell_apply, releaseLink_fst]
      obtain ⟨inbound, calls, e⟩ := expired_fst (t := t) w { s with queue := s.queue.release }
      exact ⟨_, _, inbound, calls, e⟩
  · by_cases waits : ∀ use, st = .queued use → s.queue.holder ≠ some t.call
    · exact step.aside hh waits
    · push Not at waits
      obtain ⟨use, rfl, turn⟩ := waits
      cases step with
      | leaves away _ => exact absurd turn away
      | proceeds _ =>
        cases use with
        | write w =>
          obtain ⟨queue, inbound, calls, e⟩ := write_fst (t := t) w s
          exact ⟨_, queue, inbound, calls, e⟩
        | _ => cases aimless

/-- A turn leaves the link with what it has, unless a sequence begins with it or it disconnects. -/
theorem Moves.leaves_link (step : Moves t s answer st a)
    (hc : s.calls.get? t.call = some ⟨plan, st, answer⟩) (idle : ¬st.underway)
    (holder : st.holds → s.queue.holder = some t.call) (own : ¬s.Starts t.call)
    (stays : s.queue.holder = some t.call → st.aim? ≠ some .rest) :
    (∃ nextToken queue inbound calls, (a s).1 =
      { s with nextToken := nextToken, queue := queue, inbound := inbound, calls := calls }) ∧
      ∀ call, (a s).1.calls.get? t.call = some call → ¬call.stage.underway := by
  cases aim : st.aim? with
  | none => exact ⟨step.beside aim, (step.locks holder).not_underway aim⟩
  | some next =>
    rcases Stage.underway_of_aim? aim with hu | ⟨use, rfl⟩
    · exact absurd hu idle
    · cases step with
      | leaves _ _ => cases aim
      | proceeds turn =>
        cases use with
        | connect seen =>
          obtain ⟨f, -, -, e⟩ := proceed_of_shared hc turn own
          obtain ⟨queue, calls, link⟩ := share_fst (t := t) f s
          rw [e]
          exact ⟨⟨_, queue, _, calls, link⟩, fun call hcall hu =>
            not_holds_of_gone (share_apart f s).gone call hcall (Stage.holds_of_underway hu)⟩
        | write w => cases aim
        | disconnect => exact absurd rfl (stays turn)

/-- A turn that is to disconnect leaves no handle. -/
theorem Moves.unheld (step : Moves t s answer st a) (aim : st.aim? = some .rest)
    (unlinked : s.Fits st) : (a s).1.held = none := by
  have released_held (s : Session) : (t.released .rest s).1.held = s.held := by
    simp only [Act.Turn.released, all_cons, all_nil, change_apply, releaseLink_fst]
    rw [finish_fst, follow_fst]
    simp
  cases step with
  | @released next fault =>
    obtain rfl := Option.some.inj aim
    exact (released_held s).trans unlinked.held
  | @proceeds _ use _ =>
    cases use with
    | disconnect =>
      cases hh : s.held with
      | none =>
        simp only [proceed, release, all_cons, all_nil, choose_apply, cancelListener_fst, hh]
        exact released_held _
      | some held => simp [proceed, release, hh, request, Turn.goto]
    | _ => cases aim
  | leaves away _ => cases aim
  | _ => cases aim

theorem Locks.rests_on (lock : Locks t s st after) (aim : st.aim? = some .rest) (call : Call)
    (hc : after.1.calls.get? t.call = some call) (hu : call.stage.underway) :
    call.stage.aim? = some .rest := by
  have absurd_of_gone (gone : ¬after.1.InLine t.call) : call.stage.aim? = some .rest :=
    absurd (Stage.holds_of_underway hu) (not_holds_of_gone gone call hc)
  cases lock with
  | aside out _ => exact absurd (Stage.lined_of_aim? aim) out
  | frees _ _ apart => exact absurd_of_gone apart.gone
  | goes aim' _ goesOn =>
    obtain rfl := Option.some.inj (goesOn.get.symm.trans hc)
    exact goesOn.aim.trans (aim'.symm.trans aim)
  | settles aim' _ _ => cases aim.symm.trans aim'
  | rests _ _ rests => exact absurd_of_gone rests.gone
  | _ => cases aim

end Act.Turn

namespace Session

variable {s : Session} {h : Handle}

structure Remains (s : Session) (h : Handle) : Prop where
  rests : ∀ c call, s.calls.get? c = some call → call.stage.underway →
    call.stage.aim? = some .rest
  link : s.held = none ∨ s.handle? = some h ∧ s.Mute

theorem Remains.silent (remains : s.Remains h) (agrees : s.Agrees) (i : StreamId) :
    s.runs i = false := by
  rcases remains.link with unheld | ⟨-, mute⟩
  · by_cases vacant : s.Vacant
    · exact ((agrees.settled vacant).atRest unheld).unlinked.silent i
    · simp only [Vacant, not_forall, not_not] at vacant
      obtain ⟨c, call, hc, hu⟩ := vacant
      exact (agrees.fits c call hc).silent hu i
  · exact mute.silent i

end Session

namespace Course

variable {wall : Nat → Clock} {config : Config} {x : Course} {a : Action} {c d : CallId}
  {after : Session × List Effect} {h : Handle} {n m k : Nat} {e : Effect} {r : Option Fault}

theorem Reacts.stages {Q : Stage → Prop} (hr : x.Reacts wall a after)
    (before : ∀ c call, x.session.calls.get? c = some call → Q call.stage)
    (turn : ∀ c call, a = .poll c → after.1.calls.get? c = some call → Q call.stage)
    (opening : ∀ r, Q (.opening r)) (c : CallId) (call : Call)
    (hc : after.1.calls.get? c = some call) : Q call.stage := by
  rcases hr.call hc with ⟨old, hold, -, same, -⟩ | ⟨-, -, same, -⟩ | ⟨r, -, rfl⟩
  · exact same ▸ before c old hold
  · exact turn c call same hc
  · exact opening r

theorem Reacts.staysAtRest (reached : Reached wall config x) (hr : x.Reacts wall a after)
    (rest : x.session.AtRest) (unheld : x.session.Unheld)
    (own : ∀ c, a = .poll c → ¬x.session.Starts c) :
    (after.1.AtRest ∧ after.1.Unheld) ∧ ∀ e ∈ after.2, e.Unnoticed := by
  have opening (r : Request) : ¬(Stage.opening r).holds := by simp [Stage.holds, Stage.underway]
  rcases hr.turn with ⟨c, rfl, hp⟩ | other
  · obtain ⟨⟨plan, st, answer⟩, act, hc, hm, rfl⟩ := Session.poll_moves hp
    obtain ⟨rest', idle, quiet⟩ := hm.rests rest hc (unheld c _ hc) (own c rfl)
    refine ⟨⟨rest', hr.stages (Q := fun st => ¬st.holds) unheld (fun c' call turn hcall => ?_)
      opening⟩, quiet⟩
    obtain rfl := Action.poll.inj turn
    exact idle call hcall
  · obtain ⟨rest', quiet⟩ := hr.rests reached rest fun c turn => absurd turn (other c)
    exact ⟨⟨rest', hr.stages (Q := fun st => ¬st.holds) unheld
      (fun c _ turn => absurd turn (other c)) opening⟩, quiet⟩

/-- A link keeps what it has, and the session what it knows of sequences, unless a sequence begins
or a disconnect has the link. -/
theorem Reacts.undisturbed (reached : Reached wall config x) (hr : x.Reacts wall a after)
    (vacant : x.session.Vacant) (own : ∀ c, a = .poll c → ¬x.session.Starts c)
    (calm : ¬x.session.Disconnecting) : after.1.Vacant ∧
      after.1.lastFailure = x.session.lastFailure ∧ after.1.sequences = x.session.sequences ∧
      (x.session.Mute → after.1.Mute ∧ after.1.handle? = x.session.handle?) := by
  have opening (r : Request) : ¬(Stage.opening r).underway := by simp [Stage.underway]
  rcases hr.turn with ⟨c, rfl, hp⟩ | other
  · obtain ⟨⟨plan, st, answer⟩, act, hc, hm, rfl⟩ := Session.poll_moves hp
    obtain ⟨⟨nextToken, queue, inbound, calls, same⟩, idle⟩ := hm.leaves_link hc (vacant c _ hc)
      (fun hh => (reached_agrees reached).exclusive c _ hc hh) (own c rfl)
      fun turn aim => calm ⟨c, _, turn, hc, aim⟩
    refine ⟨hr.stages (Q := fun st => ¬st.underway) vacant (fun c' call turn hcall => ?_)
      opening, ?_⟩
    · obtain rfl := Action.poll.inj turn
      exact idle call hcall
    · have link : Session.SameLink x.session (act x.session).1 :=
        same ▸ Session.sameLink_of_eq rfl rfl rfl rfl
      refine ⟨same ▸ rfl, same ▸ rfl, fun mute => ⟨link.mute mute, ?_⟩⟩
      rw [same, Session.handle?, Session.handle?]
  · obtain ⟨-, failure, sequences, -⟩ := hr.outside other
    refine ⟨hr.stages (Q := fun st => ¬st.underway) vacant
      (fun c _ turn => absurd turn (other c)) opening, failure, sequences, fun mute => ?_⟩
    obtain ⟨link, handle, -⟩ := hr.sameLink other mute.silent
    exact ⟨link.mute mute, handle⟩

/-- Whoever disconnects, a link on which nobody listens has its handle or none, unless a sequence
begins. -/
theorem Reacts.remains (reached : Reached wall config x) (hr : x.Reacts wall a after)
    (remains : x.session.Remains h) (own : ∀ c, a = .poll c → ¬x.session.Starts c) :
    after.1.Remains h := by
  have agrees := reached_agrees reached
  have opening (r : Request) : (Stage.opening r).underway → (Stage.opening r).aim? = some .rest :=
    nofun
  have stages := hr.stages (Q := fun st => st.underway → st.aim? = some .rest) remains.rests
  rcases hr.turn with ⟨c, rfl, hp⟩ | other
  · obtain ⟨⟨plan, st, answer⟩, act, hc, hm, rfl⟩ := Session.poll_moves hp
    have holder (hh : st.holds) : x.session.queue.holder = some c := agrees.exclusive c _ hc hh
    by_cases aim : x.session.queue.holder = some c ∧ st.aim? = some .rest
    · refine ⟨stages (fun c' call turn hcall hu => ?_) opening,
        .inl (hm.unheld aim.2 (agrees.fits c _ hc))⟩
      obtain rfl := Action.poll.inj turn
      exact (hm.locks holder).rests_on aim.2 call hcall hu
    · have idle : ¬st.underway := fun hu =>
        aim ⟨holder (Stage.holds_of_underway hu), remains.rests c _ hc hu⟩
      obtain ⟨⟨nextToken, queue, inbound, calls, same⟩, idle⟩ := hm.leaves_link hc idle holder
        (own c rfl) fun turn rest => aim ⟨turn, rest⟩
      refine ⟨stages (fun c' call turn hcall hu => ?_) opening, ?_⟩
      · obtain rfl := Action.poll.inj turn
        exact absurd hu (idle call hcall)
      · have link : Session.SameLink x.session (act x.session).1 :=
          same ▸ Session.sameLink_of_eq rfl rfl rfl rfl
        refine remains.link.imp (fun unheld => same ▸ unheld) fun ⟨handle, mute⟩ =>
          ⟨?_, link.mute mute⟩
        rw [same, ← handle]
        rfl
  · obtain ⟨link, handle, -⟩ := hr.sameLink other (remains.silent agrees)
    refine ⟨stages (fun c _ turn => absurd turn (other c)) opening, ?_⟩
    refine remains.link.imp (fun unheld => ?_) fun ⟨had, mute⟩ => ⟨handle.trans had, link.mute mute⟩
    simpa [unheld] using link.held

def Idle (x : Course) (n m : Nat) : Prop := ∀ k c, n ≤ k → k < m → ¬x.Starts k c

def Calm (x : Course) (n m : Nat) : Prop := ∀ k, n ≤ k → k ≤ m → ¬(x.sessionAt k).Disconnecting

theorem Idle.mono (h : x.Idle n m) (hk : k ≤ m) : x.Idle n k :=
  fun j c hj hjk => h j c hj (Nat.lt_of_lt_of_le hjk hk)

theorem Idle.own {entry : Entry} (h : x.Idle n m) (hk : n ≤ k) (hkm : k < m)
    (hentry : x.history[k]? = some entry) (c : CallId) (turn : entry.action = .poll c) :
    ¬entry.before.Starts c :=
  fun starts => h k c hk hkm ⟨entry, hentry, turn, starts⟩

theorem Calm.entry {entry : Entry} (h : x.Calm n m) (hk : n ≤ k) (hkm : k < m)
    (hentry : x.history[k]? = some entry) : ¬entry.before.Disconnecting := by
  have := h k hk (Nat.le_of_lt hkm)
  rwa [sessionAt, hentry] at this

theorem rests_between (reached : Reached wall config x) (hnm : n ≤ m) (hm : m ≤ x.history.length)
    (rest : (x.sessionAt n).AtRest) (unheld : (x.sessionAt n).Unheld) (idle : x.Idle n m) :
    (x.sessionAt m).AtRest ∧ (x.sessionAt m).Unheld := by
  refine reached_between (P := fun s => s.AtRest ∧ s.Unheld) reached hnm hm ⟨rest, unheld⟩ ?_
  intro k entry hk hkm hentry y after hy before hr _ ⟨rest, unheld⟩
  exact (hr.staysAtRest hy rest unheld (before ▸ idle.own hk hkm hentry)).1

theorem unnoticed_between (reached : Reached wall config x) (rest : (x.sessionAt n).AtRest)
    (unheld : (x.sessionAt n).Unheld) (idle : x.Idle n m) (hk : n ≤ k) (hkm : k < m)
    (did : x.Did k e) : e.Unnoticed := by
  obtain ⟨entry, hentry, he⟩ := did
  obtain ⟨y, after, hy, begins, rfl, before, hr, effects, -⟩ := reached_entry x reached k _ hentry
  obtain ⟨rest, unheld⟩ :=
    rests_between reached hk begins.length_le rest unheld (idle.mono (Nat.le_of_lt hkm))
  rw [begins.session] at rest unheld
  exact (hr.staysAtRest hy rest unheld (before ▸ idle.own hk hkm hentry)).2 e (effects ▸ he)

theorem undisturbed_between (reached : Reached wall config x) (hnm : n ≤ m)
    (hm : m ≤ x.history.length) (vacant : (x.sessionAt n).Vacant) (idle : x.Idle n m)
    (calm : x.Calm n m) : (x.sessionAt m).Vacant ∧
      (x.sessionAt m).lastFailure = (x.sessionAt n).lastFailure ∧
      (x.sessionAt m).sequences = (x.sessionAt n).sequences ∧
      ((x.sessionAt n).Mute →
        (x.sessionAt m).Mute ∧ (x.sessionAt m).handle? = (x.sessionAt n).handle?) := by
  refine reached_between (P := fun s => s.Vacant ∧ s.lastFailure = (x.sessionAt n).lastFailure ∧
    s.sequences = (x.sessionAt n).sequences ∧
    ((x.sessionAt n).Mute → s.Mute ∧ s.handle? = (x.sessionAt n).handle?)) reached hnm hm
    ⟨vacant, rfl, rfl, fun mute => ⟨mute, rfl⟩⟩ ?_
  intro k entry hk hkm hentry y after hy before hr _ ⟨vacant, failure, sequences, link⟩
  obtain ⟨vacant', failure', sequences', link'⟩ := hr.undisturbed hy vacant
    (before ▸ idle.own hk hkm hentry) (before ▸ calm.entry hk hkm hentry)
  refine ⟨vacant', failure'.trans failure, sequences'.trans sequences, fun mute => ?_⟩
  obtain ⟨mute', handle⟩ := link mute
  exact (link' mute').imp id fun handle' => handle'.trans handle

theorem remains_between (reached : Reached wall config x) (hnm : n ≤ m)
    (hm : m ≤ x.history.length) (remains : (x.sessionAt n).Remains h) (idle : x.Idle n m) :
    (x.sessionAt m).Remains h := by
  refine reached_between (P := fun s => s.Remains h) reached hnm hm remains ?_
  intro k entry hk hkm hentry y after hy before hr _ remains
  exact hr.remains hy remains (before ▸ idle.own hk hkm hentry)

theorem Reacts.unheld_of_settled (reached : Reached wall config x) (hr : x.Reacts wall a after)
    (hd : .settled d r ∈ after.2) : after.1.Unheld := by
  rcases hr.turn with ⟨c, rfl, hp⟩ | other
  · obtain ⟨call, -, lock⟩ := locks_of_poll reached hp
    obtain ⟨holder, settles⟩ := lock.settled hd
    intro c' call' hc' hh
    by_cases own : c' = c
    · exact settles.gone ⟨call', own ▸ hc', Stage.lined_of_holds hh⟩
    · rw [Session.poll_get?_other hp own] at hc'
      exact (reached_agrees reached).alone holder c' call' hc' own hh
  · exact absurd hd ((hr.outside other).2.2.2 d r)

theorem unheld_behind (reached : Reached wall config x) (settled : x.Did n (.settled d r)) :
    (x.sessionAt (n + 1)).Unheld := by
  obtain ⟨y, a, after, hy, -, -, hr, hd, -, next⟩ := reached_did reached settled
  exact next ▸ hr.unheld_of_settled hy hd

theorem sequences_mono (reached : Reached wall config x) (hnm : n ≤ m)
    (hm : m ≤ x.history.length) : (x.sessionAt n).sequences ≤ (x.sessionAt m).sequences := by
  refine reached_between (P := fun s => (x.sessionAt n).sequences ≤ s.sequences) reached hnm hm
    (Nat.le_refl _) ?_
  intro k entry _ _ _ y after hy _ hr _ ih
  cases hr.learns hy with
  | nothing sequences _ _ => exact sequences ▸ ih
  | ending sequences _ _ => exact sequences ▸ Nat.le_succ_of_le ih

theorem began_of_queued (reached : Reached wall config x) {call : Call} {seen : Nat}
    (hc : x.session.calls.get? c = some call) (hst : call.stage = .queued (.connect seen)) :
    ∃ g, x.Did g (.began c .connect) ∧ seen = (x.sessionAt g).sequences := by
  obtain ⟨g, operation, began, hopen⟩ := reached_begun x reached c call hc (by rw [hst]; rfl)
  obtain ⟨call', engaged⟩ := reached_engaged x reached g c operation began hopen
  obtain rfl := Option.some.inj (hc.symm.trans engaged.get)
  have worksOn := engaged.worksOn
  rw [hst] at worksOn
  cases worksOn with
  | connects _ =>
    obtain ⟨call', hc', -, hseen⟩ := reached_connecting x reached g c began hopen
    obtain rfl := Option.some.inj (hc.symm.trans hc')
    exact ⟨g, began, hseen seen hst⟩
  | disconnects aim => cases aim
  | sends hw _ => cases hw
  | asks hw _ => cases hw

/-- The next sequence behind one that failed is that of a call which began to connect behind it,
unless a disconnect came between. -/
theorem began_behind {f : Fault} (reached : Reached wall config x)
    (failed : x.Did n (.settled d (some f))) (hnk : n < k) (starts : x.Starts k c)
    (idle : x.Idle (n + 1) k) (calm : x.Calm (n + 1) k) :
    ∃ g, n < g ∧ g < k ∧ x.Did g (.began c .connect) := by
  have hk := Nat.le_of_lt (turns_lt starts)
  have vacant := (unheld_behind reached failed).vacant
  obtain ⟨y, a, after, hy, begins, rfl, hr, hd, -, next⟩ := reached_did reached failed
  have learned : after.1.lastFailure = some f ∧ after.1.sequences = y.session.sequences + 1 := by
    cases hr.learns hy with
    | nothing _ _ unsettled => exact absurd hd (unsettled d _)
    | ending sequences last settled => exact ⟨last.trans ((settled d _).mp hd).2.symm, sequences⟩
  rw [← next, ← begins.session] at learned
  obtain ⟨-, failure, sequences, -⟩ :=
    undisturbed_between reached hnk hk vacant idle calm
  obtain ⟨-, call, seen, hc, hst, own⟩ := starts.sessionAt
  have hseen : (x.sessionAt k).sequences = seen :=
    own.resolve_left (by simp [failure, learned.1])
  obtain ⟨z, hz, zbegins, rfl⟩ := reached_prefix reached hk
  rw [zbegins.session] at hc
  obtain ⟨g, began, seenAt⟩ := began_of_queued hz hc hst
  have hg := did_lt began
  refine ⟨g, Nat.lt_of_not_le fun hle => ?_, hg, zbegins.did began⟩
  have mono := sequences_mono reached hle begins.length_le
  rw [zbegins.sessionAt (Nat.le_of_lt hg), ← seenAt, ← hseen, sequences, learned.2] at mono
  omega

structure QuietFrom (x : Course) (n : Nat) : Prop where
  rests : ∀ m, n ≤ m → m ≤ x.history.length → x.Idle n m → (x.sessionAt m).AtRest ∧
    ∀ k e, n ≤ k → k < m → x.Did k e → e.Unnoticed
  next : ∀ k d, n ≤ k → x.Starts k d → x.Idle n k → x.Calm n k →
    ∃ j, n ≤ j ∧ j < k ∧ x.Did j (.began d .connect)

theorem quiet_of_failed {f : Fault} (reached : Reached wall config x)
    (failed : x.Did n (.settled d (some f))) (unlinked : (x.sessionAt (n + 1)).held = none) :
    x.QuietFrom (n + 1) := by
  have hn := did_lt failed
  have unheld := unheld_behind reached failed
  have rest : (x.sessionAt (n + 1)).AtRest := by
    have agrees := reached_sessionAt (fun _ => reached_agrees) reached (n + 1)
    exact (agrees.settled unheld.vacant).atRest unlinked
  refine ⟨fun m hm hle idle => ?_, fun k d hk starts idle calm => ?_⟩
  · exact ⟨(rests_between reached hm hle rest unheld idle).1, fun k e hk hkm did =>
      unnoticed_between reached rest unheld idle hk hkm did⟩
  · exact began_behind reached failed hk starts idle calm

end Course

end HeaterLink
