import HeaterLink.Proofs.Calls.Returns
import HeaterLink.Proofs.Link.Logs

/-!
# The link at rest

A disconnect returns with the link at rest: no handle, no listener, and the
state says so. Only a call that has the link can change that, in a turn of its
own. Until one takes such a turn the session asks nothing of the radio, emits
nothing and stays disconnected, whatever else happens to it.
-/

set_option autoImplicit false

namespace HeaterLink

structure Session.AtRest (s : Session) : Prop where
  unlinked : s.Unlinked
  state : s.state = .disconnected

def Effect.Unnoticed : Effect → Prop
  | .requested _ _ => False
  | .emitted _ => False
  | _ => True

theorem Effect.unnoticed_of_unlogged {e : Effect} (h : e.logged = false) : e.Unnoticed := by
  cases e <;> trivial

theorem Session.SameLink.atRest {s s' : Session} (h : SameLink s s') (rest : s.AtRest) :
    s'.AtRest where
  unlinked := h.unlinked rest.unlinked
  state := h.state.trans rest.state

namespace Act.Turn

open Session

variable {t : Turn} {s : Session} {st : Stage} {answer : Option RadioAnswer} {a : Act} {e : Effect}

theorem Moves.unnoticed (step : Moves t s answer st a) (idle : ¬st.holds)
    (waits : ∀ use, st = .queued use → s.queue.holder ≠ some t.call) (he : e ∈ (a s).2) :
    e.Unnoticed :=
  Effect.unnoticed_of_unlogged (step.unlogged idle waits he)

theorem released_atRest (unlinked : s.Unlinked) : (t.released .rest s).1.AtRest := by
  have down : AtRest { s with state := .disconnected } :=
    ⟨⟨unlinked.held, unlinked.listener, unlinked.silent⟩, rfl⟩
  have link : SameLink { s with state := .disconnected } (t.released .rest s).1 := by
    simp only [released, all_cons, all_nil, resetInbound_apply, goDown_fst, change_apply,
      releaseLink_fst]
    rw [finish_fst, follow_fst]
    exact sameLink_of_eq rfl rfl rfl rfl
  exact link.atRest down

/-- A turn of a call that disconnects and returns leaves the link at rest. -/
theorem Moves.atRest {plan : Plan} {o : Outcome} (step : Moves t s answer st a) (agrees : s.Agrees)
    (hc : s.calls.get? t.call = some ⟨plan, st, answer⟩) (aim : st.aim? = some .rest)
    (returned : .returned t.call o ∈ (a s).2) : (a s).1.AtRest := by
  cases step with
  | @proceeds _ use holder =>
    cases use with
    | disconnect =>
      have settled : s.Settled := agrees.settled_of_not_underway (agrees.alone holder) hc
        (by simp [Stage.underway])
      simp only [proceed, release, all_cons, all_nil, choose_apply, List.append_nil] at returned ⊢
      rw [cancelListener_fst] at returned ⊢
      cases hh : s.held with
      | none =>
        refine released_atRest ⟨rfl, rfl, fun i => ?_⟩
        have silent := cancelListener_silent settled i
        rwa [cancelListener_fst] at silent
      | some held =>
        simp only [hh, all_cons, all_nil, change_apply, request, tell_apply, goto,
          List.nil_append, List.append_nil, List.mem_append, List.mem_singleton] at returned
        rcases returned with h | h
        · obtain ⟨i, e⟩ := mem_cancelListener h
          cases e
        · cases h
    | connect seen => cases aim
    | write w => cases aim
  | released =>
    obtain rfl := Option.some.inj aim
    exact released_atRest (agrees.fits _ _ hc)
  | _ => cases aim

theorem done_of_pursued {after : Session × List Effect} {o : Outcome}
    (h : Pursued t .rest s after) (plan : t.plan = .finish) (ho : .returned t.call o ∈ after.2) :
    o = .done := by
  obtain ⟨s₁, effects, finale, works, hof, rfl⟩ := h
  rcases List.mem_append.mp ho with ho | ho
  · exact (works.plain _ ho).elim
  · cases hof with
    | goto _ _ => cases ho
    | rest =>
      simp only [Finale.act, leaveAtRest, all_cons, all_nil, change_apply, List.nil_append,
        List.append_nil] at ho
      rcases List.mem_append.mp ho with ho | ho
      · exact absurd ho (releaseLink_unreturned _ _ _)
      · rw [finish_snd, plan] at ho
        rcases List.mem_cons.mp ho with e | ho
        · cases e
        · exact (Verdict.finished.inj (returned_mem_follow.mp ho)).symm

end Act.Turn

namespace Course

def Unclaimed (x : Course) (n m : Nat) : Prop :=
  ∀ k c entry, n < k → k < m → x.history[k]? = some entry → entry.action = .poll c →
    entry.before.queue.holder ≠ some c

variable {wall : Nat → Clock} {config : Config} {x y : Course} {a : Action}
  {after : Session × List Effect} {c : CallId} {j n m : Nat} {o : Outcome}

theorem Reacts.rests (reached : Reached wall config x) (h : x.Reacts wall a after)
    (rest : x.session.AtRest) (away : ∀ c, a = .poll c → x.session.queue.holder ≠ some c) :
    after.1.AtRest ∧ ∀ e ∈ after.2, e.Unnoticed := by
  rcases h.turn with ⟨c, rfl, hp⟩ | other
  · have waits := away c rfl
    obtain ⟨call, act, hc, hm, rfl⟩ := Session.poll_moves hp
    have idle : ¬call.stage.holds := fun hh =>
      waits ((reached_agrees reached).exclusive c call hc hh)
    refine ⟨?_, fun e he => hm.unnoticed idle (fun _ _ => waits) he⟩
    obtain ⟨nextToken, queue, inbound, calls, e⟩ := hm.aside idle fun _ _ => waits
    -- Off the link a turn has no more than its token, its place in line and its own stage.
    have link : Session.SameLink x.session (act x.session).1 :=
      e ▸ Session.sameLink_of_eq rfl rfl rfl rfl
    exact link.atRest rest
  · obtain ⟨link, -, unlogged⟩ := h.sameLink other rest.unlinked.silent
    exact ⟨link.atRest rest, fun e he => Effect.unnoticed_of_unlogged (unlogged e he)⟩

theorem last_turn (reached : Reached wall config x) (hj : x.Invoked j c .disconnect)
    (hn : x.Did n (.returned c o)) : ∃ y : Course, ∃ t : Act.Turn, ∃ st answer act,
      Reached wall config y ∧ t.call = c ∧ y.session.calls.get? t.call = some ⟨t.plan, st, answer⟩ ∧
      t.plan = .finish ∧ st.aim? = some .rest ∧ t.Moves y.session answer st act ∧
      .returned t.call o ∈ (act y.session).2 ∧ x.sessionAt (n + 1) = (act y.session).1 := by
  obtain ⟨entry, hentry, ho⟩ := hn
  obtain ⟨y, after, hy, begins, rfl, -, hr, heffects, hnext⟩ :=
    reached_entry x reached n entry hentry
  rw [heffects] at ho
  have turn := hr.returned ho
  have hj' := (begins.invoked_iff (poll_later reached hentry turn hj)).mp hj
  rw [turn] at hr
  rw [hnext]
  cases hr with
  | poll hp =>
    obtain ⟨call, act, hc, hm, rfl⟩ := Session.poll_moves hp
    obtain ⟨plan, st, answer⟩ := call
    cases reached_single hy hj' rfl hc with
    | opening hst =>
      obtain rfl : st = .opening .disconnect := hst
      cases hm with
      | opens => cases Act.Turn.returned_mem_follow.mp ho
    | ready _ hst =>
      obtain rfl : st = .ready .disconnect := hst
      cases hm with
      | begins => rcases Act.Turn.mem_begin ho with e | e | ⟨old, e⟩ <;> cases e
    | working hplan worksOn =>
      cases worksOn with
      | disconnects aim => exact ⟨y, _, st, answer, act, hy, rfl, hc, hplan, aim, hm, ho, rfl⟩

theorem atRest_of_returned (reached : Reached wall config x) (hj : x.Invoked j c .disconnect)
    (hn : x.Did n (.returned c o)) : (x.sessionAt (n + 1)).AtRest := by
  obtain ⟨y, t, st, answer, act, hy, -, hc, -, aim, hm, ho, hnext⟩ := last_turn reached hj hn
  rw [hnext]
  exact hm.atRest (reached_agrees hy) hc aim ho

theorem done_of_returned (reached : Reached wall config x) (hj : x.Invoked j c .disconnect)
    (hn : x.Did n (.returned c o)) : o = .done := by
  obtain ⟨y, t, st, answer, act, -, -, -, plan, aim, hm, ho, -⟩ := last_turn reached hj hn
  rcases hm.pursues aim with pursued | ⟨seen, f, rfl, -⟩
  · exact Act.Turn.done_of_pursued pursued plan ho
  · cases aim

/-- After a disconnect has returned, and until a call takes a turn with the link, the link is at
rest and nobody notices anything of the session. -/
theorem rest_of_returned (reached : Reached wall config x) (hj : x.Invoked j c .disconnect)
    (hn : x.Did n (.returned c o)) (hlt : n < m) (hm : m ≤ x.history.length)
    (unclaimed : x.Unclaimed n m) :
    (x.sessionAt m).AtRest ∧ ∀ k e, n < k → k < m → x.Did k e → e.Unnoticed := by
  induction m with
  | zero => cases hlt
  | succ m ih =>
    rcases Nat.lt_or_ge n m with hnm | hge
    · have hbefore : x.Unclaimed n m := fun k c entry hk hkm =>
        unclaimed k c entry hk (Nat.lt_succ_of_lt hkm)
      obtain ⟨rest, quiet⟩ := ih hnm (Nat.le_of_succ_le hm) hbefore
      have hentry := List.getElem?_eq_getElem (l := x.history) hm
      obtain ⟨y, after, hy, begins, rfl, hsession, hr, heffects, hnext⟩ :=
        reached_entry x reached m _ hentry
      rw [begins.session] at rest
      obtain ⟨rest', quiet'⟩ := hr.rests hy rest fun c ha =>
        hsession ▸ unclaimed _ c _ hnm (Nat.lt_succ_self _) hentry ha
      refine ⟨hnext ▸ rest', fun k e hk hkm hd => ?_⟩
      rcases Nat.lt_succ_iff_lt_or_eq.mp hkm with hkm | rfl
      · exact quiet k e hk hkm hd
      · obtain ⟨entry, hentry', he⟩ := hd
        obtain rfl := Option.some.inj (hentry.symm.trans hentry')
        exact quiet' e (heffects ▸ he)
    · obtain rfl : n = m := Nat.le_antisymm (Nat.le_of_lt_succ hlt) hge
      exact ⟨atRest_of_returned reached hj hn, fun k e hk hkm =>
        absurd hk (Nat.not_lt_of_le (Nat.le_of_lt_succ hkm))⟩

end Course

end HeaterLink
