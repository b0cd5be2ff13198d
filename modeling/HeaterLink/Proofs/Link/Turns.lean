import HeaterLink.Proofs.Link.Shape

/-!
# Turns and the link

Acts of the call that holds the link lead from what the link has at one stage
to what it has at the next, and give the link away only when the state agrees
with it again. Acts of other calls change nothing about it.
-/

set_option autoImplicit false

namespace HeaterLink

namespace Act.Turn

open Session

variable {t : Turn} {s : Session}

theorem goto_agrees (alone : s.Alone t.call) {st : Stage} (fits : s.Fits st)
    (holder : st.holds → s.queue.holder = some t.call) (settled : ¬st.underway → s.Settled) :
    (t.goto st s).1.Agrees := by
  have link : SameLink s (t.goto st s).1 := ⟨rfl, rfl, rfl, fun _ => rfl, fun _ h => h⟩
  constructor
  · intro c call hc hh
    rw [goto_get?] at hc
    split at hc
    · rename_i e
      obtain rfl := Option.some.inj hc
      exact e ▸ holder hh
    · rename_i e
      exact absurd hh (alone c call hc (Ne.symm e))
  · intro c call hc
    rw [goto_get?] at hc
    refine link.fits ?_
    split at hc
    · obtain rfl := Option.some.inj hc
      exact fits
    · rename_i e
      exact fits_of_not_underway fun hu =>
        alone c call hc (Ne.symm e) (Stage.holds_of_underway hu)
  · intro hn
    refine (settled ?_).congr link
    exact hn t.call ⟨t.plan, st, none⟩ (by rw [goto_get?, if_pos rfl])

theorem follow_agrees (alone : s.Alone t.call) (settled : s.Settled) (v : Verdict) :
    (t.follow v s).1.Agrees := by
  have link : SameLink s (t.follow v s).1 := by
    rw [follow_fst]
    exact ⟨rfl, rfl, rfl, fun _ => rfl, fun _ h => h⟩
  have hidle (c : CallId) (call : Call) (hc : (t.follow v s).1.calls.get? c = some call) :
      ¬call.stage.holds := by
    rw [follow_get?] at hc
    split at hc
    · cases v with
      | finished o => cases hc
      | run operation plan =>
        obtain rfl := Option.some.inj hc
        simp [Stage.holds, Stage.underway]
    · rename_i e
      exact alone c call hc (Ne.symm e)
  constructor
  · exact fun c call hc hh => absurd hh (hidle c call hc)
  · exact fun c call hc =>
      fits_of_not_underway fun hu => hidle c call hc (Stage.holds_of_underway hu)
  · exact fun _ => settled.congr link

theorem finish_agrees (alone : s.Alone t.call) (settled : s.Settled) (o : Outcome) :
    (t.finish o s).1.Agrees := by
  rw [finish_fst]
  exact follow_agrees alone settled _

/-- The link goes to the next call, and the operation of this one has a result. -/
theorem releaseLink_finish_agrees (alone : s.Alone t.call) (settled : s.Settled) (o : Outcome) :
    (all [releaseLink, t.finish o] s).1.Agrees := by
  simp only [all_cons, all_nil, releaseLink_fst]
  apply finish_agrees
  · exact alone
  · exact settled.congr (sameLink_of_eq rfl rfl rfl rfl)

theorem endSequence_agrees (alone : s.Alone t.call) (settled : s.Settled)
    (failure : Option Fault) : (t.endSequence failure s).1.Agrees := by
  apply releaseLink_finish_agrees
  · exact alone
  · exact settled.congr (sameLink_of_eq rfl rfl rfl rfl)

section Holder

/-! The acts of the call that holds the link. -/

variable (alone : s.Alone t.call) (holder : s.queue.holder = some t.call)

include alone holder

theorem trySubscribe_agrees (mute : s.Mute) (made : Nat) (last : Fault) :
    (t.trySubscribe made last s).1.Agrees := by
  rw [trySubscribe, choose_apply]
  cases hh : s.held with
  | none =>
    have := mute.held
    simp [hh] at this
  | some held =>
    by_cases hm : made < s.config.subscribe.attempts
    · simp only [hm, if_true]
      apply goto_agrees
      · exact alone
      · refine ⟨⟨mute.held, mute.listener, fun i => ?_, mute.state⟩, ?_⟩
        · show ((s.streams.insert s.nextStream _).get? i).any Stream.unfinished = false
          rw [Table.get?_insert]
          by_cases e : s.nextStream = i
          · simp [e, Stream.unfinished]
          · rw [if_neg e]
            exact mute.silent i
        · show ((s.streams.insert s.nextStream _).get? s.nextStream).any _ = true
          simp [Table.get?_insert]
      · exact fun _ => holder
      · simp [Stage.underway]
    · simp only [hm]
      exact endSequence_agrees alone mute.settled _

theorem subscribeFailed_agrees (mute : s.Mute) (made : Nat) (stream : StreamId) (fault : Fault) :
    (t.subscribeFailed made stream fault s).1.Agrees := by
  have erased := mute.erase stream
  rw [subscribeFailed, choose_apply]
  by_cases hm : made + 1 < s.config.subscribe.attempts
  · simp only [hm, if_true, all_cons, all_nil, change_apply]
    apply goto_agrees
    · exact alone
    · exact erased
    · exact fun _ => holder
    · simp [Stage.underway]
  · simp only [hm, all_cons, all_nil, change_apply]
    apply trySubscribe_agrees
    · exact alone
    · exact holder
    · exact erased

omit holder in
theorem subscribed_agrees (mute : s.Mute) {stream : StreamId} (offered : s.offers stream) :
    (t.subscribed stream s).1.Agrees := by
  have hruns (i : StreamId) :
      ((s.streams.modify stream ({ · with phase := .waiting })).get? i).any Stream.unfinished =
        decide (stream = i) := by
    rw [Table.get?_modify]
    by_cases e : stream = i
    · subst e
      cases hf : s.streams.get? stream with
      | none => simp [offers, hf] at offered
      | some found => simp [Stream.unfinished]
    · rw [if_neg e, decide_eq_false e]
      exact mute.silent i
  simp only [subscribed, all_cons, all_nil, change_apply, tell_apply, enter_apply]
  apply endSequence_agrees
  · exact alone
  · constructor
    · simp
    · exact fun _ => ⟨mute.held, stream, rfl, by rw [runs, hruns, decide_eq_true rfl]⟩
    · simp
    · intro i hi
      rw [runs, hruns, decide_eq_true_eq] at hi
      exact ⟨rfl, by rw [hi]⟩
    · intro e
      have := mute.held
      simp [show s.held = none from e] at this

theorem startSubscribe_agrees (settled : s.Settled) (held : s.held.isSome)
    (state : s.state ≠ .subscribed) : (t.startSubscribe s).1.Agrees := by
  have mute := cancelListener_mute settled held state
  simp only [startSubscribe, all_cons, all_nil, cancelListener_fst] at mute ⊢
  apply trySubscribe_agrees
  · exact alone
  · exact holder
  · exact mute

theorem tryConnect_agrees (unlinked : s.Unlinked) (made : Nat) (last : Fault) :
    (t.tryConnect made last s).1.Agrees := by
  rw [tryConnect, choose_apply]
  by_cases hm : made < s.config.connect.attempts
  · simp only [hm, if_true, all_cons, all_nil, enter_apply]
    apply goto_agrees
    · exact alone
    · exact ⟨unlinked.held, unlinked.listener, unlinked.silent⟩
    · exact fun _ => holder
    · simp [Stage.underway]
  · simp only [hm, if_false, all_cons, all_nil, enter_apply]
    apply endSequence_agrees
    · exact alone
    · exact Unlinked.settled ⟨unlinked.held, unlinked.listener, unlinked.silent⟩ rfl

theorem connected_agrees (unlinked : s.Unlinked) (handle : Handle) :
    (t.connected handle s).1.Agrees := by
  simp only [connected, all_cons, all_nil, change_apply, tell_apply, enter_apply]
  apply startSubscribe_agrees
  · exact alone
  · exact holder
  · exact Mute.settled ⟨rfl, unlinked.listener, unlinked.silent, .inl rfl⟩
  · rfl
  · simp

theorem discard_agrees (unlinked : s.Unlinked) (made : Nat) (handle : Handle) (fault : Fault) :
    (t.discard made handle fault s).1.Agrees := by
  simp only [discard, all_cons, all_nil]
  apply goto_agrees
  · exact alone
  · exact unlinked
  · exact fun _ => holder
  · simp [Stage.underway]

theorem released_agrees (unlinked : s.Unlinked) (next : Release) :
    (t.released next s).1.Agrees := by
  simp only [released, all_cons, all_nil, resetInbound_apply, goDown_fst]
  cases next with
  | reconnect =>
    apply tryConnect_agrees
    · exact alone
    · exact holder
    · exact ⟨unlinked.held, unlinked.listener, unlinked.silent⟩
  | rest =>
    simp only [all_cons, change_apply]
    apply releaseLink_finish_agrees
    · exact alone
    · exact Unlinked.settled ⟨unlinked.held, unlinked.listener, unlinked.silent⟩ rfl

theorem release_agrees (settled : s.Settled) (next : Release) :
    (t.release next s).1.Agrees := by
  have silent := cancelListener_silent settled
  simp only [release, all_cons, all_nil, cancelListener_fst, choose_apply] at silent ⊢
  cases hh : s.held with
  | none =>
    apply released_agrees
    · exact alone
    · exact holder
    · exact ⟨rfl, rfl, silent⟩
  | some held =>
    simp only [all_cons, change_apply]
    apply goto_agrees
    · exact alone
    · exact ⟨rfl, rfl, silent⟩
    · exact fun _ => holder
    · simp [Stage.underway]

theorem establish_agrees (settled : s.Settled) : (t.establish s).1.Agrees := by
  rw [establish, choose_apply]
  cases hh : s.held with
  | none =>
    have hd := settled.unheld hh
    apply tryConnect_agrees alone holder
    refine ⟨hh, hd.2, fun i => ?_⟩
    exact runs_eq_false_of_settled settled (by simp [hd.2])
  | some held =>
    cases hu : held.up with
    | false =>
      simp only [hu]
      exact release_agrees alone holder settled .reconnect
    | true =>
      by_cases hl : s.isListening && s.state.isReady
      · simp only [hu, hl, if_true]
        exact endSequence_agrees alone settled none
      · simp only [hu, hl, if_true]
        exact startSubscribe_agrees alone holder settled (by simp [hh])
          (settled.not_subscribed (by simpa using hl))

omit holder in
theorem expired_agrees (settled : s.Settled) (w : Write) : (t.expired w s).1.Agrees := by
  rw [expired]
  cases w.token with
  | none => exact finish_agrees alone settled _
  | some k =>
    simp only [all_cons, all_nil, withdraw_apply]
    apply finish_agrees
    · exact alone
    · exact settled.congr (sameLink_of_eq rfl rfl rfl rfl)

omit holder in
theorem written_agrees (settled : s.Settled) (w : Write) (fault : Option Fault) :
    (t.written w fault s).1.Agrees := by
  have kept : Settled { s with queue := s.queue.release } :=
    settled.congr (sameLink_of_eq rfl rfl rfl rfl)
  simp only [written, all_cons, all_nil, releaseLink_fst]
  cases w.token with
  | none =>
    apply finish_agrees
    · exact alone
    · exact kept
  | some k =>
    cases fault with
    | none =>
      apply goto_agrees
      · exact alone
      · trivial
      · simp [Stage.holds, Stage.underway]
      · exact fun _ => kept
    | some f =>
      simp only [all_cons, all_nil, withdraw_apply]
      apply finish_agrees
      · exact alone
      · exact settled.congr (sameLink_of_eq rfl rfl rfl rfl)

theorem write_agrees (settled : s.Settled) (w : Write) : (t.write w s).1.Agrees := by
  rw [write, choose_apply]
  cases s.held with
  | none => exact written_agrees alone settled w _
  | some held =>
    cases hu : held.up with
    | false =>
      simp only [hu]
      exact written_agrees alone settled w _
    | true =>
      simp only [hu, if_true, all_cons, all_nil]
      apply goto_agrees
      · exact alone
      · trivial
      · exact fun _ => holder
      · exact fun _ => settled

theorem proceed_agrees (settled : s.Settled) (use : Use) : (t.proceed use s).1.Agrees := by
  cases use with
  | connect seen =>
    rw [proceed, choose_apply]
    cases s.lastFailure with
    | none => exact establish_agrees alone holder settled
    | some f =>
      by_cases hs : s.sequences = seen
      · simp only [hs, if_true]
        exact establish_agrees alone holder settled
      · simp only [hs, if_false]
        exact releaseLink_finish_agrees alone settled _
  | write w => exact write_agrees alone holder settled w
  | disconnect => exact release_agrees alone holder settled .rest

end Holder

section Aside

/-! The acts of a call that has nothing to do with the link. -/

variable (h : s.Agrees)
  (before : ∀ call, s.calls.get? t.call = some call → ¬call.stage.underway)

include h before

theorem goto_aside {st : Stage} (hst : ¬st.holds) : (t.goto st s).1.Agrees := by
  refine h.aside (c := t.call) (sameLink_of_eq rfl rfl rfl rfl) before ?_ ?_ fun _ _ e => e
  · intro call hc
    rw [goto_get?, if_pos rfl] at hc
    exact Option.some.inj hc ▸ hst
  · intro c hc
    exact (Table.get?_insert _ _ _ _).trans (if_neg (Ne.symm hc))

theorem follow_aside (v : Verdict) : (t.follow v s).1.Agrees := by
  refine h.aside (c := t.call) ?_ before ?_ ?_ ?_
  · rw [follow_fst]
    exact sameLink_of_eq rfl rfl rfl rfl
  · intro call hc
    rw [follow_get?, if_pos rfl] at hc
    cases v with
    | finished o => cases hc
    | run operation plan =>
      obtain rfl := Option.some.inj hc
      simp [Stage.holds, Stage.underway]
  · intro c hc
    rw [follow_get?, if_neg (Ne.symm hc)]
  · rw [follow_fst]
    exact fun _ _ e => e

theorem finish_aside (o : Outcome) : (t.finish o s).1.Agrees := by
  rw [finish_fst]
  exact follow_aside h before _

theorem fallBack_aside : (t.fallBack s).1.Agrees := finish_aside h before _

theorem withdraw_aside (k : Token) {a : Act}
    (ha : ∀ s' : Session, s'.Agrees →
      (∀ call, s'.calls.get? t.call = some call → ¬call.stage.underway) → (a s').1.Agrees) :
    (all [withdraw k, a] s).1.Agrees := by
  simp only [all_cons, all_nil, withdraw_apply]
  refine ha _ ?_ before
  exact h.congr (sameLink_of_eq rfl rfl rfl rfl) rfl fun _ e => e

theorem expired_aside (w : Write) : (t.expired w s).1.Agrees := by
  rw [expired]
  cases w.token with
  | none => exact finish_aside h before _
  | some k => exact withdraw_aside h before k fun _ h' b => fallBack_aside h' b

theorem enqueue_aside (use : Use) : (t.enqueue use s).1.Agrees := by
  simp only [enqueue, all_cons, all_nil, change_apply]
  apply goto_aside
  · refine h.congr (sameLink_of_eq rfl rfl rfl rfl) rfl fun c e => ?_
    simp [LinkQueue.join, e]
  · exact before
  · simp [Stage.holds, Stage.underway]

theorem begin_aside (operation : Operation) : (t.begin operation s).1.Agrees := by
  simp only [begin, all_cons, all_nil, tell_apply]
  cases operation with
  | connect => exact enqueue_aside h before _
  | send frame => exact enqueue_aside h before _
  | disconnect => exact enqueue_aside h before _
  | ask frame limit =>
    simp only [prepare, choose_apply, all_cons, all_nil]
    apply enqueue_aside
    · exact h.congr (sameLink_of_eq rfl rfl rfl rfl) rfl fun _ e => e
    · exact before

end Aside

/-- A call that neither has the link nor takes it leaves it as it is. -/
theorem Moves.aside {answer : Option RadioAnswer} {st : Stage} {a : Act}
    (step : Moves t s answer st a) (idle : ¬st.holds)
    (waits : ∀ use, st = .queued use → s.queue.holder ≠ some t.call) :
    ∃ nextToken queue inbound calls, (a s).1 =
      { s with nextToken := nextToken, queue := queue, inbound := inbound, calls := calls } := by
  cases step with
  | opens => exact ⟨_, _, _, _, follow_fst t _ s⟩
  | @begins _ operation => cases operation <;> exact ⟨_, _, _, _, rfl⟩
  | proceeds holder => exact absurd holder (waits _ rfl)
  | @leaves _ w _ _ =>
    simp only [all_cons, all_nil, change_apply, expired]
    cases w.token with
    | none => exact ⟨_, _, _, _, (finish_fst _).trans (follow_fst t _ _)⟩
    | some k => exact ⟨_, _, _, _, (finish_fst _).trans (follow_fst t _ _)⟩
  | answered _ => exact ⟨_, _, _, _, (finish_fst _).trans (follow_fst t _ _)⟩
  | silent _ _ _ => exact ⟨_, _, _, _, (finish_fst _).trans (follow_fst t _ _)⟩
  | displaced _ _ => exact ⟨_, _, _, _, (finish_fst _).trans (follow_fst t _ _)⟩
  | _ => exact absurd rfl idle

end Act.Turn

end HeaterLink
