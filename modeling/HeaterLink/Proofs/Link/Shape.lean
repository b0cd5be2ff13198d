import HeaterLink.Proofs.Session.Invariants

/-!
# The state and the link

While no call is about to change the link, its state says what the link has:
a handle, a listener that runs, both or neither. A call that changes the link
goes through stages at which this does not hold; what holds there instead is
said for each stage, and every way out of these stages restores it. Only the
call that holds the link is ever at one of them.
-/

set_option autoImplicit false

namespace HeaterLink

namespace Session

def runs (s : Session) (i : StreamId) : Bool := (s.streams.get? i).any Stream.unfinished

def offers (s : Session) (i : StreamId) : Bool := (s.streams.get? i).any (·.phase = .offered)

structure Settled (s : Session) : Prop where
  notConnecting : s.state ≠ .connecting
  subscribed : s.state = .subscribed → s.held.isSome ∧ ∃ i, s.listener = some i ∧ s.runs i
  connected : s.state = .connected → s.held.isSome ∧ s.listener = none
  running : ∀ i, s.runs i → s.state = .subscribed ∧ s.listener = some i
  unheld : s.held = none → s.state = .disconnected ∧ s.listener = none

structure Unlinked (s : Session) : Prop where
  held : s.held = none
  listener : s.listener = none
  silent : ∀ i, s.runs i = false

structure Mute (s : Session) : Prop where
  held : s.held.isSome
  listener : s.listener = none
  silent : ∀ i, s.runs i = false
  state : s.state = .connected ∨ s.state = .disconnected

def Fits (s : Session) : Stage → Prop
  | .releasing _ => s.Unlinked
  | .seeking _ => s.Unlinked
  | .connecting _ _ _ => s.Unlinked
  | .discarding _ _ => s.Unlinked
  | .subscribing _ i _ => s.Mute ∧ s.offers i
  | .pausing _ _ _ => s.Mute
  | _ => True

structure SameLink (s s' : Session) : Prop where
  state : s'.state = s.state
  held : s'.held.isSome = s.held.isSome
  listener : s'.listener = s.listener
  runs : ∀ i, s'.runs i = s.runs i
  offers : ∀ i, s.offers i → s'.offers i

variable {s s' : Session}

theorem Settled.congr (hs : s.Settled) (h : SameLink s s') : s'.Settled where
  notConnecting := by rw [h.state]; exact hs.notConnecting
  subscribed := by
    rw [h.state, h.held, h.listener]
    intro e
    obtain ⟨hh, i, hi, hr⟩ := hs.subscribed e
    exact ⟨hh, i, hi, by rw [h.runs]; exact hr⟩
  connected := by rw [h.state, h.held, h.listener]; exact hs.connected
  running := by
    intro i hi
    rw [h.state, h.listener]
    exact hs.running i (h.runs i ▸ hi)
  unheld := by
    intro e
    rw [h.state, h.listener]
    exact hs.unheld (by simpa [e] using h.held.symm)

theorem sameLink_of_eq (state : s'.state = s.state) (held : s'.held = s.held)
    (listener : s'.listener = s.listener) (streams : s'.streams = s.streams) : SameLink s s' where
  state := state
  held := by rw [held]
  listener := listener
  runs := fun i => by rw [runs, runs, streams]
  offers := fun i h => by rwa [offers, streams]

theorem SameLink.unlinked (h : SameLink s s') (hs : s.Unlinked) : s'.Unlinked where
  held := by simpa [hs.held] using h.held
  listener := h.listener.trans hs.listener
  silent := fun i => (h.runs i).trans (hs.silent i)

theorem SameLink.mute (h : SameLink s s') (hs : s.Mute) : s'.Mute where
  held := h.held.trans hs.held
  listener := h.listener.trans hs.listener
  silent := fun i => (h.runs i).trans (hs.silent i)
  state := by rw [h.state]; exact hs.state

theorem SameLink.fits (h : SameLink s s') {st : Stage} (hs : s.Fits st) : s'.Fits st := by
  cases st with
  | releasing next => exact h.unlinked hs
  | seeking made => exact h.unlinked hs
  | connecting made handle a => exact h.unlinked hs
  | discarding made f => exact h.unlinked hs
  | subscribing made i a => exact ⟨h.mute hs.1, h.offers i hs.2⟩
  | pausing made f a => exact h.mute hs
  | _ => trivial

theorem Unlinked.settled (h : s.Unlinked) (hd : s.state = .disconnected) : s.Settled where
  notConnecting := by simp [hd]
  subscribed := by simp [hd]
  connected := by simp [hd]
  running := by simp [h.silent]
  unheld := fun _ => ⟨hd, h.listener⟩

theorem Mute.settled (h : s.Mute) : s.Settled where
  notConnecting := by rcases h.state with e | e <;> simp [e]
  subscribed := by rcases h.state with e | e <;> simp [e]
  connected := fun _ => ⟨h.held, h.listener⟩
  running := by simp [h.silent]
  unheld := by
    intro e
    have := h.held
    simp [e] at this

end Session

def Stage.holds : Stage → Bool
  | .writing _ => true
  | st => st.underway

theorem Stage.holds_of_underway {st : Stage} (h : st.underway) : st.holds := by
  cases st <;> simp_all [Stage.holds, Stage.underway]

theorem Session.fits_of_not_underway {s : Session} {st : Stage} (h : ¬st.underway) :
    s.Fits st := by
  cases st <;> simp_all [Stage.underway, Session.Fits]

namespace Session

structure Agrees (s : Session) : Prop where
  exclusive : ∀ c call, s.calls.get? c = some call → call.stage.holds → s.queue.holder = some c
  fits : ∀ c call, s.calls.get? c = some call → s.Fits call.stage
  settled : (∀ c call, s.calls.get? c = some call → ¬call.stage.underway) → s.Settled

def Alone (s : Session) (c : CallId) : Prop :=
  ∀ c' call, s.calls.get? c' = some call → c' ≠ c → ¬call.stage.holds

theorem Agrees.alone {s : Session} {c : CallId} (h : s.Agrees) (holder : s.queue.holder = some c) :
    s.Alone c := by
  intro c' call hc hne hh
  have := h.exclusive c' call hc hh
  rw [holder] at this
  exact hne (Option.some.inj this).symm

theorem Agrees.settled_of_not_underway {s : Session} {c : CallId} {call : Call} (h : s.Agrees)
    (alone : s.Alone c) (hc : s.calls.get? c = some call) (hu : ¬call.stage.underway) :
    s.Settled := by
  refine h.settled fun c' call' hc' => ?_
  by_cases e : c' = c
  · subst e
    rw [hc] at hc'
    exact Option.some.inj hc' ▸ hu
  · exact fun hu' => alone c' call' hc' e (Stage.holds_of_underway hu')

/-- What is not about the link and its calls does not matter. -/
theorem Agrees.congr {s s' : Session} (h : s.Agrees) (link : SameLink s s')
    (calls : s'.calls = s.calls)
    (holder : ∀ c, s.queue.holder = some c → s'.queue.holder = some c) : s'.Agrees where
  exclusive := by
    rw [calls]
    exact fun c call hc hh => holder c (h.exclusive c call hc hh)
  fits := by
    rw [calls]
    exact fun c call hc => link.fits (h.fits c call hc)
  settled := by
    rw [calls]
    exact fun hn => (h.settled hn).congr link

/-- A call that needs no link changes nothing about it. -/
theorem Agrees.aside {s s' : Session} {c : CallId} (h : s.Agrees) (link : SameLink s s')
    (before : ∀ call, s.calls.get? c = some call → ¬call.stage.underway)
    (after : ∀ call, s'.calls.get? c = some call → ¬call.stage.holds)
    (others : ∀ c', c' ≠ c → s'.calls.get? c' = s.calls.get? c')
    (holder : ∀ c', c' ≠ c → s.queue.holder = some c' → s'.queue.holder = some c') :
    s'.Agrees where
  exclusive := by
    intro c' call hc hh
    by_cases e : c' = c
    · subst e
      exact absurd hh (after call hc)
    · exact holder c' e (h.exclusive c' call (others c' e ▸ hc) hh)
  fits := by
    intro c' call hc
    by_cases e : c' = c
    · subst e
      exact fits_of_not_underway fun hu => after call hc (Stage.holds_of_underway hu)
    · exact link.fits (h.fits c' call (others c' e ▸ hc))
  settled := by
    intro hn
    refine (h.settled fun c' call hc => ?_).congr link
    by_cases e : c' = c
    · subst e
      exact before call hc
    · exact hn c' call (others c' e ▸ hc)

theorem runs_eq_false_of_settled {s : Session} (h : s.Settled) {i : StreamId}
    (hi : s.listener ≠ some i) : s.runs i = false := by
  cases hr : s.runs i with
  | false => rfl
  | true => exact absurd (h.running i hr).2 hi

/-- Whatever the state was, cancelling the listener silences all streams. -/
theorem cancelListener_silent {s : Session} (h : s.Settled) (i : StreamId) :
    (Act.cancelListener s).1.runs i = false := by
  rw [Act.cancelListener_fst]
  show ((Act.cancelledStreams s).get? i).any Stream.unfinished = false
  unfold Act.cancelledStreams
  cases hr : s.runningListener with
  | none =>
    cases hi : s.runs i with
    | false => exact hi
    | true =>
      have hl := (h.running i hi).2
      have : s.runningListener = some i := by
        simp only [runningListener, hl, Option.filter_some]
        exact if_pos hi
      rw [hr] at this
      cases this
  | some j =>
    have hl : s.listener = some j := (Option.filter_eq_some_iff.mp hr).1
    show ((s.streams.modify j _).get? i).any Stream.unfinished = false
    rw [Table.get?_modify]
    by_cases e : j = i
    · subst e
      rw [if_pos rfl]
      cases s.streams.get? j <;> simp [Stream.unfinished]
    · rw [if_neg e]
      exact runs_eq_false_of_settled h (by simpa [hl] using e)

theorem cancelListener_mute {s : Session} (h : s.Settled) (held : s.held.isSome)
    (state : s.state ≠ .subscribed) : (Act.cancelListener s).1.Mute := by
  have silent := cancelListener_silent h
  rw [Act.cancelListener_fst] at silent ⊢
  refine ⟨held, rfl, silent, ?_⟩
  have := h.notConnecting
  cases hs : s.state <;> simp_all

theorem Mute.erase {s : Session} (h : s.Mute) (i : StreamId) :
    Mute { s with streams := s.streams.erase i } := by
  refine ⟨h.held, h.listener, fun j => ?_, h.state⟩
  show ((s.streams.erase i).get? j).any Stream.unfinished = false
  rw [Table.get?_erase]
  split
  · rfl
  · exact h.silent j

theorem Settled.not_subscribed {s : Session} (h : s.Settled)
    (unready : ¬(s.isListening ∧ s.state.isReady)) : s.state ≠ .subscribed := by
  intro hs
  obtain ⟨-, i, hi, hr⟩ := h.subscribed hs
  refine unready ⟨?_, by rw [hs]; rfl⟩
  rw [isListening, runningListener, hi, Option.filter_some]
  exact (if_pos hr) ▸ rfl

end Session

end HeaterLink
