import HeaterLink.Proofs.Link.Agreement
import HeaterLink.Proofs.Requests.Steps
import HeaterLink.Proofs.Session.History

/-!
# Streams

Every subscription gets a stream with a number of its own. A turn of a call
offers a new stream, starts the one it waits for, or cancels the one that runs;
only its own listener takes it further. So a stream that was cancelled stays
so, and a stream listens only after its listener has started with a clean
reassembler.
-/

set_option autoImplicit false

namespace HeaterLink

inductive StreamPhase.Turns : StreamPhase → StreamPhase → Prop
  | stays {p : StreamPhase} : Turns p p
  | starts : Turns .offered .waiting
  | cancels {p : StreamPhase} : Turns p .cancelled

theorem StreamPhase.Turns.trans {p q r : StreamPhase} (h : p.Turns q) (h' : q.Turns r) :
    p.Turns r := by
  cases h' with
  | stays => exact h
  | starts => cases h with
    | stays => exact .starts
  | cancels => exact .cancels

namespace Session

def Counted (s : Session) : Prop :=
  ∀ i stream, s.streams.get? i = some stream → i < s.nextStream

structure Spent (s : Session) (i : StreamId) : Prop where
  old : i < s.nextStream
  cancelled : ∀ stream, s.streams.get? i = some stream → stream.phase = .cancelled

structure Evolves (s : Session) (after : Session × List Effect) : Prop where
  nextStream : s.nextStream ≤ after.1.nextStream
  counted : s.Counted → after.1.Counted
  phase : ∀ i stream, after.1.streams.get? i = some stream →
    (s.nextStream ≤ i ∧ stream.phase ≠ .listening) ∨
      ∃ old, s.streams.get? i = some old ∧ old.phase.Turns stream.phase
  cancelled : s.Counted → ∀ i, .cancelled i ∈ after.2 → after.1.Spent i
  subscribes : ∀ c handle i, .requested c (.subscribe handle i) ∈ after.2 →
    s.nextStream ≤ i ∧ i < after.1.nextStream

variable {s s' : Session} {i : StreamId} {first later : List Effect}

theorem Spent.evolves {after : Session × List Effect} (hs : s.Spent i) (h : s.Evolves after) :
    after.1.Spent i where
  old := Nat.lt_of_lt_of_le hs.old h.nextStream
  cancelled := by
    intro stream hi
    rcases h.phase i stream hi with ⟨hle, -⟩ | ⟨old, hold, turns⟩
    · exact absurd hs.old (Nat.not_lt_of_le hle)
    · rw [hs.cancelled old hold] at turns
      generalize stream.phase = p at turns
      cases turns <;> rfl

theorem Evolves.refl (s : Session) : s.Evolves (s, []) where
  nextStream := Nat.le_refl _
  counted := fun h => h
  phase := fun _ stream hi => .inr ⟨stream, hi, .stays⟩
  cancelled := by simp
  subscribes := by simp

theorem Evolves.trans {after : Session × List Effect} (h : s.Evolves (s', first))
    (h' : s'.Evolves after) : s.Evolves (after.1, first ++ after.2) where
  nextStream := Nat.le_trans h.nextStream h'.nextStream
  counted := fun hs => h'.counted (h.counted hs)
  phase := by
    intro i stream hi
    rcases h'.phase i stream hi with ⟨hle, hne⟩ | ⟨mid, hmid, turns'⟩
    · exact .inl ⟨Nat.le_trans h.nextStream hle, hne⟩
    · rcases h.phase i mid hmid with ⟨hle, hne⟩ | ⟨old, hold, turns⟩
      -- No turn makes a stream listen, so a new one does not listen later in the turn either.
      · refine .inl ⟨hle, fun e => hne ?_⟩
        rw [e] at turns'
        generalize mid.phase = p at turns'
        cases turns'
        rfl
      · exact .inr ⟨old, hold, turns.trans turns'⟩
  cancelled := by
    intro hs i hi
    rcases List.mem_append.mp hi with hi | hi
    · have spent : s'.Spent i := h.cancelled hs i hi
      have later : after.1.Spent i := spent.evolves h'
      exact later
    · exact h'.cancelled (h.counted hs) i hi
  subscribes := by
    intro c handle i hi
    rcases List.mem_append.mp hi with hi | hi
    · obtain ⟨hle, hlt⟩ := h.subscribes c handle i hi
      exact ⟨hle, Nat.lt_of_lt_of_le hlt h'.nextStream⟩
    · obtain ⟨hle, hlt⟩ := h'.subscribes c handle i hi
      exact ⟨Nat.le_trans h.nextStream hle, hlt⟩

end Session

def Effect.OffStreams : Effect → Prop
  | .cancelled _ => False
  | .requested _ (.subscribe _ _) => False
  | _ => True

namespace Act

open Session

def Evolving (a : Act) : Prop := ∀ s : Session, s.Evolves (a s)

theorem evolving_nil : Evolving (all []) := Evolves.refl

theorem evolving_cons {a : Act} {rest : List Act} (ha : Evolving a) (hrest : Evolving (all rest)) :
    Evolving (all (a :: rest)) := fun s => (ha s).trans (hrest (a s).1)

theorem evolving_choose {f : Session → Act} (h : ∀ s, Evolving (f s)) : Evolving (choose f) :=
  fun s => h s s

theorem evolving_change {f : Session → Session}
    (h : ∀ s, (f s).streams = s.streams ∧ (f s).nextStream = s.nextStream) :
    Evolving (change f) := by
  intro s
  obtain ⟨streams, next⟩ := h s
  refine ⟨Nat.le_of_eq next.symm, fun hs i stream hi => ?_, fun i stream hi => ?_, by simp,
    by simp⟩
  · rw [change_apply, streams] at hi
    rw [change_apply, next]
    exact hs i stream hi
  · rw [change_apply, streams] at hi
    exact .inr ⟨stream, hi, .stays⟩

theorem evolving_tell {e : Effect} (h : e.OffStreams) : Evolving (tell e) := by
  refine fun s => ⟨Nat.le_refl _, fun hs => hs, fun _ stream hi => .inr ⟨stream, hi, .stays⟩,
    fun _ i hi => ?_, fun c handle i hi => ?_⟩
  · obtain rfl := List.mem_singleton.mp hi
    exact h.elim
  · obtain rfl := List.mem_singleton.mp hi
    exact h.elim

theorem evolving_erase (i : StreamId) :
    Evolving (change fun s => { s with streams := s.streams.erase i }) := by
  have hget {s : Session} {j : StreamId} {stream : Stream}
      (hj : (s.streams.erase i).get? j = some stream) : s.streams.get? j = some stream := by
    rw [Table.get?_erase] at hj
    split at hj
    · cases hj
    · exact hj
  exact fun s => ⟨Nat.le_refl _, fun hs j stream hj => hs j stream (hget hj),
    fun j stream hj => .inr ⟨stream, hget hj, .stays⟩, by simp, by simp⟩

theorem evolving_enter (state : LinkState) : Evolving (enter state) :=
  evolving_cons (evolving_change fun _ => ⟨rfl, rfl⟩)
    (evolving_cons (evolving_tell trivial) evolving_nil)

theorem evolving_goDown : Evolving goDown := by
  refine evolving_choose fun s => evolving_cons (evolving_enter _)
    (evolving_cons ?_ evolving_nil)
  split
  · exact evolving_nil
  · exact evolving_tell trivial

theorem evolving_resetInbound : Evolving resetInbound :=
  evolving_cons (evolving_change fun _ => ⟨rfl, rfl⟩)
    (evolving_cons (evolving_tell trivial) evolving_nil)

theorem evolving_releaseLink : Evolving releaseLink := by
  refine evolving_choose fun s => evolving_cons (evolving_change fun _ => ⟨rfl, rfl⟩)
    (evolving_cons ?_ evolving_nil)
  split
  · exact evolving_tell trivial
  · exact evolving_nil

theorem evolving_withdraw (k : Token) : Evolving (withdraw k) :=
  evolving_change fun _ => ⟨rfl, rfl⟩

/-- The stream that runs is cancelled, if there is one. -/
theorem evolving_cancelListener : Evolving cancelListener := by
  intro s
  cases hr : s.runningListener with
  | none =>
    have same : cancelListener s = ({ s with listener := none }, []) := by
      simp [cancelListener, hr]
    rw [same]
    exact evolving_change (f := fun s => { s with listener := none }) (fun _ => ⟨rfl, rfl⟩) s
  | some i =>
    have cancels : cancelListener s = ({ s with
        listener := none
        streams := s.streams.modify i ({ · with phase := .cancelled }) }, [.cancelled i]) := by
      simp [cancelListener, hr]
    rw [cancels]
    have hget (j : StreamId) : (s.streams.modify i ({ · with phase := .cancelled })).get? j =
        if i = j then (s.streams.get? j).map ({ · with phase := .cancelled })
        else s.streams.get? j := Table.get?_modify _ _ _ _
    have hrun : (s.streams.get? i).any Stream.unfinished := (Option.filter_eq_some_iff.mp hr).2
    obtain ⟨running, hi, -⟩ := (Option.any_eq_true _ _).mp hrun
    refine ⟨Nat.le_refl _, fun hs j stream hj => ?_, fun j stream hj => ?_, fun hs j hj => ?_,
      by simp⟩
    · rw [hget] at hj
      split at hj
      · rename_i e
        exact e ▸ hs i running hi
      · exact hs j stream hj
    · rw [hget] at hj
      split at hj
      · obtain ⟨old, hold, rfl⟩ := Option.map_eq_some_iff.mp hj
        exact .inr ⟨old, hold, .cancels⟩
      · exact .inr ⟨stream, hj, .stays⟩
    · obtain rfl : j = i := by simpa using hj
      refine ⟨hs j running hi, fun stream hj => ?_⟩
      rw [hget, if_pos rfl] at hj
      obtain ⟨old, -, rfl⟩ := Option.map_eq_some_iff.mp hj
      rfl

namespace Turn

variable (t : Turn)

theorem evolving_goto (stage : Stage) : Evolving (t.goto stage) :=
  evolving_change fun _ => ⟨rfl, rfl⟩

theorem evolving_follow (v : Verdict) : Evolving (t.follow v) := by
  cases v with
  | finished o =>
    unfold follow
    exact evolving_cons (evolving_change fun _ => ⟨rfl, rfl⟩)
      (evolving_cons (evolving_tell trivial) evolving_nil)
  | run operation plan => exact evolving_goto _ _

theorem evolving_finish (o : Outcome) : Evolving (t.finish o) :=
  evolving_cons (evolving_tell trivial)
    (evolving_cons (evolving_choose fun _ => t.evolving_follow _) evolving_nil)

theorem evolving_endSequence (failure : Option Fault) : Evolving (t.endSequence failure) :=
  evolving_cons (evolving_change fun _ => ⟨rfl, rfl⟩) (evolving_cons (evolving_tell trivial)
    (evolving_cons evolving_releaseLink (evolving_cons (t.evolving_finish _) evolving_nil)))

/-- The stream of a new attempt has a number that was not given out before. -/
theorem evolving_trySubscribe (made : Nat) (last : Fault) :
    Evolving (t.trySubscribe made last) := by
  intro s
  rw [trySubscribe, choose_apply]
  cases s.held with
  | none => exact t.evolving_endSequence _ s
  | some held =>
    by_cases hm : made < s.config.subscribe.attempts
    · simp only [hm, if_true]
      have hget (j : StreamId) :
          (s.streams.insert s.nextStream ⟨.offered, [], true⟩).get? j =
            if s.nextStream = j then some ⟨.offered, [], true⟩ else s.streams.get? j :=
        Table.get?_insert _ _ _ _
      have offers : s.Evolves ({ s with
          nextStream := s.nextStream + 1
          streams := s.streams.insert s.nextStream ⟨.offered, [], true⟩ },
          [.requested t.call (.subscribe held.handle s.nextStream)]) := by
        refine ⟨Nat.le_succ _, fun hs j stream hj => ?_, fun j stream hj => ?_, by simp,
          fun c handle i hi => ?_⟩
        · rw [hget] at hj
          split at hj
          · rename_i e
            exact e ▸ Nat.lt_succ_self _
          · exact Nat.lt_succ_of_lt (hs j stream hj)
        · rw [hget] at hj
          split at hj
          · rename_i e
            obtain rfl := Option.some.inj hj
            exact .inl ⟨Nat.le_of_eq e, by simp⟩
          · exact .inr ⟨stream, hj, .stays⟩
        · obtain ⟨-, -, rfl⟩ : c = t.call ∧ handle = held.handle ∧ i = s.nextStream := by
            simpa using hi
          exact ⟨Nat.le_refl _, Nat.lt_succ_self _⟩
      exact offers.trans (t.evolving_goto _ _)
    · simp only [hm, if_false]
      exact t.evolving_endSequence _ s

theorem evolving_subscribeFailed (made : Nat) (stream : StreamId) (fault : Fault) :
    Evolving (t.subscribeFailed made stream fault) := by
  refine evolving_choose fun s => evolving_cons (evolving_erase stream)
    (evolving_cons ?_ evolving_nil)
  split
  · exact t.evolving_goto _
  · exact t.evolving_trySubscribe _ _

theorem evolving_startSubscribe : Evolving t.startSubscribe :=
  evolving_cons evolving_cancelListener (evolving_cons (t.evolving_trySubscribe _ _) evolving_nil)

theorem evolving_tryConnect (made : Nat) (last : Fault) : Evolving (t.tryConnect made last) := by
  refine evolving_choose fun s => ?_
  split
  · exact evolving_cons (evolving_enter _) (evolving_cons (evolving_tell trivial)
      (evolving_cons (t.evolving_goto _) evolving_nil))
  · exact evolving_cons (evolving_enter _)
      (evolving_cons (t.evolving_endSequence _) evolving_nil)

theorem evolving_connected (handle : Handle) : Evolving (t.connected handle) :=
  evolving_cons (evolving_change fun _ => ⟨rfl, rfl⟩) (evolving_cons (evolving_enter _)
    (evolving_cons (evolving_tell trivial)
      (evolving_cons t.evolving_startSubscribe evolving_nil)))

theorem evolving_discard (made : Nat) (handle : Handle) (fault : Fault) :
    Evolving (t.discard made handle fault) :=
  evolving_cons (evolving_tell trivial) (evolving_cons (t.evolving_goto _) evolving_nil)

theorem evolving_released (next : Release) : Evolving (t.released next) := by
  refine evolving_cons evolving_resetInbound (evolving_cons evolving_goDown
    (evolving_cons ?_ evolving_nil))
  cases next with
  | reconnect => exact t.evolving_tryConnect _ _
  | rest =>
    exact evolving_cons (evolving_change fun _ => ⟨rfl, rfl⟩)
      (evolving_cons evolving_releaseLink (evolving_cons (t.evolving_finish _) evolving_nil))

theorem evolving_release (next : Release) : Evolving (t.release next) := by
  refine evolving_cons evolving_cancelListener (evolving_cons (evolving_choose fun s => ?_)
    evolving_nil)
  split
  · exact t.evolving_released next
  · exact evolving_cons (evolving_change fun _ => ⟨rfl, rfl⟩)
      (evolving_cons (evolving_tell trivial) (evolving_cons (t.evolving_goto _) evolving_nil))

theorem evolving_establish : Evolving t.establish := by
  refine evolving_choose fun s => ?_
  split
  · exact t.evolving_tryConnect _ _
  · split
    · split
      · exact t.evolving_endSequence none
      · exact t.evolving_startSubscribe
    · exact t.evolving_release _

theorem evolving_written (w : Write) (fault : Option Fault) : Evolving (t.written w fault) := by
  refine evolving_cons evolving_releaseLink (evolving_cons ?_ evolving_nil)
  split
  · exact t.evolving_finish _
  · split
    · exact evolving_cons (evolving_withdraw _) (evolving_cons (t.evolving_finish _) evolving_nil)
    · exact t.evolving_goto _

theorem evolving_fallBack : Evolving t.fallBack := evolving_choose fun _ => t.evolving_finish _

theorem evolving_expired (w : Write) : Evolving (t.expired w) := by
  unfold expired
  split
  · exact evolving_choose fun _ => t.evolving_finish _
  · exact evolving_cons (evolving_withdraw _) (evolving_cons t.evolving_fallBack evolving_nil)

theorem evolving_write (w : Write) : Evolving (t.write w) := by
  refine evolving_choose fun s => ?_
  split
  · exact t.evolving_written w _
  · split
    · exact evolving_cons (evolving_tell trivial) (evolving_cons (t.evolving_goto _) evolving_nil)
    · exact t.evolving_written w _

theorem evolving_proceed (use : Use) : Evolving (t.proceed use) := by
  unfold proceed
  cases use with
  | connect seen =>
    refine evolving_choose fun s => ?_
    split
    · split
      · exact t.evolving_establish
      · exact evolving_cons evolving_releaseLink
          (evolving_cons (t.evolving_finish _) evolving_nil)
    · exact t.evolving_establish
  | write w => exact t.evolving_write w
  | disconnect => exact t.evolving_release .rest

theorem evolving_begin (operation : Operation) : Evolving (t.begin operation) := by
  have enqueue (use : Use) : Evolving (t.enqueue use) :=
    evolving_cons (evolving_change fun _ => ⟨rfl, rfl⟩)
      (evolving_cons (t.evolving_goto _) evolving_nil)
  refine evolving_cons (evolving_tell trivial) (evolving_cons ?_ evolving_nil)
  unfold prepare
  cases operation with
  | connect => exact evolving_choose fun _ => enqueue _
  | disconnect => exact enqueue _
  | send frame => exact evolving_choose fun _ => enqueue _
  | ask frame limit =>
    refine evolving_choose fun s₀ => evolving_cons (fun s => ?_) (evolving_cons (enqueue _)
      evolving_nil)
    refine ⟨Nat.le_refl _, fun hs => hs, fun _ stream hi => .inr ⟨stream, hi, .stays⟩,
      fun _ i hi => ?_, fun c handle i hi => ?_⟩
    · rcases mem_register hi with e | ⟨old, e⟩ <;> cases e
    · rcases mem_register hi with e | ⟨old, e⟩ <;> cases e

/-- The stream of a subscription that has succeeded was offered before. -/
theorem subscribed_evolves {s : Session} {i : StreamId} (offers : s.offers i) :
    s.Evolves (t.subscribed i s) := by
  have hget (j : StreamId) : (s.streams.modify i ({ · with phase := .waiting })).get? j =
      if i = j then (s.streams.get? j).map ({ · with phase := .waiting })
      else s.streams.get? j := Table.get?_modify _ _ _ _
  obtain ⟨offered, hi, hp⟩ := (Option.any_eq_true _ _).mp offers
  have starts : s.Evolves ({ s with
      listener := some i
      streams := s.streams.modify i ({ · with phase := .waiting }) }, []) := by
    refine ⟨Nat.le_refl _, fun hs j stream hj => ?_, fun j stream hj => ?_, by simp, by simp⟩
    · rw [hget] at hj
      split at hj
      · rename_i e
        exact e ▸ hs i offered hi
      · exact hs j stream hj
    · rw [hget] at hj
      split at hj
      · rename_i e
        subst e
        rw [hi] at hj
        obtain rfl := Option.some.inj hj
        refine .inr ⟨offered, hi, ?_⟩
        rw [of_decide_eq_true hp]
        exact .starts
      · exact .inr ⟨stream, hj, .stays⟩
  have rest : Evolving (all [tell (.started i), enter .subscribed, t.endSequence none]) :=
    evolving_cons (evolving_tell trivial) (evolving_cons (evolving_enter _)
      (evolving_cons (t.evolving_endSequence none) evolving_nil))
  exact starts.trans (rest _)

variable {t}

/-- What any turn does to the streams. -/
theorem Moves.evolves {s : Session} {answer : Option RadioAnswer} {st : Stage} {a : Act}
    (step : Moves t s answer st a) (fits : s.Fits st) : s.Evolves (a s) := by
  cases step with
  | opens => exact t.evolving_follow _ s
  | begins => exact t.evolving_begin _ s
  | proceeds _ => exact t.evolving_proceed _ s
  | leaves _ _ =>
    exact evolving_cons
      (evolving_change (f := fun s => { s with queue := s.queue.leave t.call }) fun _ =>
        ⟨rfl, rfl⟩)
      (evolving_cons (t.evolving_expired _) evolving_nil) s
  | released => exact t.evolving_released _ s
  | finds =>
    exact evolving_cons (evolving_tell (e := .requested _ (.connect _ _)) trivial)
      (evolving_cons (t.evolving_goto _) evolving_nil) s
  | misses => exact t.evolving_tryConnect _ _ s
  | connected => exact t.evolving_connected _ s
  | connectFails => exact t.evolving_discard _ _ _ s
  | connectLate _ =>
    exact evolving_cons (evolving_tell (e := .abandoned _) trivial)
      (evolving_cons (t.evolving_discard _ _ _) evolving_nil) s
  | discarded => exact t.evolving_tryConnect _ _ s
  | subscribed => exact t.subscribed_evolves fits.2
  | subscribeFails => exact t.evolving_subscribeFailed _ _ _ s
  | subscribeLate _ =>
    exact evolving_cons (evolving_tell (e := .abandoned _) trivial)
      (evolving_cons (t.evolving_subscribeFailed _ _ _) evolving_nil) s
  | pauses _ => exact t.evolving_trySubscribe _ _ s
  | written => exact t.evolving_written _ _ s
  | writeLate _ =>
    exact evolving_cons (evolving_tell (e := .abandoned _) trivial)
      (evolving_cons evolving_releaseLink (evolving_cons (t.evolving_expired _) evolving_nil)) s
  | answered _ =>
    exact evolving_cons (evolving_withdraw _) (evolving_cons (t.evolving_finish _) evolving_nil) s
  | silent _ _ _ =>
    exact evolving_cons (evolving_withdraw _) (evolving_cons t.evolving_fallBack evolving_nil) s
  | displaced _ _ => exact t.evolving_fallBack s

end Turn

end Act

end HeaterLink
