import HeaterLink.Proofs.Link.Streams
import HeaterLink.Proofs.Requests.Tokens

/-!
# Streams in histories

The number of a stream belongs to one subscription. Once its listener has been
cancelled, a stream is spent for good: what reaches it, and what its listener
still does, changes nothing but the stream itself. At most one stream listens
at a time.
-/

set_option autoImplicit false

namespace HeaterLink

def Action.stream? : Action → Option StreamId
  | .listen i => some i
  | .deliver i _ => some i
  | .closeStream i => some i
  | _ => none

namespace Session

structure Receives (s : Session) (after : Session × List Effect) : Prop where
  nextStream : after.1.nextStream = s.nextStream
  phase : ∀ i stream, after.1.streams.get? i = some stream →
    ∃ old, s.streams.get? i = some old ∧
      (stream.phase = old.phase ∨ old.phase = .waiting ∧ .cleared ∈ after.2)
  uncancelled : ∀ i, .cancelled i ∉ after.2
  unasked : ∀ c r, .requested c r ∉ after.2

variable {s : Session} {i : StreamId}

theorem receives_of_same {s' : Session} (nextStream : s'.nextStream = s.nextStream)
    (streams : s'.streams = s.streams) : s.Receives (s', []) where
  nextStream := nextStream
  phase := fun i stream hi => ⟨stream, streams ▸ hi, .inl rfl⟩
  uncancelled := by simp
  unasked := by simp

theorem receives_modify (s : Session) (i : StreamId) {f : Stream → Stream}
    (phase : ∀ stream, (f stream).phase = stream.phase) :
    s.Receives ({ s with streams := s.streams.modify i f }, []) where
  nextStream := rfl
  phase := by
    intro j stream hj
    have hj : (s.streams.modify i f).get? j = some stream := hj
    rw [Table.get?_modify] at hj
    split at hj
    · obtain ⟨old, hold, rfl⟩ := Option.map_eq_some_iff.mp hj
      exact ⟨old, hold, .inl (phase old)⟩
    · exact ⟨stream, hj, .inl rfl⟩
  uncancelled := by simp
  unasked := by simp

theorem Listens.receives {after : Session × List Effect} (h : s.Listens i after) :
    s.Receives after := by
  have uncancelled (j : StreamId) : .cancelled j ∉ after.2 := fun he => by cases (h.mem he).1
  have unasked (c : CallId) (r : RadioRequest) : .requested c r ∉ after.2 :=
    fun he => by cases (h.mem he).1
  have inserted {stream stream' : Stream} (hs : s.streams.get? i = some stream)
      (hphase : stream'.phase = stream.phase ∨ stream.phase = .waiting ∧ .cleared ∈ after.2)
      (j : StreamId) (found : Stream) (hj : (s.streams.insert i stream').get? j = some found) :
      ∃ old, s.streams.get? j = some old ∧
        (found.phase = old.phase ∨ old.phase = .waiting ∧ .cleared ∈ after.2) := by
    rw [Table.get?_insert] at hj
    split at hj
    · rename_i e
      obtain rfl := Option.some.inj hj
      exact ⟨stream, e ▸ hs, hphase⟩
    · exact ⟨found, hj, .inl rfl⟩
  have erased (j : StreamId) (found : Stream) (hj : (s.streams.erase i).get? j = some found) :
      ∃ old, s.streams.get? j = some old ∧
        (found.phase = old.phase ∨ old.phase = .waiting ∧ .cleared ∈ after.2) := by
    rw [Table.get?_erase] at hj
    split at hj
    · cases hj
    · exact ⟨found, hj, .inl rfl⟩
  cases h with
  | wakes hs hp => exact ⟨rfl, inserted hs (.inr ⟨hp, by simp⟩), uncancelled, unasked⟩
  | takes hs _ _ => exact ⟨rfl, inserted hs (.inl rfl), uncancelled, unasked⟩
  | ends _ _ _ _ => exact ⟨rfl, erased, uncancelled, unasked⟩
  | drops _ _ => exact ⟨rfl, erased, uncancelled, unasked⟩

theorem Spent.receives {after : Session × List Effect} (hs : s.Spent i) (h : s.Receives after) :
    after.1.Spent i where
  old := h.nextStream ▸ hs.old
  cancelled := by
    intro stream hi
    obtain ⟨old, hold, same | ⟨waiting, -⟩⟩ := h.phase i stream hi
    · exact same.trans (hs.cancelled old hold)
    · rw [hs.cancelled old hold] at waiting
      cases waiting

theorem Spent.listens {after : Session × List Effect} (hs : s.Spent i) (h : s.Listens i after) :
    after.1.inbound = s.inbound ∧ after.1.state = s.state ∧ after.2 = [.ended i] := by
  cases h with
  | wakes hi hp => cases hp.symm.trans (hs.cancelled _ hi)
  | takes hi hp _ => cases hp.symm.trans (hs.cancelled _ hi)
  | ends hi hp _ _ => cases hp.symm.trans (hs.cancelled _ hi)
  | drops _ _ => exact ⟨rfl, rfl, rfl⟩

theorem Agrees.listening_unique (h : s.Agrees) {j : StreamId} {stream stream' : Stream}
    (hi : s.streams.get? i = some stream) (hp : stream.phase = .listening)
    (hj : s.streams.get? j = some stream') (hp' : stream'.phase = .listening) : j = i := by
  have runs {k : StreamId} {found : Stream} (hk : s.streams.get? k = some found)
      (hphase : found.phase = .listening) : s.runs k := by
    simp [Session.runs, hk, Stream.unfinished, hphase]
  have settled := h.settled (h.idle_of_runs (runs hi hp))
  have hl := (settled.running i (runs hi hp)).2
  have hl' := (settled.running j (runs hj hp')).2
  exact Option.some.inj (hl'.symm.trans hl)

end Session

namespace Course

variable {wall : Nat → Clock} {config : Config} {x y : Course} {a : Action}
  {after : Session × List Effect} {i j : StreamId} {n n' m : Nat} {c c' : CallId}
  {handle handle' : Handle} {entry : Entry}

theorem Reacts.streams (reached : Reached wall config x) (h : x.Reacts wall a after) :
    x.session.Evolves after ∨ x.session.Receives after := by
  cases h with
  | poll hp =>
    obtain ⟨call, act, hc, hm, rfl⟩ := Session.poll_moves hp
    exact .inl (hm.evolves ((reached_agrees reached).fits _ _ hc))
  | listen hl => exact .inr hl.receives
  | deliver _ => exact .inr (Session.receives_modify _ _ fun _ => rfl)
  | closeStream => exact .inr (Session.receives_modify _ _ fun _ => rfl)
  | _ => exact .inr (Session.receives_of_same rfl rfl)

theorem Reacts.spent (reached : Reached wall config x) (h : x.Reacts wall a after)
    (hs : x.session.Spent i) : after.1.Spent i := by
  rcases h.streams reached with evolves | receives
  · exact hs.evolves evolves
  · exact hs.receives receives

theorem Reacts.nextStream_le (reached : Reached wall config x) (h : x.Reacts wall a after) :
    x.session.nextStream ≤ after.1.nextStream := by
  rcases h.streams reached with evolves | receives
  · exact evolves.nextStream
  · exact Nat.le_of_eq receives.nextStream.symm

/-- A stream that listens did so before, or starts with a clean reassembler. -/
theorem Reacts.listening (reached : Reached wall config x) (h : x.Reacts wall a after)
    {stream : Stream} (hi : after.1.streams.get? i = some stream) (hp : stream.phase = .listening) :
    (∃ old, x.session.streams.get? i = some old ∧ old.phase = .listening) ∨
      .cleared ∈ after.2 := by
  rcases h.streams reached with evolves | receives
  · rcases evolves.phase i stream hi with ⟨-, hne⟩ | ⟨old, hold, turns⟩
    · exact absurd hp hne
    · refine .inl ⟨old, hold, ?_⟩
      rw [hp] at turns
      generalize old.phase = p at turns
      cases turns
      rfl
  · obtain ⟨old, hold, same | ⟨-, cleared⟩⟩ := receives.phase i stream hi
    · exact .inl ⟨old, hold, same.symm.trans hp⟩
    · exact .inr cleared

/-- Only a stream that listens gives fragments. -/
theorem Reacts.took (h : x.Reacts wall a after) {data : Bytes} (hd : .took i data ∈ after.2) :
    ∃ stream, x.session.streams.get? i = some stream ∧ stream.phase = .listening := by
  rcases h.mem hd with ⟨c, call, -, -, hreq⟩ | ⟨j, -, hl⟩
  · exact absurd hd (hreq.took i data)
  · cases hl with
    | @takes stream data' rest hs hp _ =>
      rcases List.mem_cons.mp hd with e | hd
      · obtain ⟨rfl, -⟩ := Effect.took.inj e
        exact ⟨stream, hs, hp⟩
      · rcases (Inbound.take_takes _ _ _ _).mem hd with ⟨event, e⟩ | ⟨p, -, -, e⟩ <;> cases e
    | ends _ _ _ _ =>
      rcases List.mem_append.mp hd with hd | hd
      · simp at hd
      · split at hd <;> simp at hd
    | _ => simp at hd

theorem reached_counted : ∀ x, Reached wall config x → x.session.Counted := by
  refine reached_induction (fun i stream hi => by cases hi) fun x a y hx ih step => ?_
  obtain ⟨after, hr, grows⟩ := take?_grows step
  rw [grows.session]
  rcases hr.streams hx with evolves | receives
  · exact evolves.counted ih
  · intro i stream hi
    obtain ⟨old, hold, -⟩ := receives.phase i stream hi
    rw [receives.nextStream]
    exact ih i old hold

theorem reached_spent : ∀ x, Reached wall config x → ∀ n i, x.Did n (.cancelled i) →
    ∀ m, n < m → m ≤ x.history.length → (x.sessionAt m).Spent i := by
  refine reached_induction ?_ fun x a y hx ih step => ?_
  · exact fun n i hn => (not_did_start hn).elim
  · obtain ⟨after, hr, grows⟩ := take?_grows step
    have begins := grows.begins
    have hlen := grows.length
    intro n i hn m hlt hm
    rcases Nat.lt_or_ge x.history.length m with hlast | hle
    · obtain rfl : m = y.history.length := by omega
      rw [sessionAt_length, grows.session]
      rcases grows.did_iff.mp hn with hn | ⟨-, hc⟩
      · have spent := ih n i hn x.history.length (did_lt hn) (Nat.le_refl _)
        rw [sessionAt_length] at spent
        exact hr.spent hx spent
      · rcases hr.streams hx with evolves | receives
        · exact evolves.cancelled (reached_counted x hx) i hc
        · exact absurd hc (receives.uncancelled i)
    · rcases grows.did_iff.mp hn with hn | ⟨rfl, -⟩
      · rw [begins.sessionAt hle]
        exact ih n i hn m hlt hle
      · exact absurd hlt (Nat.not_lt_of_le hle)

theorem reached_offered : ∀ x, Reached wall config x → ∀ n c handle i,
    x.Did n (.requested c (.subscribe handle i)) → i < x.session.nextStream := by
  refine reached_induction ?_ fun x a y hx ih step => ?_
  · exact fun n c handle i hn => (not_did_start hn).elim
  · obtain ⟨after, hr, grows⟩ := take?_grows step
    intro n c handle i hn
    rw [grows.session]
    rcases grows.did_iff.mp hn with hn | ⟨-, he⟩
    · exact Nat.lt_of_lt_of_le (ih n c handle i hn) (hr.nextStream_le hx)
    · rcases hr.streams hx with evolves | receives
      · exact (evolves.subscribes c handle i he).2
      · exact absurd he (receives.unasked c _)

theorem not_offered_again (reached : Reached wall config x)
    (hn : x.Did n (.requested c (.subscribe handle i)))
    (hn' : x.Did n' (.requested c' (.subscribe handle' i))) : ¬n < n' := by
  intro hlt
  obtain ⟨y, a, after, hy, begins, rfl, hr, he, -⟩ := reached_did reached hn'
  have old := reached_offered y hy n c handle i ((begins.did_iff hlt).mp hn)
  rcases hr.streams hy with evolves | receives
  · exact absurd old (Nat.not_lt_of_le (evolves.subscribes c' handle' i he).1)
  · exact receives.unasked c' _ he

theorem offered_once (reached : Reached wall config x)
    (hn : x.Did n (.requested c (.subscribe handle i)))
    (hn' : x.Did n' (.requested c' (.subscribe handle' i))) : n = n' := by
  have hlt := not_offered_again reached hn hn'
  have hgt := not_offered_again reached hn' hn
  omega

/-- Once the listener of a stream was cancelled, what is about the stream changes neither the
inbound side nor the state, and nothing but the end of the listener is told. -/
theorem quiet_of_cancelled (reached : Reached wall config x) (hn : x.Did n (.cancelled i))
    (hlt : n < m) (hm : x.history[m]? = some entry) (about : entry.action.stream? = some i) :
    (x.sessionAt (m + 1)).inbound = entry.before.inbound ∧
      (x.sessionAt (m + 1)).state = entry.before.state ∧ ∀ e ∈ entry.effects, e = .ended i := by
  have hle := (List.getElem?_eq_some_iff.mp hm).1
  have spent := reached_spent x reached n i hn m hlt (Nat.le_of_lt hle)
  obtain ⟨y, after, -, begins, rfl, hsession, hr, heffects, hnext⟩ :=
    reached_entry x reached m entry hm
  rw [begins.session, hsession] at spent
  rw [hnext, heffects]
  rw [← hsession] at spent ⊢
  generalize entry.action = action at about hr
  -- What arrives stays in the stream, and its listener finds itself cancelled.
  cases hr with
  | listen hl =>
    obtain rfl := Option.some.inj about
    obtain ⟨inbound, state, effects⟩ := spent.listens hl
    exact ⟨inbound, state, by simp [effects]⟩
  | deliver _ => exact ⟨rfl, rfl, by simp⟩
  | closeStream => exact ⟨rfl, rfl, by simp⟩
  | _ => cases about

theorem untaken_of_cancelled (reached : Reached wall config x) (hn : x.Did n (.cancelled i))
    (hlt : n < m) (data : Bytes) : ¬x.Did m (.took i data) := by
  intro hm
  have spent := reached_spent x reached n i hn m hlt (Nat.le_of_lt (did_lt hm))
  obtain ⟨y, a, after, -, begins, rfl, hr, he, -⟩ := reached_did reached hm
  rw [begins.session] at spent
  obtain ⟨stream, hi, hp⟩ := hr.took he
  cases hp.symm.trans (spent.cancelled stream hi)

end Course

end HeaterLink
