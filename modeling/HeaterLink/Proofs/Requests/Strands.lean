import HeaterLink.Proofs.Link.Channels
import HeaterLink.Proofs.Link.Rest
import HeaterLink.Proofs.Requests.Arrivals

/-!
# Messages and their streams

The message in progress was begun by a header that came on one stream, and all
that was taken since then came on that stream: another one listens only behind
a reset. So the fragments of a complete message, whatever its kind, lie on one
stream, and a new reassembler makes the same message of them.
-/

set_option autoImplicit false

namespace HeaterLink

namespace Profile

def behind (p : Profile) (fragments : List Bytes) : Reassembler :=
  ((Reassembler.new p.lengths p.dropRepeats).run (fragments.map .fragment)).1

def completion? (p : Profile) (fragments : List Bytes) : Option Completion :=
  ((Reassembler.new p.lengths p.dropRepeats).run (fragments.map .fragment)).2.getLast?.join

variable (p : Profile) (fragments : List Bytes) (data : Bytes)

theorem behind_snoc :
    p.behind (fragments ++ [data]) = ((p.behind fragments).feed data).1 := by
  simp [behind, Reassembler.run_snoc, Reassembler.step]

theorem completion?_snoc :
    p.completion? (fragments ++ [data]) = ((p.behind fragments).feed data).2 := by
  simp [completion?, behind, Reassembler.run_snoc, Reassembler.step]

theorem behind_table : (p.behind fragments).table = p.lengths :=
  (Reassembler.run_fields _ _).1

theorem behind_dropRepeats : (p.behind fragments).dropRepeats = p.dropRepeats :=
  (Reassembler.run_fields _ _).2.1

theorem behind_fitted : (p.behind fragments).Fitted :=
  (Reassembler.run_fields _ _).2.2 (Reassembler.new_fitted _ _)

end Profile

theorem Gathering.feed_header {t : LengthTable} {data : Bytes} (h : t.isHeader data = true)
    (dropRepeats : Bool) (g g' : Option Gathering) :
    feed t dropRepeats g data = feed t dropRepeats g' data := by
  unfold LengthTable.isHeader at h
  unfold feed
  cases hc : t.classify data with
  | header k c payload => rfl
  | malformed c => simp [hc] at h
  | continuation => simp [hc] at h

namespace Course

structure Threads (config : Config) (x : Course) (i : StreamId) (h : Nat) (header : Bytes)
    (later : List Bytes) : Prop where
  took : x.Did h (.took i header)
  inputs : x.inputsFrom h = (header :: later).map .fragment
  only : ∀ n j data, h ≤ n → x.Did n (.took j data) → j = i
  starts : config.profile.lengths.isHeader header = true
  inside : ∀ data ∈ later, config.profile.lengths.isHeader data = false

structure Strand (config : Config) (x : Course) (i : StreamId) (h e : Nat) (header : Bytes)
    (later : List Bytes) : Prop where
  order : h ≤ e
  took : x.Did h (.took i header)
  inputs : x.inputsBetween h e = (header :: later).map .fragment
  only : ∀ n j data, h ≤ n → n ≤ e → x.Did n (.took j data) → j = i
  starts : config.profile.lengths.isHeader header = true
  inside : ∀ data ∈ later, config.profile.lengths.isHeader data = false

def Threaded (config : Config) (x : Course) : Prop :=
  ∃ g, x.session.inbound.reassembler.Holds g ∧ ∀ m, g = some m → ∃ i h header later,
    x.Threads config i h header later ∧ (config.profile.behind (header :: later)).Holds (some m) ∧
      ∀ j stream, x.session.streams.get? j = some stream → stream.phase = .listening → j = i

variable {wall : Nat → Clock} {config : Config} {x y : Course} {a : Action}
  {after : Session × List Effect} {i j : StreamId} {h e n : Nat} {header data data' : Bytes}
  {later : List Bytes} {done : Completion}

theorem Begins.strand (b : x.Begins y) (he : e < x.history.length)
    (hs : x.Strand config i h e header later) : y.Strand config i h e header later where
  order := hs.order
  took := b.did hs.took
  inputs := (b.inputsBetween he).trans hs.inputs
  only := fun n j data hn hne hd =>
    hs.only n j data hn hne ((b.did_iff (Nat.lt_of_le_of_lt hne he)).mp hd)
  starts := hs.starts
  inside := hs.inside

theorem took_eq (layout : StatusLayout) (watts : UInt32) (inbound : Inbound)
    (hd : .took j data' ∈ Effect.took i data :: (inbound.take layout watts data).2) :
    j = i ∧ data' = data := by
  rcases List.mem_cons.mp hd with e | hd
  · exact Effect.took.inj e
  · rcases (Inbound.take_takes layout watts inbound data).mem hd with ⟨event, e⟩ | ⟨p, -, -, e⟩
      <;> cases e

theorem Threads.still (ht : x.Threads config i h header later) (grows : x.Grows a after y)
    (quiet : after.2.filterMap Effect.input? = []) : y.Threads config i h header later where
  took := grows.begins.did ht.took
  inputs := by
    rw [inputsFrom_snoc grows.history (Nat.le_of_lt (did_lt ht.took)), Entry.inputs, quiet,
      List.append_nil, ht.inputs]
  only := by
    intro n j data hn hd
    rcases grows.did_iff.mp hd with hd | ⟨-, hd⟩
    · exact ht.only n j data hn hd
    · have : .fragment data ∈ after.2.filterMap Effect.input? :=
        List.mem_filterMap.mpr ⟨_, hd, rfl⟩
      rw [quiet] at this
      cases this
  starts := ht.starts
  inside := ht.inside

section Fragment

variable (grows : x.Grows a after y)
  (effects : after.2 = .took i data ::
    (x.session.inbound.take x.session.config.profile.layout x.session.ratedPower data).2)

include grows effects

theorem threads_header (hdata : config.profile.lengths.isHeader data = true) :
    y.Threads config i x.history.length data [] where
  took := grows.did (by simp [effects])
  inputs := by
    rw [inputsFrom_snoc grows.history (Nat.le_refl _), Entry.inputs, effects, inputs_of_take]
    simp [inputsFrom]
  only := by
    intro n j data' hn hd
    rcases grows.did_iff.mp hd with hd | ⟨-, hd⟩
    · exact absurd (did_lt hd) (Nat.not_lt_of_le hn)
    · exact (took_eq _ _ _ (effects ▸ hd)).1
  starts := hdata
  inside := by simp

theorem Threads.snoc (ht : x.Threads config i h header later)
    (hdata : config.profile.lengths.isHeader data = false) :
    y.Threads config i h header (later ++ [data]) where
  took := grows.begins.did ht.took
  only := by
    intro n j data' hn hd
    rcases grows.did_iff.mp hd with hd | ⟨-, hd⟩
    · exact ht.only n j data' hn hd
    · exact (took_eq _ _ _ (effects ▸ hd)).1
  starts := ht.starts
  inputs := by
    rw [inputsFrom_snoc grows.history (Nat.le_of_lt (did_lt ht.took)), Entry.inputs, effects,
      inputs_of_take, ht.inputs]
    simp
  inside := by
    intro d hd
    rcases List.mem_append.mp hd with hd | hd
    · exact ht.inside d hd
    · exact List.mem_singleton.mp hd ▸ hdata

end Fragment

/-- Two reassemblers that take a fragment alike hold and complete the same with it. -/
theorem feed_alike (reached : Reached wall config x) {g g' : Option Gathering}
    (holds : x.session.inbound.reassembler.Holds g) {fragments : List Bytes}
    (alike : (config.profile.behind fragments).Holds g')
    (same : Gathering.feed config.profile.lengths config.profile.dropRepeats g' data =
      Gathering.feed config.profile.lengths config.profile.dropRepeats g data) :
    ∃ g'', (x.session.inbound.reassembler.feed data).1.Holds g'' ∧
      (config.profile.behind (fragments ++ [data])).Holds g'' ∧
      (x.session.inbound.reassembler.feed data).2 =
        config.profile.completion? (fragments ++ [data]) := by
  have setUp := reached_setUp x reached
  obtain ⟨hfst, hsnd⟩ := Reassembler.feed_gathering setUp.fitted holds data
  obtain ⟨hfst', hsnd'⟩ :=
    Reassembler.feed_gathering (config.profile.behind_fitted fragments) alike data
  rw [setUp.table, setUp.dropRepeats] at hfst hsnd
  rw [Profile.behind_table, Profile.behind_dropRepeats, same] at hfst' hsnd'
  refine ⟨_, hfst, ?_, ?_⟩
  · rw [Profile.behind_snoc]
    exact hfst'
  · rw [Profile.completion?_snoc, hsnd, hsnd']

theorem alone_of_took (reached : Reached wall config x) (hr : x.Reacts wall a after)
    (effects : after.2 = .took i data ::
      (x.session.inbound.take x.session.config.profile.layout x.session.ratedPower data).2)
    {stream : Stream} (hj : after.1.streams.get? j = some stream) (hp : stream.phase = .listening) :
    j = i := by
  obtain ⟨giver, hi, hgives⟩ := hr.took (by rw [effects]; exact List.mem_cons_self)
  rcases hr.listening reached hj hp with ⟨old, hold, hlistens⟩ | cleared
  · exact (reached_agrees reached).listening_unique hi hgives hold hlistens
  · rw [effects] at cleared
    have : .reset ∈ (Effect.took i data :: (x.session.inbound.take
        x.session.config.profile.layout x.session.ratedPower data).2).filterMap Effect.input? :=
      List.mem_filterMap.mpr ⟨_, cleared, rfl⟩
    rw [inputs_of_take] at this
    cases List.mem_singleton.mp this

/-- A fragment leaves the message in progress on one stream, and one that it completes too. -/
theorem Threaded.feeds (reached : Reached wall config x) (threaded : x.Threaded config)
    (hr : x.Reacts wall a after) (grows : x.Grows a after y)
    (effects : after.2 = .took i data ::
      (x.session.inbound.take x.session.config.profile.layout x.session.ratedPower data).2)
    (inbound : after.1.inbound =
      (x.session.inbound.take x.session.config.profile.layout x.session.ratedPower data).1) :
    y.Threaded config ∧ ∀ done, (x.session.inbound.reassembler.feed data).2 = some done →
      ∃ h header later, y.Threads config i h header later ∧
        config.profile.completion? (header :: later) = some done := by
  obtain ⟨g, holds, started⟩ := threaded
  obtain ⟨stream, hi, hp⟩ := hr.took (by rw [effects]; exact List.mem_cons_self)
  have reassembler : y.session.inbound.reassembler =
      (x.session.inbound.reassembler.feed data).1 := by
    rw [grows.session, inbound, (Inbound.take_takes _ _ _ _).fields.1]
  have alone (j : StreamId) (found : Stream) (hj : y.session.streams.get? j = some found)
      (hlistens : found.phase = .listening) : j = i :=
    alone_of_took reached hr effects (grows.session ▸ hj) hlistens
  cases hdata : config.profile.lengths.isHeader data with
  | true =>
    -- A header begins a message of its own, whatever was in progress.
    have threads : y.Threads config i x.history.length data [] :=
      threads_header grows effects hdata
    have empty : (config.profile.behind []).Holds none := Reassembler.new_holds _ _
    obtain ⟨g', hfst, alike, hsnd⟩ :=
      feed_alike reached holds empty (Gathering.feed_header hdata _ none g)
    rw [List.nil_append] at alike hsnd
    exact ⟨⟨g', reassembler ▸ hfst, fun m hm => ⟨i, _, data, [], threads, hm ▸ alike, alone⟩⟩,
      fun done hdone => ⟨_, data, [], threads, hsnd.symm.trans hdone⟩⟩
  | false =>
    cases g with
    | none =>
      -- Outside a message nothing is kept of it.
      have setUp := reached_setUp x reached
      obtain ⟨hfst, hsnd⟩ := Reassembler.feed_gathering setUp.fitted holds data
      rw [setUp.table, Gathering.feed_later hdata] at hfst hsnd
      refine ⟨⟨none, reassembler ▸ hfst, fun m hm => by cases hm⟩, fun done hdone => ?_⟩
      rw [hsnd] at hdone
      cases hdone
    | some m₀ =>
      obtain ⟨i₀, h, header, later, threads, alike, listening⟩ := started m₀ rfl
      obtain rfl := listening i stream hi hp
      have threads := threads.snoc grows effects hdata
      obtain ⟨g', hfst, alike, hsnd⟩ := feed_alike reached holds alike rfl
      exact ⟨⟨g', reassembler ▸ hfst, fun m hm =>
          ⟨i, h, header, later ++ [data], threads, hm ▸ alike, alone⟩⟩,
        fun done hdone => ⟨h, header, later ++ [data], threads, hsnd.symm.trans hdone⟩⟩

theorem holds_of_reset (hr : x.Reacts wall a after)
    (some : after.2.filterMap Effect.input? ≠ [])
    (all : ∀ input ∈ after.2.filterMap Effect.input?, input = .reset) :
    after.1.inbound.reassembler.Holds none := by
  cases hr with
  | @poll c _ hp =>
    obtain ⟨call, -, hl⟩ := Session.poll_leads hp
    rw [hl.onRequests.reassembler]
    exact Reassembler.run_resets _ all some
  | listen hl =>
    cases hl with
    | wakes _ _ => exact Reassembler.reset_holds _
    | takes _ _ _ =>
      rw [inputs_of_take] at all
      cases all _ (List.mem_singleton_self _)
    | ends _ _ _ _ => exact Reassembler.reset_holds _
    | drops _ _ => exact absurd rfl some
  | _ => exact absurd rfl some

theorem reached_threaded : ∀ x, Reached wall config x → x.Threaded config := by
  refine reached_induction ⟨none, Reassembler.new_holds _ _, fun m hm => by cases hm⟩
    fun x a y hx ih step => ?_
  obtain ⟨after, hr, grows⟩ := take?_grows step
  cases hr.digests with
  | nothing quiet reassembler _ =>
    obtain ⟨g, holds, started⟩ := ih
    refine ⟨g, by rw [grows.session, reassembler]; exact holds, fun m hm => ?_⟩
    obtain ⟨i, h, header, later, threads, alike, listening⟩ := started m hm
    refine ⟨i, h, header, later, threads.still grows quiet, alike, fun j stream hj hp => ?_⟩
    rw [grows.session] at hj
    rcases hr.listening hx hj hp with ⟨old, hold, hlistens⟩ | cleared
    · exact listening j old hold hlistens
    · have : .reset ∈ after.2.filterMap Effect.input? :=
        List.mem_filterMap.mpr ⟨_, cleared, rfl⟩
      rw [quiet] at this
      cases this
  | reset some all =>
    refine ⟨none, ?_, fun m hm => by cases hm⟩
    rw [grows.session]
    exact holds_of_reset hr some all
  | fragment effects inbound => exact (ih.feeds hx hr grows effects inbound).1

/-- The fragments of a complete message lie on one stream. -/
theorem reached_strand : ∀ x, Reached wall config x → ∀ e i data done, x.Did e (.took i data) →
    ((x.sessionAt e).inbound.reassembler.feed data).2 = some done →
    ∃ h header later, x.Strand config i h e header later ∧
      config.profile.completion? (header :: later) = some done := by
  refine reached_induction ?_ fun x a y hx ih step => ?_
  · exact fun e i data done he => (not_did_start he).elim
  · obtain ⟨after, hr, grows⟩ := take?_grows step
    have begins := grows.begins
    intro e i data done hd hdone
    rcases grows.did_iff.mp hd with hd | ⟨rfl, now⟩
    · have hlt := did_lt hd
      rw [begins.sessionAt (Nat.le_of_lt hlt)] at hdone
      obtain ⟨h, header, later, strand, completes⟩ := ih e i data done hd hdone
      exact ⟨h, header, later, begins.strand hlt strand, completes⟩
    · rw [begins.session] at hdone
      have hin : .fragment data ∈ after.2.filterMap Effect.input? :=
        List.mem_filterMap.mpr ⟨_, now, rfl⟩
      cases hr.digests with
      | nothing quiet _ _ =>
        rw [quiet] at hin
        cases hin
      | reset _ all => cases all _ hin
      | @fragment i' data' effects inbound =>
        obtain ⟨rfl, rfl⟩ := took_eq _ _ _ (effects ▸ now)
        obtain ⟨h, header, later, threads, completes⟩ :=
          ((reached_threaded x hx).feeds hx hr grows effects inbound).2 done hdone
        have order : h < x.history.length + 1 := grows.length ▸ did_lt threads.took
        exact ⟨h, header, later, ⟨Nat.le_of_lt_succ order, threads.took,
          (inputsBetween_last grows.history).trans threads.inputs,
          fun n j data hn _ hd => threads.only n j data hn hd, threads.starts, threads.inside⟩,
          completes⟩

/-- Messages never span subscriptions. A stream belongs to one subscription, and the fragments of
a complete message lie on one stream. Once the listener of a stream was cancelled, nothing of that
stream is taken, and what happens to it changes nothing inbound and tells nobody. And once a
disconnect has returned, the link is at rest until a call takes a turn with it. -/
theorem reached_subscriptions (reached : Reached wall config x) :
    (∀ i n n' c c' handle handle', x.Did n (.requested c (.subscribe handle i)) →
      x.Did n' (.requested c' (.subscribe handle' i)) → n = n') ∧
    (∀ e i data done, x.Did e (.took i data) →
      ((x.sessionAt e).inbound.reassembler.feed data).2 = some done →
      ∃ h header later, x.Strand config i h e header later ∧
        config.profile.completion? (header :: later) = some done) ∧
    (∀ n i m entry, x.Did n (.cancelled i) → n < m → x.history[m]? = some entry →
      (∀ data, ¬x.Did m (.took i data)) ∧ (entry.action.stream? = some i →
        (x.sessionAt (m + 1)).inbound = entry.before.inbound ∧
        (x.sessionAt (m + 1)).state = entry.before.state ∧ ∀ e ∈ entry.effects, e = .ended i)) ∧
    ∀ j c n o m, x.Invoked j c .disconnect → x.Did n (.returned c o) → n < m →
      m ≤ x.history.length → x.Unclaimed n m →
      (x.sessionAt m).AtRest ∧ ∀ k e, n < k → k < m → x.Did k e → e.Unnoticed := by
  refine ⟨?_, ?_, ?_, ?_⟩
  · exact fun i n n' c c' handle handle' hn hn' => offered_once reached hn hn'
  · exact fun e i data done hd hdone => reached_strand x reached e i data done hd hdone
  · intro n i m entry hn hlt hm
    exact ⟨untaken_of_cancelled reached hn hlt, quiet_of_cancelled reached hn hlt hm⟩
  · exact fun j c n o m hj hn hlt hm unclaimed => rest_of_returned reached hj hn hlt hm unclaimed

def hangingUp : List Action :=
  let header := magic ++ 49 :: List.replicate 10 1
  opening ++ [.deliver 0 header, .listen 0, .deliver 0 (List.replicate 38 2), .listen 0,
    .deliver 0 header, .listen 0, .invoke 1 .disconnect, .poll 1, .poll 1, .poll 1,
    .complete 1 none, .poll 1, .listen 0]

/-- A status arrives in two fragments, and another one has begun when a call disconnects. -/
theorem subscriptions_hanging_up : ∃ x, Reached noon oneAttempt x ∧
    x.Did 14 (.took 0 (List.replicate 38 2)) ∧ (∃ done h header later,
      x.Strand oneAttempt 0 h 14 header later ∧
        oneAttempt.profile.completion? (header :: later) = some done) ∧
    x.Did 20 (.cancelled 0) ∧ (x.sessionAt 24).inbound = (x.sessionAt 23).inbound ∧
    x.Did 22 (.returned 1 .done) ∧ (x.sessionAt 24).AtRest ∧
    ∀ e, x.Did 23 e → e.Unnoticed := by
  have h : ((start oneAttempt).run? noon hangingUp).any (fun x =>
      x.Did 14 (.took 0 (List.replicate 38 2)) ∧
      ((x.sessionAt 14).inbound.reassembler.feed (List.replicate 38 2)).2.isSome ∧
      x.Did 20 (.cancelled 0) ∧ x.Invoked 17 1 .disconnect ∧ x.Did 22 (.returned 1 .done) ∧
      x.history.length = 24 ∧ (x.history[23]?).map Entry.action = some (.listen 0)) = true := by
    decide +kernel
  obtain ⟨x, hx, h⟩ := (Option.any_eq_true _ _).mp h
  obtain ⟨took, completes, cancelled, invoked, returned, length, last⟩ := of_decide_eq_true h
  obtain ⟨done, hdone⟩ := Option.isSome_iff_exists.mp completes
  obtain ⟨entry, hentry, action⟩ := Option.map_eq_some_iff.mp last
  obtain ⟨-, strands, quiet, rests⟩ := reached_subscriptions ⟨hangingUp, hx⟩
  have unclaimed : x.Unclaimed 22 24 := by
    intro k c found hk hlt hfound polls
    obtain rfl : k = 23 := by omega
    obtain rfl := Option.some.inj (hfound.symm.trans hentry)
    cases action.symm.trans polls
  obtain ⟨rest, unnoticed⟩ := rests 17 1 22 _ 24 invoked returned (by decide) (by omega) unclaimed
  refine ⟨x, ⟨hangingUp, hx⟩, took, ⟨done, strands 14 0 _ done took hdone⟩, cancelled, ?_,
    returned, rest, fun e => unnoticed 23 e (by decide) (by decide)⟩
  have same := (quiet 20 0 23 entry cancelled (by decide) hentry).2 (by rw [action]; rfl)
  rw [same.1, sessionAt, hentry]

end Course

end HeaterLink
