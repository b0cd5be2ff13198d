import HeaterLink.Proofs.Readings.Known
import HeaterLink.Proofs.Requests.Arrivals

/-!
# Statuses in time

A status message that is complete before the deadline of the request that its
header found pending is the answer to that request: once the frame is written
the call returns its reading as fresh. A call whose write is still unfinished
when it looks at the clock behind the deadline does not look for its answer,
and returns the reading as a stale one.
-/

set_option autoImplicit false

namespace HeaterLink

theorem Stage.awaiting_of_token? (st : Stage) {k : Token} (hk : st.token? = some k)
    (hw : st.write? = none) : ∃ a, st = .awaiting k a := by
  cases st with
  | queued use =>
    cases use with
    | write w => cases hw
    | _ => cases hk
  | writing w => cases hw
  | awaiting k' a =>
    obtain rfl := Option.some.inj hk
    exact ⟨a, rfl⟩
  | _ => cases hk

theorem Session.poll_of_reply {s : Session} {m : Moment} {c : CallId} {plan : Plan} {k : Token}
    {a : Alarm} {answer : Option RadioAnswer} {r : Reading}
    (hc : s.calls.get? c = some ⟨plan, .awaiting k a, answer⟩)
    (hr : s.inbound.replies.get? k = some r) :
    ∃ after, s.poll m c = some after ∧ .finished c (.response (.fresh r)) ∈ after.2 := by
  have turn : s.poll m c = some (Act.all
      [Act.withdraw k, Act.Turn.finish ⟨m, c, plan⟩ (.response (.fresh r))] s) := by
    simp [poll, hc, Act.Turn.resume, hr]
  refine ⟨_, turn, ?_⟩
  simp only [Act.all_cons, Act.all_nil, Act.withdraw_apply, List.append_nil, List.nil_append]
  exact Act.Turn.finished_mem_finish.mpr rfl

theorem Inbound.Takes.answered {layout : StatusLayout} {watts : UInt32} {i : Inbound}
    {data payload : Bytes} {after : Inbound × List Effect} {r : Reading} {k : Token} {c : CallId}
    (h : i.Takes layout watts data after)
    (done : (i.reassembler.feed data).2 = some (.status payload))
    (parsed : layout.parse watts payload = .ok r) (pending : i.pending = some ⟨k, c⟩)
    (marked : (i.mark data).headerToken = k) :
    after.1.replies.get? k = some r ∧ after.1.lastReading = some r := by
  cases h with
  | short incomplete => simp [incomplete] at done
  | other other => simp [other] at done
  | refused done' refused =>
    obtain rfl := Completion.status.inj (Option.some.inj (done'.symm.trans done))
    simp [parsed] at refused
  | noted _ _ missed => exact absurd marked.symm (missed _ pending)
  | @answers payload' r' p done' parsed' pending' _ =>
    obtain rfl := Completion.status.inj (Option.some.inj (done'.symm.trans done))
    obtain rfl := Except.ok.inj (parsed'.symm.trans parsed)
    obtain rfl := Option.some.inj (pending'.symm.trans pending)
    exact ⟨(Table.get?_insert _ _ _ _).trans (if_pos rfl), rfl⟩

namespace Course

variable {wall : Nat → Clock} {config : Config} {x y : Course} {c : CallId} {k : Token}
  {r : Reading} {g h e n due : Nat} {o : Outcome} {header first payload : Bytes} {rest : List Bytes}

def Received (config : Config) (x : Course) (r : Reading) (h e : Nat) : Prop :=
  ∃ header first rest payload, (∃ i, x.Did h (.took i header)) ∧
    (∃ i data, x.Did e (.took i data)) ∧
    x.inputsBetween h e = (header :: rest).map .fragment ∧
    StatusMessage config.profile header first rest payload ∧
    config.profile.layout.parse (x.sessionAt e).ratedPower payload = .ok r

structure Arrives (config : Config) (x : Course) (c : CallId) (k : Token) (r : Reading)
    (g h e due : Nat) : Prop where
  asked : x.Asked g c k due
  pending : (x.sessionAt h).inbound.pending = some ⟨k, c⟩
  spans : h ≤ e
  received : x.Received config r h e
  inTime : x.timeAt e < due
  alone : ∀ m c' k', h < m → m < e → ¬x.Did m (.registered c' k')

theorem inputsBetween_self {entry : Entry} (hn : x.history[n]? = some entry) :
    x.inputsBetween n n = entry.inputs := by
  have hlt := (List.getElem?_eq_some_iff.mp hn).1
  have hlen : (x.history.take n).length = n := List.length_take_of_le (Nat.le_of_lt hlt)
  rw [inputsBetween, List.take_add_one, hn, List.drop_append_of_le_length (Nat.le_of_eq hlen.symm),
    List.drop_of_length_le (Nat.le_of_eq hlen)]
  simp

/-- Before its last entry a message is not complete. -/
theorem collects_of_received (b : y.Begins x) (hh : h < y.history.length)
    (he : y.history.length ≤ e) (took : ∃ i, x.Did h (.took i header))
    (ends : ∃ i data, x.Did e (.took i data))
    (inputs : x.inputsBetween h e = (header :: rest).map .fragment)
    (message : StatusMessage config.profile header first rest payload) :
    ∃ before more, rest = before ++ more ∧ more ≠ [] ∧ y.Collects config h header first before ∧
      ∀ entry, y.history.length = e → x.history[e]? = some entry →
        entry.inputs = more.map .fragment := by
  obtain ⟨later, hist⟩ := b.history
  obtain ⟨j, data, entry, hentry, hj⟩ := ends
  have split : x.inputsBetween h e =
      y.inputsFrom h ++ (later.take (e + 1 - y.history.length)).flatMap Entry.inputs := by
    rw [inputsBetween, hist, List.take_append, List.take_of_length_le (by omega),
      List.drop_append_of_le_length (Nat.le_of_lt hh), List.flatMap_append, inputsFrom]
  have hlater : later[e - y.history.length]? = some entry := by
    rwa [hist, List.getElem?_append_right he] at hentry
  have fed : .fragment data ∈ (later.take (e + 1 - y.history.length)).flatMap Entry.inputs := by
    refine List.mem_flatMap.mpr ⟨entry, List.mem_of_getElem? (i := e - y.history.length) ?_,
      List.mem_filterMap.mpr ⟨_, hj, rfl⟩⟩
    rw [List.getElem?_take, if_pos (by omega), hlater]
  rw [split] at inputs
  obtain ⟨some, more, parts, hsome, hmore⟩ := List.append_eq_map_iff.mp inputs
  obtain ⟨i, hi⟩ := took
  have hi : y.Did h (.took i header) := (b.did_iff hh).mp hi
  cases some with
  | nil => exact absurd hsome.symm (inputsFrom_ne_nil hi)
  | cons header' before =>
    rw [List.cons_append] at parts
    obtain ⟨rfl, rfl⟩ := List.cons.inj parts
    have hne : more ≠ [] := by
      rintro rfl
      rw [← hmore] at fed
      cases fed
    refine ⟨before, more, rfl, hne,
      ⟨⟨i, hi⟩, hsome.symm, message.starts, fun d hd => ?_, fun n hn => ?_⟩,
      fun entry' hy hentry' => ?_⟩
    · exact message.inside d (List.mem_append_left _ hd)
    · have := message.short n (by
        have := List.length_pos_iff.mpr hne
        rw [List.length_append]
        omega)
      rwa [List.take_append_of_le_length hn] at this
    · obtain rfl := Option.some.inj (hentry.symm.trans hentry')
      subst hy
      rw [hmore]
      simp only [Nat.sub_self] at hlater
      cases later with
      | nil => cases hlater
      | cons first later =>
        obtain rfl := Option.some.inj hlater
        simp

theorem quiet_of_took (reached : Reached wall config x) {i : StreamId} {data : Bytes}
    (took : x.Did n (.took i data)) {e : Effect} (did : x.Did n e) : e.ofListener := by
  obtain ⟨y, a, after, -, -, -, hr, he, all, -⟩ := reached_did reached took
  rcases hr.mem he with ⟨c, call, -, -, hreq⟩ | ⟨j, -, hl⟩
  · exact absurd he (hreq.took i data)
  · exact (hl.mem ((all _).mp did)).1

theorem open_of_pending (reached : Reached wall config x) (hh : h < x.history.length)
    (pending : (x.sessionAt h).inbound.pending = some ⟨k, c⟩)
    (registered : x.Did g (.registered c k)) :
    g < h ∧ ∀ m o, g ≤ m → m < h → ¬x.Did m (.finished c o) := by
  obtain ⟨y, after, hy, begins, rfl, -⟩ :=
    reached_entry x reached h x.history[h] (List.getElem?_eq_getElem hh)
  rw [begins.session] at pending
  obtain ⟨call, hc, hk⟩ := reached_waits y hy _ pending
  obtain ⟨g', hg', hopen⟩ := reached_token y hy c call k hc hk
  obtain ⟨rfl, -⟩ := registered_unique reached registered (begins.did hg')
  exact ⟨did_lt hg', fun m o hm hlt hd => hopen m o hm ((begins.did_iff hlt).mp hd)⟩

theorem Arrives.pending_at (reached : Reached wall config x)
    (arrives : x.Arrives config c k r g h e due) (hhn : h ≤ n) (hne : n ≤ e)
    (unfinished : ∀ m o, h < m → m < n → ¬x.Did m (.finished c o)) :
    (x.sessionAt n).inbound.pending = some ⟨k, c⟩ := by
  rcases Nat.lt_or_eq_of_le hhn with hlt | rfl
  · obtain ⟨header, first, rest, payload, took, ends, inputs, message, -⟩ := arrives.received
    obtain ⟨j, data, hj⟩ := ends
    have hn : n < x.history.length := Nat.lt_of_le_of_lt hne (did_lt hj)
    obtain ⟨y, after, hy, begins, rfl, -⟩ :=
      reached_entry x reached n x.history[n] (List.getElem?_eq_getElem hn)
    obtain ⟨before, more, -, -, collects, -⟩ :=
      collects_of_received begins hlt hne took ⟨j, data, hj⟩ inputs message
    rw [begins.session]
    refine reached_undisturbed y hy h header first before k c collects ?_ fun m hm => ⟨?_, ?_⟩
    · rw [← begins.sessionAt (Nat.le_of_lt hlt)]
      exact arrives.pending
    · intro o hd
      rcases Nat.lt_or_eq_of_le hm with hm | rfl
      · exact unfinished m o hm (did_lt hd) (begins.did hd)
      · obtain ⟨i, hi⟩ := took
        cases quiet_of_took reached hi (begins.did hd)
    · intro c' k' hd
      rcases Nat.lt_or_eq_of_le hm with hm | rfl
      · exact arrives.alone m c' k' hm (Nat.lt_of_lt_of_le (did_lt hd) hne) (begins.did hd)
      · obtain ⟨i, hi⟩ := took
        cases quiet_of_took reached hi (begins.did hd)
  · exact arrives.pending

/-- The message answers its request. -/
theorem Arrives.answered (reached : Reached wall config x)
    (arrives : x.Arrives config c k r g h e due)
    (unfinished : ∀ m o, h < m → m < e → ¬x.Did m (.finished c o)) :
    (x.sessionAt (e + 1)).inbound.replies.get? k = some r ∧
      (x.sessionAt (e + 1)).inbound.lastReading = some r := by
  have pending := arrives.pending_at reached arrives.spans (Nat.le_refl e) unfinished
  obtain ⟨header, first, rest, payload, took, ⟨j, data, hj⟩, inputs, message, parsed⟩ :=
    arrives.received
  obtain ⟨entry, hentry, he⟩ := id hj
  obtain ⟨y, after, hy, begins, rfl, hsession, hr, heffects, hnext⟩ :=
    reached_entry x reached e entry hentry
  have fed : entry.inputs = after.2.filterMap Effect.input? := by rw [Entry.inputs, heffects]
  rw [heffects] at he
  cases hr.digests with
  | nothing quiet _ _ =>
    have : .fragment data ∈ after.2.filterMap Effect.input? := List.mem_filterMap.mpr ⟨_, he, rfl⟩
    simp [quiet] at this
  | reset _ all =>
    cases all (.fragment data) (List.mem_filterMap.mpr ⟨_, he, rfl⟩)
  | @fragment i data' effects inbound =>
    rw [effects, inputs_of_take] at fed
    have came : h = y.history.length ∧ data' = header ∧ rest = [] ∨
        ∃ before, rest = before ++ [data'] ∧ y.Holding config h first before := by
      rcases Nat.lt_or_eq_of_le arrives.spans with hlt | rfl
      · obtain ⟨before, more, rfl, -, collects, last⟩ :=
          collects_of_received begins hlt (Nat.le_refl _) took ⟨j, data, hj⟩ inputs message
        have hmore := (last entry rfl hentry).symm.trans fed
        obtain ⟨d, rfl, hd⟩ := List.map_eq_singleton_iff.mp hmore
        obtain rfl := Reassembler.Input.fragment.inj hd
        exact .inr ⟨before, rfl, reached_holding y hy h header first before collects⟩
      · rw [inputsBetween_self hentry, fed] at inputs
        obtain ⟨hd, hrest⟩ := List.cons.inj inputs
        exact .inl ⟨rfl, Reassembler.Input.fragment.inj hd, by simpa using hrest.symm⟩
    obtain ⟨-, done, marked⟩ := feed_settles hy message.starts message.inside came
    rw [gather_full message.full, ← message.payload] at done
    rw [← begins.sessionAt arrives.spans, Inbound.pendingToken, arrives.pending] at marked
    rw [begins.session] at pending parsed
    rw [← (reached_setUp y hy).settings] at parsed
    rw [hnext, inbound]
    exact (Inbound.take_takes _ _ _ _).answered done parsed pending marked

/-- A reply waits for its call as long as that has no result. -/
theorem reached_reply : ∀ x, Reached wall config x → ∀ g c k due e r, x.Asked g c k due →
    x.Open g c → g < e → e < x.history.length →
    (x.sessionAt (e + 1)).inbound.replies.get? k = some r →
    x.session.inbound.replies.get? k = some r := by
  refine reached_induction ?_ fun x a y hx ih step => ?_
  · intro g c k due e r _ _ _ he
    simp [start] at he
  · have hy := reached_take? hx step
    obtain ⟨after, hr, grows⟩ := take?_grows step
    have begins := grows.begins
    have hlen := grows.length
    intro g c k due n r hasked hopen hgn hn hreply
    rcases Nat.lt_succ_iff_lt_or_eq.mp (hlen ▸ hn) with hlt | rfl
    · have hasked := (begins.asked hx hy (Nat.lt_trans hgn hlt)).mp hasked
      obtain ⟨call, hc, hk, -⟩ := reached_asked x hx g c k due hasked (begins.open hopen)
      rw [begins.sessionAt hlt] at hreply
      rw [grows.session]
      refine hr.reply_stays hx hc hk (fun o ho => ?_)
        (ih g c k due n r hasked (begins.open hopen) hgn hlt hreply)
      exact hopen _ o (Nat.le_of_lt (Nat.lt_trans hgn hlt)) (grows.did ho)
    · rwa [← hlen, sessionAt_length] at hreply

theorem unfinished_of_registered (reached : Reached wall config x)
    (registered : x.Did g (.registered c k)) (o : Outcome) : ¬x.Did g (.finished c o) := by
  intro finished
  obtain ⟨y, a, after, -, -, -, hr, hreg, did, -⟩ := reached_did reached registered
  obtain ⟨plan, frame, limit, hget, -⟩ := hr.registers hreg
  exact (hr.token hget rfl).2 o ((did _).mp finished)

theorem results_at (reached : Reached wall config x) (asked : x.Asked g c k due) (hn : g ≤ n)
    (finished : x.Did n (.finished c o))
    (first : ∀ m o', g ≤ m → m < n → ¬x.Did m (.finished c o')) :
    ∃ call, (x.sessionAt n).calls.get? c = some call ∧ call.stage.token? = some k ∧
      call.stage.due? = some due ∧
      call.stage.Results (x.sessionAt n).inbound (x.timeAt n) k o := by
  have hlt : g < n := by
    refine Nat.lt_of_le_of_ne hn ?_
    rintro rfl
    exact unfinished_of_registered reached asked.registered o finished
  obtain ⟨y, a, after, hy, begins, rfl, hr, he, -⟩ := reached_did reached finished
  have hasked := (begins.asked hy reached hlt).mp asked
  obtain ⟨call, hc, hk, hdue⟩ := reached_asked y hy g c k due hasked
    fun m o' hm hd => first m o' hm (did_lt hd) (begins.did hd)
  obtain ⟨-, -, turn, -⟩ := hr.finished he
  rw [turn] at hr
  cases hr with
  | poll hp =>
    obtain ⟨old, act, hold, hm, rfl⟩ := Session.poll_moves hp
    obtain rfl := Option.some.inj (hc.symm.trans hold)
    cases hm.asks hk with
    | goes _ _ _ _ unfinished => exact absurd he (unfinished o)
    | ends results iff _ =>
      obtain rfl := (iff o).mp he
      rw [begins.session, begins.timeAt hy reached (Nat.le_refl _), timeAt_length]
      exact ⟨call, hc, hk, hdue, results⟩

theorem fault_of_pending {i : Inbound} {now : Nat} {st : Stage} (results : st.Results i now k o)
    (hdue : st.due? = some due) (early : now < due) (pending : i.pending = some ⟨k, c⟩)
    (unanswered : i.replies.get? k = none) : st.write?.isSome ∧ ∃ f, o = .fault f := by
  cases results with
  | @failed _ w f hw => exact ⟨by rw [hw]; rfl, f, rfl⟩
  | late hw rings =>
    obtain rfl := Option.some.inj (hdue.symm.trans (Stage.due?_of_write? hw))
    exact absurd (of_decide_eq_true rings) (Nat.not_le.mpr early)
  | answered hr => simp [unanswered] at hr
  | silent _ _ rings =>
    obtain rfl := Option.some.inj hdue
    exact absurd (of_decide_eq_true rings) (Nat.not_le.mpr early)
  | displaced _ hp => simp [Inbound.pendingToken, pending] at hp

theorem result_of_reply {i : Inbound} {now : Nat} {st : Stage} {r' : Reading}
    (results : st.Results i now k o) (hdue : st.due? = some due) (hr : i.replies.get? k = some r)
    (known : i.lastReading = some r') :
    (st.write? = none ∧ o = .response (.fresh r)) ∨
      (st.write?.isSome ∧ ((∃ f, o = .fault f) ∨ due ≤ now ∧ o = .response (.stale r'))) := by
  cases results with
  | @failed _ w f hw => exact .inr ⟨by rw [hw]; rfl, .inl ⟨f, rfl⟩⟩
  | late hw rings =>
    obtain rfl := Option.some.inj (hdue.symm.trans (Stage.due?_of_write? hw))
    exact .inr ⟨by rw [hw]; rfl, .inr ⟨of_decide_eq_true rings, by rw [known]; rfl⟩⟩
  | answered hr' =>
    obtain rfl := Option.some.inj (hr.symm.trans hr')
    exact .inl ⟨rfl, rfl⟩
  | silent hr' _ _ => simp [hr] at hr'
  | displaced hr' _ => simp [hr] at hr'

theorem Arrives.completed (arrives : x.Arrives config c k r g h e due) : e < x.history.length := by
  obtain ⟨header, first, rest, payload, -, ⟨j, data, hj⟩, -⟩ := arrives.received
  exact did_lt hj

theorem Arrives.registered (reached : Reached wall config x)
    (arrives : x.Arrives config c k r g h e due) :
    g < h ∧ ∀ m o, g ≤ m → m < h → ¬x.Did m (.finished c o) :=
  open_of_pending reached (Nat.lt_of_le_of_lt arrives.spans arrives.completed) arrives.pending
    arrives.asked.registered

theorem Arrives.replied (reached : Reached wall config x)
    (arrives : x.Arrives config c k r g h e due) (hen : e < n) (hn : n ≤ x.history.length)
    (unfinished : ∀ m o, g ≤ m → m < n → ¬x.Did m (.finished c o)) :
    (x.sessionAt n).inbound.replies.get? k = some r ∧
      ∃ r', (x.sessionAt n).inbound.lastReading = some r' := by
  have hgh := (arrives.registered reached).1
  have hge : g < e := Nat.lt_of_lt_of_le hgh arrives.spans
  obtain ⟨reply, known⟩ := arrives.answered reached fun m o hm hlt =>
    unfinished m o (Nat.le_of_lt (Nat.lt_trans hgh hm)) (Nat.lt_trans hlt hen)
  refine ⟨?_, ?_⟩
  · obtain ⟨y, hy, begins, rfl⟩ := reached_prefix reached hn
    rw [begins.session]
    refine reached_reply y hy g c k due e r
      ((begins.asked hy reached (Nat.lt_trans hge hen)).mp arrives.asked)
      (fun m o hm hd => unfinished m o hm (did_lt hd) (begins.did hd)) hge hen ?_
    rwa [← begins.sessionAt hen]
  · rw [lastReading_between reached hen hn, known]
    cases (x.readingsBetween (e + 1) n).getLast? with
    | none => exact ⟨r, rfl⟩
    | some r' => exact ⟨r', rfl⟩

/-- A call whose request was answered in time returns that answer as fresh, unless its write
ends in a fault or is still unfinished at the turn that finds the deadline over. Until then it
has its request, it can return as soon as its frame is written, and a clock that waits does not
leave it behind its deadline. -/
theorem reached_answered (reached : Reached wall config x)
    (arrives : x.Arrives config c k r g h e due) :
    (∀ n o, g ≤ n → x.Did n (.finished c o) →
        (∀ m o', g ≤ m → m < n → ¬x.Did m (.finished c o')) →
      ∃ call, (x.sessionAt n).calls.get? c = some call ∧ call.stage.token? = some k ∧
        (call.stage.write? = none → e < n ∧ o = .response (.fresh r)) ∧
        (call.stage.write?.isSome → (∃ f, o = .fault f) ∨
          e < n ∧ due ≤ x.timeAt n ∧ ∃ r', (x.sessionAt n).inbound.lastReading = some r' ∧
            o = .response (.stale r'))) ∧
      (x.Open g c → ∃ call, x.session.calls.get? c = some call ∧ call.stage.token? = some k ∧
        call.stage.due? = some due ∧
        (call.stage.write? = none → ∃ after, x.session.poll (x.moment wall) c = some after ∧
          .finished c (.response (.fresh r)) ∈ after.2)) ∧
      (ReachedInTime wall config x → due < x.now → ¬x.Open g c) := by
  obtain ⟨hgh, early⟩ := arrives.registered reached
  refine ⟨fun n o hgn finished first => ?_, fun hopen => ?_, fun inTime late hopen => ?_⟩
  · have hn := did_lt finished
    obtain ⟨call, hc, hk, hdue, results⟩ := results_at reached arrives.asked hgn finished first
    refine ⟨call, hc, hk, ?_⟩
    rcases Nat.lt_or_ge e n with hen | hne
    · obtain ⟨reply, r', known⟩ := arrives.replied reached hen (Nat.le_of_lt hn) first
      rcases result_of_reply results hdue reply known with ⟨hw, rfl⟩ | ⟨hw, result⟩
      · exact ⟨fun _ => ⟨hen, rfl⟩, fun h => by simp [hw] at h⟩
      · refine ⟨fun h => by simp [h] at hw, fun _ => result.imp_right ?_⟩
        exact fun ⟨hlate, ho⟩ => ⟨hen, hlate, r', known, ho⟩
    · have hhn : h ≤ n := Nat.le_of_not_lt fun hlt => early n o hgn hlt finished
      have pending := arrives.pending_at reached hhn hne fun m o' hm =>
        first m o' (Nat.le_of_lt (Nat.lt_trans hgh hm))
      have unanswered : (x.sessionAt n).inbound.replies.get? k = none := by
        obtain ⟨y, hy, begins, rfl⟩ := reached_prefix reached (Nat.le_of_lt hn)
        rw [begins.session] at pending ⊢
        cases hr : y.session.inbound.replies.get? k with
        | none => rfl
        | some r' => exact absurd rfl (reached_replied y hy k r' hr _ pending)
      have htime : x.timeAt n < due := Nat.lt_of_le_of_lt
        (timeAt_mono reached hne (Nat.le_of_lt arrives.completed)) arrives.inTime
      obtain ⟨hw, fault⟩ := fault_of_pending results hdue htime pending unanswered
      exact ⟨fun h => by simp [h] at hw, fun _ => .inl fault⟩
  · obtain ⟨⟨plan, st, answer⟩, hc, hk, hdue⟩ :=
      reached_asked x reached g c k due arrives.asked hopen
    refine ⟨_, hc, hk, hdue, fun hw => ?_⟩
    obtain ⟨reply, -⟩ := arrives.replied reached arrives.completed (Nat.le_refl _)
      fun m o hm _ => hopen m o hm
    rw [sessionAt_length] at reply
    obtain ⟨a, rfl⟩ := st.awaiting_of_token? hk hw
    exact Session.poll_of_reply hc reply
  · exact absurd (inTime_asked x inTime g c k due arrives.asked hopen) (Nat.not_le.mpr late)

/-! Two courses of one call that asks for a status. In the first its frame is written before the
status comes, in the second the radio never finishes the write. -/

def statusHeader : Bytes := magic ++ 49 :: List.replicate 10 1

def statusRest : Bytes := List.replicate 38 2

def statusComes : List Action :=
  [.deliver 0 statusHeader, .listen 0, .deliver 0 statusRest, .listen 0]

def writtenBefore : List Action :=
  opening ++ [.invoke 1 (.ask [1] 1000), .poll 1, .poll 1, .poll 1, .complete 1 none, .poll 1] ++
    statusComes ++ [.poll 1]

def neverWritten : List Action :=
  opening ++ [.invoke 1 (.ask [1] 1000), .poll 1, .poll 1, .poll 1] ++ statusComes ++
    [.pass 1000, .poll 1]

structure Shows (x : Course) (h : Nat) : Prop where
  asked : (x.history[13]?).map Entry.effects = some [.began 1 (.ask [1] 1000), .registered 1 1]
  began : x.timeAt 13 = 0
  header : (x.history[h]?).map Entry.effects = some [.took 0 statusHeader]
  between : (x.history[h + 1]?).map Entry.effects = some []
  last : (x.history[h + 2]?).bind (·.effects.head?) = some (.took 0 statusRest)
  inputs : x.inputsBetween h (h + 2) = [.fragment statusHeader, .fragment statusRest]
  pending : (x.sessionAt h).inbound.pending = some ⟨1, 1⟩
  inTime : x.timeAt (h + 2) < 1000

instance (x : Course) (h : Nat) : Decidable (x.Shows h) :=
  decidable_of_iff (_ ∧ _ ∧ _ ∧ _ ∧ _ ∧ _ ∧ _ ∧ _)
    ⟨fun ⟨a, b, c, d, e, f, g, h⟩ => ⟨a, b, c, d, e, f, g, h⟩,
      fun ⟨a, b, c, d, e, f, g, h⟩ => ⟨a, b, c, d, e, f, g, h⟩⟩

theorem Shows.arrives (shows : x.Shows h) :
    ∃ r, x.Arrives oneAttempt 1 1 r 13 h (h + 2) 1000 := by
  have message : StatusMessage Profile.standard statusHeader (List.replicate 10 1) [statusRest]
      (List.replicate 10 1 ++ statusRest) := by
    refine ⟨by decide, by decide, fun n hn => ?_, by decide, by decide⟩
    obtain rfl : n = 0 := Nat.lt_one_iff.mp hn
    decide
  have did {n : Nat} {effects : List Effect} {f : Effect}
      (hn : (x.history[n]?).map Entry.effects = some effects) (hf : f ∈ effects) : x.Did n f := by
    obtain ⟨entry, hentry, rfl⟩ := Option.map_eq_some_iff.mp hn
    exact ⟨entry, hentry, hf⟩
  obtain ⟨entry, hlast, htook⟩ := Option.bind_eq_some_iff.mp shows.last
  have received : ∃ r, x.Received oneAttempt r h (h + 2) :=
    ⟨_, statusHeader, _, [statusRest], _, ⟨0, did shows.header (by simp)⟩,
      ⟨0, statusRest, entry, hlast, List.mem_of_mem_head? htook⟩, shows.inputs, message,
      if_neg (by decide)⟩
  obtain ⟨r, received⟩ := received
  refine ⟨r, ⟨did shows.asked (by simp), [1], 1000, did shows.asked (by simp), by rw [shows.began]⟩,
    shows.pending, Nat.le_add_right h 2, received, shows.inTime, fun m c k hm hlt hd => ?_⟩
  obtain rfl : m = h + 1 := by omega
  obtain ⟨entry, hentry, he⟩ := hd
  have := shows.between
  rw [hentry] at this
  rw [Option.some.inj this] at he
  cases he

theorem answered_before_deadline :
    ∃ x r, Reached noon oneAttempt x ∧ x.Arrives oneAttempt 1 1 r 13 18 20 1000 ∧
      x.Did 21 (.finished 1 (.response (.fresh r))) := by
  have h : ((start oneAttempt).run? noon writtenBefore).any (fun x => decide (x.Shows 18) &&
      ((x.sessionAt 21).calls.get? 1).any (fun call => call.stage.write? = none) &&
      ((x.history.take 21).drop 13).all (fun entry =>
        entry.effects.all fun e => !(e matches .finished 1 _)) &&
      (x.history[21]?).any fun entry =>
        entry.effects.any fun e => e matches .finished 1 _) = true := by
    decide +kernel
  obtain ⟨x, hx, h⟩ := (Option.any_eq_true _ _).mp h
  simp only [Bool.and_eq_true, decide_eq_true_eq] at h
  obtain ⟨⟨⟨shows, hstage⟩, hopen⟩, hend⟩ := h
  obtain ⟨r, arrives⟩ := shows.arrives
  obtain ⟨entry, hn, hend⟩ := (Option.any_eq_true _ _).mp hend
  obtain ⟨e, he, hmatch⟩ := List.any_eq_true.mp hend
  obtain ⟨o, rfl⟩ : ∃ o, e = .finished 1 o := by
    split at hmatch
    · exact ⟨_, rfl⟩
    · cases hmatch
  have first (m : Nat) (o' : Outcome) (hm : 13 ≤ m) (hlt : m < 21) : ¬x.Did m (.finished 1 o') := by
    rintro ⟨entry', hentry', he'⟩
    have hmem : entry' ∈ (x.history.take 21).drop 13 := by
      refine List.mem_of_getElem? (i := m - 13) ?_
      rw [List.getElem?_drop, List.getElem?_take, if_pos (by omega), Nat.add_sub_cancel' hm,
        hentry']
    have := List.all_eq_true.mp (List.all_eq_true.mp hopen entry' hmem) _ he'
    simp at this
  obtain ⟨call, hc, -, fresh, -⟩ :=
    (reached_answered ⟨writtenBefore, hx⟩ arrives).1 21 o (by omega) ⟨entry, hn, he⟩ first
  rw [hc] at hstage
  obtain ⟨-, rfl⟩ := fresh (by simpa using hstage)
  exact ⟨x, r, ⟨writtenBefore, hx⟩, arrives, entry, hn, he⟩

/-- The status arrives in time, and the call returns a stale reading. -/
theorem answered_while_writing :
    ∃ x r r', Reached noon oneAttempt x ∧ x.Arrives oneAttempt 1 1 r 13 16 18 1000 ∧
      x.Did 20 (.finished 1 (.response (.stale r'))) := by
  have h : ((start oneAttempt).run? noon neverWritten).any (fun x => decide (x.Shows 16) &&
      (x.history[20]?).any (fun entry => entry.effects.any fun e =>
        e matches .finished 1 (.response (.stale _)))) = true := by
    decide +kernel
  obtain ⟨x, hx, h⟩ := (Option.any_eq_true _ _).mp h
  simp only [Bool.and_eq_true, decide_eq_true_eq] at h
  obtain ⟨shows, hend⟩ := h
  obtain ⟨r, arrives⟩ := shows.arrives
  obtain ⟨entry, hn, hend⟩ := (Option.any_eq_true _ _).mp hend
  obtain ⟨e, he, hmatch⟩ := List.any_eq_true.mp hend
  obtain ⟨r', rfl⟩ : ∃ r', e = .finished 1 (.response (.stale r')) := by
    split at hmatch
    · exact ⟨_, rfl⟩
    · cases hmatch
  exact ⟨x, r, r', ⟨neverWritten, hx⟩, arrives, entry, hn, he⟩

end Course

end HeaterLink
