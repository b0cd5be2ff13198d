import HeaterLink.Proofs.Requests.Waiting

/-!
# Messages that arrive

The fragments of a status message, as they lie in the history, are what the
reassembler makes of them: with the last of them the message is complete, and
the token that its header marked is that of the request that was pending when
the header came. The request stays pending in the meantime, so the message
answers it.
-/

set_option autoImplicit false

namespace HeaterLink

namespace Course

variable {wall : Nat → Clock} {config : Config} {x y : Course} {a : Action}
  {after : Session × List Effect} {c : CallId} {k : Token} {r : Reading} {h e : Nat}
  {header first data : Bytes} {later : List Bytes} {last : Entry}

inductive Digests (s : Session) (after : Session × List Effect) : Prop
  | nothing : after.2.filterMap Effect.input? = [] →
      after.1.inbound.reassembler = s.inbound.reassembler →
      after.1.inbound.headerToken = s.inbound.headerToken → Digests s after
  | reset : after.2.filterMap Effect.input? ≠ [] →
      (∀ i ∈ after.2.filterMap Effect.input?, i = .reset) → Digests s after
  | fragment {i : StreamId} {data : Bytes} :
      after.2 = .took i data ::
        (s.inbound.take s.config.profile.layout s.ratedPower data).2 →
      after.1.inbound = (s.inbound.take s.config.profile.layout s.ratedPower data).1 →
      Digests s after

theorem Reacts.digests (h : x.Reacts wall a after) : Digests x.session after := by
  cases h with
  | @poll c _ hp =>
    obtain ⟨call, -, hl⟩ := Session.poll_leads hp
    have hreq := hl.onRequests
    by_cases hnil : after.2.filterMap Effect.input? = []
    · exact .nothing hnil (hreq.reassembler.trans (by rw [hnil]; rfl)) hreq.headerToken
    · exact .reset hnil hreq.resets
  | listen hl =>
    cases hl with
    | wakes _ _ => exact .reset (by simp [Effect.input?]) (by simp [Effect.input?])
    | takes _ _ _ => exact .fragment rfl rfl
    | ends _ _ _ _ =>
      refine .reset ?_ ?_ <;> split <;> simp [Effect.input?]
    | drops _ _ => exact .nothing rfl rfl rfl
  | _ => exact .nothing rfl rfl rfl

structure Collects (config : Config) (x : Course) (h : Nat) (header first : Bytes)
    (later : List Bytes) : Prop where
  took : ∃ i, x.Did h (.took i header)
  inputs : x.inputsFrom h = (header :: later).map .fragment
  starts : config.profile.lengths.statusStart? header = some first
  inside : ∀ data ∈ later, config.profile.lengths.isHeader data = false
  short : ∀ n ≤ later.length, (config.profile.gather first (later.take n)).bytes.length <
    config.profile.lengths.payloadLength .status

theorem inputsFrom_ne_nil {i : StreamId} (hd : x.Did h (.took i data)) : x.inputsFrom h ≠ [] := by
  obtain ⟨entry, hentry, he⟩ := hd
  obtain ⟨hlt, rfl⟩ := List.getElem?_eq_some_iff.mp hentry
  have : .fragment data ∈ x.inputsFrom h := by
    refine List.mem_flatMap.mpr ⟨x.history[h], ?_, List.mem_filterMap.mpr ⟨_, he, rfl⟩⟩
    rw [List.drop_eq_getElem_cons hlt]
    exact List.mem_cons_self
  exact List.ne_nil_of_mem this

inductive Adds (config : Config) (x : Course) (h : Nat) (header first : Bytes) (later : List Bytes)
    (after : Session × List Effect) : Prop
  | nothing : after.2.filterMap Effect.input? = [] →
      after.1.inbound.reassembler = x.session.inbound.reassembler →
      after.1.inbound.headerToken = x.session.inbound.headerToken →
      x.Collects config h header first later → Adds config x h header first later after
  | fragment {i : StreamId} {data : Bytes} :
      after.2 = .took i data ::
        (x.session.inbound.take x.session.config.profile.layout x.session.ratedPower data).2 →
      after.1.inbound =
        (x.session.inbound.take x.session.config.profile.layout x.session.ratedPower data).1 →
      (h = x.history.length ∧ data = header ∧ later = [] ∨
        ∃ before, later = before ++ [data] ∧ x.Collects config h header first before) →
      Adds config x h header first later after

theorem Collects.begins (b : x.Begins y) {more : List Bytes}
    (hc : y.Collects config h header first (later ++ more)) (hh : h < x.history.length)
    (inputs : x.inputsFrom h = (header :: later).map .fragment) :
    x.Collects config h header first later where
  took := hc.took.imp fun i hi => (b.did_iff hh).mp hi
  inputs := inputs
  starts := hc.starts
  inside := fun d hd => hc.inside d (List.mem_append_left _ hd)
  short := by
    intro n hn
    have := hc.short n (by rw [List.length_append]; omega)
    rwa [List.take_append_of_le_length hn] at this

theorem Collects.step (hr : x.Reacts wall a after) (grows : x.Grows a after y)
    (hc : y.Collects config h header first later) : Adds config x h header first later after := by
  have b := grows.begins
  obtain ⟨i, hi⟩ := hc.took
  have inputs := hc.inputs
  rcases grows.did_iff.mp hi with hi | ⟨rfl, hi⟩
  · have hlt := did_lt hi
    rw [inputsFrom_snoc grows.history (Nat.le_of_lt hlt), Entry.inputs] at inputs
    cases hr.digests with
    | nothing quiet reassembler token =>
      rw [quiet, List.append_nil] at inputs
      exact .nothing quiet reassembler token
        (Collects.begins b (by rwa [List.append_nil]) hlt inputs)
    | reset some all =>
      obtain ⟨j, hj⟩ := List.exists_mem_of_ne_nil _ some
      have hmem := inputs ▸ List.mem_append_right (x.inputsFrom h) hj
      rw [all j hj] at hmem
      simp at hmem
    | @fragment j data effects inbound =>
      refine .fragment effects inbound (.inr ?_)
      rw [effects, inputs_of_take] at inputs
      rcases List.eq_nil_or_concat later with rfl | ⟨before, d, rfl⟩
      · have nil : x.inputsFrom h = [] := by simpa using congrArg List.length inputs
        exact absurd nil (inputsFrom_ne_nil hi)
      · rw [List.concat_eq_append, ← List.cons_append, List.map_append] at inputs
        obtain ⟨fewer, e⟩ := List.append_singleton_inj.mp inputs
        obtain rfl := Reassembler.Input.fragment.inj e
        rw [List.concat_eq_append] at hc ⊢
        exact ⟨before, rfl, Collects.begins b hc hlt fewer⟩
  · rw [inputsFrom_snoc grows.history (Nat.le_refl _), Entry.inputs, inputsFrom, List.drop_length,
      List.flatMap_nil, List.nil_append] at inputs
    cases hr.digests with
    | nothing quiet _ _ => simp [quiet] at inputs
    | reset some all =>
      have := all (.fragment header) (inputs ▸ List.mem_cons_self)
      cases this
    | @fragment j data effects inbound =>
      rw [effects, inputs_of_take] at inputs
      obtain ⟨e, rest⟩ := List.cons.inj inputs
      obtain rfl := Reassembler.Input.fragment.inj e
      exact .fragment effects inbound (.inl ⟨rfl, rfl, by simpa using rest.symm⟩)

structure Holding (config : Config) (x : Course) (h : Nat) (first : Bytes) (later : List Bytes) :
    Prop where
  holds : x.session.inbound.reassembler.Holds (some (config.profile.gather first later))
  token : x.session.inbound.headerToken = (x.sessionAt h).inbound.pendingToken

theorem feed_header (hx : Reached wall config x)
    (starts : config.profile.lengths.statusStart? data = some first) :
    (x.session.inbound.reassembler.feed data).1.Holds
        (Gathering.settle config.profile.lengths (config.profile.gather first [])).1 ∧
      (x.session.inbound.reassembler.feed data).2 =
        (Gathering.settle config.profile.lengths (config.profile.gather first [])).2 ∧
      (x.session.inbound.mark data).headerToken = x.session.inbound.pendingToken := by
  have setUp := reached_setUp x hx
  obtain ⟨g, holds, -⟩ := reached_tracked x hx
  obtain ⟨hfst, hsnd⟩ := Reassembler.feed_gathering setUp.fitted holds data
  obtain ⟨code, hclass⟩ : ∃ code,
      config.profile.lengths.classify data = .header .status code first := by
    unfold LengthTable.statusStart? at starts
    split at starts
    · rename_i hc
      obtain rfl := Option.some.inj starts
      exact ⟨_, hc⟩
    · cases starts
  rw [setUp.table, setUp.dropRepeats, Gathering.feed, hclass] at hfst hsnd
  refine ⟨hfst, hsnd, ?_⟩
  rw [Inbound.mark, setUp.table, hclass]

theorem feed_later (hx : Reached wall config x)
    (inside : config.profile.lengths.isHeader data = false)
    (holding : x.Holding config h first later) :
    (x.session.inbound.reassembler.feed data).1.Holds
        (Gathering.settle config.profile.lengths
          (config.profile.gather first (later ++ [data]))).1 ∧
      (x.session.inbound.reassembler.feed data).2 =
        (Gathering.settle config.profile.lengths
          (config.profile.gather first (later ++ [data]))).2 ∧
      (x.session.inbound.mark data).headerToken = (x.sessionAt h).inbound.pendingToken := by
  have setUp := reached_setUp x hx
  obtain ⟨hfst, hsnd⟩ := Reassembler.feed_gathering setUp.fitted holding.holds data
  rw [setUp.table, setUp.dropRepeats, Gathering.feed_later inside, Option.map_some,
    Option.elim_some, ← Profile.gather_snoc] at hfst hsnd
  refine ⟨hfst, hsnd, ?_⟩
  rw [Inbound.mark_later (setUp.table ▸ inside), holding.token]

theorem feed_settles (hx : Reached wall config x)
    (starts : config.profile.lengths.statusStart? header = some first)
    (inside : ∀ data ∈ later, config.profile.lengths.isHeader data = false)
    (came : h = x.history.length ∧ data = header ∧ later = [] ∨
      ∃ before, later = before ++ [data] ∧ x.Holding config h first before) :
    (x.session.inbound.reassembler.feed data).1.Holds
        (Gathering.settle config.profile.lengths (config.profile.gather first later)).1 ∧
      (x.session.inbound.reassembler.feed data).2 =
        (Gathering.settle config.profile.lengths (config.profile.gather first later)).2 ∧
      (x.session.inbound.mark data).headerToken = (x.sessionAt h).inbound.pendingToken := by
  rcases came with ⟨rfl, rfl, rfl⟩ | ⟨before, rfl, holding⟩
  · rw [sessionAt_length]
    exact feed_header hx starts
  · exact feed_later hx (inside data (by simp)) holding

theorem gather_short {p : Profile} (short : (p.gather first later).bytes.length <
    p.lengths.payloadLength .status) :
    Gathering.settle p.lengths (p.gather first later) = (some (p.gather first later), none) := by
  have kind := p.gather_kind first later
  generalize p.gather first later = g at short kind
  obtain ⟨k, bytes, last⟩ := g
  obtain rfl : k = .status := kind
  exact Gathering.settle_short (by simp) short

theorem gather_full {p : Profile} (full : p.lengths.payloadLength .status ≤
    (p.gather first later).bytes.length) :
    (Gathering.settle p.lengths (p.gather first later)).2 =
      some (.status ((p.gather first later).bytes.take (p.lengths.payloadLength .status))) := by
  have kind := p.gather_kind first later
  generalize p.gather first later = g at full kind ⊢
  obtain ⟨k, bytes, last⟩ := g
  obtain rfl : k = .status := kind
  rw [Gathering.settle_full full]
  rfl

/-- As long as the fragments do not suffice the reassembler holds them. -/
theorem reached_holding : ∀ x, Reached wall config x → ∀ h header first later,
    x.Collects config h header first later → x.Holding config h first later := by
  refine reached_induction ?_ fun x a y hx ih step => ?_
  · intro h header first later hc
    obtain ⟨i, entry, hentry, -⟩ := hc.took
    simp [start] at hentry
  · obtain ⟨after, hr, grows⟩ := take?_grows step
    have b := grows.begins
    intro h header first later hc
    cases hc.step hr grows with
    | nothing _ reassembler token before =>
      obtain ⟨holds, marked⟩ := ih h header first later before
      obtain ⟨i, hi⟩ := before.took
      rw [← b.sessionAt (Nat.le_of_lt (did_lt hi))] at marked
      exact ⟨by rw [grows.session, reassembler]; exact holds,
        by rw [grows.session]; exact token.trans marked⟩
    | @fragment i data effects inbound came =>
      have fields := (Inbound.take_takes x.session.config.profile.layout x.session.ratedPower
        x.session.inbound data).fields
      have hh : h ≤ x.history.length := by
        rcases came with ⟨rfl, -⟩ | ⟨before, -, hbefore⟩
        · exact Nat.le_refl _
        · obtain ⟨i, hi⟩ := hbefore.took
          exact Nat.le_of_lt (did_lt hi)
      obtain ⟨holds, -, marked⟩ := feed_settles hx hc.starts hc.inside
        (came.imp_right (Exists.imp fun before => And.imp_right (ih h header first before)))
      have short := hc.short later.length (Nat.le_refl _)
      rw [List.take_length] at short
      rw [gather_short short] at holds
      rw [← b.sessionAt hh] at marked
      constructor
      · rw [grows.session, inbound, fields.1]
        exact holds
      · rw [← marked, grows.session, inbound, fields.2]

def Undisturbed (x : Course) (h : Nat) (c : CallId) : Prop :=
  ∀ m, h ≤ m → (∀ o, ¬x.Did m (.finished c o)) ∧ ∀ c' k', ¬x.Did m (.registered c' k')

theorem Begins.undisturbed (b : x.Begins y) (hu : y.Undisturbed h c) : x.Undisturbed h c :=
  fun m hm => ⟨fun o hd => (hu m hm).1 o (b.did hd), fun c' k' hd => (hu m hm).2 c' k' (b.did hd)⟩

/-- The request that was pending when the header came is pending while the message comes. -/
theorem reached_undisturbed : ∀ x, Reached wall config x → ∀ h header first later k c,
    x.Collects config h header first later → (x.sessionAt h).inbound.pending = some ⟨k, c⟩ →
    x.Undisturbed h c → x.session.inbound.pending = some ⟨k, c⟩ := by
  refine reached_induction ?_ fun x a y hx ih step => ?_
  · intro h header first later k c hc
    obtain ⟨i, entry, hentry, -⟩ := hc.took
    simp [start] at hentry
  · obtain ⟨after, hr, grows⟩ := take?_grows step
    have b := grows.begins
    intro h header first later k c hc pending undisturbed
    have hh : h ≤ x.history.length := by
      obtain ⟨i, hi⟩ := hc.took
      have := did_lt hi
      rw [grows.length] at this
      exact Nat.le_of_lt_succ this
    rw [b.sessionAt hh] at pending
    have unfinished (o : Outcome) (ho : .finished c o ∈ after.2) : False :=
      (undisturbed _ hh).1 o (grows.did ho)
    have alone (c' : CallId) (k' : Token) (hk : .registered c' k' ∈ after.2) : False :=
      (undisturbed _ hh).2 c' k' (grows.did hk)
    rw [grows.session]
    cases hc.step hr grows with
    | nothing quiet _ _ before =>
      refine hr.pending_stays hx
        (ih h header first later k c before pending (b.undisturbed undisturbed))
        unfinished alone fun i data hd => ?_
      have : .fragment data ∈ after.2.filterMap Effect.input? :=
        List.mem_filterMap.mpr ⟨_, hd, rfl⟩
      rw [quiet] at this
      cases this
    | @fragment i data effects inbound came =>
      have pending : x.session.inbound.pending = some ⟨k, c⟩ := by
        rcases came with ⟨rfl, -⟩ | ⟨before, -, hbefore⟩
        · rwa [sessionAt_length] at pending
        · exact ih h header first before k c hbefore pending (b.undisturbed undisturbed)
      obtain ⟨-, incomplete, -⟩ := feed_settles hx hc.starts hc.inside (came.imp_right
        (Exists.imp fun before => And.imp_right (reached_holding x hx h header first before)))
      have short := hc.short later.length (Nat.le_refl _)
      rw [List.take_length] at short
      rw [gather_short short] at incomplete
      refine hr.pending_stays hx pending unfinished alone fun j d hd => ?_
      rw [effects] at hd
      rcases List.mem_cons.mp hd with e | hd
      · obtain ⟨-, rfl⟩ := Effect.took.inj e
        exact incomplete
      · rcases (Inbound.take_takes _ _ _ _).mem hd with ⟨event, e⟩ | ⟨p, -, -, e⟩ <;> cases e

end Course

end HeaterLink
