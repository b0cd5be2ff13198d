import HeaterLink.Proofs.Link.Attempts

/-!
# Attempts to subscribe

A sequence that has a handle to subscribe to first retires the listener that
runs, and then makes its attempts one after the other, each on a stream of its
own and with a pause between one and the next. The first that succeeds gets a
listener on its stream. Behind the last one the handle is kept, and the next
sequence takes it up again if its link is still up.
-/

set_option autoImplicit false

namespace HeaterLink

variable {config : Config} {c : CallId} {h : Handle} {first i : StreamId}
  {tries : List (Option Fault)} {part ms : List Mark}

def Config.declined (config : Config) (refusal : Option Fault) : Fault :=
  refusal.getD (.subscribeTimeout config.subscribe.limit)

def lastDeclined (config : Config) (tries : List (Option Fault)) : Fault :=
  (tries.getLast?.map config.declined).getD .notConnected

def declines (c : CallId) (h : Handle) : StreamId → List (Option Fault) → List Mark
  | _, [] => []
  | i, refusal :: rest =>
    .did (.requested c (.subscribe h i)) :: setback c refusal :: declines c h (i + 1) rest

theorem declines_snoc (refusal : Option Fault) :
    declines c h i (tries ++ [refusal]) = declines c h i tries ++
      [.did (.requested c (.subscribe h (i + tries.length))), setback c refusal] := by
  induction tries generalizing i with
  | nil => rfl
  | cons first rest ih =>
    simp [declines, ih, Nat.add_assoc, Nat.add_comm 1]

def Session.preface (s : Session) : List Mark :=
  (if s.held = none then [.did (.entered .connected), .did (.emitted .connected)] else []) ++
    s.runningListener.toList.map fun i => .did (.cancelled i)

inductive Session.Subscribes (s : Session) (c : CallId) (h : Handle) : Prop
  | again : s.Starts c → s.held = some ⟨h, true⟩ → ¬(s.isListening ∧ s.state.isReady) →
      Subscribes s c h
  | connected {call : Call} {made : Nat} {a : Alarm} : s.calls.get? c = some call →
      call.stage = .connecting made h a → call.answer = some (.finished none) → Subscribes s c h

inductive Subscribing (config : Config) (c : CallId) (h : Handle) (first : StreamId)
    (tries : List (Option Fault)) : List Mark → Stage → Option RadioAnswer → StreamId → Prop
  | asks {a : Alarm} : Subscribing config c h first tries
      (declines c h first tries ++ [.did (.requested c (.subscribe h (first + tries.length)))])
      (.subscribing tries.length (first + tries.length) a) none (first + tries.length + 1)
  | hears {a : Alarm} {fault : Option Fault} : Subscribing config c h first tries
      (declines c h first tries ++ [.did (.requested c (.subscribe h (first + tries.length))),
        .heard c (.finished fault)])
      (.subscribing tries.length (first + tries.length) a) (some (.finished fault))
      (first + tries.length + 1)
  | pauses {a : Alarm} : Subscribing config c h first tries (declines c h first tries)
      (.pausing tries.length (lastDeclined config tries) a) none (first + tries.length)

theorem Subscribing.heard {st : Stage} {answer : RadioAnswer} {next : StreamId}
    (subscribing : Subscribing config c h first tries part st none next) (fit : st.hears answer) :
    Subscribing config c h first tries (part ++ [.heard c answer]) st (some answer) next := by
  cases subscribing with
  | asks =>
    cases answer with
    | found found => cases fit
    | finished fault => simpa using Subscribing.hears
  | pauses => cases answer <;> cases fit

theorem Subscribing.mute {s : Session} {st : Stage} {answer : Option RadioAnswer} {next : StreamId}
    (subscribing : Subscribing config c h first tries part st answer next) (fits : s.Fits st) :
    s.Mute := by
  cases subscribing with
  | asks => exact fits.1
  | hears => exact fits.1
  | pauses => exact fits

theorem Subscribing.succeeded {made : Nat} {a : Alarm} {next : StreamId}
    (subscribing : Subscribing config c h first tries part (.subscribing made i a)
      (some (.finished none)) next) :
    i = first + tries.length ∧ part = declines c h first tries ++
      [.did (.requested c (.subscribe h i)), .heard c (.finished none)] := by
  cases subscribing with
  | hears => exact ⟨rfl, rfl⟩

theorem Subscribing.failed {m : Moment} {plan : Plan} {made : Nat} {a : Alarm}
    {answer : Option RadioAnswer} {next : StreamId} {f : Fault}
    (subscribing : Subscribing config c h first tries part (.subscribing made i a) answer next)
    (fails : Act.Turn.Fails ⟨m, c, plan⟩ a (.subscribeTimeout config.subscribe.limit) answer ms f) :
    ∃ refusal, f = config.declined refusal ∧ made = tries.length ∧
      next = first + (tries ++ [refusal]).length ∧
      part ++ ms = declines c h first (tries ++ [refusal]) := by
  cases subscribing with
  | asks =>
    cases fails with
    | late silent rings => exact ⟨none, rfl, rfl, by simp [Nat.add_assoc], by
        simp [declines_snoc, setback]⟩
  | @hears _ fault =>
    cases fails with
    | @refused f => exact ⟨some f, rfl, rfl, by simp [Nat.add_assoc], by
        simp [declines_snoc, setback]⟩
    | late silent _ => exact absurd rfl (silent _)

theorem Subscribing.paused {made : Nat} {f : Fault} {a : Alarm} {answer : Option RadioAnswer}
    {next : StreamId}
    (subscribing : Subscribing config c h first tries part (.pausing made f a) answer next) :
    made = tries.length ∧ f = lastDeclined config tries ∧ next = first + tries.length ∧
      part = declines c h first tries := by
  cases subscribing with
  | pauses => exact ⟨rfl, rfl, rfl, rfl⟩

namespace Session

variable {s s' : Session}

theorem runningListener_of_offers (offers : s.offers i) (listener : s'.listener = some i)
    (streams : s'.streams = s.streams.modify i ({ · with phase := .waiting })) :
    s'.runningListener = some i := by
  obtain ⟨stream, hs, -⟩ := (Option.any_eq_true _ _).mp offers
  simp [runningListener, listener, streams, Table.get?_modify, hs, Stream.unfinished,
    Option.filter_some]

theorem SameAs.handle (link : s.SameAs s') : s'.handle? = s.handle? := by
  rw [handle?, handle?, link.held]

theorem SameAs.mute (link : s.SameAs s') (mute : s.Mute) : s'.Mute :=
  (sameLink_of_eq link.state link.held link.listener link.streams).mute mute

theorem preface_of_held {held : Held} (hh : s.held = some held) :
    s.preface = noted (Act.cancelListener s).2 := by
  simp [preface, hh, Act.Turn.noted_cancelListener]

theorem preface_of_unlinked (unlinked : s.Unlinked) :
    s.preface = [.did (.entered .connected), .did (.emitted .connected)] := by
  simp [preface, unlinked.held, runningListener, unlinked.listener]

theorem Subscribes.enters (subscribes : s.Subscribes c h) : s.Enters c := by
  cases subscribes with
  | again starts _ _ => exact .inl starts
  | connected hc stage answer => exact .inr ⟨_, _, _, _, hc, stage, answer⟩

end Session

namespace Course

def Subscribes (x : Course) (b : Nat) (c : CallId) (h : Handle) : Prop :=
  x.Turns b c (·.Subscribes c h)

def Keeping (x : Course) (b n : Nat) (h : Handle) : Prop :=
  x.Throughout b n fun s => s.handle? = some h ∧ s.Mute

inductive Subscribed (config : Config) (x : Course) (b n : Nat) (c : CallId) (h : Handle)
    (tries : List (Option Fault)) : Prop
  | started {i : StreamId} : tries.length < config.subscribe.attempts →
      i = (x.sessionAt b).nextStream + tries.length →
      x.marks b n = (x.sessionAt b).preface ++ declines c h (x.sessionAt b).nextStream tries ++
        [.did (.requested c (.subscribe h i)), .heard c (.finished none), .did (.started i),
          .did (.entered .subscribed), .did (.settled c none)] →
      (x.sessionAt n).runningListener = some i → (x.sessionAt n).state = .subscribed →
      (x.sessionAt n).handle? = some h → Subscribed config x b n c h tries
  | exhausted : tries.length = config.subscribe.attempts →
      x.marks b n = (x.sessionAt b).preface ++ declines c h (x.sessionAt b).nextStream tries ++
        [.did (.settled c (some (.subscribeFailed tries.length (lastDeclined config tries))))] →
      x.FailsBefore n c (.subscribeFailed tries.length (lastDeclined config tries)) →
      (x.sessionAt n).handle? = some h → (x.sessionAt n).Mute → Subscribed config x b n c h tries

inductive Subscriptions (config : Config) (b : Nat) (c : CallId) (h : Handle) (y : Course) :
    Option Call → Prop
  | goes {call : Call} {tries : List (Option Fault)} {part : List Mark} :
      tries.length < config.subscribe.attempts →
      Subscribing config c h (y.sessionAt b).nextStream tries part call.stage call.answer
        y.session.nextStream →
      y.marks b y.history.length = (y.sessionAt b).preface ++ part →
      y.Keeping b (y.history.length + 1) h → Subscriptions config b c h y (some call)
  | ended {n : Nat} {tries : List (Option Fault)} {o : Option Call} : b < n →
      n ≤ y.history.length → y.Keeping b n h → y.Subscribed config b n c h tries →
      Subscriptions config b c h y o

variable {wall : Nat → Clock} {x y : Course} {call : Call} {s s' : Session} {finale : Finale}
  {b n m : Nat} {o : Option Call}

theorem Begins.subscribed (begins : x.Begins y) (hb : b ≤ x.history.length)
    (hn : n ≤ x.history.length) (subscribed : x.Subscribed config b n c h tries) :
    y.Subscribed config b n c h tries := by
  cases subscribed with
  | started left number marks running state handle =>
    rw [← begins.sessionAt hb] at number marks
    rw [← begins.sessionAt hn] at running state handle
    rw [← begins.marks hn] at marks
    exact .started left number marks running state handle
  | exhausted spent marks returned handle mute =>
    rw [← begins.sessionAt hb] at marks
    rw [← begins.sessionAt hn] at handle mute
    rw [← begins.marks hn] at marks
    exact .exhausted spent marks (begins.failsBefore returned) handle mute

theorem Strode.offers {first : List Mark} (strode : x.Strode wall c call (first ++ ms) s' finale y)
    (reached : Reached wall config x) (settings : s.config = config) {made : Nat} {last : Fault}
    (offers : Act.Turn.Offers ⟨x.moment wall, c, call.plan⟩ s made last ms s' finale)
    (count : made = tries.length) (cause : last = lastDeclined config tries)
    (hb : b ≤ x.history.length) (le : tries.length ≤ config.subscribe.attempts)
    (past : x.marks b x.history.length ++ first =
      (x.sessionAt b).preface ++ declines c h (x.sessionAt b).nextStream tries)
    (handle : s.handle? = some h) (mute : s.Mute)
    (number : s.nextStream = (x.sessionAt b).nextStream + tries.length)
    (keeping : x.Keeping b (x.history.length + 1) h) :
    Subscriptions config b c h y (finale.call? call.plan) := by
  subst settings count cause
  have hlen := strode.length
  have marks := strode.marks hb
  rw [List.append_assoc, ← List.append_assoc, past] at marks
  rw [← strode.begins.sessionAt hb] at marks number
  have link := strode.link
  cases offers with
  | @asks held hh left =>
    obtain rfl : held.handle = h := by simpa [Session.handle?, hh] using handle
    have fits := (reached_agrees (reached_take? reached strode.step)).fits c _
      (strode.connects _ rfl).get
    have next : y.session.nextStream = (y.sessionAt b).nextStream + tries.length + 1 :=
      link.nextStream.trans (congrArg (· + 1) number)
    rw [number] at marks fits ⊢
    refine .goes left (by rw [next]; exact .asks) ?_
      (keeping.snoc strode.begins hlen ⟨?_, fits.1⟩)
    · simpa [Finale.marks] using marks
    · rw [link.handle, Session.handle?]
      simp [hh]
  | @ends held hh spent =>
    have all : tries.length = s.config.subscribe.attempts :=
      Nat.le_antisymm le (Nat.not_lt.mp spent)
    refine .ended (hlen ▸ Nat.lt_succ_of_le hb) (Nat.le_refl _) (keeping.behind strode.begins hlen)
      (.exhausted all ?_ (all ▸ strode.failsBefore) ?_ ?_)
    · simpa [Finale.marks, all] using marks
    · rw [sessionAt_length, link.handle, handle]
    · rw [sessionAt_length]
      exact link.mute mute
  | unheld hh => simp [Session.handle?, hh] at handle

/-- What comes of the attempts to subscribe in a turn of their call. -/
theorem Strode.subscriptions (strode : x.Strode wall c call ms s' finale y)
    (reached : Reached wall config x) (hb : b < x.history.length)
    (left : tries.length < config.subscribe.attempts)
    (subscribing : Subscribing config c h (x.sessionAt b).nextStream tries part call.stage
      call.answer x.session.nextStream)
    (past : x.marks b x.history.length = (x.sessionAt b).preface ++ part)
    (keeping : x.Keeping b (x.history.length + 1) h) :
    Subscriptions config b c h y (finale.call? call.plan) := by
  have hb' := Nat.le_of_lt hb
  have hlen := strode.length
  have marks := strode.marks hb'
  rw [past] at marks
  have link := strode.link
  have settings := (reached_setUp x reached).settings
  have fits := (reached_agrees reached).fits c call strode.get
  obtain ⟨handle, mute⟩ := keeping.current hb
  have same := strode.begins.sessionAt hb'
  have strides := strode.strides
  obtain ⟨plan, st, answer⟩ := call
  cases strides with
  | @subscribes made i a =>
    obtain ⟨rfl, rfl⟩ := subscribing.succeeded
    refine .ended (hlen ▸ Nat.lt_succ_of_lt hb) (Nat.le_refl _) (keeping.behind strode.begins hlen)
      (.started left (by rw [same]) ?_ ?_ ?_ ?_)
    · rw [same]
      simpa [Finale.marks] using marks
    · rw [sessionAt_length]
      exact Session.runningListener_of_offers fits.2 link.listener link.streams
    · rw [sessionAt_length, link.state]
    · rw [sessionAt_length, link.handle, ← handle]
      rfl
  | @pauses made i a answer early f fails more =>
    rw [settings] at fails more
    obtain ⟨refusal, rfl, rfl, next, whole⟩ := subscribing.failed fails
    have count : tries.length + 1 = (tries ++ [refusal]).length := by simp
    have cause : config.declined refusal = lastDeclined config (tries ++ [refusal]) := by
      simp [lastDeclined]
    rw [count] at more
    rw [count, cause]
    have number : y.session.nextStream =
        (y.sessionAt b).nextStream + (tries ++ [refusal]).length := by
      rw [link.nextStream, same]
      exact next
    refine .goes more (by rw [number]; exact .pauses) ?_
      (keeping.snoc strode.begins hlen ⟨?_, link.mute (mute.erase i)⟩)
    · rw [marks, same, ← whole]
      simp [Finale.marks]
    · rw [link.handle, ← handle]
      rfl
  | @exhausts made i a answer early ms f s' finale fails spent offers =>
    rw [settings] at fails
    obtain ⟨refusal, rfl, rfl, next, whole⟩ := subscribing.failed fails
    have count : tries.length + 1 = (tries ++ [refusal]).length := by simp
    refine strode.offers (s := { x.session with streams := x.session.streams.erase i }) reached
      settings offers count ?_ hb' (count ▸ left) ?_ handle (mute.erase i) next keeping
    · simp [lastDeclined]
    · rw [past, List.append_assoc, whole]
  | @retries made f a answer ms s' finale rings offers =>
    obtain ⟨count, cause, next, rfl⟩ := subscribing.paused
    -- The end of a pause adds nothing to the log but the next request.
    have strode' : x.Strode wall c ⟨plan, .pausing made f a, answer⟩ ([] ++ ms) s' finale y :=
      strode
    exact strode'.offers reached settings offers count cause hb' (Nat.le_of_lt left)
      (by rw [past, List.append_nil]) handle mute next keeping
  | _ => cases subscribing

theorem Strode.subscribes (strode : x.Strode wall c call ms s' finale y)
    (reached : Reached wall config x) (subscribes : x.session.Subscribes c h) :
    Subscriptions config x.history.length c h y (finale.call? call.plan) := by
  have settings := (reached_setUp x reached).settings
  have agrees := reached_agrees reached
  have keeping : x.Keeping x.history.length (x.history.length + 1) h := fun k _ _ => by omega
  have strides := strode.strides
  cases subscribes with
  | again starts held unready =>
    obtain ⟨holder, call', seen, hc, hst, -⟩ := starts
    obtain rfl := Option.some.inj (hc.symm.trans strode.get)
    have settled := agrees.settled_of_not_underway (agrees.alone holder) hc
      (by simp [hst, Stage.underway])
    rw [hst] at strides
    cases strides with
    | again hh up _ offers =>
      refine strode.offers reached ?_ offers (List.length_nil).symm rfl (Nat.le_refl _)
        (Nat.zero_le _) ?_ ?_ (Session.cancelListener_mute settled (by simp [held])
          (settled.not_subscribed unready)) ?_ keeping
      · rw [Act.cancelListener_fst, settings]
      · simp [marks_self, sessionAt_length, Session.preface_of_held held, declines]
      · simp [Session.handle?, held]
      · simp [sessionAt_length]
    | anew hh _ => cases held.symm.trans hh
    | reuses _ _ listening ready => exact absurd ⟨listening, ready⟩ unready
    | lost hh down =>
      cases held.symm.trans hh
      exact absurd rfl down
  | connected hc stage answer =>
    obtain rfl := Option.some.inj (hc.symm.trans strode.get)
    have unlinked : x.session.Unlinked := by
      have fits := agrees.fits c _ hc
      rwa [stage] at fits
    rw [stage, answer] at strides
    cases strides with
    | connects offers =>
      refine strode.offers reached ?_ offers (List.length_nil).symm rfl (Nat.le_refl _)
        (Nat.zero_le _) ?_ ?_ (Session.cancelListener_mute ?_ rfl (by simp)) ?_ keeping
      · rw [Act.cancelListener_fst]
        exact settings
      · rw [Act.Turn.noted_connected unlinked, sessionAt_length,
          Session.preface_of_unlinked unlinked]
        simp [marks_self, declines]
      · simp [Session.handle?]
      · exact Session.Mute.settled ⟨rfl, unlinked.listener, unlinked.silent, .inl rfl⟩
      · simp [sessionAt_length]
    | discards fails =>
      cases fails with
      | late silent _ => exact absurd rfl (silent none)

/-- All along a sequence in which a call turns to the notifications of a handle, its attempts to
subscribe go on or are over. -/
theorem Sequence.subscriptions (sequence : Sequence wall config b c y o)
    (subscribes : y.Subscribes b c h) : Subscriptions config b c h y o := by
  -- What has come to an end stays as it was.
  have ended {x y : Course} {n : Nat} {tries : List (Option Fault)} {o : Option Call}
      (begins : x.Begins y) (hb : b < n) (hn : n ≤ x.history.length) (keeping : x.Keeping b n h)
      (subscribed : x.Subscribed config b n c h tries) : Subscriptions config b c h y o :=
    .ended hb (Nat.le_trans hn begins.length_le)
      (begins.throughout (Nat.le_succ_of_le hn) keeping)
      (begins.subscribed (Nat.le_of_lt (Nat.lt_of_lt_of_le hb hn)) hn subscribed)
  -- Nobody listens at any stage of an attempt, so neither does anybody behind what spares it.
  have muted {y : Course} {call : Call} {first next : StreamId} {tries : List (Option Fault)}
      {part : List Mark} (sequence : Sequence wall config b c y (some call))
      (subscribing : Subscribing config c h first tries part call.stage call.answer next) :
      y.session.Mute :=
    subscribing.mute ((reached_agrees sequence.reached).fits c call sequence.connects.get)
  induction sequence with
  | @begins x y call ms s' finale hx hg enters strode =>
    subst hg
    obtain ⟨after, grows, -⟩ := strode.comes
    obtain ⟨-, -, subscribes⟩ := (grows.turns_iff.mp subscribes).resolve_left fun h =>
      absurd (turns_lt h) (Nat.lt_irrefl _)
    exact strode.subscribes hx subscribes
  | @goes x y call ms s' finale sequence strode ih =>
    have hb := sequence.lt
    cases ih ((strode.begins.turns_iff hb).mp subscribes) with
    | goes left subscribing past keeping =>
      exact strode.subscriptions sequence.reached hb left subscribing past keeping
    | ended hb hn keeping subscribed => exact ended strode.begins hb hn keeping subscribed
  | @hears x y call a answer sequence step grows heard none fit ih =>
    have hb := sequence.lt
    have same := grows.begins.sessionAt (Nat.le_of_lt hb)
    cases ih ((grows.begins.turns_iff hb).mp subscribes) with
    | goes left subscribing past keeping =>
      obtain ⟨handle, -⟩ := keeping.current hb
      have next : y.session.nextStream = x.session.nextStream := by
        rw [grows.session]
        rfl
      rw [none, ← same, ← next] at subscribing
      have subscribing := subscribing.heard fit
      refine .goes left subscribing ?_ (keeping.snoc grows.begins grows.length
        ⟨?_, muted (.hears sequence step grows heard none fit) subscribing⟩)
      · rw [grows.marks_of_heard (Nat.le_of_lt hb) heard, past, same, List.append_assoc]
      · rw [grows.session]
        exact handle
    | ended hb hn keeping subscribed => exact ended grows.begins hb hn keeping subscribed
  | @spares x y call a after sequence step grows unheard spares ih =>
    have hb := sequence.lt
    have same := grows.begins.sessionAt (Nat.le_of_lt hb)
    cases ih ((grows.begins.turns_iff hb).mp subscribes) with
    | goes left subscribing past keeping =>
      obtain ⟨handle, -⟩ := keeping.current hb
      have next : y.session.nextStream = x.session.nextStream := by
        rw [grows.session, spares.nextStream]
      rw [← same, ← next] at subscribing
      refine .goes left subscribing ?_ (keeping.snoc grows.begins grows.length
        ⟨?_, muted (.spares sequence step grows unheard spares) subscribing⟩)
      · rw [grows.marks_of_unnoted (Nat.le_of_lt hb) unheard spares.unnoted, past, same]
      · rw [grows.session, spares.handle, handle]
    | ended hb hn keeping subscribed => exact ended grows.begins hb hn keeping subscribed

structure Insisting (wall : Nat → Clock) (config : Config) (x : Course) (b n : Nat) (c : CallId)
    (h : Handle) (tries : List (Option Fault)) : Prop where
  present : n = x.history.length
  left : tries.length < config.subscribe.attempts
  handle : x.session.handle? = some h
  mute : x.session.Mute
  attempt : ∃ call part last, x.session.calls.get? c = some call ∧
    Subscribing config c h (x.sessionAt b).nextStream tries part call.stage call.answer
      x.session.nextStream ∧
    x.marks b n = (x.sessionAt b).preface ++ part ∧ (x.log b n).getLast? = some last ∧
    call.stage.Stands config (ReachedInTime wall config x) x.now c call.answer last ∧
    ((x.session.poll (x.moment wall) c).isSome ∨ x.unanswered? c = some call.stage ∨
      ∃ made f a, call.stage = .pausing made f a ∧ x.now < a.due)

structure Pursues (wall : Nat → Clock) (config : Config) (x : Course) (b n : Nat) (c : CallId)
    (h : Handle) (tries : List (Option Fault)) : Prop where
  lt : b < n
  le : n ≤ x.history.length
  keeping : x.Keeping b n h
  paced : (x.log b n).IsChain (Paced config (ReachedInTime wall config x))
  outcome : x.Insisting wall config b n c h tries ∨ x.Subscribed config b n c h tries

theorem Subscribes.pursues (subscribes : x.Subscribes b c h) (reached : Reached wall config x) :
    ∃ tries n, x.Pursues wall config b n c h tries := by
  obtain ⟨y, o, sequence, begins, ended⟩ :=
    reached_sequence x reached b c (subscribes.imp fun _ h => h.imp id (.imp id (·.enters)))
  have hb := sequence.lt
  obtain ⟨chain, stands⟩ := sequence.paced fun h => begins.inTime sequence.reached h
  have subscriptions := sequence.subscriptions ((begins.turns_iff hb).mp subscribes)
  cases subscriptions with
  | @goes call tries part left subscribing past keeping =>
    obtain rfl : y = x := ended.resolve_left (by simp)
    obtain ⟨last, hlast, stands⟩ := stands call rfl
    obtain ⟨handle, mute⟩ := keeping.current hb
    exact ⟨tries, _, hb, Nat.le_refl _, fun k hk hkn => keeping k hk (Nat.lt_succ_of_lt hkn), chain,
      .inl ⟨rfl, left, handle, mute, call, part, last, sequence.connects.get, subscribing, past,
        hlast, stands, sequence.goes_on⟩⟩
  | @ended n tries _ hbn hn keeping subscribed =>
    exact ⟨tries, n, hbn, Nat.le_trans hn begins.length_le,
      begins.throughout (Nat.le_succ_of_le hn) keeping, begins.paced (Nat.le_of_lt hbn) hn chain,
      .inr (begins.subscribed (Nat.le_of_lt hb) hn subscribed)⟩

structure KeptFrom (wall : Nat → Clock) (config : Config) (x : Course) (n : Nat) (h : Handle) :
    Prop where
  kept : ∀ m, n ≤ m → m ≤ x.history.length → x.Idle n m → x.Calm n m →
    (x.sessionAt m).handle? = some h
  next : ∀ k d h', n ≤ k → x.Starts k d → x.Idle n k → (x.sessionAt k).held = some ⟨h', true⟩ →
    h' = h ∧ ∃ again m, x.Pursues wall config k m d h again

theorem kept_of_failed {f : Fault} (reached : Reached wall config x) (fails : x.FailsBefore n c f)
    (handle : (x.sessionAt n).handle? = some h) (mute : (x.sessionAt n).Mute) :
    x.KeptFrom wall config n h := by
  obtain ⟨j, rfl, settled, -⟩ := fails
  have vacant := (unheld_behind reached settled).vacant
  refine ⟨fun m hm hle idle calm => ?_, fun k d h' hk starts idle up => ?_⟩
  · obtain ⟨-, -, -, link⟩ := undisturbed_between reached hm hle vacant idle calm
    exact (link mute).2.trans handle
  · have remains : (x.sessionAt (j + 1)).Remains h :=
      ⟨fun c call hc hu => absurd hu (vacant c call hc), .inr ⟨handle, mute⟩⟩
    have link := (remains_between reached hk (Nat.le_of_lt (turns_lt starts)) remains idle).link
    obtain ⟨handle', mute'⟩ := link.resolve_left (by simp [up])
    obtain rfl : h' = h := by simpa [Session.handle?, up] using handle'
    have silent : ¬(x.sessionAt k).isListening := by
      simp [Session.isListening, Session.runningListener, mute'.listener]
    obtain ⟨entry, hentry, turn, starts⟩ := starts
    rw [sessionAt, hentry] at up silent
    have subscribes : x.Subscribes k d h' :=
      ⟨entry, hentry, turn, .again starts up fun h => silent h.1⟩
    exact ⟨rfl, subscribes.pursues reached⟩

/-- A call that turns to the notifications of a handle retires the listener, and makes its attempts
on that handle one after the other, with a pause between them. The first that succeeds gets a
listener; behind the last one the call returns its fault, and the handle is kept for the next
sequence to subscribe to. -/
theorem reached_subscribing (reached : Reached wall config x) (subscribes : x.Subscribes b c h) :
    ∃ tries n, x.Pursues wall config b n c h tries ∧
      (tries.length = config.subscribe.attempts → x.KeptFrom wall config n h) := by
  obtain ⟨tries, n, pursues⟩ := subscribes.pursues reached
  refine ⟨tries, n, pursues, fun spent => ?_⟩
  rcases pursues.outcome with insisting | subscribed
  · exact absurd spent (Nat.ne_of_lt insisting.left)
  · cases subscribed with
    | started left _ _ _ _ _ => exact absurd spent (Nat.ne_of_lt left)
    | exhausted _ _ fails handle mute => exact kept_of_failed reached fails handle mute

def declining : List Action :=
  [.invoke 0 .ensureConnected, .poll 0, .poll 0, .poll 0, .resolve 0 (some 0), .poll 0,
    .complete 0 none, .poll 0, .complete 0 (some .linkLost), .poll 0, .pass 10, .poll 0, .pass 100,
    .poll 0, .invoke 1 .ensureConnected, .poll 1, .poll 1, .poll 1]

def subscribesNow (x : Course) (b : Nat) (c : CallId) (st : Stage) : Bool :=
  (x.history[b]?).any fun entry => entry.action = .poll c &&
    (entry.before.calls.get? c).any fun call =>
      call.stage = st && call.answer = some (.finished none)

theorem subscribes_of_now {made : Nat} {alarm : Alarm}
    (now : x.subscribesNow b c (.connecting made h alarm)) : x.Subscribes b c h := by
  obtain ⟨entry, hentry, now⟩ := (Option.any_eq_true _ _).mp now
  simp only [Bool.and_eq_true, decide_eq_true_eq] at now
  obtain ⟨turn, now⟩ := now
  obtain ⟨call, hc, now⟩ := (Option.any_eq_true _ _).mp now
  simp only [Bool.and_eq_true, decide_eq_true_eq] at now
  exact ⟨entry, hentry, turn, .connected hc now.1 now.2⟩

def unsought (s : Session) : Bool :=
  s.calls.all fun (_, call) => call.stage.aim? ≠ some .reconnect

theorem idle_of_unsought (free : ∀ k, n ≤ k → k < m → unsought (x.sessionAt k)) :
    x.Idle n m := by
  intro k c hk hkm starts
  obtain ⟨-, call, seen, hc, hst, -⟩ := starts.sessionAt
  have := List.all_eq_true.mp (free k hk hkm) _ (Table.mem_of_get? hc)
  simp [hst, Stage.aim?] at this

def settlesAt (x : Course) (k : Nat) (c : CallId) : Bool :=
  (x.history[k]?).any fun entry => entry.effects.any fun
    | .settled d _ => d = c
    | _ => false

theorem settlesAt_of_did {k : Nat} {r : Option Fault} (did : x.Did k (.settled c r)) :
    x.settlesAt k c := by
  obtain ⟨entry, hentry, hd⟩ := did
  exact (Option.any_eq_true _ _).mpr ⟨entry, hentry, List.any_eq_true.mpr ⟨_, hd, by simp⟩⟩

/-- The first call fails behind its two attempts. The second one finds the handle and does nothing
but subscribe to it. -/
theorem subscriptions_declined : ∃ x, ReachedInTime noon twoAttempts x ∧ x.Subscribes 7 0 0 ∧
    ∃ tries n, tries.length = 2 ∧ x.Pursues noon twoAttempts 7 n 0 0 tries ∧ x.Starts 17 1 ∧
      ∃ again m, x.Pursues noon twoAttempts 17 m 1 0 again := by
  have h : ((start twoAttempts).runInTime? noon declining).any (fun x =>
      x.subscribesNow 7 0 (.connecting 0 0 ⟨100, 5⟩) && x.startsNow 17 1 1 (some ⟨0, true⟩) &&
      x.session.calls.get? 0 = none &&
      ((List.range (x.history.length + 1)).all fun k =>
        (x.sessionAt k).runningListener = none && (k = 13 || !x.settlesAt k 0)) &&
      ((List.range 17).all fun k => k < 14 || unsought (x.sessionAt k))) = true := by
    decide +kernel
  obtain ⟨x, hx, h⟩ := (Option.any_eq_true _ _).mp h
  simp only [Bool.and_eq_true, Bool.or_eq_true, Bool.not_eq_true', decide_eq_true_eq,
    List.all_eq_true, List.mem_range] at h
  obtain ⟨⟨⟨⟨now, starts⟩, gone⟩, never⟩, free⟩ := h
  have subscribes := subscribes_of_now now
  obtain ⟨starts, up⟩ := starts_of_now starts
  obtain ⟨tries, n, pursues, kept⟩ := reached_subscribing (reached_of_inTime ⟨declining, hx⟩)
    subscribes
  refine ⟨x, ⟨declining, hx⟩, subscribes, tries, n, ?_⟩
  rcases pursues.outcome with insisting | subscribed
  · obtain ⟨call, -, -, hc, -⟩ := insisting.attempt
    cases gone.symm.trans hc
  · cases subscribed with
    | started _ _ _ running _ _ =>
      cases (never n (Nat.lt_succ_of_le pursues.le)).1.symm.trans running
    | exhausted all _ returned _ _ =>
      obtain ⟨k, rfl, settled, -⟩ := returned
      obtain rfl : k = 13 := (never k (Nat.lt_succ_of_lt (did_lt settled))).2.resolve_right
        (by simp [settlesAt_of_did settled])
      have idle : x.Idle 14 17 := idle_of_unsought fun k hk hkm =>
        (free k hkm).resolve_left (Nat.not_lt.mpr hk)
      exact ⟨all, pursues, starts, ((kept all).next 17 1 0 (by decide) starts idle up).2⟩

def Spaced (config : Config) (m m' : Nat × Mark) : Prop :=
  ∀ c d refusal h i, m.2 = setback c refusal → m'.2 = .did (.requested d (.subscribe h i)) →
    m'.1 = m.1 + config.retryDelay

def patient : Config :=
  { oneAttempt with connect := ⟨2, 1000⟩, subscribe := ⟨3, 600⟩, retryDelay := longestPause + 1 }

def waiting : List Action :=
  [.invoke 0 .ensureConnected, .poll 0, .poll 0, .poll 0, .resolve 0 (some 0), .poll 0,
    .complete 0 none, .poll 0, .complete 0 (some (.radio "x")), .poll 0, .pass longestPause,
    .poll 0, .complete 0 (some (.radio "x")), .poll 0, .pass longestPause, .poll 0,
    .complete 0 none, .poll 0]

/-- A longer delay is cut. -/
theorem delay_cut_short : ∃ x, ReachedInTime noon patient x ∧ x.Subscribes 7 0 0 ∧
    ¬(x.log 7 x.history.length).IsChain (Spaced patient) := by
  have h : ((start patient).runInTime? noon waiting).any (fun x =>
      x.subscribesNow 7 0 (.connecting 0 0 ⟨1000, 5⟩) && x.log 7 x.history.length =
        [(0, .did (.entered .connected)), (0, .did (.emitted .connected)),
          (0, .did (.requested 0 (.subscribe 0 0))), (0, .heard 0 (.finished (some (.radio "x")))),
          (longestPause, .did (.requested 0 (.subscribe 0 1))),
          (longestPause, .heard 0 (.finished (some (.radio "x")))),
          (2 * longestPause, .did (.requested 0 (.subscribe 0 2))),
          (2 * longestPause, .heard 0 (.finished none)), (2 * longestPause, .did (.started 2)),
          (2 * longestPause, .did (.entered .subscribed)),
          (2 * longestPause, .did (.settled 0 none))]) = true := by
    decide +kernel
  obtain ⟨x, hx, h⟩ := (Option.any_eq_true _ _).mp h
  simp only [Bool.and_eq_true, decide_eq_true_eq] at h
  obtain ⟨now, log⟩ := h
  refine ⟨x, ⟨waiting, hx⟩, subscribes_of_now now, fun chain => ?_⟩
  rw [log] at chain
  have spaced := List.isChain_iff_getElem.mp chain 3 (by simp) 0 0 (some (.radio "x")) 0 1 rfl rfl
  simp [patient] at spaced

end Course

end HeaterLink
