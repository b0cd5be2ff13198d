import HeaterLink.Proofs.Calls.Connecting
import HeaterLink.Proofs.Link.Aftermath
import HeaterLink.Proofs.Link.Pace

/-!
# Attempts to connect

A sequence that begins without a handle makes its attempts one after the other:
a lookup, a connect on what it finds, and where that fails a release before the
next lookup. The log of such a sequence is that of some attempts that have
failed and of what has come of the present one, until one succeeds or none is
left.
-/

set_option autoImplicit false

namespace HeaterLink

inductive Miss
  | missing
  | failed (handle : Handle) (refusal release : Option Fault)

variable {config : Config} {c : CallId} {misses : List Miss} {part ms : List Mark}

def Config.refusal (config : Config) (refusal : Option Fault) : Fault :=
  refusal.getD (.connectTimeout (Fault.stated config.connect.limit))

def lookup (config : Config) (c : CallId) : List Mark :=
  [.did (.entered .connecting), .did (.requested c (.find config.address))]

def hookup (config : Config) (c : CallId) (h : Handle) : List Mark :=
  lookup config c ++
    [.heard c (.found (some h)), .did (.requested c (.connect h config.connect.limit))]

def setback (c : CallId) : Option Fault → Mark
  | some f => .heard c (.finished (some f))
  | none => .did (.abandoned c)

namespace Miss

def fault (config : Config) : Miss → Fault
  | .missing => .deviceNotFound config.address
  | .failed _ refusal _ => config.refusal refusal

def last (config : Config) (misses : List Miss) : Fault :=
  (misses.getLast?.map (fault config)).getD .notConnected

def marks (config : Config) (c : CallId) : Miss → List Mark
  | .missing => lookup config c ++ [.heard c (.found none)]
  | .failed h refusal release => hookup config c h ++
      [setback c refusal, .did (.requested c (.disconnect h)), .heard c (.finished release)]

end Miss

inductive Attempting (config : Config) (c : CallId) (made : Nat) :
    List Mark → Stage → Option RadioAnswer → Prop
  | looks : Attempting config c made (lookup config c) (.seeking made) none
  | finds {found : Option Handle} : Attempting config c made
      (lookup config c ++ [.heard c (.found found)]) (.seeking made) (some (.found found))
  | connects {h : Handle} {a : Alarm} : Attempting config c made (hookup config c h)
      (.connecting made h a) none
  | hears {h : Handle} {a : Alarm} {fault : Option Fault} : Attempting config c made
      (hookup config c h ++ [.heard c (.finished fault)]) (.connecting made h a)
      (some (.finished fault))
  | releases {h : Handle} {refusal : Option Fault} : Attempting config c made
      (hookup config c h ++ [setback c refusal, .did (.requested c (.disconnect h))])
      (.discarding made (config.refusal refusal)) none
  | released {h : Handle} {refusal release : Option Fault} : Attempting config c made
      (hookup config c h ++
        [setback c refusal, .did (.requested c (.disconnect h)), .heard c (.finished release)])
      (.discarding made (config.refusal refusal)) (some (.finished release))

theorem Attempting.heard {made : Nat} {st : Stage} {answer : RadioAnswer}
    (attempting : Attempting config c made part st none) (fit : st.hears answer) :
    Attempting config c made (part ++ [.heard c answer]) st (some answer) := by
  cases attempting with
  | looks =>
    cases answer with
    | found found => exact .finds
    | finished fault => cases fit
  | connects =>
    cases answer with
    | found found => cases fit
    | finished fault => exact .hears
  | @releases h refusal =>
    cases answer with
    | found found => cases fit
    | finished fault => simpa using @Attempting.released config c made h refusal fault

theorem Attempting.awake {made : Nat} {st : Stage} {answer : Option RadioAnswer}
    (attempting : Attempting config c made part st answer) (made' : Nat) (f : Fault) (a : Alarm) :
    st ≠ .pausing made' f a := by
  cases attempting <;> simp

theorem Act.Turn.Offers.first {t : Act.Turn} {s s' : Session} {finale : Finale} {h : Handle}
    (offers : Offers t s 0 .notConnected ms s' finale) (held : s.held = some ⟨h, true⟩) :
    ∃ next, ms ++ finale.marks t.call = [next] ∧
      ((∃ i, next = .did (.requested t.call (.subscribe h i))) ∨
        next = .did (.settled t.call (some (.subscribeFailed 0 .notConnected)))) ∧
      s'.held = some ⟨h, true⟩ ∧ s'.state = s.state := by
  cases offers with
  | asks hh _ =>
    obtain rfl := Option.some.inj (held.symm.trans hh)
    exact ⟨_, rfl, .inl ⟨_, rfl⟩, held, rfl⟩
  | ends _ spent =>
    have zero : s.config.subscribe.attempts = 0 := Nat.eq_zero_of_not_pos spent
    exact ⟨_, rfl, .inr (by rw [zero]), held, rfl⟩
  | unheld hh => cases held.symm.trans hh

namespace Course

inductive Attempted (config : Config) (x : Course) (g n : Nat) (c : CallId)
    (misses : List Miss) : Prop
  | connected {h : Handle} {next : Mark} : misses.length < config.connect.attempts →
      x.marks g n = misses.flatMap (Miss.marks config c) ++ hookup config c h ++
        [.heard c (.finished none), .did (.entered .connected), .did (.emitted .connected), next] →
      (∃ i, next = .did (.requested c (.subscribe h i))) ∨
        next = .did (.settled c (some (.subscribeFailed 0 .notConnected))) →
      (x.sessionAt n).held = some ⟨h, true⟩ → (x.sessionAt n).state = .connected →
      Attempted config x g n c misses
  | failed : misses.length = config.connect.attempts →
      x.marks g n = misses.flatMap (Miss.marks config c) ++ [.did (.entered .disconnected),
        .did (.settled c (some (.connectFailed misses.length (Miss.last config misses))))] →
      x.FailsBefore n c (.connectFailed misses.length (Miss.last config misses)) →
      (x.sessionAt n).held = none → (x.sessionAt n).state = .disconnected →
      Attempted config x g n c misses

def Searching (x : Course) (g n : Nat) : Prop :=
  x.Throughout g n fun s => s.state = .connecting ∧ s.held = none

inductive Attempts (config : Config) (g : Nat) (c : CallId) (y : Course) : Option Call → Prop
  | goes {call : Call} {misses : List Miss} {part : List Mark} :
      misses.length < config.connect.attempts →
      Attempting config c misses.length part call.stage call.answer →
      y.marks g y.history.length = misses.flatMap (Miss.marks config c) ++ part →
      y.Searching g (y.history.length + 1) → Attempts config g c y (some call)
  | ended {n : Nat} {misses : List Miss} {o : Option Call} : g < n → n ≤ y.history.length →
      y.Searching g n → y.Attempted config g n c misses → Attempts config g c y o

variable {wall : Nat → Clock} {x y : Course} {call : Call} {s s' : Session} {finale : Finale}
  {g n : Nat} {o : Option Call}

theorem Begins.attempted (h : x.Begins y) (hn : n ≤ x.history.length)
    (attempted : x.Attempted config g n c misses) : y.Attempted config g n c misses := by
  cases attempted with
  | connected left marks next held state =>
    rw [← h.sessionAt hn] at held state
    rw [← h.marks hn] at marks
    exact .connected left marks next held state
  | failed spent marks returned held state =>
    rw [← h.sessionAt hn] at held state
    rw [← h.marks hn] at marks
    exact .failed spent marks (h.failsBefore returned) held state

theorem Strode.seeks (strode : x.Strode wall c call ms s' finale y)
    (settings : s.config = config) (unlinked : s.held = none)
    {made : Nat} {last : Fault}
    (seeks : Act.Turn.Seeks ⟨x.moment wall, c, call.plan⟩ s made last ms s' finale)
    (count : made = misses.length) (cause : last = Miss.last config misses)
    (hg : g ≤ x.history.length) (le : misses.length ≤ config.connect.attempts)
    (past : x.marks g x.history.length = misses.flatMap (Miss.marks config c))
    (searching : x.Searching g (x.history.length + 1)) :
    Attempts config g c y (finale.call? call.plan) := by
  subst settings count cause
  have hlen := strode.length
  have hg' : g < y.history.length := hlen ▸ Nat.lt_succ_of_le hg
  have marks := strode.marks hg
  rw [past] at marks
  have link := strode.link
  cases seeks with
  | asks left =>
    refine .goes left .looks ?_ (searching.snoc strode.begins hlen ⟨link.state, ?_⟩)
    · simpa [Finale.marks, lookup] using marks
    · rw [link.held, unlinked]
  | ends spent =>
    have all : misses.length = s.config.connect.attempts := Nat.le_antisymm le (Nat.not_lt.mp spent)
    refine .ended hg' (Nat.le_refl _) (searching.behind strode.begins hlen)
      (.failed all ?_ (all ▸ strode.failsBefore) ?_ ?_)
    · simpa [Finale.marks, all] using marks
    · rw [sessionAt_length, link.held, unlinked]
    · rw [sessionAt_length, link.state]

theorem Strode.connected {made : Nat} {h : Handle} {alarm : Alarm} {plan : Plan}
    (strode : x.Strode wall c ⟨plan, .connecting made h alarm, some (.finished none)⟩ ms s' finale
      y) (settings : x.session.config = config) (unlinked : x.session.Unlinked)
    (hg : g ≤ x.history.length) (left : misses.length < config.connect.attempts)
    (past : x.marks g x.history.length = misses.flatMap (Miss.marks config c) ++
      (hookup config c h ++ [.heard c (.finished none)])) :
    y.Attempted config g y.history.length c misses := by
  subst settings
  have marks := strode.marks hg
  rw [past] at marks
  have link := strode.link
  cases strode.strides with
  | @connects _ _ _ ms _ _ offers =>
    rw [Act.Turn.noted_connected unlinked, List.append_nil, List.append_assoc _ ms] at marks
    obtain ⟨next, hnext, which, held, state⟩ := offers.first (by rw [Act.cancelListener_fst])
    rw [hnext] at marks
    refine .connected left ?_ which ?_ ?_
    · simpa using marks
    · rw [sessionAt_length, link.held, held]
    · rw [sessionAt_length, link.state, state, Act.cancelListener_fst]
  | discards fails =>
    cases fails with
    | late silent _ => exact absurd rfl (silent none)

theorem Strode.attempts (strode : x.Strode wall c call ms s' finale y)
    (settings : x.session.config = config) (fits : x.session.Fits call.stage)
    (hg : g < x.history.length) (left : misses.length < config.connect.attempts)
    (attempting : Attempting config c misses.length part call.stage call.answer)
    (past : x.marks g x.history.length = misses.flatMap (Miss.marks config c) ++ part)
    (searching : x.Searching g (x.history.length + 1)) :
    Attempts config g c y (finale.call? call.plan) := by
  have hg' := Nat.le_of_lt hg
  have hlen := strode.length
  have marks := strode.marks hg'
  rw [past] at marks
  obtain ⟨state, held⟩ := searching.current hg
  -- Behind a turn that stays in the attempt the link is as it was.
  have goes {st : Stage} {part' : List Mark} (same : s' = x.session)
      (attempting : Attempting config c misses.length part' st none)
      (marks : y.marks g y.history.length = misses.flatMap (Miss.marks config c) ++ part') :
      Attempts config g c y (some ⟨call.plan, st, none⟩) := by
    refine .goes left attempting marks (searching.snoc strode.begins hlen ⟨?_, ?_⟩)
    · rw [strode.link.state, same, state]
    · rw [strode.link.held, same, held]
  -- An attempt that is over is followed by the next one.
  have seeks (miss : Miss) {s : Session} {last : Fault} (settings : s.config = config)
      (unlinked : s.held = none)
      (seeks : Act.Turn.Seeks ⟨x.moment wall, c, call.plan⟩ s (misses.length + 1) last ms s' finale)
      (cause : last = miss.fault config) (whole : part = miss.marks config c) :
      Attempts config g c y (finale.call? call.plan) := by
    have count : misses.length + 1 = (misses ++ [miss]).length := by simp
    refine strode.seeks settings unlinked seeks count (by simp [Miss.last, cause]) hg'
      (count ▸ left) ?_ searching
    rw [past, whole]
    simp
  have strides := strode.strides
  obtain ⟨plan, st, answer⟩ := call
  cases attempting with
  | looks => cases strides
  | finds =>
    cases strides with
    | finds =>
      refine goes rfl .connects ?_
      simpa [Finale.marks, hookup, settings] using marks
    | misses missed =>
      exact seeks .missing settings held missed (by rw [settings]; rfl) rfl
  | @connects h _ =>
    cases strides with
    | discards fails =>
      cases fails with
      | late silent rings =>
        have cause : config.refusal none =
            .connectTimeout (Fault.stated x.session.config.connect.limit) := by
          rw [settings]
          rfl
        refine goes rfl (cause ▸ @Attempting.releases config c _ h none) ?_
        simpa [Finale.marks, setback] using marks
  | @hears h _ fault =>
    cases strides with
    | connects offers =>
      exact .ended (hlen ▸ Nat.lt_succ_of_lt hg) (Nat.le_refl _)
        (searching.behind strode.begins hlen)
        (strode.connected settings fits hg' left past)
    | discards fails =>
      cases fails with
      | refused =>
        refine goes rfl (@Attempting.releases config c _ h (some _)) ?_
        simpa [Finale.marks, setback] using marks
      | late silent _ => exact absurd rfl (silent _)
  | releases => cases strides
  | @released h refusal release =>
    cases strides with
    | discarded failed =>
      exact seeks (.failed h refusal release) settings held failed rfl rfl

/-- All along a sequence that begins without a handle, its attempts go on or are over. -/
theorem Sequence.attempts (h : Sequence wall config g c y o) (starts : y.Starts g c)
    (unlinked : (y.sessionAt g).held = none) : Attempts config g c y o := by
  -- Whether the sequence began so, and whether its attempts are over, was settled before.
  have earlier {x y : Course} (begins : x.Begins y) (hg : g < x.history.length)
      (starts : y.Starts g c) (unlinked : (y.sessionAt g).held = none) :
      x.Starts g c ∧ (x.sessionAt g).held = none :=
    ⟨(begins.turns_iff hg).mp starts, by rwa [← begins.sessionAt (Nat.le_of_lt hg)]⟩
  have ended {x y : Course} {n : Nat} {misses : List Miss} {o : Option Call} (begins : x.Begins y)
      (hg : g < n) (hn : n ≤ x.history.length) (searching : x.Searching g n)
      (attempted : x.Attempted config g n c misses) : Attempts config g c y o :=
    .ended hg (Nat.le_trans hn begins.length_le)
      (begins.throughout (Nat.le_succ_of_le hn) searching) (begins.attempted hn attempted)
  induction h with
  | @begins x y call ms s' finale hx hg enters strode =>
    subst hg
    obtain ⟨after, grows, -⟩ := strode.comes
    obtain ⟨-, -, starts⟩ := (grows.turns_iff.mp starts).resolve_left fun h =>
      absurd (turns_lt h) (Nat.lt_irrefl _)
    rw [strode.begins.session] at unlinked
    obtain ⟨call', seen, hc, hst, -⟩ := starts.call
    obtain rfl := Option.some.inj (hc.symm.trans strode.get)
    have strides := strode.strides
    rw [hst] at strides
    cases strides with
    | anew _ seeks =>
      exact strode.seeks (reached_setUp x hx).settings unlinked seeks (List.length_nil).symm rfl
        (Nat.le_refl _) (Nat.zero_le _) (marks_self x _) fun k hk hkn => by omega
    | reuses hh _ _ _ => cases unlinked.symm.trans hh
    | again hh _ _ _ => cases unlinked.symm.trans hh
    | lost hh _ => cases unlinked.symm.trans hh
  | @goes x y call ms s' finale sequence strode ih =>
    obtain ⟨starts, unlinked⟩ := earlier strode.begins sequence.lt starts unlinked
    cases ih starts unlinked with
    | goes left attempting past searching =>
      have hx := sequence.reached
      exact strode.attempts (reached_setUp x hx).settings
        ((reached_agrees hx).fits c call sequence.connects.get) sequence.lt left attempting past
        searching
    | ended hg hn searching attempted => exact ended strode.begins hg hn searching attempted
  | @hears x y call a answer sequence step grows heard none fit ih =>
    obtain ⟨starts, unlinked⟩ := earlier grows.begins sequence.lt starts unlinked
    cases ih starts unlinked with
    | goes left attempting past searching =>
      have same := searching.current sequence.lt
      rw [none] at attempting
      refine .goes left (attempting.heard fit) ?_ (searching.snoc grows.begins grows.length ?_)
      · rw [grows.marks_of_heard (Nat.le_of_lt sequence.lt) heard, past, List.append_assoc]
      · rw [grows.session]
        exact same
    | ended hg hn searching attempted => exact ended grows.begins hg hn searching attempted
  | @spares x y call a after sequence step grows unheard spares ih =>
    obtain ⟨starts, unlinked⟩ := earlier grows.begins sequence.lt starts unlinked
    cases ih starts unlinked with
    | goes left attempting past searching =>
      obtain ⟨state, held⟩ := searching.current sequence.lt
      have handle := spares.handle
      refine .goes left attempting ?_ (searching.snoc grows.begins grows.length ⟨?_, ?_⟩)
      · rw [grows.marks_of_unnoted (Nat.le_of_lt sequence.lt) unheard spares.unnoted, past]
      · rw [grows.session, spares.state, state]
      · rw [grows.session]
        simpa [Session.handle?, held] using handle
    | ended hg hn searching attempted => exact ended grows.begins hg hn searching attempted

structure Trying (wall : Nat → Clock) (config : Config) (x : Course) (g n : Nat) (c : CallId)
    (misses : List Miss) : Prop where
  present : n = x.history.length
  left : misses.length < config.connect.attempts
  state : x.session.state = .connecting
  unlinked : x.session.held = none
  attempt : ∃ call part last, x.session.calls.get? c = some call ∧
    Attempting config c misses.length part call.stage call.answer ∧
    x.marks g n = misses.flatMap (Miss.marks config c) ++ part ∧
    (x.log g n).getLast? = some last ∧
    call.stage.Stands config (ReachedInTime wall config x) x.now c call.answer last ∧
    ((x.session.poll (x.moment wall) c).isSome ∨ x.unanswered? c = some call.stage)

/-- A sequence that begins without a handle makes its attempts one after the other, each with one
lookup, and each that fails lets go of its handle before the next one. It ends them with the first
that succeeds, or behind the last one with its fault, and then nothing more happens on its
account. -/
theorem reached_attempts (reached : Reached wall config x) (starts : x.Starts g c)
    (unlinked : (x.sessionAt g).held = none) :
    ∃ misses n, g < n ∧ n ≤ x.history.length ∧ x.Searching g n ∧
      (x.log g n).IsChain (Paced config (ReachedInTime wall config x)) ∧
      (x.Trying wall config g n c misses ∨ x.Attempted config g n c misses) ∧
      (misses.length = config.connect.attempts → x.QuietFrom n) := by
  have enters : x.Turns g c (·.Enters c) := starts.imp fun _ h => h.imp id (.imp id .inl)
  obtain ⟨y, o, sequence, begins, ended⟩ := reached_sequence x reached g c enters
  have hg := sequence.lt
  obtain ⟨chain, stands⟩ := sequence.paced fun h => begins.inTime sequence.reached h
  have attempts := sequence.attempts ((begins.turns_iff hg).mp starts)
    (by rwa [← begins.sessionAt (Nat.le_of_lt hg)])
  cases attempts with
  | @goes call misses part left attempting past searching =>
    obtain rfl : y = x := ended.resolve_left (by simp)
    obtain ⟨last, hlast, stands⟩ := stands call rfl
    obtain ⟨state, held⟩ := searching.current hg
    have goes_on := sequence.goes_on.imp id fun h => h.resolve_right
      fun ⟨made, f, alarm, hst, _⟩ => attempting.awake made f alarm hst
    refine ⟨misses, _, hg, Nat.le_refl _, fun k hk hkn => searching k hk (Nat.lt_succ_of_lt hkn),
      chain, .inl ⟨rfl, left, state, held, call, part, last, sequence.connects.get, attempting,
        past, hlast, stands, goes_on⟩, fun all => ?_⟩
    exact absurd all (Nat.ne_of_lt left)
  | @ended n misses _ hg hn searching attempted =>
    have attempted := begins.attempted hn attempted
    refine ⟨misses, n, hg, Nat.le_trans hn begins.length_le,
      begins.throughout (Nat.le_succ_of_le hn) searching,
      begins.paced (Nat.le_of_lt hg) hn chain, .inr attempted, fun all => ?_⟩
    cases attempted with
    | connected left _ _ _ _ => exact absurd all (Nat.ne_of_lt left)
    | failed _ _ returned held _ =>
      obtain ⟨k, rfl, settled, -⟩ := returned
      exact quiet_of_failed reached settled held

def unlucky : List Action :=
  [.invoke 0 .ensureConnected, .poll 0, .poll 0, .poll 0, .resolve 0 (some 0), .poll 0, .pass 40,
    .complete 0 (some .linkLost), .poll 0, .pass 500, .complete 0 (some .notConnected), .poll 0,
    .resolve 0 none, .poll 0, .pass 10]

def startsNow (x : Course) (g : Nat) (c : CallId) (seen : Nat) (held : Option Held) : Bool :=
  (x.history[g]?).any fun entry => entry.action = .poll c && entry.before.held = held &&
    entry.before.queue.holder = some c &&
    (entry.before.lastFailure = none || entry.before.sequences = seen) &&
    (entry.before.calls.get? c).any fun call => call.stage = .queued (.connect seen)

theorem starts_of_now {seen : Nat} {held : Option Held} (h : x.startsNow g c seen held) :
    x.Starts g c ∧ (x.sessionAt g).held = held := by
  obtain ⟨entry, hentry, h⟩ := (Option.any_eq_true _ _).mp h
  simp only [Bool.and_eq_true, Bool.or_eq_true, decide_eq_true_eq] at h
  obtain ⟨⟨⟨⟨turn, linked⟩, holder⟩, own⟩, h⟩ := h
  obtain ⟨call, hc, h⟩ := (Option.any_eq_true _ _).mp h
  refine ⟨⟨entry, hentry, turn, holder, call, seen, hc, of_decide_eq_true h, own⟩, ?_⟩
  rw [sessionAt, hentry]
  exact linked

/-- Both attempts fail, the second one for want of a device, and the link is at rest behind them. -/
theorem attempts_while_unlucky : ∃ x, ReachedInTime noon twoAttempts x ∧ x.Starts 3 0 ∧
    (x.sessionAt 3).held = none ∧ ∃ misses n, misses.length = 2 ∧
      x.Attempted twoAttempts 3 n 0 misses ∧ x.Searching 3 n ∧ x.QuietFrom n ∧
      (x.log 3 n).IsChain (Paced twoAttempts (ReachedInTime noon twoAttempts x)) := by
  have h : ((start twoAttempts).runInTime? noon unlucky).any (fun x => x.startsNow 3 0 0 none &&
      x.session.calls.get? 0 = none &&
      (List.range (x.history.length + 1)).all fun k => (x.sessionAt k).held = none) = true := by
    decide +kernel
  obtain ⟨x, hx, h⟩ := (Option.any_eq_true _ _).mp h
  simp only [Bool.and_eq_true, decide_eq_true_eq, List.all_eq_true, List.mem_range] at h
  obtain ⟨⟨begins, gone⟩, never⟩ := h
  obtain ⟨starts, unlinked⟩ := starts_of_now begins
  obtain ⟨misses, n, -, hn, searching, chain, outcome, quiet⟩ :=
    reached_attempts (reached_of_inTime ⟨unlucky, hx⟩) starts unlinked
  refine ⟨x, ⟨unlucky, hx⟩, starts, unlinked, misses, n, ?_⟩
  rcases outcome with trying | attempted
  · obtain ⟨call, -, -, hc, -⟩ := trying.attempt
    cases gone.symm.trans hc
  · have all : misses.length = 2 := by
      cases attempted with
      | connected _ _ _ held _ => cases (never n (Nat.lt_succ_of_le hn)).symm.trans held
      | failed all _ _ _ _ => exact all
    exact ⟨all, attempted, searching, quiet all, chain⟩

end Course

end HeaterLink
