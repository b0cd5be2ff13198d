import HeaterLink.Proofs.Calls.Limits
import HeaterLink.Proofs.Link.Progress
import Mathlib.Data.List.Chain

/-!
# The pace of a sequence

How much time lies between a mark of the log and the next one. A sequence waits
for the radio, for as long as the limit of an attempt allows, and pauses between
one attempt to subscribe and the next. On a clock that waits it lets no other
time pass on its own account, and never more than that.
-/

set_option autoImplicit false

namespace HeaterLink

def Config.pause (config : Config) : Nat := min config.retryDelay longestPause

namespace Mark

def limit? (config : Config) : Mark → Option Nat
  | .did (.requested _ (.find _)) => some 0
  | .did (.requested _ (.connect _ _)) => some config.connect.limit
  | .did (.requested _ (.subscribe _ _)) => some config.subscribe.limit
  | _ => none

def delay (config : Config) (m : Mark) : Mark → Nat
  | .did (.abandoned _) => (m.limit? config).getD 0
  | .did (.requested _ (.subscribe _ _)) =>
    match m with
    | .heard _ (.finished (some _)) => config.pause
    | .did (.abandoned _) => config.pause
    | _ => 0
  | _ => 0

end Mark

/-- How a mark of the log follows another one. What the sequence does is not early, and on a clock
that waits neither is it late; what it hears comes within the limit. -/
structure Paced (config : Config) (prompt : Prop) (m m' : Nat × Mark) : Prop where
  waits : m.1 + m.2.delay config m'.2 ≤ m'.1
  punctual : prompt → ∀ e, m'.2 = .did e → m'.1 = m.1 + m.2.delay config m'.2
  limited : prompt → ∀ limit, m.2.limit? config = some limit → m'.1 ≤ m.1 + limit

inductive Stage.Stands (config : Config) (prompt : Prop) (now : Nat) (c : CallId) :
    Stage → Option RadioAnswer → Nat × Mark → Prop
  | answered {st : Stage} {answer : RadioAnswer} {since : Nat} : st.hears answer → since ≤ now →
      (prompt → now = since) → Stands config prompt now c st (some answer) (since, .heard c answer)
  | releasing {next : Release} {h : Handle} {since : Nat} : since ≤ now →
      Stands config prompt now c (.releasing next) none
        (since, .did (.requested c (.disconnect h)))
  | seeking {made : Nat} {address : String} {since : Nat} : since ≤ now → (prompt → now = since) →
      Stands config prompt now c (.seeking made) none (since, .did (.requested c (.find address)))
  | connecting {made limit : Nat} {h : Handle} {a : Alarm} {since : Nat} :
      a.due = since + config.connect.limit → since ≤ now → (prompt → now ≤ a.due) →
      Stands config prompt now c (.connecting made h a) none
        (since, .did (.requested c (.connect h limit)))
  | discarding {made : Nat} {f : Fault} {h : Handle} {since : Nat} : since ≤ now →
      Stands config prompt now c (.discarding made f) none
        (since, .did (.requested c (.disconnect h)))
  | subscribing {made : Nat} {h : Handle} {i : StreamId} {a : Alarm} {since : Nat} :
      a.due = since + config.subscribe.limit → since ≤ now → (prompt → now ≤ a.due) →
      Stands config prompt now c (.subscribing made i a) none
        (since, .did (.requested c (.subscribe h i)))
  | refused {made : Nat} {f f' : Fault} {a : Alarm} {since : Nat} :
      made < config.subscribe.attempts → since + config.pause ≤ a.due → since ≤ now →
      (prompt → a.due = since + config.pause ∧ now ≤ a.due) →
      Stands config prompt now c (.pausing made f a) none
        (since, .heard c (.finished (some f')))
  | late {made : Nat} {f : Fault} {a : Alarm} {since : Nat} :
      made < config.subscribe.attempts → since + config.pause ≤ a.due → since ≤ now →
      (prompt → a.due = since + config.pause ∧ now ≤ a.due) →
      Stands config prompt now c (.pausing made f a) none (since, .did (.abandoned c))

variable {config : Config} {prompt : Prop} {now since : Nat} {c : CallId} {m m' : Mark}

theorem paced_at_once (le : since ≤ now) (same : prompt → now = since)
    (delay : m.delay config m' = 0) : Paced config prompt (since, m) (now, m') where
  waits := by simpa [delay] using le
  punctual := fun h _ _ => by simpa [delay] using same h
  limited := fun h _ _ => by simp [same h]

theorem isChain_moment {ms : List Mark} (h : ms.IsChain fun m m' => m.delay config m' = 0) :
    (ms.map fun m => (now, m)).IsChain (Paced config prompt) := by
  rw [List.isChain_map]
  exact h.imp fun _ _ delay => paced_at_once (Nat.le_refl now) (fun _ => rfl) delay

namespace Stage.Stands

variable {st : Stage} {answer : Option RadioAnswer} {last : Nat × Mark}

theorem le (h : st.Stands config prompt now c answer last) : last.1 ≤ now := by
  cases h <;> assumption

theorem hears {heard : RadioAnswer} (h : st.Stands config prompt now c none last)
    (fit : st.hears heard) : Paced config prompt last (now, .heard c heard) ∧
      st.Stands config prompt now c (some heard) (now, .heard c heard) := by
  refine ⟨⟨h.le, fun _ e he => (by cases he), fun hp limit hl => ?_⟩,
    .answered fit (Nat.le_refl _) fun _ => rfl⟩
  cases h with
  | releasing _ => cases hl
  | seeking _ same =>
    obtain rfl := Option.some.inj hl
    exact Nat.le_of_eq (same hp)
  | connecting due _ early =>
    obtain rfl := Option.some.inj hl
    exact due ▸ early hp
  | discarding _ => cases hl
  | subscribing due _ early =>
    obtain rfl := Option.some.inj hl
    exact due ▸ early hp
  | refused _ _ _ _ => cases hl
  | late _ _ _ _ => cases hl

theorem fit {heard : RadioAnswer} (h : st.Stands config prompt now c (some heard) last) :
    st.hears heard := by
  cases h
  assumption

end Stage.Stands

namespace Act.Turn

structure InPace (t : Turn) (config : Config) (prompt : Prop) (last : Option (Nat × Mark))
    (ms : List Mark) (finale : Finale) : Prop where
  first : ∀ p, last = some p → ∀ m, ms.head? = some m → Paced config prompt p (t.moment.now, m)
  rest : ms.IsChain fun m m' => m.delay config m' = 0
  stands : ∀ st, finale = .goto st → ∃ p, ((ms.map (t.moment.now, ·)).getLast?).or last = some p ∧
    st.Stands config prompt t.moment.now t.call none p

variable {t : Turn} {s s' : Session} {made : Nat} {last : Fault} {ms : List Mark}
  {finale : Finale} {p : Nat × Mark} {answer : Option RadioAnswer} {st : Stage}

theorem InPace.behind {prev : Option (Nat × Mark)} {m : Mark}
    (h : InPace t config prompt (some (t.moment.now, m)) ms finale) (first : List Mark)
    (hm : first.getLast? = some m) (rest : first.IsChain fun m m' => m.delay config m' = 0)
    (next : ∀ p, prev = some p → ∀ m, first.head? = some m →
      Paced config prompt p (t.moment.now, m)) :
    InPace t config prompt prev (first ++ ms) finale := by
  have nonempty : first ≠ [] := by
    rintro rfl
    cases hm
  refine ⟨fun p hp m' hm' => ?_, ?_, fun st hst => ?_⟩
  · rw [List.head?_append_of_ne_nil _ nonempty] at hm'
    exact next p hp m' hm'
  · refine List.isChain_append.mpr ⟨rest, h.rest, fun m₁ h₁ m₂ h₂ => ?_⟩
    obtain rfl := Option.some.inj (hm.symm.trans h₁)
    have waits : t.moment.now + m.delay config m₂ ≤ t.moment.now := (h.first _ rfl m₂ h₂).waits
    omega
  · obtain ⟨p, hp, stands⟩ := h.stands st hst
    refine ⟨p, ?_, stands⟩
    simpa [List.getLast?_append, hm, Option.or_assoc] using hp

theorem Seeks.inPace {prev : Option (Nat × Mark)} (h : Seeks t s made last ms s' finale)
    (early : ∀ p, prev = some p → p.1 ≤ t.moment.now ∧ (prompt → t.moment.now = p.1)) :
    InPace t s.config prompt prev (ms ++ finale.marks t.call) finale := by
  have first (e : Effect) (state : e = .entered .connecting ∨ e = .entered .disconnected)
      (p : Nat × Mark) (hp : prev = some p) : Paced s.config prompt p (t.moment.now, .did e) := by
    refine paced_at_once (early p hp).1 (early p hp).2 ?_
    rcases state with rfl | rfl <;> rfl
  cases h with
  | asks _ =>
    refine ⟨fun p hp m hm => ?_, ?_, ?_⟩
    · obtain rfl := Option.some.inj hm
      exact first _ (.inl rfl) p hp
    · simp [Finale.marks, Mark.delay]
    · rintro st ⟨⟩
      exact ⟨_, rfl, .seeking (Nat.le_refl _) fun _ => rfl⟩
  | ends _ =>
    refine ⟨fun p hp m hm => ?_, ?_, ?_⟩
    · obtain rfl := Option.some.inj hm
      exact first _ (.inr rfl) p hp
    · simp [Finale.marks, Mark.delay]
    · rintro st ⟨⟩

theorem Offers.inPace {prev : Option (Nat × Mark)} (h : Offers t s made last ms s' finale)
    (asks : made < s.config.subscribe.attempts → ∀ p, prev = some p → ∀ h i,
      Paced s.config prompt p (t.moment.now, .did (.requested t.call (.subscribe h i))))
    (ends : ¬made < s.config.subscribe.attempts ∨ s.held = none → ∀ p, prev = some p → ∀ failure,
      Paced s.config prompt p (t.moment.now, .did (.settled t.call failure))) :
    InPace t s.config prompt prev (ms ++ finale.marks t.call) finale := by
  cases h with
  | asks _ hm =>
    refine ⟨fun p hp m e => ?_, by simp [Finale.marks], ?_⟩
    · obtain rfl := Option.some.inj e
      exact asks hm p hp _ _
    · rintro st ⟨⟩
      refine ⟨_, rfl, .subscribing rfl (Nat.le_refl _) fun _ => Nat.le_add_right _ _⟩
  | ends _ hm =>
    refine ⟨fun p hp m e => ?_, by simp [Finale.marks], ?_⟩
    · obtain rfl := Option.some.inj e
      exact ends (.inl hm) p hp _
    · rintro st ⟨⟩
  | unheld hh =>
    refine ⟨fun p hp m e => ?_, by simp [Finale.marks], ?_⟩
    · obtain rfl := Option.some.inj e
      exact ends (.inr hh) p hp _
    · rintro st ⟨⟩

theorem inPace_at_once {prev : Option (Nat × Mark)} {m : Mark}
    (first : ∀ p, prev = some p → Paced config prompt p (t.moment.now, m))
    (rest : (m :: ms).IsChain fun m m' => m.delay config m' = 0)
    (stands : ∀ st, finale = .goto st → ∃ m', (m :: ms).getLast? = some m' ∧
      st.Stands config prompt t.moment.now t.call none (t.moment.now, m')) :
    InPace t config prompt prev (m :: ms) finale := by
  refine ⟨fun p hp m' hm => ?_, rest, fun st hst => ?_⟩
  · obtain rfl := Option.some.inj hm
    exact first p hp
  · obtain ⟨m', hm, hs⟩ := stands st hst
    exact ⟨_, by rw [List.getLast?_map, hm]; rfl, hs⟩

theorem Offers.inPace_behind {prev : Option (Nat × Mark)} {m : Mark}
    (h : Offers t s made last ms s' finale) (first : List Mark) (hm : first.getLast? = some m)
    (free : ∀ h i, m.delay s.config (.did (.requested t.call (.subscribe h i))) = 0)
    (rest : first.IsChain fun m m' => m.delay s.config m' = 0)
    (next : ∀ p, prev = some p → ∀ m, first.head? = some m →
      Paced s.config prompt p (t.moment.now, m)) :
    InPace t s.config prompt prev (first ++ ms ++ finale.marks t.call) finale := by
  have offers : InPace t s.config prompt (some (t.moment.now, m)) (ms ++ finale.marks t.call)
      finale := by
    refine h.inPace (fun _ p hp h i => ?_) fun _ p hp failure => ?_
    · obtain rfl := Option.some.inj hp
      exact paced_at_once (Nat.le_refl _) (fun _ => rfl) (free h i)
    · obtain rfl := Option.some.inj hp
      exact paced_at_once (Nat.le_refl _) (fun _ => rfl) rfl
  rw [List.append_assoc]
  exact offers.behind first hm rest next

theorem noted_cancelListener (s : Session) : noted (cancelListener s).2 =
    s.runningListener.toList.map fun i => .did (.cancelled i) := by
  cases h : s.runningListener <;> simp [cancelListener, h, Effect.logged]

theorem noted_connected (unlinked : s.Unlinked) (h : Handle) :
    noted (cancelListener { s with held := some ⟨h, true⟩, state := .connected }).2 = [] := by
  simp [noted_cancelListener, Session.runningListener, unlinked.listener]

theorem noted_goDown (s : Session) : noted (goDown s).2 = .did (.entered .disconnected) ::
    if s.state = .disconnected then [] else [.did (.emitted .disconnected)] := by
  by_cases h : s.state = .disconnected <;> simp [goDown, h, Effect.logged]

theorem Offers.inPace_connected {prev : Option (Nat × Mark)} {h : Handle}
    (offers : Offers t (cancelListener { s with held := some ⟨h, true⟩, state := .connected }).1 0
      .notConnected ms s' finale) (unlinked : s.Unlinked)
    (early : ∀ p, prev = some p → p.1 ≤ t.moment.now ∧ (prompt → t.moment.now = p.1)) :
    InPace t s.config prompt prev ([.did (.entered .connected), .did (.emitted .connected)] ++
      noted (cancelListener { s with held := some ⟨h, true⟩, state := .connected }).2 ++ ms ++
      finale.marks t.call) finale := by
  rw [noted_connected unlinked, List.append_nil]
  rw [cancelListener_fst] at offers
  refine offers.inPace_behind _ rfl (fun _ _ => rfl) (by simp [Mark.delay]) fun p hp m hm => ?_
  obtain rfl := Option.some.inj hm
  exact paced_at_once (early p hp).1 (early p hp).2 rfl

theorem Strides.inPace_start {use : Use} (h : Strides t s (.queued use) answer ms s' finale) :
    InPace t s.config prompt none (ms ++ finale.marks t.call) finale := by
  cases h with
  | anew _ seeks => exact seeks.inPace (by simp)
  | reuses _ _ _ _ => exact inPace_at_once (by simp) (by simp) (by simp)
  | again _ _ _ offers =>
    rw [noted_cancelListener]
    rw [cancelListener_fst] at offers
    cases hr : s.runningListener with
    | none => exact offers.inPace (by simp) (by simp)
    | some i =>
      exact offers.inPace_behind [.did (.cancelled i)] rfl (fun _ _ => rfl) (by simp) (by simp)
  | lost _ _ =>
    rw [noted_cancelListener]
    have releasing (h : Handle) (st : Stage)
        (e : Finale.goto (.releasing .reconnect) = .goto st) :
        st.Stands s.config prompt t.moment.now t.call none
          (t.moment.now, .did (.requested t.call (.disconnect h))) := by
      cases e
      exact .releasing (Nat.le_refl _)
    cases hr : s.runningListener with
    | none => exact inPace_at_once (by simp) (by simp [Finale.marks]) fun st e =>
        ⟨_, rfl, releasing _ st e⟩
    | some i => exact inPace_at_once (by simp) (by simp [Finale.marks, Mark.delay]) fun st e =>
        ⟨_, rfl, releasing _ st e⟩

theorem Strides.inPace_connected {h : Handle} {a : Alarm}
    (stride : Strides t s (.connecting made h a) (some (.finished none)) ms s' finale)
    (unlinked : s.Unlinked) :
    InPace t s.config prompt none (ms ++ finale.marks t.call) finale := by
  cases stride with
  | connects offers => exact offers.inPace_connected unlinked (by simp)
  | discards fails =>
    cases fails with
    | late silent _ => exact absurd rfl (silent none)

/-- An attempt fails as soon as the radio says so, or when its time is over. -/
theorem Fails.inPace {alarm : Alarm} {late f : Fault} (h : Fails t alarm late answer ms f)
    (stands : st.Stands config prompt t.moment.now t.call answer p)
    (limited : (∃ made h, st = .connecting made h alarm) ∨
      ∃ made i, st = .subscribing made i alarm) :
    (ms = [] ∧ p.2 = .heard t.call (.finished (some f)) ∧ p.1 ≤ t.moment.now ∧
        (prompt → t.moment.now = p.1)) ∨
      (ms = [.did (.abandoned t.call)] ∧
        Paced config prompt p (t.moment.now, .did (.abandoned t.call))) := by
  cases h with
  | refused =>
    cases stands with
    | answered _ le same => exact .inl ⟨rfl, rfl, le, same⟩
  | late silent rings =>
    refine .inr ⟨rfl, ?_⟩
    have rung : alarm.due ≤ t.moment.now := of_decide_eq_true rings
    have abandoned {since limit : Nat} {m : Mark} (due : alarm.due = since + limit)
        (early : prompt → t.moment.now ≤ alarm.due) (hm : m.limit? config = some limit) :
        Paced config prompt (since, m) (t.moment.now, .did (.abandoned t.call)) := by
      have delay : m.delay config (.did (.abandoned t.call)) = limit := by simp [Mark.delay, hm]
      refine ⟨?_, fun hp _ _ => ?_, fun hp limit' hl => ?_⟩
      · show since + m.delay config (.did (.abandoned t.call)) ≤ t.moment.now
        omega
      · show t.moment.now = since + m.delay config (.did (.abandoned t.call))
        have := early hp
        omega
      · obtain rfl := Option.some.inj (hm.symm.trans hl)
        exact due ▸ early hp
    cases stands with
    | @answered _ heard _ fit _ _ =>
      rcases limited with ⟨made, h, rfl⟩ | ⟨made, i, rfl⟩
      all_goals
        cases heard with
        | found found => cases fit
        | finished fault => exact absurd rfl (silent fault)
    | connecting due _ early =>
      rcases limited with ⟨made, h, e⟩ | ⟨made, i, e⟩
      · cases e
        exact abandoned due early rfl
      · cases e
    | subscribing due _ early =>
      rcases limited with ⟨made, h, e⟩ | ⟨made, i, e⟩
      · cases e
      · cases e
        exact abandoned due early rfl
    | _ => rcases limited with ⟨made, h, e⟩ | ⟨made, i, e⟩ <;> cases e

/-- Every further stride keeps the pace. -/
theorem Strides.inPace (h : Strides t s st answer ms s' finale) (hu : st.underway)
    (fits : s.Fits st) (stands : st.Stands s.config prompt t.moment.now t.call answer p) :
    InPace t s.config prompt (some p) (ms ++ finale.marks t.call) finale := by
  -- Behind an answer everything follows at once.
  have early {heard : RadioAnswer} (ha : answer = some heard) (p' : Nat × Mark)
      (hp : some p = some p') : p'.1 ≤ t.moment.now ∧ (prompt → t.moment.now = p'.1) := by
    subst ha
    obtain rfl := Option.some.inj hp
    cases stands with
    | answered _ le same => exact ⟨le, same⟩
  have atOnce {heard : RadioAnswer} (ha : answer = some heard) {m : Mark}
      (free : ∀ m' : Mark, m'.delay s.config m = 0) (p' : Nat × Mark) (hp : some p = some p') :
      Paced s.config prompt p' (t.moment.now, m) :=
    paced_at_once (early ha p' hp).1 (early ha p' hp).2 (free _)
  cases h with
  | released seeks =>
    have told (m : Mark) (p' : Nat × Mark) (hp : some (t.moment.now, m) = some p') :
        p'.1 ≤ t.moment.now ∧ (prompt → t.moment.now = p'.1) := by
      obtain rfl := Option.some.inj hp
      exact ⟨Nat.le_refl _, fun _ => rfl⟩
    have next (p' : Nat × Mark) (hp : some p = some p') (m : Mark)
        (hm : some (.did (.entered .disconnected)) = some m) :
        Paced s.config prompt p' (t.moment.now, m) := by
      obtain rfl := Option.some.inj hm
      exact atOnce rfl (fun _ => rfl) p' hp
    rw [noted_goDown, List.append_assoc]
    by_cases hd : s.state = .disconnected
    · rw [if_pos hd]
      exact (seeks.inPace (told _)).behind [.did (.entered .disconnected)] rfl (by simp) next
    · rw [if_neg hd]
      exact (seeks.inPace (told _)).behind
        [.did (.entered .disconnected), .did (.emitted .disconnected)] rfl
        (by simp [Mark.delay]) next
  | finds =>
    refine inPace_at_once (atOnce rfl fun _ => rfl) (by simp [Finale.marks]) ?_
    rintro st ⟨⟩
    exact ⟨_, rfl, .connecting rfl (Nat.le_refl _) fun _ => Nat.le_add_right _ _⟩
  | misses seeks => exact seeks.inPace (early rfl)
  | connects offers => exact offers.inPace_connected fits (early rfl)
  | @discards made h alarm _ ms f fails =>
    have discarding (st : Stage) (e : Finale.goto (.discarding made f) = .goto st) :
        st.Stands s.config prompt t.moment.now t.call none
          (t.moment.now, .did (.requested t.call (.disconnect h))) := by
      cases e
      exact .discarding (Nat.le_refl _)
    rcases fails.inPace stands (.inl ⟨_, _, rfl⟩) with ⟨rfl, -, le, same⟩ | ⟨rfl, abandoned⟩
    · refine inPace_at_once (fun p' hp => ?_) (by simp [Finale.marks]) fun st e =>
        ⟨_, rfl, discarding st e⟩
      obtain rfl := Option.some.inj hp
      exact paced_at_once le same rfl
    · refine inPace_at_once (fun p' hp => ?_) (by simp [Finale.marks, Mark.delay]) fun st e =>
        ⟨_, rfl, discarding st e⟩
      obtain rfl := Option.some.inj hp
      exact abandoned
  | discarded seeks => exact seeks.inPace (early rfl)
  | subscribes =>
    exact inPace_at_once (atOnce rfl fun _ => rfl) (by simp [Finale.marks, Mark.delay]) (by simp)
  | pauses fails hm =>
    have due : (t.moment.pause s.config.retryDelay).due = t.moment.now + s.config.pause := rfl
    rcases fails.inPace stands (.inr ⟨_, _, rfl⟩) with ⟨rfl, hp, le, same⟩ | ⟨rfl, abandoned⟩
    · refine ⟨by simp [Finale.marks], by simp [Finale.marks], ?_⟩
      rintro st ⟨⟩
      obtain ⟨since, m⟩ := p
      obtain rfl : m = _ := hp
      exact ⟨_, rfl, .refused hm (due ▸ Nat.add_le_add_right le _) le fun h =>
        ⟨by rw [due, same h], due ▸ Nat.le_add_right _ _⟩⟩
    · refine inPace_at_once (fun p' hp => ?_) (by simp [Finale.marks]) ?_
      · obtain rfl := Option.some.inj hp
        exact abandoned
      · rintro st ⟨⟩
        exact ⟨_, rfl, .late hm (Nat.le_of_eq due.symm) (Nat.le_refl _) fun _ =>
          ⟨due, due ▸ Nat.le_add_right _ _⟩⟩
  | exhausts fails hm offers =>
    rcases fails.inPace stands (.inr ⟨_, _, rfl⟩) with ⟨rfl, -, le, same⟩ | ⟨rfl, abandoned⟩
    · refine offers.inPace (fun h => absurd h hm) fun _ p' hp failure => ?_
      obtain rfl := Option.some.inj hp
      exact paced_at_once le same rfl
    · rw [List.append_assoc]
      refine InPace.behind ?_ [.did (.abandoned t.call)] rfl (by simp) fun p' hp m e => ?_
      · refine offers.inPace (fun h => absurd h hm) fun _ p' hp failure => ?_
        obtain rfl := Option.some.inj hp
        exact paced_at_once (Nat.le_refl _) (fun _ => rfl) rfl
      · obtain rfl := Option.some.inj hp
        obtain rfl := Option.some.inj e
        exact abandoned
  | @retries made f alarm _ ms _ _ rings offers =>
    have rung : alarm.due ≤ t.moment.now := of_decide_eq_true rings
    have mute : s.Mute := fits
    -- The pause is over, and there is another attempt to be made on the handle.
    have paused {since : Nat} {m : Mark} (hm : made < s.config.subscribe.attempts)
        (due : since + s.config.pause ≤ alarm.due)
        (same : prompt → alarm.due = since + s.config.pause ∧ t.moment.now ≤ alarm.due)
        (pause : ∀ h i, m.delay s.config (.did (.requested t.call (.subscribe h i))) =
          s.config.pause) (unlimited : m.limit? s.config = none) :
        InPace t s.config prompt (some (since, m)) (ms ++ finale.marks t.call) finale := by
      refine offers.inPace (fun _ p' hp h i => ?_) ?_
      · obtain rfl := Option.some.inj hp
        refine ⟨?_, fun hp _ _ => ?_, fun hp limit hl => ?_⟩
        · show since + m.delay s.config (.did (.requested t.call (.subscribe h i))) ≤ t.moment.now
          rw [pause]
          omega
        · show t.moment.now = since + m.delay s.config (.did (.requested t.call (.subscribe h i)))
          have := same hp
          rw [pause]
          omega
        · rw [unlimited] at hl
          cases hl
      · rintro (h | h)
        · exact absurd hm h
        · have := mute.held
          simp [h] at this
    cases stands with
    | @answered _ heard _ fit _ _ => cases heard <;> cases fit
    | refused hm due _ same => exact paused hm due same (fun _ _ => rfl) rfl
    | late hm due _ same => exact paused hm due same (fun _ _ => rfl) rfl
  | _ => cases hu

end Act.Turn

/-- Time passes: on a clock that waits there is nothing to be done before, and no alarm rings. -/
theorem Stage.Stands.pass {st : Stage} {answer : Option RadioAnswer} {last : Nat × Mark}
    {later : Nat} (h : st.Stands config prompt now c answer last) (le : now ≤ later)
    (calm : prompt → answer = none ∧ (∀ made, st ≠ .seeking made) ∧
      ∀ a, st.alarm? = some a → later ≤ a.due) :
    st.Stands config prompt later c answer last := by
  cases h with
  | answered fit since _ =>
    exact .answered fit (Nat.le_trans since le) fun hp => by cases (calm hp).1
  | releasing since => exact .releasing (Nat.le_trans since le)
  | seeking since _ =>
    exact .seeking (Nat.le_trans since le) fun hp => absurd rfl ((calm hp).2.1 _)
  | connecting due since _ =>
    exact .connecting due (Nat.le_trans since le) fun hp => (calm hp).2.2 _ rfl
  | discarding since => exact .discarding (Nat.le_trans since le)
  | subscribing due since _ =>
    exact .subscribing due (Nat.le_trans since le) fun hp => (calm hp).2.2 _ rfl
  | refused hm due since same =>
    exact .refused hm due (Nat.le_trans since le) fun hp => ⟨(same hp).1, (calm hp).2.2 _ rfl⟩
  | late hm due since same =>
    exact .late hm due (Nat.le_trans since le) fun hp => ⟨(same hp).1, (calm hp).2.2 _ rfl⟩

namespace Course

variable {wall : Nat → Clock} {x y : Course} {a : Action} {after : Session × List Effect}
  {g n : Nat} {call : Call} {o : Option Call}

theorem calm_of_connects (timely : x.inTime wall (.pass now)) (connects : x.Connects c call)
    (fit : ∀ answer, call.answer = some answer → call.stage.hears answer) :
    call.answer = none ∧ (∀ made, call.stage ≠ .seeking made) ∧
      ∀ a, call.stage.alarm? = some a → x.now + now ≤ a.due := by
  have busy (h : (x.session.poll (x.moment wall) c).isSome ∨ ∃ made, call.stage = .seeking made) :
      x.busy wall := by
    simp only [Course.busy, Bool.or_eq_true, List.any_eq_true]
    refine .inl ⟨(c, call), Table.mem_of_get? connects.get, h.imp id ?_⟩
    rintro ⟨made, e⟩
    simp [e]
  refine ⟨?_, fun made e => calm_of_pass timely (busy (.inr ⟨made, e⟩)), fun a ha => ?_⟩
  · cases ha : call.answer with
    | none => rfl
    | some answer =>
      exact absurd (busy (.inl (Session.poll_isSome_of_answer _ connects.get connects.underway ha
        (fit answer ha)))) (calm_of_pass timely)
  · exact due_of_pass timely connects.get (by rw [Stage.due?, ha]; rfl)

theorem Begins.paced (begins : x.Begins y) (hgn : g ≤ n) (hn : n ≤ x.history.length)
    (chain : (x.log g x.history.length).IsChain (Paced config prompt)) :
    (y.log g n).IsChain (Paced config prompt) := by
  rw [log_append x hgn hn] at chain
  exact begins.log hn ▸ chain.left_of_append

theorem Strode.paced {ms : List Mark} {s' : Session} {finale : Finale}
    (h : x.Strode wall c call ms s' finale y) (hg : g ≤ x.history.length)
    (chain : (x.log g x.history.length).IsChain (Paced config prompt))
    (pace : Act.Turn.InPace ⟨x.moment wall, c, call.plan⟩ config prompt
      (x.log g x.history.length).getLast? (ms ++ finale.marks c) finale) :
    (y.log g y.history.length).IsChain (Paced config prompt) ∧
      ∀ next, finale.call? call.plan = some next →
        ∃ p, (y.log g y.history.length).getLast? = some p ∧
          next.stage.Stands config prompt y.now c next.answer p := by
  rw [h.log hg, h.now]
  refine ⟨List.isChain_append.mpr ⟨chain, isChain_moment pace.rest, fun p hp m hm => ?_⟩,
    fun next hn => ?_⟩
  · rw [List.head?_map] at hm
    obtain ⟨m, head, rfl⟩ := Option.map_eq_some_iff.mp hm
    exact pace.first p hp m head
  · cases finale with
    | goto st =>
      obtain rfl := Option.some.inj hn
      obtain ⟨p, hp, stands⟩ := pace.stands st rfl
      exact ⟨p, by rw [List.getLast?_append]; exact hp, stands⟩
    | _ => cases hn

/-- All along a sequence its marks follow one another in time, and the call stands to the last of
them as its stage says. -/
theorem Sequence.paced (h : Sequence wall config g c y o)
    (inTime : prompt → ReachedInTime wall config y) :
    (y.log g y.history.length).IsChain (Paced config prompt) ∧
      ∀ call, o = some call → ∃ p, (y.log g y.history.length).getLast? = some p ∧
        call.stage.Stands config prompt y.now c call.answer p := by
  induction h with
  | @begins x y call ms s' finale hx hg enters strode =>
    have settings := (reached_setUp x hx).settings
    have nothing : x.log g x.history.length = [] := by rw [← hg, log_self]
    have pace : Act.Turn.InPace ⟨x.moment wall, c, call.plan⟩ config prompt none
        (ms ++ finale.marks c) finale := by
      have strides := strode.strides
      rcases enters with starts | ⟨call', made, handle, alarm, hc, hst, ha⟩
      · obtain ⟨call', seen, hc, hst, -⟩ := starts.call
        obtain rfl := Option.some.inj (hc.symm.trans strode.get)
        rw [hst] at strides
        exact settings ▸ strides.inPace_start
      · obtain rfl := Option.some.inj (hc.symm.trans strode.get)
        have fits := (reached_agrees hx).fits c call' hc
        rw [hst] at fits
        rw [hst, ha] at strides
        exact settings ▸ strides.inPace_connected fits
    obtain ⟨chain, stands⟩ := strode.paced (Nat.le_of_eq hg.symm) (by simp [nothing])
      (by rw [nothing]; exact pace)
    exact ⟨chain, fun next hn => stands next hn⟩
  | @goes x y call ms s' finale sequence strode ih =>
    have hx := sequence.reached
    have settings := (reached_setUp x hx).settings
    obtain ⟨chain, stands⟩ := ih fun hp => (inTime_of_take? hx strode.step (inTime hp)).1
    obtain ⟨p, last, stands⟩ := stands call rfl
    have connects := sequence.connects
    rw [← settings] at stands
    have pace := strode.strides.inPace connects.underway
      ((reached_agrees hx).fits c call connects.get) stands
    obtain ⟨chain, stands⟩ := strode.paced (Nat.le_of_lt sequence.lt) chain
      (by rw [last]; exact settings ▸ pace)
    exact ⟨chain, fun next hn => stands next hn⟩
  | @hears x y call a answer sequence step grows heard none fit ih =>
    have hx := sequence.reached
    obtain ⟨chain, stands⟩ := ih fun hp => (inTime_of_take? hx step (inTime hp)).1
    obtain ⟨p, last, stands⟩ := stands call rfl
    rw [none] at stands
    obtain ⟨paced, stands⟩ := stands.hears fit
    have hnow : y.now = x.now := by
      rw [grows.now_eq]
      cases a <;> first | rfl | cases heard
    rw [grows.log_of_heard (Nat.le_of_lt sequence.lt) heard, hnow]
    refine ⟨List.isChain_append.mpr ⟨chain, by simp, fun p' hp m hm => ?_⟩, fun call' hc => ?_⟩
    · obtain rfl := Option.some.inj (last.symm.trans hp)
      obtain rfl := Option.some.inj hm
      exact paced
    · obtain rfl := Option.some.inj hc
      exact ⟨_, by rw [List.getLast?_concat], stands⟩
  | @spares x y call a after sequence step grows unheard spares ih =>
    have hx := sequence.reached
    have timely (hp : prompt) := inTime_of_take? hx step (inTime hp)
    obtain ⟨chain, stands⟩ := ih fun hp => (timely hp).1
    rw [grows.log_of_unnoted (Nat.le_of_lt sequence.lt) unheard spares.unnoted]
    refine ⟨chain, fun call' hc => ?_⟩
    obtain rfl := Option.some.inj hc
    obtain ⟨p, last, stands⟩ := stands call rfl
    refine ⟨p, last, ?_⟩
    rw [grows.now_eq]
    cases a with
    | pass ms =>
      refine stands.pass (Nat.le_add_right _ _) fun hp => ?_
      exact calm_of_connects (timely hp).2 sequence.connects fun answer ha => (ha ▸ stands).fit
    | _ => exact stands

/-- The call of a sequence can take a turn, waits for the radio, or pauses until its alarm rings. -/
theorem Sequence.goes_on (h : Sequence wall config g c x (some call)) :
    (x.session.poll (x.moment wall) c).isSome ∨ x.unanswered? c = some call.stage ∨
      ∃ made f a, call.stage = .pausing made f a ∧ x.now < a.due := by
  have connects := h.connects
  obtain ⟨-, stands⟩ := h.paced (False.elim)
  obtain ⟨last, -, stands⟩ := stands call rfl
  cases ha : call.answer with
  | some answer =>
    rw [ha] at stands
    exact .inl (Session.poll_isSome_of_answer _ connects.get connects.underway ha stands.fit)
  | none =>
    have waits (awaits : call.stage.awaitsRadio) : x.unanswered? c = some call.stage := by
      simp [unanswered?, connects.get, ha, awaits]
    have pauses {made : Nat} {f : Fault} {a : Alarm} (hst : call.stage = .pausing made f a) :
        (x.session.poll (x.moment wall) c).isSome ∨ ∃ made f a,
          call.stage = .pausing made f a ∧ x.now < a.due := by
      by_cases early : x.now < a.due
      · exact .inr ⟨made, f, a, hst, early⟩
      · exact .inl (Session.poll_isSome_of_rings connects.get hst
          (decide_eq_true (Nat.not_lt.mp early)))
    rw [ha] at stands
    generalize hst : call.stage = st at stands
    cases stands with
    | refused _ _ _ _ => exact (pauses hst).imp id fun early => .inr (hst ▸ early)
    | late _ _ _ _ => exact (pauses hst).imp id fun early => .inr (hst ▸ early)
    | _ => exact .inr (.inl (hst ▸ waits (hst ▸ rfl)))

end Course

end HeaterLink
