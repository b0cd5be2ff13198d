import HeaterLink.Proofs.Calls.Limits
import HeaterLink.Proofs.Requests.Completeness
import HeaterLink.Proofs.Requests.Slot

/-!
# Displaced requests

A request that another one displaces is lost: it is not pending again and no
status answers it. A call that waits for its status finds that out at once, and
the clock stands still until it has returned what is known. A call that still
queues for the link or is at its write does not look; it goes on until the write
is over or its time is.
-/

set_option autoImplicit false

namespace HeaterLink

namespace Act.Turn

variable {t : Turn} {s : Session} {answer : Option RadioAnswer} {k : Token} {a : Alarm} {act : Act}

theorem Moves.finishes (h : Moves t s answer (.awaiting k a) act) :
    ∃ o, .finished t.call o ∈ (act s).2 := by
  have withdrawn {o : Outcome} {s₁ : Session} :
      ∃ o', .finished t.call o' ∈ (t.finish o s₁).2 := ⟨o, finished_mem_finish.mpr rfl⟩
  cases h with
  | answered _ =>
    simp only [all_cons, all_nil, withdraw_apply, List.append_nil, List.nil_append]
    exact withdrawn
  | silent _ _ _ =>
    simp only [all_cons, all_nil, withdraw_apply, List.append_nil, List.nil_append]
    exact withdrawn
  | displaced _ _ => exact withdrawn

end Act.Turn

def Session.Awaits (s : Session) (c : CallId) : Prop :=
  ∃ call k a, s.calls.get? c = some call ∧ call.stage = .awaiting k a

theorem Session.poll_of_lost {s : Session} {m : Moment} {c : CallId} {call : Call} {k : Token}
    {a : Alarm} (hc : s.calls.get? c = some call) (hst : call.stage = .awaiting k a)
    (hr : s.inbound.replies.get? k = none) (hp : s.inbound.pendingToken ≠ k) :
    ∃ after, s.poll m c = some after ∧
      .finished c (.response (Response.fallback s.inbound.lastReading)) ∈ after.2 := by
  have turn : s.poll m c = some (Act.Turn.fallBack ⟨m, c, call.plan⟩ s) := by
    simp [poll, hc, hst, Act.Turn.resume, hr, hp]
  exact ⟨_, turn, Act.Turn.finished_mem_finish.mpr rfl⟩

namespace Course

structure Displaced (x : Course) (c : CallId) (k : Token) (g n due : Nat) : Prop where
  asked : x.Asked g c k due
  pending : (x.sessionAt n).inbound.pending = some ⟨k, c⟩
  newer : ∃ c' k', x.Did n (.registered c' k')

variable {wall : Nat → Clock} {config : Config} {x y : Course} {a : Action}
  {after : Session × List Effect} {c : CallId} {k : Token} {g n m l due : Nat} {o : Outcome}
  {call : Call}

theorem Displaced.lt (h : x.Displaced c k g n due) : n < x.history.length := by
  obtain ⟨c', k', hn⟩ := h.newer
  exact did_lt hn

theorem Displaced.later (reached : Reached wall config x) (h : x.Displaced c k g n due) : g < n :=
  (open_of_pending reached h.lt h.pending h.asked.registered).1

theorem Reacts.pending_of_registered (h : x.Reacts wall a after)
    (hk : .registered c k ∈ after.2) : after.1.inbound.pending = some ⟨k, c⟩ := by
  obtain ⟨rfl, rfl, -⟩ := h.registered hk
  cases h with
  | poll hp =>
    obtain ⟨⟨plan, st, answer⟩, -, hl⟩ := Session.poll_leads hp
    cases hl with
    | @begun operation =>
      cases operation with
      | ask frame limit =>
        rw [Act.Turn.begin_ask]
        rfl
      | _ =>
        exact absurd hk
          (by simp [Act.Turn.begin, Act.Turn.prepare, Act.Turn.enqueue, Act.Turn.goto])
    | opened =>
      obtain ⟨o, e⟩ := Act.Turn.mem_follow hk
      cases e
    | writes _ _ _ => simp [Act.Turn.request, Act.Turn.goto] at hk
    | ended closed =>
      rcases Act.Turn.mem_closed_about closed hk rfl with e | ⟨_, _, _, _, e⟩ <;> cases e

theorem Displaced.another (reached : Reached wall config x) (h : x.Displaced c k g n due)
    {c' : CallId} {k' : Token} (hn : x.Did n (.registered c' k')) : k' ≠ k := by
  rintro rfl
  have hlt := h.later reached
  obtain ⟨rfl, -⟩ := registered_unique reached h.asked.registered hn
  exact Nat.lt_irrefl _ hlt

theorem Displaced.not_pending (reached : Reached wall config x) (h : x.Displaced c k g n due)
    (hnm : n < m) (hm : m ≤ x.history.length) : (x.sessionAt m).inbound.pendingToken ≠ k := by
  obtain ⟨c', k', hn⟩ := h.newer
  obtain ⟨y, a, after, -, -, -, hr, he, -, hnext⟩ := reached_did reached hn
  have now : (x.sessionAt (n + 1)).inbound.pending = some ⟨k', c'⟩ := by
    rw [hnext]
    exact hr.pending_of_registered he
  obtain ⟨y, hy, begins, rfl⟩ := reached_prefix reached hm
  intro token
  rw [begins.session, Inbound.pendingToken] at token
  split at token
  · rename_i p hp
    subst token
    -- What is pending has been so since it was registered, so it was so behind entry `n`.
    obtain ⟨g', hg', stayed⟩ := reached_stayed y hy p hp
    obtain ⟨rfl, -⟩ := registered_unique reached h.asked.registered (begins.did hg')
    have stays := stayed (n + 1) (Nat.lt_succ_of_lt (h.later reached)) hnm
    rw [← begins.sessionAt hnm, now] at stays
    exact h.another reached hn (congrArg Pending.token (Option.some.inj stays))
  · obtain ⟨positive, -⟩ := (reached_registered x reached).2 g c k h.asked.registered
    subst token
    cases positive

theorem Displaced.not_answered (reached : Reached wall config x) (h : x.Displaced c k g n due)
    {c' : CallId} : ¬x.Did m (.answered c' k) := by
  intro hm
  obtain ⟨y, a, after, -, begins, rfl, hr, he, did, -⟩ := reached_did reached hm
  rcases Nat.lt_trichotomy y.history.length n with hlt | rfl | hgt
  · obtain ⟨z, hz, zbegins, rfl⟩ := reached_prefix reached (Nat.le_of_lt h.lt)
    have hp := h.pending
    rw [zbegins.session] at hp
    exact unanswered_of_pending hz hp ((zbegins.did_iff hlt).mp hm)
  · -- A turn of a call answers nothing.
    obtain ⟨c'', k', hreg⟩ := h.newer
    rcases hr.mem he with ⟨d, call, -, -, hreq⟩ | ⟨i, -, hl⟩
    · exact hreq.answered c' k he
    · cases (hl.mem ((did _).mp hreg)).1
  · refine h.not_pending reached hgt (Nat.le_of_lt (did_lt hm)) ?_
    rw [begins.session, Inbound.pendingToken, hr.answered he]

theorem Displaced.no_reply (reached : Reached wall config x) (h : x.Displaced c k g n due)
    (hm : m ≤ x.history.length) : (x.sessionAt m).inbound.replies.get? k = none := by
  obtain ⟨y, hy, begins, rfl⟩ := reached_prefix reached hm
  rw [begins.session]
  refine Option.eq_none_iff_forall_ne_some.mpr fun r hr => ?_
  obtain ⟨c', g', h', e, answers⟩ := reached_replies y hy k r hr
  exact h.not_answered reached (begins.did answers.answered)

theorem awaits_stays (reached : Reached wall config x) (h : (x.sessionAt l).Awaits c)
    (hlm : l ≤ m) (hm : m ≤ x.history.length)
    (unfinished : ∀ j o, l ≤ j → j < m → ¬x.Did j (.finished c o)) :
    (x.sessionAt m).Awaits c := by
  refine reached_between (P := (Session.Awaits · c)) reached hlm hm h
    fun j entry hj hjm hentry y after hy _ hr heffects awaits => ?_
  obtain ⟨call, k, a, hc, hst⟩ := awaits
  by_cases turn : entry.action = .poll c
  · rw [turn] at hr
    cases hr with
    | poll hp =>
      obtain ⟨old, act, hold, hmoves, rfl⟩ := Session.poll_moves hp
      obtain rfl := Option.some.inj (hc.symm.trans hold)
      rw [hst] at hmoves
      obtain ⟨o, ho⟩ := hmoves.finishes
      exact absurd ⟨entry, hentry, heffects ▸ ho⟩ (unfinished j o hj hjm)
  · obtain ⟨kept, hkept, -, hstage⟩ := hr.stays (reached_numbered y hy) hc turn
    exact ⟨kept, k, a, hkept, hstage.trans hst⟩

theorem Begins.displaced (hx : Reached wall config x) (hy : Reached wall config y)
    (b : x.Begins y) (h : y.Displaced c k g n due) (hn : n < x.history.length) :
    x.Displaced c k g n due where
  asked := (b.asked hx hy (Nat.lt_trans (h.later hy) hn)).mp h.asked
  pending := by rw [← b.sessionAt (Nat.le_of_lt hn), h.pending]
  newer := h.newer.imp fun c' => Exists.imp fun k' => (b.did_iff hn).mp

/-- A call that waits with a displaced request can return what is known. -/
theorem Displaced.wakes (reached : Reached wall config x) (h : x.Displaced c k g n due)
    (hopen : x.Open g c) (awaits : x.session.Awaits c) :
    ∃ after, x.session.poll (x.moment wall) c = some after ∧
      .finished c (.response (Response.fallback x.session.inbound.lastReading)) ∈ after.2 := by
  obtain ⟨call, k', a, hc, hst⟩ := awaits
  obtain ⟨call', hc', hk, -⟩ := reached_asked x reached g c k due h.asked hopen
  obtain rfl := Option.some.inj (hc.symm.trans hc')
  rw [hst] at hk
  obtain rfl := Option.some.inj hk
  have hp := h.not_pending reached h.lt (Nat.le_refl _)
  have hr := h.no_reply reached (Nat.le_refl _)
  rw [sessionAt_length] at hp hr
  exact Session.poll_of_lost hc hst hr hp

/-- The clock stands still while a call waits with a displaced request. -/
theorem inTime_still : ∀ x, ReachedInTime wall config x → ∀ c k g n due l,
    x.Displaced c k g n due → x.Open g c → n ≤ l → l ≤ x.history.length →
    (x.sessionAt l).Awaits c → x.timeAt l = x.now := by
  refine inTime_induction ?_ fun x a y hx ih timely step => ?_
  · intro c k g n due l h
    exact absurd h.lt (Nat.not_lt_zero n)
  · have hx := reached_of_inTime hx
    have hy := reached_take? hx step
    obtain ⟨after, hr, grows⟩ := take?_grows step
    have begins := grows.begins
    have hnow := grows.now_eq
    intro c k g n due l h hopen hnl hl awaits
    rw [grows.length] at hl
    rcases Nat.lt_or_eq_of_le hl with hl | rfl
    · have hl := Nat.le_of_lt_succ hl
      rw [begins.timeAt hx hy hl]
      rw [begins.sessionAt hl] at awaits
      have hopen := begins.open hopen
      rcases Nat.lt_or_eq_of_le (Nat.le_trans hnl hl) with hn | rfl
      · have h := begins.displaced hx hy h hn
        rw [ih c k g n due l h hopen hnl hl awaits]
        cases a with
        | pass ms =>
          have awaits := awaits_stays hx awaits hl (Nat.le_refl _)
            fun j o hj _ => hopen j o (Nat.le_trans (Nat.le_of_lt (h.later hx)) (Nat.le_trans hnl hj))
          rw [sessionAt_length] at awaits
          obtain ⟨call, -, -, hc, -⟩ := id awaits
          obtain ⟨after, hp, -⟩ := h.wakes hx hopen awaits
          exact absurd (by rw [hp]; rfl) (idle_of_pass timely hc)
        | _ => exact hnow.symm
      · obtain rfl := Nat.le_antisymm hl hnl
        obtain ⟨c', k', hn⟩ := h.newer
        rcases grows.did_iff.mp hn with hn | ⟨-, hreg⟩
        · exact absurd (did_lt hn) (Nat.lt_irrefl _)
        · obtain ⟨rfl, -, -⟩ := hr.registered hreg
          rw [timeAt_length]
          exact hnow.symm
    · rw [← grows.length, timeAt_length]

/-- How a request that was displaced by entry `n` ends with entry `m`: the call waits for its
status and finds out, at the same time at which it waited for it first, or it is still at its
write, which fails or is cut off by the deadline. -/
inductive Lapses (x : Course) (c : CallId) (n m due : Nat) : Outcome → Prop
  | wakes : (x.sessionAt m).Awaits c →
      (∀ l, n ≤ l → l ≤ m → (x.sessionAt l).Awaits c → x.timeAt l = x.timeAt m) →
      Lapses x c n m due (.response (Response.fallback (x.sessionAt m).inbound.lastReading))
  | failed {call : Call} {w : Write} {f : Fault} : (x.sessionAt m).calls.get? c = some call →
      call.stage.write? = some w → Lapses x c n m due (.fault f)
  | late {call : Call} {w : Write} : (x.sessionAt m).calls.get? c = some call →
      call.stage.write? = some w → x.timeAt m = due →
      Lapses x c n m due (.response (Response.fallback (x.sessionAt m).inbound.lastReading))

theorem Lapses.of_awaits (h : x.Lapses c n m due o) (awaits : (x.sessionAt m).Awaits c) :
    o = .response (Response.fallback (x.sessionAt m).inbound.lastReading) ∧
      ∀ l, n ≤ l → l ≤ m → (x.sessionAt l).Awaits c → x.timeAt l = x.timeAt m := by
  obtain ⟨call', k, a, hc', hst⟩ := awaits
  have apart {call : Call} {w : Write} (hc : (x.sessionAt m).calls.get? c = some call)
      (hw : call.stage.write? = some w) : False := by
    obtain rfl := Option.some.inj (hc.symm.trans hc')
    rw [hst] at hw
    cases hw
  cases h with
  | wakes _ still => exact ⟨rfl, still⟩
  | failed hc hw => exact (apart hc hw).elim
  | late hc hw _ => exact (apart hc hw).elim

theorem Displaced.lt_finished (reached : Reached wall config x) (h : x.Displaced c k g n due)
    (hnm : n ≤ m) (hm : x.Did m (.finished c o)) : n < m := by
  refine Nat.lt_of_le_of_ne hnm ?_
  rintro rfl
  obtain ⟨c', k', hn⟩ := h.newer
  obtain ⟨y, a, after, -, -, -, hr, he, did, -⟩ := reached_did reached hm
  obtain ⟨-, -, turn, -⟩ := hr.finished he
  obtain rfl : c = c' := Action.poll.inj (turn.symm.trans (hr.registered ((did _).mp hn)).1)
  exact unfinished_of_registered reached hn o hm

theorem Displaced.lapses (reached : ReachedInTime wall config x) (h : x.Displaced c k g n due)
    (hnm : n < m) (hm : x.Did m (.finished c o))
    (first : ∀ j o', g ≤ j → j < m → ¬x.Did j (.finished c o')) : x.Lapses c n m due o := by
  have hx := reached_of_inTime reached
  have hlen := Nat.le_of_lt (did_lt hm)
  have hgm := Nat.le_trans (Nat.le_of_lt (h.later hx)) (Nat.le_of_lt hnm)
  obtain ⟨⟨plan, st, answer⟩, hc, hk, hdue, results⟩ := results_at hx h.asked hgm hm first
  obtain ⟨y, hy, begins, hylen⟩ := reached_prefix hx hlen
  have timely := begins.inTime hy reached
  have displaced := begins.displaced hy hx h (hylen ▸ hnm)
  have hopen : y.Open g c := fun j o' hj hd => first j o' hj (hylen ▸ did_lt hd) (begins.did hd)
  have noReply := h.no_reply hx hlen
  cases hw : st.write? with
  | none =>
    obtain ⟨a, hst⟩ := st.awaiting_of_token? hk hw
    have awaits : (x.sessionAt m).Awaits c := ⟨_, k, a, hc, hst⟩
    have still (l : Nat) (hnl : n ≤ l) (hlm : l ≤ m) (hl : (x.sessionAt l).Awaits c) :
        x.timeAt l = x.timeAt m := by
      subst hylen
      rw [begins.timeAt hy hx hlm, begins.timeAt hy hx (Nat.le_refl _), timeAt_length]
      rw [begins.sessionAt hlm] at hl
      exact inTime_still y timely c k g n due l displaced hopen hnl hlm hl
    cases results with
    | failed hw' => cases hw.symm.trans hw'
    | late hw' _ => cases hw.symm.trans hw'
    | answered hr => cases noReply.symm.trans hr
    | silent _ _ _ => exact .wakes awaits still
    | displaced _ _ => exact .wakes awaits still
  | some w =>
    cases results with
    | failed _ => exact .failed hc hw
    | late hw' rings =>
      refine .late hc hw (Nat.le_antisymm ?_ ?_)
      · subst hylen
        rw [begins.timeAt hy hx (Nat.le_refl _), timeAt_length]
        exact inTime_asked y timely g c k due displaced.asked hopen
      · rw [Stage.due?_of_write? hw'] at hdue
        obtain rfl := Option.some.inj hdue
        simpa [Alarm.rings] using rings
    | _ => cases hw

/-- A displaced request is lost. If its call waits for the status then, it has its result at that
same time, and that is what is known. If not, it has its result once its write fails, once its
write is over, at that time, or at the deadline. -/
theorem inTime_displaced (reached : ReachedInTime wall config x) (h : x.Displaced c k g n due) :
    (∀ m c', ¬x.Did m (.answered c' k)) ∧
    (∀ m, n < m → m ≤ x.history.length → (x.sessionAt m).inbound.pendingToken ≠ k) ∧
    (∀ m o, n ≤ m → x.Did m (.finished c o) →
      (∀ j o', g ≤ j → j < m → ¬x.Did j (.finished c o')) →
      x.Lapses c n m due o ∧
      ((x.sessionAt n).Awaits c → x.timeAt m = x.timeAt n ∧
        o = .response (Response.fallback (x.sessionAt m).inbound.lastReading)) ∧
      ∀ j frame limit, x.Invoked j c (.ask frame limit) → x.Did m (.returned c o)) ∧
    (x.Open g c → x.now ≤ due ∧
      ((x.sessionAt n).Awaits c → x.now = x.timeAt n) ∧
      (x.session.Awaits c → ∃ after, x.session.poll (x.moment wall) c = some after ∧
        .finished c (.response (Response.fallback x.session.inbound.lastReading)) ∈ after.2) ∧
      (¬x.session.Awaits c → ∃ call w, x.session.calls.get? c = some call ∧
        call.stage.write? = some w ∧ w.alarm.due = due)) := by
  have hx := reached_of_inTime reached
  have hgn := Nat.le_of_lt (h.later hx)
  refine ⟨fun m c' => h.not_answered hx, fun m => h.not_pending hx, fun m o hnm hm first => ?_,
    fun hopen => ⟨inTime_asked x reached g c k due h.asked hopen, fun awaits => ?_,
      h.wakes hx hopen, fun notAwaiting => ?_⟩⟩
  · have hlt := h.lt_finished hx hnm hm
    have lapses := h.lapses reached hlt hm first
    refine ⟨lapses, fun awaits => ?_, fun j frame limit hj => returned_of_finished hx hj rfl hm⟩
    have later := awaits_stays hx awaits hnm (Nat.le_of_lt (did_lt hm))
      fun j o' hj => first j o' (Nat.le_trans hgn hj)
    obtain ⟨known, still⟩ := lapses.of_awaits later
    exact ⟨(still n (Nat.le_refl n) hnm awaits).symm, known⟩
  · exact (inTime_still x reached c k g n due n h hopen (Nat.le_refl n) (Nat.le_of_lt h.lt)
      awaits).symm
  · obtain ⟨call, hc, hk, hdue⟩ := reached_asked x hx g c k due h.asked hopen
    cases hw : call.stage.write? with
    | none =>
      obtain ⟨a, hst⟩ := call.stage.awaiting_of_token? hk hw
      exact absurd ⟨call, k, a, hc, hst⟩ notAwaiting
    | some w =>
      rw [Stage.due?_of_write? hw] at hdue
      exact ⟨call, w, hc, hw, Option.some.inj hdue⟩

structure Overtakes (x : Course) (n m limit : Nat) : Prop where
  began : x.Did 13 (.began 1 (.ask [1] limit))
  registered : x.Did 13 (.registered 1 1)
  start : x.timeAt 13 = 0
  pending : (x.sessionAt n).inbound.pending = some ⟨1, 1⟩
  newer : x.Did n (.registered 2 2)
  finished : x.Did m (.finished 1 (.response .noData))
  first : (((x.history.take m).drop 13).flatMap Entry.effects).all
    fun e => !(e matches .finished 1 _)

instance (x : Course) (n m limit : Nat) : Decidable (x.Overtakes n m limit) :=
  decidable_of_iff (_ ∧ _ ∧ _ ∧ _ ∧ _ ∧ _ ∧ _)
    ⟨fun ⟨a, b, c, d, e, f, g⟩ => ⟨a, b, c, d, e, f, g⟩,
      fun ⟨a, b, c, d, e, f, g⟩ => ⟨a, b, c, d, e, f, g⟩⟩

variable {limit : Nat}

theorem Overtakes.displaced (h : x.Overtakes n m limit) : x.Displaced 1 1 13 n limit where
  asked := ⟨h.registered, [1], limit, h.began, by rw [h.start, Nat.zero_add]⟩
  pending := h.pending
  newer := ⟨2, 2, h.newer⟩

theorem Overtakes.unfinished (h : x.Overtakes n m limit) (j : Nat) (o : Outcome) (hj : 13 ≤ j)
    (hjm : j < m) : ¬x.Did j (.finished 1 o) := by
  intro hd
  have := List.all_eq_true.mp h.first _ (did_between hd hj hjm)
  simp at this

def overtakenWaiting : List Action :=
  opening ++ [.invoke 1 (.ask [1] 1000), .poll 1, .poll 1, .poll 1, .complete 1 none, .poll 1,
    .pass 5, .invoke 2 (.ask [2] 1000), .poll 2, .poll 2, .poll 1]

/-- The second request displaces the first one while that waits for its status. -/
theorem displaced_while_waiting :
    ∃ x, ReachedInTime noon oneAttempt x ∧ x.Displaced 1 1 13 20 1000 ∧
      x.Did 21 (.returned 1 (.response .noData)) ∧ x.timeAt 21 = x.timeAt 20 ∧
      x.timeAt 20 = 5 := by
  have h : ((start oneAttempt).runInTime? noon overtakenWaiting).any (fun x =>
      decide (x.Overtakes 20 21 1000 ∧ x.Invoked 11 1 (.ask [1] 1000) ∧ x.timeAt 20 = 5) &&
        ((x.sessionAt 20).calls.get? 1).any fun call =>
          call.stage.token? = some 1 ∧ call.stage.write? = none) = true := by
    decide +kernel
  obtain ⟨x, hx, h⟩ := (Option.any_eq_true _ _).mp h
  obtain ⟨h, hstage⟩ := Bool.and_eq_true_iff.mp h
  obtain ⟨overtakes, invoked, now⟩ := of_decide_eq_true h
  obtain ⟨call, hc, hstage⟩ := (Option.any_eq_true _ _).mp hstage
  obtain ⟨hk, hw⟩ := of_decide_eq_true hstage
  obtain ⟨a, hst⟩ := call.stage.awaiting_of_token? hk hw
  obtain ⟨-, -, ends, -⟩ := inTime_displaced ⟨overtakenWaiting, hx⟩ overtakes.displaced
  obtain ⟨-, atOnce, returns⟩ := ends 21 _ (by decide) overtakes.finished overtakes.unfinished
  exact ⟨x, ⟨overtakenWaiting, hx⟩, overtakes.displaced, returns 11 [1] 1000 invoked,
    (atOnce ⟨call, 1, a, hc, hst⟩).1, now⟩

/-- A call that is displaced at its write has no result before the deadline. -/
theorem displaced_while_writing :
    ∃ x, ReachedInTime noon oneAttempt x ∧ x.Invoked 11 1 (.ask [1] 10) ∧
      x.Displaced 1 1 13 17 10 ∧ x.Did 19 (.returned 1 (.response .noData)) ∧
      (∀ j o, 13 ≤ j → j < 19 → ¬x.Did j (.finished 1 o)) ∧
      x.timeAt 17 = 0 ∧ x.timeAt 19 = 10 := by
  have h : ((start oneAttempt).runInTime? noon overtaken).any (fun x =>
      decide (x.Overtakes 17 19 10 ∧ x.Invoked 11 1 (.ask [1] 10) ∧
        x.Did 19 (.returned 1 (.response .noData)) ∧ x.timeAt 17 = 0 ∧ x.timeAt 19 = 10)) = true := by
    decide +kernel
  obtain ⟨x, hx, h⟩ := (Option.any_eq_true _ _).mp h
  obtain ⟨overtakes, invoked, returned, before, late⟩ := of_decide_eq_true h
  exact ⟨x, ⟨overtaken, hx⟩, invoked, overtakes.displaced, returned, overtakes.unfinished, before,
    late⟩

end Course

end HeaterLink
