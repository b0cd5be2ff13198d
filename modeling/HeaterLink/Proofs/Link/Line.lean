import HeaterLink.Proofs.Link.Agreement
import HeaterLink.Proofs.Requests.Tokens

/-!
# The line for the link

The call that holds the link and those that wait for it stand in one line. A
call joins it at the end; the first one leaves it with the link, and a write
also leaves it when its time is over. Everything that a turn does to the line
and to what is known of earlier sequences is said once. Whoever is in line
has or wants the link, and nobody else has or wants it.
-/

set_option autoImplicit false

namespace HeaterLink

namespace LinkQueue

def line (q : LinkQueue) : List CallId := q.holder.toList ++ q.waiting

def ahead (q : LinkQueue) (c : CallId) : List CallId := q.line.takeWhile (· ≠ c)

def Served (q : LinkQueue) : Prop := q.holder = none → q.waiting = []

variable {q : LinkQueue} {c c' : CallId}

theorem line_of_holder (h : q.holder = some c) : q.line = c :: q.waiting := by
  simp [line, h]

theorem line_join (h : q.Served) (c : CallId) : (q.join c).line = q.line ++ [c] := by
  cases hq : q.holder with
  | none => simp [line, join, hq, h hq]
  | some d => simp [line, join, hq]

theorem line_release (h : q.Served) : q.release.line = q.line.tail := by
  cases hq : q.holder with
  | none => simp [line, release, idle, hq, h hq]
  | some d => cases hw : q.waiting <;> simp [line, release, idle, hq, hw]

theorem line_leave (h : q.holder ≠ some c) : (q.leave c).line = q.line.filter (· ≠ c) := by
  cases hq : q.holder with
  | none => simp [line, leave, hq]
  | some d =>
    have hd : d ≠ c := fun e => h (by rw [hq, e])
    simp [line, leave, hq, hd]

theorem served_join (c : CallId) : (q.join c).Served := by
  cases hq : q.holder with
  | none => simp [Served, join, hq]
  | some d => simp [Served, join, hq]

theorem served_release : q.release.Served := by
  cases hw : q.waiting <;> simp [Served, release, idle, hw]

theorem served_leave (h : q.Served) (c : CallId) : (q.leave c).Served := by
  intro hq
  simp [leave, h hq]

theorem mem_line_of_waiting (h : c ∈ q.waiting) : c ∈ q.line := List.mem_append_right _ h

theorem mem_line_of_ahead (h : c' ∈ q.ahead c) : c' ∈ q.line :=
  (List.takeWhile_sublist _).subset h

theorem holder_mem_ahead (h : q.holder = some c') (hne : c' ≠ c) : c' ∈ q.ahead c := by
  simp [ahead, line_of_holder h, hne]

theorem ahead_join (h : q.Served) (hc : c ∈ q.line) (c' : CallId) :
    (q.join c').ahead c = q.ahead c := by
  rw [ahead, ahead, line_join h]
  generalize q.line = l at hc
  induction l with
  | nil => cases hc
  | cons d rest ih =>
    by_cases e : d = c
    · simp [e]
    · have hrest : c ∈ rest := (List.mem_cons.mp hc).resolve_left (Ne.symm e)
      simpa [e] using ih hrest

/-- Nobody gets ahead because another one leaves. -/
theorem mem_ahead_of_leave (hq : q.holder ≠ some c') (hne : c' ≠ c) {d : CallId}
    (h : d ∈ (q.leave c').ahead c) : d ∈ q.ahead c ∧ d ≠ c' := by
  rw [ahead, line_leave hq] at h
  rw [ahead]
  generalize q.line = l at h ⊢
  induction l with
  | nil => cases h
  | cons b rest ih =>
    by_cases e : b = c
    · simp [e, Ne.symm hne] at h
    · by_cases e' : b = c'
      · simp_all
      · simp only [List.filter_cons, decide_not, e', decide_false, Bool.not_false, if_true,
          List.takeWhile_cons, e, List.mem_cons] at h ih ⊢
        rcases h with rfl | h
        · exact ⟨.inl rfl, e'⟩
        · exact ⟨.inr (ih h).1, (ih h).2⟩

theorem ahead_release (h : q.Served) (hc : q.holder ≠ some c) :
    q.release.ahead c = (q.ahead c).tail := by
  rw [ahead, ahead, line_release h]
  cases hq : q.holder with
  | none => simp [line, hq, h hq]
  | some d =>
    have hd : d ≠ c := fun e => hc (by rw [hq, e])
    simp [line_of_holder hq, hd]

end LinkQueue

def Stage.lined : Stage → Bool
  | .queued _ => true
  | st => st.holds

theorem Stage.lined_of_holds {st : Stage} (h : st.holds) : st.lined := by
  cases st <;> simp_all [Stage.lined, Stage.holds, Stage.underway]

theorem Stage.lined_of_aim? {st : Stage} {next : Release} (h : st.aim? = some next) : st.lined := by
  cases st <;> simp_all [Stage.lined, Stage.aim?, Stage.holds, Stage.underway]

theorem Stage.underway_of_aim? {st : Stage} {next : Release} (h : st.aim? = some next) :
    st.underway ∨ ∃ use, st = .queued use := by
  cases st <;> simp_all [Stage.aim?, Stage.underway]

def Session.InLine (s : Session) (c : CallId) : Prop :=
  ∃ call, s.calls.get? c = some call ∧ call.stage.lined

namespace Act.Turn

open Session

structure Apart (t : Turn) (s : Session) (queue : LinkQueue) (after : Session × List Effect) :
    Prop where
  queue : after.1.queue = queue
  gone : ¬after.1.InLine t.call
  lastFailure : after.1.lastFailure = s.lastFailure
  sequences : after.1.sequences = s.sequences
  unsettled : ∀ d failure, .settled d failure ∉ after.2

structure GoesOn (t : Turn) (s : Session) (next : Release) (stage : Stage)
    (after : Session × List Effect) : Prop where
  underway : stage.underway
  aim : stage.aim? = some next
  get : after.1.calls.get? t.call = some ⟨t.plan, stage, none⟩
  queue : after.1.queue = s.queue
  lastFailure : after.1.lastFailure = s.lastFailure
  sequences : after.1.sequences = s.sequences
  unsettled : ∀ d failure, .settled d failure ∉ after.2
  unfinished : ∀ o, .finished t.call o ∉ after.2

structure Settles (t : Turn) (s : Session) (failure : Option Fault)
    (after : Session × List Effect) : Prop where
  queue : after.1.queue = s.queue.release
  gone : ¬after.1.InLine t.call
  lastFailure : after.1.lastFailure = failure
  sequences : after.1.sequences = s.sequences + 1
  settled : ∀ d r, .settled d r ∈ after.2 ↔ d = t.call ∧ r = failure
  finished : .finished t.call (.ofFault failure) ∈ after.2

structure Rests (t : Turn) (s : Session) (after : Session × List Effect) : Prop where
  queue : after.1.queue = s.queue.release
  gone : ¬after.1.InLine t.call
  lastFailure : after.1.lastFailure = none
  sequences : after.1.sequences = s.sequences
  unsettled : ∀ d failure, .settled d failure ∉ after.2

inductive Locks (t : Turn) (s : Session) : Stage → Session × List Effect → Prop
  | aside {st : Stage} {after : Session × List Effect} : ¬st.lined → Apart t s s.queue after →
      Locks t s st after
  | joins {operation : Operation} : Locks t s (.ready operation) (t.begin operation s)
  | leaves {w : Write} {after : Session × List Effect} : s.queue.holder ≠ some t.call →
      Apart t s (s.queue.leave t.call) after → Locks t s (.queued (.write w)) after
  | hands {w : Write} {handle : Handle} : s.queue.holder = some t.call →
      Locks t s (.queued (.write w))
        (all [t.request (.write handle w.frame), t.goto (.writing w)] s)
  | frees {st : Stage} {w : Write} {after : Session × List Effect} : st.write? = some w →
      s.queue.holder = some t.call → Apart t s s.queue.release after → Locks t s st after
  | shares {seen : Nat} {f : Fault} : s.queue.holder = some t.call → s.lastFailure = some f →
      s.sequences ≠ seen →
      Locks t s (.queued (.connect seen)) (all [releaseLink, t.finish (.fault f)] s)
  | goes {st stage : Stage} {next : Release} {after : Session × List Effect} :
      st.aim? = some next → s.queue.holder = some t.call → GoesOn t s next stage after →
      Locks t s st after
  | settles {st : Stage} {failure : Option Fault} {after : Session × List Effect} :
      st.aim? = some .reconnect → s.queue.holder = some t.call → Settles t s failure after →
      Locks t s st after
  | rests {st : Stage} {after : Session × List Effect} :
      st.aim? = some .rest → s.queue.holder = some t.call → Rests t s after → Locks t s st after

variable {t : Turn} {s : Session} {st : Stage}

theorem follow_gone (v : Verdict) (s : Session) : ¬(t.follow v s).1.InLine t.call := by
  rintro ⟨call, hc, hl⟩
  rw [follow_get?, if_pos rfl] at hc
  obtain ⟨operation, e⟩ := stage_of_call? hc
  rw [e] at hl
  cases hl

theorem finish_gone (o : Outcome) (s : Session) : ¬(t.finish o s).1.InLine t.call := by
  rw [finish_fst]
  exact follow_gone _ s

theorem follow_unsettled {v : Verdict} {d : CallId} {failure : Option Fault} :
    .settled d failure ∉ (t.follow v s).2 := by
  intro h
  obtain ⟨o, e⟩ := mem_follow h
  cases e

theorem finish_unsettled {o : Outcome} {d : CallId} {failure : Option Fault} :
    .settled d failure ∉ (t.finish o s).2 := by
  rw [finish_snd, List.mem_cons]
  rintro (e | h)
  · cases e
  · exact follow_unsettled h

theorem finish_apart (s₁ : Session) (first : List Effect) (o : Outcome)
    (lastFailure : s₁.lastFailure = s.lastFailure)
    (sequences : s₁.sequences = s.sequences) (unsettled : ∀ d failure, .settled d failure ∉ first) :
    Apart t s s₁.queue ((t.finish o s₁).1, first ++ (t.finish o s₁).2) where
  queue := by rw [finish_fst, follow_fst]
  gone := finish_gone o s₁
  lastFailure := by rw [finish_fst, follow_fst, ← lastFailure]
  sequences := by rw [finish_fst, follow_fst, ← sequences]
  unsettled := by
    intro d failure h
    rcases List.mem_append.mp h with h | h
    · exact unsettled d failure h
    · exact finish_unsettled h

theorem releaseLink_unsettled (s : Session) (d : CallId) (failure : Option Fault) :
    .settled d failure ∉ (releaseLink s).2 := by
  intro h
  obtain ⟨c, e⟩ := mem_releaseLink h
  cases e

/-- A call that takes over a failure gives the link away. -/
theorem share_apart (f : Fault) (s : Session) :
    Apart t s s.queue.release (all [releaseLink, t.finish (.fault f)] s) := by
  simp only [all_cons, all_nil, releaseLink_fst, List.append_nil]
  exact finish_apart { s with queue := s.queue.release } _ _ rfl rfl (releaseLink_unsettled s)

theorem expired_apart (s₁ : Session) (first : List Effect) (w : Write)
    (lastFailure : s₁.lastFailure = s.lastFailure)
    (sequences : s₁.sequences = s.sequences) (unsettled : ∀ d failure, .settled d failure ∉ first) :
    Apart t s s₁.queue ((t.expired w s₁).1, first ++ (t.expired w s₁).2) := by
  rw [expired]
  cases w.token with
  | none => exact finish_apart s₁ first _ lastFailure sequences unsettled
  | some k =>
    simp only [all_cons, all_nil, withdraw_apply, List.nil_append, List.append_nil]
    exact finish_apart { s₁ with inbound := s₁.inbound.withdraw k } first _ lastFailure sequences
      unsettled

theorem written_apart (w : Write) (fault : Option Fault) (s : Session) :
    Apart t s s.queue.release (t.written w fault s) := by
  have unsettled := releaseLink_unsettled s
  simp only [written, all_cons, all_nil, releaseLink_fst, List.append_nil]
  cases w.token with
  | none => exact finish_apart { s with queue := s.queue.release } _ _ rfl rfl unsettled
  | some k =>
    cases fault with
    | some f =>
      simp only [all_cons, all_nil, withdraw_apply, List.nil_append, List.append_nil]
      exact finish_apart { s with
        queue := s.queue.release
        inbound := s.inbound.withdraw k } _ _ rfl rfl unsettled
    | none =>
      refine ⟨rfl, ?_, rfl, rfl, ?_⟩
      · rintro ⟨call, hc, hl⟩
        rw [goto_get?, if_pos rfl] at hc
        obtain rfl := Option.some.inj hc
        cases hl
      · simpa [goto] using unsettled

/-- A turn for an aim keeps the link, or gives it away with its finale. -/
theorem Pursued.locks {next : Release} {after : Session × List Effect} (h : Pursued t next s after)
    (aim : st.aim? = some next) (holder : s.queue.holder = some t.call) : Locks t s st after := by
  obtain ⟨s₁, effects, finale, hw, hof, rfl⟩ := h
  cases hof with
  | @goto stage _ hu haim =>
    refine .goes aim holder ⟨hu, haim, ?_, hw.queue, hw.lastFailure, hw.sequences, ?_, ?_⟩
    · exact (goto_get? _ _ _ _).trans (if_pos rfl)
    · simpa [Finale.act, goto] using hw.unsettled
    · intro o ho
      have ho : .finished t.call o ∈ effects := by simpa [Finale.act, goto] using ho
      exact hw.plain _ ho
  | @settle failure =>
    simp only [Finale.act, endSequence, all_cons, all_nil, change_apply, tell_apply,
      releaseLink_fst, List.append_nil, List.nil_append, List.singleton_append]
    refine @Locks.settles t s st failure _ aim holder ⟨?_, finish_gone _ _, ?_, ?_, ?_, ?_⟩
    · rw [finish_fst, follow_fst, ← hw.queue]
    · rw [finish_fst, follow_fst]
    · rw [finish_fst, follow_fst, ← hw.sequences]
    · intro d r
      simp [hw.unsettled, releaseLink_unsettled, finish_unsettled]
    · simp [finish_snd]
  | rest =>
    simp only [Finale.act, leaveAtRest, all_cons, all_nil, change_apply, releaseLink_fst,
      List.append_nil, List.nil_append]
    refine .rests aim holder ⟨?_, finish_gone _ _, ?_, ?_, ?_⟩
    · rw [finish_fst, follow_fst, ← hw.queue]
    · rw [finish_fst, follow_fst]
    · rw [finish_fst, follow_fst, ← hw.sequences]
    · intro d r
      simp [hw.unsettled, releaseLink_unsettled, finish_unsettled]

/-- Whatever a call does next, this is what becomes of the line. -/
theorem Moves.locks {answer : Option RadioAnswer} {a : Act} (step : Moves t s answer st a)
    (holder : st.holds → s.queue.holder = some t.call) : Locks t s st (a s) := by
  cases aim : st.aim? with
  | some next =>
    rcases step.pursues aim with h | ⟨seen, f, rfl, hh, hf, hs, h⟩
    · refine Pursued.locks h aim ?_
      rcases Stage.underway_of_aim? aim with hu | ⟨use, rfl⟩
      · exact holder (Stage.holds_of_underway hu)
      · cases step with
        | proceeds hh => exact hh
        | leaves _ _ => cases aim
    · exact h ▸ .shares hh hf hs
  | none =>
  cases step with
  | @opens _ r =>
    refine .aside (by simp [Stage.lined, Stage.holds, Stage.underway])
      ⟨?_, follow_gone _ s, ?_, ?_, fun _ _ => follow_unsettled⟩
    · rw [follow_fst]
    · rw [follow_fst]
    · rw [follow_fst]
  | begins => exact .joins
  | @proceeds _ use hh =>
    cases use with
    | write w =>
      simp only [proceed, write, choose_apply]
      cases s.held with
      | none => exact .frees rfl hh (written_apart w _ s)
      | some held =>
        by_cases hu : held.up
        · simp only [hu, if_true]
          exact .hands hh
        · simp only [hu]
          exact .frees rfl hh (written_apart w _ s)
    | _ => cases aim
  | @leaves _ w hh _ =>
    simp only [all_cons, all_nil, change_apply, List.append_nil]
    exact .leaves hh
      (expired_apart { s with queue := s.queue.leave t.call } [] w rfl rfl (by simp))
  | @written w fault => exact .frees rfl (holder rfl) (written_apart w fault s)
  | @writeLate _ w _ =>
    simp only [all_cons, all_nil, tell_apply, releaseLink_fst, List.append_nil]
    rw [← List.append_assoc]
    refine .frees rfl (holder rfl)
      (expired_apart { s with queue := s.queue.release } _ w rfl rfl ?_)
    simpa using releaseLink_unsettled s
  | @answered _ k _ r _ =>
    simp only [all_cons, all_nil, withdraw_apply, List.append_nil]
    exact .aside (by simp [Stage.lined, Stage.holds, Stage.underway])
      (finish_apart { s with inbound := s.inbound.withdraw k } [] _ rfl rfl (by simp))
  | @silent _ k _ _ _ _ =>
    simp only [all_cons, all_nil, withdraw_apply, fallBack, choose_apply, List.append_nil]
    exact .aside (by simp [Stage.lined, Stage.holds, Stage.underway])
      (finish_apart { s with inbound := s.inbound.withdraw k } [] _ rfl rfl (by simp))
  | displaced _ _ =>
    exact .aside (by simp [Stage.lined, Stage.holds, Stage.underway])
      (finish_apart s [] _ rfl rfl (by simp))
  | _ => cases aim

theorem begin_inLine (operation : Operation) : (t.begin operation s).1.InLine t.call :=
  ⟨_, begin_get? operation, rfl⟩

theorem begin_unsettled {operation : Operation} (d : CallId) (failure : Option Fault) :
    .settled d failure ∉ (t.begin operation s).2 := by
  intro h
  rcases mem_begin h with e | e | ⟨old, e⟩ <;> cases e

end Act.Turn

namespace Session

variable {s s' : Session} {c c' : CallId}

inductive Shifts (s : Session) (c : CallId) (s' : Session) : Prop
  | stays : s'.queue = s.queue → (s'.InLine c ↔ s.InLine c) → Shifts s c s'
  | joins : s'.queue = s.queue.join c → ¬s.InLine c → s'.InLine c → Shifts s c s'
  | leaves : s'.queue = s.queue.leave c → s.queue.holder ≠ some c → ¬s'.InLine c → Shifts s c s'
  | releases : s'.queue = s.queue.release → s.queue.holder = some c → ¬s'.InLine c → Shifts s c s'

structure Lined (s : Session) : Prop where
  served : s.queue.Served
  nodup : s.queue.line.Nodup
  mem : ∀ c, c ∈ s.queue.line ↔ s.InLine c

theorem Lined.holder_not_waiting (h : s.Lined) (hc : c ∈ s.queue.waiting) :
    s.queue.holder ≠ some c := by
  intro e
  have := h.nodup
  rw [LinkQueue.line_of_holder e] at this
  exact (List.nodup_cons.mp this).1 hc

theorem Lined.waiting_of_inLine (h : s.Lined) (hc : s.InLine c) (hn : s.queue.holder ≠ some c) :
    c ∈ s.queue.waiting := by
  rcases List.mem_append.mp ((h.mem c).mpr hc) with hh | hw
  · exact absurd (Option.mem_toList.mp hh) hn
  · exact hw

/-- While somebody is in line the link is not free. -/
theorem Lined.held (h : s.Lined) (hc : s.InLine c) : ∃ d, s.queue.holder = some d := by
  cases hq : s.queue.holder with
  | some d => exact ⟨d, rfl⟩
  | none =>
    have := (h.mem c).mpr hc
    simp [LinkQueue.line, hq, h.served hq] at this

theorem Shifts.lined (h : s.Lined) (shift : s.Shifts c s')
    (others : ∀ c', c' ≠ c → (s'.InLine c' ↔ s.InLine c')) : s'.Lined := by
  have other (c' : CallId) (hne : c' ≠ c) : c' ∈ s.queue.line ↔ s'.InLine c' :=
    (h.mem c').trans (others c' hne).symm
  cases shift with
  | stays queue same =>
    refine ⟨queue ▸ h.served, queue ▸ h.nodup, fun c' => ?_⟩
    rw [queue]
    by_cases e : c' = c
    · exact e ▸ (h.mem c).trans same.symm
    · exact other c' e
  | joins queue out joined =>
    have hout : c ∉ s.queue.line := fun hc => out ((h.mem c).mp hc)
    refine ⟨queue ▸ LinkQueue.served_join c, ?_, fun c' => ?_⟩
    · rw [queue, LinkQueue.line_join h.served]
      refine List.nodup_append.mpr ⟨h.nodup, by simp, fun a ha b hb e => hout ?_⟩
      exact List.mem_singleton.mp hb ▸ e ▸ ha
    · rw [queue, LinkQueue.line_join h.served, List.mem_append, List.mem_singleton]
      by_cases e : c' = c
      · simp [e, joined]
      · simp [e, other c' e]
  | leaves queue waits gone =>
    refine ⟨queue ▸ LinkQueue.served_leave h.served c, ?_, fun c' => ?_⟩
    · rw [queue, LinkQueue.line_leave waits]
      exact h.nodup.filter _
    · rw [queue, LinkQueue.line_leave waits, List.mem_filter]
      by_cases e : c' = c
      · simp [e, gone]
      · simp [e, other c' e]
  | releases queue holder gone =>
    have line := LinkQueue.line_of_holder holder
    have nodup := List.nodup_cons.mp (line ▸ h.nodup)
    refine ⟨queue ▸ LinkQueue.served_release, ?_, fun c' => ?_⟩
    · rw [queue, LinkQueue.line_release h.served, line]
      exact nodup.2
    · rw [queue, LinkQueue.line_release h.served, line, List.tail_cons]
      by_cases e : c' = c
      · simp [e, gone, nodup.1]
      · rw [← other c' e, line, List.mem_cons]
        simp [e]

/-- Nobody gets ahead of a call that is in line. -/
theorem Shifts.ahead (h : s.Lined) (shift : s.Shifts c' s') (hc : s.InLine c) (hne : c' ≠ c)
    {d : CallId} (hd : d ∈ s'.queue.ahead c) : d ∈ s.queue.ahead c := by
  cases shift with
  | stays queue same => exact queue ▸ hd
  | joins queue out joined =>
    rw [queue, LinkQueue.ahead_join h.served ((h.mem c).mpr hc)] at hd
    exact hd
  | leaves queue waits gone =>
    rw [queue] at hd
    exact (LinkQueue.mem_ahead_of_leave waits hne hd).1
  | releases queue holder gone =>
    rw [queue, LinkQueue.ahead_release h.served (by simpa [holder] using hne)] at hd
    exact List.mem_of_mem_tail hd

end Session

namespace Act.Turn

open Session

variable {t : Turn} {s : Session} {st : Stage} {after : Session × List Effect} {call : Call}

theorem Locks.shifts (lock : Locks t s call.stage after)
    (hc : s.calls.get? t.call = some call) : s.Shifts t.call after.1 := by
  have inLine (hl : call.stage.lined) : s.InLine t.call := ⟨call, hc, hl⟩
  generalize hst : call.stage = st at lock
  cases lock with
  | aside out apart =>
    refine .stays apart.queue (iff_of_false apart.gone ?_)
    rintro ⟨call', hc', hl⟩
    rw [hc] at hc'
    exact out (hst ▸ Option.some.inj hc' ▸ hl)
  | @joins operation =>
    refine .joins (begin_queue t s operation) ?_ (begin_inLine operation)
    rintro ⟨call', hc', hl⟩
    rw [hc] at hc'
    obtain rfl := Option.some.inj hc'
    rw [hst] at hl
    cases hl
  | leaves waits apart => exact .leaves apart.queue waits apart.gone
  | hands holder =>
    exact .stays rfl (iff_of_true ⟨_, writes_get? t _ _ s, rfl⟩ (inLine (hst ▸ rfl)))
  | frees _ holder apart => exact .releases apart.queue holder apart.gone
  | @shares _ f holder _ _ => exact .releases (share_apart f s).queue holder (share_apart f s).gone
  | goes aim _ h =>
    exact .stays h.queue (iff_of_true
      ⟨_, h.get, Stage.lined_of_holds (Stage.holds_of_underway h.underway)⟩
      (inLine (hst ▸ Stage.lined_of_aim? aim)))
  | settles _ holder h => exact .releases h.queue holder h.gone
  | rests _ holder h => exact .releases h.queue holder h.gone

end Act.Turn

namespace Course

variable {wall : Nat → Clock} {config : Config} {x y : Course} {a : Action} {c : CallId}
  {after : Session × List Effect}

theorem Reacts.inLine_iff (h : x.Reacts wall a after) (known : x.Numbered) (other : a ≠ .poll c) :
    after.1.InLine c ↔ x.session.InLine c := by
  constructor
  · rintro ⟨call, hc, hl⟩
    rcases h.call hc with ⟨old, hold, -, hstage, -⟩ | ⟨-, -, turn, -⟩ | ⟨r, -, rfl⟩
    · exact ⟨old, hold, hstage ▸ hl⟩
    · exact absurd turn other
    · cases hl
  · rintro ⟨call, hc, hl⟩
    obtain ⟨kept, hkept, -, hstage⟩ := h.stays known hc other
    exact ⟨kept, hkept, hstage ▸ hl⟩

/-- What is not the turn of a call leaves the line and what is known of sequences as they are. -/
theorem Reacts.outside (h : x.Reacts wall a after) (other : ∀ c, a ≠ .poll c) :
    after.1.queue = x.session.queue ∧ after.1.lastFailure = x.session.lastFailure ∧
      after.1.sequences = x.session.sequences ∧ ∀ d failure, .settled d failure ∉ after.2 := by
  cases h with
  | @poll c _ _ => exact absurd rfl (other c)
  | listen hl =>
    refine ⟨?_, ?_, ?_, fun d failure he => ?_⟩
    · cases hl <;> rfl
    · cases hl <;> rfl
    · cases hl <;> rfl
    · cases (hl.mem he).1
  | _ => exact ⟨rfl, rfl, rfl, fun _ _ he => by cases he⟩

/-- The turn of a call and what it does to the line. -/
theorem locks_of_poll (reached : Reached wall config x)
    (hp : x.session.poll (x.moment wall) c = some after) :
    ∃ call, x.session.calls.get? c = some call ∧
      Act.Turn.Locks ⟨x.moment wall, c, call.plan⟩ x.session call.stage after := by
  obtain ⟨call, act, hc, hm, rfl⟩ := Session.poll_moves hp
  exact ⟨call, hc, hm.locks fun hh => (reached_agrees reached).exclusive c call hc hh⟩

theorem lined_new (config : Config) : (Session.new config).Lined where
  served := fun _ => rfl
  nodup := List.nodup_nil
  mem := by
    intro c
    refine iff_of_false List.not_mem_nil ?_
    rintro ⟨call, hc, -⟩
    cases hc

theorem Reacts.lined (reached : Reached wall config x) (lined : x.session.Lined)
    (h : x.Reacts wall a after) : after.1.Lined := by
  have known := reached_numbered x reached
  rcases h.turn with ⟨c, rfl, hp⟩ | other
  · obtain ⟨call, hc, lock⟩ := locks_of_poll reached hp
    exact (lock.shifts hc).lined lined fun c' hne =>
      h.inLine_iff known (by simpa using Ne.symm hne)
  · obtain ⟨queue, -, -, -⟩ := h.outside other
    refine ⟨queue ▸ lined.served, queue ▸ lined.nodup, fun c => ?_⟩
    rw [queue, lined.mem, h.inLine_iff known (other c)]

theorem reached_lined : ∀ x, Reached wall config x → x.session.Lined := by
  refine reached_induction (lined_new config) fun x a y hx ih step => ?_
  obtain ⟨after, hr, rfl⟩ := take?_reacts step
  exact hr.lined hx ih

end Course

end HeaterLink
