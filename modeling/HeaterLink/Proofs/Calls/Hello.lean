import HeaterLink.Proofs.Calls.Greeting

/-!
# Hellos before commands

The frame of a command goes out behind the response to a hello of the same
call. That response comes behind the success of the hello's write, or at the
deadline with the hello still to be written. In the second case the frame goes
out although no hello did. A fault on the way to the response ends the call.
-/

set_option autoImplicit false

namespace HeaterLink

namespace Course

variable {wall : Nat → Clock} {config : Config} {x y : Course} {a : Action}
  {after : Session × List Effect} {c : CallId} {r : Request} {call : Call} {command : Command}
  {handle : Handle} {hello : Bytes} {j g e m n : Nat} {o : Outcome}

structure Unwritten (config : Config) (x : Course) (c : CallId) (frame : Bytes) (g e : Nat) :
    Prop where
  write : ∃ call w, (x.sessionAt e).calls.get? c = some call ∧ call.stage.write? = some w ∧
    w.frame = frame
  late : x.timeAt g + config.responseLimit ≤ x.timeAt e

/-- Entry `g` began the hello of a call and entry `e` gave the call the response to it: the hello
was written by then, or its time was over. -/
structure Greeted (config : Config) (x : Course) (c : CallId) (frame : Bytes) (g e : Nat) :
    Prop where
  hello : ∃ clock, frame = (Command.hello clock).frame
  began : x.Did g (.began c (.ask frame config.responseLimit))
  order : g < e
  response : ∃ response, x.Did e (.finished c (.response response))
  first : ∀ m o, g ≤ m → m < e → ¬x.Did m (.finished c o)
  written : (∃ h s, g < h ∧ s < e ∧ x.Wrote c frame h s) ∨ x.Unwritten config c frame g e

theorem Begins.greeted (hx : Reached wall config x) (hy : Reached wall config y) (b : x.Begins y)
    (h : x.Greeted config c hello g e) : y.Greeted config c hello g e := by
  obtain ⟨response, hresponse⟩ := h.response
  have hlt := Nat.le_of_lt (did_lt hresponse)
  refine ⟨h.hello, b.did h.began, h.order, ⟨response, b.did hresponse⟩, fun m o hm hme hd => ?_, ?_⟩
  · exact h.first m o hm hme ((b.did_iff (Nat.lt_of_lt_of_le hme hlt)).mp hd)
  · rcases h.written with ⟨h', s, hh, hs, wrote⟩ | ⟨write, late⟩
    · exact .inl ⟨h', s, hh, hs, b.wrote wrote⟩
    · refine .inr ⟨by rwa [b.sessionAt hlt], ?_⟩
      rw [b.timeAt hx hy hlt, b.timeAt hx hy (Nat.le_trans (Nat.le_of_lt h.order) hlt)]
      exact late

theorem reached_greets (reached : Reached wall config x) (hj : x.Invoked j c r)
    (composed : r.operation? = none) (hc : x.session.calls.get? c = some call) :
    Greets config call.plan call.stage :=
  reached_call (.opening composed) (fun settings advances greets hc =>
    settings ▸ advances.greets (settings.symm ▸ greets) hc) x reached j c call hj hc

theorem hello_of_use (reached : Reached wall config x) (hj : x.Invoked j c r)
    (composed : r.operation? = none) (hc : x.session.calls.get? c = some call)
    (begun : call.stage.begun) {p : Purpose} (use : call.plan = .use p) :
    ∃ g clock, x.Did g (.began c (.ask (Command.hello clock).frame config.responseLimit)) ∧
      x.Open g c := by
  obtain ⟨g, operation, hg, hopen⟩ := reached_begun x reached c call hc begun
  obtain ⟨call', engaged⟩ := reached_engaged x reached g c operation hg hopen
  obtain rfl := Option.some.inj (hc.symm.trans engaged.get)
  obtain ⟨old, hold, hst, hplan⟩ := engaged.plan
  obtain ⟨z, hz, begins, rfl⟩ := reached_prefix reached (Nat.le_of_lt (did_lt hg))
  rw [begins.session] at hold
  have greets := reached_greets hz (begins.invoked_of_known hz reached hj hold) composed hold
  rw [hst, hplan, use] at greets
  cases greets with
  | @hello _ _ clock hon =>
    obtain rfl := hon.of_ready
    exact ⟨_, clock, hg, hopen⟩

theorem greeted_of_response (hx : Reached wall config x) (hy : Reached wall config y)
    (grows : x.Grows (.poll c) after y) (hj : x.Invoked j c r) (composed : r.operation? = none)
    (hp : x.session.poll (x.moment wall) c = some after)
    (hc : x.session.calls.get? c = some call) (begun : call.stage.begun) {p : Purpose}
    (use : call.plan = .use p) {response : Response}
    (finished : .finished c (.response response) ∈ after.2) :
    ∃ hello g, y.Greeted config c hello g x.history.length := by
  have b := grows.begins
  obtain ⟨g, clock, hg, hopen⟩ := hello_of_use hx hj composed hc begun use
  have hlt := did_lt hg
  obtain ⟨call', engaged⟩ := reached_engaged x hx g c _ hg hopen
  obtain rfl := Option.some.inj (hc.symm.trans engaged.get)
  refine ⟨_, g, ⟨clock, rfl⟩, b.did hg, hlt, ⟨response, grows.did finished⟩,
    fun m o hm hlast hd => hopen m o hm ((b.did_iff hlast).mp hd), ?_⟩
  -- Who waits for the status has the success of the write behind it.
  have written {k : Token} {alarm : Alarm} (hst : call.stage = .awaiting k alarm) :
      ∃ h s, g < h ∧ s < x.history.length ∧ y.Wrote c (Command.hello clock).frame h s := by
    obtain ⟨frame, limit, h, s, e, hh, wrote⟩ :=
      (reached_progress x hx g c _ call hg hopen hc).awaiting k alarm hst
    obtain ⟨rfl, -⟩ := Operation.ask.inj e
    exact ⟨h, s, hh, wrote_lt wrote, b.wrote wrote⟩
  obtain ⟨old, act, hold, hm, rfl⟩ := Session.poll_moves hp
  obtain rfl := Option.some.inj (hc.symm.trans hold)
  obtain ⟨k, hk⟩ := engaged.worksOn.token?
  cases hm.asks hk with
  | goes _ _ _ _ unfinished => exact absurd finished (unfinished _)
  | ends results iff _ =>
    obtain rfl := (iff _).mp finished
    generalize hst : call.stage = st at results
    cases results with
    -- The alarm finds the call at its write, or still in line with it.
    | @late _ w hw rings =>
      refine .inr ⟨⟨call, w, ?_, hst ▸ hw, (engaged.worksOn.frame_eq (hst ▸ hw)).1⟩, ?_⟩
      · rw [b.session, hc]
      · have due := Option.some.inj
          ((engaged.due _ rfl).symm.trans (Stage.due?_of_write? (hst ▸ hw)))
        rw [b.timeAt hx hy (Nat.le_of_lt hlt), b.timeAt hx hy (Nat.le_refl _), timeAt_length, due]
        exact of_decide_eq_true rings
    | answered _ => exact .inl (written hst)
    | silent _ _ _ => exact .inl (written hst)
    | displaced _ _ => exact .inl (written hst)

/-- A call that is to send its frame, or sends it, has said hello. -/
theorem reached_greeted : ∀ x, Reached wall config x → ∀ j c r call o, x.Invoked j c r →
    r.operation? = none → x.session.calls.get? c = some call → call.plan = .confirm o →
    ∃ hello g e, x.Greeted config c hello g e := by
  refine reached_induction ?_ fun x a y hx ih step => ?_
  · exact fun j c r call o hj => (not_invoked_start hj).elim
  · have hy := reached_take? hx step
    obtain ⟨after, hr, grows⟩ := take?_grows step
    have b := grows.begins
    intro j c r call o hj composed hc confirm
    rw [grows.session] at hc
    have made {old : Call} (hold : x.session.calls.get? c = some old) : x.Invoked j c r :=
      b.invoked_of_known hx hy hj hold
    have before {old : Call} (hold : x.session.calls.get? c = some old)
        (same : old.plan = .confirm o) : ∃ hello g e, y.Greeted config c hello g e := by
      obtain ⟨hello, g, e, greeted⟩ := ih j c r old o (made hold) composed hold same
      exact ⟨hello, g, e, b.greeted hx hy greeted⟩
    by_cases turn : a = .poll c
    · subst turn
      cases hr with
      | poll hp =>
        obtain ⟨old, hold, advances⟩ := advances_of_poll hp
        have greets := reached_greets hx (made hold) composed hold
        rcases advances.plan hc with kept | ⟨r', hst, hstart⟩ | ⟨o', begun, finished, hnext⟩
        · exact before hold (kept.symm.trans confirm)
        · obtain ⟨p, rfl⟩ := Request.start_connects (hst ▸ greets).composed hstart
          cases confirm
        · rw [(reached_setUp x hx).settings] at hnext
          obtain ⟨p, response, use, rfl⟩ := (greets.next hnext).2 o confirm
          obtain ⟨hello, g, greeted⟩ :=
            greeted_of_response hx hy grows (made hold) composed hp hold begun use finished
          exact ⟨hello, g, _, greeted⟩
    · rcases hr.call hc with ⟨old, hold, hplan, -, -⟩ | ⟨-, -, e, -⟩ | ⟨r', -, rfl⟩
      · exact before hold (hplan.trans confirm)
      · exact absurd e turn
      · cases confirm

theorem Reacts.hands (h : x.Reacts wall a after) {frame : Bytes}
    (hw : .requested c (.write handle frame) ∈ after.2) : a = .poll c ∧ ∃ call w,
      x.session.calls.get? c = some call ∧ call.stage = .queued (.write w) ∧ w.frame = frame ∧
        after.1.calls.get? c = some ⟨call.plan, .writing w, none⟩ := by
  cases h with
  | poll hp =>
    obtain ⟨call, hc, hl⟩ := Session.poll_leads hp
    obtain ⟨rfl, w, hst, e, get⟩ := hl.hands hw
    exact ⟨rfl, call, w, hc, hst, e, get⟩
  | listen hl => cases (hl.mem hw).1
  | _ => cases hw

theorem reached_confirms : ∀ x, Reached wall config x → ∀ j c r m handle (command : Command)
    call, x.Invoked j c r → r.operation? = none → command.opcode ≠ .hello →
    x.Did m (.requested c (.write handle command.frame)) →
    x.session.calls.get? c = some call → ∃ o, call.plan = .confirm o := by
  refine reached_induction ?_ fun x a y hx ih step => ?_
  · exact fun j c r m handle command call hj => (not_invoked_start hj).elim
  · have hy := reached_take? hx step
    obtain ⟨after, hr, grows⟩ := take?_grows step
    intro j c r m handle command call hj composed notHello hm hc
    rw [grows.session] at hc
    have greets {old : Call} (hold : x.session.calls.get? c = some old) :
        Greets config old.plan old.stage :=
      reached_greets hx (grows.begins.invoked_of_known hx hy hj hold) composed hold
    rcases grows.did_iff.mp hm with hm | ⟨-, hm⟩
    · have before {old : Call} (hold : x.session.calls.get? c = some old) :
          ∃ o, old.plan = .confirm o :=
        ih j c r m handle command old (grows.begins.invoked_of_known hx hy hj hold) composed
          notHello hm hold
      by_cases turn : a = .poll c
      · subst turn
        cases hr with
        | poll hp =>
          obtain ⟨old, hold, advances⟩ := advances_of_poll hp
          obtain ⟨o, confirm⟩ := before hold
          rcases advances.plan hc with kept | ⟨r', hst, -⟩ | ⟨o', -, -, hnext⟩
          · exact ⟨o, kept.trans confirm⟩
          · have greets := greets hold
            rw [hst, confirm] at greets
            cases greets with
            | sends hon => exact absurd hon Stage.On.unopened
          · rw [confirm] at hnext
            cases o' <;> cases hnext
      · rcases hr.call hc with ⟨old, hold, hplan, -, -⟩ | ⟨-, -, e, -⟩ | ⟨r', rfl, -⟩
        · exact hplan ▸ before hold
        · exact absurd e turn
        · obtain ⟨entry, hentry, he⟩ := hm
          obtain ⟨z, after', -, -, -, -, hr', heffects, -⟩ := reached_entry x hx m entry hentry
          obtain ⟨j', r', hj', -⟩ := polled_invoked hx hentry (hr'.hands (heffects ▸ he)).1
          exact absurd hj' (hr.uninvoked hx)
    · obtain ⟨-, old, w, hold, hst, frame, get⟩ := hr.hands hm
      obtain rfl := Option.some.inj (get.symm.trans hc)
      exact (greets hold).confirms (by rw [hst]; rfl) frame notHello

theorem greeted_of_command (reached : Reached wall config x) (hj : x.Invoked j c r)
    (composed : r.operation? = none) (notHello : command.opcode ≠ .hello)
    (hm : x.Did m (.requested c (.write handle command.frame))) :
    ∃ hello g e, e < m ∧ x.Greeted config c hello g e := by
  obtain ⟨y, a, after, hy, begins, rfl, hr, he, -⟩ := reached_did reached hm
  obtain ⟨-, call, w, hc, hst, frame, -⟩ := hr.hands he
  have hj := begins.invoked_of_known hy reached hj hc
  obtain ⟨o, confirm⟩ :=
    (reached_greets hy hj composed hc).confirms (by rw [hst]; rfl) frame notHello
  obtain ⟨hello, g, e, greeted⟩ := reached_greeted y hy j c r call o hj composed hc confirm
  obtain ⟨response, hresponse⟩ := greeted.response
  exact ⟨hello, g, e, did_lt hresponse, begins.greeted hy reached greeted⟩

theorem returned_of_fault (reached : Reached wall config x) {f : Fault}
    (hn : x.Did n (.finished c (.fault f))) : x.Did n (.returned c (.fault f)) := by
  obtain ⟨y, call, -, -, -, -, returned⟩ := finished_at reached hn
  exact (returned _).mpr rfl

theorem silent_of_fault (reached : Reached wall config x) (hj : x.Invoked j c r)
    (composed : r.operation? = none) {operation : Operation} {f : Fault}
    (hg : x.Did g (.began c operation)) (greeting : ∀ frame, operation ≠ .send frame) (hge : g < e)
    (he : x.Did e (.finished c (.fault f)))
    (first : ∀ m o, g ≤ m → m < e → ¬x.Did m (.finished c o)) (notHello : command.opcode ≠ .hello) :
    ¬x.Did m (.requested c (.write handle command.frame)) := by
  intro hm
  rcases Nat.lt_or_ge e m with hlt | hle
  · obtain ⟨y, a, after, -, begins, rfl, hr, hw, -⟩ := reached_did reached hm
    obtain ⟨-, call, w, hc, -⟩ := hr.hands hw
    have gone := gone_of_returned x reached e c _ (returned_of_fault reached he) _ hlt
      begins.length_le
    rw [begins.session, hc] at gone
    cases gone
  · obtain ⟨y, a, after, hy, begins, rfl, hr, -, did, -⟩ := reached_did reached he
    have hopen : y.Open g c := fun m o hm hd => first m o hm (did_lt hd) (begins.did hd)
    obtain ⟨call, engaged⟩ :=
      reached_engaged y hy g c operation ((begins.did_iff hge).mp hg) hopen
    have hj := begins.invoked_of_known hy reached hj engaged.get
    have greets := reached_greets hy hj composed engaged.get
    -- A call that has handed its frame over has nothing left but that write, which is neither of
    -- the two.
    obtain ⟨o, confirm⟩ : ∃ o, call.plan = .confirm o := by
      rcases Nat.lt_or_eq_of_le hle with hlt | rfl
      · exact reached_confirms y hy j c r m handle command call hj composed notHello
          ((begins.did_iff hlt).mp hm) engaged.get
      · obtain ⟨-, old, w, hold, hst, frame, -⟩ := hr.hands ((did _).mp hm)
        obtain rfl := Option.some.inj (engaged.get.symm.trans hold)
        exact greets.confirms (by rw [hst]; rfl) frame notHello
    rw [confirm] at greets
    obtain ⟨frame, e⟩ := greets.sending engaged.worksOn
    exact greeting frame e

/-- A call for more than one operation hands over the frame of a command only behind the response
to a hello of its own. By then the hello has been written, unless its time was over first. A call
whose link or hello came to a fault hands over no such frame. -/
theorem reached_commands (reached : Reached wall config x) (hj : x.Invoked j c r)
    (composed : r.operation? = none) :
    (∀ m handle (command : Command), command.opcode ≠ .hello →
      x.Did m (.requested c (.write handle command.frame)) →
      ∃ hello g e, e < m ∧ x.Greeted config c hello g e) ∧
    ∀ g e operation f, (operation = .connect ∨ ∃ frame limit, operation = .ask frame limit) →
      x.Did g (.began c operation) → g < e → x.Did e (.finished c (.fault f)) →
      (∀ m o, g ≤ m → m < e → ¬x.Did m (.finished c o)) →
      ∀ m handle (command : Command), command.opcode ≠ .hello →
        ¬x.Did m (.requested c (.write handle command.frame)) := by
  refine ⟨fun m handle command notHello hm =>
    greeted_of_command reached hj composed notHello hm, ?_⟩
  intro g e operation f greeting hg hge he first m handle command notHello
  refine silent_of_fault reached hj composed hg (fun frame e => ?_) hge he first notHello
  rcases greeting with rfl | ⟨frame', limit, rfl⟩ <;> cases e

def switchingOff : List Action :=
  let header := magic ++ 49 :: List.replicate 10 1
  opening ++ [.invoke 1 .turnOff, .poll 1, .poll 1, .poll 1, .poll 1, .poll 1, .complete 1 none,
    .poll 1, .deliver 0 header, .listen 0, .deliver 0 (List.replicate 38 2), .listen 0, .poll 1,
    .poll 1, .poll 1]

def absent : List Action :=
  [.invoke 0 .turnOff, .poll 0, .poll 0, .poll 0, .resolve 0 none, .poll 0]

def unheard : List Action :=
  opening ++ [.invoke 1 .turnOff, .poll 1, .poll 1, .poll 1, .poll 1, .poll 1, .pass 2000, .poll 1,
    .poll 1, .poll 1]

/-- The second call switches the element off. Its hello is written and answered. -/
theorem commands_when_answered :
    (∃ x, Reached noon oneAttempt x ∧ x.Did 25 (.requested 1 (.write 0 Command.turnOff.frame)) ∧
      ∃ hello g e, e < 25 ∧ x.Greeted oneAttempt 1 hello g e) ∧
    ∃ x f, Reached noon oneAttempt x ∧ x.Did 5 (.finished 0 (.fault f)) ∧
      ∀ m handle (command : Command), command.opcode ≠ .hello →
        ¬x.Did m (.requested 0 (.write handle command.frame)) := by
  constructor
  · have h : ((start oneAttempt).run? noon switchingOff).any (fun x =>
        x.Invoked 11 1 .turnOff ∧
        x.Did 25 (.requested 1 (.write 0 Command.turnOff.frame))) = true := by
      decide +kernel
    obtain ⟨x, hx, h⟩ := (Option.any_eq_true _ _).mp h
    obtain ⟨invoked, wrote⟩ := of_decide_eq_true h
    exact ⟨x, ⟨switchingOff, hx⟩, wrote,
      (reached_commands ⟨switchingOff, hx⟩ invoked rfl).1 25 0 .turnOff (by decide) wrote⟩
  · let fault : Fault := .connectFailed 1 (.deviceNotFound "C0FFEE")
    let between : List Effect :=
      [.began 0 .connect, .entered .connecting, .requested 0 (.find "C0FFEE")]
    have h : ((start oneAttempt).run? noon absent).any (fun x => x.Invoked 0 0 .turnOff ∧
        x.Did 2 (.began 0 .connect) ∧ x.Did 5 (.finished 0 (.fault fault)) ∧
        ((x.history.take 5).drop 2).flatMap Entry.effects = between) = true := by
      decide +kernel
    obtain ⟨x, hx, h⟩ := (Option.any_eq_true _ _).mp h
    obtain ⟨invoked, began, finished, effects⟩ := of_decide_eq_true h
    refine ⟨x, fault, ⟨absent, hx⟩, finished, (reached_commands ⟨absent, hx⟩ invoked rfl).2 2 5
      .connect fault (.inl rfl) began (by decide) finished fun k o hn hm did => ?_⟩
    have unfinished : ∀ o, .finished 0 o ∉ between := by simp [between]
    exact unfinished o (effects ▸ did_between did hn hm)

/-- The hello is still to be written at its deadline, and the frame goes out all the same. -/
theorem commands_unheard : ∃ x, (start oneAttempt).runInTime? noon unheard = some x ∧
    x.Invoked 11 1 .turnOff ∧ x.Did 20 (.requested 1 (.write 0 Command.turnOff.frame)) ∧
    ∀ frame h s, ¬x.Wrote 1 frame h s := by
  have h : ((start oneAttempt).runInTime? noon unheard).any (fun x => x.Invoked 11 1 .turnOff ∧
      x.Did 20 (.requested 1 (.write 0 Command.turnOff.frame)) ∧
      ∀ entry ∈ x.history, entry.action ≠ .complete 1 none) = true := by
    decide +kernel
  obtain ⟨x, hx, h⟩ := (Option.any_eq_true _ _).mp h
  obtain ⟨invoked, wrote, unfinished⟩ := of_decide_eq_true h
  refine ⟨x, hx, invoked, wrote, fun frame h s written => ?_⟩
  obtain ⟨entry, hs, ha⟩ := written.succeeded
  exact unfinished entry (List.mem_of_getElem? hs) ha

end Course

end HeaterLink
