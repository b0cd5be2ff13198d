import HeaterLink.Session.Poll
import HeaterLink.Proofs.Reassembly.Gathering
import Mathlib.Data.List.Basic
import Mathlib.Tactic.Common

/-!
# What acts leave alone

Acts on the link are steady: they keep the calls, the settings and the
requests, and of the inbound side they can only forget the message in
progress. A turn of a call is a steady act and then an ending: the call goes
to another stage, or its operation has a result. A call that connects the link
or leaves it at rest keeps the link until its turn comes to a finale.
-/

set_option autoImplicit false

namespace HeaterLink

def Effect.input? : Effect → Option Reassembler.Input
  | .took _ data => some (.fragment data)
  | .cleared => some .reset
  | _ => none

def Effect.Plain (c : CallId) : Effect → Prop
  | .requested c' r => c' = c ∧ ∀ h frame, r ≠ .write h frame
  | .abandoned c' => c' = c
  | .settled c' _ => c' = c
  | .emitted e => e = .connected ∨ e = .disconnected
  | .granted _ => True
  | .entered _ => True
  | .started _ => True
  | .cancelled _ => True
  | .cleared => True
  | _ => False

namespace Act

@[simp]
theorem all_nil (s : Session) : all [] s = (s, []) := rfl

@[simp]
theorem all_cons (a : Act) (rest : List Act) (s : Session) :
    all (a :: rest) s = ((all rest (a s).1).1, (a s).2 ++ (all rest (a s).1).2) := rfl

@[simp]
theorem change_apply (f : Session → Session) (s : Session) : change f s = (f s, []) := rfl

@[simp]
theorem tell_apply (e : Effect) (s : Session) : tell e s = (s, [e]) := rfl

@[simp]
theorem choose_apply (f : Session → Act) (s : Session) : choose f s = f s s := rfl

@[simp]
theorem enter_apply (state : LinkState) (s : Session) :
    enter state s = ({ s with state := state }, [.entered state]) := rfl

@[simp]
theorem resetInbound_apply (s : Session) :
    resetInbound s = ({ s with inbound := s.inbound.reset }, [.cleared]) := rfl

@[simp]
theorem withdraw_apply (k : Token) (s : Session) :
    withdraw k s = ({ s with inbound := s.inbound.withdraw k }, []) := rfl

@[simp]
theorem goDown_fst (s : Session) : (goDown s).1 = { s with state := .disconnected } := by
  by_cases h : s.state = .disconnected <;> simp [goDown, h]

@[simp]
theorem releaseLink_fst (s : Session) :
    (releaseLink s).1 = { s with queue := s.queue.release } := by
  cases h : s.queue.release.holder <;> simp [releaseLink, h]

def cancelledStreams (s : Session) : Table StreamId Stream :=
  match s.runningListener with
  | none => s.streams
  | some i => s.streams.modify i ({ · with phase := .cancelled })

@[simp]
theorem cancelListener_fst (s : Session) :
    (cancelListener s).1 = { s with listener := none, streams := cancelledStreams s } := by
  cases h : s.runningListener <;> simp [cancelListener, cancelledStreams, h]

/-- A release tells at most who has the link now. -/
theorem mem_releaseLink {s : Session} {e : Effect} (h : e ∈ (releaseLink s).2) :
    ∃ c, e = .granted c := by
  cases hq : s.queue.release.holder <;> simp_all [releaseLink]

theorem mem_cancelListener {s : Session} {e : Effect} (h : e ∈ (cancelListener s).2) :
    ∃ i, e = .cancelled i := by
  cases hr : s.runningListener <;> simp_all [cancelListener]

structure Steady (c : CallId) (s s' : Session) (effects : List Effect) : Prop where
  calls : s'.calls = s.calls
  config : s'.config = s.config
  ratedPower : s'.ratedPower = s.ratedPower
  nextToken : s'.nextToken = s.nextToken
  inbound : s'.inbound = { s.inbound with
    reassembler := (s.inbound.reassembler.run (effects.filterMap Effect.input?)).1 }
  plain : ∀ e ∈ effects, e.Plain c

def IsSteady (c : CallId) (a : Act) : Prop := ∀ s, Steady c s (a s).1 (a s).2

theorem Steady.refl (c : CallId) (s : Session) : Steady c s s [] :=
  ⟨rfl, rfl, rfl, rfl, rfl, by simp⟩

theorem Steady.trans {c : CallId} {s₁ s₂ s₃ : Session} {first later : List Effect}
    (h : Steady c s₁ s₂ first) (h' : Steady c s₂ s₃ later) :
    Steady c s₁ s₃ (first ++ later) where
  calls := h'.calls.trans h.calls
  config := h'.config.trans h.config
  ratedPower := h'.ratedPower.trans h.ratedPower
  nextToken := h'.nextToken.trans h.nextToken
  inbound := by rw [h'.inbound, h.inbound, List.filterMap_append, Reassembler.run_append]
  plain := by
    intro e he
    rcases List.mem_append.mp he with he | he
    · exact h.plain e he
    · exact h'.plain e he

section Steady

variable {c : CallId}

theorem steady_all {acts : List Act} (h : ∀ a ∈ acts, IsSteady c a) : IsSteady c (all acts) := by
  induction acts with
  | nil => exact Steady.refl c
  | cons a rest ih =>
    intro s
    exact (h a (by simp) s).trans (ih (fun b hb => h b (by simp [hb])) _)

theorem steady_tell {e : Effect} (plain : e.Plain c) (quiet : e.input? = none) :
    IsSteady c (tell e) :=
  fun s => ⟨rfl, rfl, rfl, rfl, by simp [quiet, Reassembler.run], by simpa using plain⟩

theorem steady_change {f : Session → Session}
    (h : ∀ s, (f s).calls = s.calls ∧ (f s).config = s.config ∧ (f s).ratedPower = s.ratedPower ∧
      (f s).nextToken = s.nextToken ∧ (f s).inbound = s.inbound) : IsSteady c (change f) := by
  intro s
  obtain ⟨calls, config, ratedPower, nextToken, inbound⟩ := h s
  exact ⟨calls, config, ratedPower, nextToken, inbound, by simp⟩

theorem steady_releaseLink : IsSteady c releaseLink := by
  intro s
  rw [releaseLink, choose_apply]
  cases s.queue.release.holder with
  | none => exact ⟨rfl, rfl, rfl, rfl, rfl, by simp⟩
  | some i => exact ⟨rfl, rfl, rfl, rfl, rfl, by simp [Effect.Plain]⟩

end Steady

structure Works (c : CallId) (s s' : Session) (effects : List Effect) : Prop
    extends Steady c s s' effects where
  queue : s'.queue = s.queue
  lastFailure : s'.lastFailure = s.lastFailure
  sequences : s'.sequences = s.sequences
  unsettled : ∀ d failure, .settled d failure ∉ effects

def IsWork (c : CallId) (a : Act) : Prop := ∀ s, Works c s (a s).1 (a s).2

theorem Works.refl (c : CallId) (s : Session) : Works c s s [] :=
  ⟨Steady.refl c s, rfl, rfl, rfl, by simp⟩

theorem Works.trans {c : CallId} {s₁ s₂ s₃ : Session} {first later : List Effect}
    (h : Works c s₁ s₂ first) (h' : Works c s₂ s₃ later) : Works c s₁ s₃ (first ++ later) where
  toSteady := h.toSteady.trans h'.toSteady
  queue := h'.queue.trans h.queue
  lastFailure := h'.lastFailure.trans h.lastFailure
  sequences := h'.sequences.trans h.sequences
  unsettled := by
    intro d failure he
    rcases List.mem_append.mp he with he | he
    · exact h.unsettled d failure he
    · exact h'.unsettled d failure he

section Works

variable {c : CallId}

theorem works_all {acts : List Act} (h : ∀ a ∈ acts, IsWork c a) : IsWork c (all acts) := by
  induction acts with
  | nil => exact Works.refl c
  | cons a rest ih =>
    intro s
    exact (h a (by simp) s).trans (ih (fun b hb => h b (by simp [hb])) _)

theorem works_choose {f : Session → Act} (h : ∀ s, IsWork c (f s)) : IsWork c (choose f) :=
  fun s => h s s

theorem works_tell {e : Effect} (plain : e.Plain c) (quiet : e.input? = none)
    (unsettled : ∀ d failure, .settled d failure ≠ e) : IsWork c (tell e) :=
  fun s => ⟨steady_tell plain quiet s, rfl, rfl, rfl, by simpa using unsettled⟩

theorem works_change {f : Session → Session}
    (h : ∀ s, (f s).calls = s.calls ∧ (f s).config = s.config ∧ (f s).ratedPower = s.ratedPower ∧
      (f s).nextToken = s.nextToken ∧ (f s).inbound = s.inbound)
    (h' : ∀ s, (f s).queue = s.queue ∧ (f s).lastFailure = s.lastFailure ∧
      (f s).sequences = s.sequences) : IsWork c (change f) := by
  intro s
  obtain ⟨queue, lastFailure, sequences⟩ := h' s
  exact ⟨steady_change h s, queue, lastFailure, sequences, by simp⟩

theorem works_enter (state : LinkState) : IsWork c (enter state) :=
  fun _ => ⟨⟨rfl, rfl, rfl, rfl, rfl, by simp [Effect.Plain]⟩, rfl, rfl, rfl, by simp⟩

theorem works_goDown : IsWork c goDown := by
  refine works_choose fun s => works_all ?_
  intro a ha
  simp only [List.mem_cons, List.not_mem_nil, or_false] at ha
  rcases ha with rfl | rfl
  · exact works_enter _
  · split
    · exact Works.refl c
    · exact works_tell (.inr rfl) rfl (by simp)

theorem works_resetInbound : IsWork c resetInbound :=
  fun _ => ⟨⟨rfl, rfl, rfl, rfl, rfl, by simp [Effect.Plain]⟩, rfl, rfl, rfl, by simp⟩

theorem works_cancelListener : IsWork c cancelListener := by
  intro s
  rw [cancelListener, choose_apply]
  cases s.runningListener with
  | none => exact ⟨⟨rfl, rfl, rfl, rfl, rfl, by simp⟩, rfl, rfl, rfl, by simp⟩
  | some i => exact ⟨⟨rfl, rfl, rfl, rfl, rfl, by simp [Effect.Plain]⟩, rfl, rfl, rfl, by simp⟩

end Works

end Act

def Stage.underway : Stage → Bool
  | .releasing _ => true
  | .seeking _ => true
  | .connecting _ _ _ => true
  | .discarding _ _ => true
  | .subscribing _ _ _ => true
  | .pausing _ _ _ => true
  | _ => false

def Stage.aim? : Stage → Option Release
  | .queued (.connect _) => some .reconnect
  | .queued .disconnect => some .rest
  | .releasing next => some next
  | .seeking _ => some .reconnect
  | .connecting _ _ _ => some .reconnect
  | .discarding _ _ => some .reconnect
  | .subscribing _ _ _ => some .reconnect
  | .pausing _ _ _ => some .reconnect
  | _ => none

inductive Ending
  | goto (stage : Stage)
  | finish (outcome : Outcome)
  | withdraw (token : Token) (outcome : Outcome)

namespace Ending

def act (t : Act.Turn) : Ending → Act
  | .goto stage => t.goto stage
  | .finish o => t.finish o
  | .withdraw k o => Act.all [Act.withdraw k, t.finish o]

inductive OnLink : Ending → Prop
  | goto {stage : Stage} : stage.underway → OnLink (goto stage)
  | done : OnLink (finish .done)
  | fault {f : Fault} : OnLink (finish (.fault f))

end Ending

namespace Act

def Closed (t : Turn) (allowed : Ending → Prop) (s : Session) (after : Session × List Effect) :
    Prop :=
  ∃ s₁ effects ending, Steady t.call s s₁ effects ∧ allowed ending ∧
    after = ((ending.act t s₁).1, effects ++ (ending.act t s₁).2)

def Closes (t : Turn) (allowed : Ending → Prop) (a : Act) : Prop := ∀ s, Closed t allowed s (a s)

section Closes

variable {t : Turn} {allowed : Ending → Prop}

theorem closed_behind {s s₁ : Session} {effects : List Effect} {after : Session × List Effect}
    (h : Steady t.call s s₁ effects) (h' : Closed t allowed s₁ after) :
    Closed t allowed s (after.1, effects ++ after.2) := by
  obtain ⟨s₂, later, ending, hs, hp, rfl⟩ := h'
  exact ⟨s₂, effects ++ later, ending, h.trans hs, hp, by rw [List.append_assoc]⟩

theorem closed_steady {s : Session} {a b : Act} (ha : Steady t.call s (a s).1 (a s).2)
    (hb : Closed t allowed (a s).1 (b (a s).1)) : Closed t allowed s (all [a, b] s) := by
  simpa using closed_behind ha hb

theorem closed_ending {s : Session} {e : Ending} (h : allowed e) : Closed t allowed s (e.act t s) :=
  ⟨s, [], e, Steady.refl _ s, h, rfl⟩

theorem closes_cons {a : Act} {rest : List Act} (ha : IsSteady t.call a)
    (hrest : Closes t allowed (all rest)) : Closes t allowed (all (a :: rest)) := by
  intro s
  simpa using closed_steady (ha s) (hrest (a s).1)

theorem closes_single {a : Act} (ha : Closes t allowed a) : Closes t allowed (all [a]) := by
  intro s
  simpa using ha s

theorem closes_goto {stage : Stage} (h : allowed (.goto stage)) :
    Closes t allowed (t.goto stage) :=
  fun _ => closed_ending h

theorem closes_finish {o : Outcome} (h : allowed (.finish o)) : Closes t allowed (t.finish o) :=
  fun _ => closed_ending h

end Closes

namespace Turn

variable (t : Turn)

theorem finish_closes (failure : Option Fault) :
    Closes t Ending.OnLink (t.finish (.ofFault failure)) := by
  cases failure with
  | none => exact closes_finish .done
  | some f => exact closes_finish .fault

theorem endSequence_closes (failure : Option Fault) :
    Closes t Ending.OnLink (t.endSequence failure) := by
  refine closes_cons (steady_change fun _ => ⟨rfl, rfl, rfl, rfl, rfl⟩) ?_
  refine closes_cons (steady_tell rfl rfl) (closes_cons steady_releaseLink ?_)
  exact closes_single (t.finish_closes failure)

def leaveAtRest : Act :=
  all [change ({ · with lastFailure := none }), releaseLink, t.finish .done]

theorem leaveAtRest_closes : Closes t Ending.OnLink t.leaveAtRest := by
  refine closes_cons (steady_change fun _ => ⟨rfl, rfl, rfl, rfl, rfl⟩) ?_
  exact closes_cons steady_releaseLink (closes_single (closes_finish .done))

end Turn

end Act

inductive Finale
  | goto (stage : Stage)
  | settle (failure : Option Fault)
  | rest

namespace Finale

def act (t : Act.Turn) : Finale → Act
  | .goto stage => t.goto stage
  | .settle failure => t.endSequence failure
  | .rest => t.leaveAtRest

inductive Of : Release → Finale → Prop
  | goto {next : Release} {stage : Stage} : stage.underway → stage.aim? = some next →
      Of next (goto stage)
  | settle {failure : Option Fault} : Of .reconnect (settle failure)
  | rest : Of .rest rest

end Finale

namespace Act

def Pursued (t : Turn) (next : Release) (s : Session) (after : Session × List Effect) : Prop :=
  ∃ s₁ effects finale, Works t.call s s₁ effects ∧ Finale.Of next finale ∧
    after = ((finale.act t s₁).1, effects ++ (finale.act t s₁).2)

def Pursues (t : Turn) (next : Release) (a : Act) : Prop := ∀ s, Pursued t next s (a s)

theorem Pursued.closed {t : Turn} {next : Release} {s : Session} {after : Session × List Effect}
    (h : Pursued t next s after) : Closed t Ending.OnLink s after := by
  obtain ⟨s₁, effects, finale, hw, hof, rfl⟩ := h
  refine closed_behind hw.toSteady ?_
  cases hof with
  | goto hu _ => exact closed_ending (e := .goto _) (.goto hu)
  | settle => exact t.endSequence_closes _ s₁
  | rest => exact t.leaveAtRest_closes s₁

section Pursues

variable {t : Turn} {next : Release}

theorem pursues_finale {finale : Finale} (h : finale.Of next) : Pursues t next (finale.act t) :=
  fun s => ⟨s, [], finale, Works.refl _ s, h, rfl⟩

theorem pursues_goto {stage : Stage} (hu : stage.underway) (aim : stage.aim? = some next) :
    Pursues t next (t.goto stage) :=
  pursues_finale (.goto hu aim)

theorem pursues_cons {a : Act} {rest : List Act} (ha : IsWork t.call a)
    (hrest : Pursues t next (all rest)) : Pursues t next (all (a :: rest)) := by
  intro s
  obtain ⟨s₁, effects, finale, hw, hof, e⟩ := hrest (a s).1
  refine ⟨s₁, (a s).2 ++ effects, finale, (ha s).trans hw, hof, ?_⟩
  rw [all_cons, e, List.append_assoc]

theorem pursues_single {a : Act} (ha : Pursues t next a) : Pursues t next (all [a]) := by
  intro s
  simpa using ha s

theorem pursues_choose {f : Session → Act} (h : ∀ s, Pursues t next (f s)) :
    Pursues t next (choose f) :=
  fun s => h s s

end Pursues

namespace Turn

variable (t : Turn)

theorem works_request {r : RadioRequest} (h : ∀ handle frame, r ≠ .write handle frame) :
    IsWork t.call (t.request r) :=
  works_tell ⟨rfl, h⟩ rfl (by simp)

theorem works_abandon : IsWork t.call (tell (.abandoned t.call)) :=
  works_tell rfl rfl (by simp)

theorem endSequence_pursues (failure : Option Fault) :
    Pursues t .reconnect (t.endSequence failure) :=
  pursues_finale .settle

theorem trySubscribe_pursues (made : Nat) (last : Fault) :
    Pursues t .reconnect (t.trySubscribe made last) := by
  refine pursues_choose fun s => ?_
  split
  · exact t.endSequence_pursues _
  · split
    · refine pursues_cons (works_change (fun _ => ⟨rfl, rfl, rfl, rfl, rfl⟩) fun _ =>
        ⟨rfl, rfl, rfl⟩) ?_
      exact pursues_cons (t.works_request (by simp)) (pursues_single (pursues_goto rfl rfl))
    · exact t.endSequence_pursues _

theorem subscribeFailed_pursues (made : Nat) (stream : StreamId) (fault : Fault) :
    Pursues t .reconnect (t.subscribeFailed made stream fault) := by
  refine pursues_choose fun s => ?_
  refine pursues_cons (works_change (fun _ => ⟨rfl, rfl, rfl, rfl, rfl⟩) fun _ =>
    ⟨rfl, rfl, rfl⟩) ?_
  split
  · exact pursues_single (pursues_goto rfl rfl)
  · exact pursues_single (t.trySubscribe_pursues _ _)

theorem subscribed_pursues (stream : StreamId) : Pursues t .reconnect (t.subscribed stream) := by
  refine pursues_cons (works_change (fun _ => ⟨rfl, rfl, rfl, rfl, rfl⟩) fun _ =>
    ⟨rfl, rfl, rfl⟩) ?_
  refine pursues_cons (works_tell trivial rfl (by simp)) (pursues_cons (works_enter _) ?_)
  exact pursues_single (t.endSequence_pursues none)

theorem startSubscribe_pursues : Pursues t .reconnect t.startSubscribe :=
  pursues_cons works_cancelListener (pursues_single (t.trySubscribe_pursues _ _))

theorem tryConnect_pursues (made : Nat) (last : Fault) :
    Pursues t .reconnect (t.tryConnect made last) := by
  refine pursues_choose fun s => ?_
  split
  · refine pursues_cons (works_enter _) (pursues_cons (t.works_request (by simp)) ?_)
    exact pursues_single (pursues_goto rfl rfl)
  · exact pursues_cons (works_enter _) (pursues_single (t.endSequence_pursues _))

theorem connected_pursues (handle : Handle) : Pursues t .reconnect (t.connected handle) := by
  refine pursues_cons (works_change (fun _ => ⟨rfl, rfl, rfl, rfl, rfl⟩) fun _ =>
    ⟨rfl, rfl, rfl⟩) ?_
  refine pursues_cons (works_enter _) (pursues_cons (works_tell (.inl rfl) rfl (by simp)) ?_)
  exact pursues_single t.startSubscribe_pursues

theorem discard_pursues (made : Nat) (handle : Handle) (fault : Fault) :
    Pursues t .reconnect (t.discard made handle fault) :=
  pursues_cons (t.works_request (by simp)) (pursues_single (pursues_goto rfl rfl))

theorem released_pursues (next : Release) : Pursues t next (t.released next) := by
  refine pursues_cons works_resetInbound (pursues_cons works_goDown (pursues_single ?_))
  cases next with
  | reconnect => exact t.tryConnect_pursues _ _
  | rest => exact pursues_finale .rest

theorem release_pursues (next : Release) : Pursues t next (t.release next) := by
  refine pursues_cons works_cancelListener (pursues_single (pursues_choose fun s => ?_))
  split
  · exact t.released_pursues next
  · refine pursues_cons (works_change (fun _ => ⟨rfl, rfl, rfl, rfl, rfl⟩) fun _ =>
      ⟨rfl, rfl, rfl⟩) ?_
    exact pursues_cons (t.works_request (by simp)) (pursues_single (pursues_goto rfl rfl))

theorem establish_pursues : Pursues t .reconnect t.establish := by
  refine pursues_choose fun s => ?_
  split
  · exact t.tryConnect_pursues _ _
  · split
    · split
      · exact t.endSequence_pursues none
      · exact t.startSubscribe_pursues
    · exact t.release_pursues _

end Turn

end Act

end HeaterLink
