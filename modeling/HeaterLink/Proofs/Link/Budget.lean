import HeaterLink.Proofs.Requests.Steps

/-!
# What connecting can still take, one step at a time

At every stage of a connecting call its configuration says how long it can take
at most from there on, if no time passes in disconnects: the attempts that are
left, each with its limit, and the pauses between attempts to subscribe. No turn
of the call lets that grow beyond what it was.
-/

set_option autoImplicit false

namespace HeaterLink

namespace Config

def retryTime (config : Config) (made : Nat) : Nat :=
  (config.subscribe.attempts - (made + 1)) * (config.retryDelay + config.subscribe.limit)

def subscribeTime (config : Config) : Nat :=
  config.subscribe.attempts * config.subscribe.limit +
    (config.subscribe.attempts - 1) * config.retryDelay

def connectTime (config : Config) (made : Nat) : Nat :=
  (config.connect.attempts - made) * config.connect.limit + config.subscribeTime

variable (config : Config) {made : Nat}

theorem retryTime_succ (h : made + 1 < config.subscribe.attempts) :
    config.retryDelay + config.subscribe.limit + config.retryTime (made + 1) =
      config.retryTime made := by
  obtain ⟨k, hk⟩ := Nat.exists_eq_add_of_lt h
  have hleft : config.subscribe.attempts - (made + 1) = k + 1 := by omega
  have hright : config.subscribe.attempts - (made + 1 + 1) = k := by omega
  rw [retryTime, retryTime, hleft, hright, Nat.succ_mul, Nat.add_comm]

theorem retryTime_zero (h : 0 < config.subscribe.attempts) :
    config.subscribe.limit + config.retryTime 0 = config.subscribeTime := by
  obtain ⟨k, hk⟩ := Nat.exists_eq_add_of_lt h
  have hattempts : config.subscribe.attempts = k + 1 := by omega
  rw [retryTime, subscribeTime, hattempts]
  simp only [Nat.zero_add, Nat.add_sub_cancel, Nat.mul_add, Nat.succ_mul]
  omega

theorem connectTime_succ (h : made < config.connect.attempts) :
    config.connect.limit + config.connectTime (made + 1) = config.connectTime made := by
  obtain ⟨k, hk⟩ := Nat.exists_eq_add_of_lt h
  have hleft : config.connect.attempts - made = k + 1 := by omega
  have hright : config.connect.attempts - (made + 1) = k := by omega
  rw [connectTime, connectTime, hleft, hright, Nat.succ_mul]
  omega

theorem subscribeTime_le (made : Nat) : config.subscribeTime ≤ config.connectTime made :=
  Nat.le_add_left _ _

end Config

inductive Stage.Within (config : Config) (now limit : Nat) : Stage → Prop
  | releasing : now + config.connectTime 0 ≤ limit → Within config now limit (.releasing .reconnect)
  | seeking {made : Nat} : made < config.connect.attempts → now + config.connectTime made ≤ limit →
      Within config now limit (.seeking made)
  | connecting {made : Nat} {h : Handle} {a : Alarm} : now ≤ a.due →
      a.due + config.connectTime (made + 1) ≤ limit → Within config now limit (.connecting made h a)
  | discarding {made : Nat} {f : Fault} : now + config.connectTime (made + 1) ≤ limit →
      Within config now limit (.discarding made f)
  | subscribing {made : Nat} {i : StreamId} {a : Alarm} : now ≤ a.due →
      a.due + config.retryTime made ≤ limit → Within config now limit (.subscribing made i a)
  | pausing {made : Nat} {f : Fault} {a : Alarm} : now ≤ a.due →
      a.due + config.subscribe.limit + config.retryTime made ≤ limit →
      Within config now limit (.pausing made f a)

namespace Stage.Within

variable {config : Config} {now limit : Nat} {st : Stage}

theorem underway (h : st.Within config now limit) : st.underway := by
  cases h <;> rfl

theorem mono {limit' : Nat} (h : st.Within config now limit) (hle : limit ≤ limit') :
    st.Within config now limit' := by
  cases h with
  | releasing e => exact .releasing (Nat.le_trans e hle)
  | seeking hm e => exact .seeking hm (Nat.le_trans e hle)
  | connecting hn e => exact .connecting hn (Nat.le_trans e hle)
  | discarding e => exact .discarding (Nat.le_trans e hle)
  | subscribing hn e => exact .subscribing hn (Nat.le_trans e hle)
  | pausing hn e => exact .pausing hn (Nat.le_trans e hle)

theorem now_le (h : st.Within config now limit) : now ≤ limit := by
  cases h <;> omega

end Stage.Within

namespace Act

def Lands (t : Turn) (config : Config) (P : Stage → Prop) (a : Act) : Prop :=
  ∀ s, s.config = config → ∀ call, (a s).1.calls.get? t.call = some call →
    (∀ operation, call.stage ≠ .ready operation) → P call.stage

section Lands

variable {t : Turn} {config : Config} {P : Stage → Prop} {a : Act} {rest : List Act}

theorem lands_goto {st : Stage} (h : P st) : Lands t config P (t.goto st) := by
  intro s _ call hc _
  obtain rfl := Option.some.inj (((Turn.goto_get? t st s t.call).trans (if_pos rfl)).symm.trans hc)
  exact h

theorem lands_finish (o : Outcome) : Lands t config P (t.finish o) := by
  intro s _ call hc other
  rw [Turn.finish_fst, Turn.follow_get?, if_pos rfl] at hc
  obtain ⟨operation, e⟩ := Turn.stage_of_call? hc
  exact absurd e (other operation)

theorem lands_choose {f : Session → Act} (h : ∀ s, s.config = config → Lands t config P (f s)) :
    Lands t config P (choose f) :=
  fun s hs => h s hs s hs

theorem lands_cons (ha : IsSteady t.call a) (hrest : Lands t config P (all rest)) :
    Lands t config P (all (a :: rest)) := by
  intro s hs call hc
  rw [all_cons] at hc
  exact hrest _ ((ha s).config.trans hs) call hc

theorem lands_single (ha : Lands t config P a) : Lands t config P (all [a]) := by
  intro s hs call hc
  rw [all_cons] at hc
  exact ha s hs call hc

end Lands

namespace Turn

variable {t : Turn} {config : Config} {limit made : Nat}

theorem steady_request {r : RadioRequest} (h : ∀ handle frame, r ≠ .write handle frame) :
    IsSteady t.call (t.request r) :=
  fun s => (t.works_request h s).toSteady

theorem endSequence_lands {P : Stage → Prop} (failure : Option Fault) :
    Lands t config P (t.endSequence failure) := by
  refine lands_cons (steady_change fun _ => ⟨rfl, rfl, rfl, rfl, rfl⟩) ?_
  exact lands_cons (steady_tell rfl rfl)
    (lands_cons steady_releaseLink (lands_single (lands_finish _)))

/-- The time that is left before another attempt to subscribe suffices for it. -/
theorem trySubscribe_lands (last : Fault) (h : made < config.subscribe.attempts →
    t.moment.now + config.subscribe.limit + config.retryTime made ≤ limit) :
    Lands t config (Stage.Within config t.moment.now limit) (t.trySubscribe made last) := by
  refine lands_choose fun s hs => ?_
  split
  · exact endSequence_lands _
  · split
    · rename_i hm
      refine lands_cons (steady_change fun _ => ⟨rfl, rfl, rfl, rfl, rfl⟩)
        (lands_cons (steady_request (by simp)) (lands_single (lands_goto ?_)))
      rw [hs] at hm ⊢
      exact .subscribing (Nat.le_add_right _ _) (h hm)
    · exact endSequence_lands _

theorem startSubscribe_lands (h : t.moment.now + config.subscribeTime ≤ limit) :
    Lands t config (Stage.Within config t.moment.now limit) t.startSubscribe := by
  refine lands_cons (fun s => (works_cancelListener s).toSteady)
    (lands_single (trySubscribe_lands _ fun hm => ?_))
  have := config.retryTime_zero hm
  omega

theorem subscribeFailed_lands (stream : StreamId) (fault : Fault)
    (h : t.moment.now + config.retryTime made ≤ limit) :
    Lands t config (Stage.Within config t.moment.now limit)
      (t.subscribeFailed made stream fault) := by
  refine lands_choose fun s hs => ?_
  refine lands_cons (steady_change fun _ => ⟨rfl, rfl, rfl, rfl, rfl⟩) (lands_single ?_)
  split
  · rename_i hm
    rw [hs] at hm ⊢
    have := config.retryTime_succ hm
    have hpause : (t.moment.pause config.retryDelay).due ≤ t.moment.now + config.retryDelay :=
      Nat.add_le_add_left (Nat.min_le_left _ _) _
    exact lands_goto (.pausing (Nat.le_add_right _ _) (by omega))
  · rename_i hm
    rw [hs] at hm
    exact trySubscribe_lands _ fun hlt => absurd hlt hm

theorem connected_lands (handle : Handle) (h : t.moment.now + config.subscribeTime ≤ limit) :
    Lands t config (Stage.Within config t.moment.now limit) (t.connected handle) := by
  refine lands_cons (steady_change fun _ => ⟨rfl, rfl, rfl, rfl, rfl⟩) ?_
  refine lands_cons (fun s => (works_enter _ s).toSteady) ?_
  exact lands_cons (steady_tell (.inl rfl) rfl) (lands_single (startSubscribe_lands h))

/-- The time that is left before another attempt to connect suffices for it. -/
theorem tryConnect_lands (last : Fault) (h : t.moment.now + config.connectTime made ≤ limit) :
    Lands t config (Stage.Within config t.moment.now limit) (t.tryConnect made last) := by
  refine lands_choose fun s hs => ?_
  split
  · rename_i hm
    refine lands_cons (fun s => (works_enter _ s).toSteady)
      (lands_cons (steady_request (by simp)) (lands_single (lands_goto ?_)))
    exact .seeking (hs ▸ hm) h
  · exact lands_cons (fun s => (works_enter _ s).toSteady) (lands_single (endSequence_lands _))

theorem discard_lands (handle : Handle) (fault : Fault)
    (h : t.moment.now + config.connectTime (made + 1) ≤ limit) :
    Lands t config (Stage.Within config t.moment.now limit) (t.discard made handle fault) :=
  lands_cons (steady_request (by simp)) (lands_single (lands_goto (.discarding h)))

theorem released_lands (h : t.moment.now + config.connectTime 0 ≤ limit) :
    Lands t config (Stage.Within config t.moment.now limit) (t.released .reconnect) := by
  refine lands_cons (fun s => (works_resetInbound s).toSteady)
    (lands_cons (fun s => (works_goDown s).toSteady) (lands_single ?_))
  exact tryConnect_lands _ h

theorem release_lands (h : t.moment.now + config.connectTime 0 ≤ limit) :
    Lands t config (Stage.Within config t.moment.now limit) (t.release .reconnect) := by
  refine lands_cons (fun s => (works_cancelListener s).toSteady)
    (lands_single (lands_choose fun s hs => ?_))
  split
  · exact released_lands h
  · refine lands_cons (steady_change fun _ => ⟨rfl, rfl, rfl, rfl, rfl⟩)
      (lands_cons (steady_request (by simp)) (lands_single (lands_goto ?_)))
    exact .releasing h

theorem establish_lands (h : t.moment.now + config.connectTime 0 ≤ limit) :
    Lands t config (Stage.Within config t.moment.now limit) t.establish := by
  refine lands_choose fun s hs => ?_
  have := config.subscribeTime_le 0
  split
  · exact tryConnect_lands _ h
  · split
    · split
      · exact endSequence_lands _
      · exact startSubscribe_lands (by omega)
    · exact release_lands h

/-- A connecting call that has the link begins its sequence in time. -/
theorem proceed_lands (seen : Nat) (h : t.moment.now + config.connectTime 0 ≤ limit) :
    Lands t config (Stage.Within config t.moment.now limit) (t.proceed (.connect seen)) := by
  unfold proceed
  refine lands_choose fun s hs => ?_
  split
  · split
    · exact establish_lands h
    · exact lands_cons steady_releaseLink (lands_single (lands_finish _))
  · exact establish_lands h

/-- A turn of a connecting call that is on its way leaves it in time. -/
theorem Moves.within {s : Session} {st : Stage} {answer : Option RadioAnswer} {a : Act}
    (step : Moves t s answer st a)
    (within : st.Within s.config t.moment.now limit) :
    Lands t s.config (Stage.Within s.config t.moment.now limit) a := by
  have abandon : IsSteady t.call (tell (.abandoned t.call)) := steady_tell rfl rfl
  -- The clock is not past the alarm of the stage, so what the stage has left behind its alarm is
  -- left from now on as well.
  cases within with
  | releasing h =>
    cases step with
    | released => exact released_lands h
  | @seeking made hm h =>
    have left := s.config.connectTime_succ hm
    cases step with
    | finds =>
      refine lands_cons (steady_request (by simp)) (lands_single (lands_goto ?_))
      exact .connecting (Nat.le_add_right _ _) (by simp only [Moment.alarm]; omega)
    | misses => exact tryConnect_lands _ (by omega)
  | @connecting made _ _ hn h =>
    have := s.config.subscribeTime_le (made + 1)
    cases step with
    | connected => exact connected_lands _ (by omega)
    | connectFails => exact discard_lands _ _ (by omega)
    | connectLate _ => exact lands_cons abandon (lands_single (discard_lands _ _ (by omega)))
  | discarding h =>
    cases step with
    | discarded => exact tryConnect_lands _ h
  | subscribing hn h =>
    cases step with
    | subscribed =>
      refine lands_cons (steady_change fun _ => ⟨rfl, rfl, rfl, rfl, rfl⟩) ?_
      refine lands_cons (steady_tell trivial rfl) ?_
      exact lands_cons (fun s => (works_enter _ s).toSteady) (lands_single (endSequence_lands _))
    | subscribeFails => exact subscribeFailed_lands _ _ (by omega)
    | subscribeLate _ =>
      exact lands_cons abandon (lands_single (subscribeFailed_lands _ _ (by omega)))
  | pausing hn h =>
    cases step with
    | pauses _ => exact trySubscribe_lands _ fun _ => by omega

end Turn

end Act

end HeaterLink
