import HeaterLink.Proofs.Readings.Honesty
import HeaterLink.Proofs.Requests.Strands

/-!
# What a profile can read

All status payloads of a profile have the same length. So whether they can be read
does not depend on what the element sends: either every one of them is long enough
for the layout, and gives a reading that has each field from its place, or none is,
and a session with that profile never knows anything.
-/

set_option autoImplicit false

namespace HeaterLink

namespace StatusLayout

variable {l : StatusLayout} {watts : UInt32} {payload : Bytes} {offset : Nat}

structure Reads (l : StatusLayout) (watts : UInt32) (payload : Bytes) (r : Reading) : Prop where
  stateCode : payload[l.stateCode]? = some r.stateCode
  current : payload[l.current]?.map UInt8.toFloat = some r.current
  target : payload[l.target]?.map UInt8.toFloat = some r.target
  lower : payload[l.lower]?.map UInt8.toFloat = some r.lower
  upper : payload[l.upper]?.map UInt8.toFloat = some r.upper
  minutes : ∃ high low, payload[l.minutes]? = some high ∧ payload[l.minutes + 1]? = some low ∧
    r.minutes.toNat = 256 * high.toNat + low.toNat
  energy : r.energy = energyUsed r.minutes watts

theorem offsets_lt (l : StatusLayout) : l.stateCode < l.minLength ∧ l.current < l.minLength ∧
    l.target < l.minLength ∧ l.lower < l.minLength ∧ l.upper < l.minLength ∧
    l.minutes + 1 < l.minLength := by
  simp only [minLength, List.foldl_cons, List.foldl_nil]
  omega

theorem getElem?_field (h : offset < payload.length) :
    payload[offset]? = some (field payload offset) := by
  simp [field, h]

theorem parse_reads (h : l.minLength ≤ payload.length) :
    ∃ r, l.parse watts payload = .ok r ∧ l.Reads watts payload r := by
  obtain ⟨stateCode, current, target, lower, upper, minutes⟩ := l.offsets_lt
  refine ⟨_, if_neg (Nat.not_lt.mpr h), ?_⟩
  constructor
  case stateCode => exact getElem?_field (by omega)
  case current => rw [getElem?_field (by omega), Option.map_some]
  case target => rw [getElem?_field (by omega), Option.map_some]
  case lower => rw [getElem?_field (by omega), Option.map_some]
  case upper => rw [getElem?_field (by omega), Option.map_some]
  case minutes =>
    refine ⟨_, _, getElem?_field (by omega), getElem?_field (by omega), ?_⟩
    have high := (field payload l.minutes).toNat_lt
    have low := (field payload (l.minutes + 1)).toNat_lt
    simp only [minuteCount, UInt16.toNat_add, UInt16.toNat_mul, UInt8.toNat_toUInt16]
    simp
    omega
  case energy => rfl

theorem parse_refuses (h : payload.length < l.minLength) :
    l.parse watts payload = .error (.tooShort l.minLength payload.length) := if_pos h

end StatusLayout

def Effect.ofStatus : Effect → Bool
  | .answered _ _ => true
  | .emitted (.reading _) => true
  | _ => false

def Profile.Decodable (p : Profile) : Prop :=
  p.layout.minLength ≤ p.lengths.payloadLength .status

instance (p : Profile) : Decidable p.Decodable := inferInstanceAs (Decidable (_ ≤ _))

namespace Reassembler

variable {r : Reassembler} {data payload : Bytes}

theorem finish_length (fitted : r.Fitted) (h : r.finish.2 = some (.status payload)) :
    payload.length = r.table.payloadLength .status := by
  cases hs : r.sealed? with
  | none => simp [finish, hs] at h
  | some c =>
    obtain rfl : c = .status payload := by simpa [finish, hs] using h
    unfold sealed? at hs
    split_ifs at hs
    · obtain rfl := Completion.status.inj (Option.some.inj hs)
      exact fitted
    · cases hs

theorem feed_length (fitted : r.Fitted) (h : (r.feed data).2 = some (.status payload)) :
    payload.length = r.table.payloadLength .status := by
  unfold feed at h
  split at h
  · simpa [start, reset] using finish_length (start_fitted fitted _ _) h
  · split at h
    · cases h
    · simpa using finish_length (extend_fitted fitted _) h
  · have counted : Fitted { r with malformed := r.malformed + 1 } := fitted
    split at h
    · cases h
    · simpa using finish_length (extend_fitted counted _) h

end Reassembler

namespace Inbound

variable {layout : StatusLayout} {watts : UInt32} {i : Inbound} {data payload : Bytes}
  {after : Inbound × List Effect} {r : Reading}

/-- A status that can be read is the last reading from then on, and is told of once. -/
theorem Takes.reads (h : Takes layout watts i data after)
    (done : (i.reassembler.feed data).2 = some (.status payload))
    (parsed : layout.parse watts payload = .ok r) :
    after.1.lastReading = some r ∧ after.2.filterMap Effect.reading? = [r] := by
  cases h with
  | short hdone => cases done.symm.trans hdone
  | other hdone => cases done.symm.trans hdone
  | refused hdone hparse =>
    cases done.symm.trans hdone
    cases parsed.symm.trans hparse
  | noted hdone hparse _ =>
    cases done.symm.trans hdone
    cases parsed.symm.trans hparse
    exact ⟨rfl, by rw [List.filterMap_append, warning_readings]; rfl⟩
  | answers hdone hparse _ _ =>
    cases done.symm.trans hdone
    cases parsed.symm.trans hparse
    exact ⟨rfl, by rw [List.filterMap_append, warning_readings]; rfl⟩

theorem warning_ofStatus (i : Inbound) (data : Bytes) :
    ∀ e ∈ i.warning data, e.ofStatus = false := by
  unfold warning
  split <;> simp [Effect.ofStatus]

theorem Takes.blind (h : Takes layout watts i data after)
    (unread : ∀ payload r, (i.reassembler.feed data).2 = some (.status payload) →
      layout.parse watts payload ≠ .ok r) :
    after.1.lastReading = i.lastReading ∧ ∀ e ∈ after.2, e.ofStatus = false := by
  have hfed : (i.fed data).lastReading = i.lastReading := by rw [fed, mark_eq]
  have warned := warning_ofStatus i data
  cases h with
  | short _ => exact ⟨hfed, warned⟩
  | refused _ _ => exact ⟨hfed, warned⟩
  | @other k _ =>
    refine ⟨hfed, fun e he => ?_⟩
    rcases List.mem_append.mp he with he | he
    · exact warned e he
    · obtain rfl := List.mem_singleton.mp he
      rfl
  | noted hdone hparse _ => exact absurd hparse (unread _ _ hdone)
  | answers hdone hparse _ _ => exact absurd hparse (unread _ _ hdone)

end Inbound

theorem Session.SetUp.unread {config : Config} {s : Session} (h : s.SetUp config)
    (undecodable : ¬config.profile.Decodable) {data : Bytes} (payload : Bytes) (r : Reading)
    (done : (s.inbound.reassembler.feed data).2 = some (.status payload)) :
    s.config.profile.layout.parse s.ratedPower payload ≠ .ok r := by
  have length := Reassembler.feed_length h.fitted done
  have short : payload.length < s.config.profile.layout.minLength := by
    rw [length, h.table, h.settings]
    exact Nat.lt_of_not_le undecodable
  rw [StatusLayout.parse_refuses short]
  simp

theorem Session.blind_keeps {config : Config} (undecodable : ¬config.profile.Decodable) :
    Session.Keeps fun s => s.SetUp config ∧ s.inbound.lastReading = none where
  poll := by
    intro s m c after h step
    refine ⟨(setUp_keeps config).poll h.1 step, ?_⟩
    obtain ⟨call, -, hl⟩ := Session.poll_leads step
    rw [hl.onRequests.lastReading]
    exact h.2
  listen := by
    intro s i after h step
    refine ⟨(setUp_keeps config).listen h.1 step, ?_⟩
    cases step with
    | takes _ _ _ =>
      have takes := Inbound.take_takes s.config.profile.layout s.ratedPower s.inbound
      exact ((takes _).blind (h.1.unread undecodable)).1.trans h.2
    | _ => exact h.2
  invoke := fun r h c => ⟨(setUp_keeps config).invoke r h.1 c, h.2⟩
  answer := fun c a h => ⟨(setUp_keeps config).answer c a h.1, h.2⟩
  deliver := fun i data h => ⟨(setUp_keeps config).deliver i data h.1, h.2⟩
  closeStream := fun i h => ⟨(setUp_keeps config).closeStream i h.1, h.2⟩
  report := fun a b h => ⟨(setUp_keeps config).report a b h.1, h.2⟩
  setRatedPower := fun w h => ⟨(setUp_keeps config).setRatedPower w h.1, h.2⟩

namespace Course

variable {wall : Nat → Clock} {config : Config} {x : Course} {a : Action}
  {after : Session × List Effect} {n : Nat} {payload : Bytes} {r : Reading}

def Seals (x : Course) (n : Nat) (payload : Bytes) : Prop :=
  ∃ i data, x.Did n (.took i data) ∧
    ((x.sessionAt n).inbound.reassembler.feed data).2 = some (.status payload)

structure Decodes (config : Config) (x : Course) (n : Nat) (payload : Bytes) (r : Reading) :
    Prop where
  parsed : config.profile.layout.parse (x.sessionAt n).ratedPower payload = .ok r
  reads : config.profile.layout.Reads (x.sessionAt n).ratedPower payload r
  known : (x.sessionAt (n + 1)).inbound.lastReading = some r
  told : x.readingsBetween n (n + 1) = [r]

structure Blind (x : Course) : Prop where
  unknown : ∀ n, (x.sessionAt n).inbound.lastReading = none
  untold : ∀ n r, ¬x.Did n (.emitted (.reading r))
  unanswered : ∀ n c k, ¬x.Did n (.answered c k)
  noData : ∀ n c response, x.Responds n c response → response = .noData

theorem Reacts.takes (h : x.Reacts wall a after) {i : StreamId} {data : Bytes}
    (hd : .took i data ∈ after.2) :
    ∃ taken, x.session.inbound.Takes x.session.config.profile.layout x.session.ratedPower data
      taken ∧ after.1.inbound = taken.1 ∧ after.2 = .took i data :: taken.2 := by
  rcases h.mem hd with ⟨c, call, -, -, hreq⟩ | ⟨j, -, hl⟩
  · exact absurd hd (hreq.took i data)
  · cases hl with
    | @takes stream data' rest _ _ _ =>
      obtain ⟨rfl, rfl⟩ := took_eq _ _ _ hd
      exact ⟨_, Inbound.take_takes _ _ _ _, rfl, rfl⟩
    | ends _ _ _ _ =>
      rcases List.mem_append.mp hd with hd | hd
      · simp at hd
      · split at hd <;> simp at hd
    | _ => simp at hd

/-- With an undecodable profile nothing comes of what is received. -/
theorem Reacts.blind (h : x.Reacts wall a after) (setUp : x.session.SetUp config)
    (undecodable : ¬config.profile.Decodable) : ∀ e ∈ after.2, e.ofStatus = false := by
  intro e he
  rcases h.mem he with ⟨c, call, -, -, hreq⟩ | ⟨i, -, hl⟩
  · cases e with
    | answered c k => exact absurd he (hreq.answered c k)
    | emitted event =>
      cases event with
      | reading r => exact absurd he (hreq.quiet r)
      | _ => rfl
    | _ => rfl
  · cases hl with
    | takes _ _ _ =>
      have takes := Inbound.take_takes x.session.config.profile.layout x.session.ratedPower
        x.session.inbound
      rcases List.mem_cons.mp he with rfl | he
      · rfl
      · exact ((takes _).blind (setUp.unread undecodable)).2 e he
    | wakes _ _ =>
      obtain rfl := List.mem_singleton.mp he
      rfl
    | drops _ _ =>
      obtain rfl := List.mem_singleton.mp he
      rfl
    | ends _ _ _ _ =>
      rcases List.mem_append.mp he with he | he
      · simp only [List.mem_cons, List.not_mem_nil, or_false] at he
        rcases he with rfl | rfl | rfl <;> rfl
      · split at he
        · cases he
        · obtain rfl := List.mem_singleton.mp he
          rfl

theorem Seals.takes (hx : Reached wall config x) (seals : x.Seals n payload) :
    ∃ data taken, (x.sessionAt n).inbound.Takes config.profile.layout (x.sessionAt n).ratedPower
      data taken ∧ ((x.sessionAt n).inbound.reassembler.feed data).2 = some (.status payload) ∧
      (x.sessionAt (n + 1)).inbound = taken.1 ∧
      x.readingsBetween n (n + 1) = taken.2.filterMap Effect.reading? := by
  obtain ⟨i, data, ⟨entry, hn, took⟩, done⟩ := seals
  obtain ⟨y, after, hy, begins, rfl, -, hr, heffects, hnext⟩ := reached_entry x hx n entry hn
  obtain ⟨taken, takes, inbound, effects⟩ := hr.takes (heffects ▸ took)
  rw [(reached_setUp y hy).settings, ← begins.session] at takes
  refine ⟨data, taken, takes, done, by rw [hnext, inbound], ?_⟩
  rw [readingsBetween_succ hn (Nat.le_refl _), Entry.readings, heffects, effects,
    List.filterMap_cons]
  simp [readingsBetween, Effect.reading?]

theorem Seals.length (hx : Reached wall config x) (seals : x.Seals n payload) :
    payload.length = config.profile.lengths.payloadLength .status := by
  obtain ⟨i, data, -, done⟩ := seals
  have setUp := reached_sessionAt reached_setUp hx n
  rw [← setUp.table]
  exact Reassembler.feed_length setUp.fitted done

theorem Seals.decodes (hx : Reached wall config x) (decodable : config.profile.Decodable)
    (seals : x.Seals n payload) : ∃ r, x.Decodes config n payload r := by
  have long : config.profile.layout.minLength ≤ payload.length := seals.length hx ▸ decodable
  obtain ⟨r, parsed, reads⟩ :
      ∃ r, config.profile.layout.parse (x.sessionAt n).ratedPower payload = .ok r ∧
        config.profile.layout.Reads (x.sessionAt n).ratedPower payload r :=
    StatusLayout.parse_reads long
  obtain ⟨data, taken, takes, done, inbound, told⟩ := seals.takes hx
  obtain ⟨known, once⟩ := takes.reads done parsed
  exact ⟨r, parsed, reads, by rw [inbound, known], by rw [told, once]⟩

theorem reached_blind (hx : Reached wall config x) (undecodable : ¬config.profile.Decodable) :
    x.Blind := by
  have unknown (n : Nat) : (x.sessionAt n).inbound.lastReading = none := by
    have new : Reached wall config (start config) := ⟨[], rfl⟩
    have blind : ∀ y, Reached wall config y →
        y.session.SetUp config ∧ y.session.inbound.lastReading = none :=
      reached_keeps ⟨reached_setUp _ new, rfl⟩ (Session.blind_keeps undecodable)
    exact (reached_sessionAt (P := fun s => s.SetUp config ∧ s.inbound.lastReading = none)
      blind hx n).2
  have nothing {n : Nat} {e : Effect} (he : x.Did n e) : e.ofStatus = false := by
    obtain ⟨y, a, after, hy, -, -, hr, he, -⟩ := reached_did hx he
    exact hr.blind (reached_setUp y hy) undecodable e he
  refine ⟨unknown, fun n r hr => ?_, fun n c k ha => ?_, fun n c response h => ?_⟩
  · cases nothing hr
  · cases nothing ha
  · have hn := h.finished hx
    rcases falls_back hx h with ⟨r, rfl⟩ | e
    · obtain ⟨e, fresh⟩ := freshFrom_of_fresh hx hn
      obtain ⟨k, g, m, answers, -⟩ := fresh.answers
      cases nothing answers.answered
    · have none := unknown n
      rw [lastReading_eq hx (Nat.le_of_lt (did_lt hn))] at none
      rw [e, none]
      rfl

/-- Every status payload has the length that the profile gives it. If that suffices for the layout
every status is read and told of, and otherwise none is and nobody gets an answer. -/
theorem reached_profile (hx : Reached wall config x) :
    (∀ n payload, x.Seals n payload →
      payload.length = config.profile.lengths.payloadLength .status) ∧
      (config.profile.layout.minLength ≤ config.profile.lengths.payloadLength .status →
        ∀ n payload, x.Seals n payload → ∃ r, x.Decodes config n payload r) ∧
      (config.profile.lengths.payloadLength .status < config.profile.layout.minLength →
        x.Blind) :=
  ⟨fun _ _ seals => seals.length hx, fun decodable _ _ seals => seals.decodes hx decodable,
    fun short => reached_blind hx (Nat.not_le.mpr short)⟩

def cutShort : Config := { oneAttempt with
  profile := { Profile.standard with layout := { StatusLayout.standard with minutes := 47 } } }

/-- The same status, and the same call after it, with a profile that reads it and with one that
does not. -/
theorem profile_reads_or_not :
    ∃ x y payload payload' r, Reached noon oneAttempt x ∧ Reached noon cutShort y ∧
      x.Seals 18 payload ∧ y.Seals 18 payload' ∧ payload.length = 48 ∧ payload'.length = 48 ∧
      x.Decodes oneAttempt 18 payload r ∧
      y.Did 26 (.returned 2 (.response .noData)) ∧ y.Blind := by
  have h : ((start oneAttempt).run? noon silence).any (fun x =>
      ((start cutShort).run? noon silence).any fun y =>
        decide (x.Did 18 (.took 0 (magic ++ 49 :: List.replicate 48 1)) ∧
          ((x.sessionAt 18).inbound.reassembler.feed (magic ++ 49 :: List.replicate 48 1)).2 =
            some (.status (List.replicate 48 1)) ∧
          y.Did 18 (.took 0 (magic ++ 49 :: List.replicate 48 1)) ∧
          ((y.sessionAt 18).inbound.reassembler.feed (magic ++ 49 :: List.replicate 48 1)).2 =
            some (.status (List.replicate 48 1)) ∧
          y.Did 26 (.returned 2 (.response .noData)))) = true := by
    decide +kernel
  obtain ⟨x, hx, h⟩ := (Option.any_eq_true _ _).mp h
  obtain ⟨y, hy, h⟩ := (Option.any_eq_true _ _).mp h
  obtain ⟨took, done, took', done', returned⟩ := of_decide_eq_true h
  have seals : x.Seals 18 _ := ⟨0, _, took, done⟩
  have seals' : y.Seals 18 _ := ⟨0, _, took', done'⟩
  obtain ⟨length, reads, -⟩ := reached_profile ⟨silence, hx⟩
  obtain ⟨length', -, blind⟩ := reached_profile ⟨silence, hy⟩
  obtain ⟨r, decodes⟩ := reads (by decide) 18 _ seals
  exact ⟨x, y, _, _, r, ⟨silence, hx⟩, ⟨silence, hy⟩, seals, seals', length 18 _ seals,
    length' 18 _ seals', decodes, returned, blind (by decide)⟩

end Course

end HeaterLink
