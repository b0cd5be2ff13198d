import HeaterLink.Proofs.Reassembly.Segments
import HeaterLink.Proofs.Requests.Inbound
import HeaterLink.Proofs.Requests.Steps
import HeaterLink.Proofs.Session.History

/-!
# Messages in histories

A status message in progress was started by one entry of the history. What the
entries since then fed to the reassembler is its header and the fragments
behind it, and the token that its header marked is that of the request that was
pending when the header came.
-/

set_option autoImplicit false

namespace HeaterLink

def LengthTable.statusStart? (t : LengthTable) (data : Bytes) : Option Bytes :=
  match t.classify data with
  | .header .status _ payload => some payload
  | _ => Option.none

def Profile.gather (p : Profile) (first : Bytes) (later : List Bytes) : Gathering :=
  later.foldl (Gathering.add p.dropRepeats) ⟨.status, first, first⟩

/-- The fragments of one status message: the bytes suffice with the last of them and
not before, and none of them but the first is a header. -/
structure StatusMessage (p : Profile) (header first : Bytes) (later : List Bytes)
    (payload : Bytes) : Prop where
  starts : p.lengths.statusStart? header = some first
  inside : ∀ data ∈ later, p.lengths.isHeader data = false
  short : ∀ n < later.length,
    (p.gather first (later.take n)).bytes.length < p.lengths.payloadLength .status
  full : p.lengths.payloadLength .status ≤ (p.gather first later).bytes.length
  payload : payload = (p.gather first later).bytes.take (p.lengths.payloadLength .status)

theorem LengthTable.completion_eq_status {t : LengthTable} {k : MessageKind} {bytes payload : Bytes}
    (h : Completion.status payload = t.completion k bytes) :
    k = .status ∧ payload = bytes.take (t.payloadLength .status) := by
  unfold LengthTable.completion at h
  split at h
  · rename_i hk
    exact ⟨hk, Completion.status.inj h⟩
  · cases h

theorem Inbound.mark_later {i : Inbound} {data : Bytes}
    (h : i.reassembler.table.isHeader data = false) : i.mark data = i := by
  unfold LengthTable.isHeader at h
  unfold Inbound.mark
  cases hc : i.reassembler.table.classify data with
  | header k c payload => simp [hc] at h
  | malformed c => rfl
  | continuation => rfl

theorem Profile.gather_snoc (p : Profile) (first : Bytes) (later : List Bytes) (data : Bytes) :
    p.gather first (later ++ [data]) = (p.gather first later).add p.dropRepeats data := by
  simp [gather, List.foldl_append]

theorem Profile.gather_kind (p : Profile) (first : Bytes) (later : List Bytes) :
    (p.gather first later).kind = .status := by
  suffices h : ∀ g : Gathering, (later.foldl (Gathering.add p.dropRepeats) g).kind = g.kind by
    exact h _
  induction later with
  | nil => exact fun g => rfl
  | cons data rest ih => exact fun g => (ih _).trans (Gathering.add_kind _ _ _)

namespace Reassembler

theorem run_resets (r : Reassembler) {inputs : List Input} (h : ∀ i ∈ inputs, i = .reset)
    (hne : inputs ≠ []) : (r.run inputs).1.Holds none := by
  induction inputs generalizing r with
  | nil => exact absurd rfl hne
  | cons i rest ih =>
    obtain rfl := h i (by simp)
    by_cases hr : rest = []
    · subst hr
      rfl
    · exact ih _ (fun j hj => h j (by simp [hj])) hr

end Reassembler

structure Session.SetUp (config : Config) (s : Session) : Prop where
  settings : s.config = config
  table : s.inbound.reassembler.table = config.profile.lengths
  dropRepeats : s.inbound.reassembler.dropRepeats = config.profile.dropRepeats
  fitted : s.inbound.reassembler.Fitted

theorem Session.setUp_keeps (config : Config) : Session.Keeps (Session.SetUp config) where
  poll := by
    intro s m c after h step
    obtain ⟨call, -, hl⟩ := Session.poll_leads step
    have hreq := hl.onRequests
    obtain ⟨ht, hd, hf⟩ := Reassembler.run_fields s.inbound.reassembler
      (after.2.filterMap Effect.input?)
    rw [← hreq.reassembler] at ht hd hf
    exact ⟨hreq.config.trans h.settings, ht.trans h.table, hd.trans h.dropRepeats, hf h.fitted⟩
  listen := by
    intro s i after h step
    cases step with
    | wakes _ _ => exact ⟨h.settings, h.table, h.dropRepeats, h.fitted⟩
    | @takes stream data rest _ _ _ =>
      have hf := ((Inbound.take_takes s.config.profile.layout s.ratedPower s.inbound data).fields).1
      refine ⟨h.settings, ?_, ?_, ?_⟩
      · rw [hf, Reassembler.feed_table, h.table]
      · rw [hf, Reassembler.feed_dropRepeats, h.dropRepeats]
      · rw [hf]
        exact Reassembler.feed_fitted h.fitted data
    | ends _ _ _ _ => exact ⟨h.settings, h.table, h.dropRepeats, h.fitted⟩
    | drops _ _ => exact ⟨h.settings, h.table, h.dropRepeats, h.fitted⟩
  invoke := fun _ h _ => ⟨h.settings, h.table, h.dropRepeats, h.fitted⟩
  answer := fun _ _ h => ⟨h.settings, h.table, h.dropRepeats, h.fitted⟩
  deliver := fun _ _ h => ⟨h.settings, h.table, h.dropRepeats, h.fitted⟩
  closeStream := fun _ h => ⟨h.settings, h.table, h.dropRepeats, h.fitted⟩
  report := fun _ _ h => ⟨h.settings, h.table, h.dropRepeats, h.fitted⟩
  setRatedPower := fun _ h => ⟨h.settings, h.table, h.dropRepeats, h.fitted⟩

namespace Course

variable {wall : Nat → Clock} {config : Config} {x y : Course} {a : Action}
  {after : Session × List Effect}

theorem reached_setUp : ∀ x, Reached wall config x → x.session.SetUp config :=
  reached_keeps ⟨rfl, rfl, rfl, Reassembler.new_fitted _ _⟩ (Session.setUp_keeps config)

structure Tracks (config : Config) (x : Course) (h : Nat) (header first : Bytes)
    (later : List Bytes) : Prop where
  took : ∃ i, x.Did h (.took i header)
  inputs : x.inputsFrom h = (header :: later).map .fragment
  starts : config.profile.lengths.statusStart? header = some first
  inside : ∀ data ∈ later, config.profile.lengths.isHeader data = false
  short : ∀ n < later.length, (config.profile.gather first (later.take n)).bytes.length <
    config.profile.lengths.payloadLength .status
  token : x.session.inbound.headerToken = (x.sessionAt h).inbound.pendingToken

def Tracked (config : Config) (x : Course) : Prop :=
  ∃ g, x.session.inbound.reassembler.Holds g ∧ ∀ m, g = some m → m.kind = .status →
    ∃ h header first later, x.Tracks config h header first later ∧
      m = config.profile.gather first later

/-- A fragment that a listener takes is all that its step feeds to the reassembler. -/
theorem inputs_of_take (layout : StatusLayout) (watts : UInt32) (inbound : Inbound) (i : StreamId)
    (data : Bytes) :
    (Effect.took i data :: (inbound.take layout watts data).2).filterMap Effect.input? =
      [.fragment data] := by
  have hnil : (inbound.take layout watts data).2.filterMap Effect.input? = [] := by
    refine List.filterMap_eq_nil_iff.mpr fun e he => ?_
    rcases (Inbound.take_takes layout watts inbound data).mem he with ⟨event, rfl⟩ | ⟨p, -, -, rfl⟩
      <;> rfl
  rw [List.filterMap_cons, hnil]
  rfl

structure Feeds (x y : Course) (last : Entry) (i : StreamId) (data : Bytes) : Prop where
  history : y.history = x.history ++ [last]
  before : last.before = x.session
  took : .took i data ∈ last.effects
  inputs : last.inputs = [.fragment data]
  reassembler : y.session.inbound.reassembler = (x.session.inbound.reassembler.feed data).1
  token : y.session.inbound.headerToken = (x.session.inbound.mark data).headerToken

theorem feeds_of_take {last : Entry} {i : StreamId} {data : Bytes} (layout : StatusLayout)
    (watts : UInt32) (history : y.history = x.history ++ [last]) (before : last.before = x.session)
    (effects : last.effects = .took i data :: (x.session.inbound.take layout watts data).2)
    (inbound : y.session.inbound = (x.session.inbound.take layout watts data).1) :
    x.Feeds y last i data := by
  have fields := (Inbound.take_takes layout watts x.session.inbound data).fields
  constructor
  case history => exact history
  case before => exact before
  case took => simp [effects]
  case inputs => rw [Entry.inputs, effects, inputs_of_take]
  case reassembler => rw [inbound, fields.1]
  case token => rw [inbound, fields.2]

section Fragment

variable {i : StreamId} {data : Bytes} {last : Entry} {h : Nat} {header first : Bytes}
  {later : List Bytes}

theorem Feeds.begins (f : x.Feeds y last i data) : x.Begins y := begins_snoc f.history f.before

theorem Feeds.tracks_header (f : x.Feeds y last i data)
    (starts : config.profile.lengths.statusStart? data = some first)
    (marked : (x.session.inbound.mark data).headerToken = x.session.inbound.pendingToken) :
    y.Tracks config x.history.length data first [] where
  took := ⟨i, (did_snoc_iff f.history).mpr (.inr ⟨rfl, f.took⟩)⟩
  inputs := by
    rw [inputsFrom_snoc f.history (Nat.le_refl _), f.inputs]
    simp [inputsFrom]
  starts := starts
  inside := by simp
  short := by simp
  token := by rw [f.begins.session, f.token, marked]

theorem Feeds.tracks_later (f : x.Feeds y last i data) (hx : x.Tracks config h header first later)
    (inside : config.profile.lengths.isHeader data = false)
    (short : (config.profile.gather first later).bytes.length <
      config.profile.lengths.payloadLength .status)
    (marked : (x.session.inbound.mark data).headerToken = x.session.inbound.headerToken) :
    y.Tracks config h header first (later ++ [data]) := by
  obtain ⟨j, hj⟩ := hx.took
  have hlt := did_lt hj
  constructor
  case took => exact ⟨j, f.begins.did hj⟩
  case inputs =>
    rw [inputsFrom_snoc f.history (Nat.le_of_lt hlt), hx.inputs, f.inputs]
    simp
  case starts => exact hx.starts
  case inside =>
    intro d hd
    rcases List.mem_append.mp hd with hd | hd
    · exact hx.inside d hd
    · exact List.mem_singleton.mp hd ▸ inside
  case short =>
    intro n hn
    rw [List.length_append, List.length_singleton] at hn
    rw [List.take_append_of_le_length (by omega)]
    rcases Nat.lt_or_ge n later.length with hlt | hge
    · exact hx.short n hlt
    · rw [List.take_of_length_le hge]
      exact short
  case token => rw [f.token, marked, hx.token, f.begins.sessionAt (Nat.le_of_lt hlt)]

def Completed (config : Config) (x y : Course) (data : Bytes) : Prop :=
  ∀ payload, (x.session.inbound.reassembler.feed data).2 = some (.status payload) →
    ∃ h header first later, y.Tracks config h header first later ∧
      StatusMessage config.profile header first later payload

/-- A header starts a message of its own. -/
theorem Feeds.tracked_header (f : x.Feeds y last i data) (setUp : x.session.SetUp config)
    {g : Option Gathering} (holds : x.session.inbound.reassembler.Holds g)
    (hc : config.profile.lengths.isHeader data = true) :
    y.Tracked config ∧ Completed config x y data := by
  obtain ⟨hfst, hsnd⟩ := Reassembler.feed_gathering setUp.fitted holds data
  rw [← f.reassembler] at hfst
  rw [Completed, hsnd]
  rw [setUp.table, setUp.dropRepeats] at hfst ⊢
  obtain ⟨k, c, q, hclass⟩ : ∃ k c q, config.profile.lengths.classify data = .header k c q := by
    unfold LengthTable.isHeader at hc
    split at hc
    · exact ⟨_, _, _, ‹_›⟩
    · cases hc
  have marked : (x.session.inbound.mark data).headerToken = x.session.inbound.pendingToken := by
    rw [Inbound.mark, setUp.table, hclass]
  have starts (hk : k = .status) : config.profile.lengths.statusStart? data = some q := by
    rw [LengthTable.statusStart?, hclass, hk]
  simp only [Gathering.feed, hclass] at hfst ⊢
  refine ⟨⟨_, hfst, fun m hm hk => ?_⟩, fun payload hdone => ?_⟩
  · obtain ⟨rfl, -, -⟩ := Gathering.eq_of_settle_fst hm
    obtain rfl : k = .status := hk
    exact ⟨_, _, _, _, f.tracks_header (starts rfl) marked, rfl⟩
  · obtain ⟨hfull, hpayload⟩ := Gathering.eq_of_settle_snd hdone
    obtain ⟨rfl, rfl⟩ := LengthTable.completion_eq_status hpayload
    exact ⟨_, _, _, _, f.tracks_header (starts rfl) marked, starts rfl, by simp, by simp, hfull,
      rfl⟩

/-- What is no header goes to the message in progress, if there is one. -/
theorem Feeds.tracked_later (f : x.Feeds y last i data) (setUp : x.session.SetUp config)
    (tracked : x.Tracked config) (hc : config.profile.lengths.isHeader data = false) :
    y.Tracked config ∧ Completed config x y data := by
  obtain ⟨g, holds, started⟩ := tracked
  obtain ⟨hfst, hsnd⟩ := Reassembler.feed_gathering setUp.fitted holds data
  rw [← f.reassembler] at hfst
  rw [Completed, hsnd]
  rw [setUp.table, setUp.dropRepeats] at hfst ⊢
  have marked : (x.session.inbound.mark data).headerToken = x.session.inbound.headerToken := by
    rw [Inbound.mark_later (setUp.table ▸ hc)]
  rw [Gathering.feed_later hc] at hfst ⊢
  cases g with
  | none => exact ⟨⟨none, hfst, by simp⟩, by simp⟩
  | some m₀ =>
    simp only [Option.map_some, Option.elim_some] at hfst ⊢
    have hkind := Gathering.add_kind config.profile.dropRepeats m₀ data
    have hshort : m₀.bytes.length < config.profile.lengths.payloadLength m₀.kind := by
      have := Reassembler.HoldsMessage.short holds
      rwa [setUp.table] at this
    refine ⟨⟨_, hfst, fun m hm hk => ?_⟩, fun payload hdone => ?_⟩
    · obtain ⟨rfl, -, -⟩ := Gathering.eq_of_settle_fst hm
      obtain ⟨h, header, first, later, tracks, rfl⟩ := started m₀ rfl (hkind.symm.trans hk)
      rw [Profile.gather_kind] at hshort
      exact ⟨h, header, first, later ++ [data], f.tracks_later tracks hc hshort marked,
        (Profile.gather_snoc _ _ _ _).symm⟩
    · obtain ⟨hfull, hpayload⟩ := Gathering.eq_of_settle_snd hdone
      obtain ⟨hk, rfl⟩ := LengthTable.completion_eq_status hpayload
      obtain ⟨h, header, first, later, tracks, rfl⟩ := started m₀ rfl (hkind.symm.trans hk)
      rw [Profile.gather_kind] at hshort
      have tracks' := f.tracks_later tracks hc hshort marked
      rw [hk, ← Profile.gather_snoc] at hfull
      exact ⟨h, header, first, later ++ [data], tracks', tracks'.starts, tracks'.inside,
        tracks'.short, hfull, by rw [Profile.gather_snoc]⟩

theorem Feeds.tracked (f : x.Feeds y last i data) (setUp : x.session.SetUp config)
    (tracked : x.Tracked config) : y.Tracked config ∧ Completed config x y data := by
  cases hc : config.profile.lengths.isHeader data with
  | true =>
    obtain ⟨g, holds, -⟩ := tracked
    exact f.tracked_header setUp holds hc
  | false => exact f.tracked_later setUp tracked hc

end Fragment

theorem tracked_of_same {last : Entry} (tracked : x.Tracked config)
    (hy : y.history = x.history ++ [last]) (before : last.before = x.session)
    (inputs : last.inputs = [])
    (reassembler : y.session.inbound.reassembler = x.session.inbound.reassembler)
    (token : y.session.inbound.headerToken = x.session.inbound.headerToken) :
    y.Tracked config := by
  obtain ⟨g, holds, started⟩ := tracked
  refine ⟨g, reassembler ▸ holds, fun m hm hk => ?_⟩
  obtain ⟨h, header, first, later, tracks, e⟩ := started m hm hk
  obtain ⟨j, hj⟩ := tracks.took
  have hlt := did_lt hj
  refine ⟨h, header, first, later, ⟨⟨j, (begins_snoc hy before).did hj⟩, ?_, tracks.starts,
    tracks.inside, tracks.short, ?_⟩, e⟩
  · rw [inputsFrom_snoc hy (Nat.le_of_lt hlt), inputs, List.append_nil, tracks.inputs]
  · rw [token, tracks.token, (begins_snoc hy before).sessionAt (Nat.le_of_lt hlt)]

theorem tracked_of_idle (h : y.session.inbound.reassembler.Holds none) : y.Tracked config :=
  ⟨none, h, fun m hm => by cases hm⟩

theorem reached_tracked : ∀ x, Reached wall config x → x.Tracked config := by
  refine reached_induction (tracked_of_idle (Reassembler.new_holds _ _)) fun x a y hx ih step => ?_
  obtain ⟨after, hr, rfl⟩ := take?_reacts step
  cases hr with
  | @poll c _ hp =>
    obtain ⟨call, -, hl⟩ := Session.poll_leads hp
    have hreq := hl.onRequests
    by_cases hnil : after.2.filterMap Effect.input? = []
    · refine tracked_of_same ih rfl rfl hnil ?_ hreq.headerToken
      exact hreq.reassembler.trans (by rw [hnil]; rfl)
    · refine tracked_of_idle ?_
      show Reassembler.Holds after.1.inbound.reassembler none
      rw [hreq.reassembler]
      exact Reassembler.run_resets _ hreq.resets hnil
  | listen hl =>
    cases hl with
    | wakes _ _ => exact tracked_of_idle (Reassembler.reset_holds _)
    | takes _ _ _ =>
      exact ((feeds_of_take _ _ rfl rfl rfl rfl).tracked (reached_setUp x hx) ih).1
    | ends _ _ _ _ => exact tracked_of_idle (Reassembler.reset_holds _)
    | drops _ _ => exact tracked_of_same ih rfl rfl rfl rfl rfl
  | invoke => exact tracked_of_same ih rfl rfl rfl rfl rfl
  | resolve _ _ => exact tracked_of_same ih rfl rfl rfl rfl rfl
  | complete _ _ => exact tracked_of_same ih rfl rfl rfl rfl rfl
  | deliver _ => exact tracked_of_same ih rfl rfl rfl rfl rfl
  | closeStream => exact tracked_of_same ih rfl rfl rfl rfl rfl
  | report => exact tracked_of_same ih rfl rfl rfl rfl rfl
  | setRatedPower => exact tracked_of_same ih rfl rfl rfl rfl rfl
  | pass => exact tracked_of_same ih rfl rfl rfl rfl rfl

end Course

end HeaterLink
