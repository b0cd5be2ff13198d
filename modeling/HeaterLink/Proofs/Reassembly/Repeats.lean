import HeaterLink.Proofs.Reassembly.Framing
import Mathlib.Data.List.Chain

/-!
# Repeats

A reassembler that drops repeats does what one that keeps them does with the
stream from which the echoes are taken: fragments that bring once more the
payload that came just before, inside a status message. The payload of a header
is remembered like a fragment of its own, so what comes behind a header can be
an echo without being a copy of it. As long as that does not happen, what is
dropped are copies and nothing else.
-/

set_option autoImplicit false

namespace HeaterLink

open Reassembler (Input)

namespace LengthTable

def body (t : LengthTable) (data : Bytes) : Bytes :=
  match t.classify data with
  | .header _ _ payload => payload
  | _ => data

def again (t : LengthTable) (same : Bytes → Bytes → Bool) : Input → Input → Bool
  | .fragment before, .fragment data => !t.isHeader data && same before data
  | _, _ => false

def copy (before data : Bytes) : Bool := before == data

def echo (t : LengthTable) (before data : Bytes) : Bool := t.body before == data

def HeaderEcho (t : LengthTable) : Input → Input → Prop
  | .fragment header, .fragment data => ∃ c, t.classify header = .header .status c data ∧
      t.isHeader data = false ∧ data ≠ [] ∧ data.length < t.payloadLength .status
  | _, _ => False

theorem body_later {t : LengthTable} {data : Bytes} (h : t.isHeader data = false) :
    t.body data = data := by
  unfold isHeader at h
  unfold body
  cases hc : t.classify data with
  | header k c payload => simp [hc] at h
  | malformed c => rfl
  | continuation => rfl

theorem body_header {t : LengthTable} {data payload : Bytes} {k : MessageKind} {c : UInt8}
    (h : t.classify data = .header k c payload) : t.body data = payload := by
  rw [body, h]

theorem isHeader_iff {t : LengthTable} {data : Bytes} :
    t.isHeader data = true ↔ ∃ k c, t.classify data = .header k c (t.body data) := by
  unfold isHeader body
  cases t.classify data <;> simp

end LengthTable

namespace Reassembler

def sift (same : Bytes → Bytes → Bool) (r : Reassembler) (before : Input) :
    List Input → List Input
  | [] => []
  | i :: rest =>
    if r.active = .status ∧ r.table.again same before i = true then (r.step i).1.sift same i rest
    else i :: (r.step i).1.sift same i rest

structure Abreast (r q : Reassembler) : Prop where
  table : q.table = r.table
  active : q.active = r.active
  buffer : q.buffer = r.buffer
  received : q.received = r.received

variable {r q : Reassembler} {data : Bytes} {before i : Input}

theorem Abreast.forgets (h : Abreast r q) : Abreast r.reset q.reset :=
  ⟨h.table, rfl, h.buffer, rfl⟩

theorem Abreast.finishes (h : Abreast r q) :
    Abreast r.finish.1 q.finish.1 ∧ q.finish.2 = r.finish.2 := by
  have same : q.sealed? = r.sealed? := by
    simp only [sealed?, h.table, h.active, h.buffer, h.received]
  unfold finish
  rw [same]
  cases r.sealed? with
  | none => exact ⟨h, rfl⟩
  | some c => exact ⟨h.forgets, rfl⟩

theorem Abreast.extends (h : Abreast r q) (data : Bytes)
    (kept : ¬(r.active = .status ∧ r.dropRepeats = true ∧ r.last = some data))
    (keeps : q.dropRepeats = false) : Abreast (r.extend data) (q.extend data) := by
  by_cases ha : r.active = .status
  · have hr : ¬(r.dropRepeats = true ∧ r.last = some data) := fun hl => kept ⟨ha, hl⟩
    have hq : ¬(q.dropRepeats = true ∧ q.last = some data) := by simp [keeps]
    have haq : q.active = .status := h.active.trans ha
    simp only [extend, ha, haq, if_true, if_neg hr, if_neg hq]
    exact ⟨h.table, rfl, by rw [h.buffer, h.received], by rw [h.received]⟩
  · have haq : q.active ≠ .status := fun e => ha (h.active.symm.trans e)
    simp only [extend, if_neg ha, if_neg haq]
    exact ⟨h.table, h.active, h.buffer, by rw [h.received]⟩

theorem overwrite_nil (buffer : Bytes) (n : Nat) : overwrite buffer n [] = buffer := by
  simp [overwrite]

theorem abreast_extend_nil (r : Reassembler) : Abreast r (r.extend []) := by
  unfold extend
  split_ifs
  · exact ⟨rfl, rfl, rfl, rfl⟩
  · exact ⟨rfl, rfl, overwrite_nil _ _, rfl⟩
  · exact ⟨rfl, rfl, rfl, rfl⟩

theorem Abreast.trans {p : Reassembler} (h : Abreast r q) (h' : Abreast q p) : Abreast r p :=
  ⟨h'.table.trans h.table, h'.active.trans h.active, h'.buffer.trans h.buffer,
    h'.received.trans h.received⟩

/-- A fragment that is no header goes to the message in progress, if there is one. -/
theorem feed_inside (r : Reassembler) (h : r.table.isHeader data = false) :
    ∃ n, r.feed data =
      if r.active = .none then ({ r with malformed := n }, none)
      else (extend { r with malformed := n } data).finish := by
  unfold LengthTable.isHeader at h
  unfold feed
  cases hc : r.table.classify data with
  | header k c payload => simp [hc] at h
  | malformed c => exact ⟨r.malformed + 1, rfl⟩
  | continuation => exact ⟨r.malformed, rfl⟩

theorem finish_open (h : r.finish.1.active = .status) :
    r.finish.1 = r ∧ r.received < r.table.payloadLength .status := by
  unfold finish at h ⊢
  cases hs : r.sealed? with
  | some c =>
    rw [hs] at h
    cases h
  | none =>
    rw [hs] at h
    have ha : r.active = .status := h
    refine ⟨rfl, ?_⟩
    unfold sealed? at hs
    rw [ha] at hs
    by_contra hlen
    simp [hlen] at hs

theorem finish_short (ha : r.active = .status) (h : r.received < r.table.payloadLength .status) :
    r.finish = (r, none) := by
  have hs : r.sealed? = none := by simp [sealed?, ha, h]
  simp [finish, hs]

theorem extend_dropped (ha : r.active = .status) (drops : r.dropRepeats = true)
    (last : r.last = some data) : r.extend data = r := by
  simp [extend, ha, drops, last]

theorem extend_last (ha : r.active = .status) (data : Bytes) :
    (r.extend data).last = some data := by
  unfold extend
  rw [if_pos ha]
  split
  · rename_i h
    exact h.2
  · rfl

structure Brought (r : Reassembler) (data : Bytes) : Prop where
  last : r.last = some (r.table.body data)
  header : r.table.isHeader data = true → r.received = (r.table.body data).length ∧
    ∃ c, r.table.classify data = .header .status c (r.table.body data)

structure Remembers (r : Reassembler) (before : Input) : Prop where
  drops : r.dropRepeats = true
  short : r.active = .status → r.received < r.table.payloadLength .status
  brought : r.active = .status → ∃ data, before = .fragment data ∧ r.Brought data

theorem remembers_idle (drops : r.dropRepeats = true) (idle : r.active = .none) :
    r.Remembers before where
  drops := drops
  short := fun h => by rw [idle] at h; cases h
  brought := fun h => by rw [idle] at h; cases h

theorem new_remembers (t : LengthTable) : (new t true).Remembers .reset := remembers_idle rfl rfl

theorem finish_remembers (drops : r.dropRepeats = true)
    (brought : r.active = .status → r.Brought data) : r.finish.1.Remembers (.fragment data) where
  drops := (finish_dropRepeats r).trans drops
  short := fun h => by
    obtain ⟨same, short⟩ := finish_open h
    rwa [same]
  brought := fun h => by
    obtain ⟨same, -⟩ := finish_open h
    rw [same] at h ⊢
    exact ⟨data, rfl, brought h⟩

theorem Remembers.step (h : r.Remembers before) (i : Input) : (r.step i).1.Remembers i := by
  cases i with
  | reset => exact remembers_idle h.drops rfl
  | fragment data =>
    show (r.feed data).1.Remembers (.fragment data)
    cases hd : r.table.isHeader data with
    | true =>
      obtain ⟨k, c, hc⟩ := LengthTable.isHeader_iff.mp hd
      rw [show r.feed data = (r.start k (r.table.body data)).finish by rw [feed, hc]]
      refine finish_remembers (by simpa [start, reset] using h.drops) fun ha => ?_
      obtain rfl : k = .status := by simpa [start] using ha
      refine ⟨?_, fun _ => ⟨?_, c, ?_⟩⟩ <;> simp [start, extend, reset, hc]
    | false =>
      obtain ⟨n, hfeed⟩ := r.feed_inside hd
      rw [hfeed]
      split
      · rename_i idle
        exact remembers_idle h.drops idle
      · refine finish_remembers (by simpa using h.drops) fun ha => ⟨?_, fun header => ?_⟩
        · rw [extend_active] at ha
          rw [extend_table, LengthTable.body_later hd, extend_last ha]
        · rw [extend_table, hd] at header
          cases header

theorem Abreast.step_dropped (h : Abreast r q) (remembers : r.Remembers before)
    (ha : r.active = .status) (echo : r.table.again r.table.echo before i = true) :
    Abreast (r.step i).1 q ∧ (r.step i).2 = none := by
  obtain ⟨b, rfl, brought⟩ := remembers.brought ha
  cases i with
  | reset => cases echo
  | fragment data =>
    simp only [LengthTable.again, LengthTable.echo, Bool.and_eq_true, Bool.not_eq_true',
      beq_iff_eq] at echo
    obtain ⟨hd, rfl⟩ := echo
    obtain ⟨n, hfeed⟩ := r.feed_inside hd
    have dropped := extend_dropped (r := { r with malformed := n }) ha remembers.drops brought.last
    have short := finish_short (r := { r with malformed := n }) ha (remembers.short ha)
    show Abreast (r.feed _).1 q ∧ (r.feed _).2 = none
    rw [hfeed, if_neg (by simp [ha]), dropped, short]
    exact ⟨⟨h.table, h.active, h.buffer, h.received⟩, rfl⟩

/-- What is no echo is taken by both, and so is an empty one. -/
theorem Abreast.step_kept (h : Abreast r q) (remembers : r.Remembers before)
    (keeps : q.dropRepeats = false)
    (kept : r.active = .status → r.table.again r.table.echo before i = true → i = .fragment []) :
    Abreast (r.step i).1 (q.step i).1 ∧ (q.step i).2 = (r.step i).2 := by
  cases i with
  | reset => exact ⟨h.forgets, rfl⟩
  | fragment data =>
    show Abreast (r.feed data).1 (q.feed data).1 ∧ (q.feed data).2 = (r.feed data).2
    cases hd : r.table.isHeader data with
    | true =>
      obtain ⟨k, c, hc⟩ := LengthTable.isHeader_iff.mp hd
      rw [show r.feed data = (r.start k (r.table.body data)).finish by rw [feed, hc],
        show q.feed data = (q.start k (r.table.body data)).finish by rw [feed, h.table, hc]]
      have opened : Abreast { r.reset with active := k } { q.reset with active := k } :=
        ⟨h.table, rfl, h.buffer, rfl⟩
      exact (opened.extends _ (by simp [reset]) keeps).finishes
    | false =>
      obtain ⟨n, hfeed⟩ := r.feed_inside hd
      have hd' : q.table.isHeader data = false := h.table ▸ hd
      obtain ⟨m, hfeed'⟩ := q.feed_inside hd'
      have counted : Abreast { r with malformed := n } { q with malformed := m } :=
        ⟨h.table, h.active, h.buffer, h.received⟩
      rw [hfeed, hfeed']
      by_cases idle : r.active = .none
      · rw [if_pos idle, if_pos (h.active.trans idle)]
        exact ⟨counted, rfl⟩
      · rw [if_neg idle, if_neg (h.active ▸ idle)]
        by_cases drop : r.active = .status ∧ r.dropRepeats = true ∧ r.last = some data
        · obtain ⟨ha, -, hl⟩ := drop
          obtain ⟨b, rfl, brought⟩ := remembers.brought ha
          obtain rfl : r.table.body b = data := Option.some.inj (brought.last.symm.trans hl)
          have hnil :=
            Input.fragment.inj (kept ha (by simp [LengthTable.again, LengthTable.echo, hd]))
          have dropped := extend_dropped (r := { r with malformed := n }) ha remembers.drops hl
          rw [dropped, hnil]
          exact (counted.trans (abreast_extend_nil _)).finishes
        · exact (counted.extends data drop keeps).finishes

def Fair (t : LengthTable) (same : Bytes → Bytes → Bool) (before i : Input) : Prop :=
  ∀ b, before = .fragment b → (t.isHeader b = true → (t.body b).length < t.payloadLength .status ∧
      ∃ c, t.classify b = .header .status c (t.body b)) →
    (t.again same before i = true → t.again t.echo before i = true) ∧
      (t.again t.echo before i = true → t.again same before i = true ∨ i = .fragment [])

theorem fair_echo (t : LengthTable) (before i : Input) : Fair t t.echo before i :=
  fun _ _ _ => ⟨id, .inl⟩

/-- Outside of a header, what brings the payload of the fragment before is a copy of it. -/
theorem fair_copy {t : LengthTable} (h : ¬t.HeaderEcho before i) :
    Fair t LengthTable.copy before i := by
  rintro b rfl header
  cases i with
  | reset => exact ⟨fun e => (Bool.false_ne_true e).elim, fun e => (Bool.false_ne_true e).elim⟩
  | fragment data =>
    simp only [LengthTable.again, LengthTable.copy, LengthTable.echo, Bool.and_eq_true,
      Bool.not_eq_true', beq_iff_eq]
    refine ⟨fun ⟨hd, e⟩ => ⟨hd, e ▸ LengthTable.body_later (e ▸ hd)⟩, fun ⟨hd, e⟩ => ?_⟩
    cases hb : t.isHeader b with
    | false => exact .inl ⟨hd, (LengthTable.body_later hb).symm.trans e⟩
    | true =>
      obtain ⟨short, c, hc⟩ := header hb
      rw [e] at short hc
      by_contra other
      have some : data ≠ [] := fun hnil => other (.inr (congrArg Input.fragment hnil))
      exact h ⟨c, hc, hd, some, short⟩

theorem Fair.inside {same : Bytes → Bytes → Bool} (fair : Fair r.table same before i)
    (remembers : r.Remembers before) (ha : r.active = .status) :
    (r.table.again same before i = true → r.table.again r.table.echo before i = true) ∧
      (r.table.again r.table.echo before i = true →
        r.table.again same before i = true ∨ i = .fragment []) := by
  obtain ⟨b, rfl, brought⟩ := remembers.brought ha
  refine fair b rfl fun header => ?_
  obtain ⟨received, opened⟩ := brought.header header
  exact ⟨received ▸ remembers.short ha, opened⟩

theorem completions_cons (r : Reassembler) (i : Input) (rest : List Input) :
    r.completions (i :: rest) = (r.step i).2.toList ++ (r.step i).1.completions rest := by
  show ((r.step i).2 :: ((r.step i).1.run rest).2).filterMap id = _
  cases (r.step i).2 <;> rfl

/-- One that drops repeats and one that keeps them go abreast, if a fair rule keeps the
repeats from the latter. -/
theorem sift_run {same : Bytes → Bytes → Bool} (inputs : List Input) (h : Abreast r q)
    (remembers : r.Remembers before) (keeps : q.dropRepeats = false)
    (fair : (before :: inputs).IsChain (Fair r.table same)) :
    r.completions inputs = q.completions (r.sift same before inputs) ∧
      Abreast (r.run inputs).1 (q.run (r.sift same before inputs)).1 := by
  -- `Abreast` and `Remembers` carry the induction. On an echo only one of the two moves.
  induction inputs generalizing r q before with
  | nil => exact ⟨rfl, h⟩
  | cons i rest ih =>
    obtain ⟨now, later⟩ := List.isChain_cons_cons.mp fair
    obtain ⟨table, -, -⟩ := step_fields r i
    rw [← table] at later
    by_cases repeated : r.active = .status ∧ r.table.again same before i = true
    · have echo := (now.inside remembers repeated.1).1 repeated.2
      obtain ⟨abreast, quiet⟩ := h.step_dropped remembers repeated.1 echo
      obtain ⟨done, behind⟩ := ih abreast (remembers.step i) keeps later
      rw [sift, if_pos repeated, completions_cons, quiet]
      exact ⟨done, behind⟩
    · have kept (ha : r.active = .status) (echo : r.table.again r.table.echo before i = true) :
          i = .fragment [] :=
        ((now.inside remembers ha).2 echo).resolve_left fun again => repeated ⟨ha, again⟩
      obtain ⟨abreast, same⟩ := h.step_kept remembers keeps kept
      obtain ⟨done, behind⟩ :=
        ih abreast (remembers.step i) ((step_fields q i).2.1.trans keeps) later
      rw [sift, if_neg repeated, completions_cons, completions_cons, same, done]
      exact ⟨rfl, behind⟩

theorem sift_append (same : Bytes → Bytes → Bool) (r : Reassembler) (before i : Input)
    (first later : List Input) :
    r.sift same before (first ++ i :: later) =
      r.sift same before (first ++ [i]) ++ (r.run (first ++ [i])).1.sift same i later := by
  induction first generalizing r before with
  | nil =>
    by_cases h : r.active = .status ∧ r.table.again same before i = true
    · simp [sift, h, run]
    · simp [sift, h, run]
  | cons j rest ih =>
    by_cases h : r.active = .status ∧ r.table.again same before j = true
    · simp [sift, h, run, ih]
    · simp [sift, h, run, ih]

theorem sift_snoc {same : Bytes → Bytes → Bool} {r : Reassembler} {start before i : Input}
    {first : List Input} (kept : r.table.again same before i = false) :
    r.sift same start (first ++ [before, i]) = r.sift same start (first ++ [before]) ++ [i] := by
  obtain ⟨table, -⟩ := run_fields r (first ++ [before])
  rw [sift_append, sift, if_neg (by simp [table, kept]), sift]

/-- With a stream, a reassembler that drops repeats completes what one that keeps them completes
without the repeats, and they are in the middle of the same message behind it. -/
def Drops (t : LengthTable) (same : Bytes → Bytes → Bool) (inputs : List Input) : Prop :=
  (new t true).completions inputs =
      (new t false).completions ((new t true).sift same .reset inputs) ∧
    Abreast ((new t true).run inputs).1
      ((new t false).run ((new t true).sift same .reset inputs)).1

theorem new_abreast (t : LengthTable) : Abreast (new t true) (new t false) := ⟨rfl, rfl, rfl, rfl⟩

theorem drops_of_fair {t : LengthTable} {same : Bytes → Bytes → Bool} {inputs : List Input}
    (fair : inputs.IsChain (Fair t same)) : Drops t same inputs := by
  have first : (Input.reset :: inputs).IsChain (Fair t same) :=
    List.isChain_cons.mpr ⟨fun i _ b e => (by cases e), fair⟩
  exact sift_run inputs (new_abreast t) (new_remembers t) rfl first

theorem drops_echoes (t : LengthTable) (inputs : List Input) : Drops t t.echo inputs := by
  refine drops_of_fair (List.isChain_iff_getElem.mpr fun n _ => ?_)
  exact fair_echo t _ _

theorem Remembers.run (h : r.Remembers before) (inputs : List Input) :
    ∃ i, (r.run inputs).1.Remembers i := by
  induction inputs generalizing r before with
  | nil => exact ⟨before, h⟩
  | cons i rest ih => exact ih (h.step i)

theorem step_header {header payload : Bytes} {c : UInt8}
    (hc : r.table.classify header = .header .status c payload)
    (short : payload.length < r.table.payloadLength .status) :
    (r.step (.fragment header)).1.active = .status := by
  have ha : (r.start .status payload).active = .status := by simp [start]
  have started : (r.start .status payload).received = payload.length := by
    simp [start, extend, reset]
  have ht : (r.start .status payload).table = r.table := by simp [start, reset]
  have hfeed : r.feed header = (r.start .status payload).finish := by rw [feed, hc]
  show (r.feed header).1.active = .status
  rw [hfeed, finish_short ha (by rwa [started, ht])]
  exact ha

theorem step_counts (ha : r.active = .status) (keeps : r.dropRepeats = false)
    (hd : r.table.isHeader data = false) :
    (r.step (.fragment data)).1.active = .none ∨
      (r.step (.fragment data)).1.received = r.received + data.length := by
  obtain ⟨n, hfeed⟩ := r.feed_inside hd
  show (r.feed data).1.active = .none ∨ (r.feed data).1.received = _
  rw [hfeed, if_neg (by simp [ha])]
  unfold finish
  split
  · exact .inr (by simp [extend, ha, keeps])
  · exact .inl rfl

theorem Abreast.step_apart (h : Abreast r q) (remembers : r.Remembers before)
    (ha : r.active = .status) (echo : r.table.again r.table.echo before (.fragment data) = true)
    (keeps : q.dropRepeats = false) (some : data ≠ []) :
    ¬Abreast (r.step (.fragment data)).1 (q.step (.fragment data)).1 := by
  intro h'
  obtain ⟨dropped, -⟩ := h.step_dropped remembers ha echo
  have hd : q.table.isHeader data = false := by
    obtain ⟨b, rfl, -⟩ := remembers.brought ha
    rw [h.table]
    simpa using (Bool.and_eq_true_iff.mp echo).1
  have active := h'.active.trans dropped.active.symm
  have received := h'.received.trans dropped.received.symm
  rcases step_counts (h.active.trans ha) keeps hd with idle | counted
  · rw [h.active, ha, idle] at active
    cases active
  · exact some (List.length_eq_zero_iff.mp (by omega))

/-- Behind an echo of a header the two are apart, if only copies count as repeats. -/
theorem headerEcho_apart {t : LengthTable} {first : List Input} {before i : Input}
    (echo : t.HeaderEcho before i) (together : Drops t LengthTable.copy (first ++ [before])) :
    ¬Drops t LengthTable.copy (first ++ [before, i]) := by
  cases before with
  | reset => exact echo.elim
  | fragment header =>
    cases i with
    | reset => exact echo.elim
    | fragment data =>
      -- Up to the header the two are abreast. Behind the echo, which is no copy of the header and
      -- so not taken from the stream, only one of them has its bytes.
      obtain ⟨c, hc, hd, some, short⟩ := echo
      obtain ⟨-, abreast⟩ := together
      rintro ⟨-, abreast'⟩
      have again : t.again t.echo (.fragment header) (.fragment data) = true := by
        simp [LengthTable.again, LengthTable.echo, LengthTable.body_header hc, hd]
      have other : t.again LengthTable.copy (.fragment header) (.fragment data) = false := by
        have unlike : header ≠ data := fun e => by
          rw [← e, LengthTable.isHeader, hc] at hd
          cases hd
        simp [LengthTable.again, LengthTable.copy, unlike]
      obtain ⟨b, remembers⟩ := (new_remembers t).run first
      obtain ⟨table, -⟩ := run_fields (new t true) first
      have ha : ((new t true).run (first ++ [.fragment header])).1.active = .status := by
        rw [run_snoc]
        exact step_header (by rwa [table]) (by rwa [table])
      have behind : ((new t true).run (first ++ [.fragment header])).1.Remembers
          (.fragment header) := by
        rw [run_snoc]
        exact remembers.step _
      have split : first ++ [.fragment header, .fragment data] =
          (first ++ [.fragment header]) ++ [Input.fragment data] := by simp
      rw [sift_snoc other, run_snoc, split, run_snoc] at abreast'
      obtain ⟨table', -⟩ := run_fields (new t true) (first ++ [.fragment header])
      exact abreast.step_apart behind ha (table' ▸ again) (run_fields (new t false) _).2.1 some
        abreast'

/-- What is dropped are the echoes: with every stream, the completions are those of the stream
without them. They are those of the stream without the copies, at every point of it, exactly
if no header of a status message is directly followed by the payload it has brought. -/
theorem dropping_repeats (t : LengthTable) (inputs : List Input) :
    Drops t t.echo inputs ∧
      ((∀ first, first <+: inputs → Drops t LengthTable.copy first) ↔
        inputs.IsChain fun before i => ¬t.HeaderEcho before i) := by
  refine ⟨drops_echoes t inputs, fun drops => ?_, fun plain first part => ?_⟩
  · refine List.isChain_iff_forall_rel_of_append_cons_cons.mpr fun before i l₁ l₂ split echo => ?_
    have one : l₁ ++ [before] <+: inputs := ⟨i :: l₂, by simp [split]⟩
    have two : l₁ ++ [before, i] <+: inputs := ⟨l₂, by simp [split]⟩
    exact headerEcho_apart echo (drops _ one) (drops _ two)
  · have begun : first.IsChain fun before i => ¬t.HeaderEcho before i :=
      List.IsChain.prefix plain part
    exact drops_of_fair (begun.imp fun _ _ => fair_copy)

/-- Two bytes behind a header that has brought the same two: the message that they complete is
lost, though they are no copy of the header. -/
theorem echo_of_header_lost :
    let t : LengthTable := ⟨2, 5, 149, 1⟩
    let inputs : List Input := [.fragment (magic ++ [5, 1, 2]), .fragment [1, 2]]
    (new t true).sift LengthTable.copy .reset inputs = inputs ∧
      (new t true).completions inputs = [] ∧
      (new t false).completions ((new t true).sift LengthTable.copy .reset inputs) =
        [.status [1, 2, 1, 2]] := by
  decide

end Reassembler

end HeaterLink
