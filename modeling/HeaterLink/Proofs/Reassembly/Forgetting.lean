import HeaterLink.Proofs.Reassembly.Repeats

/-!
# What a header and a reset forget

The buffer of a reassembler is never cleared, so it still has bytes of messages
that are long over. They do not matter: of two reassemblers that have counted
the same and whose buffers agree on the bytes counted, nobody can tell which is
which. A header and a reset make all reassemblers of one table and one setting
such a pair, whatever they were fed before.
-/

set_option autoImplicit false

namespace HeaterLink

open Reassembler (Input)

def LengthTable.Erases (t : LengthTable) : Input → Prop
  | .reset => True
  | .fragment data => t.isHeader data

def LengthTable.malformedIn (t : LengthTable) : List Input → Nat
  | [] => 0
  | .reset :: rest => t.malformedIn rest
  | .fragment data :: rest => (if t.isMalformed data then 1 else 0) + t.malformedIn rest

theorem overwrite_written (buffer data : Bytes) (n : Nat) :
    (overwrite buffer n data).take (n + data.length) =
      (buffer.take n ++ data).take (min (n + data.length) buffer.length) := by
  have fits : min (n + data.length) buffer.length ≤ (buffer.take n ++ data).length := by
    rw [List.length_append, List.length_take]
    omega
  rw [overwrite, List.take_take, List.take_append_of_le_length fits]

namespace Reassembler

structure Alike (r q : Reassembler) : Prop where
  table : q.table = r.table
  dropRepeats : q.dropRepeats = r.dropRepeats
  active : q.active = r.active
  received : q.received = r.received
  last : q.last = r.last
  fitted : r.Fitted ∧ q.Fitted
  written : r.active = .status → q.buffer.take r.received = r.buffer.take r.received

variable {r q : Reassembler} {data : Bytes}

theorem Alike.length_eq (h : Alike r q) : q.buffer.length = r.buffer.length := by
  obtain ⟨fitted, fitted'⟩ := h.fitted
  exact fitted'.trans ((congrArg (LengthTable.payloadLength · .status) h.table).trans fitted.symm)

theorem alike_refl (h : r.Fitted) : Alike r r := ⟨rfl, rfl, rfl, rfl, rfl, ⟨h, h⟩, fun _ => rfl⟩

theorem Alike.trans {p : Reassembler} (h : Alike r q) (h' : Alike q p) : Alike r p where
  table := h'.table.trans h.table
  dropRepeats := h'.dropRepeats.trans h.dropRepeats
  active := h'.active.trans h.active
  received := h'.received.trans h.received
  last := h'.last.trans h.last
  fitted := ⟨h.fitted.1, h'.fitted.2⟩
  written := fun ha => by
    rw [← h.written ha, ← h.received]
    exact h'.written (h.active.trans ha)

theorem Alike.counted (h : Alike r q) (n m : Nat) :
    Alike { r with malformed := n } { q with malformed := m } := { h with }

theorem Alike.forgets (h : Alike r q) : Alike r.reset q.reset :=
  { h with active := rfl, received := rfl, last := rfl, written := nofun }

theorem Alike.extends (h : Alike r q) (data : Bytes) : Alike (r.extend data) (q.extend data) := by
  have fitted := And.intro (extend_fitted h.fitted.1 data) (extend_fitted h.fitted.2 data)
  by_cases ha : r.active = .status
  · have hq : q.active = .status := h.active.trans ha
    by_cases drop : r.dropRepeats = true ∧ r.last = some data
    · have drop' : q.dropRepeats = true ∧ q.last = some data := by rwa [h.dropRepeats, h.last]
      rwa [extend_dropped ha drop.1 drop.2, extend_dropped hq drop'.1 drop'.2]
    · have drop' : ¬(q.dropRepeats = true ∧ q.last = some data) := by rwa [h.dropRepeats, h.last]
      simp only [extend, ha, hq, if_true, if_neg drop, if_neg drop'] at fitted ⊢
      refine ⟨h.table, h.dropRepeats, rfl, by rw [h.received], rfl, fitted, fun _ => ?_⟩
      show (overwrite q.buffer q.received data).take (r.received + data.length) =
        (overwrite r.buffer r.received data).take (r.received + data.length)
      rw [h.received, overwrite_written, overwrite_written, h.written ha, h.length_eq]
  · have hq : q.active ≠ .status := fun e => ha (h.active.symm.trans e)
    simp only [extend, if_neg ha, if_neg hq] at fitted ⊢
    exact ⟨h.table, h.dropRepeats, h.active, by rw [h.received], h.last, fitted,
      fun e => absurd e ha⟩

theorem Alike.sealed?_eq (h : Alike r q) : q.sealed? = r.sealed? := by
  unfold sealed?
  rw [h.received, h.table, h.active]
  by_cases short : r.received < r.table.payloadLength r.active
  · rw [if_pos short, if_pos short]
  · rw [if_neg short, if_neg short]
    by_cases ha : r.active = .status
    · rw [ha] at short
      have whole : r.buffer.length ≤ r.received :=
        (Nat.le_of_eq h.fitted.1).trans (Nat.le_of_not_lt short)
      have same := h.written ha
      rw [List.take_of_length_le whole, List.take_of_length_le (h.length_eq ▸ whole)] at same
      rw [same]
    · rw [if_neg ha, if_neg ha]

theorem Alike.finishes (h : Alike r q) :
    Alike r.finish.1 q.finish.1 ∧ q.finish.2 = r.finish.2 := by
  unfold finish
  rw [h.sealed?_eq]
  cases r.sealed? with
  | none => exact ⟨h, rfl⟩
  | some c => exact ⟨h.forgets, rfl⟩

theorem feed_header_alike (table : q.table = r.table) (dropRepeats : q.dropRepeats = r.dropRepeats)
    (fitted : r.Fitted ∧ q.Fitted) (header : r.table.isHeader data = true) :
    Alike (r.feed data).1 (q.feed data).1 ∧ (q.feed data).2 = (r.feed data).2 := by
  obtain ⟨k, c, hc⟩ := LengthTable.isHeader_iff.mp header
  rw [show r.feed data = (r.start k (r.table.body data)).finish by rw [feed, hc],
    show q.feed data = (q.start k (r.table.body data)).finish by rw [feed, table, hc]]
  have opened : Alike { r.reset with active := k } { q.reset with active := k } :=
    ⟨table, dropRepeats, rfl, rfl, rfl, fitted, fun _ => by simp [reset]⟩
  exact (opened.extends _).finishes

theorem Alike.feeds (h : Alike r q) (data : Bytes) :
    Alike (r.feed data).1 (q.feed data).1 ∧ (q.feed data).2 = (r.feed data).2 := by
  cases hd : r.table.isHeader data with
  | true => exact feed_header_alike h.table h.dropRepeats h.fitted hd
  | false =>
    obtain ⟨n, hfeed⟩ := r.feed_inside hd
    obtain ⟨m, hfeed'⟩ := q.feed_inside (h.table ▸ hd)
    rw [hfeed, hfeed']
    by_cases idle : r.active = .none
    · rw [if_pos idle, if_pos (h.active.trans idle)]
      exact ⟨h.counted n m, rfl⟩
    · rw [if_neg idle, if_neg (h.active ▸ idle)]
      exact ((h.counted n m).extends data).finishes

theorem Alike.steps (h : Alike r q) (i : Input) :
    Alike (r.step i).1 (q.step i).1 ∧ (q.step i).2 = (r.step i).2 := by
  cases i with
  | reset => exact ⟨h.forgets, rfl⟩
  | fragment data => exact h.feeds data

/-- Nobody can tell the two apart. -/
theorem Alike.runs (h : Alike r q) (inputs : List Input) :
    Alike (r.run inputs).1 (q.run inputs).1 ∧ (q.run inputs).2 = (r.run inputs).2 := by
  induction inputs generalizing r q with
  | nil => exact ⟨h, rfl⟩
  | cons i rest ih =>
    obtain ⟨alike, now⟩ := h.steps i
    obtain ⟨behind, later⟩ := ih alike
    exact ⟨behind, congrArg₂ List.cons now later⟩

theorem erased_alike {first : Input} (table : q.table = r.table)
    (dropRepeats : q.dropRepeats = r.dropRepeats) (fitted : r.Fitted ∧ q.Fitted)
    (erases : r.table.Erases first) :
    Alike (r.step first).1 (q.step first).1 ∧ (q.step first).2 = (r.step first).2 := by
  cases first with
  | reset => exact ⟨⟨table, dropRepeats, rfl, rfl, rfl, fitted, nofun⟩, rfl⟩
  | fragment data => exact feed_header_alike table dropRepeats fitted erases

theorem run_malformed (r : Reassembler) (inputs : List Input) :
    (r.run inputs).1.malformed = r.malformed + r.table.malformedIn inputs := by
  induction inputs generalizing r with
  | nil => rfl
  | cons i rest ih =>
    obtain ⟨table, -⟩ := step_fields r i
    have later := ih (r.step i).1
    rw [table] at later
    cases i with
    | reset => exact later
    | fragment data =>
      have now : (r.step (.fragment data)).1.malformed = _ := feed_malformed r data
      rw [now, Nat.add_assoc] at later
      exact later

/-- Of any two pasts of a reassembler, a header or a reset leaves nothing: it completes the same,
and so do all later inputs, at each of which the same message is in progress with as many bytes
counted, and the malformed headers counted since are those of the stream. -/
theorem past_erased (t : LengthTable) (dropRepeats : Bool) (past past' : List Input)
    {first : Input} (erases : t.Erases first) (later : List Input) :
    let r := ((new t dropRepeats).run past).1
    let q := ((new t dropRepeats).run past').1
    let x := r.run (first :: later)
    let y := q.run (first :: later)
    y.2 = x.2 ∧ y.1.active = x.1.active ∧ y.1.received = x.1.received ∧
      x.1.malformed = r.malformed + t.malformedIn (first :: later) ∧
      y.1.malformed = q.malformed + t.malformedIn (first :: later) := by
  intro r q x y
  obtain ⟨table, setting, fitted⟩ := run_fields (new t dropRepeats) past
  obtain ⟨table', setting', fitted'⟩ := run_fields (new t dropRepeats) past'
  have erases : r.table.Erases first := table.symm ▸ erases
  obtain ⟨alike, now⟩ := erased_alike (r := r) (q := q) (table'.trans table.symm)
    (setting'.trans setting.symm)
    ⟨fitted (new_fitted t dropRepeats), fitted' (new_fitted t dropRepeats)⟩ erases
  obtain ⟨behind, done⟩ := alike.runs later
  refine ⟨congrArg₂ List.cons now done, behind.active, behind.received, ?_, ?_⟩
  · exact (run_malformed r _).trans (by rw [table]; rfl)
  · exact (run_malformed q _).trans (by rw [table']; rfl)

/-- One has stale bytes in its buffer and a message in progress, the other a fragment to compare
with. Behind a header both complete the same status, and both drop the repeat. -/
theorem past_erased_by_header :
    let t : LengthTable := ⟨2, 5, 149, 1⟩
    let past : List Input := [.fragment (magic ++ [5, 9, 9, 9, 9]), .fragment (magic ++ [149, 7])]
    let past' : List Input := [.fragment (magic ++ [5, 8]), .fragment [3], .fragment (magic ++ [6])]
    let first : Input := .fragment (magic ++ [5, 1])
    let later : List Input := [.fragment [3], .fragment [3], .fragment [2, 4]]
    let r := ((new t true).run past).1
    let q := ((new t true).run past').1
    t.Erases first ∧ (r.run (first :: later)).2 = [none, none, none, some (.status [1, 3, 2, 4])] ∧
      (q.run (first :: later)).2 = (r.run (first :: later)).2 := by
  have erases : (LengthTable.mk 2 5 149 1).Erases (.fragment (magic ++ [5, 1])) := rfl
  exact ⟨erases, by decide, (past_erased _ true _ _ erases _).1⟩

end Reassembler

end HeaterLink
