import HeaterLink.Proofs.Reassembly.Repeats
import Mathlib.Data.List.Destutter

/-!
# What is counted, read off the stream

The counter and the buffer of a reassembler say how far the message in progress
has come. Both can be read off the stream: the last header opens the message,
and what counts is its payload and the fragments behind it that were not
dropped. Outside of a message nothing is counted, but for one case. A header of
the idle kind that brings a part of the payload it asks for opens no message,
and yet its bytes stay counted until the next header or reset.
-/

set_option autoImplicit false

namespace HeaterLink

open Reassembler (Input)

structure LengthTable.Opens (t : LengthTable) (inputs : List Input) (k : MessageKind)
    (payload : Bytes) (later : List Bytes) : Prop where
  header : ∃ before data c, t.classify data = .header k c payload ∧
    inputs = before ++ (data :: later).map .fragment
  inside : ∀ data ∈ later, t.isHeader data = false

/-- The last header of a stream is of the idle kind. It has brought some of the payload that its
code asks for, but not all. -/
def LengthTable.EndsBlank (t : LengthTable) (inputs : List Input) : Prop :=
  ∃ payload later, t.Opens inputs .none payload later ∧ payload ≠ [] ∧
    payload.length < t.payloadLength .none

def taken (dropRepeats : Bool) (payload : Bytes) (later : List Bytes) : List Bytes :=
  if dropRepeats = true then (payload :: later).destutter (· ≠ ·) else payload :: later

namespace LengthTable

variable {t : LengthTable} {inputs : List Input} {i : Input} {k : MessageKind}
  {data payload : Bytes} {later : List Bytes} {c : UInt8}

theorem not_opens_nil : ¬t.Opens [] k payload later := by
  rintro ⟨⟨before, data, c, -, split⟩, -⟩
  simp at split

theorem opens_snoc_iff : t.Opens (inputs ++ [i]) k payload later ↔
    (later = [] ∧ ∃ data c, i = .fragment data ∧ t.classify data = .header k c payload) ∨
      ∃ first data, later = first ++ [data] ∧ i = .fragment data ∧ t.isHeader data = false ∧
        t.Opens inputs k payload first := by
  constructor
  · rintro ⟨⟨before, header, c, hc, split⟩, inside⟩
    rcases List.eq_nil_or_concat later with rfl | ⟨first, data, rfl⟩
    · obtain ⟨-, last⟩ := List.append_inj' split rfl
      exact .inl ⟨rfl, header, c, by simpa using last, hc⟩
    · rw [List.concat_eq_append] at split inside ⊢
      rw [← List.cons_append, List.map_append, ← List.append_assoc] at split
      obtain ⟨begun, last⟩ := List.append_inj' split rfl
      exact .inr ⟨first, data, rfl, by simpa using last, inside data (by simp),
        ⟨before, header, c, hc, begun⟩, fun d hd => inside d (by simp [hd])⟩
  · rintro (⟨rfl, data, c, rfl, hc⟩ | ⟨first, data, rfl, rfl, hd, opens⟩)
    · exact ⟨⟨inputs, data, c, hc, rfl⟩, by simp⟩
    · obtain ⟨⟨before, header, c, hc, rfl⟩, inside⟩ := opens
      refine ⟨⟨before, header, c, hc, by simp⟩, fun d hd' => ?_⟩
      rcases List.mem_append.mp hd' with hd' | hd'
      · exact inside d hd'
      · rwa [List.mem_singleton.mp hd']

theorem not_endsBlank_reset : ¬t.EndsBlank (inputs ++ [.reset]) := by
  rintro ⟨payload, later, opens, -⟩
  rcases opens_snoc_iff.mp opens with ⟨-, data, c, e, -⟩ | ⟨first, data, -, e, -⟩ <;> cases e

theorem endsBlank_header (hc : t.classify data = .header k c payload) :
    t.EndsBlank (inputs ++ [.fragment data]) ↔
      k = .none ∧ payload ≠ [] ∧ payload.length < t.payloadLength .none := by
  constructor
  · rintro ⟨p, later, opens, some, short⟩
    rcases opens_snoc_iff.mp opens with ⟨-, d, c', e, hc'⟩ | ⟨first, d, -, e, hd, -⟩
    · obtain rfl := Input.fragment.inj e
      obtain ⟨rfl, -, rfl⟩ := Fragment.header.inj (hc.symm.trans hc')
      exact ⟨rfl, some, short⟩
    · obtain rfl := Input.fragment.inj e
      simp [isHeader, hc] at hd
  · rintro ⟨rfl, some, short⟩
    exact ⟨payload, [], opens_snoc_iff.mpr (.inl ⟨rfl, data, c, rfl, hc⟩), some, short⟩

theorem endsBlank_later (hd : t.isHeader data = false) :
    t.EndsBlank (inputs ++ [.fragment data]) ↔ t.EndsBlank inputs := by
  constructor
  · rintro ⟨payload, later, opens, some, short⟩
    rcases opens_snoc_iff.mp opens with ⟨-, d, c, e, hc⟩ | ⟨first, d, -, e, -, opens⟩
    · obtain rfl := Input.fragment.inj e
      simp [isHeader, hc] at hd
    · exact ⟨payload, first, opens, some, short⟩
  · rintro ⟨payload, later, opens, some, short⟩
    exact ⟨payload, later ++ [data],
      opens_snoc_iff.mpr (.inr ⟨later, data, rfl, rfl, hd, opens⟩), some, short⟩

theorem kindOf?_of_header (hc : t.classify data = .header k c payload) : t.kindOf? c = some k := by
  unfold classify at hc
  split at hc
  · split at hc
    · cases hc
    · split at hc
      · rename_i owned
        obtain ⟨rfl, rfl, -⟩ := Fragment.header.inj hc
        exact owned
      · cases hc
  · cases hc

/-- A stream can end so exactly if the idle kind owns its code, and the code is above two. -/
theorem exists_endsBlank_iff : (∃ inputs, t.EndsBlank inputs) ↔
    t.kindOf? t.none = some .none ∧ 1 < t.payloadLength .none := by
  constructor
  · rintro ⟨inputs, payload, later, ⟨⟨before, data, c, hc, -⟩, -⟩, some, short⟩
    have owned := kindOf?_of_header hc
    have brought : 0 < payload.length := List.length_pos_iff.mpr some
    obtain rfl : t.none = c := code_of_kindOf? owned
    exact ⟨owned, by omega⟩
  · rintro ⟨owned, long⟩
    have hc : t.classify (magic ++ t.none :: [0]) = .header .none t.none [0] := by
      rw [classify_message, owned]
    refine ⟨[] ++ [.fragment (magic ++ t.none :: [0])], (endsBlank_header hc).mpr ⟨rfl, ?_, ?_⟩⟩
    · simp
    · simpa using long

end LengthTable

theorem taken_cons (dropRepeats : Bool) (last data : Bytes) (rest : List Bytes) :
    taken dropRepeats last (data :: rest) =
      if dropRepeats = true ∧ last = data then taken dropRepeats last rest
      else last :: taken dropRepeats data rest := by
  cases dropRepeats with
  | false => simp [taken]
  | true =>
    by_cases same : last = data
    · simp [taken, List.destutter_cons', same]
    · simp [taken, List.destutter_cons', same]

theorem gathered_taken (dropRepeats : Bool) (payload : Bytes) (later : List Bytes) :
    (later.foldl (Gathering.add dropRepeats) ⟨.status, payload, payload⟩).bytes =
      (taken dropRepeats payload later).flatten := by
  -- What was gathered before the last fragment does not matter to what is dropped next.
  suffices gathered : ∀ first last, (later.foldl (Gathering.add dropRepeats)
      ⟨.status, first ++ last, last⟩).bytes = first ++ (taken dropRepeats last later).flatten by
    exact gathered [] payload
  induction later with
  | nil => cases dropRepeats <;> simp [taken]
  | cons data rest ih =>
    intro first last
    rw [taken_cons, List.foldl_cons]
    by_cases drop : dropRepeats = true ∧ last = data
    · have dropped : Gathering.add dropRepeats ⟨.status, first ++ last, last⟩ data =
          ⟨.status, first ++ last, last⟩ := if_pos ⟨drop.1, rfl, drop.2⟩
      rw [if_pos drop, dropped]
      exact ih first last
    · have added : Gathering.add dropRepeats ⟨.status, first ++ last, last⟩ data =
          ⟨.status, first ++ last ++ data, data⟩ := if_neg fun h => drop ⟨h.1, h.2.2⟩
      rw [if_neg drop, added, ih (first ++ last) data, List.flatten_cons, List.append_assoc]

namespace Reassembler

/-- What a reassembler holds is what the last header has brought, and the fragments behind it. -/
theorem run_holds (t : LengthTable) (dropRepeats : Bool) (inputs : List Input) :
    ∃ g, ((new t dropRepeats).run inputs).1.Holds g ∧ ∀ m, g = some m →
      ∃ payload later, t.Opens inputs m.kind payload later ∧
        m = later.foldl (Gathering.add dropRepeats) ⟨m.kind, payload, payload⟩ := by
  induction inputs using List.reverseRecOn with
  | nil => exact ⟨none, new_holds t dropRepeats, nofun⟩
  | append_singleton inputs i ih =>
    obtain ⟨g, holds, gathered⟩ := ih
    obtain ⟨table, setting, fitted⟩ := run_fields (new t dropRepeats) inputs
    rw [run_snoc]
    cases i with
    | reset => exact ⟨none, reset_holds _, nofun⟩
    | fragment data =>
      have fed := (feed_gathering (fitted (new_fitted t dropRepeats)) holds data).1
      rw [table, setting, show (new t dropRepeats).table = t from rfl,
        show (new t dropRepeats).dropRepeats = dropRepeats from rfl] at fed
      refine ⟨_, fed, fun m hm => ?_⟩
      cases hd : t.isHeader data with
      | true =>
        obtain ⟨k, c, hc⟩ := LengthTable.isHeader_iff.mp hd
        have settled : (Gathering.settle t ⟨k, t.body data, t.body data⟩).1 = some m := by
          rw [← hm, Gathering.feed, hc]
        obtain ⟨rfl, -⟩ := Gathering.eq_of_settle_fst settled
        exact ⟨t.body data, [], LengthTable.opens_snoc_iff.mpr (.inl ⟨rfl, data, c, rfl, hc⟩), rfl⟩
      | false =>
        rw [Gathering.feed_later hd] at hm
        cases g with
        | none => cases hm
        | some g =>
          obtain ⟨payload, later, opens, same⟩ := gathered g rfl
          obtain ⟨rfl, -⟩ := Gathering.eq_of_settle_fst hm
          refine ⟨payload, later ++ [data], ?_, ?_⟩
          · rw [Gathering.add_kind]
            exact LengthTable.opens_snoc_iff.mpr (.inr ⟨later, data, rfl, rfl, hd, opens⟩)
          · rw [Gathering.add_kind, List.foldl_append, ← same]
            rfl

theorem finish_leaves (r : Reassembler) : r.finish.1.active = .none ∧ r.finish.1.received ≠ 0 ↔
    r.active = .none ∧ r.received ≠ 0 ∧ r.received < r.table.payloadLength .none := by
  unfold finish sealed?
  by_cases short : r.received < r.table.payloadLength r.active
  · rw [if_pos short]
    exact ⟨fun ⟨idle, counted⟩ => ⟨idle, counted, idle ▸ short⟩, fun h => ⟨h.1, h.2.1⟩⟩
  · rw [if_neg short]
    constructor
    · intro h
      split at h <;> simp_all [reset]
    · rintro ⟨idle, -, short'⟩
      exact absurd (idle ▸ short') short

/-- Bytes that are counted outside of a message are those of a header of the idle kind. -/
theorem run_idle (t : LengthTable) (dropRepeats : Bool) (inputs : List Input) :
    ((new t dropRepeats).run inputs).1.active = .none ∧
      ((new t dropRepeats).run inputs).1.received ≠ 0 ↔ t.EndsBlank inputs := by
  induction inputs using List.reverseRecOn with
  | nil =>
    refine ⟨fun h => absurd rfl h.2, ?_⟩
    rintro ⟨payload, later, opens, -⟩
    exact (LengthTable.not_opens_nil opens).elim
  | append_singleton inputs i ih =>
    obtain ⟨table, -⟩ := run_fields (new t dropRepeats) inputs
    rw [run_snoc]
    generalize ((new t dropRepeats).run inputs).1 = r at ih table ⊢
    obtain rfl : r.table = t := table
    cases i with
    | reset => exact ⟨fun h => absurd rfl h.2, fun h => (LengthTable.not_endsBlank_reset h).elim⟩
    | fragment data =>
      show (r.feed data).1.active = .none ∧ (r.feed data).1.received ≠ 0 ↔ _
      -- Only a header sets the idle kind and counts; a later fragment finds it idle and is ignored.
      cases hd : r.table.isHeader data with
      | true =>
        obtain ⟨k, c, hc⟩ := LengthTable.isHeader_iff.mp hd
        have started := start_carries r k (r.table.body data)
        have hfeed : r.feed data = (r.start k (r.table.body data)).finish := by rw [feed, hc]
        rw [LengthTable.endsBlank_header hc, hfeed, finish_leaves, started.active,
          started.received]
        simp [start, reset]
      | false =>
        obtain ⟨n, hfeed⟩ := r.feed_inside hd
        rw [LengthTable.endsBlank_later hd, ← ih, hfeed]
        by_cases idle : r.active = .none
        · rw [if_pos idle]
        · rw [if_neg idle, finish_leaves]
          simp [idle]

/-- Behind every stream: the buffer has its length, a message in progress is shorter than its code
asks for, and of a status message the buffer has what was taken. Outside of a message nothing is
counted, unless the last header was of the idle kind and came with a part of its payload. -/
theorem run_counts (t : LengthTable) (dropRepeats : Bool) (inputs : List Input) :
    let r := ((new t dropRepeats).run inputs).1
    r.buffer.length = t.payloadLength .status ∧
      (r.active ≠ .none → r.received < t.payloadLength r.active) ∧
      (r.active = .status → ∃ payload later, t.Opens inputs .status payload later ∧
        r.buffer.take r.received = (taken dropRepeats payload later).flatten) ∧
      ((r.active = .none → r.received = 0) ↔ ¬t.EndsBlank inputs) := by
  intro r
  obtain ⟨table, -, fitted⟩ := run_fields (new t dropRepeats) inputs
  obtain ⟨g, holds, gathered⟩ := run_holds t dropRepeats inputs
  have length : r.buffer.length = t.payloadLength .status :=
    (fitted (new_fitted t dropRepeats)).trans (by rw [table]; rfl)
  refine ⟨length, fun busy => ?_, fun status => ?_, ?_⟩
  · cases g with
    | none => exact absurd holds busy
    | some g =>
      have short := holds.short
      rw [table] at short
      rwa [holds.active, holds.received]
  · cases g with
    | none => cases status.symm.trans holds
    | some g =>
      have kind : g.kind = .status := holds.active.symm.trans status
      obtain ⟨payload, later, opens, same⟩ := gathered g rfl
      rw [kind] at opens same
      refine ⟨payload, later, opens, ?_⟩
      rw [holds.received, holds.kept kind, same, gathered_taken]
  · rw [← run_idle t dropRepeats inputs]
    simp [r]

/-- The idle kind asks for nine bytes here, and its header brings one. No message is in progress,
and the byte stays counted, also behind a later fragment. -/
theorem counted_outside :
    let t : LengthTable := ⟨2, 49, 149, 10⟩
    let r := ((new t false).run [.fragment (magic ++ [10, 1])]).1
    let q := ((new t false).run [.fragment (magic ++ [10, 1]), .fragment [5, 5]]).1
    r.active = .none ∧ r.received = 1 ∧ q.active = .none ∧ q.received = 1 := by
  decide

end Reassembler

end HeaterLink
