import HeaterLink.Proofs.Reassembly.Gathering
import HeaterLink.Proofs.Reassembly.Slices

/-!
# Streams in segments

A stream is cut at every reset and before every header. What a segment
completes is said of the segment as a whole: its header, the fragments behind
it and the first place where their bytes suffice. A new reassembler that drops
no repeats completes exactly that, whatever the stream is.
-/

set_option autoImplicit false

namespace HeaterLink

structure Segment where
  header : Option (MessageKind × Bytes)
  later : List Bytes
  deriving DecidableEq, Repr

def LengthTable.cut (t : LengthTable) : List Reassembler.Input → List Bytes × List Segment
  | [] => ([], [])
  | .reset :: rest => ([], ⟨Option.none, (t.cut rest).1⟩ :: (t.cut rest).2)
  | .fragment data :: rest =>
    match t.classify data with
    | .header k _ payload => ([], ⟨some (k, payload), (t.cut rest).1⟩ :: (t.cut rest).2)
    | .malformed _ => (data :: (t.cut rest).1, (t.cut rest).2)
    | .continuation => (data :: (t.cut rest).1, (t.cut rest).2)

namespace Segment

def total (k : MessageKind) (payload : Bytes) (later : List Bytes) (n : Nat) : Nat :=
  if k = .none then payload.length else (payload ++ (later.take n).flatten).length

def SealsAt (t : LengthTable) (k : MessageKind) (payload : Bytes) (later : List Bytes)
    (n : Nat) : Prop :=
  t.payloadLength k ≤ total k payload later n ∧
    ∀ j < n, total k payload later j < t.payloadLength k

instance (t : LengthTable) (k : MessageKind) (payload : Bytes) (later : List Bytes) (n : Nat) :
    Decidable (SealsAt t k payload later n) :=
  inferInstanceAs (Decidable (_ ∧ _))

def answer (t : LengthTable) (s : Segment) (n : Nat) : Option Completion :=
  match s.header with
  | none => none
  | some (k, payload) =>
    if SealsAt t k payload s.later n then some (t.completion k (payload ++ s.later.flatten))
    else none

def answers (t : LengthTable) (s : Segment) : List (Option Completion) :=
  (List.range (s.later.length + 1)).map (s.answer t)

end Segment

def LengthTable.answers (t : LengthTable) (inputs : List Reassembler.Input) :
    List (Option Completion) :=
  List.replicate (t.cut inputs).1.length Option.none ++ (t.cut inputs).2.flatMap (Segment.answers t)

namespace Gathering

def step (t : LengthTable) (dropRepeats : Bool) (g : Option Gathering) :
    Reassembler.Input → Option Gathering × Option Completion
  | .fragment data => feed t dropRepeats g data
  | .reset => (none, none)

def run (t : LengthTable) (dropRepeats : Bool) (g : Option Gathering) :
    List Reassembler.Input → List (Option Completion)
  | [] => []
  | i :: rest => (step t dropRepeats g i).2 :: run t dropRepeats (step t dropRepeats g i).1 rest

def follow (t : LengthTable) : Option Gathering → List Bytes → List (Option Completion)
  | _, [] => []
  | none, _ :: rest => none :: follow t none rest
  | some g, data :: rest =>
    (settle t (g.add false data)).2 :: follow t (settle t (g.add false data)).1 rest

theorem follow_none (t : LengthTable) (later : List Bytes) :
    follow t none later = List.replicate later.length none := by
  induction later with
  | nil => rfl
  | cons data rest ih => rw [follow, ih, List.length_cons, List.replicate_succ]

/-- Behind a message that is still too short, the declared answers of its segment. -/
theorem follow_some (t : LengthTable) (g : Gathering) (hk : g.kind ≠ .none)
    (short : g.bytes.length < t.payloadLength g.kind) (later : List Bytes) :
    follow t (some g) later = (List.range later.length).map fun n =>
      if Segment.SealsAt t g.kind g.bytes later (n + 1) then
        some (t.completion g.kind (g.bytes ++ later.flatten))
      else none := by
  induction later generalizing g with
  | nil => rfl
  | cons data rest ih =>
    have hzero : Segment.total g.kind g.bytes (data :: rest) 0 < t.payloadLength g.kind := by
      simpa [Segment.total, hk] using short
    have hshift (n : Nat) : Segment.total g.kind g.bytes (data :: rest) (n + 1) =
        Segment.total g.kind (g.bytes ++ data) rest n := by
      simp [Segment.total, hk]
    rw [follow, add_keep, List.length_cons, List.range_succ_eq_map, List.map_cons, List.map_map]
    rcases Nat.lt_or_ge (g.bytes ++ data).length (t.payloadLength g.kind) with hfew | hfull
    · have hstep (n : Nat) : Segment.SealsAt t g.kind g.bytes (data :: rest) (n + 1) ↔
          Segment.SealsAt t g.kind (g.bytes ++ data) rest n := by
        constructor
        · rintro ⟨hn, hb⟩
          exact ⟨hshift n ▸ hn, fun j hj => hshift j ▸ hb (j + 1) (by omega)⟩
        · rintro ⟨hn, hb⟩
          refine ⟨hshift n ▸ hn, fun j hj => ?_⟩
          cases j with
          | zero => exact hzero
          | succ j => exact hshift j ▸ hb j (by omega)
      have hnow : ¬Segment.SealsAt t g.kind g.bytes (data :: rest) 1 := by
        rw [hstep 0]
        rintro ⟨h, -⟩
        rw [Segment.total, if_neg hk, List.take_zero, List.flatten_nil, List.append_nil] at h
        omega
      rw [settle_short hk hfew, ih ⟨g.kind, g.bytes ++ data, data⟩ hk hfew]
      simp [hnow, hstep, Function.comp_def, List.append_assoc]
    · have hseal : Segment.SealsAt t g.kind g.bytes (data :: rest) 1 := by
        refine ⟨by simpa [Segment.total, hk] using hfull, fun j hj => ?_⟩
        rwa [Nat.lt_one_iff.mp hj]
      have hlater (n : Nat) : ¬Segment.SealsAt t g.kind g.bytes (data :: rest) (n + 2) := by
        intro h
        have := h.2 1 (by omega)
        rw [hshift] at this
        simp only [Segment.total, hk, if_false, List.take_zero, List.flatten_nil,
          List.append_nil] at this
        omega
      have hbytes : t.completion g.kind (g.bytes ++ data) =
          t.completion g.kind (g.bytes ++ (data :: rest).flatten) := by
        unfold LengthTable.completion
        split
        · rename_i hs
          rw [hs] at hfull
          rw [List.flatten_cons, ← List.append_assoc, List.take_append_of_le_length hfull]
        · rfl
      rw [settle_full hfull, follow_none, hbytes]
      simp [hseal, hlater, Function.comp_def, List.map_const']

theorem answers_reset (t : LengthTable) (later : List Bytes) :
    Segment.answers t ⟨none, later⟩ = none :: follow t none later := by
  rw [follow_none, Segment.answers, List.range_succ_eq_map]
  simp [Segment.answer, Function.comp_def, List.map_const']

theorem answers_header (t : LengthTable) (k : MessageKind) (payload : Bytes)
    (later : List Bytes) :
    Segment.answers t ⟨some (k, payload), later⟩ =
      (settle t ⟨k, payload, payload⟩).2 ::
        follow t (settle t ⟨k, payload, payload⟩).1 later := by
  have hzero : Segment.total k payload later 0 = payload.length := by simp [Segment.total]
  rw [Segment.answers, List.range_succ_eq_map, List.map_cons, List.map_map]
  rcases Nat.lt_or_ge payload.length (t.payloadLength k) with hfew | hfull
  · have hnow : ¬Segment.SealsAt t k payload later 0 := fun h =>
      Nat.not_le.mpr hfew (hzero ▸ h.1)
    by_cases hk : k = .none
    · have hnever (n : Nat) : ¬Segment.SealsAt t k payload later n := by
        rintro ⟨h, -⟩
        rw [Segment.total, if_pos hk] at h
        omega
      rw [settle_blank hk hfew]
      simp [follow_none, Segment.answer, hnever, Function.comp_def, List.map_const']
    · rw [settle_short hk hfew, follow_some t ⟨k, payload, payload⟩ hk hfew]
      simp [Segment.answer, hnow, Function.comp_def]
  · have hseal : Segment.SealsAt t k payload later 0 := ⟨hzero ▸ hfull, fun j hj => by omega⟩
    have hlater (n : Nat) : ¬Segment.SealsAt t k payload later (n + 1) := by
      intro h
      have := h.2 0 (by omega)
      omega
    have hbytes : t.completion k payload = t.completion k (payload ++ later.flatten) := by
      unfold LengthTable.completion
      split
      · rename_i hs
        rw [hs] at hfull
        rw [List.take_append_of_le_length hfull]
      · rfl
    rw [settle_full hfull, follow_none, hbytes]
    simp [Segment.answer, hseal, hlater, Function.comp_def, List.map_const']

theorem run_answers (t : LengthTable) (g : Option Gathering) (inputs : List Reassembler.Input) :
    run t false g inputs =
      follow t g (t.cut inputs).1 ++ (t.cut inputs).2.flatMap (Segment.answers t) := by
  induction inputs generalizing g with
  | nil => simp [run, LengthTable.cut, follow]
  | cons i rest ih =>
    cases i with
    | reset => simp [run, step, LengthTable.cut, follow, ih, answers_reset]
    | fragment data =>
      cases h : t.classify data with
      | header k c payload =>
        simp [run, step, feed, LengthTable.cut, follow, ih, answers_header, h]
      | malformed c => cases g <;> simp [run, step, feed, LengthTable.cut, follow, ih, h]
      | continuation => cases g <;> simp [run, step, feed, LengthTable.cut, follow, ih, h]

end Gathering

namespace Reassembler

theorem run_gathering {r : Reassembler} {g : Option Gathering} (fitted : r.Fitted) (h : r.Holds g)
    (inputs : List Input) :
    (r.run inputs).2 = Gathering.run r.table r.dropRepeats g inputs := by
  induction inputs generalizing r g with
  | nil => rfl
  | cons i rest ih =>
    cases i with
    | reset =>
      have := ih (r := r.reset) (g := none) fitted (reset_holds r)
      simpa [run, step, Gathering.run, Gathering.step, reset] using this
    | fragment data =>
      obtain ⟨hholds, hdone⟩ := feed_gathering fitted h data
      have := ih (feed_fitted fitted data) hholds
      rw [feed_table, feed_dropRepeats] at this
      simp [run, step, Gathering.run, Gathering.step, hdone, this]

/-- A new reassembler that keeps repeats completes, step by step, what the segments
of the stream declare, and never reaches outside a fragment or its buffer. -/
theorem run_new_answers (t : LengthTable) (inputs : List Input) :
    (new t false).run? inputs = some ((new t false).run inputs) ∧
      ((new t false).run inputs).2 = t.answers inputs := by
  refine ⟨run?_eq _ _, ?_⟩
  rw [run_gathering (new_fitted t false) (new_holds t false), LengthTable.answers,
    ← Gathering.follow_none]
  exact Gathering.run_answers t none inputs

end Reassembler

end HeaterLink
