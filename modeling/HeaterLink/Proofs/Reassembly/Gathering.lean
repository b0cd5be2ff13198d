import HeaterLink.Wire.Reassembly
import Mathlib.Data.List.Basic
import Mathlib.Tactic.Common

/-!
# Gathering without a buffer

A message in progress is its kind, the payload bytes gathered so far and the
fragment that came last. Nothing is cut to a fixed length and nothing is
overwritten, so no byte can come from anywhere else. A reassembler with its
reused buffer gives the same completions, from every state it can be in.
-/

set_option autoImplicit false

namespace HeaterLink

def LengthTable.completion (t : LengthTable) (k : MessageKind) (bytes : Bytes) : Completion :=
  if k = .status then .status (bytes.take (t.payloadLength .status)) else .other k

def LengthTable.isHeader (t : LengthTable) (data : Bytes) : Bool :=
  match t.classify data with
  | .header _ _ _ => true
  | _ => false

def LengthTable.isMalformed (t : LengthTable) (data : Bytes) : Bool :=
  magic.isPrefixOf data && (data.drop magic.length).head?.all fun c => (t.kindOf? c).isNone

theorem LengthTable.isMalformed_eq (t : LengthTable) (data : Bytes) :
    t.isMalformed data = (t.classify data matches .malformed _) := by
  unfold isMalformed classify
  by_cases hm : magic.isPrefixOf data
  · rw [hm, if_pos rfl, Bool.true_and]
    cases data.drop magic.length with
    | nil => rfl
    | cons c payload =>
      simp only [List.head?_cons, Option.all_some]
      cases t.kindOf? c <;> rfl
  · simp [hm]

structure Gathering where
  kind : MessageKind
  bytes : Bytes
  last : Bytes
  deriving DecidableEq, Repr

namespace Gathering

def add (dropRepeats : Bool) (g : Gathering) (data : Bytes) : Gathering :=
  if dropRepeats = true ∧ g.kind = .status ∧ g.last = data then g
  else ⟨g.kind, g.bytes ++ data, data⟩

def settle (t : LengthTable) (g : Gathering) : Option Gathering × Option Completion :=
  if t.payloadLength g.kind ≤ g.bytes.length then (none, some (t.completion g.kind g.bytes))
  else if g.kind = .none then (none, none)
  else (some g, none)

def feed (t : LengthTable) (dropRepeats : Bool) (g : Option Gathering) (data : Bytes) :
    Option Gathering × Option Completion :=
  match t.classify data with
  | .header k _ payload => settle t ⟨k, payload, payload⟩
  | .malformed _ => (g.map (add dropRepeats · data)).elim (none, none) (settle t)
  | .continuation => (g.map (add dropRepeats · data)).elim (none, none) (settle t)

theorem feed_later {t : LengthTable} {data : Bytes} (h : t.isHeader data = false)
    (dropRepeats : Bool) (g : Option Gathering) :
    feed t dropRepeats g data =
      (g.map (add dropRepeats · data)).elim (none, none) (settle t) := by
  unfold LengthTable.isHeader at h
  unfold feed
  cases hc : t.classify data with
  | header k c payload => simp [hc] at h
  | malformed c => rfl
  | continuation => rfl

theorem add_kind (dropRepeats : Bool) (g : Gathering) (data : Bytes) :
    (g.add dropRepeats data).kind = g.kind := by
  unfold add
  split <;> rfl

theorem add_keep (g : Gathering) (data : Bytes) :
    g.add false data = ⟨g.kind, g.bytes ++ data, data⟩ := by
  simp [add]

section Settle

variable {t : LengthTable} {k : MessageKind} {bytes last : Bytes}

theorem settle_full (h : t.payloadLength k ≤ bytes.length) :
    settle t ⟨k, bytes, last⟩ = (none, some (t.completion k bytes)) := by
  simp [settle, h]

theorem settle_short (hk : k ≠ .none) (h : bytes.length < t.payloadLength k) :
    settle t ⟨k, bytes, last⟩ = (some ⟨k, bytes, last⟩, none) := by
  simp [settle, Nat.not_le.mpr h, hk]

theorem settle_blank (hk : k = .none) (h : bytes.length < t.payloadLength k) :
    settle t ⟨k, bytes, last⟩ = (none, none) := by
  subst hk
  simp [settle, Nat.not_le.mpr h]

end Settle

/-- A message that is not settled has content and is too short. -/
theorem eq_of_settle_fst {t : LengthTable} {g m : Gathering} (h : (settle t g).1 = some m) :
    m = g ∧ g.kind ≠ .none ∧ g.bytes.length < t.payloadLength g.kind := by
  unfold settle at h
  split at h
  · cases h
  · rename_i hlen
    split at h
    · cases h
    · rename_i hk
      exact ⟨(Option.some.inj h).symm, hk, Nat.lt_of_not_le hlen⟩

theorem eq_of_settle_snd {t : LengthTable} {g : Gathering} {c : Completion}
    (h : (settle t g).2 = some c) :
    t.payloadLength g.kind ≤ g.bytes.length ∧ c = t.completion g.kind g.bytes := by
  unfold settle at h
  split at h
  · rename_i hlen
    exact ⟨hlen, (Option.some.inj h).symm⟩
  · split at h <;> cases h

end Gathering

theorem overwrite_eq {buffer bytes : Bytes} (h : buffer.take bytes.length = bytes) (data : Bytes) :
    overwrite buffer bytes.length data =
      (bytes ++ data ++ buffer.drop (bytes.length + data.length)).take buffer.length := by
  rw [overwrite, h]

namespace Reassembler

def Fitted (r : Reassembler) : Prop := r.buffer.length = r.table.payloadLength .status

structure HoldsMessage (r : Reassembler) (g : Gathering) : Prop where
  active : r.active = g.kind
  notIdle : g.kind ≠ .none
  short : g.bytes.length < r.table.payloadLength g.kind
  received : r.received = g.bytes.length
  kept : g.kind = .status → r.buffer.take g.bytes.length = g.bytes
  last : g.kind = .status → r.last = some g.last

def Holds (r : Reassembler) : Option Gathering → Prop
  | none => r.active = .none
  | some g => r.HoldsMessage g

theorem new_fitted (t : LengthTable) (dropRepeats : Bool) : (new t dropRepeats).Fitted := by
  simp [Fitted, new]

theorem new_holds (t : LengthTable) (dropRepeats : Bool) : (new t dropRepeats).Holds none := rfl

theorem reset_holds (r : Reassembler) : r.reset.Holds none := rfl

@[simp]
theorem extend_table (r : Reassembler) (data : Bytes) : (r.extend data).table = r.table := by
  unfold extend
  split_ifs <;> rfl

@[simp]
theorem extend_dropRepeats (r : Reassembler) (data : Bytes) :
    (r.extend data).dropRepeats = r.dropRepeats := by
  unfold extend
  split_ifs <;> rfl

@[simp]
theorem extend_active (r : Reassembler) (data : Bytes) : (r.extend data).active = r.active := by
  unfold extend
  split_ifs <;> rfl

@[simp]
theorem extend_malformed (r : Reassembler) (data : Bytes) :
    (r.extend data).malformed = r.malformed := by
  unfold extend
  split_ifs <;> rfl

theorem extend_fitted {r : Reassembler} (h : r.Fitted) (data : Bytes) : (r.extend data).Fitted := by
  unfold extend
  split_ifs
  · exact h
  · exact (overwrite_length _ _ _).trans h
  · exact h

structure Carries (r : Reassembler) (g : Gathering) : Prop where
  active : r.active = g.kind
  received : r.received = g.bytes.length
  kept : g.kind = .status → r.buffer.take g.bytes.length = g.bytes.take r.buffer.length
  last : g.kind = .status → r.last = some g.last

theorem carries_of_holds {r : Reassembler} {g : Gathering} (fitted : r.Fitted)
    (h : r.HoldsMessage g) : r.Carries g where
  active := h.active
  received := h.received
  kept := fun hs => by
    have hshort : g.bytes.length < r.buffer.length := by rw [fitted, ← hs]; exact h.short
    rw [h.kept hs, List.take_of_length_le (Nat.le_of_lt hshort)]
  last := h.last

/-- A status payload goes behind the bytes that are there; the buffer keeps what fits. -/
theorem overwrite_take {buffer bytes : Bytes} (h : buffer.take bytes.length = bytes)
    (data : Bytes) :
    (overwrite buffer bytes.length data).take (bytes ++ data).length =
      (bytes ++ data).take buffer.length := by
  rw [overwrite_eq h, List.take_take]
  rcases Nat.le_total (bytes ++ data).length buffer.length with hle | hle
  · rw [Nat.min_eq_left hle, List.take_append_of_le_length (Nat.le_refl _), List.take_length,
      List.take_of_length_le hle]
  · rw [Nat.min_eq_right hle, List.take_append_of_le_length hle]

theorem extend_carries {r : Reassembler} {g : Gathering} (h : r.HoldsMessage g) (fitted : r.Fitted)
    (data : Bytes) : (r.extend data).Carries (g.add r.dropRepeats data) := by
  by_cases hs : g.kind = .status
  · have ha : r.active = .status := h.active.trans hs
    by_cases hr : r.dropRepeats = true ∧ g.last = data
    · have hl : r.last = some data := by rw [h.last hs, hr.2]
      rw [show r.extend data = r by simp [extend, ha, hr.1, hl],
        show g.add r.dropRepeats data = g by simp [Gathering.add, hs, hr.1, hr.2]]
      exact carries_of_holds fitted h
    · have hl : ¬(r.dropRepeats = true ∧ r.last = some data) := by
        rw [h.last hs]
        simpa using hr
      rw [show g.add r.dropRepeats data = ⟨g.kind, g.bytes ++ data, data⟩ by
        simp only [Gathering.add]
        rw [if_neg (by tauto)]]
      refine ⟨by simp [h.active], ?_, fun _ => ?_, fun _ => ?_⟩
      · simp [extend, ha, hl, h.received]
      · simp only [extend, ha, if_true, if_neg hl, h.received, overwrite_length]
        exact overwrite_take (h.kept hs) data
      · simp [extend, ha, hl]
  · have ha : r.active ≠ .status := fun e => hs (h.active.symm.trans e)
    rw [show g.add r.dropRepeats data = ⟨g.kind, g.bytes ++ data, data⟩ by simp [Gathering.add, hs]]
    refine ⟨by simp [h.active], ?_, fun e => absurd e hs, fun e => absurd e hs⟩
    simp [extend, ha, h.received]

theorem start_carries (r : Reassembler) (k : MessageKind) (payload : Bytes) :
    (r.start k payload).Carries ⟨k, payload, payload⟩ := by
  refine ⟨by simp [start], ?_, fun hs => ?_, fun hs => ?_⟩
  · by_cases hs : k = .status <;> simp [start, extend, reset, hs]
  · have hk : k = .status := hs
    have hnil : r.buffer.take ([] : Bytes).length = [] := by simp
    simpa [start, extend, reset, hk, overwrite_length] using overwrite_take hnil payload
  · simp [start, extend, reset, show k = .status from hs]

theorem start_fitted {r : Reassembler} (h : r.Fitted) (k : MessageKind) (payload : Bytes) :
    (r.start k payload).Fitted :=
  extend_fitted (show Fitted { r.reset with active := k } from h) payload

theorem finish_fitted {r : Reassembler} (h : r.Fitted) : r.finish.1.Fitted := by
  unfold finish
  split <;> exact h

theorem sealed?_of_carries {r : Reassembler} {g : Gathering} (fitted : r.Fitted)
    (h : r.Carries g) : r.sealed? = (g.settle r.table).2 := by
  obtain ⟨k, bytes, last⟩ := g
  obtain ⟨hactive, hreceived, hkept, -⟩ := h
  unfold sealed?
  rw [hactive, hreceived]
  rcases Nat.lt_or_ge bytes.length (r.table.payloadLength k) with hlen | hlen
  · rw [if_pos hlen]
    by_cases hk : k = .none
    · rw [Gathering.settle_blank hk hlen]
    · rw [Gathering.settle_short hk hlen]
  · rw [if_neg (Nat.not_lt.mpr hlen), Gathering.settle_full hlen, LengthTable.completion]
    by_cases hs : k = .status
    · have hb : r.buffer.length ≤ bytes.length := by rw [fitted, ← hs]; exact hlen
      have hk := hkept hs
      rw [List.take_of_length_le hb] at hk
      rw [if_pos hs, if_pos hs, hk, fitted]
    · rw [if_neg hs, if_neg hs]

theorem finish_gathering {r : Reassembler} {g : Gathering} (fitted : r.Fitted) (h : r.Carries g) :
    r.finish.1.Holds (g.settle r.table).1 ∧ r.finish.2 = (g.settle r.table).2 := by
  have hs := sealed?_of_carries fitted h
  obtain ⟨k, bytes, last⟩ := g
  obtain ⟨hactive, hreceived, hkept, hlast⟩ := h
  unfold finish
  rcases Nat.lt_or_ge bytes.length (r.table.payloadLength k) with hlen | hlen
  · by_cases hk : k = .none
    · rw [Gathering.settle_blank hk hlen] at hs ⊢
      rw [hs]
      exact ⟨hactive.trans hk, rfl⟩
    · rw [Gathering.settle_short hk hlen] at hs ⊢
      rw [hs]
      refine ⟨⟨hactive, hk, hlen, hreceived, fun e => ?_, hlast⟩, rfl⟩
      have hb : bytes.length ≤ r.buffer.length := by
        rw [fitted, ← e]
        exact Nat.le_of_lt hlen
      rw [hkept e, List.take_of_length_le hb]
  · rw [Gathering.settle_full hlen] at hs ⊢
    rw [hs]
    exact ⟨reset_holds r, rfl⟩

theorem finish_table (r : Reassembler) : r.finish.1.table = r.table := by
  unfold finish
  split <;> rfl

theorem finish_dropRepeats (r : Reassembler) : r.finish.1.dropRepeats = r.dropRepeats := by
  unfold finish
  split <;> rfl

theorem feed_table (r : Reassembler) (data : Bytes) : (r.feed data).1.table = r.table := by
  unfold feed
  split <;> (try split) <;> simp [finish_table, start, reset]

theorem feed_dropRepeats (r : Reassembler) (data : Bytes) :
    (r.feed data).1.dropRepeats = r.dropRepeats := by
  unfold feed
  split <;> (try split) <;> simp [finish_dropRepeats, start, reset]

theorem finish_malformed (r : Reassembler) : r.finish.1.malformed = r.malformed := by
  unfold finish
  split <;> rfl

/-- Malformed headers are counted inside a message and outside of it. -/
theorem feed_malformed (r : Reassembler) (data : Bytes) :
    (r.feed data).1.malformed = r.malformed + if r.table.isMalformed data then 1 else 0 := by
  rw [LengthTable.isMalformed_eq]
  unfold feed
  cases r.table.classify data with
  | header k c payload => simp [finish_malformed, start, reset]
  | continuation => by_cases ha : r.active = .none <;> simp [ha, finish_malformed]
  | malformed c => by_cases ha : r.active = .none <;> simp [ha, finish_malformed]

theorem feed_fitted {r : Reassembler} (h : r.Fitted) (data : Bytes) : (r.feed data).1.Fitted := by
  unfold feed
  split
  · exact finish_fitted (start_fitted h _ _)
  · split
    · exact h
    · exact finish_fitted (extend_fitted h _)
  · have hc : Fitted { r with malformed := r.malformed + 1 } := h
    split
    · exact hc
    · exact finish_fitted (extend_fitted hc _)

theorem step_fields (r : Reassembler) (i : Input) : (r.step i).1.table = r.table ∧
    (r.step i).1.dropRepeats = r.dropRepeats ∧ (r.Fitted → (r.step i).1.Fitted) := by
  cases i with
  | reset => exact ⟨rfl, rfl, fun h => h⟩
  | fragment data => exact ⟨feed_table r data, feed_dropRepeats r data, fun h => feed_fitted h data⟩

theorem run_fields (r : Reassembler) (inputs : List Input) : (r.run inputs).1.table = r.table ∧
    (r.run inputs).1.dropRepeats = r.dropRepeats ∧ (r.Fitted → (r.run inputs).1.Fitted) := by
  induction inputs generalizing r with
  | nil => exact ⟨rfl, rfl, fun h => h⟩
  | cons i rest ih =>
    obtain ⟨ht, hd, hf⟩ := step_fields r i
    obtain ⟨ht', hd', hf'⟩ := ih (r.step i).1
    exact ⟨ht'.trans ht, hd'.trans hd, fun h => hf' (hf h)⟩

theorem run_append (r : Reassembler) (first later : List Input) :
    r.run (first ++ later) =
      (((r.run first).1.run later).1, (r.run first).2 ++ ((r.run first).1.run later).2) := by
  induction first generalizing r with
  | nil => rfl
  | cons i rest ih => simp only [List.cons_append, run, ih (r.step i).1]

theorem run_snoc (r : Reassembler) (inputs : List Input) (i : Input) :
    r.run (inputs ++ [i]) =
      (((r.run inputs).1.step i).1, (r.run inputs).2 ++ [((r.run inputs).1.step i).2]) :=
  run_append r inputs [i]

/-- Payload for the message in progress, behind a fragment that is no header. -/
theorem extend_finish_gathering {r : Reassembler} {g : Option Gathering} (fitted : r.Fitted)
    (h : r.Holds g) (data : Bytes) (active : r.active ≠ .none) :
    (r.extend data).finish.1.Holds
        ((g.map (Gathering.add r.dropRepeats · data)).elim (none, none)
          (Gathering.settle r.table)).1 ∧
      (r.extend data).finish.2 =
        ((g.map (Gathering.add r.dropRepeats · data)).elim (none, none)
          (Gathering.settle r.table)).2 := by
  cases g with
  | none => exact absurd h active
  | some g =>
    have := finish_gathering (extend_fitted fitted data) (extend_carries h fitted data)
    simpa using this

/-- A reassembler does what gathering without a buffer does. -/
theorem feed_gathering {r : Reassembler} {g : Option Gathering} (fitted : r.Fitted)
    (h : r.Holds g) (data : Bytes) :
    (r.feed data).1.Holds (Gathering.feed r.table r.dropRepeats g data).1 ∧
      (r.feed data).2 = (Gathering.feed r.table r.dropRepeats g data).2 := by
  have idle : r.active = .none → g = none := by
    intro ha
    cases g with
    | none => rfl
    | some g => exact absurd (h.active.symm.trans ha) h.notIdle
  unfold feed Gathering.feed
  cases r.table.classify data with
  | header k c payload =>
    simpa [start, reset] using
      finish_gathering (start_fitted fitted k payload) (start_carries r k payload)
  | malformed c =>
    by_cases ha : r.active = .none
    · simp [ha, idle ha, Holds]
    · have hm : Holds { r with malformed := r.malformed + 1 } g := by
        cases g with
        | none => exact h
        | some g => exact { h with }
      simpa [ha] using extend_finish_gathering
        (show Fitted { r with malformed := r.malformed + 1 } from fitted) hm data ha
  | continuation =>
    by_cases ha : r.active = .none
    · simp [ha, idle ha, Holds]
    · simpa [ha] using extend_finish_gathering fitted h data ha

end Reassembler

end HeaterLink
