import HeaterLink.Wire.Reassembly
import Mathlib.Data.List.Basic
import Mathlib.Tactic.Common

/-!
# Feeding with checked slices

Here every slice that a reassembler reads or writes is checked against the
length of what it is taken from, and a slice that lies outside ends the run.
No run ends so: the checked reassembler agrees with the unchecked one on every
state and every stream.
-/

set_option autoImplicit false

namespace HeaterLink

def slice? (data : Bytes) (first past : Nat) : Option Bytes :=
  if first ≤ past ∧ past ≤ data.length then some ((data.take past).drop first) else none

def copyOver? (buffer : Bytes) (first past : Nat) (data : Bytes) : Option Bytes :=
  if first ≤ past ∧ past ≤ buffer.length ∧ data.length = past - first then
    some (buffer.take first ++ data ++ buffer.drop past)
  else none

namespace Reassembler

def extend? (r : Reassembler) (data : Bytes) : Option Reassembler :=
  if r.active = .status then
    if r.dropRepeats = true ∧ r.last = some data then some r
    else
      let first := min r.received r.buffer.length
      let past := min (r.received + data.length) r.buffer.length
      (slice? data 0 (past - first)).bind fun kept =>
        (copyOver? r.buffer first past kept).map fun buffer =>
          { r with buffer := buffer, received := r.received + data.length, last := some data }
  else some { r with received := r.received + data.length }

def feed? (r : Reassembler) (data : Bytes) : Option (Reassembler × Option Completion) :=
  match r.table.classify data with
  | .header k _ _ =>
    (slice? data headerLength data.length).bind fun payload =>
      ({ r.reset with active := k }.extend? payload).map finish
  | .continuation =>
    if r.active = .none then some (r, Option.none) else (r.extend? data).map finish
  | .malformed _ =>
    let counted := { r with malformed := r.malformed + 1 }
    if r.active = .none then some (counted, Option.none) else (counted.extend? data).map finish

def step? (r : Reassembler) : Input → Option (Reassembler × Option Completion)
  | .fragment data => r.feed? data
  | .reset => some (r.reset, Option.none)

def run? (r : Reassembler) : List Input → Option (Reassembler × List (Option Completion))
  | [] => some (r, [])
  | i :: rest =>
    (r.step? i).bind fun now =>
      (now.1.run? rest).map fun later => (later.1, now.2 :: later.2)

end Reassembler

theorem slice?_zero {data : Bytes} {n : Nat} (h : n ≤ data.length) :
    slice? data 0 n = some (data.take n) := by
  simp [slice?, h]

theorem slice?_rest {data : Bytes} {n : Nat} (h : n ≤ data.length) :
    slice? data n data.length = some (data.drop n) := by
  simp [slice?, h]

/-- The part of `data` that fits, copied to its place, is the whole of `data`
written over and cut. -/
theorem copyOver?_fitting (buffer data : Bytes) (n : Nat) :
    copyOver? buffer (min n buffer.length) (min (n + data.length) buffer.length)
        (data.take (min (n + data.length) buffer.length - min n buffer.length)) =
      some (overwrite buffer n data) := by
  have hlen : (data.take (min (n + data.length) buffer.length - min n buffer.length)).length =
      min (n + data.length) buffer.length - min n buffer.length := by
    rw [List.length_take]
    omega
  rw [copyOver?, if_pos ⟨by omega, Nat.min_le_right _ _, hlen⟩, overwrite]
  congr 1
  rcases Nat.le_total buffer.length n with h | h
  · have hm : min (n + data.length) buffer.length = buffer.length := by omega
    simp [Nat.min_eq_right h, hm, List.take_of_length_le h, List.append_assoc]
  · rw [Nat.min_eq_left h]
    rcases Nat.le_total (n + data.length) buffer.length with hd | hd
    · have hall : (buffer.take n ++ data ++ buffer.drop (n + data.length)).length ≤
          buffer.length := by
        simp only [List.length_append, List.length_take, List.length_drop]
        omega
      rw [Nat.min_eq_left hd, List.take_of_length_le hall, Nat.add_sub_cancel_left,
        List.take_length]
    · rw [Nat.min_eq_right hd, List.drop_of_length_le hd, List.drop_length, List.append_nil,
        List.append_nil, List.take_append, List.take_take, List.length_take,
        Nat.min_eq_right h, Nat.min_eq_left h]

theorem headerLength_le {t : LengthTable} {data payload : Bytes} {k : MessageKind} {c : UInt8}
    (h : t.classify data = .header k c payload) :
    headerLength ≤ data.length ∧ data.drop headerLength = payload := by
  unfold LengthTable.classify at h
  split at h
  · split at h
    · cases h
    · rename_i c' rest hd
      have hlen := congrArg List.length hd
      have hdrop : data.drop headerLength = rest := by
        have := congrArg (List.drop 1) hd
        simpa [headerLength, magic] using this
      simp only [List.length_drop, List.length_cons] at hlen
      split at h
      · cases h
        exact ⟨by simp only [headerLength]; omega, hdrop⟩
      · cases h
  · cases h

namespace Reassembler

theorem extend?_eq (r : Reassembler) (data : Bytes) : r.extend? data = some (r.extend data) := by
  unfold extend? extend
  split_ifs
  · rfl
  · have hin : min (r.received + data.length) r.buffer.length - min r.received r.buffer.length ≤
        data.length := by omega
    simp only [slice?_zero hin, Option.bind_some, copyOver?_fitting, Option.map_some]
  · rfl

theorem feed?_eq (r : Reassembler) (data : Bytes) : r.feed? data = some (r.feed data) := by
  unfold feed? feed
  cases h : r.table.classify data with
  | header k c payload =>
    obtain ⟨hlen, hdrop⟩ := headerLength_le h
    simp [slice?_rest hlen, hdrop, extend?_eq, start]
  | malformed c => by_cases ha : r.active = .none <;> simp [ha, extend?_eq]
  | continuation => by_cases ha : r.active = .none <;> simp [ha, extend?_eq]

theorem run?_eq (r : Reassembler) (inputs : List Input) : r.run? inputs = some (r.run inputs) := by
  induction inputs generalizing r with
  | nil => rfl
  | cons i rest ih =>
    have hs : r.step? i = some (r.step i) := by
      cases i with
      | fragment data => exact feed?_eq r data
      | reset => rfl
    simp [run?, run, hs, ih]

end Reassembler

end HeaterLink
