import HeaterLink.Proofs.Requests.Inbound
import HeaterLink.Proofs.Requests.Steps
import HeaterLink.Proofs.Session.History
import HeaterLink.Proofs.Temperature.Degrees

/-!
# The last known reading

A session knows one reading, the newest that it has told of. Nothing else
changes it, so between two entries of a history it is the newest reading told
in between, or the one that was known before.
-/

set_option autoImplicit false

namespace HeaterLink

def Effect.reading? : Effect → Option Reading
  | .emitted (.reading r) => some r
  | _ => none

def Entry.readings (e : Entry) : List Reading := e.effects.filterMap Effect.reading?

namespace Inbound

variable {i : Inbound} {data : Bytes} {layout : StatusLayout} {watts : UInt32}
  {after : Inbound × List Effect}

theorem warning_readings (i : Inbound) (data : Bytes) :
    (i.warning data).filterMap Effect.reading? = [] := by
  unfold warning
  split <;> rfl

/-- A fragment changes the last reading only if it tells of a new one. -/
theorem Takes.lastReading (h : Takes layout watts i data after) :
    after.1.lastReading = (after.2.filterMap Effect.reading?).getLast?.or i.lastReading := by
  have hfed : (i.fed data).lastReading = i.lastReading := by rw [fed, mark_eq]
  cases h with
  | short _ => rw [warning_readings, hfed]; rfl
  | refused _ _ => rw [warning_readings, hfed]; rfl
  | other _ => rw [List.filterMap_append, warning_readings]; exact hfed
  | noted _ _ _ => rw [List.filterMap_append, warning_readings]; rfl
  | answers _ _ _ _ => rw [List.filterMap_append, warning_readings]; rfl

theorem Takes.whole (h : Takes layout watts i data after)
    (known : ∀ r, i.lastReading = some r → r.Whole) :
    ∀ r, after.1.lastReading = some r → r.Whole := by
  intro r hr
  have hfed : (i.fed data).lastReading = i.lastReading := by rw [fed, mark_eq]
  cases h with
  | noted _ hparse _ =>
    obtain rfl := Option.some.inj hr
    exact StatusLayout.parse_whole hparse
  | answers _ hparse _ _ =>
    obtain rfl := Option.some.inj hr
    exact StatusLayout.parse_whole hparse
  | _ => exact known r (hfed ▸ hr)

end Inbound

theorem Session.whole_keeps :
    Session.Keeps fun s => ∀ r, s.inbound.lastReading = some r → r.Whole where
  poll := by
    intro s m c after h step
    obtain ⟨call, -, hl⟩ := Session.poll_leads step
    rw [hl.onRequests.lastReading]
    exact h
  listen := by
    intro s i after h step
    cases step with
    | takes _ _ _ => exact (Inbound.take_takes _ _ _ _).whole h
    | _ => exact h
  invoke := fun _ h _ => h
  answer := fun _ _ h => h
  deliver := fun _ _ h => h
  closeStream := fun _ h => h
  report := fun _ _ h => h
  setRatedPower := fun _ h => h

namespace Course

def readingsBetween (x : Course) (n m : Nat) : List Reading :=
  ((x.history.take m).drop n).flatMap Entry.readings

variable {wall : Nat → Clock} {config : Config} {x y : Course} {a : Action}
  {after : Session × List Effect} {n m : Nat}

theorem Reacts.lastReading (h : x.Reacts wall a after) : after.1.inbound.lastReading =
    (after.2.filterMap Effect.reading?).getLast?.or x.session.inbound.lastReading := by
  cases h with
  | poll hp =>
    obtain ⟨call, -, hl⟩ := Session.poll_leads hp
    have hnil : after.2.filterMap Effect.reading? = [] := by
      refine List.filterMap_eq_nil_iff.mpr fun e he => ?_
      cases e with
      | emitted event =>
        cases event with
        | reading r => exact absurd he (hl.onRequests.quiet r)
        | _ => rfl
      | _ => rfl
    rw [hnil, hl.onRequests.lastReading]
    rfl
  | listen hl =>
    cases hl with
    | takes _ _ _ => exact (Inbound.take_takes _ _ _ _).lastReading
    | ends _ _ _ _ =>
      split <;> rfl
    | _ => rfl
  | _ => rfl

theorem readingsBetween_succ {entry : Entry} (hn : x.history[n]? = some entry) (hm : m ≤ n) :
    x.readingsBetween m (n + 1) = x.readingsBetween m n ++ entry.readings := by
  have hlt := (List.getElem?_eq_some_iff.mp hn).1
  have hlen : m ≤ (x.history.take n).length := by simp; omega
  rw [readingsBetween, List.take_add_one, hn, List.drop_append_of_le_length hlen]
  simp [readingsBetween]

/-- The reading that an entry finds is the newest that was told since an earlier one. -/
theorem lastReading_between (reached : Reached wall config x) (hm : m ≤ n)
    (hn : n ≤ x.history.length) : (x.sessionAt n).inbound.lastReading =
      (x.readingsBetween m n).getLast?.or (x.sessionAt m).inbound.lastReading := by
  induction n, hm using Nat.le_induction with
  | base => simp [readingsBetween]
  | succ n hmn ih =>
    have hentry : x.history[n]? = some x.history[n] := List.getElem?_eq_getElem hn
    obtain ⟨y, after, -, begins, hlen, -, hr, heffects, hnext⟩ := reached_entry x reached n _ hentry
    have hsession : x.sessionAt n = y.session := hlen ▸ begins.session
    rw [hnext, hr.lastReading, ← hsession, ih (Nat.le_of_succ_le hn),
      readingsBetween_succ hentry hmn, List.getLast?_append, Entry.readings, heffects,
      Option.or_assoc]

theorem reached_whole (reached : Reached wall config x) {r : Reading}
    (hr : (x.sessionAt n).inbound.lastReading = some r) : r.Whole := by
  have keeps : ∀ y, Reached wall config y →
      ∀ r, y.session.inbound.lastReading = some r → r.Whole :=
    reached_keeps (by simp [Session.new, Inbound.new]) Session.whole_keeps
  exact reached_sessionAt (P := fun s => ∀ r, s.inbound.lastReading = some r → r.Whole)
    keeps reached n r hr

end Course

end HeaterLink
