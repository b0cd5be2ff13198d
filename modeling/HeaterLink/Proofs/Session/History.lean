import HeaterLink.Proofs.Session.Invariants

/-!
# Histories

The history of a course is the run that led to it: every entry is a step from
a course that was reached before, and the session it leaves is the one that the
next entry found. What is said of a part of a history stays true as it grows.
-/

set_option autoImplicit false

namespace HeaterLink

def Entry.inputs (e : Entry) : List Reassembler.Input := e.effects.filterMap Effect.input?

namespace Course

def sessionAt (x : Course) (n : Nat) : Session :=
  match x.history[n]? with
  | some entry => entry.before
  | none => x.session

def inputsFrom (x : Course) (n : Nat) : List Reassembler.Input :=
  (x.history.drop n).flatMap Entry.inputs

def inputsBetween (x : Course) (n m : Nat) : List Reassembler.Input :=
  ((x.history.take (m + 1)).drop n).flatMap Entry.inputs

def Did (x : Course) (n : Nat) (e : Effect) : Prop :=
  ∃ entry, x.history[n]? = some entry ∧ e ∈ entry.effects

instance (x : Course) (n : Nat) (e : Effect) : Decidable (x.Did n e) :=
  decidable_of_iff ((x.history[n]?).any fun entry => entry.effects.contains e) (by
    simp [Did, Option.any_eq_true])

structure Begins (x y : Course) : Prop where
  history : ∃ later, y.history = x.history ++ later
  session : y.sessionAt x.history.length = x.session

variable {wall : Nat → Clock} {config : Config} {x y z : Course} {n m k : Nat} {e : Effect}
  {last entry : Entry} {a : Action} {after : Session × List Effect}

theorem did_lt (h : x.Did n e) : n < x.history.length := by
  obtain ⟨entry, hn, -⟩ := h
  exact (List.getElem?_eq_some_iff.mp hn).1

theorem not_did_start : ¬(start config).Did n e := fun h => Nat.not_lt_zero n (did_lt h)

@[simp]
theorem sessionAt_length (x : Course) : x.sessionAt x.history.length = x.session := by
  simp [sessionAt]

theorem begins_snoc (hy : y.history = x.history ++ [last]) (before : last.before = x.session) :
    x.Begins y where
  history := ⟨[last], hy⟩
  session := by simp [sessionAt, hy, before]

theorem Begins.length_le (h : x.Begins y) : x.history.length ≤ y.history.length := by
  obtain ⟨later, hy⟩ := h.history
  simp [hy]

theorem Begins.sessionAt (h : x.Begins y) (hn : n ≤ x.history.length) :
    y.sessionAt n = x.sessionAt n := by
  rcases Nat.lt_or_ge n x.history.length with hlt | hge
  · obtain ⟨later, hy⟩ := h.history
    simp [Course.sessionAt, hy, List.getElem?_append_left hlt, List.getElem?_eq_getElem hlt]
  · obtain rfl : n = x.history.length := Nat.le_antisymm hn hge
    rw [h.session, sessionAt_length]

theorem Begins.trans (h : x.Begins y) (h' : y.Begins z) : x.Begins z where
  history := by
    obtain ⟨first, hy⟩ := h.history
    obtain ⟨later, hz⟩ := h'.history
    exact ⟨first ++ later, by rw [hz, hy, List.append_assoc]⟩
  session := by rw [h'.sessionAt h.length_le, h.session]

theorem Begins.did_iff (h : x.Begins y) (hn : n < x.history.length) : y.Did n e ↔ x.Did n e := by
  obtain ⟨later, hy⟩ := h.history
  simp [Did, hy, List.getElem?_append_left hn]

theorem Begins.did (h : x.Begins y) (hd : x.Did n e) : y.Did n e := (h.did_iff (did_lt hd)).mpr hd

theorem Begins.inputsBetween (h : x.Begins y) (hm : m < x.history.length) :
    y.inputsBetween n m = x.inputsBetween n m := by
  obtain ⟨later, hy⟩ := h.history
  simp [Course.inputsBetween, hy, List.take_append_of_le_length hm]

theorem getElem?_snoc {entries : List Entry} (h : (entries ++ [last])[n]? = some entry) :
    entries[n]? = some entry ∨ n = entries.length ∧ last = entry := by
  rw [List.getElem?_append] at h
  split at h
  · exact .inl h
  · obtain ⟨hlt, e⟩ := List.getElem?_eq_some_iff.mp h
    simp only [List.length_singleton] at hlt
    have hzero : n - entries.length = 0 := by omega
    exact .inr ⟨by omega, by simpa [hzero] using e⟩

/-- What the last entry did, and what was done before it. -/
theorem did_snoc_iff (hy : y.history = x.history ++ [last]) :
    y.Did m e ↔ x.Did m e ∨ m = x.history.length ∧ e ∈ last.effects := by
  constructor
  · rintro ⟨entry, hm, he⟩
    rw [hy] at hm
    rcases getElem?_snoc hm with hm | ⟨hlast, rfl⟩
    · exact .inl ⟨entry, hm, he⟩
    · exact .inr ⟨hlast, he⟩
  · rintro (⟨entry, hm, he⟩ | ⟨rfl, he⟩)
    · have hlt := (List.getElem?_eq_some_iff.mp hm).1
      exact ⟨entry, by rw [hy, List.getElem?_append_left hlt, hm], he⟩
    · exact ⟨last, by simp [hy], he⟩

theorem inputsFrom_snoc (hy : y.history = x.history ++ [last]) (hm : m ≤ x.history.length) :
    y.inputsFrom m = x.inputsFrom m ++ last.inputs := by
  simp [inputsFrom, hy, List.drop_append_of_le_length hm]

theorem did_between (did : x.Did k e) (hn : n ≤ k) (hm : k < m) :
    e ∈ ((x.history.take m).drop n).flatMap Entry.effects := by
  obtain ⟨entry, hentry, he⟩ := did
  have between : ((x.history.take m).drop n)[k - n]? = some entry := by
    rw [List.getElem?_drop, List.getElem?_take, Nat.add_sub_cancel' hn, if_pos hm, hentry]
  exact List.mem_flatMap_of_mem (List.mem_of_getElem? between) he

theorem inputsBetween_last (hy : y.history = x.history ++ [last]) :
    y.inputsBetween m x.history.length = y.inputsFrom m := by
  have hlen : y.history.length = x.history.length + 1 := by simp [hy]
  rw [inputsBetween, inputsFrom, List.take_of_length_le (Nat.le_of_eq hlen)]

structure Grows (x : Course) (a : Action) (after : Session × List Effect) (y : Course) : Prop where
  history : y.history = x.history ++ [⟨x.now, a, x.session, after.2⟩]
  session : y.session = after.1
  now : y.now = (x.advance a).now

theorem take?_grows (step : x.take? wall a = some y) :
    ∃ after, x.Reacts wall a after ∧ x.Grows a after y := by
  obtain ⟨after, hr, rfl⟩ := take?_reacts step
  exact ⟨after, hr, rfl, rfl, rfl⟩

section Grows

variable (h : x.Grows a after y)

include h

theorem Grows.begins : x.Begins y := begins_snoc h.history rfl

theorem Grows.length : y.history.length = x.history.length + 1 := by simp [h.history]

theorem Grows.flatMap {α : Type} (f : Entry → List α) :
    y.history.flatMap f = x.history.flatMap f ++ f ⟨x.now, a, x.session, after.2⟩ := by
  rw [h.history, List.flatMap_append, List.flatMap_singleton]

theorem Grows.did_iff : y.Did m e ↔ x.Did m e ∨ m = x.history.length ∧ e ∈ after.2 :=
  did_snoc_iff h.history

theorem Grows.did (he : e ∈ after.2) : y.Did x.history.length e := h.did_iff.mpr (.inr ⟨rfl, he⟩)

end Grows

/-- Every entry is a step from a course that was reached. -/
theorem reached_entry : ∀ x, Reached wall config x → ∀ n entry, x.history[n]? = some entry →
    ∃ y after, Reached wall config y ∧ y.Begins x ∧ y.history.length = n ∧
      y.session = entry.before ∧ y.Reacts wall entry.action after ∧ entry.effects = after.2 ∧
      x.sessionAt (n + 1) = after.1 := by
  refine reached_induction ?_ ?_
  · intro n entry h
    simp [start] at h
  · intro x a y hx ih step n entry hn
    obtain ⟨after, hr, grows⟩ := take?_grows step
    have begins := grows.begins
    rw [grows.history] at hn
    rcases getElem?_snoc hn with hn | ⟨rfl, rfl⟩
    · obtain ⟨z, after', hz, hbegins, hlen, hsession, hreacts, heffects, hnext⟩ := ih n entry hn
      have hlt := (List.getElem?_eq_some_iff.mp hn).1
      exact ⟨z, after', hz, hbegins.trans begins, hlen, hsession, hreacts, heffects,
        (begins.sessionAt hlt).trans hnext⟩
    · refine ⟨x, after, hx, begins, rfl, rfl, hr, rfl, ?_⟩
      rw [← grows.length, sessionAt_length, grows.session]

/-- What was done was done by one step, with all else that this step did. -/
theorem reached_did (reached : Reached wall config x) (hd : x.Did n e) :
    ∃ y a after, Reached wall config y ∧ y.Begins x ∧ y.history.length = n ∧
      y.Reacts wall a after ∧ e ∈ after.2 ∧ (∀ f, x.Did n f ↔ f ∈ after.2) ∧
      x.sessionAt (n + 1) = after.1 := by
  obtain ⟨entry, hentry, he⟩ := hd
  obtain ⟨y, after, hy, begins, hlen, -, hr, heffects, hnext⟩ :=
    reached_entry x reached n entry hentry
  refine ⟨y, entry.action, after, hy, begins, hlen, hr, heffects ▸ he, fun f => ?_, hnext⟩
  rw [← heffects]
  exact ⟨fun ⟨_, h, hf⟩ => Option.some.inj (hentry.symm.trans h) ▸ hf, fun hf => ⟨entry, hentry, hf⟩⟩

/-- What every reached session has, a session had at every entry. -/
theorem reached_sessionAt {P : Session → Prop} (h : ∀ y, Reached wall config y → P y.session)
    (reached : Reached wall config x) (n : Nat) : P (x.sessionAt n) := by
  unfold sessionAt
  split
  · rename_i entry hn
    obtain ⟨y, after, hy, -, -, hsession, -⟩ := reached_entry x reached n entry hn
    exact hsession ▸ h y hy
  · exact h x reached

/-- What every entry of a part of the history keeps, the session has from its beginning to its
end. -/
theorem reached_between {P : Session → Prop} (reached : Reached wall config x) (hnm : n ≤ m)
    (hm : m ≤ x.history.length) (base : P (x.sessionAt n))
    (step : ∀ k entry, n ≤ k → k < m → x.history[k]? = some entry → ∀ (y : Course) after,
      Reached wall config y → y.session = entry.before → y.Reacts wall entry.action after →
      entry.effects = after.2 → P y.session → P after.1) : P (x.sessionAt m) := by
  induction m with
  | zero =>
    obtain rfl : n = 0 := Nat.le_zero.mp hnm
    exact base
  | succ m ih =>
    rcases Nat.lt_or_eq_of_le hnm with hlt | rfl
    · have hnm := Nat.le_of_lt_succ hlt
      have before := ih hnm (Nat.le_of_succ_le hm) fun k entry hk hkm =>
        step k entry hk (Nat.lt_succ_of_lt hkm)
      have hentry := List.getElem?_eq_getElem (l := x.history) hm
      obtain ⟨y, after, hy, begins, rfl, hsession, hr, heffects, hnext⟩ :=
        reached_entry x reached m _ hentry
      rw [begins.session] at before
      exact hnext ▸ step _ _ hnm (Nat.lt_succ_self _) hentry y after hy hsession hr heffects before
    · exact base

/-- A part of the history is the history of a course that was reached before. -/
theorem reached_prefix (reached : Reached wall config x) (hn : n ≤ x.history.length) :
    ∃ y, Reached wall config y ∧ y.Begins x ∧ y.history.length = n := by
  rcases Nat.lt_or_eq_of_le hn with hlt | rfl
  · obtain ⟨y, -, hy, begins, hlen, -⟩ :=
      reached_entry x reached n x.history[n] (List.getElem?_eq_getElem hlt)
    exact ⟨y, hy, begins, hlen⟩
  · exact ⟨x, reached, ⟨⟨[], by simp⟩, sessionAt_length x⟩, rfl⟩

def actions (x : Course) : List Action := x.history.map Entry.action

theorem Grows.actions (h : x.Grows a after y) : y.actions = x.actions ++ [a] := by
  simp [Course.actions, h.history]

theorem run?_actions : ∀ x, Reached wall config x →
    (start config).run? wall x.actions = some x := by
  refine reached_induction rfl fun x a y _ ih step => ?_
  obtain ⟨after, -, grows⟩ := take?_grows step
  simp [grows.actions, run?_append, ih, run?, step]

theorem runInTime?_actions : ∀ x, ReachedInTime wall config x →
    (start config).runInTime? wall x.actions = some x := by
  refine inTime_induction rfl fun x a y _ ih timely step => ?_
  obtain ⟨after, -, grows⟩ := take?_grows step
  simp [grows.actions, runInTime?_append, ih, runInTime?, timely, step]

theorem inTime_of_take? (hx : Reached wall config x) (step : x.take? wall a = some y)
    (hy : ReachedInTime wall config y) : ReachedInTime wall config x ∧ x.inTime wall a := by
  have hrun := runInTime?_actions y hy
  obtain ⟨after, -, grows⟩ := take?_grows step
  rw [grows.actions, runInTime?_append] at hrun
  obtain ⟨z, hz, hlast⟩ := Option.bind_eq_some_iff.mp hrun
  obtain rfl : z = x :=
    Option.some.inj ((run?_of_runInTime? hz).symm.trans (run?_actions x hx))
  simp only [runInTime?] at hlast
  split at hlast
  · rename_i timely
    exact ⟨⟨_, hz⟩, timely⟩
  · cases hlast

theorem Begins.inTime (h : x.Begins y) (hx : Reached wall config x)
    (hy : ReachedInTime wall config y) : ReachedInTime wall config x := by
  obtain ⟨later, hhistory⟩ := h.history
  have hrun := runInTime?_actions y hy
  rw [Course.actions, hhistory, List.map_append, runInTime?_append] at hrun
  obtain ⟨z, hz, -⟩ := Option.bind_eq_some_iff.mp hrun
  obtain rfl : z = x :=
    Option.some.inj ((run?_of_runInTime? hz).symm.trans (run?_actions x hx))
  exact ⟨_, hz⟩

end Course

end HeaterLink
