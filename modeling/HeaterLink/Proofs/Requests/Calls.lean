import HeaterLink.Proofs.Requests.Tokens

/-!
# Calls in histories

A number belongs to one call, and whatever a call does comes after the entry
that made it.
-/

set_option autoImplicit false

namespace HeaterLink

namespace Course

def Invoked (x : Course) (j : Nat) (c : CallId) (r : Request) : Prop :=
  ∃ entry, x.history[j]? = some entry ∧ entry.action = .invoke c r

variable {wall : Nat → Clock} {config : Config} {x y : Course} {a : Action}
  {after : Session × List Effect} {last : Entry} {c : CallId} {r r' : Request} {j j' : Nat}

theorem invoked_lt (h : x.Invoked j c r) : j < x.history.length := by
  obtain ⟨entry, hj, -⟩ := h
  exact (List.getElem?_eq_some_iff.mp hj).1

theorem not_invoked_start : ¬(start config).Invoked j c r :=
  fun h => Nat.not_lt_zero j (invoked_lt h)

theorem invoked_snoc_iff (hy : y.history = x.history ++ [last]) :
    y.Invoked j c r ↔ x.Invoked j c r ∨ j = x.history.length ∧ last.action = .invoke c r := by
  constructor
  · rintro ⟨entry, hj, ha⟩
    rw [hy] at hj
    rcases getElem?_snoc hj with hj | ⟨hlast, rfl⟩
    · exact .inl ⟨entry, hj, ha⟩
    · exact .inr ⟨hlast, ha⟩
  · rintro (⟨entry, hj, ha⟩ | ⟨rfl, ha⟩)
    · have hlt := (List.getElem?_eq_some_iff.mp hj).1
      exact ⟨entry, by rw [hy, List.getElem?_append_left hlt, hj], ha⟩
    · exact ⟨last, by simp [hy], ha⟩

theorem Begins.invoked_iff (h : x.Begins y) (hj : j < x.history.length) :
    y.Invoked j c r ↔ x.Invoked j c r := by
  obtain ⟨later, hy⟩ := h.history
  simp [Invoked, hy, List.getElem?_append_left hj]

theorem Begins.invoked (h : x.Begins y) (hj : x.Invoked j c r) : y.Invoked j c r :=
  (h.invoked_iff (invoked_lt hj)).mpr hj

theorem invoked_number : ∀ x, Reached wall config x → ∀ j c r, x.Invoked j c r →
    c < x.nextCall := by
  refine reached_induction ?_ fun x a y _ ih step => ?_
  · exact fun j c r hj => (not_invoked_start hj).elim
  · obtain ⟨after, hr, rfl⟩ := take?_reacts step
    intro j c r h
    show c < (x.advance a).nextCall
    rcases (invoked_snoc_iff rfl).mp h with h | ⟨-, ha⟩
    · exact Nat.lt_of_lt_of_le (ih j c r h) hr.nextCall_le
    · obtain rfl : a = .invoke c r := ha
      exact Nat.lt_succ_self c

theorem Reacts.uninvoked (reached : Reached wall config x) (h : x.Reacts wall (.invoke c r) after) :
    ¬x.Invoked j c r' := by
  intro hj
  have hnumber := invoked_number x reached j c r' hj
  cases h with
  | invoke => exact Nat.lt_irrefl _ hnumber

theorem not_invoked_again (h : Reached wall config x) (hj : x.Invoked j c r)
    (hj' : x.Invoked j' c r') : ¬j < j' := by
  intro hlt
  obtain ⟨entry, hentry, ha⟩ := hj'
  obtain ⟨y, after, hy, begins, rfl, -, hr, -⟩ := reached_entry x h j' entry hentry
  rw [ha] at hr
  exact hr.uninvoked hy ((begins.invoked_iff hlt).mp hj)

/-- A call is made once. -/
theorem invoked_unique (h : Reached wall config x) (hj : x.Invoked j c r)
    (hj' : x.Invoked j' c r') : j = j' ∧ r = r' := by
  have hlt := not_invoked_again h hj hj'
  have hgt := not_invoked_again h hj' hj
  obtain rfl : j = j' := by omega
  obtain ⟨entry, hentry, ha⟩ := hj
  obtain ⟨entry', hentry', ha'⟩ := hj'
  rw [hentry] at hentry'
  obtain rfl := Option.some.inj hentry'
  rw [ha] at ha'
  cases ha'
  exact ⟨rfl, rfl⟩

/-- Every call that the session knows was made by an entry. -/
theorem reached_invoked : ∀ x, Reached wall config x → ∀ c call,
    x.session.calls.get? c = some call → ∃ j r, x.Invoked j c r := by
  refine reached_induction ?_ fun x a y _ ih step => ?_
  · intro c call hc
    simp [start, Session.new] at hc
  · obtain ⟨after, hr, hy⟩ := take?_reacts step
    have hhist : y.history = x.history ++ [⟨x.now, a, x.session, after.2⟩] := by rw [hy]
    have kept {c : CallId} {old : Call} (hold : x.session.calls.get? c = some old) :
        ∃ j r, y.Invoked j c r := by
      obtain ⟨j, r, hj⟩ := ih c old hold
      exact ⟨j, r, (begins_snoc hhist rfl).invoked hj⟩
    intro c call hc
    rw [hy] at hc
    rcases hr.call hc with ⟨old, hold, -⟩ | ⟨old, hold, -⟩ | ⟨r, ha, -⟩
    · exact kept hold
    · exact kept hold
    · exact ⟨x.history.length, r, (invoked_snoc_iff hhist).mpr (.inr ⟨rfl, ha⟩)⟩

/-- The entry that made a call came before all that knows of it. -/
theorem Begins.invoked_of_known (b : x.Begins y) (hx : Reached wall config x)
    (hy : Reached wall config y) (hj : y.Invoked j c r) {call : Call}
    (hc : x.session.calls.get? c = some call) : x.Invoked j c r := by
  obtain ⟨j', r', hj'⟩ := reached_invoked x hx c call hc
  obtain ⟨rfl, rfl⟩ := invoked_unique hy hj (b.invoked hj')
  exact hj'

theorem polled_invoked (h : Reached wall config x) {n : Nat} {entry : Entry}
    (hn : x.history[n]? = some entry) (ha : entry.action = .poll c) :
    ∃ j r, x.Invoked j c r ∧ j < n := by
  obtain ⟨y, after, hy, begins, rfl, -, hr, -⟩ := reached_entry x h n entry hn
  rw [ha] at hr
  cases hr with
  | poll hp =>
    obtain ⟨call, hcall, -⟩ := Session.poll_leads hp
    obtain ⟨j, r, hj⟩ := reached_invoked y hy c call hcall
    exact ⟨j, r, begins.invoked hj, invoked_lt hj⟩

theorem poll_later (h : Reached wall config x) {n : Nat} {entry : Entry}
    (hn : x.history[n]? = some entry) (ha : entry.action = .poll c) (hj : x.Invoked j c r) :
    j < n := by
  obtain ⟨j', r', hj', hlt⟩ := polled_invoked h hn ha
  obtain ⟨rfl, -⟩ := invoked_unique h hj hj'
  exact hlt

theorem registered_later (h : Reached wall config x) {g : Nat} {k : Token}
    (hg : x.Did g (.registered c k)) (hj : x.Invoked j c r) : j < g := by
  obtain ⟨entry, hentry, he⟩ := hg
  obtain ⟨y, after, -, -, -, -, hr, heffects, -⟩ := reached_entry x h g entry hentry
  exact poll_later h hentry (hr.registered (heffects ▸ he)).1 hj

end Course

end HeaterLink
