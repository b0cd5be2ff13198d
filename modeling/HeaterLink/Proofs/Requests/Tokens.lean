import HeaterLink.Proofs.Requests.Inbound
import HeaterLink.Proofs.Requests.Steps
import HeaterLink.Proofs.Session.History

/-!
# Tokens

No token is given out twice. A call has a token from the moment it registers
its request until its operation has a result, and the request that is pending
was registered by the call it belongs to.
-/

set_option autoImplicit false

namespace HeaterLink

def Effect.ofListener : Effect → Bool
  | .answered _ _ => true
  | .cleared => true
  | .took _ _ => true
  | .ended _ => true
  | .entered _ => true
  | .emitted _ => true
  | _ => false

/-- A listener does nothing that a call does, and answers only the pending request. -/
theorem Session.Listens.mem {s : Session} {i : StreamId} {after : Session × List Effect}
    {e : Effect} (h : s.Listens i after) (he : e ∈ after.2) :
    e.ofListener ∧ ∀ c k, e = .answered c k → s.inbound.pending = some ⟨k, c⟩ := by
  cases h with
  | wakes _ _ =>
    obtain rfl := List.mem_singleton.mp he
    exact ⟨rfl, by simp⟩
  | takes _ _ _ =>
    rcases List.mem_cons.mp he with rfl | he
    · exact ⟨rfl, by simp⟩
    · rcases (Inbound.take_takes _ _ _ _).mem he with ⟨event, rfl⟩ | ⟨p, hp, -, rfl⟩
      · exact ⟨rfl, by simp⟩
      · refine ⟨rfl, fun c k e => ?_⟩
        cases e
        exact hp
  | ends _ _ _ _ =>
    rcases List.mem_append.mp he with he | he
    · simp only [List.mem_cons, List.not_mem_nil, or_false] at he
      rcases he with rfl | rfl | rfl <;> exact ⟨rfl, by simp⟩
    · split at he
      · cases he
      · obtain rfl := List.mem_singleton.mp he
        exact ⟨rfl, by simp⟩
  | drops _ _ =>
    obtain rfl := List.mem_singleton.mp he
    exact ⟨rfl, by simp⟩

namespace Course

variable {wall : Nat → Clock} {config : Config} {x y : Course} {a : Action}
  {after : Session × List Effect}

open Act.Turn in
theorem Reacts.mem (h : x.Reacts wall a after) {e : Effect} (he : e ∈ after.2) :
    (∃ c call, a = .poll c ∧ x.session.calls.get? c = some call ∧
      OnRequests ⟨x.moment wall, c, call.plan⟩ x.session call.stage after) ∨
      ∃ i, a = .listen i ∧ x.session.Listens i after := by
  cases h with
  | @poll c _ hp =>
    obtain ⟨call, hc, hl⟩ := Session.poll_leads hp
    exact .inl ⟨c, call, rfl, hc, hl.onRequests⟩
  | @listen i _ hl => exact .inr ⟨i, rfl, hl⟩
  | _ => cases he

theorem Reacts.registered (h : x.Reacts wall a after) {c : CallId} {k : Token}
    (hk : .registered c k ∈ after.2) :
    a = .poll c ∧ k = x.session.nextToken ∧ after.1.nextToken = x.session.nextToken + 1 := by
  rcases h.mem hk with ⟨c', call, ha, -, hreq⟩ | ⟨i, -, hl⟩
  · obtain ⟨e, hk⟩ := hreq.registered c k hk
    exact ⟨e ▸ ha, hk⟩
  · cases (hl.mem hk).1

theorem Reacts.nextToken_le (h : x.Reacts wall a after) :
    x.session.nextToken ≤ after.1.nextToken := by
  cases h with
  | poll hp =>
    obtain ⟨call, -, hl⟩ := Session.poll_leads hp
    exact hl.onRequests.nextToken
  | listen hl => cases hl <;> exact Nat.le_refl _
  | _ => exact Nat.le_refl _

theorem Reacts.answered (h : x.Reacts wall a after) {c : CallId} {k : Token}
    (hk : .answered c k ∈ after.2) : x.session.inbound.pending = some ⟨k, c⟩ := by
  rcases h.mem hk with ⟨c', call, -, -, hreq⟩ | ⟨i, -, hl⟩
  · exact absurd hk (hreq.answered c k)
  · exact (hl.mem hk).2 c k rfl

theorem Reacts.pending (h : x.Reacts wall a after) {p : Pending}
    (hp : after.1.inbound.pending = some p) :
    x.session.inbound.pending = some p ∨ .registered p.caller p.token ∈ after.2 := by
  cases h with
  | poll hpoll =>
    obtain ⟨call, -, hl⟩ := Session.poll_leads hpoll
    exact hl.onRequests.pending p hp
  | listen hl =>
    cases hl with
    | takes _ _ _ => exact .inl ((Inbound.take_takes _ _ _ _).pending hp)
    | _ => exact .inl hp
  | _ => exact .inl hp

theorem Reacts.finished (h : x.Reacts wall a after) {c : CallId} {o : Outcome}
    (ho : .finished c o ∈ after.2) : ∃ call ending, a = .poll c ∧
      x.session.calls.get? c = some call ∧ call.stage.Ends x.session.inbound ending ∧
      ending.outcome? = some o := by
  rcases h.mem ho with ⟨c', call, ha, hcall, hreq⟩ | ⟨i, -, hl⟩
  · obtain ⟨e, ending, hends, ho⟩ := hreq.finished c o ho
    obtain rfl : c = c' := e
    exact ⟨call, ending, ha, hcall, hends, ho⟩
  · cases (hl.mem ho).1

theorem Reacts.token (h : x.Reacts wall a after) {c : CallId} {call : Call} {k : Token}
    (hc : after.1.calls.get? c = some call) (hk : call.stage.token? = some k) :
    ((∃ old, x.session.calls.get? c = some old ∧ old.stage.token? = some k) ∨
      .registered c k ∈ after.2) ∧ ∀ o, .finished c o ∉ after.2 := by
  rcases h.call hc with ⟨old, hold, -, hstage, hother⟩ | ⟨old, hold, -, hl⟩ | ⟨r, -, rfl⟩
  · refine ⟨.inl ⟨old, hold, hstage ▸ hk⟩, fun o ho => ?_⟩
    obtain ⟨-, -, ha, -⟩ := h.finished ho
    exact hother ha
  · obtain ⟨hor, hnone⟩ := hl.onRequests.token call k hc hk
    exact ⟨hor.imp_left fun ht => ⟨old, hold, ht⟩, hnone⟩
  · cases hk

theorem Reacts.fresh (h : x.Reacts wall a after) {c : CallId} {r : Reading}
    (hf : .finished c (.response (.fresh r)) ∈ after.2) :
    ∃ call k, x.session.calls.get? c = some call ∧ call.stage.token? = some k ∧
      x.session.inbound.replies.get? k = some r := by
  obtain ⟨call, ending, -, hcall, hends, ho⟩ := h.finished hf
  obtain ⟨k, hk, hr⟩ := hends.fresh ho
  exact ⟨call, k, hcall, hk, hr⟩

/-- Every token that was given out lies below the next one, and none is zero. -/
theorem reached_registered : ∀ x, Reached wall config x → 1 ≤ x.session.nextToken ∧
    ∀ n c k, x.Did n (.registered c k) → 1 ≤ k ∧ k < x.session.nextToken := by
  refine reached_induction ?_ fun x a y _ ih step => ?_
  · refine ⟨Nat.le_refl 1, fun n c k h => ?_⟩
    obtain ⟨entry, hn, -⟩ := h
    simp [start] at hn
  · obtain ⟨after, hr, rfl⟩ := take?_reacts step
    have hle := hr.nextToken_le
    refine ⟨Nat.le_trans ih.1 hle, fun n c k h => ?_⟩
    show 1 ≤ k ∧ k < after.1.nextToken
    rcases (did_snoc_iff rfl).mp h with h | ⟨-, he⟩
    · obtain ⟨hpos, hlt⟩ := ih.2 n c k h
      exact ⟨hpos, Nat.lt_of_lt_of_le hlt hle⟩
    · obtain ⟨-, rfl, hnext⟩ := hr.registered he
      exact ⟨ih.1, hnext ▸ Nat.lt_succ_self _⟩

theorem not_registered_again (h : Reached wall config x) {n m : Nat} {c c' : CallId} {k : Token}
    (hn : x.Did n (.registered c k)) (hm : x.Did m (.registered c' k)) : ¬n < m := by
  intro hlt
  obtain ⟨y, a, after, hy, begins, rfl, hr, he, -⟩ := reached_did h hm
  have hk := ((reached_registered y hy).2 n c k ((begins.did_iff hlt).mp hn)).2
  exact Nat.ne_of_lt hk (hr.registered he).2.1

theorem registered_unique (h : Reached wall config x) {n m : Nat} {c c' : CallId} {k : Token}
    (hn : x.Did n (.registered c k)) (hm : x.Did m (.registered c' k)) : n = m ∧ c = c' := by
  have hnm := not_registered_again h hn hm
  have hmn := not_registered_again h hm hn
  obtain rfl : n = m := by omega
  obtain ⟨y, a, after, -, -, -, hr, he, did, -⟩ := reached_did h hn
  have hc := (hr.registered he).1
  have hc' := (hr.registered ((did _).mp hm)).1
  exact ⟨rfl, Action.poll.inj (hc.symm.trans hc')⟩

/-- A call with a token has registered it, and no operation of it has ended since. -/
theorem reached_token : ∀ x, Reached wall config x → ∀ c call k,
    x.session.calls.get? c = some call → call.stage.token? = some k →
    ∃ g, x.Did g (.registered c k) ∧ ∀ m o, g ≤ m → ¬x.Did m (.finished c o) := by
  refine reached_induction ?_ fun x a y _ ih step => ?_
  · intro c call k hc
    simp [start, Session.new] at hc
  · obtain ⟨after, hr, rfl⟩ := take?_reacts step
    intro c call k hc hk
    obtain ⟨hor, hnone⟩ := hr.token hc hk
    rcases hor with ⟨old, hold, ht⟩ | hreg
    · obtain ⟨g, hg, hopen⟩ := ih c old k hold ht
      refine ⟨g, (begins_snoc rfl rfl).did hg, fun m o hm h => ?_⟩
      rcases (did_snoc_iff rfl).mp h with h | ⟨-, he⟩
      · exact hopen m o hm h
      · exact hnone o he
    · refine ⟨x.history.length, (did_snoc_iff rfl).mpr (.inr ⟨rfl, hreg⟩), fun m o hm h => ?_⟩
      rcases (did_snoc_iff rfl).mp h with h | ⟨-, he⟩
      · have := did_lt h
        omega
      · exact hnone o he

theorem reached_pending : ∀ x, Reached wall config x → ∀ p, x.session.inbound.pending = some p →
    ∃ g, x.Did g (.registered p.caller p.token) := by
  refine reached_induction ?_ fun x a y _ ih step => ?_
  · intro p hp
    cases hp
  · obtain ⟨after, hr, rfl⟩ := take?_reacts step
    intro p hp
    rcases hr.pending hp with hp | hreg
    · obtain ⟨g, hg⟩ := ih p hp
      exact ⟨g, (begins_snoc rfl rfl).did hg⟩
    · exact ⟨x.history.length, (did_snoc_iff rfl).mpr (.inr ⟨rfl, hreg⟩)⟩

theorem pending_at (h : Reached wall config x) {n : Nat} (hn : n < x.history.length) {p : Pending}
    (hp : (x.sessionAt n).inbound.pending = some p) :
    ∃ g, g < n ∧ x.Did g (.registered p.caller p.token) := by
  obtain ⟨y, after, hy, begins, rfl, hsession, -⟩ :=
    reached_entry x h n x.history[n] (List.getElem?_eq_getElem hn)
  rw [begins.session] at hp
  obtain ⟨g, hg⟩ := reached_pending y hy p hp
  exact ⟨g, did_lt hg, begins.did hg⟩

end Course

end HeaterLink
