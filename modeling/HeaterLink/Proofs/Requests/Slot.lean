import HeaterLink.Proofs.Calls.Returns
import HeaterLink.Proofs.Requests.Waiting

/-!
# The slot of the pending request

One request at most is pending. It has been so since its call registered it,
and that call still waits for it: no other call has its token, it has not
returned, and nobody has answered it. A call that ends its own request leaves
the slot of another one alone.
-/

set_option autoImplicit false

namespace HeaterLink

namespace Inbound

variable {layout : StatusLayout} {watts : UInt32} {i : Inbound} {data : Bytes}
  {after : Inbound × List Effect}

theorem mark_token (i : Inbound) (data : Bytes) :
    (i.mark data).headerToken = i.pendingToken ∨ (i.mark data).headerToken = i.headerToken := by
  unfold mark
  split
  · exact .inl rfl
  · exact .inr rfl
  · exact .inr rfl

theorem Takes.empties (h : Takes layout watts i data after) {c : CallId} {k : Token}
    (hk : .answered c k ∈ after.2) : after.1.pending = none := by
  have reports {effects : List Effect} (he : .answered c k ∈ i.warning data ++ effects)
      (hn : .answered c k ∉ effects) : False := by
    rcases List.mem_append.mp he with he | he
    · obtain ⟨event, e⟩ := mem_warning he
      cases e
    · exact hn he
  cases h with
  | answers _ _ _ _ => rfl
  | short _ => exact (reports (by simpa using hk) List.not_mem_nil).elim
  | refused _ _ => exact (reports (by simpa using hk) List.not_mem_nil).elim
  | other _ => exact (reports hk (by simp)).elim
  | noted _ _ _ => exact (reports hk (by simp)).elim

end Inbound

namespace Course

variable {wall : Nat → Clock} {config : Config} {x y : Course} {a : Action}
  {after : Session × List Effect} {c c' : CallId} {k : Token} {n m : Nat} {o : Outcome}
  {p : Pending} {call : Call}

structure Waits (x : Course) (c : CallId) (k : Token) : Prop where
  asks : ∃ call, x.session.calls.get? c = some call ∧ call.stage.token? = some k
  alone : ∀ c' call, x.session.calls.get? c' = some call → call.stage.token? = some k → c' = c
  registered : ∃ g, x.Did g (.registered c k) ∧ x.Open g c
  unreturned : x.Unreturned c
  unanswered : ∀ n c', ¬x.Did n (.answered c' k)

theorem Reacts.empties (h : x.Reacts wall a after) (hk : .answered c k ∈ after.2) :
    after.1.inbound.pending = none := by
  rcases h.mem hk with ⟨c', call, -, -, hreq⟩ | ⟨i, -, hl⟩
  · exact absurd hk (hreq.answered c k)
  · cases hl with
    | takes _ _ _ =>
      rcases List.mem_cons.mp hk with e | hk
      · cases e
      · exact (Inbound.take_takes _ _ _ _).empties hk
    | wakes _ _ => simp at hk
    | drops _ _ => simp at hk
    | ends _ _ _ _ => split at hk <;> simp at hk

/-- What is pending has been so since it was registered. -/
theorem reached_stayed : ∀ x, Reached wall config x → ∀ p, x.session.inbound.pending = some p →
    ∃ g, x.Did g (.registered p.caller p.token) ∧
      ∀ j, g < j → j ≤ x.history.length → (x.sessionAt j).inbound.pending = some p := by
  refine reached_induction ?_ fun x a y _ ih step => ?_
  · intro p hp
    cases hp
  · obtain ⟨after, hr, grows⟩ := take?_grows step
    intro p hp
    have now : (y.sessionAt (x.history.length + 1)).inbound.pending = some p := by
      rw [← grows.length, sessionAt_length, hp]
    rw [grows.session] at hp
    rcases hr.pending hp with hp | hreg
    · obtain ⟨g, hg, stayed⟩ := ih p hp
      refine ⟨g, grows.begins.did hg, fun j hj hlen => ?_⟩
      rw [grows.length] at hlen
      rcases Nat.lt_or_eq_of_le hlen with hlt | rfl
      · rw [grows.begins.sessionAt (Nat.le_of_lt_succ hlt)]
        exact stayed j hj (Nat.le_of_lt_succ hlt)
      · exact now
    · refine ⟨x.history.length, grows.did hreg, fun j hj hlen => ?_⟩
      rw [grows.length] at hlen
      obtain rfl : j = x.history.length + 1 := by omega
      exact now

theorem unanswered_of_pending (hx : Reached wall config x)
    (hp : x.session.inbound.pending = some p) : ¬x.Did n (.answered c p.token) := by
  intro hn
  obtain ⟨g, hg, stayed⟩ := reached_stayed x hx p hp
  have hlt := did_lt hn
  obtain ⟨y, a, after, -, begins, rfl, hr, he, -, hnext⟩ := reached_did hx hn
  have pending : (x.sessionAt y.history.length).inbound.pending = some ⟨p.token, c⟩ := by
    rw [begins.session, hr.answered he]
  obtain ⟨g', hlater, hg'⟩ := pending_at hx hlt pending
  obtain ⟨rfl, -⟩ := registered_unique hx hg hg'
  have stays := stayed (y.history.length + 1) (by omega) hlt
  rw [hnext, hr.empties he] at stays
  cases stays

theorem unreturned_of_known (hx : Reached wall config x)
    (hc : x.session.calls.get? c = some call) : x.Unreturned c := by
  intro n o hn
  have gone := gone_of_returned x hx n c o hn x.history.length (did_lt hn) (Nat.le_refl _)
  rw [sessionAt_length, hc] at gone
  cases gone

theorem waits_of_pending (hx : Reached wall config x)
    (hp : x.session.inbound.pending = some ⟨k, c⟩) : x.Waits c k := by
  obtain ⟨call, hc, hk⟩ := reached_waits x hx _ hp
  exact {
    asks := ⟨call, hc, hk⟩
    alone := fun c' other hc' hk' => by
      by_contra hne
      exact token_other hx hc hk hc' hne hk'
    registered := reached_token x hx c call k hc hk
    unreturned := unreturned_of_known hx hc
    unanswered := fun n c' => unanswered_of_pending hx hp }

theorem pendingToken_lt (hx : Reached wall config x) :
    x.session.inbound.pendingToken < x.session.nextToken := by
  obtain ⟨positive, below⟩ := reached_registered x hx
  unfold Inbound.pendingToken
  split
  · rename_i p hp
    obtain ⟨g, hg⟩ := reached_pending x hx p hp
    exact (below g p.caller p.token hg).2
  · exact positive

theorem headerToken_lt : ∀ x, Reached wall config x →
    x.session.inbound.headerToken < x.session.nextToken := by
  refine reached_induction (Nat.zero_lt_one) fun x a y hx ih step => ?_
  obtain ⟨after, hr, grows⟩ := take?_grows step
  rw [grows.session]
  refine Nat.lt_of_lt_of_le ?_ hr.nextToken_le
  cases hr with
  | poll hp =>
    obtain ⟨call, -, hl⟩ := Session.poll_leads hp
    rw [hl.onRequests.headerToken]
    exact ih
  | listen hl =>
    cases hl with
    | takes _ _ _ =>
      rw [(Inbound.take_takes _ _ _ _).fields.2]
      rcases Inbound.mark_token x.session.inbound _ with e | e
      · rw [e]
        exact pendingToken_lt hx
      · rw [e]
        exact ih
    | _ => exact ih
  | _ => exact ih

theorem pending_of_finished (hx : Reached wall config x) (hn : x.Did n (.finished c o))
    (hc : (x.sessionAt n).calls.get? c = some call)
    (hp : (x.sessionAt n).inbound.pending = some p) (other : call.stage.token? ≠ some p.token) :
    (x.sessionAt (n + 1)).inbound.pending = some p := by
  obtain ⟨y, a, after, -, begins, rfl, hr, he, -, hnext⟩ := reached_did hx hn
  rw [begins.session] at hc hp
  rw [hnext]
  obtain ⟨-, -, rfl, -, -, -⟩ := hr.finished he
  cases id hr with
  | poll hpoll =>
    obtain ⟨call', hc', hl⟩ := Session.poll_leads hpoll
    obtain rfl := Option.some.inj (hc.symm.trans hc')
    rcases (hl.spares other).2 with ⟨k', hreg⟩ | stays
    · -- A turn that registers a request leaves its call waiting for it.
      obtain ⟨plan, frame, limit, hget, -⟩ := hr.registers hreg
      exact absurd he ((hr.token hget rfl).2 o)
    · exact stays p.caller hp

/-- The call of the pending request waits for it, and no other call takes it away as it ends its
own. Every call has registered the token that it has, no two requests have the same one, and all
that were given out lie below the next. -/
theorem reached_slot (hx : Reached wall config x) :
    (∀ c k, x.session.inbound.pending = some ⟨k, c⟩ → x.Waits c k) ∧
      (∀ c call k, x.session.calls.get? c = some call → call.stage.token? = some k →
        ∃ g, x.Did g (.registered c k) ∧ x.Open g c) ∧
      (∀ n m c c' k, x.Did n (.registered c k) → x.Did m (.registered c' k) → n = m ∧ c = c') ∧
      (∀ n c k, x.Did n (.registered c k) → 1 ≤ k ∧ k < x.session.nextToken) ∧
      x.session.inbound.headerToken < x.session.nextToken ∧
      ∀ n c o call p, x.Did n (.finished c o) → (x.sessionAt n).calls.get? c = some call →
        (x.sessionAt n).inbound.pending = some p → call.stage.token? ≠ some p.token →
        (x.sessionAt (n + 1)).inbound.pending = some p := by
  refine ⟨fun c k => waits_of_pending hx, reached_token x hx, ?_, (reached_registered x hx).2,
    headerToken_lt x hx, ?_⟩
  · exact fun n m c c' k => registered_unique hx
  · exact fun n c o call p hn hc => pending_of_finished hx hn hc

def overtaken : List Action :=
  opening ++ [.invoke 1 (.ask [1] 10), .poll 1, .poll 1, .poll 1, .invoke 2 (.ask [2] 1000),
    .poll 2, .poll 2, .pass 10, .poll 1]

/-- The second request takes the slot while the first one is being written, and then the time of
the first one is over. -/
theorem slot_while_overtaken :
    ∃ x, Reached noon oneAttempt x ∧ x.Did 17 (.displaced 1 1) ∧ x.Waits 2 2 ∧
      x.Did 19 (.finished 1 (.response .noData)) ∧
      (x.sessionAt 20).inbound.pending = some ⟨2, 2⟩ := by
  have h : ((start oneAttempt).run? noon overtaken).any (fun x =>
      decide (x.Did 17 (.displaced 1 1) ∧ x.Did 19 (.finished 1 (.response .noData)) ∧
        x.session.inbound.pending = some ⟨2, 2⟩ ∧
        (x.sessionAt 19).inbound.pending = some ⟨2, 2⟩ ∧
        ((x.sessionAt 19).calls.get? 1).map (·.stage.token?) = some (some 1))) = true := by
    decide +kernel
  obtain ⟨x, hx, h⟩ := (Option.any_eq_true _ _).mp h
  obtain ⟨displaced, late, now, before, own⟩ := of_decide_eq_true h
  obtain ⟨call, hc, hk⟩ := Option.map_eq_some_iff.mp own
  obtain ⟨waits, -, -, -, -, stays⟩ := reached_slot ⟨overtaken, hx⟩
  exact ⟨x, ⟨overtaken, hx⟩, displaced, waits 2 2 now, late,
    stays 19 1 _ call ⟨2, 2⟩ late hc before (by rw [hk]; decide)⟩

end Course

end HeaterLink
