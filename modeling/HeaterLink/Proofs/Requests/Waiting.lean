import HeaterLink.Proofs.Requests.Deadlines
import HeaterLink.Proofs.Requests.Freshness

/-!
# Requests that wait

The request that is pending belongs to a call that still waits for it, and a
request with a reply is not pending. So only the call itself, a newer request
or a status takes a request from its place, and a reply stays until its call
has taken it.
-/

set_option autoImplicit false

namespace HeaterLink

theorem Stage.Ends.token {i : Inbound} {st : Stage} {k : Token} {o : Outcome}
    (h : st.Ends i (.withdraw k o)) : st.token? = some k := by
  cases h with
  | link _ he => cases he
  | refused hw hk => exact (Stage.token?_eq_of_write? hw).trans hk
  | late hk => exact hk
  | answered _ => rfl

namespace Inbound

variable {layout : StatusLayout} {watts : UInt32} {i : Inbound} {data : Bytes}
  {after : Inbound × List Effect}

theorem fed_pending (i : Inbound) (data : Bytes) : (i.fed data).pending = i.pending := by
  rw [fed, mark_eq]

theorem fed_replies (i : Inbound) (data : Bytes) : (i.fed data).replies = i.replies := by
  rw [fed, mark_eq]

theorem Takes.apart (h : Takes layout watts i data after)
    (apart : ∀ k r, i.replies.get? k = some r → ∀ p, i.pending = some p → p.token ≠ k) :
    ∀ k r, after.1.replies.get? k = some r → ∀ p, after.1.pending = some p → p.token ≠ k := by
  intro k r hr p hp
  cases h with
  | answers _ _ _ _ => cases hp
  | _ => exact apart k r (fed_replies i data ▸ hr) p (fed_pending i data ▸ hp)

theorem Takes.reply {k : Token} {r : Reading} (h : Takes layout watts i data after)
    (hr : i.replies.get? k = some r) (apart : ∀ p, i.pending = some p → p.token ≠ k) :
    after.1.replies.get? k = some r := by
  have hfed : (i.fed data).replies.get? k = some r := by rw [fed_replies, hr]
  cases h with
  | answers _ _ hp _ => exact (Table.get?_insert _ _ _ _).trans (by rw [if_neg (apart _ hp), hr])
  | _ => exact hfed

theorem Takes.incomplete (h : Takes layout watts i data after)
    (incomplete : (i.reassembler.feed data).2 = none) : after.1.pending = i.pending := by
  cases h with
  | short _ => exact fed_pending i data
  | other hdone => simp [incomplete] at hdone
  | refused hdone _ => simp [incomplete] at hdone
  | noted hdone _ _ => simp [incomplete] at hdone
  | answers hdone _ _ _ => simp [incomplete] at hdone

end Inbound

namespace Act.Turn

variable {t : Turn} {s : Session} {st : Stage} {after : Session × List Effect} {k : Token}

/-- A turn leaves the requests of other calls in their place, if it registers none. -/
theorem Leads.spares (h : Leads t s st after) (other : st.token? ≠ some k) :
    after.1.inbound.replies.get? k = s.inbound.replies.get? k ∧
      ((∃ k', .registered t.call k' ∈ after.2) ∨ ∀ c, s.inbound.pending = some ⟨k, c⟩ →
        after.1.inbound.pending = some ⟨k, c⟩) := by
  have same {i : Inbound} (hr : i.replies = s.inbound.replies)
      (hp : i.pending = s.inbound.pending) :
      i.replies.get? k = s.inbound.replies.get? k ∧ ((∃ k', .registered t.call k' ∈ after.2) ∨
        ∀ c, s.inbound.pending = some ⟨k, c⟩ → i.pending = some ⟨k, c⟩) :=
    ⟨by rw [hr], .inr fun c hc => hp.trans hc⟩
  cases h with
  | opened =>
    rw [follow_fst]
    exact same rfl rfl
  | @begun operation =>
    cases operation with
    | ask frame limit =>
      refine ⟨by rw [begin_ask]; rfl, .inl ⟨s.nextToken, ?_⟩⟩
      rw [begin_ask]
      exact List.mem_cons_of_mem _ (registered_mem_register _ _)
    | _ => exact same rfl rfl
  | writes _ _ _ => exact same rfl rfl
  | ended h =>
    obtain ⟨s₁, effects, ending, hs, hends, rfl⟩ := h
    have hr : s₁.inbound.replies = s.inbound.replies := by rw [hs.inbound]
    have hp : s₁.inbound.pending = s.inbound.pending := by rw [hs.inbound]
    cases ending with
    | goto stage => exact same hr hp
    | finish o =>
      rw [Ending.act, finish_fst, follow_fst]
      exact same hr hp
    | withdraw k' o =>
      have hne : k' ≠ k := fun e => other (e ▸ hends.token)
      simp only [Ending.act, all_cons, all_nil, withdraw_apply, finish_fst]
      rw [follow_fst]
      refine ⟨?_, .inr fun c hc => ?_⟩
      · show (s₁.inbound.replies.erase k').get? k = _
        rw [Table.get?_erase, if_neg hne, hr]
      · show s₁.inbound.pending.filter (·.token ≠ k') = _
        simp [hp, hc, Ne.symm hne]

end Act.Turn

namespace Course

variable {wall : Nat → Clock} {config : Config} {x y : Course} {a : Action}
  {after : Session × List Effect} {c : CallId} {k : Token} {r : Reading} {call : Call}

/-- The pending request belongs to a call that waits for it. -/
theorem reached_waits : ∀ x, Reached wall config x → ∀ p, x.session.inbound.pending = some p →
    ∃ call, x.session.calls.get? p.caller = some call ∧ call.stage.token? = some p.token := by
  refine reached_induction ?_ fun x a y hx ih step => ?_
  · intro p hp
    cases hp
  · obtain ⟨after, hr, rfl⟩ := take?_reacts step
    intro p hp
    have hp : after.1.inbound.pending = some p := hp
    rcases hr.pending hp with hold | hreg
    · obtain ⟨call, hc, hk⟩ := ih p hold
      by_cases turn : a = .poll p.caller
      · subst turn
        cases hr with
        | poll hpoll =>
          obtain ⟨old, act, hold, hm, rfl⟩ := Session.poll_moves hpoll
          obtain rfl := Option.some.inj (hc.symm.trans hold)
          cases hm.asks hk with
          | goes hget hk' _ _ _ => exact ⟨_, hget, hk'⟩
          | ends _ _ gone => exact absurd rfl (gone p hp)
      · obtain ⟨kept, hkept, -, hstage⟩ := hr.stays (reached_numbered x hx) hc turn
        exact ⟨kept, hkept, by rw [hstage, hk]⟩
    · obtain ⟨plan, frame, limit, hget, -⟩ := hr.registers hreg
      exact ⟨_, hget, rfl⟩

theorem reached_replied : ∀ x, Reached wall config x →
    ∀ k r, x.session.inbound.replies.get? k = some r →
    ∀ p, x.session.inbound.pending = some p → p.token ≠ k := by
  refine reached_induction ?_ fun x a y hx ih step => ?_
  · intro k r hr
    cases hr
  · obtain ⟨after, hr, rfl⟩ := take?_reacts step
    intro k r hk p hp
    have hk : after.1.inbound.replies.get? k = some r := hk
    have hp : after.1.inbound.pending = some p := hp
    cases hr with
    | @poll c _ hpoll =>
      have hr : x.Reacts wall (.poll c) after := .poll hpoll
      obtain ⟨call, -, hl⟩ := Session.poll_leads hpoll
      have hk := hl.onRequests.replies k r hk
      rcases hr.pending hp with hold | hreg
      · exact ih k r hk p hold
      · obtain ⟨c', g, h, e, answers⟩ := reached_replies x hx k r hk
        have hlt := ((reached_registered x hx).2 g c' k answers.registered).2
        rw [(hr.registered hreg).2.1]
        exact (Nat.ne_of_lt hlt).symm
    | listen hl =>
      cases hl with
      | takes _ _ _ => exact (Inbound.take_takes _ _ _ _).apart ih k r hk p hp
      | _ => exact ih k r hk p hp
    | _ => exact ih k r hk p hp

theorem token_other (hx : Reached wall config x) {c' : CallId} {other : Call}
    (hc : x.session.calls.get? c = some call) (hk : call.stage.token? = some k)
    (hc' : x.session.calls.get? c' = some other) (hne : c' ≠ c) : other.stage.token? ≠ some k := by
  intro hk'
  obtain ⟨g, hg, -⟩ := reached_token x hx c call k hc hk
  obtain ⟨g', hg', -⟩ := reached_token x hx c' other k hc' hk'
  exact hne (registered_unique hx hg' hg).2

theorem spares_of_poll (hx : Reached wall config x) {c' : CallId}
    (hp : x.session.poll (x.moment wall) c' = some after)
    (hc : x.session.calls.get? c = some call) (hk : call.stage.token? = some k)
    (unfinished : ∀ o, .finished c o ∉ after.2) :
    after.1.inbound.replies.get? k = x.session.inbound.replies.get? k ∧
      ((∃ k', .registered c' k' ∈ after.2) ∨ ∀ c, x.session.inbound.pending = some ⟨k, c⟩ →
        after.1.inbound.pending = some ⟨k, c⟩) := by
  by_cases e : c' = c
  · subst e
    obtain ⟨old, act, hold, hm, rfl⟩ := Session.poll_moves hp
    obtain rfl := Option.some.inj (hc.symm.trans hold)
    cases hm.asks hk with
    | goes _ _ _ inbound _ =>
      exact ⟨by rw [inbound], .inr fun c hpending => by rw [inbound, hpending]⟩
    | @ends o _ finished _ => exact absurd ((finished o).mpr rfl) (unfinished o)
  · obtain ⟨other, hother, hl⟩ := Session.poll_leads hp
    exact hl.spares (token_other hx hc hk hother e)

theorem Reacts.reply_stays (hx : Reached wall config x) (h : x.Reacts wall a after)
    (hc : x.session.calls.get? c = some call) (hk : call.stage.token? = some k)
    (unfinished : ∀ o, .finished c o ∉ after.2) (hr : x.session.inbound.replies.get? k = some r) :
    after.1.inbound.replies.get? k = some r := by
  cases h with
  | poll hp => rw [(spares_of_poll hx hp hc hk unfinished).1, hr]
  | listen hl =>
    cases hl with
    | takes _ _ _ => exact (Inbound.take_takes _ _ _ _).reply hr (reached_replied x hx k r hr)
    | _ => exact hr
  | _ => exact hr

theorem Reacts.pending_stays (hx : Reached wall config x) (h : x.Reacts wall a after)
    (hp : x.session.inbound.pending = some ⟨k, c⟩) (unfinished : ∀ o, .finished c o ∉ after.2)
    (alone : ∀ c' k', .registered c' k' ∉ after.2)
    (incomplete : ∀ i data, .took i data ∈ after.2 →
      (x.session.inbound.reassembler.feed data).2 = none) :
    after.1.inbound.pending = some ⟨k, c⟩ := by
  cases h with
  | @poll c' _ hpoll =>
    obtain ⟨call, hc, hk⟩ := reached_waits x hx _ hp
    rcases (spares_of_poll hx hpoll hc hk unfinished).2 with ⟨k', hreg⟩ | stays
    · exact absurd hreg (alone c' k')
    · exact stays c hp
  | listen hl =>
    cases hl with
    | takes _ _ _ =>
      exact ((Inbound.take_takes _ _ _ _).incomplete (incomplete _ _ List.mem_cons_self)).trans hp
    | _ => exact hp
  | _ => exact hp

end Course

end HeaterLink
