import HeaterLink.Session.Inbound
import Mathlib.Data.List.Basic
import Mathlib.Tactic.Common

/-!
# What a fragment does

A fragment feeds the reassembler and, if it is a header, marks the request
that is pending. Only a fragment that completes a status message that parses
changes the last reading, and it answers the pending request if the header of
that message carries its token.
-/

set_option autoImplicit false

namespace HeaterLink

namespace Inbound

variable {i : Inbound} {data : Bytes} {layout : StatusLayout} {watts : UInt32}

def fed (i : Inbound) (data : Bytes) : Inbound :=
  { i.mark data with reassembler := (i.reassembler.feed data).1 }

def warning (i : Inbound) (data : Bytes) : List Effect :=
  if (i.reassembler.feed data).1.malformed = i.reassembler.malformed then []
  else [.emitted .malformedHeader]

inductive Takes (layout : StatusLayout) (watts : UInt32) (i : Inbound) (data : Bytes) :
    Inbound × List Effect → Prop
  | short : (i.reassembler.feed data).2 = none →
      Takes layout watts i data (i.fed data, i.warning data)
  | other {k : MessageKind} : (i.reassembler.feed data).2 = some (.other k) →
      Takes layout watts i data (i.fed data, i.warning data ++ [.emitted (.message k)])
  | refused {payload : Bytes} {fault : FrameFault} :
      (i.reassembler.feed data).2 = some (.status payload) →
      layout.parse watts payload = .error fault →
      Takes layout watts i data (i.fed data, i.warning data)
  | noted {payload : Bytes} {r : Reading} :
      (i.reassembler.feed data).2 = some (.status payload) → layout.parse watts payload = .ok r →
      (∀ p, i.pending = some p → p.token ≠ (i.mark data).headerToken) →
      Takes layout watts i data ({ i.fed data with lastReading := some r },
        i.warning data ++ [.emitted (.reading r)])
  | answers {payload : Bytes} {r : Reading} {p : Pending} :
      (i.reassembler.feed data).2 = some (.status payload) → layout.parse watts payload = .ok r →
      i.pending = some p → p.token = (i.mark data).headerToken →
      Takes layout watts i data
        ({ i.fed data with
            lastReading := some r
            pending := none
            replies := i.replies.insert p.token r },
          i.warning data ++ [.answered p.caller p.token, .emitted (.reading r)])

theorem mark_eq (i : Inbound) (data : Bytes) :
    i.mark data = { i with headerToken := (i.mark data).headerToken } := by
  unfold mark
  split <;> rfl

theorem record_answers {r : Reading} {p : Pending} (hp : i.pending = some p)
    (ht : p.token = i.headerToken) :
    i.record r =
      ({ i with
          lastReading := some r
          pending := none
          replies := i.replies.insert p.token r },
        [.answered p.caller p.token, .emitted (.reading r)]) := by
  simp [record, hp, ht]

theorem record_notes {r : Reading} (h : ∀ p, i.pending = some p → p.token ≠ i.headerToken) :
    i.record r = ({ i with lastReading := some r }, [.emitted (.reading r)]) := by
  unfold record
  split
  · rename_i p hp
    rw [if_neg (h p hp)]
  · rfl

theorem take_takes (layout : StatusLayout) (watts : UInt32) (i : Inbound) (data : Bytes) :
    Takes layout watts i data (i.take layout watts data) := by
  have hm := mark_eq i data
  have hr : (i.mark data).reassembler = i.reassembler := by rw [hm]
  have hp : (i.fed data).pending = i.pending := by rw [fed, hm]
  have ht : (i.fed data).replies = i.replies := by rw [fed, hm]
  have htake : i.take layout watts data =
      (i.reassembler.feed data).2.elim (i.fed data, i.warning data) fun c =>
        (((i.fed data).complete layout watts c).1,
          i.warning data ++ ((i.fed data).complete layout watts c).2) := by
    cases hdone : (i.reassembler.feed data).2 <;> simp [take, hr, fed, warning, hdone]
  rw [htake]
  cases hdone : (i.reassembler.feed data).2 with
  | none => exact .short hdone
  | some c =>
    cases c with
    | other k => exact .other hdone
    | status payload =>
      simp only [Option.elim_some, complete]
      cases hparse : layout.parse watts payload with
      | error fault => simpa using Takes.refused hdone hparse
      | ok r =>
        show Takes layout watts i data
          (((i.fed data).record r).1, i.warning data ++ ((i.fed data).record r).2)
        by_cases ha : ∃ p, i.pending = some p ∧ p.token = (i.mark data).headerToken
        · obtain ⟨p, hpending, htoken⟩ := ha
          rw [record_answers (hp.trans hpending) htoken, ht]
          exact .answers hdone hparse hpending htoken
        · have hmiss (p : Pending) (hpending : i.pending = some p) :
              p.token ≠ (i.mark data).headerToken := fun e => ha ⟨p, hpending, e⟩
          rw [record_notes (i := i.fed data) fun p hpending => hmiss p (hp ▸ hpending)]
          exact .noted hdone hparse hmiss

variable {after : Inbound × List Effect}

theorem mem_warning {e : Effect} (h : e ∈ i.warning data) : ∃ event, e = .emitted event := by
  unfold warning at h
  split at h
  · cases h
  · exact ⟨_, List.mem_singleton.mp h⟩

/-- A fragment answers the pending request or only reports. -/
theorem Takes.mem {e : Effect} (h : Takes layout watts i data after) (he : e ∈ after.2) :
    (∃ event, e = .emitted event) ∨
      ∃ p, i.pending = some p ∧ p.token = (i.mark data).headerToken ∧
        e = .answered p.caller p.token := by
  cases h with
  | short _ => exact .inl (mem_warning he)
  | refused _ _ => exact .inl (mem_warning he)
  | other _ =>
    rcases List.mem_append.mp he with he | he
    · exact .inl (mem_warning he)
    · exact .inl ⟨_, List.mem_singleton.mp he⟩
  | noted _ _ _ =>
    rcases List.mem_append.mp he with he | he
    · exact .inl (mem_warning he)
    · exact .inl ⟨_, List.mem_singleton.mp he⟩
  | answers _ _ hp ht =>
    rcases List.mem_append.mp he with he | he
    · exact .inl (mem_warning he)
    · simp only [List.mem_cons, List.not_mem_nil, or_false] at he
      rcases he with rfl | rfl
      · exact .inr ⟨_, hp, ht, rfl⟩
      · exact .inl ⟨_, rfl⟩

theorem Takes.fields (h : Takes layout watts i data after) :
    after.1.reassembler = (i.reassembler.feed data).1 ∧
      after.1.headerToken = (i.mark data).headerToken := by
  cases h <;> exact ⟨rfl, rfl⟩

theorem Takes.pending (h : Takes layout watts i data after) {p : Pending}
    (hp : after.1.pending = some p) : i.pending = some p := by
  have hfed : (i.fed data).pending = i.pending := by rw [fed, mark_eq]
  cases h with
  | answers _ _ _ _ => cases hp
  | _ => exact hfed ▸ hp

/-- A reply that was not there belongs to the pending request, whose token the header
carries, and is the status that is now complete. -/
theorem Takes.replies (h : Takes layout watts i data after) {k : Token} {r : Reading}
    (hr : after.1.replies.get? k = some r) : i.replies.get? k = some r ∨
      ∃ c payload, i.pending = some ⟨k, c⟩ ∧ k = (i.mark data).headerToken ∧
        (i.reassembler.feed data).2 = some (.status payload) ∧
        layout.parse watts payload = .ok r ∧ .answered c k ∈ after.2 ∧
        after.1.lastReading = some r := by
  have hfed : (i.fed data).replies = i.replies := by rw [fed, mark_eq]
  cases h with
  | @answers payload r' p hdone hparse hp ht =>
    rw [Table.get?_insert] at hr
    split at hr
    · rename_i e
      obtain rfl := Option.some.inj hr
      subst e
      exact .inr ⟨p.caller, payload, hp, ht, hdone, hparse, by simp, rfl⟩
    · exact .inl hr
  | _ => exact .inl (hfed ▸ hr)

end Inbound

end HeaterLink
