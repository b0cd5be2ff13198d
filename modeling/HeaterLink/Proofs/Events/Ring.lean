import HeaterLink.Proofs.Events.Ledger
import Mathlib.Algebra.Order.Ring.Nat

/-!
# A ring keeps the contract

A ring holds the end of its ledger, as many values as there is room for, and it
stands at the number of the oldest of them.
-/

set_option autoImplicit false

namespace HeaterLink

theorem roundedUp_two_pow {n e : Nat} (enough : n ≤ 2 ^ e) (small : ∀ k < e, 2 ^ k < n) :
    RoundedUp n (2 ^ e) := by
  refine ⟨⟨⟨e, rfl⟩, enough⟩, ?_⟩
  rintro p ⟨⟨k, rfl⟩, covers⟩
  have far : e ≤ k := Nat.le_of_not_lt fun near => absurd (small k near) (Nat.not_lt.mpr covers)
  exact Nat.pow_le_pow_right Nat.two_pos far

/-- The search finds the power of two if its bound reaches far enough, and all powers before are
too small. -/
theorem roundedUp_nextPowerOfTwo {n bound e : Nat} (reach : n ≤ 2 ^ (bound + e))
    (small : ∀ k < e, 2 ^ k < n) : RoundedUp n (nextPowerOfTwo n bound (2 ^ e)) := by
  induction bound generalizing e with
  | zero =>
    rw [Nat.zero_add] at reach
    exact roundedUp_two_pow reach small
  | succ bound ih =>
    rw [nextPowerOfTwo]
    split
    · rename_i enough
      exact roundedUp_two_pow enough small
    · rename_i short
      rw [← Nat.pow_succ']
      refine ih (by rwa [Nat.add_succ, ← Nat.succ_add]) fun k near => ?_
      rcases Nat.lt_succ_iff_lt_or_eq.mp near with near | rfl
      · exact small k near
      · exact Nat.lt_of_not_le short

namespace Ring

variable {α : Type} {r : Ring α} {l : Ledger α}

structure Keeps (r : Ring α) (l : Ledger α) : Prop where
  capacity : r.values.capacity = l.room
  room : 0 < l.room
  kept : r.values.kept = l.sent.drop l.oldest
  forgotten : r.values.forgotten = l.oldest
  handles : r.values.handles = if l.closed = true then 0 else 1
  positions : r.positions = l.next

theorem Keeps.length (keeps : r.Keeps l) :
    r.values.kept.length = l.sent.length - l.oldest := by
  rw [keeps.kept, List.length_drop]

theorem Keeps.sent (keeps : r.Keeps l) : r.values.sent = l.sent.length := by
  have short : l.oldest ≤ l.sent.length := Nat.sub_le _ _
  rw [Broadcast.sent, keeps.length, keeps.forgotten]
  omega

theorem keeps_send (a : α) (keeps : r.Keeps l) :
    Keeps { r with values := r.values.send a } { l with sent := l.sent ++ [a] } := by
  obtain ⟨capacity, room, kept, forgotten, handles, positions⟩ := keeps
  have length := congrArg List.length kept
  rw [List.length_drop] at length
  unfold Ledger.oldest at length kept forgotten
  have grown : (l.sent ++ [a]).length = l.sent.length + 1 := List.length_append
  unfold Broadcast.send
  -- Only a full ring forgets, and then its number of the oldest value grows by one.
  split
  · rename_i space
    have all : l.sent.length - l.room = 0 := by omega
    have all' : (l.sent ++ [a]).length - l.room = 0 := by omega
    refine ⟨capacity, room, ?_, ?_, handles, positions⟩
    · show r.values.kept ++ [a] = (l.sent ++ [a]).drop ((l.sent ++ [a]).length - l.room)
      rw [all', kept, all, List.drop_zero, List.drop_zero]
    · show r.values.forgotten = (l.sent ++ [a]).length - l.room
      rw [all', forgotten, all]
  · rename_i full
    have one : (l.sent ++ [a]).length - l.room = l.sent.length - l.room + 1 := by omega
    refine ⟨capacity, room, ?_, ?_, handles, positions⟩
    · show r.values.kept.drop 1 ++ [a] = (l.sent ++ [a]).drop ((l.sent ++ [a]).length - l.room)
      rw [one, kept, List.drop_drop, List.drop_append_of_le_length (by omega)]
    · show r.values.forgotten + 1 = (l.sent ++ [a]).length - l.room
      rw [one, forgotten]

/-- One try at the values is one of the ledger's. -/
theorem Keeps.pulls (keeps : r.Keeps l) (p : Nat) :
    l.Pulls p (r.values.pull p).1 (r.values.pull p).2 := by
  unfold Broadcast.pull
  rw [keeps.forgotten]
  split
  · rename_i behind
    exact .lagged behind
  · rename_i near
    have here : r.values.kept[p - l.oldest]? = l.sent[p]? := by
      rw [keeps.kept, List.getElem?_drop, Nat.add_sub_cancel' (Nat.not_lt.mp near)]
    rw [here, keeps.handles]
    cases found : l.sent[p]? with
    | some a => exact .value (Nat.not_lt.mp near) found
    | none =>
      have done : l.sent.length ≤ p := List.getElem?_eq_none_iff.mp found
      cases closed : l.closed with
      | false => exact .empty done closed
      | true => exact .closed done closed

theorem Keeps.pull {i p : Nat} (keeps : r.Keeps l) (stands : l.next[i]? = some (some p)) :
    ∃ q, l.Pulls p (r.pull i).1 q ∧ Keeps (r.pull i).2 (l.moved i q) := by
  have stands' : r.positions[i]? = some (some p) := keeps.positions ▸ stands
  unfold Ring.pull
  rw [stands']
  refine ⟨_, keeps.pulls p, keeps.capacity, keeps.room, keeps.kept, keeps.forgotten,
    keeps.handles, ?_⟩
  rw [keeps.positions]
  rfl

theorem contract (most : Nat) : (Ring.channel α).Contract most Keeps where
  creates {capacity} some_room _ := by
    refine ⟨⟨⟨nextPowerOfTwo capacity capacity 1, [], 0, 1⟩, []⟩, ?_⟩
    show (Broadcast.new? capacity).map _ = _
    rw [Broadcast.new?, if_neg (Nat.ne_of_gt some_room)]
    rfl
  created {capacity s} made := by
    obtain ⟨b, hb, rfl⟩ := Option.map_eq_some_iff.mp made
    obtain ⟨-, rfl⟩ : capacity ≠ 0 ∧ _ = b := by simpa [Broadcast.new?] using hb
    have rounded : RoundedUp capacity (nextPowerOfTwo capacity capacity 1) :=
      roundedUp_nextPowerOfTwo (e := 0) (by simpa using Nat.lt_two_pow_self.le) (by simp)
    refine ⟨_, rounded, rfl, Nat.pos_of_isPowerOfTwo rounded.1.1, ?_, ?_, rfl, rfl⟩
    · exact List.drop_nil.symm
    · exact (Nat.zero_sub _).symm
  send a keeps _ := keeps_send a keeps
  subscribe {s l} keeps _ := by
    refine ⟨keeps.capacity, keeps.room, keeps.kept, keeps.forgotten, keeps.handles, ?_⟩
    show s.positions ++ [some s.values.sent] = l.next ++ [some l.sent.length]
    rw [keeps.positions, keeps.sent]
  release {s l i p} keeps _ := by
    refine ⟨keeps.capacity, keeps.room, keeps.kept, keeps.forgotten, keeps.handles, ?_⟩
    show s.positions.set i none = l.next.set i none
    rw [keeps.positions]
  close {s l} keeps opened := by
    refine ⟨keeps.capacity, keeps.room, keeps.kept, keeps.forgotten, ?_, keeps.positions⟩
    show s.values.handles - 1 = if true = true then 0 else 1
    rw [keeps.handles, opened]
    rfl
  pull keeps stands := keeps.pull stands

end Ring

end HeaterLink
