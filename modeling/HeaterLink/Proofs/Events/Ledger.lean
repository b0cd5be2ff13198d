import HeaterLink.Exchange
import Mathlib.Data.List.Basic
import Mathlib.Order.Bounds.Defs

/-!
# What a channel promises

A ledger forgets nothing: it has every value that was sent, and of every
receiver the number of the value that comes next for it. What the documentation
of a broadcast channel promises is said of the ledger, operation by operation,
and a channel keeps the contract if each of its states goes with a ledger that
follows. Nothing more is used of a channel from here on. Behind the loop of
receiving there is no word of missed values left: a receiver gets the oldest
value kept that it has not passed.
-/

set_option autoImplicit false

namespace HeaterLink

def RoundedUp (capacity room : Nat) : Prop :=
  IsLeast {p : Nat | p.isPowerOfTwo ∧ capacity ≤ p} room

structure Ledger (α : Type) where
  room : Nat
  sent : List α
  closed : Bool
  next : List (Option Nat)

namespace Ledger

variable {α : Type}

def oldest (l : Ledger α) : Nat := l.sent.length - l.room

def moved (l : Ledger α) (i p : Nat) : Ledger α := { l with next := l.next.set i (some p) }

inductive Pulls (l : Ledger α) (p : Nat) : Pulled α → Nat → Prop
  | value {a : α} : l.oldest ≤ p → l.sent[p]? = some a → Pulls l p (.value a) (p + 1)
  | lagged : p < l.oldest → Pulls l p (.lagged (l.oldest - p)) l.oldest
  | empty : l.sent.length ≤ p → l.closed = false → Pulls l p .empty p
  | closed : l.sent.length ≤ p → l.closed = true → Pulls l p .closed p

inductive Receives (l : Ledger α) (p : Nat) : Received α → Nat → Prop
  | value {a : α} : l.sent[max p l.oldest]? = some a →
      Receives l p (.value a) (max p l.oldest + 1)
  | pending : l.sent.length ≤ p → l.closed = false → Receives l p .pending p
  | closed : l.sent.length ≤ p → l.closed = true → Receives l p .closed p

theorem moved_moved (l : Ledger α) (i p q : Nat) : (l.moved i p).moved i q = l.moved i q := by
  simp [moved]

theorem Receives.of_oldest {l : Ledger α} {i p q : Nat} {r : Received α} (behind : p < l.oldest)
    (room : 0 < l.room) (h : (l.moved i l.oldest).Receives l.oldest r q) : l.Receives p r q := by
  have kept : l.oldest < l.sent.length := by
    rw [oldest] at behind ⊢
    omega
  cases h with
  | value found =>
    have here : max l.oldest (l.moved i l.oldest).oldest = max p l.oldest := by
      rw [show (l.moved i l.oldest).oldest = l.oldest from rfl]
      omega
    rw [here] at found ⊢
    exact .value found
  | pending done _ => exact absurd kept (Nat.not_lt.mpr done)
  | closed done _ => exact absurd kept (Nat.not_lt.mpr done)

end Ledger

/-- The documented behaviour of a broadcast channel. `most` is the largest capacity that it takes
on, and `Keeps` says which ledgers a state may go with. -/
structure Channel.Contract {α : Type} (C : Channel α) (most : Nat)
    (Keeps : C.State → Ledger α → Prop) : Prop where
  creates : ∀ {capacity}, 0 < capacity → capacity ≤ most → ∃ s, C.create? capacity = some s
  created : ∀ {capacity s}, C.create? capacity = some s →
    ∃ room, RoundedUp capacity room ∧ Keeps s ⟨room, [], false, []⟩
  send : ∀ {s l} (a : α), Keeps s l → l.closed = false →
    Keeps (C.send s a) { l with sent := l.sent ++ [a] }
  subscribe : ∀ {s l}, Keeps s l → l.closed = false →
    Keeps (C.subscribe s) { l with next := l.next ++ [some l.sent.length] }
  release : ∀ {s l i p}, Keeps s l → l.next[i]? = some (some p) →
    Keeps (C.release s i) { l with next := l.next.set i none }
  close : ∀ {s l}, Keeps s l → l.closed = false → Keeps (C.close s) { l with closed := true }
  pull : ∀ {s l i p}, Keeps s l → l.next[i]? = some (some p) →
    ∃ q, l.Pulls p (C.pull s i).1 q ∧ Keeps (C.pull s i).2 (l.moved i q)

namespace Channel.Contract

variable {α : Type} {C : Channel α} {most : Nat} {Keeps : C.State → Ledger α → Prop}
  {s : C.State} {l : Ledger α} {i p : Nat}

theorem receive_tries (contract : C.Contract most Keeps) (keeps : Keeps s l)
    (stands : l.next[i]? = some (some p)) :
    (∃ q, l.Receives p (C.receive s i).1 q ∧ Keeps (C.receive s i).2 (l.moved i q)) ∨
      p < l.oldest ∧ ∃ s', Keeps s' (l.moved i l.oldest) ∧ C.receive s i = C.receive s' i := by
  obtain ⟨q, pulls, keeps'⟩ := contract.pull keeps stands
  rw [C.receive_eq]
  generalize C.pull s i = pulled at pulls keeps' ⊢
  obtain ⟨answer, s'⟩ := pulled
  dsimp only at pulls keeps'
  cases pulls with
  | value near found =>
    have here : max p l.oldest = p := Nat.max_eq_left near
    have received := Ledger.Receives.value (here.symm ▸ found)
    rw [here] at received
    exact .inl ⟨p + 1, received, keeps'⟩
  | lagged behind => exact .inr ⟨behind, s', keeps', rfl⟩
  | empty done opened => exact .inl ⟨p, .pending done opened, keeps'⟩
  | closed done closed => exact .inl ⟨p, .closed done closed, keeps'⟩

/-- One that has fallen behind is told so, and gets the oldest value kept with its second try. -/
theorem receive (contract : C.Contract most Keeps) (keeps : Keeps s l) (room : 0 < l.room)
    (stands : l.next[i]? = some (some p)) :
    ∃ q, l.Receives p (C.receive s i).1 q ∧ Keeps (C.receive s i).2 (l.moved i q) := by
  rcases contract.receive_tries keeps stands with done | ⟨behind, s', keeps', same⟩
  · exact done
  · obtain ⟨inside, -⟩ := List.getElem?_eq_some_iff.mp stands
    have stands' : (l.moved i l.oldest).next[i]? = some (some l.oldest) :=
      List.getElem?_set_self inside
    rw [same]
    rcases contract.receive_tries keeps' stands' with ⟨q, receives, keeps''⟩ | ⟨again, -⟩
    · rw [Ledger.moved_moved] at keeps''
      exact ⟨q, receives.of_oldest behind room, keeps''⟩
    · exact absurd again (Nat.lt_irrefl l.oldest)

end Channel.Contract

end HeaterLink
