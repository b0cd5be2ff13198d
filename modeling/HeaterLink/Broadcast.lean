import HeaterLink.Channel

/-!
# Broadcast channels

A ring keeps the latest values only, as many as the capacity rounded up to a
power of two. A subscription stands at a number in the order of sending; one
that fell behind is told so, and then goes on with the oldest value still kept.
The channel closes when its last sending handle is dropped.
-/

set_option autoImplicit false

namespace HeaterLink

/-- Least power of two at or above `n`, searched among the first `bound`. -/
def nextPowerOfTwo (n : Nat) : Nat → Nat → Nat
  | 0, p => p
  | bound + 1, p => if n ≤ p then p else nextPowerOfTwo n bound (2 * p)

structure Broadcast (α : Type) where
  capacity : Nat
  kept : List α
  forgotten : Nat
  handles : Nat

namespace Broadcast

variable {α : Type}

/-- A channel with one sending handle. No channel has room for nothing. -/
def new? (capacity : Nat) : Option (Broadcast α) :=
  if capacity = 0 then none else some ⟨nextPowerOfTwo capacity capacity 1, [], 0, 1⟩

def sent (b : Broadcast α) : Nat := b.forgotten + b.kept.length

def send (b : Broadcast α) (a : α) : Broadcast α :=
  if b.kept.length < b.capacity then { b with kept := b.kept ++ [a] }
  else { b with kept := b.kept.drop 1 ++ [a], forgotten := b.forgotten + 1 }

def dropHandle (b : Broadcast α) : Broadcast α := { b with handles := b.handles - 1 }

/-- One try of a subscription that stands at `position`, and where it stands afterwards. -/
def pull (b : Broadcast α) (position : Nat) : Pulled α × Nat :=
  if position < b.forgotten then (.lagged (b.forgotten - position), b.forgotten)
  else
    match b.kept[position - b.forgotten]? with
    | some a => (.value a, position + 1)
    | none => (if b.handles = 0 then .closed else .empty, position)

theorem behind_of_lagged {b : Broadcast α} {position n : Nat}
    (h : (b.pull position).1 = .lagged n) :
    position < b.forgotten ∧ (b.pull position).2 = b.forgotten := by
  unfold pull at h ⊢
  split at h
  · rename_i behind
    exact ⟨behind, by rw [if_pos behind]⟩
  · split at h
    · cases h
    · split at h <;> cases h

def receiveAll (b : Broadcast α) (position : Nat) : List α × Nat :=
  (b.kept.drop (position - b.forgotten), b.sent)

end Broadcast

/-- A ring and where its subscriptions stand. One that has ended stands nowhere. -/
structure Ring (α : Type) where
  values : Broadcast α
  positions : List (Option Nat)

namespace Ring

variable {α : Type}

def pull (r : Ring α) (i : Nat) : Pulled α × Ring α :=
  match r.positions[i]? with
  | some (some p) =>
    ((r.values.pull p).1, { r with positions := r.positions.set i (some (r.values.pull p).2) })
  | _ => (.closed, r)

def missed (r : Ring α) (i : Nat) : Nat :=
  match r.positions[i]? with
  | some (some p) => r.values.forgotten - p
  | _ => 0

theorem missed_of_lagged {r r' : Ring α} {i n : Nat} (h : r.pull i = (.lagged n, r')) :
    r'.missed i < r.missed i := by
  unfold pull at h
  split at h
  · rename_i p stands
    obtain ⟨told, rfl⟩ := Prod.mk.inj h
    obtain ⟨inside, -⟩ := List.getElem?_eq_some_iff.mp stands
    obtain ⟨behind, next⟩ := Broadcast.behind_of_lagged told
    simp only [missed, stands, List.getElem?_set_self inside, next]
    omega
  · cases h

def channel (α : Type) : Channel α where
  State := Ring α
  create? capacity := (Broadcast.new? capacity).map fun b => ⟨b, []⟩
  send r a := { r with values := r.values.send a }
  subscribe r := { r with positions := r.positions ++ [some r.values.sent] }
  release r i := { r with positions := r.positions.set i none }
  close r := { r with values := r.values.dropHandle }
  pull := pull
  missed := missed
  told := missed_of_lagged

end Ring

end HeaterLink
