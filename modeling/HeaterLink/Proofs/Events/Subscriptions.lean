import HeaterLink.Event
import HeaterLink.Proofs.Events.Bookkeeping
import HeaterLink.Proofs.Events.Ring
import Mathlib.Data.List.Induction
import Mathlib.Order.Bounds.Basic

/-!
# What a subscription gets

The values that are sent from the moment of subscribing on are numbered from
zero. A subscription gets some of them, in their order, and it misses one only if
the ring has moved past it. It waits, or finds the channel closed, only after it
has got whatever is still kept. All this holds of every channel that keeps the
contract, whatever the steps and their order.
-/

set_option autoImplicit false

namespace HeaterLink

variable {α : Type}

namespace Exchange

def Answer.values : Answer α → List α
  | .received (.value a) => [a]
  | _ => []

variable {C : Channel α} {most : Nat} {Keeps : C.State → Ledger α → Prop} {x y : Exchange C}
  {l : Ledger α} {i room : Nat} {steps : List (Step α)} {picks new : List Nat} {s : Step α}

def collect {β : Type} (f : Exchange C → Step α → List β) (x : Exchange C) :
    List (Step α) → List β
  | [] => []
  | s :: rest => f x s ++ collect f (x.step s).1 rest

def dispatched (x : Exchange C) (steps : List (Step α)) : List α := collect sends x steps

def gives (i : Nat) (x : Exchange C) : Step α → List α
  | .receive j => if j = i then (x.step (.receive j)).2.values else []
  | _ => []

def returned (i : Nat) (x : Exchange C) (steps : List (Step α)) : List α :=
  collect (gives i) x steps

theorem collect_snoc {β : Type} (f : Exchange C → Step α → List β) (x : Exchange C)
    (steps : List (Step α)) (s : Step α) :
    collect f x (steps ++ [s]) = collect f x steps ++ f (x.after steps) s := by
  induction steps generalizing x with
  | nil => simp [collect, after]
  | cons first rest ih =>
    rw [List.cons_append, collect, ih, collect, List.append_assoc]
    rfl

theorem dispatched_snoc (x : Exchange C) (steps : List (Step α)) (s : Step α) :
    x.dispatched (steps ++ [s]) = x.dispatched steps ++ (x.after steps).sends s :=
  collect_snoc sends x steps s

theorem returned_snoc (i : Nat) (x : Exchange C) (steps : List (Step α)) (s : Step α) :
    x.returned i (steps ++ [s]) = x.returned i steps ++ gives i (x.after steps) s :=
  collect_snoc (gives i) x steps s

theorem gives_of_nothing (nothing : s = .receive i → (x.step s).2 = .nothing) :
    gives i x s = [] := by
  cases s with
  | receive j =>
    by_cases same : j = i
    · subst same
      rw [gives, if_pos rfl, nothing rfl]
      rfl
    · exact if_neg same
  | _ => rfl

/-- One answer to a subscription that has got the values at `got` of those sent since. What it gets
now is at `new`. Whatever it has not got by then has at least `room` values behind it. -/
inductive Fair (room : Nat) (sent : List α) (opened : Bool) (got : List Nat) :
    Received α → List Nat → Prop
  | value {a k} : sent[k]? = some a → (∀ j < k, j ∉ got → j + room < sent.length) →
      Fair room sent opened got (.value a) [k]
  | pending : opened = true → (∀ j < sent.length, sent.length ≤ j + room → j ∈ got) →
      Fair room sent opened got .pending []
  | closed : opened = false → (∀ j < sent.length, sent.length ≤ j + room → j ∈ got) →
      Fair room sent opened got .closed []

structure Follows (y : Exchange C) (i room : Nat) (steps : List (Step α)) (picks : List Nat) :
    Prop where
  ordered : picks.Pairwise (· < ·)
  returned : picks.map ((y.dispatched steps)[·]?) = (y.returned i steps).map some
  answered : ∀ first, first ++ [.receive i] <+: steps → .unsubscribe i ∉ first →
    ∃ r, ((y.after first).step (.receive i)).2 = .received r
  fair : ∀ first r, first ++ [.receive i] <+: steps →
    ((y.after first).step (.receive i)).2 = .received r →
    ∃ got new, got.length = (y.returned i first).length ∧ got ++ new <+: picks ∧
      Fair room (y.dispatched first) (y.after first).isOpen got r new

theorem Fair.found {sent : List α} {opened : Bool} {r : Received α}
    (fair : Fair room sent opened picks r new) :
    new.map (sent[·]?) = (Answer.received r).values.map some := by
  cases fair with
  | value found _ => simpa [Answer.values] using found
  | pending _ _ => rfl
  | closed _ _ => rfl

theorem map_getElem?_append {sent values : List α} (more : List α)
    (found : picks.map (sent[·]?) = values.map some) :
    picks.map ((sent ++ more)[·]?) = values.map some := by
  rw [← found]
  refine List.map_congr_left fun k hk => List.getElem?_append_left ?_
  have some : sent[k]? ∈ values.map some := found ▸ List.mem_map_of_mem hk
  obtain ⟨a, -, ha⟩ := List.mem_map.mp some
  exact (List.getElem?_eq_some_iff.mp ha.symm).1

theorem follows_nil (y : Exchange C) (i room : Nat) : y.Follows i room [] [] := by
  refine ⟨.nil, rfl, fun first h => ?_, fun first r h => ?_⟩ <;>
    simp [List.prefix_nil] at h

theorem Follows.snoc (follows : y.Follows i room steps picks)
    (ordered : (picks ++ new).Pairwise (· < ·))
    (found : new.map ((y.dispatched steps)[·]?) = (gives i (y.after steps) s).map some)
    (answered : s = .receive i → .unsubscribe i ∉ steps →
      ∃ r, ((y.after steps).step s).2 = .received r)
    (fair : s = .receive i → ∀ r, ((y.after steps).step s).2 = .received r →
      Fair room (y.dispatched steps) (y.after steps).isOpen picks r new) :
    y.Follows i room (steps ++ [s]) (picks ++ new) := by
  have count : picks.length = (y.returned i steps).length := by
    simpa using congrArg List.length follows.returned
  refine ⟨ordered, ?_, fun first h => ?_, fun first r h => ?_⟩
  · rw [List.map_append, dispatched_snoc, returned_snoc, List.map_append,
      map_getElem?_append _ follows.returned, map_getElem?_append _ found]
  · rcases List.prefix_concat_iff.mp h with whole | inside
    · obtain ⟨rfl, last⟩ := List.append_inj' whole rfl
      obtain rfl : Step.receive i = s := by simpa using last
      exact answered rfl
    · exact follows.answered first inside
  · rcases List.prefix_concat_iff.mp h with whole | inside
    · obtain ⟨rfl, last⟩ := List.append_inj' whole rfl
      obtain rfl : Step.receive i = s := by simpa using last
      exact fun received => ⟨picks, new, count, List.prefix_rfl, fair rfl r received⟩
    · intro received
      obtain ⟨got, next, length, got_prefix, fair⟩ := follows.fair first r inside received
      exact ⟨got, next, length, got_prefix.trans (List.prefix_append _ _), fair⟩

theorem Follows.snoc_idle (follows : y.Follows i room steps picks)
    (idle : s = .receive i → .unsubscribe i ∈ steps ∧ ((y.after steps).step s).2 = .nothing) :
    y.Follows i room (steps ++ [s]) picks := by
  have nothing : gives i (y.after steps) s = [] := gives_of_nothing fun h => (idle h).2
  rw [← List.append_nil picks]
  refine follows.snoc (by simpa using follows.ordered) (by rw [nothing]; rfl)
    (fun h stays => absurd (idle h).1 stays) fun h r received => ?_
  cases (idle h).2.symm.trans received

theorem Follows.snoc_receive (follows : y.Follows i room steps picks) {r : Received α}
    (received : ((y.after steps).step (.receive i)).2 = .received r)
    (fair : Fair room (y.dispatched steps) (y.after steps).isOpen picks r new)
    (ordered : (picks ++ new).Pairwise (· < ·)) :
    y.Follows i room (steps ++ [.receive i]) (picks ++ new) := by
  refine follows.snoc ordered ?_ (fun _ _ => ⟨r, received⟩) fun _ r' received' => ?_
  · rw [fair.found, gives, if_pos rfl, received]
  · obtain rfl := Answer.received.inj (received.symm.trans received')
    exact fair

structure StandsAt (room sent : Nat) (picks : List Nat) (n : Nat) : Prop where
  within : n ≤ sent
  got : ∀ k ∈ picks, k < n
  missed : ∀ j < n, j ∉ picks → j + room < sent

inductive Placed (base room sent : Nat) (picks : List Nat) (left : Prop) : Option Nat → Prop
  | here {n} : StandsAt room sent picks n → Placed base room sent picks left (some (base + n))
  | left : left → Placed base room sent picks left none

theorem StandsAt.take {sent n : Nat} (stands : StandsAt room sent picks n)
    (inside : max n (sent - room) < sent) :
    StandsAt room sent (picks ++ [max n (sent - room)]) (max n (sent - room) + 1) := by
  refine ⟨inside, fun k hk => ?_, fun j hj skipped => ?_⟩
  · rcases List.mem_append.mp hk with hk | hk
    · have := stands.got k hk
      omega
    · rw [List.mem_singleton.mp hk]
      exact Nat.lt_succ_self _
  · have old : j ∉ picks := fun h => skipped (List.mem_append_left _ h)
    have other : j ≠ max n (sent - room) := fun h => skipped (by simp [h])
    by_cases passed : j < n
    · exact stands.missed j passed old
    · omega

theorem Placed.mono {base sent more : Nat} {left left' : Prop} {p? : Option Nat}
    (placed : Placed base room sent picks left p?) (grown : sent ≤ more) (stays : left → left') :
    Placed base room more picks left' p? := by
  cases placed with
  | here stands =>
    refine .here ⟨stands.within.trans grown, stands.got, fun j hj skipped => ?_⟩
    exact Nat.lt_of_lt_of_le (stands.missed j hj skipped) grown
  | left gone => exact .left (stays gone)

/-- The answer to a subscription is fair if the ledger knows where it stands. -/
theorem StandsAt.receives {first sent : List α} {n q : Nat} {r : Received α}
    (stands : StandsAt l.room sent.length picks n) (split : l.sent = first ++ sent)
    (receives : l.Receives (first.length + n) r q) :
    ∃ m new, q = first.length + m ∧ Fair l.room sent (!l.closed) picks r new ∧
      (∀ j ∈ picks, ∀ k ∈ new, j < k) ∧ new.Pairwise (· < ·) ∧
      StandsAt l.room sent.length (picks ++ new) m := by
  have total : l.sent.length = first.length + sent.length := by rw [split, List.length_append]
  have caught_up (all : n = sent.length) (j : Nat) (hj : j < sent.length)
      (kept : sent.length ≤ j + l.room) : j ∈ picks := by
    by_contra skipped
    exact absurd (stands.missed j (all ▸ hj) skipped) (Nat.not_lt.mpr kept)
  cases receives with
  | value found =>
    -- Counted from the moment of subscribing, the oldest value kept may lie before zero.
    have next : max (first.length + n) l.oldest = first.length + max n (sent.length - l.room) := by
      rw [Ledger.oldest, total]
      omega
    rw [next, split, List.getElem?_append_right (Nat.le_add_right _ _),
      Nat.add_sub_cancel_left] at found
    obtain ⟨inside, -⟩ := List.getElem?_eq_some_iff.mp found
    have taken := stands.take inside
    refine ⟨_, [max n (sent.length - l.room)], by rw [next, Nat.add_assoc],
      .value found fun j hj skipped => ?_, fun j hj k hk => ?_, List.pairwise_singleton _ _, taken⟩
    · exact taken.missed j (Nat.lt_succ_of_lt hj) (by simp [skipped, Nat.ne_of_lt hj])
    · have := stands.got j hj
      rw [List.mem_singleton.mp hk]
      omega
  | pending done opened =>
    have all : n = sent.length := by have := stands.within; omega
    exact ⟨n, [], rfl, .pending (by rw [opened]; rfl) (caught_up all), by simp, .nil,
      by simpa using stands⟩
  | closed done closed =>
    have all : n = sent.length := by have := stands.within; omega
    exact ⟨n, [], rfl, .closed (by rw [closed]; rfl) (caught_up all), by simp, .nil,
      by simpa using stands⟩

theorem Follows.step {first : List α} {p? q? : Option Nat}
    (follows : y.Follows i l.room steps picks) (closed : l.closed = !(y.after steps).isOpen)
    (split : l.sent = first ++ y.dispatched steps)
    (placed : Placed first.length l.room (y.dispatched steps).length picks
      (.unsubscribe i ∈ steps) p?)
    (meets : l.Meets i p? s ((y.after steps).step s).2 q?) :
    ∃ picks', y.Follows i l.room (steps ++ [s]) picks' ∧
      Placed first.length l.room (y.dispatched (steps ++ [s])).length picks'
        (.unsubscribe i ∈ steps ++ [s]) q? := by
  have grown : (y.dispatched steps).length ≤ (y.dispatched (steps ++ [s])).length := by
    rw [dispatched_snoc, List.length_append]
    exact Nat.le_add_right _ _
  have stays : Step.unsubscribe i ∈ steps → Step.unsubscribe i ∈ steps ++ [s] :=
    List.mem_append_left _
  generalize hanswer : ((y.after steps).step s).2 = answer at meets
  cases meets with
  | passes receives leaves =>
    exact ⟨picks, follows.snoc_idle fun h => absurd h receives, placed.mono grown stays⟩
  | receives receives =>
    cases placed with
    | here stands =>
      obtain ⟨m, new, rfl, fair, above, ordered, stands'⟩ := stands.receives split receives
      rw [closed, Bool.not_not] at fair
      have sorted := List.pairwise_append.mpr ⟨follows.ordered, ordered, above⟩
      exact ⟨picks ++ new, follows.snoc_receive hanswer fair sorted,
        (Placed.here stands').mono grown stays⟩
  | leaves => exact ⟨picks, follows.snoc_idle nofun, .left (by simp)⟩
  | gone nothing =>
    cases placed with
    | left gone =>
      exact ⟨picks, follows.snoc_idle fun h => ⟨gone, hanswer.trans (nothing h)⟩,
        .left (stays gone)⟩

/-- From where a subscription begins, its account can be kept. -/
theorem exists_follows (contract : C.Contract most Keeps) (tracks : y.Tracks Keeps l)
    (stands : l.next[i]? = some (some l.sent.length)) (steps : List (Step α)) :
    ∃ picks, y.Follows i l.room steps picks := by
  suffices account : ∃ picks l' p?, y.Follows i l.room steps picks ∧
      (y.after steps).Tracks Keeps l' ∧ l'.room = l.room ∧
      l'.sent = l.sent ++ y.dispatched steps ∧ l'.next[i]? = some p? ∧
      Placed l.sent.length l.room (y.dispatched steps).length picks (.unsubscribe i ∈ steps) p? by
    obtain ⟨picks, -, -, follows, -⟩ := account
    exact ⟨picks, follows⟩
  -- The run is taken from its end: the account of a prefix says nothing of what comes later.
  induction steps using List.reverseRecOn with
  | nil =>
    refine ⟨[], l, _, follows_nil y i l.room, tracks, rfl, (List.append_nil _).symm, stands, ?_⟩
    exact .here ⟨Nat.le_refl _, by simp, fun j hj => absurd hj (Nat.not_lt_zero j)⟩
  | append_singleton steps s ih =>
    obtain ⟨picks, l', p?, follows, tracks', room, sent, stands', placed⟩ := ih
    obtain ⟨l'', books⟩ := Exchange.books contract tracks' s
    obtain ⟨q?, stands'', meets⟩ := books.meets i p? stands'
    rw [← room] at follows placed
    obtain ⟨picks', follows', placed'⟩ := follows.step tracks'.closed sent placed meets
    rw [room] at follows' placed'
    refine ⟨picks', l'', q?, follows', ?_, books.room.trans room, ?_, stands'', placed'⟩
    · rw [after_snoc]
      exact books.tracks
    · rw [books.sent, sent, List.append_assoc, dispatched_snoc]

/-- Of every channel that keeps the contract: whoever subscribes to an exchange over it, after
whatever steps, follows it through whatever steps come, and what is lost on the way is lost to
lag. -/
theorem subscribe_follows (contract : C.Contract most Keeps) (capacity : Nat) :
    (0 < capacity → capacity ≤ most → ∃ x, over? C capacity = some x) ∧
      ∀ x, over? C capacity = some x → ∃ room, RoundedUp capacity room ∧
        ∀ before, (x.after before).isOpen = true →
          ∃ i, ((x.after before).step .subscribe).2 = .number i ∧
            ∀ since, ∃ picks, (x.after (before ++ [.subscribe])).Follows i room since picks := by
  refine ⟨fun some_room fits => ?_, fun x made => ?_⟩
  · obtain ⟨s, created⟩ := contract.creates some_room fits
    exact ⟨⟨s, [true], []⟩, by rw [over?, created]; rfl⟩
  · obtain ⟨s, created, rfl⟩ := Option.map_eq_some_iff.mp made
    obtain ⟨room, rounded, keeps⟩ := contract.created created
    refine ⟨room, rounded, fun before opened => ?_⟩
    have begins : Tracks Keeps (⟨s, [true], []⟩ : Exchange C) ⟨room, [], false, []⟩ :=
      ⟨keeps, Nat.pos_of_isPowerOfTwo rounded.1.1, rfl, rfl⟩
    obtain ⟨l, tracks, rfl⟩ := begins.after contract before
    have books := books_subscribe contract tracks opened
    have number : (Exchange.after ⟨s, [true], []⟩ before).listening.length = l.next.length := by
      rw [← tracks.next, List.length_map]
    refine ⟨l.next.length, ?_, fun since => ?_⟩
    · rw [step, if_pos opened, number]
    · rw [after_snoc]
      exact exists_follows contract books.tracks (by simp) since

/-- Room for three is room for four. The second subscription misses one value, later seven at once,
and is told that the channel is closed only after it has got the rest. -/
theorem subscribe_follows_slowly :
    let x : Exchange (Ring.channel Event) := ⟨(⟨⟨4, [], 0, 1⟩, []⟩ : Ring Event), [true], []⟩
    let y := x.after [.subscribe, .send .connected 1, .subscribe]
    let since : List (Step Event) :=
      [.send (.message .schedule) 2, .send .connected 3, .receive 1, .receive 0, .clone, .drop 0,
        .send .disconnected 5, .send .malformedHeader 3, .receive 1, .receive 1, .receive 1,
        .receive 1, .receive 1, .send .connected 1, .drop 1, .receive 1, .receive 1]
    (Ring.channel Event).Contract 3 Ring.Keeps ∧ over? (Ring.channel Event) 3 = some x ∧
      RoundedUp 3 4 ∧ y.returned 1 since = [.message .schedule, .disconnected,
        .malformedHeader, .malformedHeader, .malformedHeader, .connected] ∧
      ((y.after (since.take 12)).step (.receive 1)).2 = .received .pending ∧
      ((y.after (since.take 16)).step (.receive 1)).2 = .received .closed ∧
      ∃ picks, y.Follows 1 4 since picks := by
  intro x y since
  have contract : (Ring.channel Event).Contract 3 Ring.Keeps := Ring.contract 3
  have rounded : RoundedUp 3 4 := roundedUp_two_pow (e := 2) (by decide) (by decide)
  obtain ⟨makes, follows⟩ := subscribe_follows contract 3
  have made : over? (Ring.channel Event) 3 = some x := by
    obtain ⟨x', made⟩ := makes (by decide) (Nat.le_refl 3)
    obtain rfl : x = x' := Option.some.inj made
    exact made
  obtain ⟨room, rounded', follows⟩ := follows x made
  obtain rfl : room = 4 := IsLeast.unique rounded' rounded
  obtain ⟨i, number, follows⟩ := follows [.subscribe, .send .connected 1] (by decide +kernel)
  obtain rfl : i = 1 := by
    have second : ((x.after [.subscribe, .send .connected 1]).step .subscribe).2 = .number 1 := by
      decide +kernel
    exact Answer.number.inj (number.symm.trans second)
  refine ⟨contract, made, rounded, ?_, ?_, ?_, follows since⟩
  · decide +kernel
  · decide +kernel
  · decide +kernel

end Exchange

end HeaterLink
