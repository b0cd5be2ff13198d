import HeaterLink.Proofs.Events.Ledger

/-!
# Keeping a ledger of an exchange

Whatever step an exchange takes, its ledger can be carried forward: it gets what
is sent, it gets whoever subscribes, and a subscription that receives moves on in
it. All others stand where they stood.
-/

set_option autoImplicit false

namespace HeaterLink

variable {α : Type}

inductive Ledger.Meets (l : Ledger α) (i : Nat) :
    Option Nat → Exchange.Step α → Exchange.Answer α → Option Nat → Prop
  | passes {p s a} : s ≠ .receive i → s ≠ .unsubscribe i → l.Meets i (some p) s a (some p)
  | receives {p r q} : l.Receives p r q → l.Meets i (some p) (.receive i) (.received r) (some q)
  | leaves {p a} : l.Meets i (some p) (.unsubscribe i) a none
  | gone {s a} : (s = .receive i → a = .nothing) → l.Meets i none s a none

theorem Ledger.Meets.of_ne {l : Ledger α} {i : Nat} {p? : Option Nat} {s : Exchange.Step α}
    {a : Exchange.Answer α} (receives : s ≠ .receive i) (leaves : s ≠ .unsubscribe i) :
    l.Meets i p? s a p? := by
  cases p? with
  | none => exact .gone fun same => absurd same receives
  | some p => exact .passes receives leaves

namespace Exchange

variable {C : Channel α} {most : Nat} {Keeps : C.State → Ledger α → Prop} {x : Exchange C}
  {l : Ledger α} {i : Nat}

def sends (x : Exchange C) : Step α → List α
  | .send a n => if x.isOpen then List.replicate n a else []
  | _ => []

structure Tracks (Keeps : C.State → Ledger α → Prop) (x : Exchange C) (l : Ledger α) : Prop where
  keeps : Keeps x.channel l
  room : 0 < l.room
  closed : l.closed = !x.isOpen
  next : l.next.map Option.isSome = x.listening

structure Books (Keeps : C.State → Ledger α → Prop) (x : Exchange C) (l : Ledger α) (s : Step α)
    (l' : Ledger α) : Prop where
  tracks : Tracks Keeps (x.step s).1 l'
  room : l'.room = l.room
  sent : l'.sent = l.sent ++ x.sends s
  meets : ∀ (i : Nat) p?, l.next[i]? = some p? →
    ∃ q?, l'.next[i]? = some q? ∧ l.Meets i p? s (x.step s).2 q?

theorem Tracks.listening_eq_some_iff (tracks : x.Tracks Keeps l) :
    x.listening[i]? = some true ↔ ∃ p, l.next[i]? = some (some p) := by
  rw [← tracks.next, List.getElem?_map]
  cases l.next[i]? with
  | none => simp
  | some p? => cases p? <;> simp

theorem Tracks.not_closed (tracks : x.Tracks Keeps l) (opened : x.isOpen = true) :
    l.closed = false := by
  rw [tracks.closed, opened]
  rfl

theorem keeps_sendTimes (contract : C.Contract most Keeps) (a : α) (n : Nat) {s : C.State}
    {l : Ledger α} (keeps : Keeps s l) (opened : l.closed = false) :
    Keeps (sendTimes C s a n) { l with sent := l.sent ++ List.replicate n a } := by
  induction n generalizing s l with
  | zero => simpa [sendTimes] using keeps
  | succ n ih =>
    have sent := ih (contract.send a keeps opened) opened
    rwa [List.append_assoc, List.singleton_append, ← List.replicate_succ] at sent

/-- A step that is not taken leaves the ledger as it is. -/
theorem books_of_idle (tracks : x.Tracks Keeps l) {s : Step α} (idle : x.step s = (x, .nothing))
    (silent : x.sends s = [])
    (gone : ∀ i, s = .receive i ∨ s = .unsubscribe i → ¬x.listening[i]? = some true) :
    x.Books Keeps l s l := by
  refine ⟨by rwa [idle], rfl, by rw [silent, List.append_nil], fun i p? stands => ⟨p?, stands, ?_⟩⟩
  by_cases ours : s = .receive i ∨ s = .unsubscribe i
  · cases p? with
    | none => exact .gone fun _ => by rw [idle]
    | some p => exact absurd (tracks.listening_eq_some_iff.mpr ⟨p, stands⟩) (gone i ours)
  · exact .of_ne (fun h => ours (.inl h)) (fun h => ours (.inr h))

theorem books_of_stays {s : Step α} {l' : Ledger α} (tracks : Tracks Keeps (x.step s).1 l')
    (room : l'.room = l.room) (sent : l'.sent = l.sent ++ x.sends s)
    (stays : ∀ (i : Nat) p?, l.next[i]? = some p? → l'.next[i]? = some p?)
    (others : ∀ i, s ≠ .receive i ∧ s ≠ .unsubscribe i) : x.Books Keeps l s l' :=
  ⟨tracks, room, sent, fun i p? stands =>
    ⟨p?, stays i p? stands, .of_ne (others i).1 (others i).2⟩⟩

theorem books_subscribe (contract : C.Contract most Keeps) (tracks : x.Tracks Keeps l)
    (opened : x.isOpen = true) :
    x.Books Keeps l .subscribe { l with next := l.next ++ [some l.sent.length] } := by
  have closed : l.closed = false := tracks.not_closed opened
  have taken : x.step .subscribe = ({ x with
      channel := C.subscribe x.channel, listening := x.listening ++ [true] },
      .number x.listening.length) := if_pos opened
  refine books_of_stays ?_ rfl (List.append_nil _).symm (fun i p? stands => ?_) fun i => ⟨?_, ?_⟩
  · rw [taken]
    refine ⟨contract.subscribe tracks.keeps closed, tracks.room, tracks.closed, ?_⟩
    rw [List.map_append, tracks.next]
    rfl
  · obtain ⟨inside, -⟩ := List.getElem?_eq_some_iff.mp stands
    rw [List.getElem?_append_left inside, stands]
  · exact nofun
  · exact nofun

theorem books_clone (tracks : x.Tracks Keeps l) (opened : x.isOpen = true) :
    x.Books Keeps l .clone l := by
  have taken : x.step .clone = ({ x with held := x.held ++ [true] }, .number x.held.length) :=
    if_pos opened
  refine books_of_stays ?_ rfl (List.append_nil _).symm (fun i p? stands => stands)
    fun i => ⟨nofun, nofun⟩
  rw [taken]
  refine ⟨tracks.keeps, tracks.room, ?_, tracks.next⟩
  rw [tracks.closed, opened]
  simp [isOpen]

/-- With the last dispatcher the channel closes. -/
theorem books_drop (contract : C.Contract most Keeps) (tracks : x.Tracks Keeps l) {d : Nat}
    (held : x.held[d]? = some true) : ∃ l', x.Books Keeps l (.drop d) l' := by
  have taken : x.step (.drop d) = ({ x with
      held := x.held.set d false
      channel := if (x.held.set d false).contains true then x.channel else C.close x.channel },
      .nothing) := if_pos held
  have opened : x.isOpen = true := List.contains_iff_mem.mpr (List.mem_of_getElem? held)
  have closed : l.closed = false := tracks.not_closed opened
  cases left : (x.held.set d false).contains true with
  | true =>
    rw [left] at taken
    refine ⟨l, books_of_stays ?_ rfl (List.append_nil _).symm (fun i p? stands => stands)
      fun i => ⟨nofun, nofun⟩⟩
    rw [taken]
    refine ⟨tracks.keeps, tracks.room, ?_, tracks.next⟩
    rw [closed, isOpen, left]
    rfl
  | false =>
    rw [left] at taken
    refine ⟨{ l with closed := true }, books_of_stays ?_ rfl (List.append_nil _).symm
      (fun i p? stands => stands) fun i => ⟨nofun, nofun⟩⟩
    rw [taken]
    refine ⟨contract.close tracks.keeps closed, tracks.room, ?_, tracks.next⟩
    rw [isOpen, left]
    rfl

theorem books_send (contract : C.Contract most Keeps) (tracks : x.Tracks Keeps l)
    (opened : x.isOpen = true) (a : α) (n : Nat) :
    x.Books Keeps l (.send a n) { l with sent := l.sent ++ List.replicate n a } := by
  have closed : l.closed = false := tracks.not_closed opened
  have taken : x.step (.send a n) = ({ x with channel := sendTimes C x.channel a n }, .nothing) :=
    if_pos opened
  refine books_of_stays ?_ rfl ?_ (fun i p? stands => stands) fun i => ⟨nofun, nofun⟩
  · rw [taken]
    exact ⟨keeps_sendTimes contract a n tracks.keeps closed, tracks.room, tracks.closed,
      tracks.next⟩
  · rw [sends, if_pos opened]

theorem books_unsubscribe (contract : C.Contract most Keeps) (tracks : x.Tracks Keeps l) {j : Nat}
    (listens : x.listening[j]? = some true) :
    x.Books Keeps l (.unsubscribe j) { l with next := l.next.set j none } := by
  obtain ⟨p, stands⟩ := tracks.listening_eq_some_iff.mp listens
  have taken : x.step (.unsubscribe j) = ({ x with
      channel := C.release x.channel j, listening := x.listening.set j false }, .nothing) :=
    if_pos listens
  refine ⟨?_, rfl, (List.append_nil _).symm, fun i p? stands' => ?_⟩
  · rw [taken]
    refine ⟨contract.release tracks.keeps stands, tracks.room, tracks.closed, ?_⟩
    rw [List.map_set, tracks.next]
    rfl
  · by_cases same : j = i
    · subst same
      obtain rfl : some p = p? := Option.some.inj (stands.symm.trans stands')
      obtain ⟨inside, -⟩ := List.getElem?_eq_some_iff.mp stands
      exact ⟨none, List.getElem?_set_self inside, .leaves⟩
    · refine ⟨p?, ?_, .of_ne nofun (fun h => same (Step.unsubscribe.inj h))⟩
      rw [List.getElem?_set_ne same, stands']

theorem books_receive (contract : C.Contract most Keeps) (tracks : x.Tracks Keeps l) {j : Nat}
    (listens : x.listening[j]? = some true) : ∃ q, x.Books Keeps l (.receive j) (l.moved j q) := by
  obtain ⟨p, stands⟩ := tracks.listening_eq_some_iff.mp listens
  obtain ⟨inside, -⟩ := List.getElem?_eq_some_iff.mp stands
  obtain ⟨q, receives, keeps⟩ := contract.receive tracks.keeps tracks.room stands
  have taken : x.step (.receive j) = ({ x with channel := (C.receive x.channel j).2 },
      .received (C.receive x.channel j).1) := if_pos listens
  refine ⟨q, ?_, rfl, (List.append_nil _).symm, fun i p? stands' => ?_⟩
  · rw [taken]
    refine ⟨keeps, tracks.room, tracks.closed, ?_⟩
    obtain ⟨inside', here⟩ := List.getElem?_eq_some_iff.mp listens
    rw [Ledger.moved, List.map_set, tracks.next, Option.isSome_some, ← here,
      List.set_getElem_self inside']
  · by_cases same : j = i
    · subst same
      obtain rfl : some p = p? := Option.some.inj (stands.symm.trans stands')
      rw [taken]
      exact ⟨some q, List.getElem?_set_self inside, .receives receives⟩
    · refine ⟨p?, ?_, .of_ne (fun h => same (Step.receive.inj h)) (by simp)⟩
      rw [Ledger.moved, List.getElem?_set_ne same, stands']

/-- The books can be kept through every step. -/
theorem books (contract : C.Contract most Keeps) (tracks : x.Tracks Keeps l) (s : Step α) :
    ∃ l', x.Books Keeps l s l' := by
  cases s with
  | subscribe =>
    by_cases opened : x.isOpen = true
    · exact ⟨_, books_subscribe contract tracks opened⟩
    · exact ⟨l, books_of_idle tracks (if_neg opened) rfl (by simp)⟩
  | clone =>
    by_cases opened : x.isOpen = true
    · exact ⟨_, books_clone tracks opened⟩
    · exact ⟨l, books_of_idle tracks (if_neg opened) rfl (by simp)⟩
  | drop d =>
    by_cases held : x.held[d]? = some true
    · exact books_drop contract tracks held
    · exact ⟨l, books_of_idle tracks (if_neg held) rfl (by simp)⟩
  | unsubscribe j =>
    by_cases listens : x.listening[j]? = some true
    · exact ⟨_, books_unsubscribe contract tracks listens⟩
    · exact ⟨l, books_of_idle tracks (if_neg listens) rfl (by simpa using listens)⟩
  | send a n =>
    by_cases opened : x.isOpen = true
    · exact ⟨_, books_send contract tracks opened a n⟩
    · exact ⟨l, books_of_idle tracks (if_neg opened) (if_neg opened) (by simp)⟩
  | receive j =>
    by_cases listens : x.listening[j]? = some true
    · obtain ⟨q, books⟩ := books_receive contract tracks listens
      exact ⟨_, books⟩
    · exact ⟨l, books_of_idle tracks (if_neg listens) rfl (by simpa using listens)⟩

def after (x : Exchange C) (steps : List (Step α)) : Exchange C :=
  steps.foldl (fun y s => (y.step s).1) x

theorem after_snoc (x : Exchange C) (steps : List (Step α)) (s : Step α) :
    x.after (steps ++ [s]) = ((x.after steps).step s).1 := by
  rw [after, List.foldl_append]
  rfl

theorem Tracks.after (contract : C.Contract most Keeps) (tracks : x.Tracks Keeps l)
    (steps : List (Step α)) : ∃ l', (x.after steps).Tracks Keeps l' ∧ l'.room = l.room := by
  induction steps generalizing x l with
  | nil => exact ⟨l, tracks, rfl⟩
  | cons s rest ih =>
    obtain ⟨l', books⟩ := books contract tracks s
    obtain ⟨l'', tracks'', room⟩ := ih books.tracks
    exact ⟨l'', tracks'', room.trans books.room⟩

end Exchange

end HeaterLink
