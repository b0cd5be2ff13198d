import HeaterLink.Proofs.Fleet.Soundness

/-!
# A map from addresses to devices

What a registry has answered so far says which device holds each address: the one
that was returned last when the address was registered, if nobody has removed it
since. A registry does what a map from addresses to their holders does. It gives a
device back for another registration exactly if the configurations differ in the
rated power alone, and makes a new device when the old one is disconnected.
-/

set_option autoImplicit false

namespace HeaterLink

def Deed.holder (address : String) (now : Option DeviceNumber) : Deed → Option DeviceNumber
  | .registered config d => if config.address = address then some d else now
  | .removed spelling _ => if Text.upperCase spelling = address then none else now
  | _ => now

namespace Fleet

def holder? (x : Fleet) (address : String) : Option DeviceNumber :=
  x.log.foldl (Deed.holder address) none

def config? (x : Fleet) (d : DeviceNumber) : Option Config :=
  (x.courses.get? d).map (·.session.config)

def power? (x : Fleet) (d : DeviceNumber) : Option UInt32 :=
  (x.courses.get? d).map (·.session.ratedPower)

def Suits (x : Fleet) (config : Config) (d : DeviceNumber) : Prop :=
  ∃ own, x.config? d = some own ∧ own.sameLink config = true

structure Disconnected (x : Fleet) (d : DeviceNumber) (call : CallId) : Prop where
  called : ∃ c j n, x.courses.get? d = some c ∧ c.Invoked j call .disconnect ∧
    c.Did n (.returned call .done) ∧ (c.sessionAt (n + 1)).AtRest

structure Spares (x y : Fleet) (address : String) : Prop where
  entries : ∀ other, other ≠ address → y.registry.get? other = x.registry.get? other
  holders : ∀ other, other ≠ address → y.holder? other = x.holder? other

def Apart (x y : Fleet) (d : DeviceNumber) : Prop :=
  ∀ other, other ≠ d → y.courses.get? other = x.courses.get? other

structure Registers (x y : Fleet) (config : Config) (d : DeviceNumber) : Prop where
  log : y.log = x.log ++ [.registered config d]
  kept : x.holder? config.address = some d ↔
    ∃ old, x.holder? config.address = some old ∧ x.Suits config old
  fresh : x.holder? config.address ≠ some d → x.courses.get? d = none
  holder : y.holder? config.address = some d
  suits : y.Suits config d
  power : y.power? d = some config.ratedPower
  spares : x.Spares y config.address
  apart : x.Apart y d

structure Yields (walls : DeviceNumber → Nat → Clock) (x y : Fleet) (config : Config)
    (old : DeviceNumber) (call : CallId) : Prop where
  log : y.log = x.log ++ [.displacing config old call]
  waiting : y.waiting = some ⟨config, old, call⟩
  holder : x.holder? config.address = some old
  unsuited : ¬x.Suits config old
  asked : ∃ c, x.courses.get? old = some c ∧
    y.courses.get? old = c.take? (walls old) (.invoke call .disconnect)
  registry : y.registry = x.registry
  apart : x.Apart y old

structure Removes (walls : DeviceNumber → Nat → Clock) (x y : Fleet) (address : String)
    (leaving : Option (DeviceNumber × CallId)) : Prop where
  holder : leaving.map Prod.fst = x.holder? address
  gone : y.holder? address = none
  unregistered : y.registry.get? address = none
  spares : x.Spares y address
  asked : ∀ d call, leaving = some (d, call) → x.Apart y d ∧ ∃ c, x.courses.get? d = some c ∧
    y.courses.get? d = c.take? (walls d) (.invoke call .disconnect)
  still : leaving = none → y.courses = x.courses

structure Lists (x : Fleet) (addresses : List String) : Prop where
  nodup : addresses.Nodup
  mem_iff : ∀ address, address ∈ addresses ↔ (x.holder? address).isSome

def Serves (walls : DeviceNumber → Nat → Clock) (x y : Fleet) : Move → Prop
  | .device d _ => y.log = x.log ∧ y.registry = x.registry ∧ x.Apart y d
  | .ask (.register config) =>
    (∃ d, (x.holder? config.address = none ∨ x.holder? config.address = some d) ∧
      x.Registers y config d) ∨ ∃ old call, x.Yields walls y config old call
  | .place => ∃ w d, x.waiting = some w ∧
    x.log.getLast? = some (.displacing w.config w.old w.call) ∧
    x.holder? w.config.address = some w.old ∧ x.Disconnected w.old w.call ∧ d ≠ w.old ∧
    x.Registers y w.config d
  | .ask (.get spelling) => y = x.note (.found spelling (x.holder? (Text.upperCase spelling)))
  | .ask (.remove spelling) => ∃ leaving, y.log = x.log ++ [.removed spelling leaving] ∧
    x.Removes walls y (Text.upperCase spelling) leaving
  | .ask .list => ∃ addresses, x.Lists addresses ∧ y = x.note (.listed addresses)
  | .ask .count => ∃ addresses, x.Lists addresses ∧ y = x.note (.counted addresses.length)

variable {walls : DeviceNumber → Nat → Clock} {x y : Fleet} {m : Move} {c c' : Course}
  {d : DeviceNumber} {config : Config} {address : String} {call : CallId} {deed : Deed}
  {e : Registered DeviceNumber}

theorem holder?_note (x : Fleet) (deed : Deed) (address : String) :
    (x.note deed).holder? address = deed.holder address (x.holder? address) := by
  simp [holder?, note, List.foldl_append]

theorem holder?_registered (x : Fleet) (config : Config) (d : DeviceNumber) (address : String) :
    (x.note (.registered config d)).holder? address =
      if config.address = address then some d else x.holder? address :=
  holder?_note _ _ _

theorem holder?_removed (x : Fleet) (spelling : String) (leaving : Option (DeviceNumber × CallId))
    (address : String) : (x.note (.removed spelling leaving)).holder? address =
      if Text.upperCase spelling = address then none else x.holder? address :=
  holder?_note _ _ _

theorem holder?_place (x : Fleet) (config : Config) (address : String) :
    (x.place config).holder? address =
      if config.address = address then some x.next else x.holder? address :=
  holder?_registered _ _ _ _

/-- Who holds an address is what is registered under it. -/
theorem Steps.holder (h : x.Sound walls) (step : x.Steps walls m y)
    (holder : ∀ address, x.holder? address = (x.registry.get? address).map (·.device)) :
    ∀ address, y.holder? address = (y.registry.get? address).map (·.device) := by
  intro address
  have placed {config : Config} (vacant : x.Vacant config) :
      (x.place config).holder? address =
        ((x.place config).registry.get? address).map (·.device) := by
    rw [holder?_place, place_registry vacant, Table.get?_insert]
    split
    · rfl
    · exact holder address
  cases step with
  | drives _ _ => exact holder address
  | @keeps config e _ _ _ he _ _ _ =>
    rw [holder?_registered]
    split
    · rename_i same
      have kept : x.registry.get? address = some e := same ▸ he
      exact (congrArg (Option.map _) kept).symm
    · exact holder address
  | places _ he => exact placed (vacant_of_none he)
  | replaces hw _ _ => exact placed (h.waiting _ hw).vacant
  | @misses spelling _ he =>
    rw [holder?_removed]
    split
    · rename_i same
      have gone : x.registry.get? address = none := same ▸ he
      exact (congrArg (Option.map _) gone).symm
    · exact holder address
  | @removes spelling _ _ _ _ _ _ =>
    rw [holder?_removed]
    show _ = ((x.registry.erase (Text.upperCase spelling)).get? address).map (·.device)
    rw [Table.get?_erase]
    split
    · rfl
    · exact holder address
  | displaces _ _ _ _ | finds _ | lists _ | counts _ =>
    rw [holder?_note]
    exact holder address

theorem reached_holder : ∀ x, Reached walls x → ∀ address,
    x.holder? address = (x.registry.get? address).map (·.device) :=
  reached_induction (fun _ => rfl) fun x _ _ hx holder step =>
    (take?_steps step).holder (reached_sound x hx) holder

theorem Sound.config? (h : x.Sound walls) (he : x.registry.get? address = some e) :
    x.config? e.device = some e.config := by
  obtain ⟨-, c, hc, settings⟩ := h.entries address e he
  rw [Fleet.config?, hc, Option.map_some, settings]

theorem Sound.suits_iff (h : x.Sound walls) (he : x.registry.get? address = some e) :
    x.Suits config e.device ↔ e.config.sameLink config = true := by
  simp [Suits, h.config? he]

section Registering

variable (h : x.Sound walls) (holder : ∀ a, x.holder? a = (x.registry.get? a).map (·.device))
include h holder

theorem held_lt (held : x.holder? address = some d) : d < x.next := by
  rw [holder] at held
  obtain ⟨e, he, rfl⟩ := Option.map_eq_some_iff.mp held
  obtain ⟨-, c, hc, -⟩ := h.entries address e he
  exact (h.courses _ c hc).2

theorem unsuited_of_vacant (vacant : x.Vacant config) :
    ¬∃ old, x.holder? config.address = some old ∧ x.Suits config old := by
  rintro ⟨old, held, suits⟩
  rw [holder] at held
  obtain ⟨e, he, rfl⟩ := Option.map_eq_some_iff.mp held
  rw [h.suits_iff he, vacant e he] at suits
  cases suits

theorem registers_place (vacant : x.Vacant config) :
    x.Registers (x.place config) config x.next where
  log := rfl
  kept := by
    refine ⟨fun held => ?_, fun suited => absurd suited (unsuited_of_vacant h holder vacant)⟩
    exact absurd (held_lt h holder held) (Nat.lt_irrefl _)
  fresh := fun _ => Option.eq_none_iff_forall_ne_some.mpr fun c hc =>
    Nat.lt_irrefl _ (h.courses _ c hc).2
  holder := by rw [holder?_place, if_pos rfl]
  suits := by
    refine ⟨config, ?_, by simp [Config.sameLink]⟩
    rw [Fleet.config?, place_get?, if_pos rfl]
    rfl
  power := by
    rw [power?, place_get?, if_pos rfl]
    rfl
  spares := by
    constructor
    · intro other ne
      rw [place_registry vacant, Table.get?_insert, if_neg (Ne.symm ne)]
    · intro other ne
      rw [holder?_place, if_neg (Ne.symm ne)]
  apart := fun other ne => by rw [place_get?, if_neg (Ne.symm ne)]

/-- A device that is kept takes the new rated power, and nothing else changes. -/
theorem registers_kept (he : x.registry.get? config.address = some e)
    (same : e.config.sameLink config = true) (hc : x.courses.get? e.device = some c)
    (step : c.take? (walls e.device) (.setRatedPower config.ratedPower) = some c') :
    x.Registers ((x.onCourse e.device c').note (.registered config e.device)) config e.device := by
  have held : x.holder? config.address = some e.device := by rw [holder, he, Option.map_some]
  have own := h.config? he
  have course : ((x.onCourse e.device c').note (.registered config e.device)).courses.get?
      e.device = some c' := by
    show (x.onCourse e.device c').courses.get? e.device = some c'
    rw [onCourse_get?, if_pos rfl]
  constructor
  case log => rfl
  case kept => exact ⟨fun _ => ⟨_, held, (h.suits_iff he).mpr same⟩, fun _ => held⟩
  case fresh => exact fun other => absurd held other
  case holder => rw [holder?_registered, if_pos rfl]
  case suits =>
    refine ⟨e.config, ?_, same⟩
    rw [Fleet.config?, hc, Option.map_some] at own
    rw [Fleet.config?, course, Option.map_some, (config_of_take? (h.courses _ c hc).1 step).1]
    exact own
  case power =>
    obtain ⟨s, effects, hs, rfl⟩ := Course.take?_eq_some step
    obtain ⟨rfl, -⟩ := Prod.mk.inj (Option.some.inj hs)
    rw [power?, course]
    rfl
  case spares =>
    refine ⟨fun _ _ => rfl, fun other ne => ?_⟩
    exact (holder?_registered _ _ _ _).trans (if_neg (Ne.symm ne))
  case apart => exact fun other ne => (onCourse_get? _ _ _ _).trans (if_neg (Ne.symm ne))

end Registering

end Fleet

end HeaterLink
