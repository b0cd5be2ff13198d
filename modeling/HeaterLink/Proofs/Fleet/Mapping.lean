import HeaterLink.Proofs.Fleet.Holders
import Mathlib.Data.List.Induction

/-!
# Registries are maps

Every move of a fleet does what a map from addresses to their holders does, whatever
happens to the devices in between. Nobody has to wait for the registry but for a
device that is disconnected to give way.
-/

set_option autoImplicit false

namespace HeaterLink.Fleet

variable {walls : DeviceNumber → Nat → Clock} {x y : Fleet} {m : Move} {c c' : Course}
  {d : DeviceNumber} {config : Config} {address : String} {call : CallId}
  {e : Registered DeviceNumber} {w : Displacement}

theorem apart_onCourse (x : Fleet) (d : DeviceNumber) (c : Course) : x.Apart (x.onCourse d c) d :=
  fun _ ne => (onCourse_get? _ _ _ _).trans (if_neg (Ne.symm ne))

theorem Disconnects.asks (h : x.Disconnects walls d c c') : ∃ c₁, x.courses.get? d = some c₁ ∧
    (x.onCourse d c').courses.get? d = c₁.take? (walls d) (.invoke c.nextCall .disconnect) :=
  ⟨c, h.course, by rw [onCourse_get?, if_pos rfl, h.step]⟩

theorem reached_lists (hx : Reached walls x) : x.Lists x.registry.addresses where
  nodup := (reached_sound x hx).keys
  mem_iff := by
    intro address
    rw [Registry.addresses, Table.mem_keys, reached_holder x hx, Option.isSome_map]

theorem Asked.disconnected (h : x.Sound walls) (asked : x.Asked d call) {o : Outcome}
    (hc : x.courses.get? d = some c) (ho : c.outcome? call = some o) :
    o = .done ∧ x.Disconnected d call := by
  obtain ⟨c₁, j, hc₁, hj⟩ := asked
  obtain rfl := Option.some.inj (hc.symm.trans hc₁)
  obtain ⟨n, hn⟩ := Course.outcome?_did ho
  obtain ⟨reached, -⟩ := h.courses d c hc
  obtain rfl := Course.done_of_returned reached hj hn
  exact ⟨rfl, ⟨c, j, n, hc, hj, hn, Course.atRest_of_returned reached hj hn⟩⟩

theorem Steps.serves (hx : Reached walls x) (step : x.Steps walls m y) : x.Serves walls y m := by
  have sound := reached_sound x hx
  have holder := reached_holder x hx
  cases step with
  | @drives d _ _ c' hc _ => exact ⟨rfl, rfl, x.apart_onCourse d c'⟩
  | keeps _ he same hc step =>
    have registers := registers_kept sound holder he same hc step
    exact .inl ⟨_, .inr (by rw [holder, he]; rfl), registers⟩
  | places _ he =>
    have registers := registers_place sound holder (vacant_of_none he)
    exact .inl ⟨_, .inl (by rw [holder, he]; rfl), registers⟩
  | @displaces config e c c' _ he changed hd =>
    refine .inr ⟨e.device, c.nextCall, ?_⟩
    constructor
    case log => rfl
    case waiting => rfl
    case holder => rw [holder, he]; rfl
    case unsuited =>
      rw [sound.suits_iff he, changed]
      simp
    case asked => exact hd.asks
    case registry => rfl
    case apart => exact x.apart_onCourse e.device c'
  | @replaces w c o hw hc ho =>
    have displaces := sound.waiting w hw
    obtain ⟨e, he, old, -⟩ := displaces.stored
    have held : x.holder? w.config.address = some w.old := by rw [holder, he, Option.map_some, old]
    obtain ⟨-, disconnected⟩ := displaces.asked.disconnected sound hc ho
    refine ⟨w, x.next, hw, displaces.latest, held, disconnected, ?_,
      registers_place sound holder displaces.vacant⟩
    exact Nat.ne_of_gt (held_lt sound holder held)
  | finds _ =>
    show x.note _ = x.note _
    rw [holder]
    rfl
  | @misses spelling _ he =>
    have held : x.holder? (Text.upperCase spelling) = none := by
      rw [holder, show x.registry.get? (Text.upperCase spelling) = none from he]
      rfl
    refine ⟨none, rfl, ?_⟩
    constructor
    case holder => exact held.symm
    case gone => rw [holder?_removed, if_pos rfl]
    case unregistered => exact he
    case spares =>
      refine ⟨fun _ _ => rfl, fun other ne => ?_⟩
      exact (holder?_removed _ _ _ _).trans (if_neg (Ne.symm ne))
    case asked => exact fun d call h => by cases h
    case still => exact fun _ => rfl
  | @removes spelling e c c' _ he hd =>
    have held : x.holder? (Text.upperCase spelling) = some e.device := by
      rw [holder, show x.registry.get? (Text.upperCase spelling) = some e from he]
      rfl
    refine ⟨some (e.device, c.nextCall), rfl, ?_⟩
    constructor
    case holder => exact held.symm
    case gone => rw [holder?_removed, if_pos rfl]
    case unregistered => exact (Table.get?_erase _ _ _).trans (if_pos rfl)
    case spares =>
      constructor
      · exact fun other ne => (Table.get?_erase _ _ _).trans (if_neg (Ne.symm ne))
      · exact fun other ne => (holder?_removed _ _ _ _).trans (if_neg (Ne.symm ne))
    case asked =>
      intro d call h
      obtain ⟨rfl, rfl⟩ := Prod.mk.inj (Option.some.inj h)
      exact ⟨x.apart_onCourse e.device c', hd.asks⟩
    case still => exact fun h => by cases h
  | lists _ => exact ⟨_, reached_lists hx, rfl⟩
  | counts _ => exact ⟨_, reached_lists hx, by simp [Registry.addresses, Table.keys]⟩

/-- A registry that nobody keeps to himself answers whatever it is asked. -/
theorem ask_isSome (sound : x.Sound walls) (free : x.waiting = none) (q : Query) :
    (x.take? walls (.ask q)).isSome := by
  have asked : x.take? walls (.ask q) = x.ask? walls q := by simp [take?, free]
  rw [asked]
  cases q with
  | get address => rfl
  | list => rfl
  | count => rfl
  | register config =>
    simp only [ask?, register?, Registry.register]
    cases he : x.registry.get? config.address with
    | none => rfl
    | some e =>
      obtain ⟨-, c, hc, -⟩ := sound.entries _ e he
      cases same : e.config.sameLink config with
      | true => simp [same, drive?, hc, Course.take?, Course.react?]
      | false =>
        obtain ⟨c', -, hd⟩ := disconnects_of_course walls hc
        simp [same, hd]
  | remove address =>
    simp only [ask?, remove?, Registry.remove]
    cases he : x.registry.find? address with
    | none => rfl
    | some e =>
      obtain ⟨-, c, hc, -⟩ := sound.entries _ e he
      obtain ⟨c', -, hd⟩ := disconnects_of_course walls hc
      simp [hd]

theorem place_isSome_iff (hx : Reached walls x) (hw : x.waiting = some w) :
    (x.take? walls .place).isSome ↔ x.Disconnected w.old w.call := by
  constructor
  · intro possible
    obtain ⟨y, step⟩ := Option.isSome_iff_exists.mp possible
    obtain ⟨w', -, hw', -, -, disconnected, -⟩ := (take?_steps step).serves hx
    obtain rfl := Option.some.inj (hw.symm.trans hw')
    exact disconnected
  · rintro ⟨c, j, n, hc, -, hn, -⟩
    obtain ⟨o, ho⟩ := Option.isSome_iff_exists.mp (Course.outcome?_isSome hn)
    simp [take?, hw, hc, ho]

theorem registered_of_holder (log : List Deed)
    (h : log.foldl (Deed.holder address) none = some d) :
    ∃ config, .registered config d ∈ log ∧ config.address = address := by
  -- The last deed about the address decides, so the induction begins at the end of the log.
  induction log using List.reverseRecOn with
  | nil => cases h
  | append_singleton log deed ih =>
    have earlier (h : log.foldl (Deed.holder address) none = some d) :
        ∃ config, .registered config d ∈ log ++ [deed] ∧ config.address = address := by
      obtain ⟨config, mem, same⟩ := ih h
      exact ⟨config, List.mem_append_left _ mem, same⟩
    rw [List.foldl_append] at h
    cases deed with
    | registered config d' =>
      rw [List.foldl_cons, List.foldl_nil, Deed.holder] at h
      split at h
      · rename_i same
        obtain rfl := Option.some.inj h
        exact ⟨config, by simp, same⟩
      · exact earlier h
    | removed spelling leaving =>
      rw [List.foldl_cons, List.foldl_nil, Deed.holder] at h
      split at h
      · cases h
      · exact earlier h
    | _ => exact earlier h

theorem upper_of_holder (upper : ∀ config d, .registered config d ∈ x.log →
    Text.upperCase config.address = config.address) (held : (x.holder? address).isSome) :
    Text.upperCase address = address := by
  obtain ⟨d, held⟩ := Option.isSome_iff_exists.mp held
  obtain ⟨config, mem, rfl⟩ := registered_of_holder x.log held
  exact upper config d mem

/-- A registry is a map from addresses to their holders, and from upper-case addresses if only such
are registered. -/
theorem reached_mapping (hx : Reached walls x) :
    (∀ m y, x.take? walls m = some y → x.Serves walls y m) ∧
      (x.waiting = none → ∀ q, (x.take? walls (.ask q)).isSome) ∧
      (∀ w, x.waiting = some w →
        ((x.take? walls .place).isSome ↔ x.Disconnected w.old w.call)) ∧
      ((∀ config d, .registered config d ∈ x.log →
          Text.upperCase config.address = config.address) →
        ∀ address, (x.holder? address).isSome → Text.upperCase address = address) := by
  have sound := reached_sound x hx
  exact ⟨fun m y step => (take?_steps step).serves hx, fun free => ask_isSome sound free,
    fun w => place_isSome_iff hx, fun upper address => upper_of_holder upper⟩

open Course in
def louder : Config := { oneAttempt with ratedPower := 800 }

open Course in
def patient : Config := { oneAttempt with responseLimit := 3000 }

open Course in
def changing : List Move :=
  [.ask (.register oneAttempt), .ask (.register louder), .ask (.register patient),
    .device 0 (.poll 0), .device 0 (.poll 0), .device 0 (.poll 0)]

open Course in
/-- A device is registered again with another power, and then with another limit. -/
theorem mapping_while_changing :
    ∃ x y z, Reached (fun _ => noon) x ∧
      x.log = [.registered oneAttempt 0, .registered louder 0, .displacing patient 0 0] ∧
      x.Disconnected 0 0 ∧ x.take? (fun _ => noon) .place = some y ∧
      x.Serves (fun _ => noon) y .place ∧ y.holder? "C0FFEE" = some 1 ∧
      y.take? (fun _ => noon) (.ask (.get "c0ffEe")) = some z ∧
      y.Serves (fun _ => noon) z (.ask (.get "c0ffEe")) ∧
      z.log.getLast? = some (.found "c0ffEe" (some 1)) ∧
      ∀ address, (y.holder? address).isSome → Text.upperCase address = address := by
  have h : (empty.run? (fun _ => noon) changing).any (fun x =>
      decide (x.waiting = some ⟨patient, 0, 0⟩ ∧
        x.log = [.registered oneAttempt 0, .registered louder 0, .displacing patient 0 0]) &&
      (x.take? (fun _ => noon) .place).any fun y => decide (y.holder? "C0FFEE" = some 1 ∧
        y.log = [.registered oneAttempt 0, .registered louder 0, .displacing patient 0 0,
          .registered patient 1]) &&
      (y.take? (fun _ => noon) (.ask (.get "c0ffEe"))).any fun z =>
        decide (z.log.getLast? = some (.found "c0ffEe" (some 1)))) = true := by
    decide +kernel
  obtain ⟨x, hx, h⟩ := (Option.any_eq_true _ _).mp h
  rw [Bool.and_eq_true, decide_eq_true_eq] at h
  obtain ⟨⟨waiting, log⟩, h⟩ := h
  obtain ⟨y, hy, h⟩ := (Option.any_eq_true _ _).mp h
  rw [Bool.and_eq_true, decide_eq_true_eq] at h
  obtain ⟨⟨held, log'⟩, h⟩ := h
  obtain ⟨z, hz, h⟩ := (Option.any_eq_true _ _).mp h
  have reached : Reached (fun _ => noon) x := ⟨changing, hx⟩
  obtain ⟨serves, -, place, -⟩ := reached_mapping reached
  obtain ⟨serves', -, -, upper⟩ := reached_mapping (reached_take? reached hy)
  have disconnected := (place _ waiting).mp (Option.isSome_iff_exists.mpr ⟨y, hy⟩)
  refine ⟨x, y, z, reached, log, disconnected, hy, serves _ y hy, held, hz, serves' _ z hz,
    of_decide_eq_true h, upper fun config d mem => ?_⟩
  rw [log'] at mem
  have known : config = oneAttempt ∨ config = louder ∨ config = patient := by
    simp only [List.mem_cons, Deed.registered.injEq, List.not_mem_nil, or_false, reduceCtorEq,
      false_or] at mem
    rcases mem with ⟨rfl, -⟩ | ⟨rfl, -⟩ | ⟨rfl, -⟩ <;> simp
  rcases known with rfl | rfl | rfl <;> decide +kernel

end HeaterLink.Fleet
