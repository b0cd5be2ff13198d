import HeaterLink.Proofs.Fleet.Mapping

/-!
# Spellings of an address

A configuration is registered under the address as it is spelled there, and looked
up and removed under its upper-case form. So a device that stays registered can be
reached under the address of its configuration exactly if that is in upper case.
-/

set_option autoImplicit false

namespace HeaterLink

def Deed.Ends (config : Config) : Deed → Prop
  | .removed spelling _ => Text.upperCase spelling = config.address
  | .registered other _ => other.address = config.address ∧ config.sameLink other = false
  | _ => False

theorem Config.sameLink_trans {a b c : Config} (h : a.sameLink b = true)
    (h' : b.sameLink c = true) : a.sameLink c = true := by
  simp only [sameLink, decide_eq_true_eq] at h h' ⊢
  rw [← h', ← h]

namespace Fleet

variable {walls : DeviceNumber → Nat → Clock} {x y : Fleet} {m : Move} {d d' : DeviceNumber}
  {config own other : Config} {address : String} {call : CallId}

theorem holder?_append {deed : Deed} (log : y.log = x.log ++ [deed]) :
    y.holder? address = deed.holder address (x.holder? address) := by
  rw [holder?, log, List.foldl_append]
  rfl

theorem Serves.deeds (h : x.Serves walls y m) : y.log = x.log ∨ ∃ deed, y.log = x.log ++ [deed] ∧
    ∀ config d, deed = .registered config d → x.Registers y config d := by
  have registered {config : Config} {d : DeviceNumber} (h : x.Registers y config d) :
      ∃ deed, y.log = x.log ++ [deed] ∧
        ∀ config d, deed = .registered config d → x.Registers y config d := by
    refine ⟨_, h.log, fun config' d' e => ?_⟩
    obtain ⟨rfl, rfl⟩ := Deed.registered.inj e
    exact h
  cases m with
  | device d a => exact .inl h.1
  | place =>
    obtain ⟨w, d, -, -, -, -, -, h⟩ := h
    exact .inr (registered h)
  | ask q =>
    refine .inr ?_
    cases q with
    | register config =>
      rcases h with ⟨d, -, h⟩ | ⟨old, call, h⟩
      · exact registered h
      · exact ⟨_, h.log, fun _ _ e => by cases e⟩
    | get spelling => exact ⟨_, congrArg Fleet.log h, fun _ _ e => by cases e⟩
    | remove spelling =>
      obtain ⟨leaving, log, -⟩ := h
      exact ⟨_, log, fun _ _ e => by cases e⟩
    | list =>
      obtain ⟨addresses, -, rfl⟩ := h
      exact ⟨_, rfl, fun _ _ e => by cases e⟩
    | count =>
      obtain ⟨addresses, -, rfl⟩ := h
      exact ⟨_, rfl, fun _ _ e => by cases e⟩

theorem Steps.config? (h : x.Sound walls) (step : x.Steps walls m y)
    (settings : x.config? d = some own) : y.config? d = some own := by
  have driven {d' : DeviceNumber} {a : Action} {c c' : Course} (hc : x.courses.get? d' = some c)
      (hs : c.take? (walls d') a = some c') : (x.onCourse d' c').config? d = some own := by
    rw [Fleet.config?, onCourse_get?]
    split
    · rename_i same
      rw [Fleet.config?, ← same, hc] at settings
      exact (congrArg some (config_of_take? (h.courses _ c hc).1 hs).1).trans settings
    · exact settings
  have placed (config : Config) : (x.place config).config? d = some own := by
    obtain ⟨c, hc, -⟩ := Option.map_eq_some_iff.mp settings
    rw [Fleet.config?, place_get?, if_neg (Nat.ne_of_gt (h.courses d c hc).2)]
    exact settings
  cases step with
  | drives hc hs => exact driven hc hs
  | keeps _ _ _ hc hs => exact driven hc hs
  | displaces _ _ _ hd => exact driven hd.course hd.step
  | removes _ _ hd => exact driven hd.course hd.step
  | places _ _ => exact placed _
  | replaces _ _ _ => exact placed _
  | _ => exact settings

structure Stays (x : Fleet) (config : Config) (d : DeviceNumber) : Prop where
  since : ∃ before later, x.log = before ++ .registered config d :: later ∧
    ∀ deed ∈ later, ¬deed.Ends config

theorem Registers.stays (h : x.Registers y other d')
    (stays : ¬Deed.Ends config (.registered other d')) (held : x.holder? config.address = some d)
    (suits : x.Suits config d) : y.holder? config.address = some d := by
  rw [holder?_append h.log, Deed.holder]
  split
  · rename_i same
    have alike : config.sameLink other = true := by
      by_contra differs
      exact stays ⟨same, by simpa using differs⟩
    obtain ⟨own, settings, link⟩ := suits
    rw [← same] at held
    have kept := h.kept.mpr ⟨d, held, own, settings, Config.sameLink_trans link alike⟩
    rw [← held, kept]
  · exact held

/-- A device that stays registered holds the address of its configuration. -/
theorem reached_stays : ∀ x, Reached walls x → ∀ config d, x.Stays config d →
    x.holder? config.address = some d ∧ x.Suits config d := by
  refine reached_induction ?_ fun x m y hx ih step => ?_
  · rintro config d ⟨before, later, log, -⟩
    simp [empty] at log
  · have steps := take?_steps step
    have sound := reached_sound x hx
    have suited {config : Config} {d : DeviceNumber} (suits : x.Suits config d) :
        y.Suits config d := by
      obtain ⟨own, settings, link⟩ := suits
      exact ⟨own, steps.config? sound settings, link⟩
    rintro config d ⟨before, later, log, since⟩
    rcases Serves.deeds (steps.serves hx) with same | ⟨deed, added, registers⟩
    · obtain ⟨held, suits⟩ := ih config d ⟨before, later, same ▸ log, since⟩
      refine ⟨?_, suited suits⟩
      rw [holder?, same]
      exact held
    · -- The new deed is the registration itself, or comes behind it and does not end it.
      rw [added] at log
      rcases List.eq_nil_or_concat' later with rfl | ⟨later, last, rfl⟩
      · obtain ⟨-, e⟩ := List.append_inj' log rfl
        have h := registers config d (List.singleton_inj.mp e)
        exact ⟨h.holder, h.suits⟩
      · have split : x.log ++ [deed] = (before ++ .registered config d :: later) ++ [last] := by
          simpa using log
        obtain ⟨first, e⟩ := List.append_inj' split rfl
        obtain rfl := List.singleton_inj.mp e
        obtain ⟨held, suits⟩ := ih config d
          ⟨before, later, first, fun deed mem => since deed (List.mem_append_left _ mem)⟩
        have stays : ¬deed.Ends config := since deed (by simp)
        refine ⟨?_, suited suits⟩
        cases deed with
        | registered other d' => exact (registers other d' rfl).stays stays held suits
        | removed spelling leaving =>
          rw [holder?_append added]
          exact (if_neg stays).trans held
        | _ =>
          rw [holder?_append added]
          exact held

theorem address_unique (hx : Reached walls x) {a b : String} (ha : x.holder? a = some d)
    (hb : x.holder? b = some d) : a = b := by
  have sound := reached_sound x hx
  rw [reached_holder x hx] at ha hb
  obtain ⟨e, he, rfl⟩ := Option.map_eq_some_iff.mp ha
  obtain ⟨e', he', same⟩ := Option.map_eq_some_iff.mp hb
  have own := sound.config? he
  have own' := sound.config? he'
  rw [same, own] at own'
  rw [← (sound.entries a e he).1, ← (sound.entries b e' he').1, Option.some.inj own']

theorem holder?_upper_iff (hx : Reached walls x) (held : x.holder? address = some d) :
    x.holder? (Text.upperCase address) = some d ↔ Text.upperCase address = address :=
  ⟨fun found => address_unique hx found held, fun upper => by rw [upper, held]⟩

theorem removal_of_removed (hx : Reached walls x)
    (removed : .removed address (some (d, call)) ∈ x.log) {answer : Except Fault Bool}
    (answered : x.removal? (some (d, call)) = some answer) :
    answer = .ok true ∧ x.Disconnected d call := by
  have sound := reached_sound x hx
  obtain ⟨o, ho, rfl⟩ := Option.map_eq_some_iff.mp answered
  obtain ⟨c, hc, ho⟩ := Option.bind_eq_some_iff.mp ho
  obtain ⟨rfl, disconnected⟩ := (sound.leaving _ d call removed).disconnected sound hc ho
  exact ⟨rfl, disconnected⟩

/-- A device that stays registered is found and removed under the address of its configuration
exactly if that is in upper case. Two addresses with the same upper-case form are never held at
once if only addresses in upper case are registered. -/
theorem reached_spelling (hx : Reached walls x) :
    (x.waiting = none → ∀ q, (x.take? walls (.ask q)).isSome) ∧
      (∀ config d, x.Stays config d →
        (∀ y, x.take? walls (.ask (.get config.address)) = some y →
          (y.log = x.log ++ [.found config.address (some d)] ↔
            Text.upperCase config.address = config.address)) ∧
        ∀ y, x.take? walls (.ask (.remove config.address)) = some y →
          ((∃ call, y.log = x.log ++ [.removed config.address (some (d, call))]) ↔
            Text.upperCase config.address = config.address)) ∧
      (∀ address d call answer, .removed address (some (d, call)) ∈ x.log →
        x.removal? (some (d, call)) = some answer →
        answer = .ok true ∧ x.Disconnected d call) ∧
      ((∀ config d, .registered config d ∈ x.log →
          Text.upperCase config.address = config.address) →
        ∀ a b, (x.holder? a).isSome → (x.holder? b).isSome →
          Text.upperCase a = Text.upperCase b → a = b) := by
  refine ⟨fun free => ask_isSome (reached_sound x hx) free, fun config d stays => ?_,
    fun address d call answer removed answered => removal_of_removed hx removed answered,
    fun upper a b ha hb same => ?_⟩
  · obtain ⟨held, -⟩ := reached_stays x hx config d stays
    constructor
    · intro y step
      have serves : y =
          x.note (.found config.address (x.holder? (Text.upperCase config.address))) :=
        (take?_steps step).serves hx
      rw [serves, ← holder?_upper_iff hx held]
      simp [note]
    · intro y step
      obtain ⟨leaving, log, removes⟩ := (take?_steps step).serves hx
      rw [log, ← holder?_upper_iff hx held, ← removes.holder]
      cases leaving with
      | none => simp
      | some leaving =>
        obtain ⟨d', call⟩ := leaving
        simp
  · rw [← upper_of_holder upper ha, ← upper_of_holder upper hb, same]

open Course in
theorem spelling_of_registered :
    ∃ x y z, Reached (fun _ => noon) x ∧ x.Stays oneAttempt 0 ∧
      x.take? (fun _ => noon) (.ask (.get "C0FFEE")) = some y ∧
      y.log = x.log ++ [.found "C0FFEE" (some 0)] ∧ Reached (fun _ => noon) z ∧
      .removed "C0FFEE" (some (0, 0)) ∈ z.log ∧ z.removal? (some (0, 0)) = some (.ok true) ∧
      z.Disconnected 0 0 := by
  have h : (empty.run? (fun _ => noon) (changing.take 2)).any (fun x =>
      decide (x.log = [.registered oneAttempt 0, .registered louder 0]) &&
      (x.take? (fun _ => noon) (.ask (.get "C0FFEE"))).isSome) = true := by
    decide +kernel
  have h' : (empty.run? (fun _ => noon) (changing.take 2 ++
      .ask (.remove "C0FFEE") :: List.replicate 3 (.device 0 (.poll 0)))).any (fun z =>
      decide (.removed "C0FFEE" (some (0, 0)) ∈ z.log) &&
      (z.removal? (some (0, 0))).isSome) = true := by
    decide +kernel
  have upper : Text.upperCase "C0FFEE" = "C0FFEE" := by decide +kernel
  obtain ⟨x, hx, h⟩ := (Option.any_eq_true _ _).mp h
  rw [Bool.and_eq_true, decide_eq_true_eq] at h
  obtain ⟨log, h⟩ := h
  obtain ⟨y, hy⟩ := Option.isSome_iff_exists.mp h
  obtain ⟨z, hz, h'⟩ := (Option.any_eq_true _ _).mp h'
  rw [Bool.and_eq_true, decide_eq_true_eq] at h'
  obtain ⟨removed, h'⟩ := h'
  obtain ⟨answer, answered⟩ := Option.isSome_iff_exists.mp h'
  have stays : x.Stays oneAttempt 0 := by
    refine ⟨[], [.registered louder 0], log, fun deed mem => ?_⟩
    obtain rfl := List.mem_singleton.mp mem
    exact fun ends => absurd ends.2 (by decide)
  obtain ⟨-, found, -⟩ := reached_spelling ⟨_, hx⟩
  obtain ⟨-, -, gone, -⟩ := reached_spelling ⟨_, hz⟩
  obtain ⟨rfl, disconnected⟩ := gone _ _ _ answer removed answered
  exact ⟨x, y, z, ⟨_, hx⟩, stays, hy, ((found _ _ stays).1 y hy).mpr upper, ⟨_, hz⟩, removed,
    answered, disconnected⟩

open Course in
def spelledLow : Config := { oneAttempt with address := "aa" }

open Course in
/-- What is registered in lower case is neither found nor removed, and another device can be
registered under the same address in upper case. -/
theorem unreachable_in_lower_case :
    ∃ x, Reached (fun _ => noon) x ∧ spelledLow.address = "aa" ∧
      x.log = [.registered spelledLow 0, .found "aa" none, .removed "aa" none,
        .registered { spelledLow with address := "AA" } 1, .found "aa" (some 1),
        .listed ["aa", "AA"]] ∧
      Text.upperCase "aa" = Text.upperCase "AA" := by
  have h : (empty.run? (fun _ => noon) [.ask (.register spelledLow), .ask (.get "aa"),
      .ask (.remove "aa"), .ask (.register { spelledLow with address := "AA" }),
      .ask (.get "aa"), .ask .list]).any (fun x =>
      decide (x.log = [.registered spelledLow 0, .found "aa" none, .removed "aa" none,
        .registered { spelledLow with address := "AA" } 1, .found "aa" (some 1),
        .listed ["aa", "AA"]])) = true := by
    decide +kernel
  obtain ⟨x, hx, log⟩ := (Option.any_eq_true _ _).mp h
  exact ⟨x, ⟨_, hx⟩, rfl, of_decide_eq_true log, by decide +kernel⟩

end Fleet

end HeaterLink
