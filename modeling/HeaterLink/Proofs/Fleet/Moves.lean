import HeaterLink.Fleet
import HeaterLink.Proofs.Link.Rest

/-!
# Moves of a fleet

What a move can do is said once, with what allows it. From that it follows what
every fleet has: a device under each address was made for that address, devices
keep the configurations they were made for, and a call that disconnects in the
name of the registry was made as such.
-/

set_option autoImplicit false

namespace HeaterLink

namespace Course

variable {x y : Course} {c : CallId} {o : Outcome}

theorem outcome?_did (h : x.outcome? c = some o) : ∃ n, x.Did n (.returned c o) := by
  obtain ⟨e, he, ho⟩ := List.exists_of_findSome?_eq_some h
  obtain ⟨entry, hentry, he⟩ := List.mem_flatMap.mp he
  obtain ⟨n, hn⟩ := List.mem_iff_getElem?.mp hentry
  cases e with
  | returned c' o' =>
    by_cases same : c' = c
    · obtain rfl : o' = o := by simpa [Effect.outcomeOf?, same] using ho
      exact ⟨n, entry, hn, same ▸ he⟩
    · simp [Effect.outcomeOf?, same] at ho
  | _ => cases ho

theorem outcome?_isSome {n : Nat} (h : x.Did n (.returned c o)) : (x.outcome? c).isSome := by
  obtain ⟨entry, hn, he⟩ := h
  refine List.findSome?_isSome_iff.mpr ⟨.returned c o, ?_, by simp [Effect.outcomeOf?]⟩
  exact List.mem_flatMap.mpr ⟨entry, List.mem_of_getElem? hn, he⟩

end Course

namespace Fleet

variable {walls : DeviceNumber → Nat → Clock} {x y : Fleet} {m : Move} {c c' : Course}
  {d : DeviceNumber} {config : Config} {a : Action}

structure Disconnects (walls : DeviceNumber → Nat → Clock) (x : Fleet) (d : DeviceNumber)
    (c c' : Course) : Prop where
  course : x.courses.get? d = some c
  step : c.take? (walls d) (.invoke c.nextCall .disconnect) = some c'

inductive Steps (walls : DeviceNumber → Nat → Clock) (x : Fleet) : Move → Fleet → Prop
  | drives {d : DeviceNumber} {a : Action} {c c' : Course} : x.courses.get? d = some c →
      c.take? (walls d) a = some c' → Steps walls x (.device d a) (x.onCourse d c')
  | keeps {config : Config} {e : Registered DeviceNumber} {c c' : Course} : x.waiting = none →
      x.registry.get? config.address = some e → e.config.sameLink config = true →
      x.courses.get? e.device = some c →
      c.take? (walls e.device) (.setRatedPower config.ratedPower) = some c' →
      Steps walls x (.ask (.register config))
        ((x.onCourse e.device c').note (.registered config e.device))
  | places {config : Config} : x.waiting = none → x.registry.get? config.address = none →
      Steps walls x (.ask (.register config)) (x.place config)
  | displaces {config : Config} {e : Registered DeviceNumber} {c c' : Course} : x.waiting = none →
      x.registry.get? config.address = some e → e.config.sameLink config = false →
      x.Disconnects walls e.device c c' →
      Steps walls x (.ask (.register config))
        ({ x.onCourse e.device c' with
          waiting := some ⟨config, e.device, c.nextCall⟩ }.note
            (.displacing config e.device c.nextCall))
  | replaces {w : Displacement} {c : Course} {o : Outcome} : x.waiting = some w →
      x.courses.get? w.old = some c → c.outcome? w.call = some o →
      Steps walls x .place (x.place w.config)
  | finds {address : String} : x.waiting = none →
      Steps walls x (.ask (.get address))
        (x.note (.found address ((x.registry.find? address).map (·.device))))
  | misses {address : String} : x.waiting = none → x.registry.find? address = none →
      Steps walls x (.ask (.remove address)) (x.note (.removed address none))
  | removes {address : String} {e : Registered DeviceNumber} {c c' : Course} : x.waiting = none →
      x.registry.find? address = some e → x.Disconnects walls e.device c c' →
      Steps walls x (.ask (.remove address))
        ({ x.onCourse e.device c' with
          registry := x.registry.erase (Text.upperCase address) }.note
            (.removed address (some (e.device, c.nextCall))))
  | lists : x.waiting = none →
      Steps walls x (.ask .list) (x.note (.listed x.registry.addresses))
  | counts : x.waiting = none → Steps walls x (.ask .count) (x.note (.counted x.registry.length))

theorem drive?_eq (d : DeviceNumber) (a : Action) (h : x.drive? walls d a = some y) :
    ∃ c c', x.courses.get? d = some c ∧ c.take? (walls d) a = some c' ∧ y = x.onCourse d c' := by
  obtain ⟨c, hc, h⟩ := Option.bind_eq_some_iff.mp h
  obtain ⟨c', step, rfl⟩ := Option.map_eq_some_iff.mp h
  exact ⟨c, c', hc, step, rfl⟩

theorem disconnect?_eq {call : CallId} (h : x.disconnect? walls d = some (y, call)) :
    ∃ c c', x.Disconnects walls d c c' ∧ y = x.onCourse d c' ∧ call = c.nextCall := by
  obtain ⟨c, hc, h⟩ := Option.bind_eq_some_iff.mp h
  obtain ⟨z, hz, e⟩ := Option.map_eq_some_iff.mp h
  obtain ⟨rfl, rfl⟩ := Prod.mk.inj e
  obtain ⟨c₁, c', hc₁, step, rfl⟩ := drive?_eq d _ hz
  obtain rfl := Option.some.inj (hc.symm.trans hc₁)
  exact ⟨c, c', ⟨hc, step⟩, rfl, rfl⟩

theorem take?_steps (step : x.take? walls m = some y) : x.Steps walls m y := by
  cases m with
  | device d a =>
    obtain ⟨c, c', hc, hstep, rfl⟩ := drive?_eq d a step
    exact .drives hc hstep
  | place =>
    obtain ⟨w, hw, step⟩ := Option.bind_eq_some_iff.mp step
    obtain ⟨o, ho, rfl⟩ := Option.map_eq_some_iff.mp step
    obtain ⟨c, hc, ho⟩ := Option.bind_eq_some_iff.mp ho
    exact .replaces hw hc ho
  | ask q =>
    rw [take?] at step
    split at step
    · cases step
    · rename_i free
      have free : x.waiting = none := by simpa using free
      cases q with
      | get address =>
        obtain rfl := Option.some.inj step
        exact .finds free
      | list =>
        obtain rfl := Option.some.inj step
        exact .lists free
      | count =>
        obtain rfl := Option.some.inj step
        exact .counts free
      | register config =>
        simp only [ask?, register?, Registry.register] at step
        cases he : x.registry.get? config.address with
        | none =>
          simp only [he] at step
          obtain rfl := Option.some.inj step
          exact .places free he
        | some e =>
          simp only [he] at step
          cases same : e.config.sameLink config with
          | true =>
            simp only [same, if_true] at step
            obtain ⟨z, hz, rfl⟩ := Option.map_eq_some_iff.mp step
            obtain ⟨c, c', hc, hstep, rfl⟩ := drive?_eq _ _ hz
            exact .keeps free he same hc hstep
          | false =>
            simp only [same, Bool.false_eq_true, if_false] at step
            obtain ⟨⟨z, call⟩, hz, rfl⟩ := Option.map_eq_some_iff.mp step
            obtain ⟨c, c', hd, rfl, rfl⟩ := disconnect?_eq hz
            exact .displaces free he same hd
      | remove address =>
        simp only [ask?, remove?, Registry.remove] at step
        cases he : x.registry.find? address with
        | none =>
          simp only [he, Option.map_none] at step
          obtain rfl := Option.some.inj step
          exact .misses free he
        | some e =>
          simp only [he, Option.map_some] at step
          obtain ⟨⟨z, call⟩, hz, rfl⟩ := Option.map_eq_some_iff.mp step
          obtain ⟨c, c', hd, rfl, rfl⟩ := disconnect?_eq hz
          exact .removes free he hd

theorem disconnects_of_course (walls : DeviceNumber → Nat → Clock)
    (hc : x.courses.get? d = some c) : ∃ c', x.Disconnects walls d c c' ∧
      x.disconnect? walls d = some (x.onCourse d c', c.nextCall) := by
  obtain ⟨c', step⟩ : ∃ c', c.take? (walls d) (.invoke c.nextCall .disconnect) = some c' := by
    simp [Course.take?, Course.react?]
  exact ⟨c', ⟨hc, step⟩, by simp [disconnect?, drive?, hc, step]⟩

end Fleet

end HeaterLink
