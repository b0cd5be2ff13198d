import HeaterLink.Proofs.Fleet.Moves

/-!
# What every fleet has

The device under an address was made for a configuration with that address and
still has it, no address is there twice, and no number is given to two devices.
Whoever keeps the registry to himself waits for a call that disconnects the
device whose place he wants, and so does whoever removed a device.
-/

set_option autoImplicit false

namespace HeaterLink.Fleet

variable {walls : DeviceNumber → Nat → Clock} {x y : Fleet} {m : Move} {c c' : Course}
  {d d' : DeviceNumber} {config : Config} {a : Action} {call : CallId} {deed : Deed}

def Asked (x : Fleet) (d : DeviceNumber) (call : CallId) : Prop :=
  ∃ c j, x.courses.get? d = some c ∧ c.Invoked j call .disconnect

structure Displaces (x : Fleet) (w : Displacement) : Prop where
  asked : x.Asked w.old w.call
  stored : ∃ e, x.registry.get? w.config.address = some e ∧ e.device = w.old ∧
    e.config.sameLink w.config = false
  latest : x.log.getLast? = some (.displacing w.config w.old w.call)

structure Sound (walls : DeviceNumber → Nat → Clock) (x : Fleet) : Prop where
  courses : ∀ d c, x.courses.get? d = some c →
    Course.Reached (walls d) c.session.config c ∧ d < x.next
  entries : ∀ address e, x.registry.get? address = some e → e.config.address = address ∧
    ∃ c, x.courses.get? e.device = some c ∧ c.session.config = e.config
  keys : x.registry.keys.Nodup
  waiting : ∀ w, x.waiting = some w → x.Displaces w
  leaving : ∀ address d call, .removed address (some (d, call)) ∈ x.log → x.Asked d call

theorem onCourse_get? (x : Fleet) (d d' : DeviceNumber) (c : Course) :
    (x.onCourse d c).courses.get? d' = if d = d' then some c else x.courses.get? d' :=
  Table.get?_insert _ _ _ _

theorem place_get? (x : Fleet) (config : Config) (d : DeviceNumber) :
    (x.place config).courses.get? d =
      if x.next = d then some (Course.start config) else x.courses.get? d :=
  Table.get?_insert _ _ _ _

/-- What happens to a device does not change what it was made for. -/
theorem config_of_take? (h : Course.Reached (walls d) c.session.config c)
    (step : c.take? (walls d) a = some c') :
    c'.session.config = c.session.config ∧ Course.Reached (walls d) c'.session.config c' := by
  have reached := Course.reached_take? h step
  have same := (Course.reached_setUp c' reached).settings
  exact ⟨same, same ▸ reached⟩

section OnCourse

variable (hc : x.courses.get? d = some c) (step : c.take? (walls d) a = some c')
include hc step

theorem Asked.onCourse (h : x.Asked d' call) : (x.onCourse d c').Asked d' call := by
  obtain ⟨c₁, j, hc₁, hj⟩ := h
  by_cases same : d = d'
  · subst same
    obtain rfl := Option.some.inj (hc.symm.trans hc₁)
    obtain ⟨after, -, grows⟩ := Course.take?_grows step
    exact ⟨c', j, by rw [onCourse_get?, if_pos rfl], grows.begins.invoked hj⟩
  · exact ⟨c₁, j, by rw [onCourse_get?, if_neg same, hc₁], hj⟩

theorem Displaces.onCourse {w : Displacement} (h : x.Displaces w) :
    (x.onCourse d c').Displaces w :=
  ⟨h.asked.onCourse hc step, h.stored, h.latest⟩

theorem Sound.onCourse (h : x.Sound walls) : (x.onCourse d c').Sound walls where
  courses := by
    intro d₁ c₁ h₁
    rw [onCourse_get?] at h₁
    split at h₁
    · rename_i same
      obtain rfl := Option.some.inj h₁
      subst same
      obtain ⟨reached, lt⟩ := h.courses d c hc
      exact ⟨(config_of_take? reached step).2, lt⟩
    · exact h.courses d₁ c₁ h₁
  entries := by
    intro address e he
    obtain ⟨key, c₁, h₁, settings⟩ := h.entries address e he
    refine ⟨key, ?_⟩
    rw [onCourse_get?]
    split
    · rename_i same
      rw [← same] at h₁
      obtain rfl := Option.some.inj (hc.symm.trans h₁)
      exact ⟨c', rfl, (config_of_take? (h.courses d c hc).1 step).1.trans settings⟩
    · exact ⟨c₁, h₁, settings⟩
  keys := h.keys
  waiting := fun w hw => (h.waiting w hw).onCourse hc step
  leaving := fun address d₁ call₁ mem => (h.leaving address d₁ call₁ mem).onCourse hc step

end OnCourse

theorem Asked.place (h : x.Sound walls) (ha : x.Asked d call) (config : Config) :
    (x.place config).Asked d call := by
  obtain ⟨c, j, hc, hj⟩ := ha
  have old : x.next ≠ d := Nat.ne_of_gt (h.courses d c hc).2
  exact ⟨c, j, by rw [place_get?, if_neg old, hc], hj⟩

/-- A device that is disconnected is asked for it. -/
theorem Disconnects.asked (h : x.Disconnects walls d c c') :
    (x.onCourse d c').Asked d c.nextCall := by
  obtain ⟨after, -, grows⟩ := Course.take?_grows h.step
  refine ⟨c', c.history.length, by rw [onCourse_get?, if_pos rfl], ?_⟩
  exact (Course.invoked_snoc_iff grows.history).mpr (.inr ⟨rfl, rfl⟩)

def Vacant (x : Fleet) (config : Config) : Prop :=
  ∀ e, x.registry.get? config.address = some e → e.config.sameLink config = false

theorem vacant_of_none (he : x.registry.get? config.address = none) : x.Vacant config :=
  fun e he' => by cases he.symm.trans he'

theorem Displaces.vacant {w : Displacement} (h : x.Displaces w) : x.Vacant w.config := by
  obtain ⟨e, he, -, changed⟩ := h.stored
  exact fun e' he' => Option.some.inj (he.symm.trans he') ▸ changed

theorem place_registry (h : x.Vacant config) :
    (x.place config).registry = x.registry.insert config.address ⟨config, x.next⟩ := by
  show (x.registry.register config x.next).1 = _
  unfold Registry.register
  cases he : x.registry.get? config.address with
  | none => rfl
  | some e => simp [h e he]

theorem Sound.place (h : x.Sound walls) (vacant : x.Vacant config) :
    (x.place config).Sound walls where
  courses := by
    intro d c hc
    rw [place_get?] at hc
    split at hc
    · rename_i same
      obtain rfl := Option.some.inj hc
      exact ⟨Course.reached_start _ config, same ▸ Nat.lt_succ_self _⟩
    · obtain ⟨reached, lt⟩ := h.courses d c hc
      exact ⟨reached, Nat.lt_succ_of_lt lt⟩
  entries := by
    intro address e he
    rw [place_registry vacant, Table.get?_insert] at he
    split at he
    · rename_i same
      obtain rfl := Option.some.inj he
      exact ⟨same, Course.start config, by rw [place_get?, if_pos rfl], rfl⟩
    · obtain ⟨key, c, hc, settings⟩ := h.entries address e he
      have old : x.next ≠ e.device := Nat.ne_of_gt (h.courses _ c hc).2
      exact ⟨key, c, by rw [place_get?, if_neg old, hc], settings⟩
  keys := by
    rw [place_registry vacant]
    exact Table.nodup_insert h.keys _ _
  waiting := fun w hw => by cases hw
  leaving := by
    intro address d call mem
    refine Asked.place h (h.leaving address d call ?_) config
    simpa [Fleet.place, note] using mem

theorem Sound.note (h : x.Sound walls) (free : x.waiting = none)
    (quiet : ∀ address d call, deed = .removed address (some (d, call)) → x.Asked d call) :
    (x.note deed).Sound walls where
  courses := h.courses
  entries := h.entries
  keys := h.keys
  waiting := fun w hw => by cases free.symm.trans hw
  leaving := by
    intro address d call mem
    rcases List.mem_append.mp mem with mem | mem
    · exact h.leaving address d call mem
    · exact quiet address d call (List.mem_singleton.mp mem).symm

theorem Steps.sound (h : x.Sound walls) (step : x.Steps walls m y) : y.Sound walls := by
  cases step with
  | drives hc step => exact h.onCourse hc step
  | keeps free he same hc step => exact (h.onCourse hc step).note free (by simp)
  | places free he => exact h.place (vacant_of_none he)
  | @displaces config e c c' free he changed hd =>
    have sound := h.onCourse hd.course hd.step
    have latest (deeds : List Deed) (deed : Deed) :
        (deeds ++ [deed]).getLast? = some deed := List.getLast?_concat
    refine ⟨sound.courses, sound.entries, sound.keys, fun w hw => ?_, ?_⟩
    · obtain rfl := Option.some.inj hw
      exact ⟨hd.asked, ⟨e, he, rfl, changed⟩, latest _ _⟩
    · intro address d call mem
      refine sound.leaving address d call ?_
      simpa [Fleet.note] using mem
  | replaces hw hc ho => exact h.place (h.waiting _ hw).vacant
  | finds free => exact h.note free (by simp)
  | misses free he => exact h.note free (by simp)
  | @removes address e c c' free he hd =>
    have sound := h.onCourse hd.course hd.step
    have left : Sound walls { x.onCourse e.device c' with
        registry := x.registry.erase (Text.upperCase address) } := by
      refine ⟨sound.courses, fun address' e' he' => ?_, Table.nodup_erase h.keys _,
        fun w hw => (by cases free.symm.trans hw), sound.leaving⟩
      rw [Table.get?_erase] at he'
      split at he'
      · cases he'
      · exact sound.entries address' e' he'
    refine left.note free fun address' d call e => ?_
    obtain ⟨-, e⟩ := Deed.removed.inj e
    obtain ⟨rfl, rfl⟩ := Prod.mk.inj (Option.some.inj e)
    exact hd.asked
  | lists free => exact h.note free (by simp)
  | counts free => exact h.note free (by simp)

theorem reached_sound : ∀ x, Reached walls x → x.Sound walls := by
  refine reached_induction ?_ fun x m y _ h step => (take?_steps step).sound h
  constructor
  case courses => exact fun d c hc => by cases hc
  case entries => exact fun address e he => by cases he
  case keys => exact List.nodup_nil
  case waiting => exact fun w hw => by cases hw
  case leaving => exact fun address d call mem => by cases mem

end HeaterLink.Fleet
