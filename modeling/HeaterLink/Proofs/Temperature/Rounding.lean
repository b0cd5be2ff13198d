import HeaterLink.Proofs.Temperature.Patterns

/-!
# Rounding a temperature for the element

A turn-on frame takes any temperature that rounds to a byte and carries the
nearest whole number of degrees. This is exact for every pattern: below a half
there is no rounding up, half a degree below zero is out of range already while
anything above it is zero degrees, and half a degree above 255 is out of range
again.
-/

set_option autoImplicit false

namespace HeaterLink

open Float.Model UnpackedFloat

structure Nearest (v : ℚ) (n : ℤ) : Prop where
  closest : ∀ k : ℤ, |v - n| ≤ |v - k|
  away : ∀ k : ℤ, |v - k| = |v - n| → |k| ≤ |n|

theorem nearest_round {v : ℚ} (h : -(1 / 2) < v) : Nearest v (round v) := by
  obtain ⟨hlow, hhigh⟩ := round_eq_iff.mp (rfl : round v = round v)
  refine ⟨round_le v, fun k hk => ?_⟩
  have hpos : 0 ≤ round v := by
    have hone : (-1 : ℚ) < round v := by linarith
    have hone : (-1 : ℤ) < round v := by exact_mod_cast hone
    omega
  rcases abs_eq_abs.mp hk with same | across
  · have hk : (k : ℚ) = round v := by linarith
    rw [Int.cast_inj.mp hk]
  · -- the other neighbour lies one below, and not below zero
    have hsum : (k : ℚ) + round v = 2 * v := by linarith
    have hle : (k : ℚ) < round v + 1 := by linarith
    have hge : (-1 : ℚ) < k + round v := by linarith
    have hle : k < round v + 1 := by exact_mod_cast hle
    have hge : -1 < k + round v := by exact_mod_cast hge
    rw [abs_of_nonneg hpos, abs_le]
    omega

theorem Nearest.bounds {v : ℚ} {n : ℤ} (h : Nearest v n) (hn : 0 ≤ n) :
    -(1 / 2) < v ∧ v < n + 1 / 2 := by
  have hcast : (0 : ℚ) ≤ n := by exact_mod_cast hn
  have above : v < n + 1 / 2 := by
    by_contra! hge
    have hclosest := h.closest (n + 1)
    push_cast at hclosest
    rw [abs_of_nonneg (by linarith), le_abs] at hclosest
    have htie : v = n + 1 / 2 := by rcases hclosest with h | h <;> linarith
    have haway := h.away (n + 1) (by rw [htie]; push_cast; norm_num)
    rw [abs_of_nonneg hn, abs_of_nonneg (by omega)] at haway
    omega
  have below : -(1 / 2) < v := by
    by_contra! hle
    have hclosest := h.closest (n - 1)
    push_cast at hclosest
    rw [abs_of_nonpos (by linarith), le_abs] at hclosest
    have hzero : (n : ℚ) = 0 := by rcases hclosest with h | h <;> linarith
    have htie : v = -(1 / 2) := by rcases hclosest with h | h <;> linarith
    obtain rfl : n = 0 := by exact_mod_cast hzero
    have haway := h.away (-1) (by rw [htie]; norm_num)
    norm_num at haway
  exact ⟨below, above⟩

theorem nearestDegree_eq_round (n : ℤ) :
    nearestDegree n = round ((n : ℚ) / (stepsPerDegree : ℚ)) := by
  have hpos : (0 : ℚ) < (stepsPerDegree : ℚ) := Nat.cast_pos.mpr stepsPerDegree_pos
  have hhalf : (n : ℚ) / (stepsPerDegree : ℚ) + 1 / 2 =
      ((2 * n + stepsPerDegree : ℤ) : ℚ) / ((2 * stepsPerDegree : ℕ) : ℚ) := by
    push_cast
    field_simp
  rw [round_eq, hhalf, Rat.floor_intCast_div_natCast, nearestDegree]
  norm_cast

theorem nearestDegree_lt_iff {n d : ℤ} :
    nearestDegree n < d ↔ 2 * n + stepsPerDegree < d * (2 * stepsPerDegree) := by
  have hpos := stepsPerDegree_pos
  exact Int.ediv_lt_iff_lt_mul (by omega)

/-- A temperature comes down to a byte if it is more than half a degree below zero and less
than half a degree above 255. -/
theorem wholeDegrees?_isSome_iff (x : Float) : (wholeDegrees? x).isSome ↔
    x.isFinite ∧ -(stepsPerDegree : ℤ) < 2 * inSteps x ∧ 2 * inSteps x < 511 * stepsPerDegree := by
  have hpos := stepsPerDegree_pos
  have hcanonical (hx : x.toModel.unpack.isFinite) := Scale.canonical_unpack (x := x) hx
  show (wholeDegrees? x).isSome ↔ x.toModel.unpack.isFinite ∧
    -(stepsPerDegree : ℤ) < 2 * Scale.steps x.toModel.unpack ∧
      2 * Scale.steps x.toModel.unpack < 511 * stepsPerDegree
  unfold wholeDegrees?
  generalize x.toModel.unpack = u at hcanonical ⊢
  cases u with
  | infinity s => simp [UnpackedFloat.isFinite]
  | notANumber => simp [UnpackedFloat.isFinite]
  | zero s => simp [UnpackedFloat.isFinite, Scale.steps, hpos]
  | finite s m e pos =>
    cases hcanonical rfl with
    | finite _ _ least _ _ =>
      have hround := roundHalfUp_eq m least
      have hmagnitude := Scale.magnitude_pos pos e
      have hmost : roundHalfUp m e ≤ 255 ↔ nearestDegree (m * 2 ^ (e + 1074).toNat : ℕ) < 256 := by
        omega
      have hleast : roundHalfUp m e = 0 ↔ nearestDegree (m * 2 ^ (e + 1074).toNat : ℕ) < 1 := by
        omega
      rw [nearestDegree_lt_iff] at hmost hleast
      cases s with
      | positive =>
        have hsteps : Scale.steps (.finite .positive m e pos) =
          ((m * 2 ^ (e + 1074).toNat : ℕ) : ℤ) := rfl
        simp only [hsteps, UnpackedFloat.isFinite, Option.isSome_ite, hmost, true_and]
        generalize ((m * 2 ^ (e + 1074).toNat : ℕ) : ℤ) = n at hmagnitude
        omega
      | negative =>
        have hsteps : Scale.steps (.finite .negative m e pos) =
          -((m * 2 ^ (e + 1074).toNat : ℕ) : ℤ) := rfl
        simp only [hsteps, UnpackedFloat.isFinite, Option.isSome_ite, hleast, true_and]
        generalize ((m * 2 ^ (e + 1074).toNat : ℕ) : ℤ) = n at hmagnitude
        omega

theorem half_below_iff (n : ℤ) :
    -(1 / 2) < (n : ℚ) / (stepsPerDegree : ℚ) ↔ -(stepsPerDegree : ℤ) < 2 * n := by
  have hpos : (0 : ℚ) < (stepsPerDegree : ℚ) := Nat.cast_pos.mpr stepsPerDegree_pos
  rw [lt_div_iff₀ hpos, ← Int.cast_lt (R := ℚ)]
  push_cast
  constructor <;> intro h <;> linarith

theorem half_above_iff (n : ℤ) :
    (n : ℚ) / (stepsPerDegree : ℚ) < 255 + 1 / 2 ↔ 2 * n < 511 * stepsPerDegree := by
  have hpos : (0 : ℚ) < (stepsPerDegree : ℚ) := Nat.cast_pos.mpr stepsPerDegree_pos
  rw [div_lt_iff₀ hpos, ← Int.cast_lt (R := ℚ)]
  push_cast
  constructor <;> intro h <;> linarith

theorem wholeDegrees?_isSome_iff_value (x : Float) : (wholeDegrees? x).isSome ↔
    x.isFinite ∧ -(1 / 2) < exactValue x ∧ exactValue x < 255 + 1 / 2 := by
  rw [wholeDegrees?_isSome_iff, exactValue, half_below_iff, half_above_iff]

theorem round_of_wholeDegrees? {x : Float} {d : UInt8} (h : wholeDegrees? x = some d) :
    x.isFinite ∧ (d.toNat : ℤ) = round (exactValue x) := by
  obtain ⟨hfinite, hnearest⟩ := wholeDegrees?_eq_some h
  exact ⟨hfinite, hnearest.trans (nearestDegree_eq_round _)⟩

def RoundsToByte (x : Float) : Prop := x.isFinite ∧ ∃ d : UInt8, Nearest (exactValue x) d.toNat

theorem wholeDegrees?_isSome_iff_rounds (x : Float) :
    (wholeDegrees? x).isSome ↔ RoundsToByte x := by
  constructor
  · intro h
    obtain ⟨hfinite, hlow, -⟩ := (wholeDegrees?_isSome_iff_value x).mp h
    obtain ⟨d, hd⟩ := Option.isSome_iff_exists.mp h
    refine ⟨hfinite, d, ?_⟩
    rw [(round_of_wholeDegrees? hd).2]
    exact nearest_round hlow
  · rintro ⟨hfinite, d, hnearest⟩
    obtain ⟨hlow, hhigh⟩ := hnearest.bounds (Int.natCast_nonneg _)
    have hbyte : ((d.toNat : ℤ) : ℚ) ≤ 255 := by exact_mod_cast Nat.le_of_lt_succ d.toNat_lt
    exact (wholeDegrees?_isSome_iff_value x).mpr ⟨hfinite, hlow, by linarith⟩

theorem Command.turnOnAt_eq_ok {x : Float} {d : UInt8} :
    Command.turnOnAt x = .ok (.turnOn d) ↔ wholeDegrees? x = some d := by
  unfold Command.turnOnAt
  cases wholeDegrees? x <;> simp

theorem Command.turnOnAt_eq_error {x : Float} {f : FrameFault} :
    Command.turnOnAt x = .error f ↔ ¬RoundsToByte x ∧ f = .temperatureOutOfRange x := by
  rw [← wholeDegrees?_isSome_iff_rounds]
  unfold Command.turnOnAt
  cases wholeDegrees? x <;> simp [eq_comm]

section Patterns

variable {b b' : UInt64} {v v' : ℚ} {d d' : UInt8}

theorem eq_exactValue (h : patternValue? b = some v) :
    (Float.ofBits b).isFinite ∧ v = exactValue (.ofBits b) := by
  rw [patternValue?_eq] at h
  split at h
  · exact ⟨‹_›, (Option.some.inj h).symm⟩
  · cases h

theorem degrees_mono (hv : patternValue? b = some v) (hv' : patternValue? b' = some v')
    (hle : v ≤ v') (hd : wholeDegrees? (.ofBits b) = some d)
    (hd' : wholeDegrees? (.ofBits b') = some d') : d ≤ d' := by
  have hround := (round_of_wholeDegrees? hd).2
  have hround' := (round_of_wholeDegrees? hd').2
  rw [← (eq_exactValue hv).2] at hround
  rw [← (eq_exactValue hv').2] at hround'
  have hfloor : round v ≤ round v' := by
    rw [round_eq, round_eq]
    exact Int.floor_mono (by linarith)
  rw [UInt8.le_iff_toNat_le]
  omega

end Patterns

/-- A temperature that rounds to a byte is sent as the nearest whole number of degrees, any other
is refused, and a higher temperature is never sent as a lower number of degrees. -/
theorem turnOnAt_rounds (b : UInt64) :
    (∀ v, patternValue? b = some v → -(1 / 2) < v → v < 255 + 1 / 2 → ∃ d : UInt8,
      Nearest v d.toNat ∧ (Command.turnOnAt (.ofBits b)).map Command.frame =
        .ok (magic ++ [5, 0, 0, 0x84, d])) ∧
    ((∀ v, patternValue? b = some v → v ≤ -(1 / 2) ∨ 255 + 1 / 2 ≤ v) →
      Command.turnOnAt (.ofBits b) = .error (.temperatureOutOfRange (.ofBits b))) ∧
    ∀ b' v v' d d', patternValue? b = some v → patternValue? b' = some v' → v ≤ v' →
      Command.turnOnAt (.ofBits b) = .ok (.turnOn d) →
      Command.turnOnAt (.ofBits b') = .ok (.turnOn d') → d ≤ d' := by
  refine ⟨fun v hv hlow hhigh => ?_, fun outside => ?_, ?_⟩
  · obtain ⟨hfinite, rfl⟩ := eq_exactValue hv
    obtain ⟨d, hd⟩ := Option.isSome_iff_exists.mp
      ((wholeDegrees?_isSome_iff_value _).mpr ⟨hfinite, hlow, hhigh⟩)
    refine ⟨d, ?_, ?_⟩
    · rw [(round_of_wholeDegrees? hd).2]
      exact nearest_round hlow
    · rw [Command.turnOnAt_eq_ok.mpr hd]
      rfl
  · rw [Command.turnOnAt_eq_error, ← wholeDegrees?_isSome_iff_rounds,
      wholeDegrees?_isSome_iff_value]
    refine ⟨?_, rfl⟩
    rintro ⟨hfinite, hlow, hhigh⟩
    rcases outside _ (by rw [patternValue?_eq, if_pos hfinite]) with h | h <;> linarith
  · intro b' v v' d d' hv hv' hle hd hd'
    exact degrees_mono hv hv' hle (Command.turnOnAt_eq_ok.mp hd) (Command.turnOnAt_eq_ok.mp hd')

/-- Half a degree is sent as one, half a degree above 255 is refused, and so is no number. -/
theorem turnOnAt_rounds_halves :
    (∃ d : UInt8, Nearest (1 / 2) d.toNat ∧
      (Command.turnOnAt (.ofBits 0x3FE0000000000000)).map Command.frame =
        .ok (magic ++ [5, 0, 0, 0x84, d])) ∧
    Command.turnOnAt (.ofBits 0x406FF00000000000) =
      .error (.temperatureOutOfRange (.ofBits 0x406FF00000000000)) ∧
    Command.turnOnAt (.ofBits 0x7FF8000000000000) =
      .error (.temperatureOutOfRange (.ofBits 0x7FF8000000000000)) ∧
    (0 : UInt8) ≤ 1 := by
  have half : patternValue? 0x3FE0000000000000 = some (1 / 2) := by decide +kernel
  have zero : patternValue? 0x8000000000000000 = some 0 := by decide +kernel
  have above : patternValue? 0x406FF00000000000 = some (511 / 2) := by decide +kernel
  have noNumber : patternValue? 0x7FF8000000000000 = none := by decide +kernel
  refine ⟨(turnOnAt_rounds _).1 _ half (by norm_num) (by norm_num),
    (turnOnAt_rounds _).2.1 fun v hv => ?_, (turnOnAt_rounds _).2.1 fun v hv => ?_,
    (turnOnAt_rounds _).2.2 _ _ _ _ _ zero half (by norm_num) (by decide +kernel)
      (by decide +kernel)⟩
  · obtain rfl := Option.some.inj (above.symm.trans hv)
    norm_num
  · rw [noNumber] at hv
    cases hv

end HeaterLink
